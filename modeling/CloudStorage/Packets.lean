import CloudStorage.Bytes

set_option autoImplicit false

/-! # The packets of a session

The plaintext messages that client and server exchange after login (`packets/`), with the constants
they are laid out by. Three shapes cover all of them: a request of a common length with fixed-width
name fields, an acknowledgement with or without a 32-bit size, and a chunk of file data behind a
command code. Each packet of the source is its shape applied to its own command code. -/

namespace CloudStorage

/-! ## Constants -/

/-- The registered users. -/
def usernameList : List Buffer := [ascii "user1", ascii "user2", ascii "user3"]

namespace RequestCodes

def uploadReq : UInt8 := 1
def uploadChunk : UInt8 := 2
def downloadReq : UInt8 := 3
def downloadChunk : UInt8 := 4
def listReq : UInt8 := 5
def renameReq : UInt8 := 6
def deleteReq : UInt8 := 7
def logoutReq : UInt8 := 8

end RequestCodes

namespace Max

/-- Length limit of a file name. -/
def fileName : Nat := 255
def usernameLength : Nat := 50
def passwordLength : Nat := 50
/-- Data bytes in a full chunk. -/
def maxFileChunk : Nat := 15
/-- 4 GiB, the first file size the client refuses to upload. -/
def maxFileSize : Nat := 4 * 1024 * 1024 * 1024
/-- The counter value after which a session must be started anew. -/
def counterMaxValue : Nat := intMax
/-- Plaintext length of every request. -/
def initialRequestLength : Nat := 520

end Max

/-! ## Name fields -/

/-- A `char[MAX::file_name + 1]` member. -/
structure NameField where
  bytes : Buffer
  length_bytes : bytes.length = Max.fileName + 1

/-- The field after `strncpy(field, name.c_str(), MAX::file_name + 1)`. -/
def NameField.ofName (name : Buffer) : NameField :=
  ⟨strncpy (Max.fileName + 1) name, length_strncpy _ _⟩

/-- The field after a `memcpy` from `input`. -/
def NameField.ofBytes (input : Buffer) : NameField :=
  ⟨fit (Max.fileName + 1) input, length_fit _ _⟩

theorem NameField.ext_bytes {f g : NameField} (h : f.bytes = g.bytes) : f = g := by
  cases f
  cases g
  cases h
  rfl

/-- Reading back a field that was written at the start of the rest of a packet. -/
theorem NameField.ofBytes_append (f : NameField) (rest : Buffer) :
    NameField.ofBytes (f.bytes ++ rest) = f := by
  apply NameField.ext_bytes
  simp only [NameField.ofBytes, fit, ← f.length_bytes, List.take_left, List.length_append]
  simp

/-! ## Requests -/

/-- The first byte of a packet. -/
def commandCode (payload : Buffer) : UInt8 := payload.headD 0

/-- `UploadM1`: announces a file by name and size. -/
structure UploadM1 where
  commandCode : UInt8
  fileSize : Nat
  fileName : NameField

namespace UploadM1

/-- The constructor from a name and a size, which is passed as a `uint32_t`. -/
def new (fileName : Buffer) (fileSize : Nat) : UploadM1 :=
  ⟨RequestCodes.uploadReq, wordOfSize fileSize, .ofName fileName⟩

def serialize (order : ByteOrder) (m : UploadM1) : Buffer :=
  fit Max.initialRequestLength
    (m.commandCode :: (m.fileName.bytes ++ image order (htonl order m.fileSize)))

def deserialize (order : ByteOrder) (input : Buffer) : UploadM1 :=
  { commandCode := CloudStorage.commandCode input,
    fileName := .ofBytes (input.drop 1),
    fileSize := ntohl order (ofImage order (fit 4 (input.drop (1 + (Max.fileName + 1))))) }

end UploadM1

/-- A request that carries one name: `DownloadM1` and `DeleteM1`. -/
structure NameM1 where
  commandCode : UInt8
  fileName : NameField

namespace NameM1

def serialize (m : NameM1) : Buffer :=
  fit Max.initialRequestLength (m.commandCode :: m.fileName.bytes)

def deserialize (input : Buffer) : NameM1 :=
  { commandCode := CloudStorage.commandCode input, fileName := .ofBytes (input.drop 1) }

end NameM1

/-- `DownloadM1`. -/
def DownloadM1 (fileName : Buffer) : NameM1 := ⟨RequestCodes.downloadReq, .ofName fileName⟩

/-- `DeleteM1`. -/
def DeleteM1 (fileName : Buffer) : NameM1 := ⟨RequestCodes.deleteReq, .ofName fileName⟩

/-- `RenameM1`. -/
structure RenameM1 where
  commandCode : UInt8
  fileName : NameField
  newFileName : NameField

namespace RenameM1

def new (fileName newFileName : Buffer) : RenameM1 :=
  ⟨RequestCodes.renameReq, .ofName fileName, .ofName newFileName⟩

def serialize (m : RenameM1) : Buffer :=
  fit Max.initialRequestLength (m.commandCode :: (m.fileName.bytes ++ m.newFileName.bytes))

def deserialize (input : Buffer) : RenameM1 :=
  { commandCode := CloudStorage.commandCode input,
    fileName := .ofBytes (input.drop 1),
    newFileName := .ofBytes (input.drop (1 + (Max.fileName + 1))) }

end RenameM1

/-- A request of a command code alone: `ListM1` and `LogoutM1`. -/
def CodeM1.serialize (commandCode : UInt8) : Buffer := fit Max.initialRequestLength [commandCode]

/-- `ListM1::serialize`. -/
def ListM1.serialize : Buffer := CodeM1.serialize RequestCodes.listReq

/-- `LogoutM1::serialize`. -/
def LogoutM1.serialize : Buffer := CodeM1.serialize RequestCodes.logoutReq

/-! ## Acknowledgements -/

/-- A two-byte acknowledgement: `UploadAck`, `RenameAck`, `DeleteAck` and `LogoutAck`. -/
structure Ack where
  commandCode : UInt8
  ackCode : UInt8
  deriving DecidableEq, Repr

namespace Ack

def serialize (a : Ack) : Buffer := [a.commandCode, a.ackCode]

def deserialize (input : Buffer) : Ack := ⟨input.getD 0 0, input.getD 1 0⟩

def getSize : Nat := 2

end Ack

def UploadAck (ackCode : UInt8) : Ack := ⟨RequestCodes.uploadReq, ackCode⟩
def RenameAck (ackCode : UInt8) : Ack := ⟨RequestCodes.renameReq, ackCode⟩
def DeleteAck (ackCode : UInt8) : Ack := ⟨RequestCodes.deleteReq, ackCode⟩
def LogoutAck (ackCode : UInt8) : Ack := ⟨RequestCodes.logoutReq, ackCode⟩

/-- An acknowledgement with a `uint32_t` size before the code: `DownloadAck` and `ListM2`. -/
structure SizedAck where
  commandCode : UInt8
  ackCode : UInt8
  size : Nat

namespace SizedAck

def serialize (order : ByteOrder) (a : SizedAck) : Buffer :=
  a.commandCode :: (image order (htonl order a.size) ++ [a.ackCode])

def deserialize (order : ByteOrder) (input : Buffer) : SizedAck :=
  { commandCode := input.getD 0 0,
    size := ntohl order (ofImage order (fit 4 (input.drop 1))),
    ackCode := input.getD 5 0 }

def getSize : Nat := 6

end SizedAck

/-- `DownloadAck(ack_code, file_size)`; the constructor without a size passes 0. -/
def DownloadAck (ackCode : UInt8) (fileSize : Nat) : SizedAck :=
  ⟨RequestCodes.downloadReq, ackCode, wordOfSize fileSize⟩

/-- `ListM2(ack_code, file_list_size)`. -/
def ListM2 (ackCode : UInt8) (fileListSize : Nat) : SizedAck :=
  ⟨RequestCodes.listReq, ackCode, wordOfSize fileListSize⟩

/-! ## Data -/

/-- A `size_t` that `std::vector` refuses to allocate: past `max_size()`. -/
def tooLarge (n : Nat) : Bool := 9223372036854775808 ≤ n

/-- A chunk of file data behind a command code: `UploadM2` and `DownloadM2`. -/
structure ChunkM2 where
  commandCode : UInt8
  fileChunk : Buffer

namespace ChunkM2

/-- `getSize` adds up in an `int` and returns a `size_t`. -/
def getSize (chunkSize : Nat) : Nat := sizeOfInt (intOfSize (1 + chunkSize))

/-- `none` when `getSize` is not the length of what is to be written: the vector's constructor
    throws `std::length_error`. -/
def serialize (m : ChunkM2) : Option Buffer :=
  if getSize m.fileChunk.length = 1 + m.fileChunk.length then some (m.commandCode :: m.fileChunk)
  else none

def deserialize (input : Buffer) : ChunkM2 := ⟨CloudStorage.commandCode input, input.drop 1⟩

end ChunkM2

def UploadM2 (fileChunk : Buffer) : ChunkM2 := ⟨RequestCodes.uploadChunk, fileChunk⟩
def DownloadM2 (fileChunk : Buffer) : ChunkM2 := ⟨RequestCodes.downloadChunk, fileChunk⟩

namespace ListM3

/-- `ListM3::getSize`, an `int`, passed on as a `size_t`. -/
def getSize (fileListSize : Nat) : Nat := sizeOfInt (intOfSize (1 + fileListSize))

/-- The list data behind its command code; `none` when the vector cannot be allocated. -/
def serialize (fileListData : Buffer) : Option Buffer :=
  if getSize fileListData.length = 1 + fileListData.length then
    some (RequestCodes.listReq :: fileListData)
  else none

end ListM3

/-! ## Round trips -/

@[simp]
theorem commandCode_cons (c : UInt8) (b : Buffer) : commandCode (c :: b) = c := rfl

theorem fit_cons (n : Nat) (c : UInt8) (b : Buffer) : fit (n + 1) (c :: b) = c :: fit n b := by
  simp [fit]

@[simp]
theorem Ack.deserialize_serialize (a : Ack) : Ack.deserialize a.serialize = a := rfl

@[simp]
theorem Ack.length_serialize (a : Ack) : a.serialize.length = Ack.getSize := rfl

theorem SizedAck.deserialize_serialize (order : ByteOrder) {a : SizedAck}
    (h : a.size < 4294967296) : SizedAck.deserialize order (a.serialize order) = a := by
  obtain ⟨c, k, size⟩ := a
  have hword : ofBe32 (be32 size) = size := ofBe32_be32 h
  simp only [SizedAck.deserialize, SizedAck.serialize, image_htonl]
  rw [ntohl_ofImage _ (length_fit _ _)]
  simp only [be32, List.cons_append, List.nil_append, List.drop_succ_cons, List.drop_zero] at *
  simp [fit, hword]

@[simp]
theorem SizedAck.length_serialize (order : ByteOrder) (a : SizedAck) :
    (a.serialize order).length = SizedAck.getSize := by
  simp [SizedAck.serialize, SizedAck.getSize]

theorem ChunkM2.getSize_of_lt {n : Nat} (h : n < intMax) : ChunkM2.getSize n = 1 + n := by
  rw [getSize, intOfSize_of_le (by omega), sizeOfInt_of_le (by omega)]

theorem ChunkM2.serialize_of_lt {m : ChunkM2} (h : m.fileChunk.length < intMax) :
    m.serialize = some (m.commandCode :: m.fileChunk) := by
  rw [serialize, if_pos (getSize_of_lt h)]

theorem ListM3.serialize_of_lt {b : Buffer} (h : b.length < intMax) :
    ListM3.serialize b = some (RequestCodes.listReq :: b) :=
  if_pos (ChunkM2.getSize_of_lt h)

@[simp]
theorem ChunkM2.deserialize_cons (c : UInt8) (b : Buffer) :
    ChunkM2.deserialize (c :: b) = ⟨c, b⟩ := rfl

@[simp]
theorem UploadM1.length_serialize (order : ByteOrder) (m : UploadM1) :
    (m.serialize order).length = Max.initialRequestLength := length_fit _ _

@[simp]
theorem NameM1.length_serialize (m : NameM1) :
    m.serialize.length = Max.initialRequestLength := length_fit _ _

@[simp]
theorem RenameM1.length_serialize (m : RenameM1) :
    m.serialize.length = Max.initialRequestLength := length_fit _ _

@[simp]
theorem CodeM1.length_serialize (c : UInt8) :
    (CodeM1.serialize c).length = Max.initialRequestLength := length_fit _ _

@[simp]
theorem commandCode_fit (c : UInt8) (b : Buffer) :
    commandCode (fit Max.initialRequestLength (c :: b)) = c := by
  rw [show Max.initialRequestLength = 519 + 1 from rfl, fit_cons, commandCode_cons]

@[simp]
theorem CodeM1.commandCode_serialize (c : UInt8) : commandCode (CodeM1.serialize c) = c :=
  commandCode_fit c []

/-- The tail of a request: `fit` only adds zeros behind what was written. -/
theorem drop_one_fit (c : UInt8) (b : Buffer) :
    (fit Max.initialRequestLength (c :: b)).drop 1 = fit 519 b := by
  rw [show Max.initialRequestLength = 519 + 1 from rfl, fit_cons]
  rfl

theorem fit_of_le {n : Nat} {b : Buffer} (h : b.length ≤ n) :
    fit n b = b ++ List.replicate (n - b.length) 0 := by
  rw [fit, List.take_of_length_le h]

theorem NameM1.deserialize_serialize (m : NameM1) : NameM1.deserialize m.serialize = m := by
  obtain ⟨c, f⟩ := m
  have hf := f.length_bytes
  simp only [deserialize, serialize, commandCode_fit, drop_one_fit]
  rw [fit_of_le (by rw [hf]; decide), NameField.ofBytes_append]

theorem UploadM1.deserialize_serialize (order : ByteOrder) {m : UploadM1}
    (h : m.fileSize < 4294967296) : UploadM1.deserialize order (m.serialize order) = m := by
  obtain ⟨c, size, f⟩ := m
  have hf : f.bytes.length = 256 := f.length_bytes
  have hlen : (f.bytes ++ be32 size).length ≤ 519 := by simp [hf]
  have hrest : (fit Max.initialRequestLength (c :: (f.bytes ++ be32 size))).drop
      (1 + (Max.fileName + 1)) = be32 size ++ List.replicate 259 0 := by
    rw [← List.drop_drop, drop_one_fit, fit_of_le hlen, List.append_assoc,
      show Max.fileName + 1 = f.bytes.length from f.length_bytes.symm, List.drop_left,
      List.length_append, hf, length_be32]
  simp only [deserialize, serialize, image_htonl, commandCode_fit, drop_one_fit]
  rw [fit_of_le hlen, List.append_assoc, NameField.ofBytes_append, hrest,
    ntohl_ofImage _ (length_fit _ _)]
  rw [fit_append_left (length_be32 size), ofBe32_be32 h]

theorem RenameM1.deserialize_serialize (m : RenameM1) : RenameM1.deserialize m.serialize = m := by
  obtain ⟨c, f, g⟩ := m
  have hf : f.bytes.length = 256 := f.length_bytes
  have hg : g.bytes.length = 256 := g.length_bytes
  have hlen : (f.bytes ++ g.bytes).length ≤ 519 := by simp [hf, hg]
  have hrest : (fit Max.initialRequestLength (c :: (f.bytes ++ g.bytes))).drop
      (1 + (Max.fileName + 1)) = g.bytes ++ List.replicate 7 0 := by
    rw [← List.drop_drop, drop_one_fit, fit_of_le hlen, List.append_assoc,
      show Max.fileName + 1 = f.bytes.length from f.length_bytes.symm, List.drop_left,
      List.length_append, hf, hg]
  simp only [deserialize, serialize, commandCode_fit, drop_one_fit]
  rw [fit_of_le hlen, List.append_assoc, NameField.ofBytes_append, hrest, NameField.ofBytes_append]

end CloudStorage
