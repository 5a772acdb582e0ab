import CloudStorage.Worker

set_option autoImplicit false

/-! # Round trips of the packets

Every packet of a session is written by one end and read by the other, with the layout written out on
both sides and once more in `getSize`. A request comes back with its names and its size from a buffer
of the common length, and its first byte is what the worker switches on. A reply comes back from a
buffer of the length that its receiver computes. For a chunk that length is added up in an `int`, which
is right up to the last `int`. -/

namespace CloudStorage

open Interaction

/-! ## What is asked of a codec -/

/-- The string that a name field holds, wherever the reader of the string finds its end. -/
def Named (f : NameField) (name : Buffer) : Prop := ∀ beyond, cstr (f.bytes ++ beyond) = name

/-- The worker receives `payload` at the common length, with all its fields in it, and switches to
    `handler` by its first byte. -/
structure Dispatched (P : Platform) (payload : Buffer) (code : UInt8) (fields : Buffer)
    (handler : Member Int) : Prop where
  length : payload.length = Max.initialRequestLength
  inside : code :: fields <+: payload
  first : commandCode payload = code
  command : Worker.command P (commandCode payload) payload = Member.returning handler

/-- A packet that is written is read back from a buffer of this length. -/
def Returns {α : Type} (serialize : α → Option Buffer) (deserialize : Buffer → α) (length : Nat)
    (packet : α) : Prop :=
  ∃ b, serialize packet = some b ∧ b.length = length ∧ deserialize b = packet

/-- The packets with these names, this size, this code and this chunk round-trip. -/
structure RoundTrips (P : Platform) (fileName newFileName : Buffer) (size : Nat) (code : UInt8)
    (chunk : Buffer) : Prop where
  uploadM1 : Returns (fun m => some (UploadM1.serialize P.order m)) (UploadM1.deserialize P.order)
    Max.initialRequestLength (.new fileName size)
  downloadM1 : Returns (fun m => some (NameM1.serialize m)) NameM1.deserialize
    Max.initialRequestLength (DownloadM1 fileName)
  renameM1 : Returns (fun m => some (RenameM1.serialize m)) RenameM1.deserialize
    Max.initialRequestLength (.new fileName newFileName)
  deleteM1 : Returns (fun m => some (NameM1.serialize m)) NameM1.deserialize
    Max.initialRequestLength (DeleteM1 fileName)
  fileSize : (UploadM1.new fileName size).fileSize = size
  named : Named (UploadM1.new fileName size).fileName fileName ∧
    Named (DownloadM1 fileName).fileName fileName ∧
    Named (RenameM1.new fileName newFileName).fileName fileName ∧
    Named (RenameM1.new fileName newFileName).newFileName newFileName ∧
    Named (DeleteM1 fileName).fileName fileName
  upload : let m := UploadM1.new fileName size
    Dispatched P (m.serialize P.order) RequestCodes.uploadReq
      (m.fileName.bytes ++ image P.order (htonl P.order m.fileSize))
      (Worker.uploadFile P (m.serialize P.order))
  download : let m := DownloadM1 fileName
    Dispatched P m.serialize RequestCodes.downloadReq m.fileName.bytes
      (Worker.downloadFile P m.serialize)
  list : Dispatched P ListM1.serialize RequestCodes.listReq [] (Worker.listFiles P)
  rename : let m := RenameM1.new fileName newFileName
    Dispatched P m.serialize RequestCodes.renameReq (m.fileName.bytes ++ m.newFileName.bytes)
      (Worker.renameFile P m.serialize)
  delete : let m := DeleteM1 fileName
    Dispatched P m.serialize RequestCodes.deleteReq m.fileName.bytes
      (Worker.deleteFile P m.serialize)
  logout : Dispatched P LogoutM1.serialize RequestCodes.logoutReq [] (Worker.logout P)
  acks : ∀ ack ∈ [UploadAck code, RenameAck code, DeleteAck code, LogoutAck code],
    Returns (fun a => some (Ack.serialize a)) Ack.deserialize Ack.getSize ack ∧ ack.ackCode = code
  sizedAcks : ∀ ack ∈ [DownloadAck code size, ListM2 code size],
    Returns (fun a => some (SizedAck.serialize P.order a)) (SizedAck.deserialize P.order)
      SizedAck.getSize ack ∧ ack.ackCode = code ∧ ack.size = size
  chunks : ∀ m2 ∈ [UploadM2 chunk, DownloadM2 chunk],
    Returns ChunkM2.serialize ChunkM2.deserialize (ChunkM2.getSize chunk.length) m2 ∧
      m2.fileChunk = chunk

/-! ## Requests -/

variable {P : Platform} {fileName newFileName chunk : Buffer} {size : Nat}

theorem named_ofName {name : Buffer} (h : (0 : UInt8) ∉ name) (hlen : name.length ≤ Max.fileName) :
    Named (.ofName name) name := by
  intro beyond
  have hlt : name.length < Max.fileName + 1 := Nat.lt_succ_of_le hlen
  rw [NameField.ofName, cstr_append_of_mem _ (zero_mem_strncpy h hlt), cstr_strncpy h hlt]

theorem wordOfSize_of_lt (h : size < 4294967296) : wordOfSize size = size := Nat.mod_eq_of_lt h

theorem returns_uploadM1 (order : ByteOrder) (h : size < 4294967296) :
    Returns (fun m => some (UploadM1.serialize order m)) (UploadM1.deserialize order)
      Max.initialRequestLength (.new fileName size) :=
  ⟨_, rfl, UploadM1.length_serialize ..,
    UploadM1.deserialize_serialize order (by rw [UploadM1.new, wordOfSize_of_lt h]; exact h)⟩

theorem returns_nameM1 (m : NameM1) :
    Returns (fun m => some (NameM1.serialize m)) NameM1.deserialize Max.initialRequestLength m :=
  ⟨_, rfl, NameM1.length_serialize m, NameM1.deserialize_serialize m⟩

theorem returns_renameM1 (m : RenameM1) :
    Returns (fun m => some (RenameM1.serialize m)) RenameM1.deserialize
      Max.initialRequestLength m :=
  ⟨_, rfl, RenameM1.length_serialize m, RenameM1.deserialize_serialize m⟩

/-- A request is zeros behind its code and its fields. -/
theorem dispatched_fit {code : UInt8} {fields : Buffer} {handler : Member Int}
    (hlen : fields.length < Max.initialRequestLength)
    (h : Worker.command P code (fit Max.initialRequestLength (code :: fields)) =
      Member.returning handler) :
    Dispatched P (fit Max.initialRequestLength (code :: fields)) code fields handler where
  length := length_fit _ _
  inside := by
    rw [fit_of_le hlen]
    exact List.prefix_append _ _
  first := commandCode_fit _ _
  command := by rw [commandCode_fit, h]

theorem length_name (f : NameField) : f.bytes.length < Max.initialRequestLength :=
  f.length_bytes.trans_lt (by decide)

/-! ## Replies -/

theorem returns_ack (ack : Ack) :
    Returns (fun a => some (Ack.serialize a)) Ack.deserialize Ack.getSize ack :=
  ⟨_, rfl, rfl, rfl⟩

theorem returns_sizedAck (order : ByteOrder) {ack : SizedAck} (h : ack.size < 4294967296) :
    Returns (fun a => some (SizedAck.serialize order a)) (SizedAck.deserialize order)
      SizedAck.getSize ack :=
  ⟨_, rfl, SizedAck.length_serialize order ack, SizedAck.deserialize_serialize order h⟩

/-- The `int` in which `getSize` adds up holds the length up to the last `int`. No vector is long enough
    for the sum to come round to it again. -/
theorem getSize_eq_iff {n : Nat} (h : tooLarge n = false) :
    ChunkM2.getSize n = 1 + n ↔ n < intMax := by
  have hn : n < 9223372036854775808 := by simpa [tooLarge] using h
  refine ⟨fun heq => ?_, ChunkM2.getSize_of_lt⟩
  unfold ChunkM2.getSize intOfSize intOfWord sizeOfInt at heq
  unfold intMax
  split at heq <;> omega

theorem returns_chunk_iff {m : ChunkM2} (h : tooLarge m.fileChunk.length = false) :
    Returns ChunkM2.serialize ChunkM2.deserialize (ChunkM2.getSize m.fileChunk.length) m ↔
      m.fileChunk.length < intMax := by
  constructor
  · rintro ⟨b, hb, -, -⟩
    unfold ChunkM2.serialize at hb
    split_ifs at hb with hsize
    exact (getSize_eq_iff h).1 hsize
  · intro hlt
    have hsize := ChunkM2.getSize_of_lt hlt
    exact ⟨_, ChunkM2.serialize_of_lt hlt, by rw [hsize, List.length_cons, Nat.add_comm], rfl⟩

/-! ## All packets -/

/-- **The packets round-trip exactly up to the last `int`**: for all names and sizes that the client can
    ask for and all codes, every packet comes back from a buffer of the length at which its receiver
    reads it if and only if the chunk is shorter than the last `int`. -/
theorem round_trips_iff (P : Platform) (fileName newFileName : Buffer) (size : Nat) (code : UInt8)
    (chunk : Buffer) (hname : (0 : UInt8) ∉ fileName) (hlen : fileName.length ≤ Max.fileName)
    (hnew : (0 : UInt8) ∉ newFileName) (hnewLen : newFileName.length ≤ Max.fileName)
    (hsize : size < 4294967296) (hvector : tooLarge chunk.length = false) :
    RoundTrips P fileName newFileName size code chunk ↔ chunk.length < intMax := by
  have hword := wordOfSize_of_lt hsize
  constructor
  · intro h
    exact (returns_chunk_iff (m := UploadM2 chunk) hvector).1 (h.chunks _ (by simp)).1
  · intro hlt
    exact {
      uploadM1 := returns_uploadM1 P.order hsize
      downloadM1 := returns_nameM1 _
      renameM1 := returns_renameM1 _
      deleteM1 := returns_nameM1 _
      fileSize := hword
      named := ⟨named_ofName hname hlen, named_ofName hname hlen, named_ofName hname hlen,
        named_ofName hnew hnewLen, named_ofName hname hlen⟩
      upload := dispatched_fit (by
        rw [List.length_append, NameField.length_bytes, length_image]
        decide) rfl
      download := dispatched_fit (length_name _) rfl
      list := dispatched_fit (by decide) rfl
      rename := dispatched_fit (by
        rw [List.length_append, NameField.length_bytes, NameField.length_bytes]
        decide) rfl
      delete := dispatched_fit (length_name _) rfl
      logout := dispatched_fit (by decide) rfl
      acks := by
        intro ack hack
        simp only [List.mem_cons, List.not_mem_nil, or_false] at hack
        rcases hack with rfl | rfl | rfl | rfl <;> exact ⟨returns_ack _, rfl⟩
      sizedAcks := by
        intro ack hack
        simp only [List.mem_cons, List.not_mem_nil, or_false] at hack
        rcases hack with rfl | rfl
        · exact ⟨returns_sizedAck P.order (hword.trans_lt hsize), rfl, hword⟩
        · exact ⟨returns_sizedAck P.order (hword.trans_lt hsize), rfl, hword⟩
      chunks := by
        intro m2 hm2
        simp only [List.mem_cons, List.not_mem_nil, or_false] at hm2
        rcases hm2 with rfl | rfl
        · exact ⟨(returns_chunk_iff (m := UploadM2 chunk) hvector).2 hlt, rfl⟩
        · exact ⟨(returns_chunk_iff (m := DownloadM2 chunk) hvector).2 hlt, rfl⟩ }

/-- Two names of one letter, the greatest size, and a full chunk. -/
theorem round_trips_full : RoundTrips (.plain .little) (ascii "a") (ascii "b") 4294967295 1
    (List.replicate 15 7) :=
  (round_trips_iff (.plain .little) (ascii "a") (ascii "b") 4294967295 1 (List.replicate 15 7)
    (by decide) (by decide) (by decide) (by decide) (by decide) (by decide)).2 (by decide)

/-- A chunk as long as the last `int` cannot be written. -/
theorem longest_chunk_lost :
    ¬∀ (P : Platform) (fileName newFileName : Buffer) (size : Nat) (code : UInt8) (chunk : Buffer),
      (0 : UInt8) ∉ fileName → fileName.length ≤ Max.fileName →
      (0 : UInt8) ∉ newFileName → newFileName.length ≤ Max.fileName → size < 4294967296 →
      1 ≤ chunk.length → tooLarge chunk.length = false →
      RoundTrips P fileName newFileName size code chunk := by
  intro hall
  obtain ⟨chunk, hlength⟩ : ∃ chunk : Buffer, chunk.length = intMax :=
    ⟨List.replicate intMax 7, List.length_replicate⟩
  have hvector : tooLarge chunk.length = false := by
    rw [hlength]
    decide
  have h := hall (.plain .little) (ascii "a") (ascii "b") 0 0 chunk (by decide) (by decide)
    (by decide) (by decide) (by decide) (by rw [hlength]; decide) hvector
  have hlt := (returns_chunk_iff (m := UploadM2 chunk) hvector).1 (h.chunks _ (by simp)).1
  exact absurd hlength (Nat.ne_of_lt hlt)

end CloudStorage
