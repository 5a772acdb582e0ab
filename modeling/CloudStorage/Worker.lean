import CloudStorage.File

set_option autoImplicit false

/-! # The worker

`server/worker.cpp` after login: the handlers of the six requests and the loop that receives a
request and calls its handler. A handler's `return` is an exit of the routine, so the checks that
end a handler early are in the calls that make them (`sendPacket`, `receivePacket`). -/

namespace CloudStorage

open Interaction

/-- `int num_file_chunks = size / chunk_size`, as the bound of a loop that counts up to it. -/
def numFileChunks (size : Nat) : Nat := (intOfSize (size / Max.maxFileChunk)).toNat

/-- `int last_chunk_size = size % chunk_size`. -/
def lastChunkSize (size : Nat) : Nat := size % Max.maxFileChunk

/-- The chunks of a 32-bit size add up to it. -/
theorem numFileChunks_add {size : Nat} (h : size < 4294967296) :
    Max.maxFileChunk * numFileChunks size + lastChunkSize size = size := by
  unfold numFileChunks lastChunkSize Max.maxFileChunk
  rw [intOfSize_of_le (by unfold intMax; omega)]
  omega

theorem lastChunkSize_lt (size : Nat) : lastChunkSize size < intMax := by
  unfold lastChunkSize Max.maxFileChunk intMax
  omega

namespace Member

/-- Read a chunk of a file and send it. -/
def sendChunk (P : Platform) (m2 : Buffer → ChunkM2) (file : File) (chunkSize : Nat) :
    Member Unit := do
  let chunk ← file.readChunk chunkSize
  match (m2 chunk).serialize with
  | none => Routine.throw (.thrown .lengthError)
  | some payload => sendPacket P payload

/-- The loop over the full chunks of a file to send. -/
def sendChunks (P : Platform) (m2 : Buffer → ChunkM2) (file : File) : Nat → Member Unit
  | 0 => pure ()
  | n + 1 => do
    sendChunk P m2 file Max.maxFileChunk
    sendChunks P m2 file n

/-- Send the rest of a file, if there is one. -/
def sendLastChunk (P : Platform) (m2 : Buffer → ChunkM2) (file : File) (lastChunkSize : Nat) :
    Member Unit :=
  if lastChunkSize ≠ 0 then sendChunk P m2 file lastChunkSize else pure ()

/-- The loop over the full chunks of a file to receive. `write` is given `error_occured` and the
    chunk; a chunk that is not received or does not open is skipped. The answer is
    `error_occured`. -/
def receiveChunks (P : Platform) (write : Bool → Buffer → Member Unit) : Nat → Bool → Member Bool
  | 0, errorOccured => pure errorOccured
  | n + 1, errorOccured => do
    match ← receivePacket P (ChunkM2.getSize Max.maxFileChunk) with
    | none => receiveChunks P write n true
    | some payload => do
      write errorOccured (ChunkM2.deserialize payload).fileChunk
      receiveChunks P write n errorOccured

/-- Receive the rest of a file, if there is one. -/
def receiveLastChunk (P : Platform) (write : Bool → Buffer → Member Unit) (errorOccured : Bool)
    (lastChunkSize : Nat) : Member Unit :=
  if lastChunkSize ≠ 0 then do
    let payload ← expectPacket P (ChunkM2.getSize lastChunkSize) 0
    write errorOccured (ChunkM2.deserialize payload).fileChunk
  else pure ()

/-- The string conversion of a `char` array: up to the first NUL, wherever that is. -/
def readName (field : Buffer) : Member Buffer := do
  let beyond ← overrun
  return cstr (field ++ beyond)

/-- `fs::exists(path) && fs::is_directory(path)`. -/
def isDirectory (path : Buffer) : Member Bool := do
  match ← file (.stat path) with
  | none => Routine.throw (.thrown .filesystemError)
  | some .notFound => return false
  | some _ => do
    match ← file (.stat path) with
    | none => Routine.throw (.thrown .filesystemError)
    | some .directory => return true
    | some _ => return false

end Member

namespace Worker

open Member

variable (P : Platform)

/-- `"../data/" + username`. -/
def folderPath (username : Buffer) : Buffer := ascii "../data/" ++ username

/-- `"../data/" + username + "/" + file_name`. -/
def filePath (username fileName : Buffer) : Buffer := folderPath username ++ 47 :: fileName

/-! ## Upload -/

/-- What an upload does with a chunk: an earlier error does not matter. -/
def writeChunk (file : File) (_errorOccured : Bool) (chunk : Buffer) : Member Unit :=
  file.writeChunk chunk

/-- `Worker::upload_file` from the creation of the file on. -/
def receiveFile (path : Buffer) (fileSize : Nat) : Member Int := do
  -- the size of this `File` is never read
  let (file, error) ← (File.new 0).create path
  match error with
  | some _ => return 0
  | none => do
    let errorOccured ← receiveChunks P (writeChunk file) (numFileChunks fileSize) false
    receiveLastChunk P (writeChunk file) errorOccured (lastChunkSize fileSize)
    sendPacket P (UploadAck (if errorOccured then 0 else 1)).serialize
    return 1

/-- `Worker::upload_file`. -/
def uploadFile (payload : Buffer) : Member Int := do
  let m1 := UploadM1.deserialize P.order payload
  let fileName ← readName m1.fileName.bytes
  let s ← Routine.get
  let path := filePath s.username fileName
  let found ← File.exists path
  sendPacket P (UploadAck (if found then 0 else 1)).serialize
  receiveFile P path m1.fileSize

/-! ## Download -/

/-- The end of `Worker::download_file`: what follows the acknowledgement, refused or not. -/
def sendFile (file : File) : Member Int := do
  sendChunks P DownloadM2 file (numFileChunks file.fileSize)
  sendLastChunk P DownloadM2 file (lastChunkSize file.fileSize)
  return 1

/-- Note a refusal and the size that the file object is left with. -/
def markRefused (fileError : Bool) (file : File) : Member Unit :=
  if fileError then note (.refused file.fileSize) else pure ()

/-- `Worker::download_file`. -/
def downloadFile (payload : Buffer) : Member Int := do
  let m1 := NameM1.deserialize payload
  let fileName ← readName m1.fileName.bytes
  let s ← Routine.get
  let unset ← garbage .fileSize
  let (file, error) ← (File.new unset).read (filePath s.username fileName)
  let fileError := error.isSome || file.fileSize == 0
  let ack := if fileError then DownloadAck 1 0 else DownloadAck 0 file.fileSize
  markRefused fileError file
  sendPacket P (ack.serialize P.order)
  sendFile P file

/-! ## List, rename, delete, logout -/

/-- The second packet of `Worker::list_files`. -/
def sendList (fileNames : Buffer) : Member Int := do
  match ListM3.serialize (fileNames.take (wordOfSize fileNames.length)) with
  | none =>
    Routine.throw (if tooLarge (ListM3.getSize (wordOfSize fileNames.length))
      then .thrown .lengthError else .undefined)
  | some payload => do
    sendPacket P payload
    return 1

/-- `Worker::list_files`. -/
def listFiles : Member Int := do
  let s ← Routine.get
  let folder := folderPath s.username
  if ← isDirectory folder then do
    let fileNames ← File.getFileNames folder
    sendPacket P ((ListM2 0 fileNames.length).serialize P.order)
    sendList P fileNames
  else do
    sendPacket P ((ListM2 1 0).serialize P.order)
    return 0

/-- The code of the `RenameAck`: 0 renamed, 1 failed, 2 no such file. -/
def renameCode (path newPath : Buffer) : Member UInt8 := do
  if ← File.exists path then do
    if ← File.exists newPath then return 1
    else do
      if ← File.changeFileName path newPath then return 0 else return 1
  else return 2

/-- `Worker::rename_file`. -/
def renameFile (payload : Buffer) : Member Int := do
  let m1 := RenameM1.deserialize payload
  let fileName ← readName (m1.fileName.bytes ++ m1.newFileName.bytes)
  let newFileName ← readName m1.newFileName.bytes
  let s ← Routine.get
  let code ← renameCode (filePath s.username fileName) (filePath s.username newFileName)
  sendPacket P (RenameAck code).serialize
  return 1

/-- The code of the `DeleteAck`: 0 deleted, 1 failed, 2 no such file. -/
def deleteCode (path : Buffer) : Member UInt8 := do
  if ← File.exists path then do
    if ← File.deleteFile path then return 0 else return 1
  else return 2

/-- `Worker::delete_file`. -/
def deleteFile (payload : Buffer) : Member Int := do
  let m1 := NameM1.deserialize payload
  let fileName ← readName m1.fileName.bytes
  let s ← Routine.get
  let code ← deleteCode (filePath s.username fileName)
  sendPacket P (DeleteAck code).serialize
  return 1

/-- `Worker::logout`: the session key is cleared before the acknowledgement is sent. -/
def logout : Member Int := do
  let s ← Routine.get
  let wrapper ← Wrapper.serialize P s.sessionKey s.sCounter (LogoutAck 0).serialize
  Routine.modify fun s => { s with sessionKey := [] }
  sendFrame wrapper
  return 1

/-! ## The command loop -/

/-- The `switch` of `Worker::start`; the default case leaves `result` unset. -/
def command (code : UInt8) (payload : Buffer) : Member Int :=
  if code = RequestCodes.uploadReq then returning (uploadFile P payload)
  else if code = RequestCodes.downloadReq then returning (downloadFile P payload)
  else if code = RequestCodes.listReq then returning (listFiles P)
  else if code = RequestCodes.renameReq then returning (renameFile P payload)
  else if code = RequestCodes.deleteReq then returning (deleteFile P payload)
  else if code = RequestCodes.logoutReq then returning (logout P)
  else do
    let unset ← garbage .result
    return intOfSize unset

/-- The loop of `Worker::start`, for at most the given number of commands. -/
def commandLoop : Nat → Member Int
  | 0 => Routine.throw .unfinished
  | n + 1 => do
    let payload ← expectPacket P Max.initialRequestLength 0
    let code := commandCode payload
    let result ← command P code payload
    if result = -1 then Routine.throw .exited
    else if code = RequestCodes.logoutReq then return 0
    else commandLoop n

end Worker

end CloudStorage
