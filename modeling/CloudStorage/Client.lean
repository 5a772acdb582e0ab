import CloudStorage.Worker

set_option autoImplicit false

/-! # The client

`client/Client.cpp` after login: the six operations, the menu and the loop around it. -/

namespace CloudStorage

open Interaction

/-- Leading whitespace as `isspace` has it. -/
def isSpace (c : UInt8) : Bool := c == 32 || (9 ≤ c && c ≤ 13)

/-- The value of a string of decimal digits. -/
def ofDigits (digits : Buffer) : Nat := digits.foldl (fun n d => 10 * n + (d.toNat - 48)) 0

/-- `std::stoi`: `none` where it throws. -/
def stoi (s : Buffer) : Option Int :=
  let s := s.dropWhile isSpace
  let (sign, s) : Int × Buffer :=
    match s with
    | 45 :: t => (-1, t)
    | 43 :: t => (1, t)
    | t => (1, t)
  let digits := s.takeWhile fun c => 48 ≤ c && c ≤ 57
  let value := sign * ofDigits digits
  if digits = [] ∨ value < -2147483648 ∨ (intMax : Int) < value then none else some value

/-- The tokens that `std::getline(ss, token, ',')` reads from a string. -/
def tokens (s : Buffer) : List Buffer :=
  match s.splitOn 44 with
  | [] => []
  | parts => if parts.getLast? = some [] then parts.dropLast else parts

namespace Client

open Member

variable (P : Platform)

/-! ## Upload -/

/-- The end of `Client::upload_file`, from the first acknowledgement on. -/
def uploadChunks (file : File) : Member Int := do
  let payload ← expectPacket P Ack.getSize 0
  if (Ack.deserialize payload).ackCode = 0 then do
    print .existsOnCloud
    return 0
  else do
    sendChunks P UploadM2 file (numFileChunks file.fileSize)
    sendLastChunk P UploadM2 file (lastChunkSize file.fileSize)
    let payload ← expectPacket P Ack.getSize 0
    if (Ack.deserialize payload).ackCode = 0 then print (.uploadFailed file.fileName)
    else print (.uploaded file.fileName)
    return 1

/-- Report invalid input and skip the rest of its line. -/
def warnInvalid (invalid : Bool) : Member Unit :=
  if invalid then do
    print .invalidInput
    clearAndIgnore
  else pure ()

/-- `Client::upload_file`. Invalid input does not end it. -/
def uploadFile : Member Int := do
  let (line, good) ← getline
  let path := line.getD []
  warnInvalid (!good || path.isEmpty)
  let unset ← garbage .fileSize
  let (file, error) ← (File.new unset).read path
  if error.isSome || file.fileSize == 0 || decide (Max.maxFileSize ≤ file.fileSize) then return 0
  else do
    sendPacket P ((UploadM1.new file.fileName file.fileSize).serialize P.order)
    uploadChunks P file

/-! ## Download -/

/-- The check that the client makes of a name typed in. -/
def nameInvalid (good : Bool) (name : Buffer) : Bool :=
  !good || name.isEmpty || !File.isValidFileName name || decide (Max.fileName < name.length)

/-- Read a name from the console; an invalid one ends the function. -/
def readFileName : Member Buffer := do
  let (line, good) ← getline
  let name := line.getD []
  if nameInvalid good name then do
    print .invalidInput
    clearAndIgnore
    Routine.throw (.returned 0)
  else return name

/-- What a download does with a chunk: after an error it is dropped. -/
def writeChunk (file : File) (errorOccured : Bool) (chunk : Buffer) : Member Unit :=
  if errorOccured then pure () else file.writeChunk chunk

def downloadsPath : Buffer := ascii "../downloads"

/-- Make the downloads folder if it is not there. -/
def makeDownloads : Member Unit := do
  if ← isDirectory downloadsPath then pure ()
  else do
    match ← Member.file (.createDirectory downloadsPath) with
    | none => Routine.throw (.thrown .filesystemError)
    | some true => pure ()
    | some false => Routine.throw (.returned 0)

/-- The end of `Client::download_file`, from the making of the folder on. -/
def receiveFile (fileName : Buffer) (fileSize : Nat) : Member Int := do
  makeDownloads
  -- the size of this `File` is never read
  let (file, error) ← (File.new 0).create (downloadsPath ++ 47 :: fileName)
  let errorOccured ← receiveChunks P (writeChunk file) (numFileChunks fileSize) error.isSome
  receiveLastChunk P (writeChunk file) errorOccured (lastChunkSize fileSize)
  print (if errorOccured then .notDownloadedCorrectly else .downloadedCorrectly)
  return 1

/-- `Client::download_file`. -/
def downloadFile : Member Int := do
  let fileName ← readFileName
  sendPacket P (DownloadM1 fileName).serialize
  let payload ← expectPacket P SizedAck.getSize 0
  let ack := SizedAck.deserialize P.order payload
  if ack.ackCode ≠ 0 then do
    print .notOnCloud
    return 0
  else receiveFile P fileName ack.size

/-! ## List -/

/-- `ListM3::deserialize` copies as many bytes as were announced, into an array one byte longer. -/
def readList (fileListSize : Nat) (payload : Buffer) : Member Buffer :=
  if payload.length < 1 + fileListSize ∨ fileListSize = 4294967295 then Routine.throw .undefined
  else pure (slice 1 fileListSize payload)

def printNames : List Buffer → Member Unit
  | [] => pure ()
  | name :: names => do
    print (.listed name)
    printNames names

/-- The second packet of `Client::list_files`. It is printed before its counter is counted. -/
def receiveList (fileListSize : Nat) : Member Int := do
  match ← receiveFrame P (ListM3.getSize fileListSize) with
  | none => return 0
  | some (counter, payload, wrapper) => do
    checkCounter counter payload wrapper
    let data ← readList fileListSize payload
    -- nothing terminates the array
    let beyond ← overrun
    printNames (tokens (cstr (data ++ beyond)))
    advanceReceive
    return 1

/-- `Client::list_files`. -/
def listFiles : Member Int := do
  sendPacket P ListM1.serialize
  let payload ← expectPacket P SizedAck.getSize 0
  let ack := SizedAck.deserialize P.order payload
  if ack.ackCode = 1 then do
    print .noFolder
    return 0
  else receiveList P ack.size

/-! ## Rename, delete, logout -/

/-- How rename and delete end: code 0 is success, 1 a failure, 2 a missing file. -/
def reportCode (done failed : Report) (code : UInt8) : Member Int :=
  if code = 0 then do
    print done
    return 1
  else if code = 1 then do
    print failed
    return 0
  else if code = 2 then do
    print .notOnCloud
    return 0
  else return 1

/-- `Client::rename_file`. -/
def renameFile : Member Int := do
  let fileName ← readFileName
  let newFileName ← readFileName
  sendPacket P (RenameM1.new fileName newFileName).serialize
  let payload ← expectPacket P Ack.getSize 0
  reportCode .renamed .renameFailed (Ack.deserialize payload).ackCode

/-- `Client::delete_file`. -/
def deleteFile : Member Int := do
  let fileName ← readFileName
  sendPacket P (DeleteM1 fileName).serialize
  let payload ← expectPacket P Ack.getSize 0
  reportCode .deleted .deleteFailed (Ack.deserialize payload).ackCode

/-- `Client::logout`. -/
def logout : Member Int := do
  sendPacket P LogoutM1.serialize
  let payload ← expectPacket P Ack.getSize 0
  if (Ack.deserialize payload).ackCode ≠ 0 then return 0
  else do
    Routine.modify fun s => { s with sessionKey := [] }
    print .sessionEnded
    return 1

/-! ## The menu -/

/-- `MenuOption::Logout`. -/
def logoutOption : Int := 6

/-- `Client::handleMenuChoice`: -2 for what is no number, -3 for a number that is no option. -/
def handleMenuChoice (choice : Buffer) : Member Int :=
  match stoi choice with
  | none => pure (-2)
  | some 1 => returning (uploadFile P)
  | some 2 => returning (downloadFile P)
  | some 3 => returning (listFiles P)
  | some 4 => returning (renameFile P)
  | some 5 => returning (deleteFile P)
  | some 6 => returning (logout P)
  | some _ => pure (-3)

/-- The loop of `Client::start`, for at most the given number of choices. The choice is not touched
    by a read that fails at once. -/
def menuLoop : Nat → Buffer → Member Int
  | 0, _ => Routine.throw .unfinished
  | n + 1, choice => do
    let (line, _) ← getline
    let choice := line.getD choice
    let result ← handleMenuChoice P choice
    if result = -1 then Routine.throw .exited
    else if result ≠ -2 ∧ stoi choice = some logoutOption then return 0
    else menuLoop n choice

end Client

/-- The two ends of a session. -/
inductive Endpoint
  | client
  | worker
  deriving DecidableEq, Repr

/-- What each end does after login, with a bound on its loop. -/
def Endpoint.program (P : Platform) : Endpoint → Nat → Member Int
  | .client, n => Client.menuLoop P n []
  | .worker, n => Worker.commandLoop P n

end CloudStorage
