import CloudStorage.Wrapper

set_option autoImplicit false

/-! # Files of the application

`tools/file.cpp`: a `File` object with a name, a size and two streams. Several of its functions
throw; `read` and `create` also change the object before they do, so they end with the object and
the exception side by side. How much of what goes into a stream is on the disk is up to the machine that
answers the calls. -/

namespace CloudStorage

open Interaction

/-- A file stream: never opened, open, or in a failed state. -/
inductive Stream
  | closed
  | opened (handle : Nat)
  | failed
  deriving DecidableEq, Repr

/-- The members of `File`. The constructor does not set the size. -/
structure File where
  fileName : Buffer
  fileSize : Nat
  input : Stream
  output : Stream

/-- `\w` of the regular expression, in the C locale. -/
def isWordChar (c : UInt8) : Bool :=
  (48 ≤ c && c ≤ 57) || (65 ≤ c && c ≤ 90) || (97 ≤ c && c ≤ 122) || c == 95

/-- `[\w.\-+_!#$%^&()]`. -/
def isNameChar (c : UInt8) : Bool := isWordChar c || c ∈ ascii ".-+_!#$%^&()"

/-- `fs::path(path).filename()`: what follows the last slash. -/
def filename (path : Buffer) : Buffer := (path.splitOn 47).getLastD []

namespace File

/-- The constructor, with the value that the size member happens to have. -/
def new (fileSize : Nat) : File := ⟨[], fileSize, .closed, .closed⟩

/-- `File::isValidFileName`: `^\w[\w.\-+_!#$%^&()]{0,19}$`. -/
def isValidFileName : Buffer → Bool
  | [] => false
  | c :: cs => isWordChar c && decide (cs.length ≤ 19) && cs.all isNameChar

/-- The check that `File::read` and `File::create` make of the last path component. -/
def nameAccepted (name : Buffer) : Bool :=
  isValidFileName name && decide (name.length ≤ Max.fileName)

/-- `File::exists`. -/
def «exists» (path : Buffer) : Member Bool := do
  match ← Member.file (.stat path) with
  | none => Routine.throw (.thrown .filesystemError)
  | some .notFound => return false
  | some _ => do
    match ← Member.file (.stat path) with
    | none => Routine.throw (.thrown .filesystemError)
    | some .regular => return true
    | some _ => return false

/-- The second look of `File::exists`, at the kind of what is there. -/
def isRegularFile (path : Buffer) : Member Bool := do
  match ← Member.file (.stat path) with
  | none => Routine.throw (.thrown .filesystemError)
  | some .regular => return true
  | some _ => return false

/-- `File::read`: check a file, note its name and size, and open it. -/
def read (f : File) (path : Buffer) : Member (File × Option Exception) := do
  match ← Member.attempt («exists» path) with
  | .error e => return (f, some e)
  | .ok false => return (f, some (.invalidArgument "File does not exist."))
  | .ok true => do
    let f := { f with fileName := filename path }
    match ← Member.file (.fileSize path) with
    | none => return (f, some .filesystemError)
    | some size => do
      let f := { f with fileSize := size }
      if nameAccepted f.fileName then do
        match ← Member.file (.openRead path) with
        | none =>
          return ({ f with input := .failed },
            some (.runtimeError "Unable to open file for reading."))
        | some handle => return ({ f with input := .opened handle }, none)
      else return (f, some (.invalidArgument "Invalid file name."))

/-- `File::create`: check that there is no such file, check its name, and open it for writing. -/
def create (f : File) (path : Buffer) : Member (File × Option Exception) := do
  match ← Member.attempt («exists» path) with
  | .error e => return (f, some e)
  | .ok true => return (f, some (.invalidArgument "File already exists."))
  | .ok false => do
    let f := { f with fileName := filename path }
    if nameAccepted f.fileName then do
      match ← Member.file (.openWrite path) with
      | none => return ({ f with output := .failed }, some (.runtimeError "Unable to create file."))
      | some handle => return ({ f with output := .opened handle }, none)
    else return (f, some (.invalidArgument "Invalid file name."))

/-- `File::readChunk`. -/
def readChunk (f : File) (chunkSize : Nat) : Member Buffer :=
  match f.input with
  | .failed => Routine.throw (.thrown (.runtimeError "File stream not open."))
  | .closed => Routine.throw (.thrown (.runtimeError "Unable to read from file."))
  | .opened handle => do
    let buffer : Buffer ← Member.file (.read handle chunkSize)
    if buffer.length = chunkSize then return buffer
    else Routine.throw (.thrown (.runtimeError "Unable to read from file."))

/-- `File::writeChunk`. -/
def writeChunk (f : File) (chunk : Buffer) : Member Unit :=
  match f.output with
  | .failed => Routine.throw (.thrown (.runtimeError "File stream not open."))
  | .closed => Routine.throw (.thrown (.runtimeError "Unable to write to file."))
  | .opened handle => do
    let written : Bool ← Member.file (.write handle chunk)
    Routine.require written (.thrown (.runtimeError "Unable to write to file."))

/-- The join of `File::getFileNames`: a comma before each name but where nothing precedes it. -/
def joinNames (names : List Name) : Buffer :=
  names.foldl (fun a b => a ++ (if 0 < a.length then ascii "," else []) ++ b) []

/-- `File::getFileNames`: an inaccessible folder gives the empty string. -/
def getFileNames (folderPath : Buffer) : Member Buffer := do
  match ← Member.file (.list folderPath) with
  | none => return []
  | some names => return joinNames names

/-- `File::changeFileName`: whether `rename` returned 0. -/
def changeFileName (path newPath : Buffer) : Member Bool := Member.file (.rename path newPath)

/-- `File::deleteFile`: whether `remove` returned 0. -/
def deleteFile (path : Buffer) : Member Bool := Member.file (.remove path)

end File

end CloudStorage
