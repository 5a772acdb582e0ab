import CloudStorage.FileSystem
import CloudStorage.Interaction.Routine
import CloudStorage.Interaction.Dialogue

set_option autoImplicit false

/-! # What the program calls

Client and server are member functions over one interface, `Sys`: the socket, the file system, the
random generator, the key exchange primitives and the console. Three more calls are for what C++
leaves open: a variable that was never written (`garbage`), the memory behind an object that is read
past its end (`overrun`), and `note`, which does nothing and marks a point of the run that no other
call shows.

`Host` is the machine that answers. What a call can do is a function of a `Choice`; an unrestricted
environment makes any choice, a benign one makes no call fail. -/

namespace CloudStorage

open Interaction

/-- An `EVP_PKEY`: the key pair it belongs to. -/
abbrev Pkey : Type := Nat

/-- The calls into the key exchange primitives (`Diffie-Hellman.cpp`, `Util.cpp`, `crypto.cpp`). -/
inductive CryptoCall
  | ecdhKeyGeneration
  | serializePubKey (key : Pkey)
  | deserializePublicKey (sKey : Buffer)
  | deriveSharedSecret (hostKey peerKey : Pkey)
  | computeSHA256Digest (data : Buffer)
  | loadPrivateKey (path password : Buffer)
  | loadPublicKey (path : Buffer)
  | generateDigitalSignature (data : Buffer) (key : Pkey)
  | verifyDigitalSignature (data signature : Buffer) (key : Pkey)
  | encryptTextAES (clear key : Buffer)
  | decryptTextAES (cipher key iv : Buffer)
  /-- Load the server certificate and write it in PEM form. -/
  | serverCertificate
  /-- Read a certificate from a buffer in PEM form; the answer is its public key. -/
  | readCertificate (pem : Buffer)
  /-- Load the CA certificate and the revocation list and check a certificate against them. -/
  | verifyServerCertificate (pem : Buffer)

/-- The type of the answer; `none` is the error return. `deriveSharedSecret` answers with its status
    and with what it left in the buffer. -/
def CryptoCall.Ans : CryptoCall → Type
  | .ecdhKeyGeneration => Option Pkey
  | .serializePubKey _ => Option Buffer
  | .deserializePublicKey _ => Option Pkey
  | .deriveSharedSecret _ _ => Int × Buffer
  | .computeSHA256Digest _ => Option Buffer
  | .loadPrivateKey _ _ => Option Pkey
  | .loadPublicKey _ => Option Pkey
  | .generateDigitalSignature _ _ => Option Buffer
  | .verifyDigitalSignature _ _ _ => Bool
  | .encryptTextAES _ _ => Option (Buffer × Buffer)
  | .decryptTextAES _ _ _ => Option Buffer
  | .serverCertificate => Option Buffer
  | .readCertificate _ => Option Pkey
  | .verifyServerCertificate _ => Bool

/-- Every primitive fails. -/
def CryptoCall.refused : (c : CryptoCall) → c.Ans
  | .deriveSharedSecret _ _ => ((0, []) : Int × Buffer)
  | .verifyDigitalSignature _ _ _ => false
  | .verifyServerCertificate _ => false
  | .ecdhKeyGeneration | .deserializePublicKey _ | .loadPrivateKey _ _ | .loadPublicKey _
  | .readCertificate _ => (none : Option Pkey)
  | .serializePubKey _ | .computeSHA256Digest _ | .generateDigitalSignature _ _
  | .decryptTextAES _ _ _ | .serverCertificate => (none : Option Buffer)
  | .encryptTextAES _ _ => (none : Option (Buffer × Buffer))

/-- Every primitive succeeds, with keys and strings that are all the same. -/
def CryptoCall.granted : (c : CryptoCall) → c.Ans
  | .deriveSharedSecret _ _ => ((1, []) : Int × Buffer)
  | .verifyDigitalSignature _ _ _ => true
  | .verifyServerCertificate _ => true
  | .ecdhKeyGeneration | .deserializePublicKey _ | .loadPrivateKey _ _ | .loadPublicKey _
  | .readCertificate _ => (some 0 : Option Pkey)
  | .serializePubKey _ | .computeSHA256Digest _ | .generateDigitalSignature _ _
  | .decryptTextAES _ _ _ | .serverCertificate => (some [] : Option Buffer)
  | .encryptTextAES _ _ => (some ([], []) : Option (Buffer × Buffer))

/-- What the client tells its user about the end of an operation. -/
inductive Report
  | invalidInput
  | existsOnCloud
  | uploaded (name : Buffer)
  | uploadFailed (name : Buffer)
  | notOnCloud
  | downloadedCorrectly
  | notDownloadedCorrectly
  | noFolder
  | listed (name : Buffer)
  | renamed
  | renameFailed
  | deleted
  | deleteFailed
  | sessionEnded
  deriving DecidableEq, Repr

/-- Points of a run: a frame was built, a frame was accepted, a counter was replaced by what
    `incrementCounter` returned for it, a peer announced the length of its key, a login derived its
    session key, a download goes on after its refusal with this file size. -/
inductive Note
  | sealed (counter : Int) (payload frame : Buffer)
  | accepted (counter : Int) (payload frame : Buffer)
  | counted (counter next : Int)
  | announced (length : Nat)
  | derived (sessionKey : Buffer)
  | refused (fileSize : Nat)
  deriving DecidableEq, Repr

/-- The variables that the code may read before it has written them: the size of a `File`, and the
    `result` of `Worker::start`. -/
inductive Unset
  | fileSize
  | result
  deriving DecidableEq, Repr

/-- The calls besides those to the network. -/
inductive SysCall
  | random (n : Nat)
  | file (c : FileCall)
  | crypto (c : CryptoCall)
  /-- `std::getline(std::cin, s)`; the answer is the new contents of `s`, if it was written, and
      whether `std::cin` is still good. -/
  | getline
  /-- `std::cin.clear()` and `std::cin.ignore(max, '\n')`. -/
  | clearAndIgnore
  | garbage (u : Unset)
  | overrun
  | print (r : Report)
  | note (e : Note)

/-- The calls with the types of their answers. -/
def SysCalls : Interface where
  Op := SysCall
  Ans
    | .random _ => Option Buffer
    | .file c => c.Ans
    | .crypto c => c.Ans
    | .getline => Option Buffer × Bool
    | .clearAndIgnore => Unit
    | .garbage _ => Nat
    | .overrun => Buffer
    | .print _ => Unit
    | .note _ => Unit

/-- The interface of the program. -/
abbrev Sys : Interface := Interface.net UInt8 SysCalls

/-! ## Ends of a function -/

/-- The exceptions that the code throws, or that the library throws in it. -/
inductive Exception
  | invalidArgument (what : String)
  | runtimeError (what : String)
  | filesystemError
  | lengthError
  | outOfRange
  deriving DecidableEq, Repr

/-- How a member function ends other than by reaching its end. -/
inductive Exit
  | returned (result : Int)
  | thrown (e : Exception)
  /-- `exit(EXIT_FAILURE)`: the process ends. -/
  | exited
  /-- Undefined behaviour: an invalid pointer is freed, or memory that is not there is read. -/
  | undefined
  /-- The bound on the iterations of a loop was reached. -/
  | unfinished
  deriving DecidableEq, Repr

/-- The members of `Client` and of `Worker` that a session lives in. -/
structure Session where
  username : Buffer
  sessionKey : Buffer
  sCounter : Int
  rCounter : Int
  deriving DecidableEq, Repr

/-- The members after login. -/
def Session.start (username sessionKey : Buffer) : Session := ⟨username, sessionKey, 0, 0⟩

/-- A member function of `Client` or `Worker`, or a function it calls. -/
abbrev Member (α : Type) : Type := Routine Sys Session Exit α

namespace Member

def sys (o : SysCall) : Member (SysCalls.Ans o) := Routine.call (I := Sys) (.sys o)

/-- The socket's `send`. -/
def sendData (data : Buffer) : Member Bool := Routine.call (I := Sys) (.send data)

/-- The socket's `recv` of `n` bytes with `MSG_WAITALL`. A receive that is cut short leaves the rest
    of the block as it was, which the network may choose to have sent. -/
def receiveData (n : Nat) : Member (Option Buffer) := Routine.call (I := Sys) (.recv n)

def file (c : FileCall) : Member c.Ans := sys (.file c)

def crypto (c : CryptoCall) : Member c.Ans := sys (.crypto c)

def note (e : Note) : Member Unit := sys (.note e)

def print (r : Report) : Member Unit := sys (.print r)

def random (n : Nat) : Member (Option Buffer) := sys (.random n)

def getline : Member (Option Buffer × Bool) := sys .getline

def clearAndIgnore : Member Unit := sys .clearAndIgnore

def garbage (u : Unset) : Member Nat := sys (.garbage u)

def overrun : Member Buffer := sys .overrun

/-- The value of a step that may fail; a failure returns `result`. -/
def expect {α : Type} (r : Member (Option α)) (result : Int) : Member α := do
  match ← r with
  | none => Routine.throw (.returned result)
  | some a => return a

/-- Call a member function: its `return` is the value of the call. -/
def returning (r : Member Int) : Member Int :=
  Routine.catchExit r fun
    | .returned n => pure n
    | e => Routine.throw e

/-- What a member function that ends early is worth to its caller. -/
def value : Exit → Except Exit Int
  | .returned n => .ok n
  | e => .error e

theorem triple_returning {S : Type} {rely guar : Transition Sys S} {K : Session → S → Prop}
    {r : Member Int} {Q : Except Exit Int → Session → S → Prop}
    (hr : Routine.Triple rely guar K r (fun n => Q (.ok n)) fun e => Q (value e)) :
    Routine.Triple rely guar K (returning r) (fun n => Q (.ok n)) fun e => Q (.error e) := by
  apply Routine.Triple.catchExit hr
  intro exit x s hexit
  cases exit with
  | returned n => exact hexit
  | thrown e => exact hexit
  | exited => exact hexit
  | undefined => exact hexit
  | unfinished => exact hexit

/-- A `try` block with a handler for every `std::exception`. -/
def attempt {α : Type} (r : Member α) : Member (Except Exception α) :=
  Routine.catchExit (r >>= fun a => pure (.ok a)) fun
    | .thrown e => pure (.error e)
    | e => Routine.throw e

/-! The rules of the judgement for these calls. -/

section

variable {S : Type} {rely guar : Transition Sys S} {E : Exit → Session → S → Prop}
  {x : Session} {s : S}

@[simp]
theorem sat_sendData (data : Buffer) (Q : Bool → Session → S → Prop) :
    (sendData data).Sat rely guar Q E x s ↔
      ∀ (sent : Bool) s', rely s (.send data) sent s' → guar s (.send data) sent s' ∧ Q sent x s' :=
  Iff.rfl

@[simp]
theorem sat_receiveData (n : Nat) (Q : Option Buffer → Session → S → Prop) :
    (receiveData n).Sat rely guar Q E x s ↔
      ∀ (r : Option Buffer) s', rely s (.recv n) r s' → guar s (.recv n) r s' ∧ Q r x s' :=
  Iff.rfl

@[simp]
theorem sat_note (e : Note) (Q : Unit → Session → S → Prop) :
    (note e).Sat rely guar Q E x s ↔
      ∀ (u : Unit) s', rely s (.sys (.note e)) u s' → guar s (.sys (.note e)) u s' ∧ Q u x s' :=
  Iff.rfl

@[simp]
theorem sat_random (n : Nat) (Q : Option Buffer → Session → S → Prop) :
    (random n).Sat rely guar Q E x s ↔ ∀ (r : Option Buffer) s', rely s (.sys (.random n)) r s' →
      guar s (.sys (.random n)) r s' ∧ Q r x s' :=
  Iff.rfl

end

end Member

/-! ## The host -/

/-- Standard input: what is left of it, and the state of `std::cin`. -/
structure Console where
  input : Buffer
  eof : Bool
  failed : Bool
  deriving DecidableEq, Repr

namespace Console

/-- `std::getline(std::cin, s)`. -/
def getline (c : Console) : (Option Buffer × Bool) × Console :=
  if c.eof || c.failed then ((none, false), { c with failed := true })
  else
    let line := c.input.takeWhile (· != 10)
    match c.input.dropWhile (· != 10) with
    | _ :: rest => ((some line, true), { c with input := rest })
    | [] => ((some line, line ≠ []), { input := [], eof := true, failed := line = [] })

/-- `std::cin.clear()`, then `std::cin.ignore(max, '\n')`. -/
def clearAndIgnore (c : Console) : Console :=
  match c.input.dropWhile (· != 10) with
  | _ :: rest => { input := rest, eof := false, failed := false }
  | [] => { input := [], eof := true, failed := false }

end Console

/-- One machine with one session: its file system and console, what was printed, the frames handed
    to the socket, and the notes of the run. -/
structure Host where
  fs : Fs
  console : Console
  printed : List Report
  wire : List Buffer
  notes : List Note

/-- What is open about the answer to a call: whether it fails, the bytes that a receive or a random
    generator delivers or that lie behind an object, an uninitialised word, and the answers of the
    key exchange primitives. -/
structure Choice where
  fault : Bool
  bytes : Buffer
  word : Nat
  crypto : (c : CryptoCall) → c.Ans

/-- No call fails, and every value left open is zero. -/
def Choice.calm : Choice := ⟨false, [], 0, CryptoCall.refused⟩

/-- No call fails, and a receive delivers `b`. -/
def Choice.deliver (b : Buffer) : Choice := { Choice.calm with bytes := b }

/-- No call fails, not even one into the key exchange. -/
def Choice.grant : Choice := { Choice.calm with crypto := CryptoCall.granted }

/-- The call fails. -/
def Choice.fail : Choice := { Choice.calm with fault := true }

namespace Host

/-- The host with its logs emptied. -/
def fresh (h : Host) : Host := { h with printed := [], wire := [], notes := [] }

/-- A host at the start of a session. -/
def start (fs : Fs) (console : Console) : Host := ⟨fs, console, [], [], []⟩

/-- The host after a successful send. A send of no bytes puts nothing on the wire. -/
def put (h : Host) (data : Buffer) : Host :=
  if data = [] then h else { h with wire := h.wire ++ [data] }

/-- The host after a note. -/
def noted (h : Host) (e : Note) : Host := { h with notes := h.notes ++ [e] }

/-- The answer to a call besides those to the network, and the host after it. -/
def answerSys (c : Choice) (h : Host) : (o : SysCall) → SysCalls.Ans o × Host
  | .random n => (if c.fault then none else some (fit n c.bytes), h)
  | .file call =>
    let r := call.answer c.fault h.fs
    (r.1, { h with fs := r.2 })
  | .crypto call => (c.crypto call, h)
  | .getline =>
    let r := h.console.getline
    (r.1, { h with console := r.2 })
  | .clearAndIgnore => ((), { h with console := h.console.clearAndIgnore })
  | .garbage _ => (c.word % 18446744073709551616, h)
  | .overrun => (c.bytes, h)
  | .print r => ((), { h with printed := h.printed ++ [r] })
  | .note e => ((), h.noted e)

/-- The answer to a call and the host after it. A receive of no bytes fails. -/
def answer (c : Choice) (h : Host) : (o : Sys.Op) → Sys.Ans o × Host
  | .send data => if c.fault then (false, h) else (true, h.put data)
  | .recv n => (if c.fault || n == 0 then none else some (fit n c.bytes), h)
  | .sys o => answerSys c h o

/-- A machine and a network that may do anything. -/
def anyEnv : Transition Sys Host := fun h o a h' => ∃ c, h.answer c o = (a, h')

/-- Run a program with given choices, one for each call. -/
def run {α : Type} : List Choice → Program Sys α × Host → Program Sys α × Host
  | [], c => c
  | _ :: _, (.ret a, h) => (.ret a, h)
  | c :: cs, (.call o k, h) => run cs (k (h.answer c o).1, (h.answer c o).2)

theorem reaches_run {α : Type} (cs : List Choice) (c : Program Sys α × Host) :
    Program.Reaches anyEnv c (run cs c) := by
  induction cs generalizing c with
  | nil => exact .refl
  | cons ch cs ih =>
      obtain ⟨p, h⟩ := c
      cases p with
      | ret a => exact .refl
      | call o k => exact .head (.call ⟨ch, rfl⟩) (ih _)

/-- Every answer in the run with given choices is one that `ok` allows. -/
def Admits {α : Type} (ok : Host → (o : Sys.Op) → Sys.Ans o → Prop) :
    List Choice → Program Sys α × Host → Prop
  | [], _ => True
  | _ :: _, (.ret _, _) => True
  | c :: cs, (.call o k, h) => ok h o (h.answer c o).1 ∧
    Admits ok cs (k (h.answer c o).1, (h.answer c o).2)

instance decidableAdmits {α : Type} (ok : Host → (o : Sys.Op) → Sys.Ans o → Prop)
    [∀ h o a, Decidable (ok h o a)] :
    ∀ (cs : List Choice) (c : Program Sys α × Host), Decidable (Admits ok cs c)
  | [], _ => .isTrue trivial
  | _ :: _, (.ret _, _) => .isTrue trivial
  | c :: cs, (.call o k, h) =>
    have := decidableAdmits ok cs (k (h.answer c o).1, (h.answer c o).2)
    inferInstanceAs (Decidable (ok h o (h.answer c o).1 ∧ _))

theorem Admits.reaches_run {α : Type} {ok : Host → (o : Sys.Op) → Sys.Ans o → Prop}
    (cs : List Choice) {c : Program Sys α × Host} (hc : Admits ok cs c) :
    Program.Reaches (fun h o a h' => anyEnv h o a h' ∧ ok h o a) c (run cs c) := by
  induction cs generalizing c with
  | nil => exact .refl
  | cons ch cs ih =>
      obtain ⟨p, h⟩ := c
      cases p with
      | ret a => exact .refl
      | call o k => exact .head (.call ⟨⟨ch, rfl⟩, hc.1⟩) (ih hc.2)

/-- The calls of the run with given choices. -/
def events {α : Type} : List Choice → Program Sys α × Host → List (Program.Event Sys)
  | [], _ => []
  | _ :: _, (.ret _, _) => []
  | c :: cs, (.call o k, h) => ⟨o, (h.answer c o).1⟩ ::
    events cs (k (h.answer c o).1, (h.answer c o).2)

theorem Admits.reaches_events {α : Type} {ok : Host → (o : Sys.Op) → Sys.Ans o → Prop}
    (cs : List Choice) {p : Program Sys α} {h : Host} (hc : Admits ok cs (p, h))
    (t : List (Program.Event Sys)) :
    Program.Reaches (Program.Logged fun h o a h' => anyEnv h o a h' ∧ ok h o a) (p, h, t)
      ((run cs (p, h)).1, (run cs (p, h)).2, t ++ events cs (p, h)) := by
  induction cs generalizing p h t with
  | nil =>
      rw [events, List.append_nil]
      exact .refl
  | cons ch cs ih =>
      cases p with
      | ret a =>
          rw [events, List.append_nil]
          exact .refl
      | call o k =>
          have hrest := ih hc.2 (t ++ [⟨o, (h.answer ch o).1⟩])
          rw [List.append_assoc, List.singleton_append] at hrest
          exact .head (.call ⟨⟨⟨ch, rfl⟩, hc.1⟩, rfl⟩) hrest

theorem admits_true {α : Type} (cs : List Choice) (c : Program Sys α × Host) :
    Admits (fun _ _ _ => True) cs c := by
  induction cs generalizing c with
  | nil => trivial
  | cons ch cs ih =>
      obtain ⟨p, h⟩ := c
      cases p with
      | ret a => trivial
      | call o k => exact ⟨trivial, ih _⟩

theorem reaches_events {α : Type} (cs : List Choice) {p : Program Sys α} (h : Host)
    (t : List (Program.Event Sys)) :
    Program.Reaches (Program.Logged anyEnv) (p, h, t)
      ((run cs (p, h)).1, (run cs (p, h)).2, t ++ events cs (p, h)) :=
  ((admits_true cs (p, h)).reaches_events cs t).mono fun _ _ _ _ hstep => ⟨hstep.1.1, hstep.2⟩

/-- A run with given choices that has ended. -/
theorem reaches_run_ended {α : Type} (cs : List Choice) {c : Program Sys α × Host} {a : α}
    (hend : (run cs c).1.result = some a) : Program.Reaches anyEnv c (.ret a, (run cs c).2) :=
  Program.eq_ret_of_result hend ▸ reaches_run cs c

theorem anyEnv_send {h h' : Host} {data : Buffer} {sent : Bool}
    (hstep : anyEnv h (.send data) sent h') :
    (sent = false ∧ h' = h) ∨ (sent = true ∧ h' = h.put data) := by
  obtain ⟨c, hc⟩ := hstep
  simp only [answer] at hc
  split_ifs at hc
  · exact Or.inl ⟨(congrArg Prod.fst hc).symm, (congrArg Prod.snd hc).symm⟩
  · exact Or.inr ⟨(congrArg Prod.fst hc).symm, (congrArg Prod.snd hc).symm⟩

theorem anyEnv_note {h h' : Host} {e : Note} {u : Unit}
    (hstep : anyEnv h (.sys (.note e)) u h') : h' = h.noted e := by
  obtain ⟨c, hc⟩ := hstep
  exact (congrArg Prod.snd hc).symm

theorem anyEnv_recv {h h' : Host} {n : Nat} {r : Option Buffer}
    (hstep : anyEnv h (.recv n) r h') : h' = h ∧ ∀ b, r = some b → b.length = n := by
  obtain ⟨c, hc⟩ := hstep
  refine ⟨(congrArg Prod.snd hc).symm, fun b hb => ?_⟩
  have hr : (if c.fault || n == 0 then none else some (fit n c.bytes)) = some b :=
    (congrArg Prod.fst hc).trans hb
  split_ifs at hr
  rw [← Option.some.inj hr, length_fit]

/-- The wire and the notes of a run only grow. -/
theorem anyEnv_grows {h h' : Host} {o : Sys.Op} {a : Sys.Ans o} (hstep : anyEnv h o a h') :
    h.wire <+: h'.wire ∧ h.notes <+: h'.notes := by
  obtain ⟨c, hc⟩ := hstep
  obtain rfl : (h.answer c o).2 = h' := congrArg Prod.snd hc
  match o with
  | .send data =>
      simp only [answer, put]
      split_ifs <;> simp
  | .sys (.note e) => simp [answer, answerSys, noted]
  | .recv _ | .sys (.random _) | .sys (.file _) | .sys (.crypto _) | .sys .getline
  | .sys .clearAndIgnore | .sys (.garbage _) | .sys .overrun | .sys (.print _) =>
      exact ⟨List.prefix_refl _, List.prefix_refl _⟩

theorem anyEnv_random {h h' : Host} {n : Nat} {r : Option Buffer}
    (hstep : anyEnv h (.sys (.random n)) r h') : h' = h ∧ ∀ b, r = some b → b.length = n := by
  obtain ⟨c, hc⟩ := hstep
  refine ⟨(congrArg Prod.snd hc).symm, fun b hb => ?_⟩
  have hr : (if c.fault then none else some (fit n c.bytes)) = some b :=
    (congrArg Prod.fst hc).trans hb
  split_ifs at hr
  rw [← Option.some.inj hr, length_fit]

/-- A machine whose calls succeed, with the values left open taken from a stream. -/
def benign : Machine SysCalls (Host × (Nat → Choice)) := fun l o =>
  let r := answerSys { l.2 0 with fault := false } l.1 o
  (r.1, r.2, fun n => l.2 (n + 1))

/-- The frames accepted so far. -/
def accepted (h : Host) : List (Int × Buffer × Buffer) :=
  h.notes.filterMap fun
    | .accepted counter payload frame => some (counter, payload, frame)
    | _ => none

/-- The increments made so far, each with the counter before and after it. -/
def counted (h : Host) : List (Int × Int) :=
  h.notes.filterMap fun
    | .counted counter next => some (counter, next)
    | _ => none

/-- The session key of the last login. -/
def derivedKey (h : Host) : Option Buffer :=
  (h.notes.filterMap fun
    | .derived key => some key
    | _ => none).getLast?

/-- The frames built so far. -/
def sealed (h : Host) : List (Int × Buffer × Buffer) :=
  h.notes.filterMap fun
    | .sealed counter payload frame => some (counter, payload, frame)
    | _ => none

end Host

end CloudStorage
