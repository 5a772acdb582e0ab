import CloudStorage.Interaction.Shared
import CloudStorage.Folders
import CloudStorage.Lasting

set_option autoImplicit false

/-! # Sessions on one store

The server runs each session in a thread of its own, and all of them use the file system of the server.
What a session has of its own are its console, its logs and the files it has open (`Seat`); each call
is answered on the host that it sees (`Seat.host`), and leaves a store for all (`OnStore`). The server up
to the moment at which one of its workers ends the process is a run of them.

A worker is tidy in what it calls: it makes no directory, it gives a file that it creates a valid name,
and it reads and writes only files that it has opened since the request it handles. -/

namespace CloudStorage

open Interaction Interaction.Routine

/-! ## The sessions -/

/-- The file system with these files open. Files that are open are files of the store, so the bound
    is that of the store. -/
def Fs.view (fs : Fs) (handles : List (Nat × Nat)) : Fs where
  toFsState := { fs.toFsState with
    handles := handles
    nextInode := handles.foldr (fun e n => max (e.1 + 1) n) fs.nextInode }
  wf := by
    have hle : fs.nextInode ≤ handles.foldr (fun e n => max (e.1 + 1) n) fs.nextInode := by
      induction handles with
      | nil => exact Nat.le_refl _
      | cons e handles ih => exact Nat.le_trans ih (Nat.le_max_right ..)
    refine ⟨fun p i h => Nat.lt_of_lt_of_le (fs.wf.inode_lt p i h) hle, fs.wf.inode_inj,
      fs.wf.parent_dir, fun e he => ?_, fs.wf.cwd_dir⟩
    clear hle
    induction handles with
    | nil => cases he
    | cons e' handles ih =>
        rcases List.mem_cons.1 he with rfl | he
        · exact Nat.lt_of_lt_of_le (Nat.lt_succ_self _) (Nat.le_max_left ..)
        · exact Nat.lt_of_lt_of_le (ih he) (Nat.le_max_right ..)

theorem Fs.view_sameDirs (fs : Fs) (handles : List (Nat × Nat)) : fs.SameDirs (fs.view handles) :=
  .of_node rfl fun _ => Iff.rfl

/-- What a session has beside the store. -/
structure Seat where
  handles : List (Nat × Nat)
  console : Console
  printed : List Report
  wire : List Buffer
  notes : List Note

namespace Seat

/-- A session before its first call. -/
def start (console : Console) : Seat := ⟨[], console, [], [], []⟩

/-- The host as the session sees it. -/
def host (seat : Seat) (fs : Fs) : Host :=
  ⟨fs.view seat.handles, seat.console, seat.printed, seat.wire, seat.notes⟩

end Seat

/-- The session's part of a host. -/
def Host.seat (h : Host) : Seat := ⟨h.fs.handles, h.console, h.printed, h.wire, h.notes⟩

/-- Each call is answered on the host that its session sees. -/
def OnStore (ι : Type) {α : Type} (rely : Transition Sys Host) : Shared.Env ι Sys Fs Seat α :=
  fun c i o a fs' seat' =>
    ∃ h', rely ((c.part i).2.host c.store) o a h' ∧ fs' = h'.fs.view [] ∧ seat' = h'.seat

/-- A store with a folder for one user, who has the empty files of these names. -/
def storeOf (names : List Name) : Fs :=
  names.foldl (fun fs name => (fs.openWrite (ascii "/data/user1/" ++ name)).2)
    (Fs.ofFolders [ascii "/data", ascii "/data/user1"])

/-- Sessions of any users, after their logins. -/
def sessions {ι : Type} (P : Platform) (fs : Fs) (start : ι → Session) (bound : ι → Nat)
    (console : ι → Console) : Shared ι Sys Fs Seat (Except Exit Int × Session) :=
  ⟨fs.view [], fun i => (Worker.commandLoop P (bound i) (start i), .start (console i))⟩

section

variable {ι : Type} [DecidableEq ι] {α : Type}

/-- One call of session `i`, answered with a given choice. -/
def turn (c : Shared ι Sys Fs Seat α) (i : ι) (ch : Choice) : Shared ι Sys Fs Seat α :=
  match (c.part i).1 with
  | .ret _ => c
  | .call o k =>
    let r := ((c.part i).2.host c.store).answer ch o
    c.next i (r.2.fs.view []) (k r.1) r.2.seat

/-- The calls of the sessions in the order of a schedule. -/
def turns : List (ι × Choice) → Shared ι Sys Fs Seat α → Shared ι Sys Fs Seat α
  | [], c => c
  | (i, ch) :: schedule, c => turns schedule (turn c i ch)

/-- Every call in the run with a given schedule is one that `ok` allows. -/
def Permits (ok : Host → Sys.Op → Prop) :
    List (ι × Choice) → Shared ι Sys Fs Seat α → Prop
  | [], _ => True
  | (i, ch) :: schedule, c =>
    (match (c.part i).1 with
      | .ret _ => True
      | .call o _ => ok ((c.part i).2.host c.store) o) ∧ Permits ok schedule (turn c i ch)

instance decidablePermits (ok : Host → Sys.Op → Prop) [∀ h o, Decidable (ok h o)] :
    ∀ (schedule : List (ι × Choice)) (c : Shared ι Sys Fs Seat α), Decidable (Permits ok schedule c)
  | [], _ => .isTrue trivial
  | (i, ch) :: schedule, c =>
    have := decidablePermits ok schedule (turn c i ch)
    match hc : (c.part i).1 with
    | .ret _ => decidable_of_iff (Permits ok schedule (turn c i ch)) (by simp [Permits, hc])
    | .call o _ => decidable_of_iff (ok ((c.part i).2.host c.store) o ∧
        Permits ok schedule (turn c i ch)) (by simp [Permits, hc])

theorem Permits.reaches {ok : Host → Sys.Op → Prop} {schedule : List (ι × Choice)}
    {c : Shared ι Sys Fs Seat α} (h : Permits ok schedule c) :
    Shared.Reaches (OnStore ι fun h o a h' => Host.anyEnv h o a h' ∧ ok h o) c (turns schedule c) := by
  induction schedule generalizing c with
  | nil => exact .refl
  | cons e schedule ih =>
      obtain ⟨i, ch⟩ := e
      obtain ⟨hok, hrest⟩ := h
      have hlater := ih hrest
      cases hc : (c.part i).1 with
      | ret a =>
          have hsame : turn c i ch = c := by
            unfold turn
            rw [hc]
          rw [hsame] at hlater
          rw [turns, hsame]
          exact hlater
      | call o k =>
          rw [hc] at hok
          have hstep : Shared.Step (OnStore ι fun h o a h' => Host.anyEnv h o a h' ∧ ok h o) c
              (turn c i ch) := by
            unfold turn
            rw [hc]
            exact .call i hc ⟨_, ⟨⟨ch, rfl⟩, hok⟩, rfl, rfl⟩
          exact .head hstep hlater

end

/-! ## Tidy calls -/

/-- How many files a session has opened before the request it handles, and up to now. -/
structure Opens where
  before : Nat
  total : Nat

/-- The length of the frame of a request. -/
def requestSize : Nat := Wrapper.getSize Max.initialRequestLength

/-- The call that receives a request. -/
def isRequest : Sys.Op → Bool
  | .recv n => n == requestSize
  | _ => false

/-- The handle that was opened, if one was. -/
def openedHandle : (o : Sys.Op) → Sys.Ans o → Option Nat
  | .sys (.file (.openRead _)), (a : Option Nat) => a
  | .sys (.file (.openWrite _)), (a : Option Nat) => a
  | _, _ => none

/-- A receive of a request starts a new count, and an opened file is counted. -/
def Opens.after (s : Opens) : (o : Sys.Op) → Sys.Ans o → Opens
  | .recv n, _ => if n = requestSize then ⟨s.total, s.total⟩ else s
  | o, a => if (openedHandle o a).isSome then ⟨s.before, s.total + 1⟩ else s

/-- The handles are numbered in the order in which they are opened. -/
def Numbered : Transition Sys Opens := fun s o a s' =>
  (∀ handle, openedHandle o a = some handle → handle = s.total) ∧ s' = s.after o a

/-- What a worker calls: a file is created under a valid name only, read and written only if it was
    opened for the request, and renamed or removed only while none is open. -/
def TidyCall (s : Opens) : FileCall → Prop
  | .openWrite path => File.nameAccepted (filename path) = true
  | .read handle _ | .write handle _ => s.before ≤ handle ∧ handle < s.total
  | .rename _ _ | .remove _ => s.total = s.before
  | .createDirectory _ => False
  | .stat _ | .fileSize _ | .openRead _ | .list _ => True

def Tidy : Transition Sys Opens := fun s o _ _ => ∀ c, o = .sys (.file c) → TidyCall s c

/-- The triples of this module. -/
abbrev Tidies {α : Type} (K : Opens → Prop) (r : Member α) (Q : α → Opens → Prop) : Prop :=
  Passes Numbered Tidy K r Q

/-- No call of this kind opens a file or receives a request. -/
def Still : Sys.Op → Prop
  | .recv n => n ≠ requestSize
  | .sys (.file (.openRead _)) | .sys (.file (.openWrite _)) => False
  | _ => True

variable {P : Platform} {K : Opens → Prop} {s s' : Opens}

theorem numbered_still {o : Sys.Op} {a : Sys.Ans o} (ho : Still o) (hstep : Numbered s o a s') :
    s' = s := by
  rw [hstep.2]
  cases o with
  | recv n => exact if_neg ho
  | send data => rfl
  | sys o =>
      cases o with
      | file c =>
          cases c with
          | openRead path => exact ho.elim
          | openWrite path => exact ho.elim
          | _ => rfl
      | _ => rfl

/-- A function that opens nothing and calls the file system where it may. -/
theorem tidies_of_only {α : Type} {A : Sys.Op → Prop} {X : Exit → Prop} {r : Member α}
    (hr : Only A X r) (hstill : ∀ o, A o → Still o)
    (hA : ∀ c, A (.sys (.file c)) → ∀ s, K s → TidyCall s c) : Tidies K r fun _ => K := by
  refine passes_of_only hr fun s o a s' ho hK hstep => ?_
  have hsame := numbered_still (hstill o ho) hstep
  subst hsame
  exact ⟨fun c hc => hA c (hc ▸ ho) s' hK, hK⟩

/-- What is known of the open files is lasting. -/
theorem lasting_tidy : Lasting Numbered Tidy K where
  send := by
    intro data s a s' hK hstep
    rw [numbered_still (o := .send data) trivial hstep]
    exact ⟨fun c hc => (by cases hc), hK⟩
  sys := by
    intro o ho s a s' hK hstep
    have hstill : Still (.sys o) := by
      cases o with
      | file c => exact absurd rfl (ho c)
      | _ => trivial
    rw [numbered_still hstill hstep]
    exact ⟨fun c hc => absurd (NetOp.sys.inj hc) (ho c), hK⟩

/-- A function that only looks at files. -/
theorem tidies_looking {α : Type} {p : FileCall → Prop} {X : Exit → Prop} {r : Member α}
    (hr : Only (OnFile p) X r) (hp : ∀ c, p c → ∃ path, c = .stat path ∨ c = .list path) :
    Tidies K r fun _ => K := by
  refine tidies_of_only hr (fun o ho => ?_) fun c hc s _ => ?_
  · cases o with
    | sys o =>
        cases o with
        | file c =>
            obtain ⟨path, rfl | rfl⟩ := hp c ho
            · trivial
            · trivial
        | _ => exact ho.elim
    | _ => exact ho.elim
  · obtain ⟨path, rfl | rfl⟩ := hp c hc
    · trivial
    · trivial

/-- A receive of another length than that of a request. -/
theorem numbered_recv {m : Nat} {a : Option Buffer} (hm : m ≠ requestSize)
    (hstep : Numbered s (.recv m) a s') : s' = s := numbered_still (o := .recv m) hm hstep

/-! ## Files -/

/-- The file behind a stream was opened for the request. -/
def Current (stream : Stream) (s : Opens) : Prop :=
  ∀ handle, stream = .opened handle → s.before ≤ handle ∧ handle < s.total

/-- Nothing has been opened for the request. -/
def Unopened (s : Opens) : Prop := s.total = s.before

/-- Opening a file, of which the handle is current. -/
theorem tidies_open {c : FileCall} (htidy : ∀ s, Unopened s → TidyCall s c) {f : c.Ans → Option Nat}
    (hf : ∀ a : c.Ans, openedHandle (.sys (.file c)) a = f a) :
    Tidies Unopened (Member.file c) fun a s => ∀ handle, f a = some handle →
      s.before ≤ handle ∧ handle < s.total := by
  intro x s hK a s' hstep
  refine ⟨fun c' hc' => by cases hc'; exact htidy s hK, fun handle hhandle => ?_⟩
  have hopen : openedHandle (.sys (.file c)) a = some handle := (hf a).trans hhandle
  have hnext : s' = ⟨s.before, s.total + 1⟩ := by
    rw [hstep.2]
    show (if (openedHandle (.sys (.file c)) a).isSome then _ else _) = _
    rw [hopen]
    rfl
  have hlast := hstep.1 handle hopen
  have hbefore : s.total = s.before := hK
  rw [hnext, hlast]
  exact ⟨Nat.le_of_eq hbefore.symm, Nat.lt_succ_self _⟩

theorem tidies_exists (path : Buffer) : Tidies K (File.exists path) fun _ => K :=
  tidies_looking (File.only_exists path) fun _ hc => ⟨path, Or.inl hc⟩

theorem tidies_attempt_exists (path : Buffer) :
    Tidies K (Member.attempt (File.exists path)) fun _ => K :=
  tidies_looking (Member.only_attempt (X := fun _ => False) (File.only_exists path))
    fun _ hc => ⟨path, Or.inl hc⟩

theorem tidies_create (path : Buffer) (size : Nat) :
    Tidies Unopened ((File.new size).create path) fun r => Current r.1.output := by
  apply Triple.bind (tidies_attempt_exists path)
  intro found
  have hclosed : ∀ {f : File} {s : Opens}, f.output = .closed → Current f.output s := by
    intro f s hf handle hopen
    rw [hf] at hopen
    cases hopen
  cases found with
  | error e => exact .pure _ fun _ _ _ => hclosed rfl
  | ok found =>
      cases found with
      | true => exact .pure _ fun _ _ _ => hclosed rfl
      | false =>
          dsimp only
          split
          · rename_i hname
            apply Triple.bind (tidies_open (c := .openWrite path) (fun _ _ => hname) fun a => rfl)
            intro handle
            cases handle with
            | none =>
                refine .pure _ fun _ _ _ handle hopen => ?_
                cases hopen
            | some handle =>
                refine .pure _ fun _ s hK handle' hopen => ?_
                cases hopen
                exact hK handle rfl
          · exact .pure _ fun _ _ _ => hclosed rfl

theorem tidies_read (path : Buffer) (size : Nat) :
    Tidies Unopened ((File.new size).read path) fun r => Current r.1.input := by
  apply Triple.bind (tidies_attempt_exists path)
  intro found
  have hclosed : ∀ {f : File} {s : Opens}, f.input = .closed → Current f.input s := by
    intro f s hf handle hopen
    rw [hf] at hopen
    cases hopen
  cases found with
  | error e => exact .pure _ fun _ _ _ => hclosed rfl
  | ok found =>
      cases found with
      | false => exact .pure _ fun _ _ _ => hclosed rfl
      | true =>
          have hsize : Tidies Unopened (Member.file (.fileSize path)) fun _ => Unopened := by
            refine tidies_of_only (A := (· = .sys (.file (.fileSize path)))) (X := fun _ => False)
              (.call rfl) ?_ fun c hc s _ => ?_
            · rintro _ rfl
              trivial
            · cases hc
              trivial
          apply Triple.bind hsize
          intro size
          cases size with
          | none => exact .pure _ fun _ _ _ => hclosed rfl
          | some size =>
              dsimp only
              split
              · apply Triple.bind (tidies_open (c := .openRead path) (fun _ _ => trivial) fun a => rfl)
                intro handle
                cases handle with
                | none =>
                    refine .pure _ fun _ _ _ handle hopen => ?_
                    cases hopen
                | some handle =>
                    refine .pure _ fun _ s hK handle' hopen => ?_
                    cases hopen
                    exact hK handle rfl
              · exact .pure _ fun _ _ _ => hclosed rfl

/-- A function that uses one open file. -/
theorem tidies_using {α : Type} {stream : Stream} {p : FileCall → Prop} {X : Exit → Prop}
    {r : Member α} (hr : Only (OnFile p) X r)
    (hp : ∀ c, p c → ∃ handle, stream = .opened handle ∧
      ((∃ n, c = .read handle n) ∨ ∃ data, c = .write handle data)) :
    Tidies (Current stream) r fun _ => Current stream := by
  refine tidies_of_only hr (fun o ho => ?_) fun c hc s hK => ?_
  · cases o with
    | sys o =>
        cases o with
        | file c =>
            obtain ⟨handle, -, ⟨n, rfl⟩ | ⟨data, rfl⟩⟩ := hp c ho
            · trivial
            · trivial
        | _ => exact ho.elim
    | _ => exact ho.elim
  · obtain ⟨handle, hopen, ⟨n, rfl⟩ | ⟨data, rfl⟩⟩ := hp c hc
    · exact hK handle hopen
    · exact hK handle hopen

theorem tidies_readChunk (file : File) (n : Nat) :
    Tidies (Current file.input) (file.readChunk n) fun _ => Current file.input := by
  apply tidies_using (file.only_readChunk n)
  rintro c ⟨handle, hopen, rfl⟩
  exact ⟨handle, hopen, Or.inl ⟨n, rfl⟩⟩

theorem tidies_writeChunk (file : File) (b : Bool) (chunk : Buffer) :
    Tidies (Current file.output) (Worker.writeChunk file b chunk) fun _ => Current file.output := by
  apply tidies_using (file.only_writeChunk chunk)
  rintro c ⟨handle, hopen, rfl⟩
  exact ⟨handle, hopen, Or.inr ⟨chunk, rfl⟩⟩

/-- The frame of a chunk is shorter than that of a request. -/
theorem getSize_chunk_ne {n : Nat} (hn : n ≤ Max.maxFileChunk) :
    Wrapper.getSize (ChunkM2.getSize n) ≠ requestSize := by
  have hlt : n < intMax := by
    unfold Max.maxFileChunk at hn
    unfold intMax
    omega
  unfold Max.maxFileChunk at hn
  rw [ChunkM2.getSize_of_lt hlt]
  unfold requestSize Wrapper.getSize Wrapper.overhead Wrapper.ivLength Wrapper.tagLength
    Max.initialRequestLength
  omega

theorem numbered_chunk (n : Nat) (hn : n ≤ Max.maxFileChunk) (s : Opens) (a : Option Buffer)
    (s' : Opens) (hK : K s) (hstep : Numbered s (.recv (Wrapper.getSize (ChunkM2.getSize n))) a s') :
    Tidy s (.recv (Wrapper.getSize (ChunkM2.getSize n))) a s' ∧ K s' := by
  rw [numbered_recv (getSize_chunk_ne hn) hstep]
  exact ⟨fun c hc => (by cases hc), hK⟩

/-! ## The worker -/

namespace Worker

/-- What a handler does: it starts with nothing opened, and may end with something. -/
abbrev TidyHandler (r : Member Int) : Prop := Tidies Unopened r fun _ _ => True

theorem tidies_uploadFile (payload : Buffer) : TidyHandler (uploadFile P payload) := by
  refine .bind (lasting_tidy.readName _) fun name => .bind passes_get fun x =>
    .bind (tidies_exists _) fun found => .bind (lasting_tidy.sendPacket _) fun _ =>
    .bind (tidies_create _ 0) fun r => ?_
  obtain ⟨file, error⟩ := r
  cases error with
  | some e => exact .pure _ fun _ _ _ => trivial
  | none =>
      exact .bind (lasting_tidy.receiveChunks (tidies_writeChunk file) numbered_chunk _ _) fun b =>
        .bind (lasting_tidy.receiveLastChunk (tidies_writeChunk file) numbered_chunk _ b) fun _ =>
        .bind (lasting_tidy.sendPacket _) fun _ => .pure _ fun _ _ _ => trivial

theorem tidies_downloadFile (payload : Buffer) : TidyHandler (downloadFile P payload) := by
  refine .bind (lasting_tidy.readName _) fun name => .bind passes_get fun x =>
    .bind (lasting_tidy.call (by simp)) fun unset => .bind (tidies_read _ unset) fun r => ?_
  obtain ⟨file, error⟩ := r
  exact .bind (lasting_tidy.markRefused _ _) fun _ => .bind (lasting_tidy.sendPacket _) fun _ =>
    (lasting_tidy.sendFile (tidies_readChunk file)).conseq (fun _ _ => id) (fun _ _ _ _ => trivial)
      fun _ _ _ => id

theorem tidies_listFiles : TidyHandler (listFiles P) := by
  refine .bind passes_get fun x =>
    .bind (tidies_looking (Member.only_isDirectory _) fun c hc => ⟨_, Or.inl hc⟩) fun isDir => ?_
  split
  · exact .bind (tidies_looking (File.only_getFileNames (X := fun _ => False) _)
      fun c hc => ⟨_, Or.inr hc⟩) fun names => .bind (lasting_tidy.sendPacket _) fun _ =>
      (lasting_tidy.sendList names).conseq (fun _ _ => id) (fun _ _ _ _ => trivial) fun _ _ _ => id
  · exact .bind (lasting_tidy.sendPacket _) fun _ => .pure _ fun _ _ _ => trivial

/-- A change of names, while nothing is open. -/
theorem tidies_change {c : FileCall} (hc : (∃ path newPath, c = .rename path newPath) ∨
    ∃ path, c = .remove path) : Tidies Unopened (Member.file c) fun _ => Unopened := by
  refine tidies_of_only (A := (· = .sys (.file c))) (X := fun _ => False) (.call rfl) ?_
    fun c' hc' s hK => ?_
  · rintro _ rfl
    obtain ⟨path, newPath, rfl⟩ | ⟨path, rfl⟩ := hc
    · trivial
    · trivial
  · cases hc'
    obtain ⟨path, newPath, rfl⟩ | ⟨path, rfl⟩ := hc
    · exact hK
    · exact hK

theorem tidies_renameFile (payload : Buffer) : TidyHandler (renameFile P payload) := by
  have hcode : ∀ path newPath, Tidies Unopened (renameCode path newPath) fun _ => Unopened := by
    intro path newPath
    apply Triple.bind (tidies_exists path)
    intro found
    split
    · apply Triple.bind (tidies_exists newPath)
      intro found
      split
      · exact .pure _ fun _ _ hK => hK
      · apply Triple.bind (tidies_change (Or.inl ⟨path, newPath, rfl⟩))
        intro done
        split
        · exact .pure _ fun _ _ hK => hK
        · exact .pure _ fun _ _ hK => hK
    · exact .pure _ fun _ _ hK => hK
  exact .bind (lasting_tidy.readName _) fun _ => .bind (lasting_tidy.readName _) fun _ =>
    .bind passes_get fun _ => .bind (hcode _ _) fun _ => .bind (lasting_tidy.sendPacket _)
    fun _ => .pure _ fun _ _ _ => trivial

theorem tidies_deleteFile (payload : Buffer) : TidyHandler (deleteFile P payload) := by
  have hcode : ∀ path, Tidies Unopened (deleteCode path) fun _ => Unopened := by
    intro path
    apply Triple.bind (tidies_exists path)
    intro found
    split
    · apply Triple.bind (tidies_change (Or.inr ⟨path, rfl⟩))
      intro done
      split
      · exact .pure _ fun _ _ hK => hK
      · exact .pure _ fun _ _ hK => hK
    · exact .pure _ fun _ _ hK => hK
  exact .bind (lasting_tidy.readName _) fun _ => .bind passes_get fun _ =>
    .bind (hcode _) fun _ => .bind (lasting_tidy.sendPacket _) fun _ => .pure _ fun _ _ _ => trivial

theorem tidies_logout : TidyHandler (logout P) :=
  lasting_tidy.logout.conseq (fun _ _ => id) (fun _ _ _ _ => trivial) fun _ _ _ => id

theorem tidies_command (code : UInt8) (payload : Buffer) : TidyHandler (command P code payload) := by
  unfold command
  split_ifs
  · exact passes_returning (fun _ => trivial) (tidies_uploadFile payload)
  · exact passes_returning (fun _ => trivial) (tidies_downloadFile payload)
  · exact passes_returning (fun _ => trivial) tidies_listFiles
  · exact passes_returning (fun _ => trivial) (tidies_renameFile payload)
  · exact passes_returning (fun _ => trivial) (tidies_deleteFile payload)
  · exact passes_returning (fun _ => trivial) tidies_logout
  · exact .bind (lasting_tidy.call (by simp)) fun _ => .pure _ fun _ _ _ => trivial

/-- **A worker is tidy**, by induction on the bound of its loop: each request starts a new count. -/
theorem tidies_commandLoop (n : Nat) :
    Tidies (fun _ => True) (commandLoop P n) fun _ _ => True := by
  induction n with
  | zero => exact passes_exit _
  | succ n ih =>
      have hrequest : ∀ s a s', True → Numbered s (.recv (Wrapper.getSize Max.initialRequestLength)) a s' →
          Tidy s (.recv (Wrapper.getSize Max.initialRequestLength)) a s' ∧ Unopened s' := by
        intro s a s' _ hstep
        have hsize : Wrapper.getSize Max.initialRequestLength = requestSize := rfl
        rw [hstep.2, Opens.after, if_pos hsize]
        exact ⟨fun c hc => (by cases hc), rfl⟩
      apply Triple.bind (lasting_tidy.expectPacket hrequest)
      intro payload
      apply Triple.bind (tidies_command _ payload)
      intro result
      split_ifs
      · exact passes_exit _
      · exact .pure _ fun _ _ _ => trivial
      · exact ih

end Worker

end CloudStorage
