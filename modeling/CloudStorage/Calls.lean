import CloudStorage.Client

set_option autoImplicit false

/-! # Which calls a function makes

For each function that does not itself talk to the peer: the calls it makes and the exits it takes.
A property of a run that such calls keep is kept by the function (`Routine.Only.triple`), so the
proofs about handlers and operations never look into these functions. -/

namespace CloudStorage

open Interaction Interaction.Routine

/-- A call into the file system of the kind `p`. -/
def OnFile (p : FileCall → Prop) : Sys.Op → Prop
  | .sys (.file c) => p c
  | _ => False

/-- A call that neither puts a frame on the wire nor accepts one nor counts one, is none into the key
    exchange and does not stand for the `result` of a command. -/
def Uncounted : Sys.Op → Prop
  | .send _ => False
  | .sys (.crypto _) => False
  | .sys (.note (.accepted _ _ _)) => False
  | .sys (.note (.counted _ _)) => False
  | .sys (.note (.derived _)) => False
  | .sys (.garbage .result) => False
  | _ => True

/-- Such a call that seals no frame either. -/
def Unlogged : Sys.Op → Prop
  | .sys (.note (.sealed _ _ _)) => False
  | o => Uncounted o

theorem Unlogged.uncounted {o : Sys.Op} (ho : Unlogged o) : Uncounted o := by
  unfold Unlogged at ho
  split at ho
  · exact ho.elim
  · exact ho

/-- An exception. -/
def Exit.IsThrown : Exit → Prop
  | .thrown _ => True
  | _ => False

theorem OnFile.unlogged {p : FileCall → Prop} : ∀ o, OnFile p o → Unlogged o
  | .sys (.file _), _ => trivial

theorem OnFile.file {p : FileCall → Prop} : ∀ {o}, OnFile p o → ∃ c, o = .sys (.file c) ∧ p c
  | .sys (.file c), hc => ⟨c, rfl, hc⟩

namespace Member

variable {α : Type} {A : Sys.Op → Prop}

theorem only_file {X : Exit → Prop} {p : FileCall → Prop} {c : FileCall} (hc : p c) :
    Only (OnFile p) X (file c) := Only.call hc

theorem only_sys {X : Exit → Prop} {o : SysCall} (ho : Unlogged (.sys o)) : Only Unlogged X (sys o) :=
  Only.call ho

/-- A `try` block lets no exception out. -/
theorem only_attempt {X : Exit → Prop} {r : Member α} (hr : Only A Exit.IsThrown r) :
    Only A X (attempt r) := by
  refine (hr.bind fun _ => .pure _).catchExit fun e he => ?_
  cases e with
  | thrown e => exact .pure _
  | _ => exact he.elim

theorem only_isDirectory (path : Buffer) :
    Only (OnFile (· = .stat path)) Exit.IsThrown (isDirectory path) := by
  refine .bind (only_file rfl) fun found => ?_
  match found with
  | none => exact .throw trivial
  | some .notFound => exact .pure _
  | some .regular | some .directory =>
      refine .bind (only_file rfl) fun isDir => ?_
      match isDir with
      | none => exact .throw trivial
      | some .notFound | some .regular | some .directory => exact .pure _

theorem only_readName {X : Exit → Prop} (field : Buffer) :
    Only (fun o : Sys.Op => o = .sys .overrun) X (readName field) :=
  .bind (.call rfl) fun _ => .pure _

end Member

namespace Wrapper

theorem only_serialize {X : Exit → Prop} (P : Platform) (key : Buffer) (counter : Int)
    (payload : Buffer) : Only Uncounted X (serialize P key counter payload) := by
  refine .bind (.call trivial) fun (iv : Option Buffer) => ?_
  match iv with
  | none => exact .pure _
  | some iv =>
      dsimp only
      split
      · exact .pure _
      · exact .bind (.call trivial) fun _ => .pure _

theorem only_deserialize {A : Sys.Op → Prop} (P : Platform) (key wrapper : Buffer) :
    Only A (fun e => e = .undefined ∨ e.IsThrown) (deserialize P key wrapper) := by
  unfold deserialize
  split_ifs
  · exact .throw (Or.inl rfl)
  · exact .throw (Or.inr trivial)
  · exact .pure _

end Wrapper

namespace File

open Member

variable {X : Exit → Prop}

theorem only_exists (path : Buffer) :
    Only (OnFile (· = .stat path)) Exit.IsThrown («exists» path) := by
  refine .bind (only_file rfl) fun found => ?_
  match found with
  | none => exact .throw trivial
  | some .notFound => exact .pure _
  | some .regular | some .directory =>
      refine .bind (only_file rfl) fun isRegular => ?_
      match isRegular with
      | none => exact .throw trivial
      | some .notFound | some .regular | some .directory => exact .pure _

theorem only_read (f : File) (path : Buffer) :
    Only (OnFile fun c => c = .stat path ∨ c = .fileSize path ∨ c = .openRead path) X
      (f.read path) := by
  have hexists := (only_exists path).mono (B := OnFile fun c =>
    c = .stat path ∨ c = .fileSize path ∨ c = .openRead path)
    (fun | .sys (.file _), h => Or.inl h) fun _ => id
  refine .bind (only_attempt hexists) fun found => ?_
  match found with
  | .error _ | .ok false => exact .pure _
  | .ok true =>
      refine .bind (only_file (Or.inr (Or.inl rfl))) fun size => ?_
      match size with
      | none => exact .pure _
      | some size =>
          dsimp only
          split
          · refine .bind (only_file (Or.inr (Or.inr rfl))) fun handle => ?_
            match handle with
            | none | some _ => exact .pure _
          · exact .pure _

theorem only_create (f : File) (path : Buffer) :
    Only (OnFile fun c => c = .stat path ∨ c = .openWrite path) X (f.create path) := by
  have hexists := (only_exists path).mono (B := OnFile fun c =>
    c = .stat path ∨ c = .openWrite path) (fun | .sys (.file _), h => Or.inl h) fun _ => id
  refine .bind (only_attempt hexists) fun found => ?_
  match found with
  | .error _ | .ok true => exact .pure _
  | .ok false =>
      dsimp only
      split
      · refine .bind (only_file (Or.inr rfl)) fun handle => ?_
        match handle with
        | none | some _ => exact .pure _
      · exact .pure _

theorem only_readChunk (f : File) (n : Nat) :
    Only (OnFile fun c => ∃ handle, f.input = .opened handle ∧ c = .read handle n) Exit.IsThrown
      (f.readChunk n) := by
  unfold readChunk
  split
  · exact .throw trivial
  · exact .throw trivial
  · rename_i handle hopen
    refine .bind (only_file ⟨handle, hopen, rfl⟩) fun (buffer : Buffer) => ?_
    by_cases hlen : buffer.length = n
    · rw [if_pos hlen]
      exact .pure _
    · rw [if_neg hlen]
      exact .throw trivial

theorem only_writeChunk (f : File) (chunk : Buffer) :
    Only (OnFile fun c => ∃ handle, f.output = .opened handle ∧ c = .write handle chunk)
      Exit.IsThrown (f.writeChunk chunk) := by
  unfold writeChunk
  split
  · exact .throw trivial
  · exact .throw trivial
  · rename_i handle hopen
    exact .bind (only_file ⟨handle, hopen, rfl⟩) fun _ => .require trivial

theorem only_getFileNames (path : Buffer) :
    Only (OnFile (· = .list path)) X (getFileNames path) := by
  refine .bind (only_file rfl) fun names => ?_
  match names with
  | none | some _ => exact .pure _

end File

namespace Worker

open Member

variable {X : Exit → Prop}

theorem only_markRefused (fileError : Bool) (file : File) :
    Only Unlogged X (markRefused fileError file) := by
  unfold markRefused
  split
  · exact only_sys trivial
  · exact .pure _

theorem only_renameCode (path newPath : Buffer) :
    Only (OnFile fun c => c = .stat path ∨ c = .stat newPath ∨ c = .rename path newPath)
      Exit.IsThrown (renameCode path newPath) := by
  refine .bind ((File.only_exists path).mono (fun | .sys (.file _), h => Or.inl h) fun _ => id)
    fun found => ?_
  split
  · refine .bind ((File.only_exists newPath).mono
      (fun | .sys (.file _), h => Or.inr (Or.inl h)) fun _ => id) fun found => ?_
    split
    · exact .pure _
    · refine .bind (only_file (Or.inr (Or.inr rfl))) fun done => ?_
      split <;> exact .pure _
  · exact .pure _

theorem only_deleteCode (path : Buffer) :
    Only (OnFile fun c => c = .stat path ∨ c = .remove path) Exit.IsThrown (deleteCode path) := by
  refine .bind ((File.only_exists path).mono (fun | .sys (.file _), h => Or.inl h) fun _ => id)
    fun found => ?_
  split
  · refine .bind (only_file (Or.inr rfl)) fun done => ?_
    split <;> exact .pure _
  · exact .pure _

end Worker

namespace Client

open Member

theorem only_warnInvalid {X : Exit → Prop} (invalid : Bool) :
    Only Unlogged X (warnInvalid invalid) := by
  unfold warnInvalid
  split
  · exact .bind (only_sys trivial) fun _ => only_sys trivial
  · exact .pure _

theorem only_readFileName : Only Unlogged (· = .returned 0) readFileName := by
  refine .bind (only_sys trivial) fun line => ?_
  dsimp only
  split
  · exact .bind (only_sys trivial) fun _ => .bind (only_sys trivial) fun _ => .throw rfl
  · exact .pure _

theorem only_printNames {X : Exit → Prop} (names : List Buffer) :
    Only Unlogged X (printNames names) := by
  induction names with
  | nil => exact .pure _
  | cons name names ih => exact .bind (only_sys trivial) fun _ => ih

theorem only_makeDownloads :
    Only (OnFile fun c => c = .stat downloadsPath ∨ c = .createDirectory downloadsPath)
      (fun e => e.IsThrown ∨ e = .returned 0) makeDownloads := by
  refine .bind ((only_isDirectory _).mono (fun | .sys (.file _), h => Or.inl h) fun _ => Or.inl)
    fun isDir => ?_
  split
  · exact .pure _
  · refine .bind (only_file (Or.inr rfl)) fun made => ?_
    match made with
    | none => exact .throw (Or.inl trivial)
    | some true => exact .pure _
    | some false => exact .throw (Or.inr rfl)

theorem only_readList {A : Sys.Op → Prop} (size : Nat) (payload : Buffer) :
    Only A (· = .undefined) (readList size payload) := by
  unfold readList
  split
  · exact .throw rfl
  · exact .pure _

theorem only_reportCode {X : Exit → Prop} (done failed : Report) (code : UInt8) :
    Only Unlogged X (reportCode done failed code) := by
  unfold reportCode
  split_ifs
  · exact .bind (only_sys trivial) fun _ => .pure _
  · exact .bind (only_sys trivial) fun _ => .pure _
  · exact .bind (only_sys trivial) fun _ => .pure _
  · exact .pure _

end Client

end CloudStorage
