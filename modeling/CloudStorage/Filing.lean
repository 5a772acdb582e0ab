import CloudStorage.Codecs
import CloudStorage.Conversation
import CloudStorage.FileMap

set_option autoImplicit false

/-! # The functions of `File` on a tree

What `File::exists`, `File::read` and `File::create` find and do where no call fails, by what the path
leads to in the tree. They say nothing to the other side. -/

namespace CloudStorage

open Interaction Member

/-- The host after some calls into the file system, none of which fails. -/
def Host.after (h : Host) (calls : List FileCall) : Host := { h with fs := h.fs.after calls }

@[simp]
theorem Host.after_nil (h : Host) : h.after [] = h := rfl

/-- Calls after other calls. -/
theorem Host.Same.after {h h' h'' : Host} {calls calls' : List FileCall} (hs : (h.after calls).Same h')
    (hs' : (h'.after calls').Same h'') : (h.after (calls ++ calls')).Same h'' where
  fs := by
    rw [hs'.fs]
    show h'.fs.after calls' = h.fs.after (calls ++ calls')
    rw [hs.fs, Fs.after_append]
    rfl
  console := hs'.console.trans hs.console
  printed := hs'.printed.trans hs.printed

/-- Calls after something that changes no files. -/
theorem Host.Same.trans_after {h h' h'' : Host} {calls : List FileCall} (hs : h.Same h')
    (hs' : (h'.after calls).Same h'') : (h.after calls).Same h'' :=
  (show (h.after []).Same h' from hs).after hs'

variable {P : Platform} {key : Buffer} {heap : Host → Buffer} {x : Session} {h : Host} {path : Buffer}
  {name : Name} {p : Path} {i : Nat}

/-- The last component of a path in a folder is the name. -/
theorem filename_concat (hname : File.isValidFileName name = true) :
    filename (path ++ 47 :: name) = name := by
  rw [filename, List.splitOn_append_cons_self, Fs.splitOn_of_valid hname, List.getLastD_eq_getLast?,
    List.getLast?_concat]
  rfl

theorem nameAccepted_of_valid (hname : File.isValidFileName name = true) :
    File.nameAccepted name = true := by
  have hlen := Fs.length_of_valid hname
  unfold File.nameAccepted Max.fileName
  rw [hname, Bool.true_and, decide_eq_true_eq]
  omega

namespace File

theorem plays_exists {t : FileType} (ht : h.fs.fileType path = some t)
    {Q : Except Exit Bool → Session → Host → Prop} (hq : Q (.ok (decide (t = .regular))) x h) :
    Plays P key heap («exists» path) x h [] Q := by
  apply Plays.bind_quiet (plays_stat _)
  rw [ht]
  cases t with
  | notFound => exact plays_pure hq
  | regular =>
      apply Plays.bind_quiet (plays_stat _)
      rw [ht]
      exact plays_pure hq
  | directory =>
      apply Plays.bind_quiet (plays_stat _)
      rw [ht]
      exact plays_pure hq

/-- A regular file with a name that is accepted is opened. -/
theorem plays_read (f : File) (hr : h.fs.resolve path = .ok p) (hp : h.fs.node p = some (.file i))
    (hname : nameAccepted (filename path) = true)
    {Q : Except Exit (File × Option Exception) → Session → Host → Prop}
    (hq : Q (.ok ({ f with
        fileName := filename path
        fileSize := (h.fs.data i).length
        input := .opened h.fs.handles.length }, none)) x { h with fs := h.fs.after [.openRead path] }) :
    Plays P key heap (f.read path) x h [] Q := by
  have htype : h.fs.fileType path = some .regular := Fs.fileType_regular.2 ⟨p, i, hr, hp⟩
  have hsize := Fs.fileSize_file hr hp
  have hopen := (Fs.openRead_file hr hp).1
  apply Plays.bind_quiet
  apply plays_attempt
  apply plays_exists htype
  refine ⟨_, rfl, ?_⟩
  apply Plays.bind_quiet
  apply plays_fileSize
  rw [hsize]
  dsimp only
  rw [if_pos hname]
  apply Plays.bind_quiet
  apply plays_file
  rw [hopen]
  exact plays_pure hq

/-- Where a file can be created it is. -/
theorem plays_create (f : File) (htype : h.fs.fileType path = some .notFound)
    (hname : nameAccepted (filename path) = true) {handle : Nat}
    (hopen : (h.fs.openWrite path).1 = some handle)
    {Q : Except Exit (File × Option Exception) → Session → Host → Prop}
    (hq : Q (.ok ({ f with fileName := filename path, output := .opened handle }, none)) x
      { h with fs := (h.fs.openWrite path).2 }) :
    Plays P key heap (f.create path) x h [] Q := by
  have hans : ((FileCall.openWrite path).answer false h.fs).1 = some handle := hopen
  apply Plays.bind_quiet
  apply plays_attempt
  apply plays_exists htype
  refine ⟨_, rfl, ?_⟩
  dsimp only
  rw [if_pos hname]
  apply Plays.bind_quiet
  apply plays_file
  rw [hans]
  exact plays_pure hq

/-- What is there is not created. -/
theorem plays_create_exists (f : File) (htype : h.fs.fileType path = some .regular)
    {Q : Except Exit (File × Option Exception) → Session → Host → Prop}
    (hq : Q (.ok (f, some (.invalidArgument "File already exists."))) x h) :
    Plays P key heap (f.create path) x h [] Q := by
  apply Plays.bind_quiet
  apply plays_attempt
  apply plays_exists htype
  exact ⟨_, rfl, plays_pure hq⟩

end File

/-- A string that ends within its field is read, whatever lies behind. -/
theorem plays_readName {field : Buffer} (hfield : ∀ beyond, cstr (field ++ beyond) = name)
    {Q : Except Exit Buffer → Session → Host → Prop} (hq : Q (.ok name) x h) :
    Plays P key heap (readName field) x h [] Q := by
  apply Plays.bind_quiet (plays_overrun _)
  dsimp only
  rw [hfield]
  exact plays_pure hq

/-- A valid name ends within its field. -/
theorem named_of_valid (hname : File.isValidFileName name = true) : Named (.ofName name) name := by
  have hlen := Fs.length_of_valid hname
  exact named_ofName (isToken_of_valid hname).2 (by unfold Max.fileName; omega)

end CloudStorage
