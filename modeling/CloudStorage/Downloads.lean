import CloudStorage.Chunks
import CloudStorage.Client

set_option autoImplicit false

/-! # The downloads folder

What a download does to the files of the client. The folder is made where it is missing; then the
chunks are put under the name of the file, and dropped where that name is taken. So a download acts on
the folder as a `put` acts on a shelf. -/

namespace CloudStorage

open Interaction Memory

namespace Fs

variable {fs fs' : Fs} {path : Buffer} {D p : Path} {name : Name}

/-! ## Making a directory -/

theorem createDirectory_free (hr : fs.resolve path = .ok p) (hp : fs.node p = none) :
    (fs.createDirectory path).1 = some true ∧
      (fs.createDirectory path).2.toFsState = fs.enter p .dir := by
  unfold createDirectory
  split
  · rename_i h
    rw [hr] at h
    cases h
  · rename_i q h
    rw [hr] at h
    cases h
    split
    · exact ⟨rfl, rfl⟩
    · rename_i h
      rw [hp] at h
      cases h
    · rename_i j h
      rw [hp] at h
      cases h

/-- Nothing lies below what is not there. -/
theorem node_below (hp : fs.node p = none) (name : Name) : fs.node (p ++ [name]) = none := by
  cases hnode : fs.node (p ++ [name]) with
  | none => rfl
  | some n =>
      have hparent := fs.wf.parent_dir _ n (by simp) hnode
      rw [List.dropLast_concat, hp] at hparent
      cases hparent

/-- The folder at a path, or the place that is free for it. -/
def HasRoom (fs : Fs) (path : Buffer) (D : Path) : Prop :=
  fs.IsFolder path D ∨
    fs.resolve path = .ok D ∧ fs.node D = none ∧ path.length + 22 ≤ 4096

/-- A directory that has just been made is an empty folder. -/
theorem isFolder_createDirectory (hr : fs.resolve path = .ok D) (hfree : fs.node D = none)
    (hroom : path.length + 22 ≤ 4096) : (fs.createDirectory path).2.IsFolder path D ∧
      (fs.createDirectory path).2.files D = fs.files D := by
  have hne : D ≠ [] := (fs.resolve_makeable hr hfree).1
  have hstate := (createDirectory_free hr hfree).2
  have hnode : ∀ q, (fs.createDirectory path).2.node q = if q = D then some .dir else fs.node q := by
    intro q
    rw [hstate]
    exact fs.node_enter hne .dir q
  have hbelow : ∀ name, (fs.createDirectory path).2.node (D ++ [name]) = none := by
    intro name
    rw [hnode, if_neg (by simp), node_below hfree]
  have hkept : DirsKept fs (fs.createDirectory path).2 := by
    refine ⟨by rw [hstate]; rfl, ?_⟩
    intro q hq
    rw [hnode]
    split_ifs
    · rfl
    · exact hq
  constructor
  · refine ⟨resolve_kept hkept hr, by rw [hnode, if_pos rfl], hroom, ?_⟩
    intro name _ hdir
    rw [hbelow] at hdir
    cases hdir
  · funext name
    unfold files FsState.contents
    rw [hbelow, node_below hfree]

theorem HasRoom.untouched (h : fs.HasRoom path D) (hu : Untouched fs fs') : fs'.HasRoom path D := by
  rcases h with hf | ⟨hr, hfree, hroom⟩
  · exact Or.inl (hf.sameDirs hu.dirs)
  · refine Or.inr ⟨hu.dirs.resolve.2 hr, ?_, hroom⟩
    cases hnode : fs'.node D with
    | none => rfl
    | some n =>
        cases n with
        | dir =>
            rw [hu.dirs.node_dir, hfree] at hnode
            cases hnode
        | file i =>
            have hcontents := hu.contents D
            unfold FsState.contents at hcontents
            rw [hnode, hfree] at hcontents
            cases hcontents

/-! ## What a download calls -/

/-- The call that makes the folder, where it is not there. -/
def makes (fs : Fs) (path : Buffer) : List FileCall :=
  if fs.fileType path = some .directory then [] else [.createDirectory path]

/-- The calls for a file that arrives in chunks, in a folder that may have to be made. -/
def receives (fs : Fs) (path : Buffer) (name : Name) (chunks : List Buffer) : List FileCall :=
  fs.makes path ++ if (fs.after (fs.makes path)).fileType (path ++ 47 :: name) = some .regular then []
    else (fs.after (fs.makes path)).stores (path ++ 47 :: name) chunks

theorem HasRoom.makes (h : fs.HasRoom path D) : (fs.after (fs.makes path)).IsFolder path D ∧
    (fs.after (fs.makes path)).files D = fs.files D := by
  rcases h with hf | ⟨hr, hfree, hroom⟩
  · have htype : fs.fileType path = some .directory := by
      unfold fileType
      rw [hf.resolve]
      dsimp only
      rw [hf.dir]
    rw [Fs.makes, if_pos htype]
    exact ⟨hf, rfl⟩
  · have htype : fs.fileType path = some .notFound := by
      unfold fileType
      rw [hr]
      dsimp only
      rw [hfree]
    rw [Fs.makes, if_neg (by rw [htype]; decide)]
    exact isFolder_createDirectory hr hfree hroom

/-- **What is received is put on the shelf.** -/
theorem HasRoom.receives (h : fs.HasRoom path D) (hname : File.isValidFileName name = true)
    (chunks : List Buffer) : (fs.after (fs.receives path name chunks)).IsFolder path D ∧
      (fs.after (fs.receives path name chunks)).files D =
        (fs.files D).change (.put name chunks.flatten) := by
  obtain ⟨hf, hfiles⟩ := h.makes
  have htype := hf.fileType hname
  rw [Fs.receives, after_append, ← hfiles]
  cases hm : (fs.after (fs.makes path)).files D name with
  | some b =>
      rw [hm] at htype
      rw [if_pos (by rw [htype]; rfl), Shelf.change_put_taken hm]
      exact ⟨hf, rfl⟩
  | none =>
      rw [hm] at htype
      rw [if_neg (by rw [htype]; decide)]
      exact ⟨hf.sameDirs (after_stores_sameDirs ..), hf.files_stores hname hm chunks⟩

end Fs

/-- Files and console of a machine; what was printed is of no matter. -/
structure Host.At (fs : Fs) (console : Console) (h : Host) : Prop where
  fs : h.fs = fs
  console : h.console = console

theorem Host.Same.at {h h' : Host} (hs : h.Same h') : Host.At h.fs h.console h' := ⟨hs.fs, hs.console⟩

theorem Host.At.same {fs : Fs} {console : Console} {h h' : Host} (ha : Host.At fs console h)
    (hs : h.Same h') : Host.At fs console h' := ⟨hs.fs.trans ha.fs, hs.console.trans ha.console⟩

namespace Client

open Member

variable {P : Platform} {key : Buffer} {heap : Host → Buffer} {x : Session} {h : Host} {D : Path}
  {name : Name}

theorem plays_makeDownloads (hroom : h.fs.HasRoom downloadsPath D)
    {Q : Except Exit Unit → Session → Host → Prop}
    (hq : Q (.ok ()) x (h.after (h.fs.makes downloadsPath))) :
    Plays P key heap makeDownloads x h [] Q := by
  rcases hroom with hf | ⟨hr, hfree, -⟩
  · have htype : h.fs.fileType downloadsPath = some .directory := Fs.fileType_of_list hf.list
    rw [Fs.makes, if_pos htype] at hq
    apply Plays.bind_quiet (plays_isDirectory htype _)
    exact plays_pure hq
  · have htype : h.fs.fileType downloadsPath = some .notFound := by
      unfold Fs.fileType
      rw [hr]
      dsimp only
      rw [hfree]
    rw [Fs.makes, if_neg (by rw [htype]; decide)] at hq
    have hmade : ((FileCall.createDirectory downloadsPath).answer false h.fs).1 = some true :=
      (Fs.createDirectory_free hr hfree).1
    have hmissing : Plays P key heap (isDirectory downloadsPath) x h [] fun result x' h' =>
        result = .ok false ∧ x' = x ∧ h' = h := by
      apply Plays.bind_quiet (plays_stat _)
      rw [htype]
      exact plays_pure ⟨rfl, rfl, rfl⟩
    apply Plays.bind_quiet
    apply hmissing.mono
    rintro result x' h' ⟨rfl, rfl, rfl⟩
    apply Plays.bind_quiet
    apply plays_file
    rw [hmade]
    exact plays_pure hq

/-- A size that counts as many chunks as the length of the file has. -/
def SameChunks (size length : Nat) : Prop :=
  numFileChunks size = numFileChunks length ∧ lastChunkSize size = lastChunkSize length

instance (size length : Nat) : Decidable (SameChunks size length) := inferInstanceAs (Decidable (_ ∧ _))

/-- Without an error each chunk is written. -/
theorem takes_write {file : File} {handle : Nat} (hfile : file.output = .opened handle) (p : Path) :
    Absorbs P key heap (writeChunk file false) (fun chunk => [.write handle chunk])
      fun fs => ∃ data, fs.OpenAt handle p data := takes_writeChunk hfile p

/-- After an error each chunk is dropped. -/
theorem takes_drop {file : File} :
    Absorbs P key heap (writeChunk file true) (fun _ => []) fun _ => True := takes_nothing

/-- The chunks of a file are put into the downloads folder, or dropped. -/
theorem converses_receiveFile (hroom : h.fs.HasRoom downloadsPath D)
    (hname : File.isValidFileName name = true) {b : Buffer} {size : Nat}
    (hsize : SameChunks size b.length) {Q : Except Exit Int → Host → Prop}
    (hq : ∀ h', Host.At (h.fs.after (h.fs.receives downloadsPath name (pieces b))) h.console h' →
      Q (.ok 1) h') :
    Converses P key heap (receiveFile P name size) x h
      (hearPieces RequestCodes.downloadChunk (pieces b)) Q := by
  obtain ⟨hf, -⟩ := hroom.makes
  have htype := hf.fileType hname
  have haccepted : File.nameAccepted (filename (downloadsPath ++ 47 :: name)) = true := by
    rw [filename_concat hname]
    exact nameAccepted_of_valid hname
  unfold receiveFile
  rw [hsize.1, hsize.2]
  apply Converses.bind_quiet (plays_makeDownloads hroom _)
  refine ⟨rfl, ?_⟩
  rw [← List.append_nil (hearPieces _ _)]
  cases hm : (h.fs.after (h.fs.makes downloadsPath)).files D name with
  | some old =>
      rw [hm] at htype
      rw [Fs.receives, if_pos (by rw [htype]; rfl), List.append_nil] at hq
      apply Converses.bind_quiet
      apply File.plays_create_exists _ htype
      refine ⟨rfl, ?_⟩
      apply Member.converses_receiveFile takes_drop b trivial
      intro x' h' hsame _
      apply Converses.bind_quiet (plays_print _)
      refine ⟨rfl, ?_⟩
      apply converses_pure
      have hnone : (pieces b).flatMap (fun _ => ([] : List FileCall)) = [] := by simp
      rw [hnone] at hsame
      exact hq _ ⟨hsame.fs, hsame.console⟩
  | none =>
      rw [hm] at htype
      rw [Fs.receives, if_neg (by rw [htype]; decide)] at hq
      obtain ⟨hhandle, hopen, -⟩ := hf.openWrite hname hm
      apply Converses.bind_quiet
      apply File.plays_create _ htype haccepted hhandle
      refine ⟨rfl, ?_⟩
      apply Member.converses_receiveFile (takes_write rfl (D ++ [name])) b ⟨[], hopen⟩
      intro x' h' hsame _
      apply Converses.bind_quiet (plays_print _)
      refine ⟨rfl, ?_⟩
      apply converses_pure
      apply hq
      rw [← List.map_eq_flatMap] at hsame
      rw [Fs.after_append]
      exact ⟨hsame.fs, hsame.console⟩

end Client

end CloudStorage
