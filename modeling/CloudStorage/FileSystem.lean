import Mathlib.Data.List.AList
import CloudStorage.Bytes

set_option autoImplicit false

/-! # A file system

The part of a POSIX file system that the program uses: a tree of directories and regular files
without links, path resolution from a working directory with `.`, `..` and length limits, and open
files with an offset. File contents belong to inodes, not to names, so a file that is renamed or
removed while it is open keeps its contents.

`Fs` carries the tree's well-formedness, so every operation returns a tree again. `FileCall.answer`
is the behaviour of the calls; its first argument makes the call fail for a reason that the tree
does not show (permissions, descriptors, disk space). -/

namespace CloudStorage

/-- One component of a path. -/
abbrev Name : Type := Buffer

/-- A resolved path: the components from the root on. -/
abbrev Path : Type := List Name

/-- A directory entry. -/
inductive Node
  | dir
  | file (inode : Nat)
  deriving DecidableEq, Repr

/-- The names, the contents of the inodes, and the open files (inode and offset). -/
structure FsState where
  entries : AList (fun _ : Path => Node)
  data : Nat → Buffer
  nextInode : Nat
  handles : List (Nat × Nat)
  cwd : Path

namespace FsState

/-- What a resolved path names. -/
def node (fs : FsState) (p : Path) : Option Node :=
  if p = [] then some .dir else fs.entries.lookup p

/-- The contents of the regular file at a resolved path. -/
def contents (fs : FsState) (p : Path) : Option Buffer :=
  match fs.node p with
  | some (.file i) => some (fs.data i)
  | _ => none

/-- The names of the regular files of a directory, in the order of enumeration. -/
def fileNames (fs : FsState) (dir : Path) : List Name :=
  fs.entries.entries.filterMap fun e =>
    if e.1.dropLast = dir ∧ e.2 ≠ .dir then e.1.getLast? else none

/-- Every entry lies in a directory, and no inode has two names. -/
structure WellFormed (fs : FsState) : Prop where
  inode_lt : ∀ p i, fs.node p = some (.file i) → i < fs.nextInode
  inode_inj : ∀ p q i, fs.node p = some (.file i) → fs.node q = some (.file i) → p = q
  parent_dir : ∀ p n, p ≠ [] → fs.node p = some n → fs.node p.dropLast = some .dir
  handle_lt : ∀ h ∈ fs.handles, h.1 < fs.nextInode
  cwd_dir : fs.node fs.cwd = some .dir

/-- An entry may be made at `p`: its directory exists. -/
def Makeable (fs : FsState) (p : Path) : Prop := p ≠ [] ∧ fs.node p.dropLast = some .dir

instance (fs : FsState) (p : Path) : Decidable (fs.Makeable p) :=
  inferInstanceAs (Decidable (_ ∧ _))

/-! ## Changes to the names -/

/-- Enter `n` at `p`. -/
def enter (fs : FsState) (p : Path) (n : Node) : FsState :=
  { fs with entries := fs.entries.insert p n }

/-- Remove the name `p`. -/
def unlink (fs : FsState) (p : Path) : FsState := { fs with entries := fs.entries.erase p }

/-- Open the inode `i` at offset 0. -/
def openInode (fs : FsState) (i : Nat) : FsState := { fs with handles := fs.handles ++ [(i, 0)] }

/-- A new empty inode. -/
def newInode (fs : FsState) : FsState :=
  { fs with data := Function.update fs.data fs.nextInode [], nextInode := fs.nextInode + 1 }

theorem node_enter (fs : FsState) {p : Path} (hp : p ≠ []) (n : Node) (q : Path) :
    (fs.enter p n).node q = if q = p then some n else fs.node q := by
  unfold node enter
  by_cases hq : q = p
  · subst hq
    simp [hp]
  · simp [hq, AList.lookup_insert_ne hq]

theorem node_unlink (fs : FsState) {p : Path} (hp : p ≠ []) (q : Path) :
    (fs.unlink p).node q = if q = p then none else fs.node q := by
  unfold node unlink
  by_cases hq : q = p
  · subst hq
    simp [hp]
  · simp [hq, AList.lookup_erase_ne hq]

theorem dropLast_ne {p : Path} (hp : p ≠ []) : p.dropLast ≠ p := by
  intro h
  have := congrArg List.length h
  have := List.length_pos_of_ne_nil hp
  rw [List.length_dropLast] at *
  omega

/-- A new entry in an existing directory keeps the tree a tree. -/
theorem WellFormed.enter {fs : FsState} (wf : fs.WellFormed) {p : Path} {n : Node}
    (hp : fs.Makeable p) (hfree : fs.node p = none)
    (hn : ∀ i, n = .file i → i < fs.nextInode ∧ ∀ q, fs.node q ≠ some (.file i)) :
    (fs.enter p n).WellFormed := by
  obtain ⟨hne, hdir⟩ := hp
  have hnode := node_enter fs hne n
  refine ⟨fun q i hq => ?_, fun q r i hq hr => ?_, fun q m hqne hq => ?_, wf.handle_lt, ?_⟩
  · rw [hnode] at hq
    split_ifs at hq with h
    · exact (hn i (Option.some.inj hq)).1
    · exact wf.inode_lt q i hq
  · rw [hnode] at hq hr
    split_ifs at hq hr with h h'
    · rw [h, h']
    · exact absurd hr ((hn i (Option.some.inj hq)).2 r)
    · exact absurd hq ((hn i (Option.some.inj hr)).2 q)
    · exact wf.inode_inj q r i hq hr
  · rw [hnode] at hq ⊢
    split_ifs at hq with h
    · subst h
      rw [if_neg (dropLast_ne hne), hdir]
    · have hparent := wf.parent_dir q m hqne hq
      split_ifs with h'
      · rw [h', hfree] at hparent
        exact absurd hparent (by simp)
      · exact hparent
  · show (fs.enter p n).node fs.cwd = _
    rw [hnode]
    split_ifs with h
    · rw [← h, wf.cwd_dir] at hfree
      exact absurd hfree (by simp)
    · exact wf.cwd_dir

/-- Removing the name of a regular file keeps the tree a tree. -/
theorem WellFormed.unlink {fs : FsState} (wf : fs.WellFormed) {p : Path} {i : Nat} (hne : p ≠ [])
    (hp : fs.node p = some (.file i)) : (fs.unlink p).WellFormed := by
  have hnode := node_unlink fs hne
  have hsub : ∀ q n, (fs.unlink p).node q = some n → fs.node q = some n := by
    intro q n hq
    rw [hnode] at hq
    split_ifs at hq
    exact hq
  refine ⟨fun q j hq => wf.inode_lt q j (hsub _ _ hq),
    fun q r j hq hr => wf.inode_inj q r j (hsub _ _ hq) (hsub _ _ hr), fun q m hqne hq => ?_,
    wf.handle_lt, ?_⟩
  · have hparent := wf.parent_dir q m hqne (hsub _ _ hq)
    rw [hnode]
    split_ifs with h
    · rw [h, hp] at hparent
      exact absurd hparent (by simp)
    · exact hparent
  · show (fs.unlink p).node fs.cwd = _
    rw [hnode]
    split_ifs with h
    · rw [← h, wf.cwd_dir] at hp
      exact absurd hp (by simp)
    · exact wf.cwd_dir

theorem WellFormed.newInode {fs : FsState} (wf : fs.WellFormed) : fs.newInode.WellFormed where
  inode_lt := fun p i h => Nat.lt_succ_of_lt (wf.inode_lt p i h)
  inode_inj := wf.inode_inj
  parent_dir := wf.parent_dir
  handle_lt := fun h hh => Nat.lt_succ_of_lt (wf.handle_lt h hh)
  cwd_dir := wf.cwd_dir

theorem WellFormed.openInode {fs : FsState} (wf : fs.WellFormed) {i : Nat} (hi : i < fs.nextInode) :
    (fs.openInode i).WellFormed where
  inode_lt := wf.inode_lt
  inode_inj := wf.inode_inj
  parent_dir := wf.parent_dir
  handle_lt := by
    intro h hh
    rcases List.mem_append.1 hh with hold | hnew
    · exact wf.handle_lt h hold
    · obtain rfl := List.mem_singleton.1 hnew
      exact hi
  cwd_dir := wf.cwd_dir

/-- Changing contents and offsets leaves the tree as it is. -/
theorem WellFormed.setData {fs : FsState} (wf : fs.WellFormed) (data : Nat → Buffer)
    (handles : List (Nat × Nat)) (hh : ∀ h ∈ handles, h.1 < fs.nextInode) :
    { fs with data := data, handles := handles }.WellFormed where
  inode_lt := wf.inode_lt
  inode_inj := wf.inode_inj
  parent_dir := wf.parent_dir
  handle_lt := hh
  cwd_dir := wf.cwd_dir

end FsState

/-- A well-formed file system. -/
structure Fs extends FsState where
  wf : toFsState.WellFormed

namespace Fs

/-- The empty tree, with its root as the working directory. -/
def root : Fs where
  toFsState := ⟨∅, fun _ => [], 0, [], []⟩
  wf := by
    have hnone : ∀ p : Path, p ≠ [] → (⟨∅, fun _ => [], 0, [], []⟩ : FsState).node p = none :=
      fun p hp => by simp [FsState.node, hp]
    refine ⟨fun p i hp => ?_, fun p q i hp => ?_, fun p n hne hp => ?_, by simp, rfl⟩
    all_goals
      by_cases h : p = []
      · simp_all [FsState.node]
      · rw [hnone p h] at hp
        cases hp

/-! ## Operations on resolved paths -/

/-- Make an empty regular file and open it. -/
def createFile (fs : Fs) (p : Path) (hp : fs.Makeable p) (hfree : fs.node p = none) : Fs where
  toFsState := (fs.newInode.enter p (.file fs.nextInode)).openInode fs.nextInode
  wf := by
    refine (fs.wf.newInode.enter hp hfree fun i hi => ?_).openInode (Nat.lt_succ_self _)
    cases hi
    refine ⟨Nat.lt_succ_self _, fun q hq => ?_⟩
    exact absurd (fs.wf.inode_lt q _ hq) (Nat.lt_irrefl _)

/-- Make a directory. -/
def createDir (fs : Fs) (p : Path) (hp : fs.Makeable p) (hfree : fs.node p = none) : Fs where
  toFsState := fs.enter p .dir
  wf := fs.wf.enter hp hfree (fun _ hi => Node.noConfusion hi)

/-- Remove a regular file's name. -/
def removeFile (fs : Fs) (p : Path) (i : Nat) (hne : p ≠ []) (hp : fs.node p = some (.file i)) :
    Fs where
  toFsState := fs.unlink p
  wf := fs.wf.unlink hne hp

/-- Give the regular file at `p` the free name `q`. -/
def moveFile (fs : Fs) (p q : Path) (i : Nat) (hne : p ≠ []) (hp : fs.node p = some (.file i))
    (hq : fs.Makeable q) (hfree : fs.node q = none) : Fs where
  toFsState := (fs.unlink p).enter q (.file i)
  wf := by
    have hnode := FsState.node_unlink fs.toFsState hne
    refine (fs.wf.unlink hne hp).enter ⟨hq.1, ?_⟩ ?_ fun j hj => ?_
    · rw [hnode, if_neg, hq.2]
      intro h
      have := hq.2
      rw [h, hp] at this
      exact absurd this (by simp)
    · rw [hnode, hfree, ite_self]
    · cases hj
      refine ⟨fs.wf.inode_lt p i hp, fun r hr => ?_⟩
      rw [hnode] at hr
      split_ifs at hr with h
      exact h (fs.wf.inode_inj r p i hr hp)

/-- Give the regular file at `p` the name `q` of another regular file, which loses it. -/
def replaceFile (fs : Fs) (p q : Path) (i j : Nat) (hne : p ≠ []) (hp : fs.node p = some (.file i))
    (hqne : q ≠ []) (hq : fs.node q = some (.file j)) (hpq : p ≠ q) : Fs :=
  have hnode := FsState.node_unlink fs.toFsState hqne
  (fs.removeFile q j hqne hq).moveFile p q i hne
    (by rw [removeFile, hnode, if_neg hpq, hp])
    ⟨hqne, by
      rw [removeFile, hnode, if_neg (FsState.dropLast_ne hqne)]
      exact fs.wf.parent_dir q _ hqne hq⟩
    (by rw [removeFile, hnode, if_pos rfl])

/-- Set the contents of an inode and open it at offset 0. -/
def truncate (fs : Fs) (i : Nat) (hi : i < fs.nextInode) : Fs where
  toFsState := FsState.openInode { fs.toFsState with data := Function.update fs.data i [] } i
  wf := (fs.wf.setData (Function.update fs.data i []) _ fs.wf.handle_lt).openInode hi

/-- Open an inode for reading. -/
def openRead (fs : Fs) (i : Nat) (hi : i < fs.nextInode) : Fs where
  toFsState := fs.openInode i
  wf := fs.wf.openInode hi

/-- Write `b` at the offset of the open file `h`. -/
def writeAt (old : Buffer) (off : Nat) (b : Buffer) : Buffer :=
  fit off old ++ b ++ old.drop (off + b.length)

theorem set_handle_lt (fs : Fs) {h i : Nat} (off : Nat) (hi : i < fs.nextInode) :
    ∀ e ∈ fs.handles.set h (i, off), e.1 < fs.nextInode := by
  intro e he
  rcases List.mem_or_eq_of_mem_set he with hold | rfl
  · exact fs.wf.handle_lt e hold
  · exact hi

/-- Change the contents of the inode `i` and move the open file `h` on it to `off`. -/
def seekWith (fs : Fs) (h i off : Nat) (data : Nat → Buffer) (hi : i < fs.nextInode) : Fs where
  toFsState := { fs.toFsState with data := data, handles := fs.handles.set h (i, off) }
  wf := fs.wf.setData _ _ (fs.set_handle_lt off hi)

end Fs

/-! ## Path resolution -/

/-- Why a path does not resolve: `ENOENT`, `ENOTDIR` or `ENAMETOOLONG`. -/
inductive LookupError
  | noEntry
  | notDirectory
  | nameTooLong
  deriving DecidableEq, Repr

/-- Where one component leads from a directory. -/
def descend (p : Path) (c : Name) : Path :=
  if c = [] ∨ c = ascii "." then p else if c = ascii ".." then p.dropLast else p ++ [c]

namespace Fs

/-- Follow the components from `p`; each one needs a directory to start from. -/
def walk (fs : Fs) : Path → List Name → Except LookupError Path
  | p, [] => .ok p
  | p, c :: cs =>
    match fs.node p with
    | none => .error .noEntry
    | some (.file _) => .error .notDirectory
    | some .dir => if 255 < c.length then .error .nameTooLong else fs.walk (descend p c) cs

/-- Resolve a path as given to a call, from the root or from the working directory. -/
def resolve (fs : Fs) (path : Buffer) : Except LookupError Path :=
  if path = [] then .error .noEntry
  else if 4096 ≤ path.length then .error .nameTooLong
  else fs.walk (if path.head? = some 47 then [] else fs.cwd) (path.splitOn 47)

/-- The parent of a resolved path is a directory. -/
theorem walk_parent (fs : Fs) {cs : List Name} {p q : Path}
    (hp : p ≠ [] → fs.node p.dropLast = some .dir) (h : fs.walk p cs = .ok q) :
    q ≠ [] → fs.node q.dropLast = some .dir := by
  induction cs generalizing p with
  | nil =>
      cases h
      exact hp
  | cons c cs ih =>
      rw [walk] at h
      split at h
      · exact absurd h (by simp)
      · exact absurd h (by simp)
      · rename_i hdir
        split_ifs at h
        refine ih (p := descend p c) ?_ h
        unfold descend
        split_ifs with h1 h2
        · exact hp
        · intro hne
          by_cases hpne : p = []
          · simp [hpne] at hne
          · exact fs.wf.parent_dir _ _ hne (fs.wf.parent_dir _ _ hpne hdir)
        · intro _
          rw [List.dropLast_concat]
          exact hdir

theorem resolve_makeable (fs : Fs) {path : Buffer} {p : Path} (h : fs.resolve path = .ok p)
    (hfree : fs.node p = none) : fs.Makeable p := by
  have hne : p ≠ [] := by
    rintro rfl
    simp [FsState.node] at hfree
  refine ⟨hne, ?_⟩
  rw [resolve] at h
  split_ifs at h with h1 h2 h3
  · exact fs.walk_parent (fun hn => absurd rfl hn) h hne
  · exact fs.walk_parent (fun hn => fs.wf.parent_dir _ _ hn fs.wf.cwd_dir) h hne

end Fs

/-! ## The calls -/

/-- What a `stat` tells about a path. -/
inductive FileType
  | notFound
  | regular
  | directory
  deriving DecidableEq, Repr

/-- The calls of the program into the file system. -/
inductive FileCall
  /-- `fs::exists`, `fs::is_regular_file` and `fs::is_directory`: a `stat`. -/
  | stat (path : Buffer)
  /-- `fs::file_size`. -/
  | fileSize (path : Buffer)
  /-- `std::ifstream::open` in binary mode. -/
  | openRead (path : Buffer)
  /-- `std::ifstream::read`. -/
  | read (handle n : Nat)
  /-- `std::ofstream::open` with `out | binary`: creates or truncates. -/
  | openWrite (path : Buffer)
  /-- `std::ofstream::write`. -/
  | write (handle : Nat) (data : Buffer)
  /-- `rename(2)`. -/
  | rename (path newPath : Buffer)
  /-- `remove(3)`. -/
  | remove (path : Buffer)
  /-- `directory_iterator`, reduced to the regular files. -/
  | list (path : Buffer)
  /-- `fs::create_directory`. -/
  | createDirectory (path : Buffer)

/-- The type of the answer to a call. In `stat`, `fileSize`, `list` and `createDirectory`,
    `none` is a thrown `filesystem_error`; in the calls to open, a stream in a failed state. -/
abbrev FileCall.Ans : FileCall → Type
  | .stat _ => Option FileType
  | .fileSize _ => Option Nat
  | .openRead _ => Option Nat
  | .read _ _ => Buffer
  | .openWrite _ => Option Nat
  | .write _ _ => Bool
  | .rename _ _ => Bool
  | .remove _ => Bool
  | .list _ => Option (List Name)
  | .createDirectory _ => Option Bool

namespace Fs

/-- `stat`: a path that leads nowhere is not found, one that is too long is an error. -/
def fileType (fs : Fs) (path : Buffer) : Option FileType :=
  match fs.resolve path with
  | .error .nameTooLong => none
  | .error _ => some .notFound
  | .ok p =>
    match fs.node p with
    | none => some .notFound
    | some .dir => some .directory
    | some (.file _) => some .regular

/-- The inode of the regular file at a path, with its bound. -/
def inodeAt (fs : Fs) (path : Buffer) : Option {i : Nat // i < fs.nextInode} :=
  match fs.resolve path with
  | .error _ => none
  | .ok p =>
    match h : fs.node p with
    | some (.file i) => some ⟨i, fs.wf.inode_lt p i h⟩
    | _ => none

/-- Open for writing: create, or truncate a regular file. -/
def openWrite (fs : Fs) (path : Buffer) : Option Nat × Fs :=
  match hr : fs.resolve path with
  | .error _ => (none, fs)
  | .ok p =>
    match hp : fs.node p with
    | some .dir => (none, fs)
    | some (.file i) => (some fs.handles.length, fs.truncate i (fs.wf.inode_lt p i hp))
    | none => (some fs.handles.length, fs.createFile p (fs.resolve_makeable hr hp) hp)

/-- Write at the offset of an open file. -/
def write (fs : Fs) (h : Nat) (b : Buffer) : Bool × Fs :=
  match hh : fs.handles[h]? with
  | none => (false, fs)
  | some (i, off) =>
    (true, fs.seekWith h i (off + b.length)
      (Function.update fs.data i (writeAt (fs.data i) off b))
      (fs.wf.handle_lt _ (List.mem_of_getElem? hh)))

/-- Read up to `n` bytes at the offset of an open file. -/
def read (fs : Fs) (h n : Nat) : Buffer × Fs :=
  match hh : fs.handles[h]? with
  | none => ([], fs)
  | some (i, off) =>
    let b := slice off n (fs.data i)
    (b, fs.seekWith h i (off + b.length) fs.data (fs.wf.handle_lt _ (List.mem_of_getElem? hh)))

/-- Remove the name of a regular file. -/
def remove (fs : Fs) (path : Buffer) : Bool × Fs :=
  match fs.resolve path with
  | .error _ => (false, fs)
  | .ok p =>
    match hp : fs.node p with
    | some (.file i) =>
      if hne : p ≠ [] then (true, fs.removeFile p i hne hp) else (false, fs)
    | _ => (false, fs)

/-- Rename a regular file, replacing a regular file of the new name. The program only renames what
    it has found to be a regular file. -/
def rename (fs : Fs) (path newPath : Buffer) : Bool × Fs :=
  match fs.resolve path, hr : fs.resolve newPath with
  | .ok p, .ok q =>
    match hp : fs.node p with
    | some (.file i) =>
      if hne : p ≠ [] then
        if hpq : p = q then (true, fs)
        else
          match hq : fs.node q with
          | none => (true, fs.moveFile p q i hne hp (fs.resolve_makeable hr hq) hq)
          | some .dir => (false, fs)
          | some (.file j) =>
            if hqne : q ≠ [] then (true, fs.replaceFile p q i j hne hp hqne hq hpq)
            else (false, fs)
      else (false, fs)
    | _ => (false, fs)
  | _, _ => (false, fs)

/-- Make a directory; one that is there already is no error. -/
def createDirectory (fs : Fs) (path : Buffer) : Option Bool × Fs :=
  match hr : fs.resolve path with
  | .error _ => (none, fs)
  | .ok p =>
    match hp : fs.node p with
    | none => (some true, fs.createDir p (fs.resolve_makeable hr hp) hp)
    | some .dir => (some false, fs)
    | some (.file _) => (none, fs)

/-- The tree of these directories, made one after another. -/
def ofFolders (paths : List Buffer) : Fs := paths.foldl (fun fs path => (fs.createDirectory path).2) root

/-- List the regular files of a directory. -/
def list (fs : Fs) (path : Buffer) : Option (List Name) :=
  match fs.resolve path with
  | .error _ => none
  | .ok p => if fs.node p = some .dir then some (fs.fileNames p) else none

end Fs

/-- The answer to a call and the file system after it; with `fault`, the call fails and changes
    nothing. -/
def FileCall.answer (fault : Bool) (fs : Fs) : (c : FileCall) → c.Ans × Fs
  | .stat path => (if fault then none else fs.fileType path, fs)
  | .fileSize path => (if fault then none else (fs.inodeAt path).map fun i => (fs.data i).length, fs)
  | .openRead path =>
    if fault then (none, fs)
    else match fs.inodeAt path with
      | none => (none, fs)
      | some i => (some fs.handles.length, fs.openRead i i.2)
  | .read h n => if fault then ([], fs) else fs.read h n
  | .openWrite path => if fault then (none, fs) else fs.openWrite path
  | .write h b => if fault then (false, fs) else fs.write h b
  | .rename path newPath => if fault then (false, fs) else fs.rename path newPath
  | .remove path => if fault then (false, fs) else fs.remove path
  | .list path => (if fault then none else fs.list path, fs)
  | .createDirectory path => if fault then (none, fs) else fs.createDirectory path

end CloudStorage
