import CloudStorage.Disk
import CloudStorage.Listing
import CloudStorage.Memory.Shelf
import CloudStorage.Names

set_option autoImplicit false

/-! # A folder as a map

A folder whose entries with valid names are regular files is a shelf: contents under names. The calls
that a handler makes on a path in the folder are looked up on the shelf and change it as a shelf is
changed, and the rest of the tree does not matter. -/

namespace CloudStorage

open Memory

/-- The contents of a folder under the names of the files. -/
abbrev FileMap : Type := Shelf Name Buffer

namespace Fs

/-- The files after some calls, none of which fails for a reason outside the tree. -/
def after (fs : Fs) (calls : List FileCall) : Fs :=
  calls.foldl (fun fs c => (c.answer false fs).2) fs

variable {fs fs' : Fs} {path : Buffer} {D p : Path} {name newName : Name}

@[simp]
theorem after_nil (fs : Fs) : fs.after [] = fs := rfl

@[simp]
theorem after_cons (fs : Fs) (c : FileCall) (calls : List FileCall) :
    fs.after (c :: calls) = (c.answer false fs).2.after calls := rfl

theorem after_append (fs : Fs) (calls calls' : List FileCall) :
    fs.after (calls ++ calls') = (fs.after calls).after calls' := List.foldl_append

theorem after_sameDirs (fs : Fs) {calls : List FileCall}
    (hcalls : ∀ c ∈ calls, ∀ path, c ≠ .createDirectory path) : fs.SameDirs (fs.after calls) := by
  induction calls generalizing fs with
  | nil => exact .refl fs
  | cons c calls ih =>
      have hstep := answer_sameDirs false fs (hcalls c (List.mem_cons_self ..))
      exact hstep.trans (ih _ fun c' hc' => hcalls c' (List.mem_cons_of_mem _ hc'))

/-! ## Folders of files -/

/-- The path leads to the directory `D`, and leaves room for a name; no valid name in `D` is that of a
    directory. -/
structure IsFolder (fs : Fs) (path : Buffer) (D : Path) : Prop where
  resolve : fs.resolve path = .ok D
  dir : fs.node D = some .dir
  room : path.length + 22 ≤ 4096
  plain : ∀ name, File.isValidFileName name = true → fs.node (D ++ [name]) ≠ some .dir

/-- A directory without subdirectories. -/
theorem plain_of_entries (h : ∀ e ∈ fs.entries.entries, e.1.dropLast = D → e.2 ≠ .dir) (name : Name) :
    fs.node (D ++ [name]) ≠ some .dir := by
  intro hdir
  unfold FsState.node at hdir
  rw [if_neg (by simp)] at hdir
  exact h _ (AList.mem_lookup_iff.1 hdir) List.dropLast_concat rfl

/-- The files of the directory `D` that have valid names. -/
def files (fs : Fs) (D : Path) : FileMap := fun name =>
  if File.isValidFileName name = true then fs.contents (D ++ [name]) else none

theorem files_valid (hname : File.isValidFileName name = true) :
    fs.files D name = fs.contents (D ++ [name]) := if_pos hname

theorem valid_of_files {b : Buffer} (h : fs.files D name = some b) :
    File.isValidFileName name = true := by
  unfold files at h
  split_ifs at h with hname
  exact hname

theorem IsFolder.sameDirs (hf : fs.IsFolder path D) (h : fs.SameDirs fs') : fs'.IsFolder path D where
  resolve := h.resolve.2 hf.resolve
  dir := h.node_dir.2 hf.dir
  room := hf.room
  plain := fun name hname hdir => hf.plain name hname (h.node_dir.1 hdir)

theorem length_of_valid (hname : File.isValidFileName name = true) : name.length ≤ 20 := by
  cases name with
  | nil => exact Nat.zero_le _
  | cons c cs =>
      simp only [File.isValidFileName, Bool.and_eq_true, decide_eq_true_eq] at hname
      rw [List.length_cons]
      omega

/-- A valid name is one component of a path. -/
theorem splitOn_of_valid (hname : File.isValidFileName name = true) : name.splitOn 47 = [name] := by
  have hslash : (47 : UInt8) ∉ name := not_mem_of_valid hname (by decide)
  have hjoin : (([47] : Buffer).intercalate [name]).splitOn 47 = [name] :=
    List.splitOn_intercalate 47 (by simpa using hslash) (by simp)
  rwa [List.intercalate_singleton] at hjoin

/-- A path in the folder leads to the file of that name. -/
theorem IsFolder.resolve_name (hf : fs.IsFolder path D) (hname : File.isValidFileName name = true) :
    fs.resolve (path ++ 47 :: name) = .ok (D ++ [name]) := by
  have hlen := length_of_valid hname
  have hroom := hf.room
  have hshort : ¬255 < name.length := by omega
  rw [resolve_below hf.resolve, if_neg (by simp; omega), splitOn_of_valid hname, walk, hf.dir]
  dsimp only
  rw [if_neg hshort, walk, descend_valid hname]

theorem IsFolder.place (hf : fs.IsFolder path D) (hname : File.isValidFileName name = true) :
    fs.place (path ++ 47 :: name) = some (D ++ [name]) :=
  place_eq_some.2 ⟨hf.resolve_name hname, hf.plain name hname⟩

/-- The folder can be listed. -/
theorem IsFolder.list (hf : fs.IsFolder path D) : fs.list path = some (fs.fileNames D) := by
  unfold Fs.list
  rw [hf.resolve]
  exact if_pos hf.dir

/-- A `stat` of a path in the folder finds what is on the shelf. -/
theorem IsFolder.fileType (hf : fs.IsFolder path D) (hname : File.isValidFileName name = true) :
    fs.fileType (path ++ 47 :: name) =
      some (if (fs.files D name).isSome then .regular else .notFound) := by
  rw [fileType_of_place (hf.place hname), files_valid hname]

theorem concat_inj {D : Path} {name name' : Name} : D ++ [name] = D ++ [name'] ↔ name = name' := by
  simp

/-- A shelf on which one content has changed. -/
theorem files_update {b : Option Buffer} (hname : File.isValidFileName name = true)
    (hp : fs'.contents (D ++ [name]) = b)
    (hkept : ∀ name', name' ≠ name → fs'.contents (D ++ [name']) = fs.contents (D ++ [name'])) :
    fs'.files D = Function.update (fs.files D) name b := by
  funext name'
  by_cases hsame : name' = name
  · subst hsame
    rw [Function.update_self, files_valid hname, hp]
  · rw [Function.update_of_ne hsame, files, files, hkept name' hsame]

theorem files_congr (hkept : ∀ q, fs'.contents q = fs.contents q) (D : Path) :
    fs'.files D = fs.files D := by
  funext name
  rw [files, files, hkept]

/-! ## Writing a file -/

/-- The calls that write chunks into an open file. -/
def writes (handle : Nat) (chunks : List Buffer) : List FileCall := chunks.map (.write handle)

theorem OpenAt.after {handle : Nat} {data : Buffer} (h : fs.OpenAt handle p data)
    (chunks : List Buffer) : (fs.after (writes handle chunks)).OpenAt handle p (data ++ chunks.flatten) ∧
      KeptBut p fs (fs.after (writes handle chunks)) := by
  induction chunks generalizing fs data with
  | nil =>
      rw [List.flatten_nil, List.append_nil]
      exact ⟨h, .refl p fs⟩
  | cons chunk chunks ih =>
      obtain ⟨-, hopen, -, hkept⟩ := write_openAt h chunk
      obtain ⟨hopen', hkept'⟩ := ih hopen
      rw [List.flatten_cons, ← List.append_assoc]
      exact ⟨hopen', hkept.trans hkept'⟩

/-- The calls that make a file of these chunks. -/
def stores (fs : Fs) (path : Buffer) (chunks : List Buffer) : List FileCall :=
  .openWrite path :: writes fs.handles.length chunks

theorem after_stores_sameDirs (fs : Fs) (path : Buffer) (chunks : List Buffer) :
    fs.SameDirs (fs.after (fs.stores path chunks)) := by
  apply after_sameDirs
  intro c hc path' heq
  subst heq
  simp [stores, writes] at hc

/-- A free name is opened for writing. -/
theorem IsFolder.openWrite (hf : fs.IsFolder path D) (hname : File.isValidFileName name = true)
    (hfree : fs.files D name = none) :
    (fs.openWrite (path ++ 47 :: name)).1 = some fs.handles.length ∧
      (fs.openWrite (path ++ 47 :: name)).2.OpenAt fs.handles.length (D ++ [name]) [] ∧
      KeptBut (D ++ [name]) fs (fs.openWrite (path ++ 47 :: name)).2 := by
  have hresolve := hf.resolve_name hname
  have hnode : fs.node (D ++ [name]) = none := by
    rw [files_valid hname] at hfree
    rcases node_of_place (hf.place hname) with ⟨hnone, -⟩ | ⟨i, -, hc⟩
    · exact hnone
    · rw [hc] at hfree
      cases hfree
  have hhandle := (openWrite_free hresolve hnode).1
  obtain ⟨q, hq, hopen, -, hkept⟩ := openWrite_some (Prod.ext hhandle rfl)
  rw [hresolve] at hq
  cases hq
  exact ⟨hhandle, hopen, hkept⟩

/-- What is stored is put on the shelf. -/
theorem IsFolder.files_stores (hf : fs.IsFolder path D) (hname : File.isValidFileName name = true)
    (hfree : fs.files D name = none) (chunks : List Buffer) :
    (fs.after (fs.stores (path ++ 47 :: name) chunks)).files D =
      (fs.files D).change (.put name chunks.flatten) := by
  obtain ⟨-, hopen, hkept⟩ := hf.openWrite hname hfree
  obtain ⟨hopen', hkept'⟩ := hopen.after chunks
  rw [Shelf.change_put_free hfree]
  apply files_update hname hopen'.contents
  intro name' hne
  have hne' : D ++ [name'] ≠ D ++ [name] := fun heq => hne (concat_inj.1 heq)
  exact ((hkept.trans hkept') _ hne').2

/-! ## Renaming and removing -/

/-- A tree has its own files, those that are open under names of no matter. -/
theorem matches_self (fs : Fs) : Matches fs fs.handles.length fs (fun p => fs.contents p)
    (fs.handles.map fun e => ([], e.2)) where
  dirs := .refl fs
  store := fun _ => rfl
  offsets := by simp
  held := by
    intro handle e e' hbefore ho _
    rw [List.getElem?_eq_none (by simpa using hbefore)] at ho
    cases ho

theorem contents_rename {q : Path} {b : Buffer} (hp : fs.place path = some p)
    {newPath : Buffer} (hq : fs.place newPath = some q) (hb : fs.contents p = some b) (r : Path) :
    (fs.rename path newPath).2.contents r =
      Function.update (Function.update (fun p => fs.contents p) p none) q (some b) r := by
  have halike : Alike fs _ fs false _ _ (.rename path newPath) := fs.matches_self.alike_rename (by simp)
  have hstore := halike.after.store r
  simp only [FileCall.onDisk, Bool.false_eq_true, if_false, hp, hq, hb] at hstore
  exact hstore.symm

theorem contents_remove (hp : fs.place path = some p) (r : Path) :
    (fs.remove path).2.contents r = Function.update (fun p => fs.contents p) p none r := by
  have halike : Alike fs _ fs false _ _ (.remove path) := fs.matches_self.alike_remove (by simp)
  have hstore := halike.after.store r
  simp only [FileCall.onDisk, Bool.false_eq_true, if_false, hp] at hstore
  exact hstore.symm

/-- A file is renamed to a free name. -/
theorem IsFolder.files_rename (hf : fs.IsFolder path D) {b : Buffer} (hb : fs.files D name = some b)
    (hnew : File.isValidFileName newName = true) (hfree : fs.files D newName = none) :
    (fs.rename (path ++ 47 :: name) (path ++ 47 :: newName)).1 = true ∧
      (fs.rename (path ++ 47 :: name) (path ++ 47 :: newName)).2.files D =
        (fs.files D).change (.move name newName) := by
  have hname := valid_of_files hb
  have hplace := hf.place hname
  have hplace' := hf.place hnew
  have hcontents : fs.contents (D ++ [name]) = some b := by rwa [files_valid hname] at hb
  constructor
  · have halike : Alike fs _ fs false _ _ (.rename (path ++ 47 :: name) (path ++ 47 :: newName)) :=
      fs.matches_self.alike_rename (by simp)
    have hans := halike.ans
    simp only [FileCall.onDisk, Bool.false_eq_true, if_false, hplace, hplace', hcontents] at hans
    exact hans.symm
  · rw [Shelf.change_move_free hb hfree]
    funext name'
    by_cases hvalid : File.isValidFileName name' = true
    · rw [files_valid hvalid, contents_rename hplace hplace' hcontents]
      simp only [Function.update_apply, concat_inj, files_valid hvalid]
    · have hne : name' ≠ name := by
        rintro rfl
        exact hvalid hname
      have hne' : name' ≠ newName := by
        rintro rfl
        exact hvalid hnew
      rw [Function.update_of_ne hne', Function.update_of_ne hne, files, files, if_neg hvalid,
        if_neg hvalid]

/-- A file is removed. -/
theorem IsFolder.files_remove (hf : fs.IsFolder path D) {b : Buffer} (hb : fs.files D name = some b) :
    (fs.remove (path ++ 47 :: name)).1 = true ∧
      (fs.remove (path ++ 47 :: name)).2.files D = (fs.files D).change (.take name) := by
  have hname := valid_of_files hb
  have hplace := hf.place hname
  have hcontents : fs.contents (D ++ [name]) = some b := by rwa [files_valid hname] at hb
  constructor
  · have halike : Alike fs _ fs false _ _ (.remove (path ++ 47 :: name)) :=
      fs.matches_self.alike_remove (by simp)
    have hans := halike.ans
    simp only [FileCall.onDisk, Bool.false_eq_true, if_false, hplace, hcontents] at hans
    exact hans.symm
  · apply files_update hname
    · rw [contents_remove hplace, Function.update_self]
    · intro name' hne
      rw [contents_remove hplace, Function.update_of_ne fun heq => hne (concat_inj.1 heq)]

/-! ## Reading a file -/

/-- Directories and files are as before; only what is open may differ. -/
structure Untouched (fs fs' : Fs) : Prop where
  dirs : fs.SameDirs fs'
  contents : ∀ q, fs'.contents q = fs.contents q

theorem Untouched.refl (fs : Fs) : Untouched fs fs := ⟨.refl fs, fun _ => rfl⟩

theorem Untouched.trans {fs'' : Fs} (h : Untouched fs fs') (h' : Untouched fs' fs'') :
    Untouched fs fs'' := ⟨h.dirs.trans h'.dirs, fun q => (h'.contents q).trans (h.contents q)⟩

/-- The file that is open has these bytes from its offset on. -/
def ReadsFrom (fs : Fs) (handle : Nat) (rest : Buffer) : Prop :=
  ∃ i off, fs.handles[handle]? = some (i, off) ∧ (fs.data i).drop off = rest

/-- A read takes from what there is. -/
theorem ReadsFrom.read {handle : Nat} {rest : Buffer} (h : fs.ReadsFrom handle rest) (n : Nat) :
    (fs.read handle n).1 = rest.take n ∧ (fs.read handle n).2.ReadsFrom handle (rest.drop n) ∧
      Untouched fs (fs.read handle n).2 := by
  obtain ⟨i, off, hh, rfl⟩ := h
  obtain ⟨hbytes, hstate⟩ := read_some hh n
  have hlt : handle < fs.handles.length := by
    by_contra hge
    rw [List.getElem?_eq_none (by omega)] at hh
    cases hh
  refine ⟨hbytes, ⟨i, off + (slice off n (fs.data i)).length, ?_, ?_⟩, .of_node ?_ ?_, ?_⟩
  · rw [hstate]
    exact List.getElem?_set_self hlt
  · rw [hstate]
    show (fs.data i).drop (off + (((fs.data i).drop off).take n).length) = _
    rw [← List.drop_drop, List.length_take]
    by_cases hshort : n ≤ ((fs.data i).drop off).length
    · rw [Nat.min_eq_left hshort]
    · rw [Nat.min_eq_right (by omega), List.drop_length, List.drop_of_length_le (by omega)]
  · rw [hstate]
  · intro q
    rw [hstate]
    rfl
  · intro q
    rw [hstate]
    rfl

/-- The calls that read these numbers of bytes from an open file. -/
def reads (handle : Nat) (sizes : List Nat) : List FileCall := sizes.map (.read handle)

theorem after_reads (fs : Fs) (handle : Nat) (sizes : List Nat) :
    Untouched fs (fs.after (reads handle sizes)) := by
  induction sizes generalizing fs with
  | nil => exact .refl fs
  | cons n sizes ih =>
      have hstep : Untouched fs (fs.read handle n).2 := by
        cases hh : fs.handles[handle]? with
        | none =>
            rw [read_none hh]
            exact .refl fs
        | some e =>
            obtain ⟨i, off⟩ := e
            exact (ReadsFrom.read ⟨i, off, hh, rfl⟩ n).2.2
      exact hstep.trans (ih _)

/-- A regular file is opened at its start. -/
theorem openRead_file {i : Nat} (hr : fs.resolve path = .ok p) (hp : fs.node p = some (.file i)) :
    ((FileCall.openRead path).answer false fs).1 = some fs.handles.length ∧
      ((FileCall.openRead path).answer false fs).2.ReadsFrom fs.handles.length (fs.data i) ∧
      Untouched fs ((FileCall.openRead path).answer false fs).2 := by
  obtain ⟨hi, hinode⟩ := inodeAt_of_file hr hp
  simp only [FileCall.answer, Bool.false_eq_true, if_false, hinode]
  refine ⟨trivial, ⟨i, 0, ?_, rfl⟩, .of_node rfl fun _ => Iff.rfl, fun _ => rfl⟩
  show (fs.handles ++ [(i, 0)])[fs.handles.length]? = _
  simp

theorem fileSize_file {i : Nat} (hr : fs.resolve path = .ok p) (hp : fs.node p = some (.file i)) :
    ((FileCall.fileSize path).answer false fs).1 = some (fs.data i).length := by
  obtain ⟨hi, hinode⟩ := inodeAt_of_file hr hp
  simp only [FileCall.answer, Bool.false_eq_true, if_false, hinode]
  rfl

theorem Untouched.files (h : Untouched fs fs') (D : Path) : fs'.files D = fs.files D :=
  files_congr h.contents D

end Fs

end CloudStorage
