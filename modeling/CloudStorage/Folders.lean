import CloudStorage.OpenFiles

set_option autoImplicit false

/-! # Folders

What a call on the file system does, by what its paths resolve to: one equation for each outcome. No
call of the server makes or removes a directory, so where a path leads through a folder is settled
once the folder is there (`SameDirs`). -/

namespace CloudStorage

namespace Fs

variable {fs fs' fs'' : Fs} {p q : Path} {path newPath : Buffer} {i j : Nat}

/-! ## The calls by their outcomes -/

theorem fileType_of_ok (hr : fs.resolve path = .ok p) :
    fs.fileType path = some (match fs.node p with
      | none => .notFound
      | some .dir => .directory
      | some (.file _) => .regular) := by
  cases hn : fs.node p with
  | none => simp [fileType, hr, hn]
  | some n => cases n <;> simp [fileType, hr, hn]

theorem inodeAt_of_file (hr : fs.resolve path = .ok p) (hp : fs.node p = some (.file i)) :
    ∃ hi, fs.inodeAt path = some ⟨i, hi⟩ := by
  refine ⟨fs.wf.inode_lt p i hp, ?_⟩
  unfold inodeAt
  rw [hr]
  dsimp only
  split
  · rename_i j hj
    rw [hp] at hj
    cases hj
    rfl
  · rename_i hno
    exact absurd hp (hno i)

theorem inodeAt_of_not_file (h : ∀ p i, fs.resolve path = .ok p → fs.node p ≠ some (.file i)) :
    fs.inodeAt path = none := by
  unfold inodeAt
  split
  · rfl
  · rename_i p hp
    split
    · rename_i i hi
      exact absurd hi (h p i hp)
    · rfl

/-- Opening for writing truncates a regular file. -/
theorem openWrite_file (hr : fs.resolve path = .ok p) (hp : fs.node p = some (.file i)) :
    (fs.openWrite path).1 = some fs.handles.length ∧ (fs.openWrite path).2.toFsState =
      FsState.openInode { fs.toFsState with data := Function.update fs.data i [] } i := by
  unfold openWrite
  split
  · rename_i h
    rw [hr] at h
    cases h
  · rename_i q h
    rw [hr] at h
    cases h
    split
    · rename_i h
      rw [hp] at h
      cases h
    · rename_i j h
      rw [hp] at h
      cases h
      exact ⟨rfl, rfl⟩
    · rename_i h
      rw [hp] at h
      cases h

/-- Opening for writing makes a file where there is nothing. -/
theorem openWrite_free (hr : fs.resolve path = .ok p) (hp : fs.node p = none) :
    (fs.openWrite path).1 = some fs.handles.length ∧ (fs.openWrite path).2.toFsState =
      (fs.newInode.enter p (.file fs.nextInode)).openInode fs.nextInode := by
  unfold openWrite
  split
  · rename_i h
    rw [hr] at h
    cases h
  · rename_i q h
    rw [hr] at h
    cases h
    split
    · rename_i h
      rw [hp] at h
      cases h
    · rename_i j h
      rw [hp] at h
      cases h
    · exact ⟨rfl, rfl⟩

/-- Opening for writing fails on a path that leads nowhere or to a directory. -/
theorem openWrite_fail (h : ∀ p, fs.resolve path = .ok p → fs.node p = some .dir) :
    fs.openWrite path = (none, fs) := by
  unfold openWrite
  split
  · rfl
  · rename_i p hp
    have hdir := h p hp
    split
    · rfl
    · rename_i i hi
      rw [hdir] at hi
      cases hi
    · rename_i hnone
      rw [hdir] at hnone
      cases hnone

theorem read_some {handle off : Nat} (hh : fs.handles[handle]? = some (i, off)) (n : Nat) :
    (fs.read handle n).1 = slice off n (fs.data i) ∧ (fs.read handle n).2.toFsState =
      { fs.toFsState with
        handles := fs.handles.set handle (i, off + (slice off n (fs.data i)).length) } := by
  unfold read
  split
  · rename_i h
    rw [hh] at h
    cases h
  · rename_i j off' h
    rw [hh] at h
    cases h
    exact ⟨rfl, rfl⟩

theorem read_none {handle : Nat} (hh : fs.handles[handle]? = none) (n : Nat) :
    fs.read handle n = ([], fs) := by
  unfold read
  split
  · rfl
  · rename_i h
    rw [hh] at h
    cases h

theorem write_some {handle off : Nat} (hh : fs.handles[handle]? = some (i, off)) (b : Buffer) :
    (fs.write handle b).1 = true ∧ (fs.write handle b).2.toFsState =
      { fs.toFsState with
        data := Function.update fs.data i (writeAt (fs.data i) off b)
        handles := fs.handles.set handle (i, off + b.length) } := by
  unfold write
  split
  · rename_i h
    rw [hh] at h
    cases h
  · rename_i j off' h
    rw [hh] at h
    cases h
    exact ⟨rfl, rfl⟩

theorem write_none {handle : Nat} (hh : fs.handles[handle]? = none) (b : Buffer) :
    fs.write handle b = (false, fs) := by
  unfold write
  split
  · rfl
  · rename_i h
    rw [hh] at h
    cases h

theorem remove_file (hr : fs.resolve path = .ok p) (hp : fs.node p = some (.file i)) :
    (fs.remove path).1 = true ∧ (fs.remove path).2.toFsState = fs.unlink p := by
  have hne : p ≠ [] := by
    rintro rfl
    simp [FsState.node] at hp
  unfold remove
  rw [hr]
  dsimp only
  split
  · rw [dif_pos hne]
    exact ⟨rfl, rfl⟩
  · rename_i hno
    exact absurd hp (hno i)

theorem remove_fail (h : ∀ p i, fs.resolve path = .ok p → fs.node p ≠ some (.file i)) :
    fs.remove path = (false, fs) := by
  unfold remove
  split
  · rfl
  · rename_i p hp
    split
    · rename_i i hi
      exact absurd hi (h p i hp)
    · rfl

/-- Renaming fails where either path leads nowhere, or the old one not to a regular file, or the new
    one to a directory. -/
theorem rename_fail (h : ∀ p q i, fs.resolve path = .ok p → fs.resolve newPath = .ok q →
    fs.node p = some (.file i) → fs.node q = some .dir) : fs.rename path newPath = (false, fs) := by
  unfold rename
  split
  · rename_i p q hp hq
    split
    · rename_i i hi
      have hdir := h p q i hp hq hi
      have hpq : p ≠ q := by
        rintro rfl
        rw [hi] at hdir
        cases hdir
      split
      · split
        · rename_i hnone
          rw [hdir] at hnone
          cases hnone
        · rfl
        · rename_i j hj
          rw [hdir] at hj
          cases hj
      · rfl
    · rfl
  · rfl

/-- A regular file that is renamed to a free name takes its inode along. -/
theorem rename_free (hp : fs.resolve path = .ok p) (hq : fs.resolve newPath = .ok q)
    (hpi : fs.node p = some (.file i)) (hfree : fs.node q = none) :
    (fs.rename path newPath).1 = true ∧
      (fs.rename path newPath).2.toFsState = (fs.unlink p).enter q (.file i) := by
  have hne : p ≠ [] := by
    rintro rfl
    simp [FsState.node] at hpi
  have hpq : p ≠ q := by
    rintro rfl
    rw [hpi] at hfree
    cases hfree
  unfold rename
  split
  · rename_i p' q' hp' hq'
    rw [hp] at hp'
    rw [hq] at hq'
    cases hp'
    cases hq'
    split
    · rename_i k hk
      rw [hpi] at hk
      cases hk
      rw [dif_pos hne, dif_neg hpq]
      split
      · exact ⟨rfl, rfl⟩
      · rename_i h
        rw [hfree] at h
        cases h
      · rename_i h
        rw [hfree] at h
        cases h
    · rename_i hno
      exact absurd hpi (hno i)
  · rename_i hno
    exact absurd hq (hno p q hp)

/-- Renamed to the name of another regular file, it replaces that one. -/
theorem rename_over (hp : fs.resolve path = .ok p) (hq : fs.resolve newPath = .ok q)
    (hpi : fs.node p = some (.file i)) (hqj : fs.node q = some (.file j)) (hpq : p ≠ q) :
    (fs.rename path newPath).1 = true ∧
      (fs.rename path newPath).2.toFsState = ((fs.unlink q).unlink p).enter q (.file i) := by
  have hne : p ≠ [] := by
    rintro rfl
    simp [FsState.node] at hpi
  have hqne : q ≠ [] := by
    rintro rfl
    simp [FsState.node] at hqj
  unfold rename
  split
  · rename_i p' q' hp' hq'
    rw [hp] at hp'
    rw [hq] at hq'
    cases hp'
    cases hq'
    split
    · rename_i k hk
      rw [hpi] at hk
      cases hk
      rw [dif_pos hne, dif_neg hpq]
      split
      · rename_i h
        rw [hqj] at h
        cases h
      · rename_i h
        rw [hqj] at h
        cases h
      · rw [dif_pos hqne]
        exact ⟨rfl, rfl⟩
    · rename_i hno
      exact absurd hpi (hno i)
  · rename_i hno
    exact absurd hq (hno p q hp)

theorem rename_same (hp : fs.resolve path = .ok p) (hq : fs.resolve newPath = .ok p)
    (hpi : fs.node p = some (.file i)) : fs.rename path newPath = (true, fs) := by
  have hne : p ≠ [] := by
    rintro rfl
    simp [FsState.node] at hpi
  unfold rename
  split
  · rename_i p' q' hp' hq'
    rw [hp] at hp'
    rw [hq] at hq'
    cases hp'
    cases hq'
    split
    · rw [dif_pos hne, dif_pos rfl]
    · rename_i hno
      exact absurd hpi (hno i)
  · rename_i hno
    exact absurd hq (hno p p hp)

/-- The outcomes of a rename: it fails, it leaves a file under its name, or it gives a file a new name
    that was free or that another file loses. -/
theorem rename_cases (fs : Fs) (path newPath : Buffer) :
    ((∀ p q i, fs.resolve path = .ok p → fs.resolve newPath = .ok q → fs.node p = some (.file i) →
        fs.node q = some .dir) ∧ fs.rename path newPath = (false, fs)) ∨
    (∃ p i, fs.resolve path = .ok p ∧ fs.resolve newPath = .ok p ∧ fs.node p = some (.file i) ∧
      fs.rename path newPath = (true, fs)) ∨
    (∃ p q i, fs.resolve path = .ok p ∧ fs.resolve newPath = .ok q ∧ fs.node p = some (.file i) ∧
      fs.node q = none ∧ (fs.rename path newPath).1 = true ∧
      (fs.rename path newPath).2.toFsState = (fs.unlink p).enter q (.file i)) ∨
    ∃ p q i j, fs.resolve path = .ok p ∧ fs.resolve newPath = .ok q ∧ fs.node p = some (.file i) ∧
      fs.node q = some (.file j) ∧ p ≠ q ∧ (fs.rename path newPath).1 = true ∧
      (fs.rename path newPath).2.toFsState = ((fs.unlink q).unlink p).enter q (.file i) := by
  by_cases h : ∃ p q i, fs.resolve path = .ok p ∧ fs.resolve newPath = .ok q ∧
      fs.node p = some (.file i) ∧ fs.node q ≠ some .dir
  · obtain ⟨p, q, i, hp, hq, hpi, hqn⟩ := h
    right
    cases hqj : fs.node q with
    | none => exact Or.inr (Or.inl ⟨p, q, i, hp, hq, hpi, hqj, rename_free hp hq hpi hqj⟩)
    | some n =>
        cases n with
        | dir => exact absurd hqj hqn
        | file j =>
            by_cases hpq : p = q
            · subst hpq
              exact Or.inl ⟨p, i, hp, hq, hpi, rename_same hp hq hpi⟩
            · exact Or.inr (Or.inr ⟨p, q, i, j, hp, hq, hpi, hqj, hpq, rename_over hp hq hpi hqj hpq⟩)
  · left
    have hdir : ∀ p q i, fs.resolve path = .ok p → fs.resolve newPath = .ok q →
        fs.node p = some (.file i) → fs.node q = some .dir := by
      intro p q i hp hq hpi
      by_contra hqn
      exact h ⟨p, q, i, hp, hq, hpi, hqn⟩
    exact ⟨hdir, rename_fail hdir⟩

/-! ## Enumeration -/

/-- The files of a directory in the order of the entries. -/
theorem fileNames_eq (g : FsState) (dir : Path) : g.fileNames dir =
    g.entries.keys.filterMap fun p =>
      if p.dropLast = dir ∧ g.node p ≠ some .dir then p.getLast? else none := by
  unfold FsState.fileNames AList.keys List.keys
  rw [List.filterMap_map]
  refine List.filterMap_congr fun e he => ?_
  by_cases hnil : e.1 = []
  · simp [hnil]
  · have hlookup : g.entries.lookup e.1 = some e.2 := AList.mem_lookup_iff.2 he
    simp [FsState.node, hnil, hlookup]

/-! ## Directories stay -/

/-- The same directories, with the same working directory. -/
def SameDirs (fs fs' : Fs) : Prop := DirsKept fs fs' ∧ DirsKept fs' fs

theorem SameDirs.refl (fs : Fs) : SameDirs fs fs := ⟨.refl fs, .refl fs⟩

theorem SameDirs.symm (h : SameDirs fs fs') : SameDirs fs' fs := ⟨h.2, h.1⟩

theorem SameDirs.trans (h : SameDirs fs fs') (h' : SameDirs fs' fs'') : SameDirs fs fs'' :=
  ⟨h.1.trans h'.1, h'.2.trans h.2⟩

theorem SameDirs.of_node (hcwd : fs'.cwd = fs.cwd)
    (h : ∀ q, fs'.node q = some .dir ↔ fs.node q = some .dir) : SameDirs fs fs' :=
  ⟨⟨hcwd, fun q => (h q).2⟩, ⟨hcwd.symm, fun q => (h q).1⟩⟩

theorem SameDirs.node_dir (h : SameDirs fs fs') : fs'.node q = some .dir ↔ fs.node q = some .dir :=
  ⟨h.2.2 q, h.1.2 q⟩

theorem SameDirs.resolve (h : SameDirs fs fs') : fs'.resolve path = .ok p ↔ fs.resolve path = .ok p :=
  ⟨resolve_kept h.2, resolve_kept h.1⟩

/-- A path that is too long stays so: it is found to be on the way through directories. -/
theorem walk_tooLong {cs : List Name} (h : ∀ q, fs.node q = some .dir → fs'.node q = some .dir)
    (hw : fs.walk p cs = .error .nameTooLong) : fs'.walk p cs = .error .nameTooLong := by
  induction cs generalizing p with
  | nil => cases hw
  | cons c cs ih =>
      rw [walk] at hw ⊢
      split at hw
      · cases hw
      · cases hw
      · rename_i hdir
        rw [h p hdir]
        split_ifs at hw ⊢
        · rfl
        · exact ih hw

theorem SameDirs.tooLong (h : SameDirs fs fs') :
    fs'.resolve path = .error .nameTooLong ↔ fs.resolve path = .error .nameTooLong := by
  have hkept : ∀ {fs fs' : Fs}, DirsKept fs fs' → fs.resolve path = .error .nameTooLong →
      fs'.resolve path = .error .nameTooLong := by
    intro fs fs' h hr
    rw [Fs.resolve] at hr ⊢
    rw [h.1]
    split_ifs at hr ⊢
    · cases hr
    · rfl
    all_goals exact walk_tooLong h.2 hr
  exact ⟨hkept h.2, hkept h.1⟩

theorem sameDirs_of_state (h : fs'.toFsState = fs.toFsState) : SameDirs fs fs' := by
  refine .of_node ?_ fun q => ?_
  · rw [h]
  · rw [h]

/-- Nothing but a file is entered, and where no directory was. -/
theorem sameDirs_enter {g : FsState} (hcwd : fs'.cwd = fs.cwd)
    (hg : ∀ q, fs'.node q = (g.enter p (.file i)).node q) (hp : p ≠ [])
    (hnode : ∀ q, q ≠ p → (g.node q = some .dir ↔ fs.node q = some .dir))
    (hnot : fs.node p ≠ some .dir) : SameDirs fs fs' := by
  refine .of_node hcwd fun q => ?_
  rw [hg, FsState.node_enter _ hp]
  by_cases hq : q = p
  · subst hq
    simp [hnot]
  · rw [if_neg hq]
    exact hnode q hq

/-- Unlinking a file keeps the directories. -/
theorem node_unlink_dir {g : FsState} (hp : p ≠ []) (hpi : g.node p ≠ some .dir) (q : Path) :
    (g.unlink p).node q = some .dir ↔ g.node q = some .dir := by
  rw [FsState.node_unlink _ hp]
  by_cases hq : q = p
  · subst hq
    simp [hpi]
  · rw [if_neg hq]

theorem openWrite_sameDirs (fs : Fs) (path : Buffer) : SameDirs fs (fs.openWrite path).2 := by
  cases hr : fs.resolve path with
  | error e =>
      rw [openWrite_fail fun p hp => by rw [hr] at hp; cases hp]
      exact .refl fs
  | ok p =>
      cases hp : fs.node p with
      | none =>
          obtain ⟨hne, -⟩ := fs.resolve_makeable hr hp
          have hstate := (openWrite_free hr hp).2
          exact sameDirs_enter (g := fs.newInode) (i := fs.nextInode) (by rw [hstate]; rfl)
            (fun q => by rw [hstate]; rfl) hne (fun _ _ => Iff.rfl) (by simp [hp])
      | some n =>
          cases n with
          | dir =>
              rw [openWrite_fail fun p' hp' => by rw [hr] at hp'; cases hp'; exact hp]
              exact .refl fs
          | file i =>
              have hstate := (openWrite_file hr hp).2
              refine .of_node ?_ fun q => ?_
              · rw [hstate]
                rfl
              · rw [hstate]
                rfl

theorem ne_nil_of_file (hp : fs.node p = some (.file i)) : p ≠ [] := by
  rintro rfl
  simp [FsState.node] at hp

theorem remove_sameDirs (fs : Fs) (path : Buffer) : SameDirs fs (fs.remove path).2 := by
  by_cases h : ∃ p i, fs.resolve path = .ok p ∧ fs.node p = some (.file i)
  · obtain ⟨p, i, hr, hp⟩ := h
    have hstate := (remove_file hr hp).2
    refine .of_node ?_ fun q => ?_
    · rw [hstate]
      rfl
    · rw [hstate]
      exact node_unlink_dir (ne_nil_of_file hp) (by simp [hp]) q
  · rw [remove_fail fun p i hr hp => h ⟨p, i, hr, hp⟩]
    exact .refl fs

theorem rename_sameDirs (fs : Fs) (path newPath : Buffer) :
    SameDirs fs (fs.rename path newPath).2 := by
  rcases rename_cases fs path newPath with ⟨-, heq⟩ | ⟨p, i, -, -, -, heq⟩ |
    ⟨p, q, i, hp, hq, hpi, hqn, -, hstate⟩ | ⟨p, q, i, j, hp, hq, hpi, hqj, hpq, -, hstate⟩
  · rw [heq]
    exact .refl fs
  · rw [heq]
    exact .refl fs
  · exact sameDirs_enter (by rw [hstate]; rfl) (fun r => by rw [hstate]) (fs.resolve_makeable hq hqn).1
      (fun r _ => node_unlink_dir (ne_nil_of_file hpi) (by simp [hpi]) r) (by simp [hqn])
  · have hqne := ne_nil_of_file hqj
    have hpi' : (fs.unlink q).node p ≠ some .dir := by
      rw [Ne, node_unlink_dir hqne (by simp [hqj])]
      simp [hpi]
    exact sameDirs_enter (by rw [hstate]; rfl) (fun r => by rw [hstate]) hqne
      (fun r _ => (node_unlink_dir (ne_nil_of_file hpi) hpi' r).trans
        (node_unlink_dir hqne (by simp [hqj]) r)) (by simp [hqj])

/-- No call but the one for it makes or removes a directory. -/
theorem answer_sameDirs (fault : Bool) (fs : Fs) {c : FileCall}
    (hc : ∀ path, c ≠ .createDirectory path) : SameDirs fs (c.answer fault fs).2 := by
  have hdata : ∀ {fs' : Fs}, fs'.cwd = fs.cwd → (∀ q, fs'.node q = fs.node q) → SameDirs fs fs' :=
    fun hcwd hn => .of_node hcwd fun q => by rw [hn q]
  cases c with
  | stat path => exact .refl fs
  | fileSize path => exact .refl fs
  | list path => exact .refl fs
  | createDirectory path => exact absurd rfl (hc path)
  | openRead path =>
      simp only [FileCall.answer]
      split
      · exact .refl fs
      · split <;> exact hdata rfl fun _ => rfl
  | read h n =>
      simp only [FileCall.answer, read]
      split
      · exact .refl fs
      · split <;> exact hdata rfl fun _ => rfl
  | write h b =>
      simp only [FileCall.answer, write]
      split
      · exact .refl fs
      · split <;> exact hdata rfl fun _ => rfl
  | openWrite path =>
      simp only [FileCall.answer]
      split
      · exact .refl fs
      · exact openWrite_sameDirs fs path
  | remove path =>
      simp only [FileCall.answer]
      split
      · exact .refl fs
      · exact remove_sameDirs fs path
  | rename path newPath =>
      simp only [FileCall.answer]
      split
      · exact .refl fs
      · exact rename_sameDirs fs path newPath

/-! ## Paths below a folder -/

theorem walk_append (fs : Fs) (p : Path) (cs cs' : List Name) :
    fs.walk p (cs ++ cs') = match fs.walk p cs with
      | .ok q => fs.walk q cs'
      | .error e => .error e := by
  induction cs generalizing p with
  | nil => rfl
  | cons c cs ih =>
      simp only [List.cons_append, walk]
      split
      · rfl
      · rfl
      · split_ifs
        · rfl
        · exact ih _

/-- A path below a folder goes on from where the folder is. -/
theorem resolve_below (hD : fs.resolve path = .ok p) (name : Buffer) :
    fs.resolve (path ++ 47 :: name) =
      if 4096 ≤ (path ++ 47 :: name).length then .error .nameTooLong
      else fs.walk p (name.splitOn 47) := by
  have hnil : path ≠ [] := by
    rintro rfl
    simp [resolve] at hD
  rw [resolve, if_neg hnil] at hD
  by_cases hlong : 4096 ≤ path.length
  · rw [if_pos hlong] at hD
    cases hD
  rw [if_neg hlong] at hD
  have hhead : (path ++ 47 :: name).head? = path.head? := by
    cases path with
    | nil => exact absurd rfl hnil
    | cons a b => rfl
  rw [resolve, if_neg (by simp), hhead, List.splitOn_append_cons_self, walk_append, hD]

/-- A path below a folder that is not to be found leads nowhere. -/
theorem resolve_below_error {e : LookupError} (he : fs.resolve path = .error e) (hne : path ≠ [])
    (name : Buffer) : fs.resolve (path ++ 47 :: name) =
      if 4096 ≤ (path ++ 47 :: name).length then .error .nameTooLong else .error e := by
  rw [resolve, if_neg hne] at he
  have hhead : (path ++ 47 :: name).head? = path.head? := by
    cases path with
    | nil => exact absurd rfl hne
    | cons a b => rfl
  rw [resolve, if_neg (by simp), hhead, List.splitOn_append_cons_self, walk_append]
  by_cases hlong : 4096 ≤ path.length
  · rw [if_pos hlong] at he
    have hlen : 4096 ≤ (path ++ 47 :: name).length := by
      rw [List.length_append]
      omega
    cases he
    rw [if_pos hlen, if_pos hlen]
  · rw [if_neg hlong] at he
    rw [he]

end Fs

end CloudStorage
