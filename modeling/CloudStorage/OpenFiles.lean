import CloudStorage.FileSystem

set_option autoImplicit false

/-! # What the file calls do

The effect of the calls on names and contents, as the proofs about handlers need it: what a path
resolves to depends on the directories alone, a file that is open at its end grows by what is
written, and every call leaves the other files as they are. -/

namespace CloudStorage

namespace Fs

/-- `fs'` has the directories of `fs`, and perhaps more. -/
def DirsKept (fs fs' : Fs) : Prop :=
  fs'.cwd = fs.cwd ∧ ∀ q, fs.node q = some .dir → fs'.node q = some .dir

/-- Every file but the one at `p` is as before. -/
def KeptBut (p : Path) (fs fs' : Fs) : Prop :=
  ∀ q, q ≠ p → fs'.node q = fs.node q ∧ fs'.contents q = fs.contents q

variable {fs fs' fs'' : Fs} {p q : Path} {path : Buffer}

theorem DirsKept.refl (fs : Fs) : DirsKept fs fs := ⟨rfl, fun _ => id⟩

theorem DirsKept.trans (h : DirsKept fs fs') (h' : DirsKept fs' fs'') : DirsKept fs fs'' :=
  ⟨h'.1.trans h.1, fun q hq => h'.2 q (h.2 q hq)⟩

theorem KeptBut.refl (p : Path) (fs : Fs) : KeptBut p fs fs := fun _ _ => ⟨rfl, rfl⟩

theorem KeptBut.trans (h : KeptBut p fs fs') (h' : KeptBut p fs' fs'') : KeptBut p fs fs'' :=
  fun q hq => ⟨(h' q hq).1.trans (h q hq).1, (h' q hq).2.trans (h q hq).2⟩

theorem contents_eq_some {d : Buffer} :
    fs.contents p = some d ↔ ∃ i, fs.node p = some (.file i) ∧ fs.data i = d := by
  unfold FsState.contents
  split
  · rename_i i hi
    simp [hi]
  · rename_i hno
    simp only [reduceCtorEq, false_iff, not_exists, not_and]
    exact fun i hi => absurd hi (hno i)

/-- A file whose name and data are kept is as before. -/
theorem contents_congr (hn : fs'.node q = fs.node q)
    (hd : ∀ j, fs.node q = some (.file j) → fs'.data j = fs.data j) :
    fs'.contents q = fs.contents q := by
  unfold FsState.contents
  rw [hn]
  split
  · rename_i j hj
    rw [hd j hj]
  · rfl

/-! ## Resolution -/

theorem walk_kept {cs : List Name} (h : ∀ q, fs.node q = some .dir → fs'.node q = some .dir)
    (hw : fs.walk p cs = .ok q) : fs'.walk p cs = .ok q := by
  induction cs generalizing p with
  | nil => exact hw
  | cons c cs ih =>
      rw [walk] at hw ⊢
      split at hw
      · cases hw
      · cases hw
      · rename_i hdir
        rw [h p hdir]
        split_ifs at hw ⊢
        exact ih hw

/-- Where directories are kept, a path leads where it led. -/
theorem resolve_kept (h : DirsKept fs fs') (hr : fs.resolve path = .ok p) :
    fs'.resolve path = .ok p := by
  rw [resolve] at hr ⊢
  rw [h.1]
  split_ifs at hr ⊢
  all_goals exact walk_kept h.2 hr

theorem walk_congr {cs : List Name} (h : ∀ q, fs'.node q = fs.node q) :
    fs'.walk p cs = fs.walk p cs := by
  induction cs generalizing p with
  | nil => rfl
  | cons c cs ih =>
      rw [walk, walk, h p]
      split
      · rfl
      · rfl
      · rw [ih]

/-- Where all names are kept, a path resolves as before, or fails as before. -/
theorem resolve_congr (h : ∀ q, fs'.node q = fs.node q) (hcwd : fs'.cwd = fs.cwd) (path : Buffer) :
    fs'.resolve path = fs.resolve path := by
  rw [resolve, resolve, hcwd, walk_congr h]

theorem fileType_regular :
    fs.fileType path = some .regular ↔ ∃ p i, fs.resolve path = .ok p ∧ fs.node p = some (.file i) := by
  unfold fileType
  split
  · rename_i h
    simp [h]
  · rename_i e _ h
    simp [h]
  · rename_i p hp
    simp only [hp, Except.ok.injEq]
    split
    · rename_i hn
      simp [hn]
    · rename_i hn
      simp [hn]
    · rename_i i hn
      simp [hn]

/-! ## Writing -/

/-- A file that is open for writing at its end. -/
def OpenAt (fs : Fs) (handle : Nat) (p : Path) (data : Buffer) : Prop :=
  ∃ i, fs.node p = some (.file i) ∧ fs.data i = data ∧ fs.handles[handle]? = some (i, data.length)

theorem OpenAt.contents {handle : Nat} {data : Buffer} (h : fs.OpenAt handle p data) :
    fs.contents p = some data := by
  obtain ⟨i, hi, hd, -⟩ := h
  exact contents_eq_some.2 ⟨i, hi, hd⟩

theorem writeAt_end (old b : Buffer) : writeAt old old.length b = old ++ b := by
  rw [writeAt, fit_of_length rfl, List.drop_of_length_le (by omega), List.append_nil]

/-- Writing at the end appends. -/
theorem write_openAt {handle : Nat} {data : Buffer} (h : fs.OpenAt handle p data) (b : Buffer) :
    (fs.write handle b).1 = true ∧ (fs.write handle b).2.OpenAt handle p (data ++ b) ∧
      DirsKept fs (fs.write handle b).2 ∧ KeptBut p fs (fs.write handle b).2 := by
  obtain ⟨i, hi, hd, hh⟩ := h
  have hlt : handle < fs.handles.length := by
    by_contra hge
    rw [List.getElem?_eq_none (by omega)] at hh
    cases hh
  unfold write
  split
  · rename_i hnone
    rw [hnone] at hh
    cases hh
  · rename_i j off hsome
    rw [hsome] at hh
    cases hh
    refine ⟨rfl, ⟨i, hi, ?_, ?_⟩, ⟨rfl, fun _ => id⟩, fun q hq => ⟨rfl, contents_congr rfl ?_⟩⟩
    · show Function.update fs.data i (writeAt (fs.data i) data.length b) i = _
      rw [Function.update_self, ← hd, writeAt_end]
    · show (fs.handles.set handle (i, data.length + b.length))[handle]? = _
      rw [List.getElem?_set_self hlt, List.length_append]
    · intro j hj
      refine Function.update_of_ne ?_ ..
      rintro rfl
      exact hq (fs.wf.inode_inj _ _ _ hj hi)

theorem node_createFile (hp : fs.Makeable p) (hfree : fs.node p = none) (q : Path) :
    (fs.createFile p hp hfree).node q = if q = p then some (.file fs.nextInode) else fs.node q :=
  FsState.node_enter fs.newInode hp.1 _ q

/-- A file opened for writing is empty, and the only one that changed. -/
theorem openWrite_some {handle : Nat} (h : fs.openWrite path = (some handle, fs')) :
    ∃ p, fs.resolve path = .ok p ∧ fs'.OpenAt handle p [] ∧ DirsKept fs fs' ∧ KeptBut p fs fs' := by
  unfold openWrite at h
  split at h
  · cases h
  · rename_i p hr
    split at h
    · cases h
    · rename_i i hi
      cases h
      refine ⟨p, hr, ⟨i, hi, ?_, ?_⟩, ⟨rfl, fun _ => id⟩, fun q hq => ⟨rfl, contents_congr rfl ?_⟩⟩
      · exact Function.update_self ..
      · show (fs.handles ++ [(i, 0)])[fs.handles.length]? = _
        simp
      · intro j hj
        refine Function.update_of_ne ?_ ..
        rintro rfl
        exact hq (fs.wf.inode_inj _ _ _ hj hi)
    · rename_i hnone
      cases h
      have hnode := node_createFile (fs.resolve_makeable hr hnone) hnone
      refine ⟨p, hr, ⟨fs.nextInode, ?_, ?_, ?_⟩, ⟨rfl, fun q hq => ?_⟩, fun q hq => ?_⟩
      · rw [hnode, if_pos rfl]
      · exact Function.update_self ..
      · show (fs.handles ++ [(fs.nextInode, 0)])[fs.handles.length]? = _
        simp
      · rw [hnode, if_neg, hq]
        rintro rfl
        rw [hnone] at hq
        cases hq
      · have hq' := hnode q
        rw [if_neg hq] at hq'
        refine ⟨hq', contents_congr hq' fun j hj => Function.update_of_ne ?_ ..⟩
        have := fs.wf.inode_lt _ _ hj
        omega

/-- A file that is opened for writing and was no regular file before is new. -/
theorem openWrite_new {handle : Nat} (h : fs.openWrite path = (some handle, fs'))
    (hnot : fs.fileType path ≠ some .regular) (hr : fs.resolve path = .ok p) : fs.node p = none := by
  unfold openWrite at h
  split at h
  · rename_i herr
    rw [herr] at hr
    cases hr
  · rename_i q hq
    rw [hr] at hq
    cases hq
    split at h
    · cases h
    · rename_i i hi
      exact absurd (fileType_regular.2 ⟨p, i, hr, hi⟩) hnot
    · assumption

theorem openWrite_none (h : fs.openWrite path = (none, fs')) : fs' = fs := by
  unfold openWrite at h
  split at h
  · cases h
    rfl
  · split at h
    · cases h
      rfl
    · cases h
    · cases h

end Fs

end CloudStorage
