import Mathlib.Data.List.Induction
import CloudStorage.Folders
import CloudStorage.Worker

set_option autoImplicit false

/-! # Calls within one folder

A worker puts the names of a request behind the path of its user's folder, as they are, so a name with
`..` in it leads out of the folder. `Fs.Stays` is the condition on a name under which it does not:
followed component by component from the folder, it is never at a place that is neither inside the
folder nor above it.

A call whose paths have such names is `Confined`. It changes nothing outside the folder (`Kept`), and
two stores with the same folder answer it alike (`Agree`). -/

namespace CloudStorage

open Interaction Interaction.Routine

/-! ## Names that stay -/

/-- Inside `D` or above it. -/
def OnTheWay (D q : Path) : Prop := D <+: q ∨ q <+: D

instance (D q : Path) : Decidable (OnTheWay D q) := inferInstanceAs (Decidable (_ ∨ _))

namespace Fs

/-- Followed from `p`, the components lead through no place but on the way. -/
def Stays (fs : Fs) (D : Path) : Path → List Name → Prop
  | _, [] => True
  | p, c :: cs => fs.node p = some .dir → c.length ≤ 255 →
    OnTheWay D (descend p c) ∧ fs.Stays D (descend p c) cs

instance decidableStays (fs : Fs) (D : Path) : ∀ p cs, Decidable (fs.Stays D p cs)
  | _, [] => .isTrue trivial
  | p, c :: cs =>
    have := fs.decidableStays D (descend p c) cs
    inferInstanceAs (Decidable (fs.node p = some .dir → c.length ≤ 255 →
      OnTheWay D (descend p c) ∧ fs.Stays D (descend p c) cs))

variable {fs fs' : Fs} {D p q : Path} {cs : List Name}

theorem SameDirs.stays (h : SameDirs fs fs') (hs : fs.Stays D p cs) : fs'.Stays D p cs := by
  induction cs generalizing p with
  | nil => trivial
  | cons c cs ih =>
      intro hdir hlen
      obtain ⟨hway, hrest⟩ := hs (h.node_dir.1 hdir) hlen
      exact ⟨hway, ih hrest⟩

theorem Stays.walk (hs : fs.Stays D p cs) (hp : OnTheWay D p) (h : fs.walk p cs = .ok q) :
    OnTheWay D q := by
  induction cs generalizing p with
  | nil =>
      cases h
      exact hp
  | cons c cs ih =>
      rw [Fs.walk] at h
      split at h
      · cases h
      · cases h
      · rename_i hdir
        split_ifs at h with hlen
        obtain ⟨hway, hrest⟩ := hs hdir (by omega)
        exact ih hrest hway h

/-- What lies above a directory is one. -/
theorem node_of_prefix (hD : fs.node D = some .dir) (hq : q <+: D) : fs.node q = some .dir := by
  obtain ⟨r, rfl⟩ := hq
  induction r using List.reverseRecOn with
  | nil => simpa using hD
  | append_singleton r c ih =>
      have hparent := fs.wf.parent_dir (q ++ (r ++ [c])) _ (by simp) hD
      rw [← List.append_assoc, List.dropLast_concat] at hparent
      exact ih hparent

end Fs

open Worker (folderPath filePath)

/-- A place inside the folder of `u`. -/
def Inside (u : Buffer) (fs : Fs) (q : Path) : Prop :=
  ∃ D, fs.resolve (folderPath u) = .ok D ∧ D <+: q

/-- A name that stays in the folder of `u`. -/
def Fenced (u : Buffer) (fs : Fs) (name : Buffer) : Prop :=
  ∀ D, fs.resolve (folderPath u) = .ok D → fs.Stays D D (name.splitOn 47)

instance (u : Buffer) (fs : Fs) (name : Buffer) : Decidable (Fenced u fs name) :=
  match hD : fs.resolve (folderPath u) with
  | .error _ => .isTrue fun D h => by rw [hD] at h; cases h
  | .ok D => decidable_of_iff (fs.Stays D D (name.splitOn 47))
      ⟨fun hs D' h => by rw [hD] at h; cases h; exact hs, fun h => h D hD⟩

/-- A path of the folder of `u` with a name that stays in it. -/
def FencedPath (u : Buffer) (fs : Fs) (path : Buffer) : Prop :=
  ∃ name, path = filePath u name ∧ Fenced u fs name

/-- A call into the file system that keeps to the folder of `u`. -/
def Confined (u : Buffer) (fs : Fs) : FileCall → Prop
  | .stat path => path = folderPath u ∨ FencedPath u fs path
  | .list path => path = folderPath u
  | .fileSize path | .openRead path | .openWrite path | .remove path => FencedPath u fs path
  | .rename path newPath => FencedPath u fs path ∧ FencedPath u fs newPath
  | .read _ _ | .write _ _ => True
  | .createDirectory _ => False

section

variable {u name path newPath : Buffer} {fs fs' fs₀ : Fs} {D p q : Path} {i j : Nat} {c : FileCall}

theorem folderPath_ne_nil (u : Buffer) : folderPath u ≠ [] := by
  simp [folderPath, ascii]

theorem SameDirs.inside (h : fs.SameDirs fs') : Inside u fs' q ↔ Inside u fs q := by
  constructor
  · rintro ⟨D, hD, hq⟩
    exact ⟨D, h.resolve.1 hD, hq⟩
  · rintro ⟨D, hD, hq⟩
    exact ⟨D, h.resolve.2 hD, hq⟩

theorem SameDirs.fenced (h : fs.SameDirs fs') (hf : Fenced u fs name) : Fenced u fs' name :=
  fun D hD => h.stays (hf D (h.resolve.1 hD))

/-- Where a path with a name that stays leads. -/
theorem FencedPath.resolve (hf : FencedPath u fs path) (hr : fs.resolve path = .ok q) :
    ∃ D, fs.resolve (folderPath u) = .ok D ∧ fs.node D = some .dir ∧ OnTheWay D q := by
  obtain ⟨name, rfl, hname⟩ := hf
  rw [filePath] at hr
  cases hD : fs.resolve (folderPath u) with
  | error e =>
      rw [Fs.resolve_below_error hD (folderPath_ne_nil u)] at hr
      split_ifs at hr
  | ok D =>
      rw [Fs.resolve_below hD] at hr
      split_ifs at hr
      refine ⟨D, rfl, ?_, (hname D hD).walk (Or.inl (List.prefix_refl D)) hr⟩
      obtain ⟨c, cs, hcs⟩ := List.exists_cons_of_ne_nil (List.splitOn_ne_nil 47 name)
      rw [hcs, Fs.walk] at hr
      split at hr
      · cases hr
      · cases hr
      · assumption

/-- Above the folder there are only directories. -/
theorem FencedPath.inside (hf : FencedPath u fs path) (hr : fs.resolve path = .ok q)
    (hn : fs.node q ≠ some .dir) : Inside u fs q := by
  obtain ⟨D, hD, hdir, hway⟩ := hf.resolve hr
  rcases hway with h | h
  · exact ⟨D, hD, h⟩
  · exact absurd (Fs.node_of_prefix hdir h) hn

/-! ## What a confined call changes -/

/-- Outside the folder of `u` everything is as it was, and nothing outside is open. -/
structure Kept (u : Buffer) (fs₀ fs : Fs) : Prop where
  dirs : fs₀.SameDirs fs
  outside : ∀ q, ¬Inside u fs₀ q → fs.node q = fs₀.node q ∧ fs.contents q = fs₀.contents q
  handles : ∀ h ∈ fs.handles, ∀ q, fs.node q = some (.file h.1) → Inside u fs₀ q

theorem Kept.change (hk : Kept u fs₀ fs) (hd : fs.SameDirs fs')
    (hnode : ∀ q, ¬Inside u fs₀ q → fs'.node q = fs.node q)
    (hdata : ∀ q i, ¬Inside u fs₀ q → fs.node q = some (.file i) → fs'.data i = fs.data i)
    (hh : ∀ h ∈ fs'.handles, ∀ q, fs'.node q = some (.file h.1) → Inside u fs₀ q) :
    Kept u fs₀ fs' := by
  refine ⟨hk.dirs.trans hd, fun q hq => ?_, hh⟩
  obtain ⟨hn, hc⟩ := hk.outside q hq
  exact ⟨(hnode q hq).trans hn,
    (Fs.contents_congr (hnode q hq) fun j hj => hdata q j hq hj).trans hc⟩

/-- The contents of an inode inside change, and it may be opened. -/
theorem Kept.setData (hk : Kept u fs₀ fs) (hi : ∀ q, fs.node q = some (.file i) → Inside u fs₀ q)
    (hcwd : fs'.cwd = fs.cwd) (hnode : ∀ q, fs'.node q = fs.node q)
    (hdata : ∀ j, j ≠ i → fs'.data j = fs.data j)
    (hh : ∀ h ∈ fs'.handles, h ∈ fs.handles ∨ h.1 = i) : Kept u fs₀ fs' := by
  refine hk.change (.of_node hcwd fun q => by rw [hnode q]) (fun q _ => hnode q) (fun q j hq hj => ?_)
    fun h hmem q hq => ?_
  · refine hdata j ?_
    rintro rfl
    exact hq (hi q hj)
  · rw [hnode] at hq
    rcases hh h hmem with hold | rfl
    · exact hk.handles h hold q hq
    · exact hi q hq

/-- A file inside is entered; the other names are those of `g`. -/
theorem Kept.enter (hk : Kept u fs₀ fs) (hd : fs.SameDirs fs') {g : FsState} (hp : p ≠ [])
    (hin : Inside u fs₀ p) (hnode : ∀ q, fs'.node q = (g.enter p (.file i)).node q)
    (hg : ∀ q, q ≠ p → g.node q = fs.node q ∨ (g.node q = none ∧ Inside u fs₀ q))
    (hdata : ∀ q j, fs.node q = some (.file j) → fs'.data j = fs.data j)
    (hh : ∀ h ∈ fs'.handles, h ∈ fs.handles ∨ ∀ q, fs.node q ≠ some (.file h.1)) :
    Kept u fs₀ fs' := by
  refine hk.change hd (fun q hq => ?_) (fun q j _ hj => hdata q j hj) fun h hmem q hq => ?_
  · have hqp : q ≠ p := by
      rintro rfl
      exact hq hin
    rw [hnode, FsState.node_enter _ hp, if_neg hqp]
    exact (hg q hqp).resolve_right fun h => hq h.2
  · by_cases hqp : q = p
    · rw [hqp]
      exact hin
    · rw [hnode, FsState.node_enter _ hp, if_neg hqp] at hq
      rcases hg q hqp with hold | ⟨hnone, -⟩
      · rw [hold] at hq
        exact (hh h hmem).elim (fun hold => hk.handles h hold q hq) fun hnew => absurd hq (hnew q)
      · rw [hnone] at hq
        cases hq

theorem Kept.openRead (hk : Kept u fs₀ fs) (fault : Bool) (hc : FencedPath u fs path) :
    Kept u fs₀ (FileCall.answer fault fs (.openRead path)).2 := by
  simp only [FileCall.answer]
  split
  · exact hk
  · by_cases h : ∃ p i, fs.resolve path = .ok p ∧ fs.node p = some (.file i)
    · obtain ⟨p, i, hr, hp⟩ := h
      obtain ⟨hi, hinode⟩ := Fs.inodeAt_of_file hr hp
      rw [hinode]
      have hin : Inside u fs₀ p := (SameDirs.inside hk.dirs).1 (hc.inside hr (by simp [hp]))
      refine hk.setData (i := i) (fun q hq => ?_) rfl (fun _ => rfl) (fun _ _ => rfl) fun h hmem => ?_
      · rw [fs.wf.inode_inj q p i hq hp]
        exact hin
      · rcases List.mem_append.1 hmem with hold | hnew
        · exact Or.inl hold
        · exact Or.inr (by rw [List.mem_singleton.1 hnew])
    · rw [Fs.inodeAt_of_not_file fun p i hr hp => h ⟨p, i, hr, hp⟩]
      exact hk

/-- Moving the offset of an open file, with or without writing to it. -/
theorem Kept.seek (hk : Kept u fs₀ fs) {handle off : Nat} {data : Nat → Buffer} (hlt : i < fs.nextInode)
    (hh : ∃ off, fs.handles[handle]? = some (i, off)) (hdata : ∀ j, j ≠ i → data j = fs.data j) :
    Kept u fs₀ (fs.seekWith handle i off data hlt) := by
  obtain ⟨off', hh⟩ := hh
  refine hk.setData (i := i) (hk.handles _ (List.mem_of_getElem? hh)) rfl (fun _ => rfl) hdata
    fun h hmem => ?_
  rcases List.mem_or_eq_of_mem_set hmem with hold | rfl
  · exact Or.inl hold
  · exact Or.inr rfl

theorem Kept.openWrite (hk : Kept u fs₀ fs) (hc : FencedPath u fs path) :
    Kept u fs₀ (fs.openWrite path).2 := by
  have hdirs := Fs.openWrite_sameDirs fs path
  cases hr : fs.resolve path with
  | error e =>
      rw [Fs.openWrite_fail fun p hp => by rw [hr] at hp; cases hp]
      exact hk
  | ok p =>
      by_cases hdir : fs.node p = some .dir
      · rw [Fs.openWrite_fail fun p' hp' => by rw [hr] at hp'; cases hp'; exact hdir]
        exact hk
      have hin : Inside u fs₀ p := (SameDirs.inside hk.dirs).1 (hc.inside hr hdir)
      cases hp : fs.node p with
      | none =>
          have hstate := (Fs.openWrite_free hr hp).2
          refine hk.enter (g := fs.newInode) (i := fs.nextInode) hdirs (fs.resolve_makeable hr hp).1 hin
            (fun q => by rw [hstate]; rfl) (fun _ _ => Or.inl rfl) (fun q j hj => ?_) fun h hmem => ?_
          · have := fs.wf.inode_lt q j hj
            rw [hstate]
            exact Function.update_of_ne (by omega) ..
          · rw [hstate] at hmem
            rcases List.mem_append.1 hmem with hold | hnew
            · exact Or.inl hold
            · refine Or.inr fun q hq => ?_
              rw [List.mem_singleton.1 hnew] at hq
              exact absurd (fs.wf.inode_lt q _ hq) (Nat.lt_irrefl _)
      | some n =>
          cases n with
          | dir => exact absurd hp hdir
          | file i =>
              have hstate := (Fs.openWrite_file hr hp).2
              refine hk.setData (i := i) (fun q hq => ?_) (by rw [hstate]; rfl)
                (fun q => by rw [hstate]; rfl) (fun j hj => ?_) fun h hmem => ?_
              · rw [fs.wf.inode_inj q p i hq hp]
                exact hin
              · rw [hstate]
                exact Function.update_of_ne hj ..
              · rw [hstate] at hmem
                rcases List.mem_append.1 hmem with hold | hnew
                · exact Or.inl hold
                · exact Or.inr (by rw [List.mem_singleton.1 hnew])

/-- Unlinking what is inside leaves the other names. -/
theorem unlink_or {g : FsState} (hp : p ≠ []) (hin : Inside u fs₀ p) (q : Path) :
    (g.unlink p).node q = g.node q ∨ ((g.unlink p).node q = none ∧ Inside u fs₀ q) := by
  rw [FsState.node_unlink _ hp]
  by_cases hq : q = p
  · rw [if_pos hq, hq]
    exact Or.inr ⟨rfl, hin⟩
  · rw [if_neg hq]
    exact Or.inl rfl

theorem Kept.remove (hk : Kept u fs₀ fs) (hc : FencedPath u fs path) :
    Kept u fs₀ (fs.remove path).2 := by
  by_cases h : ∃ p i, fs.resolve path = .ok p ∧ fs.node p = some (.file i)
  · obtain ⟨p, i, hr, hp⟩ := h
    have hstate := (Fs.remove_file hr hp).2
    have hin : Inside u fs₀ p := (SameDirs.inside hk.dirs).1 (hc.inside hr (by simp [hp]))
    have hor := unlink_or (g := fs.toFsState) (Fs.ne_nil_of_file hp) hin
    refine hk.change (Fs.remove_sameDirs fs path) (fun q hq => ?_) (fun q j _ _ => by rw [hstate]; rfl)
      fun h hmem q hq => ?_
    · rw [hstate]
      exact (hor q).resolve_right fun h => hq h.2
    · rw [hstate] at hmem hq
      rcases hor q with hsame | ⟨-, hinq⟩
      · rw [hsame] at hq
        exact hk.handles h hmem q hq
      · exact hinq
  · rw [Fs.remove_fail fun p i hr hp => h ⟨p, i, hr, hp⟩]
    exact hk

theorem Kept.rename (hk : Kept u fs₀ fs) (hc : FencedPath u fs path) (hc' : FencedPath u fs newPath) :
    Kept u fs₀ (fs.rename path newPath).2 := by
  have hdirs := Fs.rename_sameDirs fs path newPath
  have hinside : ∀ {path p n}, FencedPath u fs path → fs.resolve path = .ok p → fs.node p = n →
      n ≠ some .dir → Inside u fs₀ p := by
    intro path p n hc hp hn hnot
    exact (SameDirs.inside hk.dirs).1 (hc.inside hp (hn ▸ hnot))
  rcases Fs.rename_cases fs path newPath with ⟨-, heq⟩ | ⟨p, i, -, -, -, heq⟩ |
    ⟨p, q, i, hp, hq, hpi, hfree, -, hstate⟩ | ⟨p, q, i, j, hp, hq, hpi, hqj, -, -, hstate⟩
  · rw [heq]
    exact hk
  · rw [heq]
    exact hk
  · have hinp := hinside hc hp hpi (by simp)
    refine hk.enter hdirs (fs.resolve_makeable hq hfree).1 (hinside hc' hq hfree (by simp))
      (fun r => by rw [hstate]) (fun r _ => unlink_or (Fs.ne_nil_of_file hpi) hinp r)
      (fun r j _ => by rw [hstate]; rfl) fun h hmem => ?_
    rw [hstate] at hmem
    exact Or.inl hmem
  · have hinp := hinside hc hp hpi (by simp)
    have hinq := hinside hc' hq hqj (by simp)
    have hqne := Fs.ne_nil_of_file hqj
    refine hk.enter hdirs hqne hinq (fun r => by rw [hstate]) (fun r _ => ?_)
      (fun r j _ => by rw [hstate]; rfl) fun h hmem => ?_
    · rcases unlink_or (g := fs.unlink q) (Fs.ne_nil_of_file hpi) hinp r with hsame | hgone
      · rcases unlink_or (g := fs.toFsState) hqne hinq r with hsame' | ⟨hnone, hin⟩
        · exact Or.inl (hsame.trans hsame')
        · exact Or.inr ⟨hsame.trans hnone, hin⟩
      · exact Or.inr hgone
    · rw [hstate] at hmem
      exact Or.inl hmem

/-- **A confined call keeps what is outside.** -/
theorem Kept.answer (hk : Kept u fs₀ fs) (fault : Bool) (hc : Confined u fs c) :
    Kept u fs₀ (c.answer fault fs).2 := by
  cases c with
  | stat path => exact hk
  | fileSize path => exact hk
  | list path => exact hk
  | createDirectory path => exact hc.elim
  | openRead path => exact hk.openRead fault hc
  | read h n =>
      simp only [FileCall.answer, Fs.read]
      split
      · exact hk
      · split
        · exact hk
        · rename_i hh
          exact hk.seek (fs.wf.handle_lt _ (List.mem_of_getElem? hh)) ⟨_, hh⟩ fun _ _ => rfl
  | write h b =>
      simp only [FileCall.answer, Fs.write]
      split
      · exact hk
      · split
        · exact hk
        · rename_i hh
          exact hk.seek (fs.wf.handle_lt _ (List.mem_of_getElem? hh)) ⟨_, hh⟩
            fun _ hj => Function.update_of_ne hj ..
  | openWrite path =>
      simp only [FileCall.answer]
      split
      · exact hk
      · exact hk.openWrite hc
  | remove path =>
      simp only [FileCall.answer]
      split
      · exact hk
      · exact hk.remove hc
  | rename path newPath =>
      simp only [FileCall.answer]
      split
      · exact hk
      · exact hk.rename hc.1 hc.2

/-! ## Two stores with the same folder -/

/-- The same kind of entry, with inodes that correspond. -/
inductive Node.Rel (ρ : Nat → Nat → Prop) : Node → Node → Prop
  | dir : Rel ρ .dir .dir
  | file {i j : Nat} (h : ρ i j) : Rel ρ (.file i) (.file j)

theorem Node.Rel.cases_on {ρ : Nat → Nat → Prop} {a b : Option Node}
    (h : Option.Rel (Node.Rel ρ) a b) :
    (a = none ∧ b = none) ∨ (a = some .dir ∧ b = some .dir) ∨
      ∃ i j, ρ i j ∧ a = some (.file i) ∧ b = some (.file j) := by
  cases h with
  | none => exact Or.inl ⟨rfl, rfl⟩
  | some h =>
      cases h with
      | dir => exact Or.inr (Or.inl ⟨rfl, rfl⟩)
      | file h => exact Or.inr (Or.inr ⟨_, _, h, rfl, rfl⟩)

/-- Two file systems have the same entries below `D`, in the same order and with the same contents,
    and the same open files; `ρ` says which inodes correspond. -/
structure Agree (D : Path) (ρ : Nat → Nat → Prop) (fs fs' : FsState) : Prop where
  names : ∀ q, D <+: q → Option.Rel (Node.Rel ρ) (fs.node q) (fs'.node q)
  order : fs'.entries.keys.filter (fun q => D <+: q) = fs.entries.keys.filter fun q => D <+: q
  data : ∀ i j, ρ i j → fs'.data j = fs.data i
  left : ∀ i j j', ρ i j → ρ i j' → j = j'
  right : ∀ i i' j, ρ i j → ρ i' j → i = i'
  bound : ∀ i j, ρ i j → i < fs.nextInode ∧ j < fs'.nextInode
  handles : List.Forall₂ (fun h h' => ρ h.1 h'.1 ∧ h.2 = h'.2) fs.handles fs'.handles

theorem forall₂_set {α β : Type} {R : α → β → Prop} {l : List α} {l' : List β} {a : α} {b : β}
    (h : List.Forall₂ R l l') (hab : R a b) (n : Nat) : List.Forall₂ R (l.set n a) (l'.set n b) := by
  induction h generalizing n with
  | nil => exact .nil
  | cons hx hl ih =>
      cases n with
      | zero => exact .cons hab hl
      | succ n => exact .cons hx (ih n)

theorem forall₂_getElem? {α β : Type} {R : α → β → Prop} {l : List α} {l' : List β}
    (h : List.Forall₂ R l l') (n : Nat) : Option.Rel R l[n]? l'[n]? := by
  induction h generalizing n with
  | nil => exact .none
  | cons hx hl ih =>
      cases n with
      | zero => exact .some hx
      | succ n => exact ih n

section

variable {ρ : Nat → Nat → Prop} {g g' : FsState}

theorem Agree.openInode (hag : Agree D ρ g g') (hij : ρ i j) :
    Agree D ρ (g.openInode i) (g'.openInode j) :=
  { hag with handles := List.rel_append hag.handles (.cons ⟨hij, rfl⟩ .nil) }

theorem Agree.setHandle (hag : Agree D ρ g g') (hij : ρ i j) (handle off : Nat) :
    Agree D ρ { g with handles := g.handles.set handle (i, off) }
      { g' with handles := g'.handles.set handle (j, off) } :=
  { hag with handles := forall₂_set hag.handles (a := (i, off)) (b := (j, off)) ⟨hij, rfl⟩ handle }

theorem Agree.setData (hag : Agree D ρ g g') (hij : ρ i j) (d : Buffer) :
    Agree D ρ { g with data := Function.update g.data i d }
      { g' with data := Function.update g'.data j d } := by
  refine { hag with data := fun i' j' hij' => ?_ }
  show Function.update g'.data j d j' = Function.update g.data i d i'
  by_cases hi : i' = i
  · subst hi
    rw [hag.left _ _ _ hij' hij, Function.update_self, Function.update_self]
  · have hj : j' ≠ j := by
      rintro rfl
      exact hi (hag.right _ _ _ hij' hij)
    rw [Function.update_of_ne hi, Function.update_of_ne hj, hag.data _ _ hij']

theorem Agree.enter (hag : Agree D ρ g g') {p : Path} (hp : p ≠ []) (hij : ρ i j) :
    Agree D ρ (g.enter p (.file i)) (g'.enter p (.file j)) := by
  refine { hag with names := fun q hq => ?_, order := ?_ }
  · rw [FsState.node_enter _ hp, FsState.node_enter _ hp]
    by_cases hqp : q = p
    · rw [if_pos hqp, if_pos hqp]
      exact .some (.file hij)
    · rw [if_neg hqp, if_neg hqp]
      exact hag.names q hq
  · simp only [FsState.enter, AList.keys_insert, List.filter_cons, ← List.erase_filter, hag.order]

theorem Agree.unlink (hag : Agree D ρ g g') {p : Path} (hp : p ≠ []) :
    Agree D ρ (g.unlink p) (g'.unlink p) := by
  refine { hag with names := fun q hq => ?_, order := ?_ }
  · rw [FsState.node_unlink _ hp, FsState.node_unlink _ hp]
    by_cases hqp : q = p
    · rw [if_pos hqp, if_pos hqp]
      exact .none
    · rw [if_neg hqp, if_neg hqp]
      exact hag.names q hq
  · simp only [FsState.unlink, AList.keys_erase, ← List.erase_filter, hag.order]

/-- The new inodes of both correspond from now on. -/
theorem Agree.newInode (hag : Agree D ρ g g') :
    Agree D (fun i j => ρ i j ∨ (i = g.nextInode ∧ j = g'.nextInode)) g.newInode g'.newInode := by
  have hlt : ∀ i j, ρ i j → i ≠ g.nextInode ∧ j ≠ g'.nextInode := by
    intro i j hij
    have := hag.bound i j hij
    omega
  refine ⟨fun q hq => ?_, hag.order, ?_, ?_, ?_, ?_, ?_⟩
  · show Option.Rel _ (g.node q) (g'.node q)
    rcases Node.Rel.cases_on (hag.names q hq) with ⟨ha, hb⟩ | ⟨ha, hb⟩ | ⟨i, j, hij, ha, hb⟩
    · rw [ha, hb]
      exact .none
    · rw [ha, hb]
      exact .some .dir
    · rw [ha, hb]
      exact .some (.file (Or.inl hij))
  · rintro i j (hij | ⟨rfl, rfl⟩)
    · obtain ⟨hi, hj⟩ := hlt i j hij
      show Function.update g'.data g'.nextInode [] j = Function.update g.data g.nextInode [] i
      rw [Function.update_of_ne hi, Function.update_of_ne hj, hag.data i j hij]
    · show Function.update g'.data g'.nextInode [] _ = Function.update g.data g.nextInode [] _
      rw [Function.update_self, Function.update_self]
  · rintro i j j' (hij | ⟨rfl, rfl⟩) (hij' | ⟨hi, rfl⟩)
    · exact hag.left i j j' hij hij'
    · exact absurd hi (hlt i j hij).1
    · exact absurd rfl (hlt _ _ hij').1
    · rfl
  · rintro i i' j (hij | ⟨rfl, rfl⟩) (hij' | ⟨rfl, hj⟩)
    · exact hag.right i i' j hij hij'
    · exact absurd hj (hlt i j hij).2
    · exact absurd rfl (hlt _ _ hij').2
    · rfl
  · rintro i j (hij | ⟨rfl, rfl⟩)
    · have := hag.bound i j hij
      exact ⟨Nat.lt_succ_of_lt this.1, Nat.lt_succ_of_lt this.2⟩
    · exact ⟨Nat.lt_succ_self _, Nat.lt_succ_self _⟩
  · exact hag.handles.imp fun _ _ h => ⟨Or.inl h.1, h.2⟩

end

variable {ρ : Nat → Nat → Prop}

/-- The correspondence `ρ'` has that of `ρ`, and beside it only inodes from `n` on. -/
def Grows (n : Nat) (ρ ρ' : Nat → Nat → Prop) : Prop :=
  (∀ i j, ρ i j → ρ' i j) ∧ ∀ i j, ρ' i j → ρ i j ∨ n ≤ i

theorem Grows.refl (n : Nat) (ρ : Nat → Nat → Prop) : Grows n ρ ρ :=
  ⟨fun _ _ => id, fun _ _ => Or.inl⟩

/-- Above a folder that is a directory there are directories in both. -/
theorem Agree.node (hag : Agree D ρ fs.toFsState fs'.toFsState) (hD : fs.node D = some .dir)
    (hq : OnTheWay D q) : Option.Rel (Node.Rel ρ) (fs.node q) (fs'.node q) := by
  rcases hq with hq | hq
  · exact hag.names q hq
  · rcases Node.Rel.cases_on (hag.names D (List.prefix_refl D)) with
      ⟨ha, -⟩ | ⟨-, hD'⟩ | ⟨i, j, -, ha, -⟩
    · rw [hD] at ha
      cases ha
    · rw [Fs.node_of_prefix hD hq, Fs.node_of_prefix hD' hq]
      exact .some .dir
    · rw [hD] at ha
      cases ha

theorem Agree.walk (hag : Agree D ρ fs.toFsState fs'.toFsState) (hD : fs.node D = some .dir)
    {cs : List Name} (hs : fs.Stays D p cs) (hp : OnTheWay D p) : fs'.walk p cs = fs.walk p cs := by
  induction cs generalizing p with
  | nil => rfl
  | cons c cs ih =>
      rw [Fs.walk, Fs.walk]
      rcases Node.Rel.cases_on (hag.node hD hp) with ⟨ha, hb⟩ | ⟨ha, hb⟩ | ⟨i, j, hij, ha, hb⟩
      · rw [ha, hb]
      · rw [ha, hb]
        dsimp only
        split_ifs with hlen
        · rfl
        · obtain ⟨hway, hrest⟩ := hs ha (by omega)
          exact ih hrest hway
      · rw [ha, hb]

theorem Agree.resolve (hag : Agree D ρ fs.toFsState fs'.toFsState)
    (hD : fs.resolve (folderPath u) = .ok D) (hD' : fs'.resolve (folderPath u) = .ok D)
    (hf : FencedPath u fs path) : fs'.resolve path = fs.resolve path := by
  obtain ⟨name, rfl, hname⟩ := hf
  rw [filePath, Fs.resolve_below hD, Fs.resolve_below hD']
  split_ifs
  · rfl
  · by_cases hdir : fs.node D = some .dir
    · exact hag.walk hdir (hname D hD) (Or.inl (List.prefix_refl D))
    · obtain ⟨c, cs, hcs⟩ := List.exists_cons_of_ne_nil (List.splitOn_ne_nil 47 name)
      rw [hcs, Fs.walk, Fs.walk]
      rcases Node.Rel.cases_on (hag.names D (List.prefix_refl D)) with
        ⟨ha, hb⟩ | ⟨ha, -⟩ | ⟨i, j, -, ha, hb⟩
      · rw [ha, hb]
      · exact absurd ha hdir
      · rw [ha, hb]

/-- What the two stores show at a path that stays: nothing, or entries of the same kind. -/
theorem Agree.look (hag : Agree D ρ fs.toFsState fs'.toFsState)
    (hD : fs.resolve (folderPath u) = .ok D) (hD' : fs'.resolve (folderPath u) = .ok D)
    (hf : FencedPath u fs path) :
    (∃ e, fs.resolve path = .error e ∧ fs'.resolve path = .error e) ∨
      ∃ q, fs.resolve path = .ok q ∧ fs'.resolve path = .ok q ∧
        ((fs.node q = none ∧ fs'.node q = none) ∨ (fs.node q = some .dir ∧ fs'.node q = some .dir) ∨
          ∃ i j, ρ i j ∧ fs.node q = some (.file i) ∧ fs'.node q = some (.file j)) := by
  have hsame := hag.resolve hD hD' hf
  cases hr : fs.resolve path with
  | error e => exact Or.inl ⟨e, rfl, hsame.trans hr⟩
  | ok q =>
      obtain ⟨D', hD'', hdir, hway⟩ := hf.resolve hr
      rw [hD] at hD''
      cases hD''
      exact Or.inr ⟨q, rfl, hsame.trans hr, Node.Rel.cases_on (hag.node hdir hway)⟩

theorem Agree.fileType (hag : Agree D ρ fs.toFsState fs'.toFsState)
    (hD : fs.resolve (folderPath u) = .ok D) (hD' : fs'.resolve (folderPath u) = .ok D)
    (hf : path = folderPath u ∨ FencedPath u fs path) : fs'.fileType path = fs.fileType path := by
  have hnodes : ∀ q, fs.resolve path = .ok q → fs'.resolve path = .ok q →
      ((fs.node q = none ∧ fs'.node q = none) ∨ (fs.node q = some .dir ∧ fs'.node q = some .dir) ∨
        ∃ i j, ρ i j ∧ fs.node q = some (.file i) ∧ fs'.node q = some (.file j)) →
      fs'.fileType path = fs.fileType path := by
    intro q hq hq' hn
    rw [Fs.fileType_of_ok hq, Fs.fileType_of_ok hq']
    rcases hn with ⟨ha, hb⟩ | ⟨ha, hb⟩ | ⟨i, j, -, ha, hb⟩ <;> rw [ha, hb]
  rcases hf with rfl | hf
  · exact hnodes D hD hD' (Node.Rel.cases_on (hag.names D (List.prefix_refl D)))
  · rcases hag.look hD hD' hf with ⟨e, he, he'⟩ | ⟨q, hq, hq', hn⟩
    · rw [Fs.fileType, Fs.fileType, he, he']
      cases e <;> rfl
    · exact hnodes q hq hq' hn

theorem Agree.fileNames (hag : Agree D ρ fs.toFsState fs'.toFsState) :
    fs'.fileNames D = fs.fileNames D := by
  have hbelow : ∀ g : FsState, g.fileNames D =
      (g.entries.keys.filter fun q => D <+: q).filterMap fun p =>
        if p.dropLast = D ∧ g.node p ≠ some .dir then p.getLast? else none := by
    intro g
    rw [Fs.fileNames_eq, List.filterMap_filter]
    refine List.filterMap_congr fun p _ => ?_
    by_cases hp : p.dropLast = D
    · rw [if_pos (decide_eq_true (hp ▸ List.dropLast_prefix p))]
    · rw [if_neg fun h => hp h.1]
      split_ifs <;> rfl
  rw [hbelow, hbelow, hag.order]
  refine List.filterMap_congr fun p hp => ?_
  have hDp : D <+: p := by simpa using (List.mem_filter.1 hp).2
  rcases Node.Rel.cases_on (hag.names p hDp) with ⟨ha, hb⟩ | ⟨ha, hb⟩ | ⟨i, j, -, ha, hb⟩
  · rw [ha, hb]
  · rw [ha, hb]
  · rw [ha, hb]
    simp

theorem Agree.openWrite (hag : Agree D ρ fs.toFsState fs'.toFsState)
    (hD : fs.resolve (folderPath u) = .ok D) (hD' : fs'.resolve (folderPath u) = .ok D)
    (hf : FencedPath u fs path) : (fs'.openWrite path).1 = (fs.openWrite path).1 ∧
      ∃ ρ', Grows fs.nextInode ρ ρ' ∧
        Agree D ρ' (fs.openWrite path).2.toFsState (fs'.openWrite path).2.toFsState := by
  have hfail : ∀ {g : Fs}, (∀ p, g.resolve path = .ok p → g.node p = some .dir) →
      g.openWrite path = (none, g) := fun h => Fs.openWrite_fail h
  rcases hag.look hD hD' hf with ⟨e, he, he'⟩ | ⟨q, hq, hq', hn⟩
  · rw [hfail (g := fs) (fun p hp => by rw [he] at hp; cases hp),
      hfail (g := fs') fun p hp => by rw [he'] at hp; cases hp]
    exact ⟨rfl, ρ, .refl _ ρ, hag⟩
  · rcases hn with ⟨ha, hb⟩ | ⟨ha, hb⟩ | ⟨i, j, hij, ha, hb⟩
    · obtain ⟨h₁, h₂⟩ := Fs.openWrite_free hq ha
      obtain ⟨h₁', h₂'⟩ := Fs.openWrite_free hq' hb
      refine ⟨by rw [h₁, h₁', hag.handles.length_eq],
        fun i j => ρ i j ∨ (i = fs.nextInode ∧ j = fs'.nextInode),
        ⟨fun _ _ => Or.inl, fun _ _ h => h.imp_right fun h => Nat.le_of_eq h.1.symm⟩, ?_⟩
      rw [h₂, h₂']
      exact (hag.newInode.enter (fs.resolve_makeable hq ha).1 (Or.inr ⟨rfl, rfl⟩)).openInode
        (Or.inr ⟨rfl, rfl⟩)
    · rw [hfail (g := fs) fun p hp => by rw [hq] at hp; cases hp; exact ha,
        hfail (g := fs') fun p hp => by rw [hq'] at hp; cases hp; exact hb]
      exact ⟨rfl, ρ, .refl _ ρ, hag⟩
    · obtain ⟨h₁, h₂⟩ := Fs.openWrite_file hq ha
      obtain ⟨h₁', h₂'⟩ := Fs.openWrite_file hq' hb
      refine ⟨by rw [h₁, h₁', hag.handles.length_eq], ρ, .refl _ ρ, ?_⟩
      rw [h₂, h₂']
      exact (hag.setData hij []).openInode hij

theorem Agree.remove (hag : Agree D ρ fs.toFsState fs'.toFsState)
    (hD : fs.resolve (folderPath u) = .ok D) (hD' : fs'.resolve (folderPath u) = .ok D)
    (hf : FencedPath u fs path) : (fs'.remove path).1 = (fs.remove path).1 ∧
      ∃ ρ', Grows fs.nextInode ρ ρ' ∧
        Agree D ρ' (fs.remove path).2.toFsState (fs'.remove path).2.toFsState := by
  have hfail : ∀ {g : Fs}, (∀ q, g.resolve path = .ok q → ∀ i, g.node q ≠ some (.file i)) →
      g.remove path = (false, g) := fun h => Fs.remove_fail fun p i hp => h p hp i
  rcases hag.look hD hD' hf with ⟨e, he, he'⟩ | ⟨q, hq, hq', hn⟩
  · rw [hfail (g := fs) (fun p hp => by rw [he] at hp; cases hp),
      hfail (g := fs') fun p hp => by rw [he'] at hp; cases hp]
    exact ⟨rfl, ρ, .refl _ ρ, hag⟩
  · rcases hn with ⟨ha, hb⟩ | ⟨ha, hb⟩ | ⟨i, j, hij, ha, hb⟩
    · rw [hfail (g := fs) fun p hp => by rw [hq] at hp; cases hp; simp [ha],
        hfail (g := fs') fun p hp => by rw [hq'] at hp; cases hp; simp [hb]]
      exact ⟨rfl, ρ, .refl _ ρ, hag⟩
    · rw [hfail (g := fs) fun p hp => by rw [hq] at hp; cases hp; simp [ha],
        hfail (g := fs') fun p hp => by rw [hq'] at hp; cases hp; simp [hb]]
      exact ⟨rfl, ρ, .refl _ ρ, hag⟩
    · obtain ⟨h₁, h₂⟩ := Fs.remove_file hq ha
      obtain ⟨h₁', h₂'⟩ := Fs.remove_file hq' hb
      refine ⟨by rw [h₁, h₁'], ρ, .refl _ ρ, ?_⟩
      rw [h₂, h₂']
      exact hag.unlink (Fs.ne_nil_of_file ha)

theorem Agree.rename (hag : Agree D ρ fs.toFsState fs'.toFsState)
    (hD : fs.resolve (folderPath u) = .ok D) (hD' : fs'.resolve (folderPath u) = .ok D)
    (hf : FencedPath u fs path) (hf' : FencedPath u fs newPath) :
    (fs'.rename path newPath).1 = (fs.rename path newPath).1 ∧
      ∃ ρ', Grows fs.nextInode ρ ρ' ∧
        Agree D ρ' (fs.rename path newPath).2.toFsState (fs'.rename path newPath).2.toFsState := by
  have hfail : (∀ p q i, fs.resolve path = .ok p → fs.resolve newPath = .ok q →
      fs.node p = some (.file i) → fs.node q = some .dir) →
      (∀ p q i, fs'.resolve path = .ok p → fs'.resolve newPath = .ok q →
        fs'.node p = some (.file i) → fs'.node q = some .dir) →
      (fs'.rename path newPath).1 = (fs.rename path newPath).1 ∧
        ∃ ρ', Grows fs.nextInode ρ ρ' ∧ Agree D ρ' (fs.rename path newPath).2.toFsState
          (fs'.rename path newPath).2.toFsState := by
    intro h h'
    rw [Fs.rename_fail h, Fs.rename_fail h']
    exact ⟨rfl, ρ, .refl _ ρ, hag⟩
  rcases hag.look hD hD' hf with ⟨e, he, he'⟩ | ⟨p, hp, hp', hn⟩
  · exact hfail (fun p q i hp => by rw [he] at hp; cases hp) fun p q i hp => by rw [he'] at hp; cases hp
  rcases hag.look hD hD' hf' with ⟨e, he, he'⟩ | ⟨q, hq, hq', hn'⟩
  · exact hfail (fun p q i _ hq => by rw [he] at hq; cases hq)
      fun p q i _ hq => by rw [he'] at hq; cases hq
  rcases hn with ⟨ha, hb⟩ | ⟨ha, hb⟩ | ⟨i, j, hij, ha, hb⟩
  · exact hfail (fun p' q' i hp₁ _ hi => by rw [hp] at hp₁; cases hp₁; rw [ha] at hi; cases hi)
      fun p' q' i hp₁ _ hi => by rw [hp'] at hp₁; cases hp₁; rw [hb] at hi; cases hi
  · exact hfail (fun p' q' i hp₁ _ hi => by rw [hp] at hp₁; cases hp₁; rw [ha] at hi; cases hi)
      fun p' q' i hp₁ _ hi => by rw [hp'] at hp₁; cases hp₁; rw [hb] at hi; cases hi
  have hpne := Fs.ne_nil_of_file ha
  rcases hn' with ⟨hc, hd⟩ | ⟨hc, hd⟩ | ⟨k, l, hkl, hc, hd⟩
  · obtain ⟨h₁, h₂⟩ := Fs.rename_free hp hq ha hc
    obtain ⟨h₁', h₂'⟩ := Fs.rename_free hp' hq' hb hd
    refine ⟨by rw [h₁, h₁'], ρ, .refl _ ρ, ?_⟩
    rw [h₂, h₂']
    exact (hag.unlink hpne).enter (fs.resolve_makeable hq hc).1 hij
  · exact hfail (fun p' q' i _ hq₁ _ => by rw [hq] at hq₁; cases hq₁; exact hc)
      fun p' q' i _ hq₁ _ => by rw [hq'] at hq₁; cases hq₁; exact hd
  · by_cases hpq : p = q
    · subst hpq
      rw [Fs.rename_same hp hq ha, Fs.rename_same hp' hq' hb]
      exact ⟨rfl, ρ, .refl _ ρ, hag⟩
    · obtain ⟨h₁, h₂⟩ := Fs.rename_over hp hq ha hc hpq
      obtain ⟨h₁', h₂'⟩ := Fs.rename_over hp' hq' hb hd hpq
      refine ⟨by rw [h₁, h₁'], ρ, .refl _ ρ, ?_⟩
      rw [h₂, h₂']
      exact ((hag.unlink (Fs.ne_nil_of_file hc)).unlink hpne).enter (Fs.ne_nil_of_file hc) hij

theorem Agree.inodeAt (hag : Agree D ρ fs.toFsState fs'.toFsState)
    (hD : fs.resolve (folderPath u) = .ok D) (hD' : fs'.resolve (folderPath u) = .ok D)
    (hf : FencedPath u fs path) : (fs.inodeAt path = none ∧ fs'.inodeAt path = none) ∨
      ∃ i j hi hj, ρ i j ∧ fs.inodeAt path = some ⟨i, hi⟩ ∧ fs'.inodeAt path = some ⟨j, hj⟩ := by
  have hnone : ∀ {g : Fs}, (∀ q, g.resolve path = .ok q → ∀ i, g.node q ≠ some (.file i)) →
      g.inodeAt path = none := fun h => Fs.inodeAt_of_not_file fun p i hp => h p hp i
  rcases hag.look hD hD' hf with ⟨e, he, he'⟩ | ⟨q, hq, hq', hn⟩
  · exact Or.inl ⟨hnone (fun p hp => by rw [he] at hp; cases hp),
      hnone fun p hp => by rw [he'] at hp; cases hp⟩
  · rcases hn with ⟨ha, hb⟩ | ⟨ha, hb⟩ | ⟨i, j, hij, ha, hb⟩
    · exact Or.inl ⟨hnone fun p hp => by rw [hq] at hp; cases hp; simp [ha],
        hnone fun p hp => by rw [hq'] at hp; cases hp; simp [hb]⟩
    · exact Or.inl ⟨hnone fun p hp => by rw [hq] at hp; cases hp; simp [ha],
        hnone fun p hp => by rw [hq'] at hp; cases hp; simp [hb]⟩
    · obtain ⟨hi, hinode⟩ := Fs.inodeAt_of_file hq ha
      obtain ⟨hj, hinode'⟩ := Fs.inodeAt_of_file hq' hb
      exact Or.inr ⟨i, j, hi, hj, hij, hinode, hinode'⟩

theorem Agree.handle (hag : Agree D ρ fs.toFsState fs'.toFsState) (handle : Nat) :
    (fs.handles[handle]? = none ∧ fs'.handles[handle]? = none) ∨
      ∃ i j off, ρ i j ∧ fs.handles[handle]? = some (i, off) ∧ fs'.handles[handle]? = some (j, off) := by
  have hrel := forall₂_getElem? hag.handles handle
  generalize fs.handles[handle]? = a at hrel ⊢
  generalize fs'.handles[handle]? = b at hrel ⊢
  cases hrel with
  | none => exact Or.inl ⟨rfl, rfl⟩
  | @some e e' hrel =>
      obtain ⟨i, off⟩ := e
      obtain ⟨j, off'⟩ := e'
      obtain ⟨hij, rfl⟩ : ρ i j ∧ off = off' := hrel
      exact Or.inr ⟨i, j, off, hij, rfl, rfl⟩

/-- **Two stores with the same folder answer a confined call alike**, and keep the same folder. -/
theorem Agree.answer (hag : Agree D ρ fs.toFsState fs'.toFsState)
    (hD : fs.resolve (folderPath u) = .ok D) (hD' : fs'.resolve (folderPath u) = .ok D)
    (hc : Confined u fs c) (fault : Bool) : (c.answer fault fs').1 = (c.answer fault fs).1 ∧
      ∃ ρ', Grows fs.nextInode ρ ρ' ∧
        Agree D ρ' (c.answer fault fs).2.toFsState (c.answer fault fs').2.toFsState := by
  cases fault with
  | true => cases c <;> exact ⟨rfl, ρ, .refl _ ρ, hag⟩
  | false =>
      cases c with
      | stat path => exact ⟨hag.fileType hD hD' hc, ρ, .refl _ ρ, hag⟩
      | createDirectory path => exact hc.elim
      | fileSize path =>
          refine ⟨?_, ρ, .refl _ ρ, hag⟩
          simp only [FileCall.answer, Bool.false_eq_true, if_false]
          rcases hag.inodeAt hD hD' hc with ⟨ha, hb⟩ | ⟨i, j, hi, hj, hij, ha, hb⟩
          · rw [ha, hb]
            rfl
          · rw [ha, hb]
            exact congrArg (fun b : Buffer => some b.length) (hag.data i j hij)
      | list path =>
          refine ⟨?_, ρ, .refl _ ρ, hag⟩
          obtain rfl : path = folderPath u := hc
          simp only [FileCall.answer, Bool.false_eq_true, if_false, Fs.list, hD, hD', hag.fileNames]
          rcases Node.Rel.cases_on (hag.names D (List.prefix_refl D)) with
            ⟨ha, hb⟩ | ⟨ha, hb⟩ | ⟨i, j, -, ha, hb⟩ <;> rw [ha, hb]
          · simp
      | openRead path =>
          simp only [FileCall.answer, Bool.false_eq_true, if_false]
          rcases hag.inodeAt hD hD' hc with ⟨ha, hb⟩ | ⟨i, j, hi, hj, hij, ha, hb⟩
          · rw [ha, hb]
            exact ⟨rfl, ρ, .refl _ ρ, hag⟩
          · rw [ha, hb]
            exact ⟨congrArg some hag.handles.length_eq.symm, ρ, .refl _ ρ, hag.openInode hij⟩
      | read handle n =>
          simp only [FileCall.answer, Bool.false_eq_true, if_false]
          rcases hag.handle handle with ⟨hh, hh'⟩ | ⟨i, j, off, hij, hh, hh'⟩
          · rw [Fs.read_none hh, Fs.read_none hh']
            exact ⟨rfl, ρ, .refl _ ρ, hag⟩
          · obtain ⟨h₁, h₂⟩ := Fs.read_some hh n
            obtain ⟨h₁', h₂'⟩ := Fs.read_some hh' n
            rw [h₁, h₁', h₂, h₂', hag.data i j hij]
            exact ⟨rfl, ρ, .refl _ ρ, hag.setHandle hij handle _⟩
      | write handle b =>
          simp only [FileCall.answer, Bool.false_eq_true, if_false]
          rcases hag.handle handle with ⟨hh, hh'⟩ | ⟨i, j, off, hij, hh, hh'⟩
          · rw [Fs.write_none hh, Fs.write_none hh']
            exact ⟨rfl, ρ, .refl _ ρ, hag⟩
          · obtain ⟨h₁, h₂⟩ := Fs.write_some hh b
            obtain ⟨h₁', h₂'⟩ := Fs.write_some hh' b
            rw [h₁, h₁', h₂, h₂', hag.data i j hij]
            exact ⟨rfl, ρ, .refl _ ρ, (hag.setData hij _).setHandle hij handle _⟩
      | openWrite path =>
          simp only [FileCall.answer, Bool.false_eq_true, if_false]
          exact hag.openWrite hD hD' hc
      | remove path =>
          simp only [FileCall.answer, Bool.false_eq_true, if_false]
          exact hag.remove hD hD' hc
      | rename path newPath =>
          simp only [FileCall.answer, Bool.false_eq_true, if_false]
          exact hag.rename hD hD' hc.1 hc.2

/-! ## The folder of a user in two stores -/

/-- The folder of `u` is the same in both, or cannot be looked up in either. -/
def SameFolder (u : Buffer) (fs fs' : Fs) : Prop :=
  (∃ D ρ, fs.resolve (folderPath u) = .ok D ∧ fs'.resolve (folderPath u) = .ok D ∧
    Agree D ρ fs.toFsState fs'.toFsState) ∨
  ∃ e, fs.resolve (folderPath u) = .error e ∧ fs'.resolve (folderPath u) = .error e ∧
    fs.handles = [] ∧ fs'.handles = []

/-- Where there is no folder, no path below it leads anywhere. -/
theorem FencedPath.error {e : LookupError} (he : fs.resolve (folderPath u) = .error e)
    (hf : FencedPath u fs path) : ∃ name, path = filePath u name ∧ fs.resolve path =
      if 4096 ≤ path.length then .error .nameTooLong else .error e := by
  obtain ⟨name, rfl, -⟩ := hf
  exact ⟨name, rfl, Fs.resolve_below_error he (folderPath_ne_nil u) name⟩

/-- A store without the folder answers every confined call with a failure that depends on the path
    alone, and stays as it is. -/
theorem answer_without_folder {e : LookupError} (he : fs.resolve (folderPath u) = .error e)
    (he' : fs'.resolve (folderPath u) = .error e) (hh : fs.handles = []) (hh' : fs'.handles = [])
    (hc : Confined u fs c) (fault : Bool) :
    (c.answer fault fs').1 = (c.answer fault fs).1 ∧ (c.answer fault fs).2 = fs ∧
      (c.answer fault fs').2 = fs' := by
  -- a path into the folder fails alike in both stores
  have hpath : ∀ path, FencedPath u fs path →
      ∃ e, fs.resolve path = .error e ∧ fs'.resolve path = .error e := by
    intro path hf
    obtain ⟨name, hname, hr⟩ := hf.error he
    have hr' : fs'.resolve path = if 4096 ≤ path.length then .error .nameTooLong else .error e := by
      subst hname
      exact Fs.resolve_below_error he' (folderPath_ne_nil u) name
    by_cases hlong : 4096 ≤ path.length
    · rw [if_pos hlong] at hr hr'
      exact ⟨_, hr, hr'⟩
    · rw [if_neg hlong] at hr hr'
      exact ⟨_, hr, hr'⟩
  have hlost : ∀ {g : Fs} {path : Buffer}, (∃ e, g.resolve path = .error e) →
      g.inodeAt path = none ∧ g.openWrite path = (none, g) ∧ g.remove path = (false, g) := by
    rintro g path ⟨e, hr⟩
    exact ⟨Fs.inodeAt_of_not_file (fun p i hp => by rw [hr] at hp; cases hp),
      Fs.openWrite_fail (fun p hp => by rw [hr] at hp; cases hp),
      Fs.remove_fail fun p i hp => by rw [hr] at hp; cases hp⟩
  -- no file is open
  have hnone : ∀ {g : Fs}, g.handles = [] → ∀ handle : Nat, g.handles[handle]? = none := by
    intro g hg handle
    rw [hg]
    rfl
  have hstuck : ∀ {g : Fs} {path newPath : Buffer}, (∃ e, g.resolve path = .error e) →
      g.rename path newPath = (false, g) := by
    rintro g path newPath ⟨e, hr⟩
    exact Fs.rename_fail fun p q i hp => by rw [hr] at hp; cases hp
  cases fault with
  | true => cases c <;> exact ⟨rfl, rfl, rfl⟩
  | false =>
      cases c with
      -- no session makes a directory there
      | createDirectory path => exact hc.elim
      | stat path =>
          refine ⟨?_, rfl, rfl⟩
          have hboth : ∃ e, fs.resolve path = .error e ∧ fs'.resolve path = .error e := by
            rcases hc with rfl | hf
            · exact ⟨e, he, he'⟩
            · exact hpath path hf
          obtain ⟨e₁, h₁, h₁'⟩ := hboth
          simp only [FileCall.answer, Bool.false_eq_true, if_false, Fs.fileType, h₁, h₁']
          cases e₁ <;> rfl
      | list path =>
          refine ⟨?_, rfl, rfl⟩
          obtain rfl : path = folderPath u := hc
          simp only [FileCall.answer, Bool.false_eq_true, if_false, Fs.list, he, he']
      | fileSize path =>
          obtain ⟨e₁, h₁, h₁'⟩ := hpath path hc
          simp only [FileCall.answer, Bool.false_eq_true, if_false, (hlost ⟨e₁, h₁⟩).1,
            (hlost ⟨e₁, h₁'⟩).1]
          exact ⟨rfl, trivial, trivial⟩
      | openRead path =>
          obtain ⟨e₁, h₁, h₁'⟩ := hpath path hc
          simp only [FileCall.answer, Bool.false_eq_true, if_false, (hlost ⟨e₁, h₁⟩).1,
            (hlost ⟨e₁, h₁'⟩).1]
          exact ⟨trivial, trivial, trivial⟩
      | read handle n =>
          simp only [FileCall.answer, Bool.false_eq_true, if_false]
          rw [Fs.read_none (hnone hh handle), Fs.read_none (hnone hh' handle)]
          exact ⟨rfl, rfl, rfl⟩
      | write handle b =>
          simp only [FileCall.answer, Bool.false_eq_true, if_false]
          rw [Fs.write_none (hnone hh handle), Fs.write_none (hnone hh' handle)]
          exact ⟨rfl, rfl, rfl⟩
      | openWrite path =>
          obtain ⟨e₁, h₁, h₁'⟩ := hpath path hc
          simp only [FileCall.answer, Bool.false_eq_true, if_false, (hlost ⟨e₁, h₁⟩).2.1,
            (hlost ⟨e₁, h₁'⟩).2.1]
          exact ⟨trivial, trivial, trivial⟩
      | remove path =>
          obtain ⟨e₁, h₁, h₁'⟩ := hpath path hc
          simp only [FileCall.answer, Bool.false_eq_true, if_false, (hlost ⟨e₁, h₁⟩).2.2,
            (hlost ⟨e₁, h₁'⟩).2.2]
          exact ⟨trivial, trivial, trivial⟩
      | rename path newPath =>
          obtain ⟨e₁, h₁, h₁'⟩ := hpath path hc.1
          simp only [FileCall.answer, Bool.false_eq_true, if_false]
          rw [hstuck ⟨e₁, h₁⟩, hstuck ⟨e₁, h₁'⟩]
          exact ⟨rfl, rfl, rfl⟩

theorem Confined.ne_createDirectory (hc : Confined u fs c) (path : Buffer) :
    c ≠ .createDirectory path := by
  rintro rfl
  exact hc

/-- **Stores with the same folder answer a confined call alike.** -/
theorem SameFolder.answer (hs : SameFolder u fs fs') (hc : Confined u fs c) (fault : Bool) :
    (c.answer fault fs').1 = (c.answer fault fs).1 ∧
      SameFolder u (c.answer fault fs).2 (c.answer fault fs').2 := by
  rcases hs with ⟨D, ρ, hD, hD', hag⟩ | ⟨e, he, he', hh, hh'⟩
  · obtain ⟨hsame, ρ', -, hag'⟩ := hag.answer hD hD' hc fault
    have hdirs := Fs.answer_sameDirs fault fs hc.ne_createDirectory
    have hdirs' := Fs.answer_sameDirs fault fs' hc.ne_createDirectory
    exact ⟨hsame, Or.inl ⟨D, ρ', hdirs.resolve.2 hD, hdirs'.resolve.2 hD', hag'⟩⟩
  · obtain ⟨hsame, hfs, hfs'⟩ := answer_without_folder he he' hh hh' hc fault
    rw [hfs, hfs']
    exact ⟨hsame, Or.inr ⟨e, he, he', hh, hh'⟩⟩

end

end CloudStorage
