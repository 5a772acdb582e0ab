import CloudStorage.Names
import CloudStorage.Addresses

set_option autoImplicit false

/-! # Tenants of one server

Sessions of several users run on one store, in any interleaving. What the others do is not to be seen by
a user whose sessions are among them: take all calls of the others out of the run, and the sessions of
the user do the same, with the same answers, and leave the same folder (`Screened`).

A call of another user leaves the folder alone (`LeftAlone`). A call of the user is answered alike on the
two stores, which agree on the folder and on the open files up to the numbers of the inodes. -/

namespace CloudStorage

open Interaction Interaction.Program Interaction.Routine Handshake

open Worker (folderPath filePath)

/-! ## Calls elsewhere -/

/-- Nothing below `D` has changed, nor the contents of the inodes in `M`, and none of these has a new name
    or is open now if none was. -/
structure LeftAlone (D : Path) (M : Nat → Prop) (g g' : FsState) : Prop where
  names : ∀ q, D <+: q → g'.node q = g.node q
  order : g'.entries.keys.filter (fun q => D <+: q) = g.entries.keys.filter fun q => D <+: q
  data : ∀ i, M i → g'.data i = g.data i
  next : g.nextInode ≤ g'.nextInode
  named : ∀ i, M i → ∀ q, g'.node q = some (.file i) → g.node q = some (.file i)
  held : (∀ h ∈ g.handles, ¬M h.1) → ∀ h ∈ g'.handles, ¬M h.1

namespace LeftAlone

variable {D p : Path} {M : Nat → Prop} {g g' g'' : FsState} {i : Nat}

theorem refl (D : Path) (M : Nat → Prop) (g : FsState) : LeftAlone D M g g where
  names := fun _ _ => rfl
  order := rfl
  data := fun _ _ => rfl
  next := Nat.le_refl _
  named := fun _ _ _ => id
  held := id

theorem trans (h : LeftAlone D M g g') (h' : LeftAlone D M g' g'') : LeftAlone D M g g'' where
  names := fun q hq => (h'.names q hq).trans (h.names q hq)
  order := h'.order.trans h.order
  data := fun i hi => (h'.data i hi).trans (h.data i hi)
  next := Nat.le_trans h.next h'.next
  named := fun i hi q hq => h.named i hi q (h'.named i hi q hq)
  held := fun hnone => h'.held (h.held hnone)

theorem enter (hp : p ≠ []) (hout : ¬D <+: p) (hi : ¬M i) : LeftAlone D M g (g.enter p (.file i)) where
  names := by
    intro q hq
    rw [FsState.node_enter _ hp, if_neg]
    rintro rfl
    exact hout hq
  order := by
    have hnot : p ∉ g.entries.keys.filter fun q => D <+: q := by simp [hout]
    simp only [FsState.enter, AList.keys_insert, List.filter_cons, ← List.erase_filter, hout,
      decide_false, Bool.false_eq_true, if_false]
    exact @List.erase_of_not_mem _ instBEqOfDecidableEq _ _ _ hnot
  data := fun _ _ => rfl
  next := Nat.le_refl _
  named := by
    intro j hj q hq
    rw [FsState.node_enter _ hp] at hq
    split_ifs at hq with hqp
    · cases hq
      exact absurd hj hi
    · exact hq
  held := id

theorem unlink (hp : p ≠ []) (hout : ¬D <+: p) : LeftAlone D M g (g.unlink p) where
  names := by
    intro q hq
    rw [FsState.node_unlink _ hp, if_neg]
    rintro rfl
    exact hout hq
  order := by
    have hnot : p ∉ g.entries.keys.filter fun q => D <+: q := by simp [hout]
    simp only [FsState.unlink, AList.keys_erase, ← List.erase_filter]
    exact @List.erase_of_not_mem _ instBEqOfDecidableEq _ _ _ hnot
  data := fun _ _ => rfl
  next := Nat.le_refl _
  named := by
    intro j hj q hq
    rw [FsState.node_unlink _ hp] at hq
    split_ifs at hq with hqp
    exact hq
  held := id

theorem setData (hi : ¬M i) (b : Buffer) :
    LeftAlone D M g { g with data := Function.update g.data i b } where
  names := fun _ _ => rfl
  order := rfl
  data := by
    intro j hj
    refine Function.update_of_ne ?_ ..
    rintro rfl
    exact hi hj
  next := Nat.le_refl _
  named := fun _ _ _ => id
  held := id

theorem openInode (hi : ¬M i) : LeftAlone D M g (g.openInode i) where
  names := fun _ _ => rfl
  order := rfl
  data := fun _ _ => rfl
  next := Nat.le_refl _
  named := fun _ _ _ => id
  held := by
    intro hnone h hh
    rcases List.mem_append.1 hh with hold | hnew
    · exact hnone h hold
    · rw [List.mem_singleton.1 hnew]
      exact hi

theorem setHandle (hi : ¬M i) (handle off : Nat) :
    LeftAlone D M g { g with handles := g.handles.set handle (i, off) } where
  names := fun _ _ => rfl
  order := rfl
  data := fun _ _ => rfl
  next := Nat.le_refl _
  named := fun _ _ _ => id
  held := by
    intro hnone h hh
    rcases List.mem_or_eq_of_mem_set hh with hold | rfl
    · exact hnone h hold
    · exact hi

theorem newInode (hi : ¬M g.nextInode) : LeftAlone D M g g.newInode where
  names := fun _ _ => rfl
  order := rfl
  data := by
    intro j hj
    refine Function.update_of_ne ?_ ..
    rintro rfl
    exact hi hj
  next := Nat.le_succ _
  named := fun _ _ _ => id
  held := id

end LeftAlone

section

variable {w v path newPath : Buffer} {fs fs' : Fs} {D p : Path} {M : Nat → Prop} {i : Nat} {c : FileCall}

/-- The folder of `w` has nothing to do with what is below `D`, where all names of the inodes in `M`
    are. -/
structure Elsewhere (w : Buffer) (D : Path) (M : Nat → Prop) (fs : Fs) : Prop where
  apart : ∀ q, Inside w fs q → ¬D <+: q
  below : ∀ i, M i → ∀ q, fs.node q = some (.file i) → D <+: q
  old : ∀ i, M i → i < fs.nextInode
  held : ∀ h ∈ fs.handles, ¬M h.1

namespace Elsewhere

theorem not_next (h : Elsewhere w D M fs) : ¬M fs.nextInode := fun hM =>
  absurd (h.old _ hM) (Nat.lt_irrefl _)

/-- A file in the folder of `w`. -/
theorem not_file (h : Elsewhere w D M fs) (hf : FencedPath w fs path) (hr : fs.resolve path = .ok p)
    (hp : fs.node p = some (.file i)) : ¬D <+: p ∧ ¬M i := by
  have hin : Inside w fs p := hf.inside hr (by simp [hp])
  exact ⟨h.apart p hin, fun hM => h.apart p hin (h.below i hM p hp)⟩

/-- A handle of `w`. -/
theorem not_held (h : Elsewhere w D M fs) {handle off : Nat} (hh : fs.handles[handle]? = some (i, off)) :
    ¬M i := h.held _ (List.mem_of_getElem? hh)

theorem openWrite (h : Elsewhere w D M fs) (hf : FencedPath w fs path) :
    LeftAlone D M fs.toFsState (fs.openWrite path).2.toFsState := by
  by_cases hfail : ∀ p, fs.resolve path = .ok p → fs.node p = some .dir
  · rw [Fs.openWrite_fail hfail]
    exact .refl ..
  · push Not at hfail
    obtain ⟨p, hr, hdir⟩ := hfail
    cases hp : fs.node p with
    | none =>
        have hout : ¬D <+: p := h.apart p (hf.inside hr hdir)
        rw [(Fs.openWrite_free hr hp).2]
        exact ((LeftAlone.newInode h.not_next).trans
          (.enter (fs.resolve_makeable hr hp).1 hout h.not_next)).trans (.openInode h.not_next)
    | some n =>
        cases n with
        | dir => exact absurd hp hdir
        | file i =>
            have hi := (h.not_file hf hr hp).2
            rw [(Fs.openWrite_file hr hp).2]
            exact (LeftAlone.setData hi []).trans (.openInode hi)

theorem remove (h : Elsewhere w D M fs) (hf : FencedPath w fs path) :
    LeftAlone D M fs.toFsState (fs.remove path).2.toFsState := by
  by_cases hfile : ∃ p i, fs.resolve path = .ok p ∧ fs.node p = some (.file i)
  · obtain ⟨p, i, hr, hp⟩ := hfile
    rw [(Fs.remove_file hr hp).2]
    exact .unlink (Fs.ne_nil_of_file hp) (h.not_file hf hr hp).1
  · rw [Fs.remove_fail fun p i hr hp => hfile ⟨p, i, hr, hp⟩]
    exact .refl ..

theorem rename (h : Elsewhere w D M fs) (hf : FencedPath w fs path) (hf' : FencedPath w fs newPath) :
    LeftAlone D M fs.toFsState (fs.rename path newPath).2.toFsState := by
  rcases Fs.rename_cases fs path newPath with ⟨-, heq⟩ | ⟨p, i, -, -, -, heq⟩ |
    ⟨p, q, i, hp, hq, hpi, hfree, -, hstate⟩ | ⟨p, q, i, j, hp, hq, hpi, hqj, -, -, hstate⟩
  · rw [heq]
    exact .refl ..
  · rw [heq]
    exact .refl ..
  · obtain ⟨houtp, hi⟩ := h.not_file hf hp hpi
    have houtq : ¬D <+: q := h.apart q (hf'.inside hq (by simp [hfree]))
    rw [hstate]
    exact (LeftAlone.unlink (Fs.ne_nil_of_file hpi) houtp).trans
      (.enter (fs.resolve_makeable hq hfree).1 houtq hi)
  · obtain ⟨houtp, hi⟩ := h.not_file hf hp hpi
    have houtq := (h.not_file hf' hq hqj).1
    have hqne := Fs.ne_nil_of_file hqj
    rw [hstate]
    exact ((LeftAlone.unlink hqne houtq).trans (.unlink (Fs.ne_nil_of_file hpi) houtp)).trans
      (.enter hqne houtq hi)

/-- **A call of another user leaves the folder alone.** -/
theorem answer (h : Elsewhere w D M fs) (hc : Confined w fs c) (fault : Bool) :
    LeftAlone D M fs.toFsState (c.answer fault fs).2.toFsState := by
  cases fault with
  | true => cases c <;> exact .refl ..
  | false =>
      cases c with
      | stat path => exact .refl ..
      | fileSize path => exact .refl ..
      | list path => exact .refl ..
      | createDirectory path => exact hc.elim
      | openRead path =>
          simp only [FileCall.answer, Bool.false_eq_true, if_false]
          by_cases hfile : ∃ p i, fs.resolve path = .ok p ∧ fs.node p = some (.file i)
          · obtain ⟨p, i, hr, hp⟩ := hfile
            obtain ⟨hi, hinode⟩ := Fs.inodeAt_of_file hr hp
            rw [hinode]
            exact .openInode (h.not_file hc hr hp).2
          · rw [Fs.inodeAt_of_not_file fun p i hr hp => hfile ⟨p, i, hr, hp⟩]
            exact .refl ..
      | read handle n =>
          simp only [FileCall.answer, Bool.false_eq_true, if_false]
          cases hh : fs.handles[handle]? with
          | none =>
              rw [Fs.read_none hh]
              exact .refl ..
          | some e =>
              rw [(Fs.read_some hh n).2]
              exact .setHandle (h.not_held hh) handle _
      | write handle b =>
          simp only [FileCall.answer, Bool.false_eq_true, if_false]
          cases hh : fs.handles[handle]? with
          | none =>
              rw [Fs.write_none hh]
              exact .refl ..
          | some e =>
              rw [(Fs.write_some hh b).2]
              exact (LeftAlone.setData (h.not_held hh) _).trans (.setHandle (h.not_held hh) handle _)
      | openWrite path =>
          simp only [FileCall.answer, Bool.false_eq_true, if_false]
          exact h.openWrite hc
      | remove path =>
          simp only [FileCall.answer, Bool.false_eq_true, if_false]
          exact h.remove hc
      | rename path newPath =>
          simp only [FileCall.answer, Bool.false_eq_true, if_false]
          exact h.rename hc.1 hc.2

end Elsewhere

/-! ## Folders of two users -/

/-- The folder of a user of the list lies directly in the folder of all data. -/
theorem folder_of_listed (hw : w ∈ usernameList) (hr : fs.resolve (folderPath w) = .ok p) :
    ∃ E, fs.resolve (ascii "../data") = .ok E ∧ p = E ++ [w] := by
  have hpath : folderPath w = ascii "../data" ++ 47 :: w := by simp [folderPath, ascii]
  rw [hpath] at hr
  cases hE : fs.resolve (ascii "../data") with
  | error e =>
      rw [Fs.resolve_below_error hE (by decide)] at hr
      split_ifs at hr
  | ok E =>
      rw [Fs.resolve_below hE] at hr
      have hname : w.splitOn 47 = [w] ∧ ¬255 < w.length ∧ descend E w = E ++ [w] := by
        have hsimple : ∀ w ∈ usernameList,
            47 ∉ w ∧ ¬255 < w.length ∧ ¬(w = [] ∨ w = ascii ".") ∧ w ≠ ascii ".." := by decide
        obtain ⟨hslash, hlength, hdot, hdots⟩ := hsimple w hw
        exact ⟨List.splitOn_eq_singleton hslash, hlength, by rw [descend, if_neg hdot, if_neg hdots]⟩
      obtain ⟨hsplit, hlength, hdescend⟩ := hname
      rw [hsplit] at hr
      split_ifs at hr with hlong
      simp only [Fs.walk, if_neg hlength, hdescend] at hr
      split at hr
      · cases hr
      · cases hr
      · cases hr
        exact ⟨E, rfl, rfl⟩

/-- No place is in the folders of two users of the list. -/
theorem apart_of_listed (hw : w ∈ usernameList) (hv : v ∈ usernameList) (hne : w ≠ v)
    (hD : fs.resolve (folderPath v) = .ok D) (q : Path) (hin : Inside w fs q) : ¬D <+: q := by
  obtain ⟨D', hD', hq'⟩ := hin
  obtain ⟨E, hE, rfl⟩ := folder_of_listed hv hD
  obtain ⟨E', hE', rfl⟩ := folder_of_listed hw hD'
  rw [hE] at hE'
  cases hE'
  intro hq
  -- two prefixes of one length
  have hsame := (List.prefix_of_prefix_length_le hq' hq (by simp)).eq_of_length (by simp)
  exact hne (List.singleton_inj.1 (List.append_cancel_left hsame))

end

/-! ## What a session may call -/

section

variable {u : Buffer} {fs fs' : Fs} {h : Host} {t : List Event} {ch : Choice} {o : Sys.Op} {α : Type}

/-- Without a call for it, no directory is made. -/
theorem sameDirs_answer (hmake : ∀ path, o ≠ .sys (.file (.createDirectory path))) :
    h.fs.SameDirs (h.answer ch o).2.fs := by
  rcases Host.fs_answer h ch o with hsame | ⟨c, ho, hcall⟩
  · rw [hsame]
    exact .refl _
  · rw [hcall]
    refine Fs.answer_sameDirs _ _ fun path hc => hmake path ?_
    rw [ho, hc]

/-- A run has the notes of its host. -/
theorem notes_answer (hnotes : (reading t).notes = h.notes) :
    (reading (t ++ [⟨o, (h.answer ch o).1⟩])).notes = (h.answer ch o).2.notes := by
  rw [reading_append]
  cases o with
  | send data =>
      simp only [Host.answer, Host.put]
      split_ifs
      · exact hnotes
      · exact hnotes
      · exact hnotes
  | recv n => exact hnotes
  | sys o =>
      cases o with
      | note e => exact congrArg (· ++ [e]) hnotes
      | _ => exact hnotes

/-- The names that have been read stay, if those of the next request do. -/
theorem fenced_answer {a : Sys.Ans o} (hnotes : (reading t).notes = h.notes)
    (hok : FencedCall u h o a) (hnames : ∀ name ∈ (reading t).names, Fenced u h.fs name) :
    ∀ name ∈ (reading (t ++ [⟨o, a⟩])).names, Fenced u h.fs name := by
  rw [reading_append]
  cases o with
  | send data => exact hnames
  | recv n => exact hnames
  | sys o =>
      cases o with
      | overrun =>
          intro name hname
          rcases List.mem_append.1 hname with hold | hnew
          · exact hnames name hold
          · cases hasked : asked (reading t).notes with
            | none =>
                rw [hasked] at hnew
                cases hnew
            | some request =>
                rw [hasked] at hnew
                rw [hnotes] at hasked
                exact hok request hasked name hnew
      | _ => exact hnames

/-- A session of `u` on a store: what it has read stays in the folder, and its calls are on that. -/
def Addressable (u : Buffer) (fs : Fs) (s : Program Sys α × Seat) : Prop :=
  ∃ (t : List Event) (Q : α → List Event → Prop), s.1.Sat Traced (Addressing u) Q t ∧
    (reading t).notes = s.2.notes ∧ ∀ name ∈ (reading t).names, Fenced u fs name

theorem Addressable.kept {s : Program Sys α × Seat} (hs : Addressable u fs s) (hdirs : fs.SameDirs fs') :
    Addressable u fs' s := by
  obtain ⟨t, Q, hsat, hnotes, hnames⟩ := hs
  exact ⟨t, Q, hsat, hnotes, fun name hname => SameDirs.fenced hdirs (hnames name hname)⟩

variable {seat : Seat} {k : Sys.Ans o → Program Sys α}

theorem Addressable.confined (hs : Addressable u fs (.call o k, seat)) (call : FileCall)
    (ho : o = .sys (.file call)) : Confined u (seat.host fs).fs call := by
  obtain ⟨t, Q, hsat, -, hnames⟩ := hs
  have hguar := (hsat ((seat.host fs).answer .calm o).1 _ rfl).1 call ho
  exact hguar.confined fun name hname =>
    SameDirs.fenced (fs.view_sameDirs seat.handles) (hnames name hname)

/-- What a session may call makes no directory. -/
theorem Addressable.sameDirs (hs : Addressable u fs (.call o k, seat)) (ch : Choice) :
    fs.SameDirs (((seat.host fs).answer ch o).2.fs.view []) := by
  have hview : fs.SameDirs (seat.host fs).fs := fs.view_sameDirs seat.handles
  refine (hview.trans (sameDirs_answer fun path ho => ?_)).trans (Fs.view_sameDirs _ _)
  exact hs.confined _ ho

/-- An answered call leaves such a session. -/
theorem Addressable.step (hs : Addressable u fs (.call o k, seat))
    (hok : FencedCall u (seat.host fs) o ((seat.host fs).answer ch o).1) :
    Addressable u (((seat.host fs).answer ch o).2.fs.view [])
      (k ((seat.host fs).answer ch o).1, ((seat.host fs).answer ch o).2.seat) := by
  have hdirs := hs.sameDirs ch
  obtain ⟨t, Q, hsat, hnotes, hnames⟩ := hs
  have hview : ∀ name ∈ (reading t).names, Fenced u (seat.host fs).fs name := fun name hname =>
    SameDirs.fenced (fs.view_sameDirs seat.handles) (hnames name hname)
  refine ⟨_, Q, (hsat ((seat.host fs).answer ch o).1 _ rfl).2, notes_answer hnotes,
    fun name hname => SameDirs.fenced ?_ (fenced_answer hnotes hok hview name hname)⟩
  exact (fs.view_sameDirs seat.handles).symm.trans hdirs

end

/-! ## Two stores that agree on a folder -/

section

variable {v : Buffer} {fs fs' : Fs} {D : Path} {ρ ρ' : Nat → Nat → Prop} {g : FsState}
  {handles handles' : List (Nat × Nat)}

theorem Fs.nextInode_le_view (fs : Fs) (handles : List (Nat × Nat)) :
    fs.nextInode ≤ (fs.view handles).nextInode := by
  induction handles with
  | nil => exact Nat.le_refl _
  | cons e handles ih => exact Nat.le_trans ih (Nat.le_max_right ..)

/-- Each session sees its own open files. -/
theorem Agree.view (hag : Agree D ρ (fs.view []).toFsState (fs'.view []).toFsState)
    (hh : List.Forall₂ (fun h h' => ρ h.1 h'.1 ∧ h.2 = h'.2) handles handles') :
    Agree D ρ (fs.view handles).toFsState (fs'.view handles').toFsState where
  names := hag.names
  order := hag.order
  data := hag.data
  left := hag.left
  right := hag.right
  bound := by
    intro i j hij
    obtain ⟨hi, hj⟩ := hag.bound i j hij
    exact ⟨Nat.lt_of_lt_of_le hi (fs.nextInode_le_view handles),
      Nat.lt_of_lt_of_le hj (fs'.nextInode_le_view handles')⟩
  handles := hh

/-- The store that a session leaves is seen by the others. -/
theorem Agree.store (hag : Agree D ρ fs.toFsState fs'.toFsState) :
    Agree D ρ ((fs.view []).view []).toFsState ((fs'.view []).view []).toFsState :=
  { hag with handles := .nil }

/-- What leaves the folder alone leaves the agreement. -/
theorem Agree.leftAlone (hag : Agree D ρ (fs.view []).toFsState (fs'.view []).toFsState)
    (halone : LeftAlone D (fun i => ∃ j, ρ i j) (fs.view handles).toFsState g) :
    Agree D ρ { g with handles := [] } (fs'.view []).toFsState where
  names := by
    intro q hq
    have hsame : FsState.node { g with handles := [] } q = (fs.view []).node q := halone.names q hq
    rw [hsame]
    exact hag.names q hq
  order := hag.order.trans halone.order.symm
  data := fun i j hij => (hag.data i j hij).trans (halone.data i ⟨j, hij⟩).symm
  left := hag.left
  right := hag.right
  bound := by
    intro i j hij
    obtain ⟨hi, hj⟩ := hag.bound i j hij
    exact ⟨Nat.lt_of_lt_of_le hi (Nat.le_trans (fs.nextInode_le_view handles) halone.next), hj⟩
  handles := .nil

/-- No call gives an inode back. -/
theorem Fs.nextInode_le_answer (fs : Fs) (fault : Bool) (c : FileCall) :
    fs.nextInode ≤ (c.answer fault fs).2.nextInode := by
  have hsame : ∀ {g : FsState}, g = fs.toFsState → fs.nextInode ≤ g.nextInode := by
    rintro g rfl
    exact Nat.le_refl _
  cases fault with
  | true => cases c <;> exact Nat.le_refl _
  | false =>
      cases c with
      | stat path => exact Nat.le_refl _
      | fileSize path => exact Nat.le_refl _
      | list path => exact Nat.le_refl _
      | createDirectory path =>
          simp only [FileCall.answer, Bool.false_eq_true, if_false, Fs.createDirectory]
          split
          · exact Nat.le_refl _
          · split
            · exact Nat.le_refl _
            · exact Nat.le_refl _
            · exact Nat.le_refl _
      | openRead path =>
          simp only [FileCall.answer, Bool.false_eq_true, if_false]
          split
          · exact Nat.le_refl _
          · exact Nat.le_refl _
      | read handle n =>
          simp only [FileCall.answer, Bool.false_eq_true, if_false, Fs.read]
          split
          · exact Nat.le_refl _
          · exact Nat.le_refl _
      | write handle b =>
          simp only [FileCall.answer, Bool.false_eq_true, if_false, Fs.write]
          split
          · exact Nat.le_refl _
          · exact Nat.le_refl _
      | openWrite path =>
          simp only [FileCall.answer, Bool.false_eq_true, if_false, Fs.openWrite]
          split
          · exact Nat.le_refl _
          · split
            · exact Nat.le_refl _
            · exact Nat.le_refl _
            · exact Nat.le_succ _
      | remove path =>
          by_cases hfile : ∃ p i, fs.resolve path = .ok p ∧ fs.node p = some (.file i)
          · obtain ⟨p, i, hr, hp⟩ := hfile
            exact Nat.le_of_eq (congrArg FsState.nextInode (Fs.remove_file hr hp).2).symm
          · exact hsame (congrArg (fun r => r.2.toFsState)
              (Fs.remove_fail fun p i hr hp => hfile ⟨p, i, hr, hp⟩))
      | rename path newPath =>
          rcases Fs.rename_cases fs path newPath with ⟨-, heq⟩ | ⟨p, i, -, -, -, heq⟩ |
            ⟨p, q, i, -, -, -, -, -, hstate⟩ | ⟨p, q, i, j, -, -, -, -, -, -, hstate⟩
          · exact hsame (congrArg (fun r => r.2.toFsState) heq)
          · exact hsame (congrArg (fun r => r.2.toFsState) heq)
          · exact Nat.le_of_eq (congrArg FsState.nextInode hstate).symm
          · exact Nat.le_of_eq (congrArg FsState.nextInode hstate).symm

end

/-! ## Answered calls -/

section

variable {v : Buffer} {D : Path} {ρ : Nat → Nat → Prop} {h h' : Host} {ch : Choice} {o : Sys.Op}

theorem kept_answer (hheld : ∀ e ∈ h.fs.handles, ∀ q, h.fs.node q = some (.file e.1) → Inside v h.fs q)
    (hwall : ∀ call, o = .sys (.file call) → Confined v h.fs call) :
    Kept v h.fs (h.answer ch o).2.fs := by
  have hkept : Kept v h.fs h.fs := ⟨.refl _, fun _ _ => ⟨rfl, rfl⟩, hheld⟩
  rcases Host.fs_answer h ch o with hsame | ⟨call, ho, hcall⟩
  · rw [hsame]
    exact hkept
  · rw [hcall]
    exact hkept.answer ch.fault (hwall call ho)

theorem forall₂_mem {α β : Type} {R : α → β → Prop} {l : List α} {l' : List β} {a : α}
    (hl : List.Forall₂ R l l') (ha : a ∈ l) : ∃ b, R a b := by
  induction hl with
  | nil => cases ha
  | cons hab _ ih =>
      rcases List.mem_cons.1 ha with rfl | ha
      · exact ⟨_, hab⟩
      · exact ih ha

theorem agree_answer (hag : Agree D ρ h.fs.toFsState h'.fs.toFsState)
    (hD : h.fs.resolve (folderPath v) = .ok D) (hD' : h'.fs.resolve (folderPath v) = .ok D)
    (hwall : ∀ call, o = .sys (.file call) → Confined v h.fs call) :
    ∃ ρ', Grows h.fs.nextInode ρ ρ' ∧
      Agree D ρ' (h.answer ch o).2.fs.toFsState (h'.answer ch o).2.fs.toFsState := by
  by_cases hfile : ∃ call, o = .sys (.file call)
  · obtain ⟨call, rfl⟩ := hfile
    exact (hag.answer hD hD' (hwall call rfl) ch.fault).2
  · have hsame : ∀ h : Host, (h.answer ch o).2.fs = h.fs := by
      intro h
      rcases Host.fs_answer h ch o with hsame | ⟨c, ho, -⟩
      · exact hsame
      · exact absurd ⟨c, ho⟩ hfile
    rw [hsame, hsame]
    exact ⟨ρ, .refl _ ρ, hag⟩

end

/-! ## The run without the others -/

section

variable {ι : Type} [DecidableEq ι] {α : Type}

/-- The worker has ended the process of the server: it has called `exit`, an exception has left its thread,
    or its behaviour is undefined. -/
def Fatal : Program Sys (Except Exit Int × Session) → Bool
  | .ret (.error (.thrown _), _) | .ret (.error .exited, _) | .ret (.error .undefined, _) => true
  | _ => false

/-- The calls of the sessions in the order of a schedule, until a worker ends the process; and whether the
    process still runs. -/
def served : List (ι × Choice) → Shared ι Sys Fs Seat (Except Exit Int × Session) →
    Shared ι Sys Fs Seat (Except Exit Int × Session) × Bool
  | [], c => (c, true)
  | (i, ch) :: schedule, c =>
    if Fatal ((turn c i ch).part i).1 then (turn c i ch, false) else served schedule (turn c i ch)

/-- The names in the request that is answered next stay in the folder of its user. -/
def Considerate (user : ι → Buffer) (c : Shared ι Sys Fs Seat α) (i : ι) (ch : Choice) : Prop :=
  match (c.part i).1 with
  | .ret _ => True
  | .call o _ => FencedCall (user i) ((c.part i).2.host c.store) o
      (((c.part i).2.host c.store).answer ch o).1

instance decidableConsiderate (user : ι → Buffer) (c : Shared ι Sys Fs Seat α) (i : ι) (ch : Choice) :
    Decidable (Considerate user c i ch) :=
  match hc : (c.part i).1 with
  | .ret _ => .isTrue (by simp [Considerate, hc])
  | .call o _ => decidable_of_iff (FencedCall (user i) ((c.part i).2.host c.store) o
      (((c.part i).2.host c.store).answer ch o).1) (by simp [Considerate, hc])

/-- All requests in the run with a given schedule have names that stay. -/
def AllConsiderate (user : ι → Buffer) : List (ι × Choice) → Shared ι Sys Fs Seat α → Prop
  | [], _ => True
  | (i, ch) :: schedule, c => Considerate user c i ch ∧ AllConsiderate user schedule (turn c i ch)

instance decidableAllConsiderate (user : ι → Buffer) : ∀ (schedule : List (ι × Choice))
    (c : Shared ι Sys Fs Seat α), Decidable (AllConsiderate user schedule c)
  | [], _ => .isTrue trivial
  | (i, ch) :: schedule, c =>
    have := decidableAllConsiderate user schedule (turn c i ch)
    inferInstanceAs (Decidable (Considerate user c i ch ∧ AllConsiderate user schedule (turn c i ch)))

/-- The same session but for the numbers of the inodes. -/
structure SameSeat (ρ : Nat → Nat → Prop) (seat seat' : Seat) : Prop where
  handles : List.Forall₂ (fun h h' => ρ h.1 h'.1 ∧ h.2 = h'.2) seat.handles seat'.handles
  console : seat'.console = seat.console
  printed : seat'.printed = seat.printed
  wire : seat'.wire = seat.wire
  notes : seat'.notes = seat.notes

/-- The run `c` with all sessions and the run `c'` with those of `v` alone. The inodes that correspond are
    out of reach for the others. -/
structure Screened (user : ι → Buffer) (v : Buffer) (D : Path) (ρ : Nat → Nat → Prop)
    (c c' : Shared ι Sys Fs Seat α) : Prop where
  sessions : ∀ i, Addressable (user i) c.store (c.part i)
  folder : c.store.resolve (folderPath v) = .ok D
  folder' : c'.store.resolve (folderPath v) = .ok D
  agree : Agree D ρ (c.store.view []).toFsState (c'.store.view []).toFsState
  mine : ∀ i, user i = v → (c'.part i).1 = (c.part i).1 ∧ SameSeat ρ (c.part i).2 (c'.part i).2
  held : ∀ i, ∀ h ∈ (c.part i).2.handles, h.1 < c.store.nextInode
  apart : ∀ i, user i ≠ v → ∀ h ∈ (c.part i).2.handles, ∀ j, ¬ρ h.1 j
  below : ∀ i j, ρ i j → ∀ q, c.store.node q = some (.file i) → D <+: q

namespace Screened

variable {user : ι → Buffer} {v : Buffer} {D : Path} {ρ : Nat → Nat → Prop}
  {c c' : Shared ι Sys Fs Seat α} {i : ι} {ch : Choice} {o : Sys.Op} {k : Sys.Ans o → Program Sys α}

/-- The sessions and their files after a call of session `i`. -/
theorem rest (hs : Screened user v D ρ c c') (hc : (c.part i).1 = .call o k)
    (hok : Considerate user c i ch) (j : ι) :
    Addressable (user j) (turn c i ch).store ((turn c i ch).part j) ∧
      ∀ h ∈ ((turn c i ch).part j).2.handles, h.1 < (turn c i ch).store.nextInode := by
  have hpart : c.part i = (.call o k, (c.part i).2) := Prod.ext hc rfl
  have hi := hs.sessions i
  rw [hpart] at hi
  simp only [Considerate, hc] at hok
  simp only [turn, hc]
  by_cases hj : j = i
  · subst hj
    rw [Shared.next_part_self]
    exact ⟨hi.step hok, fun h hh => (((c.part j).2.host c.store).answer ch o).2.fs.wf.handle_lt h hh⟩
  · rw [Shared.next_part_of_ne hj]
    refine ⟨(hs.sessions j).kept (hi.sameDirs ch), fun h hh => ?_⟩
    refine Nat.lt_of_lt_of_le (hs.held j h hh) ((c.store.nextInode_le_view (c.part i).2.handles).trans ?_)
    show _ ≤ (((c.part i).2.host c.store).answer ch o).2.fs.nextInode
    rcases Host.fs_answer ((c.part i).2.host c.store) ch o with hsame | ⟨call, -, hcall⟩
    · rw [hsame]
      exact Nat.le_refl _
    · rw [hcall]
      exact Fs.nextInode_le_answer ..

/-- A call of another user is not seen. -/
theorem other (hs : Screened user v D ρ c c') (hlisted : ∀ i, user i ∈ usernameList)
    (hv : v ∈ usernameList) (hi : user i ≠ v) (hok : Considerate user c i ch) :
    Screened user v D ρ (turn c i ch) c' := by
  cases hc : (c.part i).1 with
  | ret a =>
      have hsame : turn c i ch = c := by
        unfold turn
        rw [hc]
      rw [hsame]
      exact hs
  | call o k =>
      have hrest := hs.rest hc hok
      have hpart : c.part i = (.call o k, (c.part i).2) := Prod.ext hc rfl
      have haddressable := hs.sessions i
      rw [hpart] at haddressable
      have hview := c.store.view_sameDirs (c.part i).2.handles
      have helsewhere : Elsewhere (user i) D (fun a => ∃ b, ρ a b) ((c.part i).2.host c.store).fs := by
        refine ⟨apart_of_listed (hlisted i) hv hi (hview.resolve.2 hs.folder), ?_, ?_, ?_⟩
        · rintro a ⟨b, hab⟩ q hq
          exact hs.below a b hab q hq
        · rintro a ⟨b, hab⟩
          exact Nat.lt_of_lt_of_le (hs.agree.bound a b hab).1 (c.store.nextInode_le_view _)
        · rintro h hh ⟨b, hb⟩
          exact hs.apart i hi h hh b hb
      have halone : LeftAlone D (fun a => ∃ b, ρ a b) ((c.part i).2.host c.store).fs.toFsState
          (((c.part i).2.host c.store).answer ch o).2.fs.toFsState := by
        rcases Host.fs_answer ((c.part i).2.host c.store) ch o with hsame | ⟨call, ho, hcall⟩
        · rw [hsame]
          exact .refl ..
        · rw [hcall]
          exact helsewhere.answer (haddressable.confined call ho) ch.fault
      have hsame : ∀ j, user j = v → (turn c i ch).part j = c.part j := by
        intro j hj
        have hji : j ≠ i := by
          rintro rfl
          exact hi hj
        simp only [turn, hc]
        exact Shared.next_part_of_ne hji ..
      refine ⟨fun j => (hrest j).1, ?_, hs.folder', ?_, fun j hj => ?_, fun j => (hrest j).2,
        fun j hj => ?_, fun a b hab q hq => ?_⟩
      · simp only [turn, hc]
        exact (haddressable.sameDirs ch).resolve.2 hs.folder
      · simp only [turn, hc]
        exact Agree.leftAlone (g := (((c.part i).2.host c.store).answer ch o).2.fs.toFsState) hs.agree halone
      · rw [hsame j hj]
        exact hs.mine j hj
      · by_cases hji : j = i
        · subst hji
          simp only [turn, hc, Shared.next_part_self]
          exact fun h hh b hb => halone.held helsewhere.held h hh ⟨b, hb⟩
        · simp only [turn, hc, Shared.next_part_of_ne hji]
          exact hs.apart j hj
      · simp only [turn, hc] at hq
        exact hs.below a b hab q (halone.named a ⟨b, hab⟩ q hq)

/-- A call of the user is answered alike. -/
theorem own (hs : Screened user v D ρ c c') (hi : user i = v) (hok : Considerate user c i ch) :
    ∃ ρ', Screened user v D ρ' (turn c i ch) (turn c' i ch) := by
  obtain ⟨hprogram, hseat⟩ := hs.mine i hi
  cases hc : (c.part i).1 with
  | ret a =>
      have hsame : turn c i ch = c ∧ turn c' i ch = c' := by
        unfold turn
        rw [hprogram, hc]
        exact ⟨rfl, rfl⟩
      rw [hsame.1, hsame.2]
      exact ⟨ρ, hs⟩
  | call o k =>
      have hrest := hs.rest hc hok
      have hpart : c.part i = (.call o k, (c.part i).2) := Prod.ext hc rfl
      have haddressable := hs.sessions i
      rw [hpart, hi] at haddressable
      have hwall := haddressable.confined
      have hview : Agree D ρ ((c.part i).2.host c.store).fs.toFsState
          ((c'.part i).2.host c'.store).fs.toFsState := hs.agree.view hseat.handles
      have hD : ((c.part i).2.host c.store).fs.resolve (folderPath v) = .ok D :=
        (c.store.view_sameDirs (c.part i).2.handles).resolve.2 hs.folder
      have hD' : ((c'.part i).2.host c'.store).fs.resolve (folderPath v) = .ok D :=
        (c'.store.view_sameDirs (c'.part i).2.handles).resolve.2 hs.folder'
      have htwin : Twin v ((c.part i).2.host c.store) ((c'.part i).2.host c'.store) :=
        ⟨Or.inl ⟨D, ρ, hD, hD', hview⟩, hseat.console, hseat.printed, hseat.wire, hseat.notes⟩
      obtain ⟨hanswer, htwin'⟩ := htwin.answer (c := ch) hwall
      obtain ⟨ρ', ⟨hgrow, hfresh⟩, hag⟩ := agree_answer hview hD hD' hwall
      have hdirs' : ((c'.part i).2.host c'.store).fs.SameDirs
          (((c'.part i).2.host c'.store).answer ch o).2.fs := sameDirs_answer fun path ho => hwall _ ho
      have hkept : Kept v ((c.part i).2.host c.store).fs (((c.part i).2.host c.store).answer ch o).2.fs := by
        refine kept_answer ?_ hwall
        intro h hh q hq
        obtain ⟨h', hh', -⟩ := forall₂_mem hseat.handles hh
        exact ⟨D, hD, hs.below _ _ hh' q hq⟩
      refine ⟨ρ', fun j => (hrest j).1, ?_, ?_, ?_, fun j hj => ?_, fun j => (hrest j).2,
        fun j hj => ?_, fun a b hab q hq => ?_⟩
      · simp only [turn, hc]
        exact (haddressable.sameDirs ch).resolve.2 hs.folder
      · simp only [turn, hprogram.trans hc]
        exact (hdirs'.trans (Fs.view_sameDirs _ _)).resolve.2 hD'
      · simp only [turn, hc, hprogram.trans hc]
        exact hag.store
      · simp only [turn, hc, hprogram.trans hc]
        by_cases hji : j = i
        · subst hji
          rw [Shared.next_part_self, Shared.next_part_self, hanswer]
          exact ⟨rfl, hag.handles, htwin'.console, htwin'.printed, htwin'.wire, htwin'.notes⟩
        · rw [Shared.next_part_of_ne hji, Shared.next_part_of_ne hji]
          obtain ⟨hsame, hseats⟩ := hs.mine j hj
          exact ⟨hsame, { hseats with
            handles := hseats.handles.imp fun _ _ h => ⟨hgrow _ _ h.1, h.2⟩ }⟩
      · have hji : j ≠ i := by
          rintro rfl
          exact hj hi
        simp only [turn, hc, Shared.next_part_of_ne hji]
        intro h hh b hb
        rcases hfresh h.1 b hb with hold | hnew
        · exact hs.apart j hj h hh b hold
        · have hlt := hs.held j h hh
          have hle := c.store.nextInode_le_view (c.part i).2.handles
          exact absurd (Nat.lt_of_lt_of_le hlt (hle.trans hnew)) (Nat.lt_irrefl _)
      · simp only [turn, hc] at hq
        by_contra hout
        have houtside : ¬Inside v ((c.part i).2.host c.store).fs q := by
          rintro ⟨D', hD'', hprefix⟩
          rw [hD] at hD''
          cases hD''
          exact hout hprefix
        have hbefore : c.store.node q = some (.file a) := ((hkept.outside q houtside).1).symm.trans hq
        rcases hfresh a b hab with hold | hnew
        · exact hout (hs.below a b hold q hbefore)
        · have hlt := c.store.wf.inode_lt q a hbefore
          have hle := c.store.nextInode_le_view (c.part i).2.handles
          exact absurd (Nat.lt_of_lt_of_le hlt (hle.trans hnew)) (Nat.lt_irrefl _)

/-- A whole run of the server, by induction on the schedule. -/
theorem served {c c' : Shared ι Sys Fs Seat (Except Exit Int × Session)} (hs : Screened user v D ρ c c')
    (hlisted : ∀ i, user i ∈ usernameList) (hv : v ∈ usernameList) (schedule : List (ι × Choice))
    (hok : AllConsiderate user schedule c) (hup : (CloudStorage.served schedule c).2 = true) :
    (CloudStorage.served (schedule.filter fun e => user e.1 = v) c').2 = true ∧
      ∃ ρ', Screened user v D ρ' (CloudStorage.served schedule c).1
        (CloudStorage.served (schedule.filter fun e => user e.1 = v) c').1 := by
  induction schedule generalizing ρ c c' with
  | nil => exact ⟨rfl, ρ, hs⟩
  | cons e schedule ih =>
      obtain ⟨i, ch⟩ := e
      obtain ⟨hfirst, hrest⟩ := hok
      have hgoes : ¬Fatal ((turn c i ch).part i).1 = true := by
        intro hfatal
        rw [CloudStorage.served, if_pos hfatal] at hup
        cases hup
      rw [CloudStorage.served, if_neg hgoes] at hup ⊢
      by_cases hi : user i = v
      · obtain ⟨ρ₁, hnext⟩ := hs.own hi hfirst
        have hgoes' : ¬Fatal ((turn c' i ch).part i).1 = true := by
          rw [(hnext.mine i hi).1]
          exact hgoes
        rw [List.filter_cons_of_pos (by simpa using hi), CloudStorage.served, if_neg hgoes']
        exact ih hnext hrest hup
      · rw [List.filter_cons_of_neg (by simpa using hi)]
        exact ih (hs.other hlisted hv hi hfirst) hrest hup

end Screened

end

end CloudStorage
