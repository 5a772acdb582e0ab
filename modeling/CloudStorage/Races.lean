import Mathlib.Data.Fintype.Basic
import CloudStorage.Caution
import CloudStorage.Disk
import CloudStorage.Names

set_option autoImplicit false

/-! # Sessions that overlap

Two sessions of one user work in one folder, and a handler that looks for a file and then acts on what
it has found leaves time for the other in between. `sessions_serialize` is about runs where this does no
harm: no call meets a file that a request of another session has touched and is still at, with one of
the two changing it (`Undisturbed`). Such a run ends like one in which the requests are handled one
after the other (`OneByOne`), and no upload and no rename in it takes a name that a file has. -/

namespace CloudStorage

open Interaction Interaction.Routine

/-! ## Runs of sessions -/

/-- The names that an open file has. -/
def Fs.names (fs : Fs) (handle : Nat) : List Path :=
  match fs.handles[handle]? with
  | none => []
  | some (i, _) => fs.entries.keys.filter fun p => fs.node p = some (.file i)

theorem Fs.mem_names {fs : Fs} {handle i off : Nat} {p : Path}
    (hh : fs.handles[handle]? = some (i, off)) (hp : fs.node p = some (.file i)) :
    p ∈ fs.names handle := by
  have hkey : p ∈ fs.entries := by
    have hlookup : fs.entries.lookup p = some (.file i) := by
      unfold FsState.node at hp
      rwa [if_neg (Fs.ne_nil_of_file hp)] at hp
    exact AList.lookup_isSome.1 (by rw [hlookup]; rfl)
  unfold names
  rw [hh]
  exact List.mem_filter.2 ⟨AList.mem_keys.1 hkey, decide_eq_true hp⟩

/-- The files that a call touches. -/
def Host.touches (h : Host) (o : Sys.Op) : Footprint Path := touched h.fs.place h.fs.names o

/-- A program that waits for a request, or has ended. -/
def Resting {α : Type} : Program Sys α → Prop
  | .ret _ => True
  | .call o _ => isRequest o = true

/-- Any machine and any network, for requests that do not list the folder. -/
def Unlisted : Transition Sys Host := fun h o a h' =>
  Host.anyEnv h o a h' ∧ ∀ path, o ≠ .sys (.file (.list path))

/-- What a session has touched for the request it handles, after one more call. -/
def touchedAfter (f : Footprint Path) (h : Host) (o : Sys.Op) : Footprint Path :=
  if isRequest o = true then h.touches o else f.add (h.touches o)

/-- No call meets a file that a request under way of another session has touched, one of the two
    changing it. -/
def Undisturbed (ι : Type) {α : Type} : Shared.Env ι Sys Fs (Seat × Footprint Path) α :=
  fun c i o a fs' l' =>
    OnStore ι Unlisted (c.mapPart Prod.fst) i o a fs' l'.1 ∧
      l'.2 = touchedAfter (c.part i).2.2 ((c.part i).2.1.host c.store) o ∧
      ∀ j, j ≠ i → ¬Resting (c.part j).1 →
        (c.part j).2.2.Apart (((c.part i).2.1.host c.store).touches o)

/-- No call is made while another session has a request under way. -/
def OneByOne (ι : Type) {α : Type} : Shared.Env ι Sys Fs Seat α := fun c i o a fs' seat' =>
  OnStore ι Unlisted c i o a fs' seat' ∧ ∀ j, j ≠ i → Resting (c.part j).1

/-- The sessions, with nothing touched. -/
def freshSessions {ι : Type} (P : Platform) (fs : Fs) (start : ι → Session) (bound : ι → Nat)
    (console : ι → Console) :
    Shared ι Sys Fs (Seat × Footprint Path) (Except Exit Int × Session) :=
  (sessions P fs start bound console).mapPart fun seat => (seat, .none)

/-- Two ends of sessions with the same files, where each worker is in the same state and has sent,
    printed and noted the same. -/
structure SameEnd {ι α : Type} (c c' : Shared ι Sys Fs Seat α) : Prop where
  dirs : c.store.SameDirs c'.store
  contents : ∀ p, c'.store.contents p = c.store.contents p
  program : ∀ i, (c'.part i).1 = (c.part i).1
  seat : ∀ i, (c'.part i).2.closed = (c.part i).2.closed

/-! ## One session -/

/-- A desk describes a seat. -/
structure Desk.Describes (d : Desk) (seat : Seat) : Prop where
  same : d.seat = seat.closed
  offsets : d.opened.map Prod.snd = seat.handles.map Prod.snd

/-- The files opened for the request still have their names. -/
def Desk.Holds (d : Desk) (fs : Fs) (seat : Seat) : Prop :=
  ∀ h e e', d.before ≤ h → d.opened[h]? = some e → seat.handles[h]? = some e' →
    fs.node e.1 = some (.file e'.1)

/-- What a desk knows of the files that were opened. -/
def Desk.opens (d : Desk) : Opens := ⟨d.before, d.opened.length⟩

/-- A call is answered alike on the tree and on its files, and the desk describes the seat after it. -/
structure Desk.Follows (root fs : Fs) (σ : Disk) (seat : Seat) (d : Desk) (ch : Choice) (o : Sys.Op) :
    Prop where
  ans : (d.answer root ch σ o).1 = ((seat.host fs).answer ch o).1
  dirs : root.SameDirs ((seat.host fs).answer ch o).2.fs
  store : ∀ p, (d.answer root ch σ o).2.1 p = ((seat.host fs).answer ch o).2.fs.contents p
  describes : (d.answer root ch σ o).2.2.Describes ((seat.host fs).answer ch o).2.seat
  holds : (d.answer root ch σ o).2.2.Holds ((seat.host fs).answer ch o).2.fs
    ((seat.host fs).answer ch o).2.seat
  names : ∀ p, p ∉ (touched root.place d.opened.names o).writes →
    ((seat.host fs).answer ch o).2.fs.node p = fs.node p

section

variable {root fs : Fs} {σ : Disk} {seat : Seat} {d : Desk} {o : Sys.Op}

/-- Calls besides those into the file system do not depend on the store. -/
theorem Seat.answer_closed (root fs : Fs) (seat : Seat) (ch : Choice) (ho : ∀ c, o ≠ .sys (.file c)) :
    ((seat.closed.host root).answer ch o).1 = ((seat.host fs).answer ch o).1 ∧
      ((seat.closed.host root).answer ch o).2.seat.closed =
        ((seat.host fs).answer ch o).2.seat.closed ∧
      ((seat.host fs).answer ch o).2.fs = fs.view seat.handles := by
  cases o with
  | recv n => exact ⟨rfl, rfl, rfl⟩
  | send data =>
      simp only [Host.answer, Host.put]
      split_ifs
      · exact ⟨rfl, rfl, rfl⟩
      · exact ⟨rfl, rfl, rfl⟩
      · exact ⟨rfl, rfl, rfl⟩
  | sys o =>
      cases o with
      | file c => exact absurd rfl (ho c)
      | _ => exact ⟨rfl, rfl, rfl⟩

theorem Desk.follows_file {c : FileCall} (hd : d.Describes seat) (hdirs : root.SameDirs fs)
    (hσ : ∀ p, σ p = fs.contents p) (hheld : d.Holds fs seat) (htidy : TidyCall d.opens c)
    (hlist : ∀ path, c ≠ .list path) (ch : Choice) :
    Desk.Follows root fs σ seat d ch (.sys (.file c)) := by
  have hmatches : Matches root d.before (fs.view seat.handles) σ d.opened :=
    ⟨hdirs.trans (fs.view_sameDirs _), hσ, hd.offsets, hheld⟩
  obtain ⟨hans, hafter, hnames⟩ := hmatches.alike htidy hlist ch.fault
  exact ⟨hans, hafter.dirs, hafter.store, ⟨hd.same, hafter.offsets⟩, hafter.held, hnames⟩

theorem Desk.follows (hd : d.Describes seat) (hdirs : root.SameDirs fs)
    (hσ : ∀ p, σ p = fs.contents p) (hheld : isRequest o = false → d.Holds fs seat)
    (htidy : ∀ c, o = .sys (.file c) → TidyCall d.opens c)
    (hlist : ∀ path, o ≠ .sys (.file (.list path))) (ch : Choice) :
    Desk.Follows root fs σ seat d ch o := by
  by_cases hfile : ∃ c, o = .sys (.file c)
  · obtain ⟨c, rfl⟩ := hfile
    exact Desk.follows_file hd hdirs hσ (hheld rfl) (htidy c rfl)
      (fun path hc => hlist path (by rw [hc])) ch
  · have hother : ∀ c, o ≠ .sys (.file c) := fun c hc => hfile ⟨c, hc⟩
    obtain ⟨hans, hclosed, hfs⟩ := Seat.answer_closed root fs seat ch hother
    have hdesk : d.answer root ch σ o = (((d.seat.host root).answer ch o).1, σ,
        ⟨d.opened, if isRequest o then d.opened.length else d.before,
          ((d.seat.host root).answer ch o).2.seat.closed⟩) := by
      cases o with
      | recv n => rfl
      | send data => rfl
      | sys o =>
          cases o with
          | file c => exact absurd rfl (hother c)
          | _ => rfl
    have hnode : ∀ p, ((seat.host fs).answer ch o).2.fs.node p = fs.node p := fun p => by rw [hfs]; rfl
    have hhandles : ((seat.host fs).answer ch o).2.seat.handles = seat.handles := by
      show ((seat.host fs).answer ch o).2.fs.handles = _
      rw [hfs]
      rfl
    constructor
    · rw [hdesk, hd.same]
      exact hans
    · rw [hfs]
      exact hdirs.trans (fs.view_sameDirs _)
    · rw [hdesk, hfs]
      exact hσ
    · rw [hdesk]
      refine ⟨?_, ?_⟩
      · rw [← hclosed, ← hd.same]
      · rw [hhandles]
        exact hd.offsets
    · rw [hdesk]
      intro h e e' hbefore ho he
      rw [hhandles] at he
      rw [hnode]
      dsimp only at hbefore ho
      by_cases hrequest : isRequest o = true
      · -- nothing is open for a request that has just come
        rw [if_pos hrequest] at hbefore
        rw [List.getElem?_eq_none hbefore] at ho
        cases ho
      · rw [if_neg hrequest] at hbefore
        exact hheld (Bool.eq_false_iff.2 hrequest) h e e' hbefore ho he
    · exact fun p _ => hnode p

end

theorem Desk.before_answer (root : Fs) (σ : Disk) (d : Desk) (ch : Choice) (o : Sys.Op) :
    (d.answer root ch σ o).2.2.before = (d.opens.after o (d.answer root ch σ o).1).before := by
  cases o with
  | recv n =>
      simp only [answer, Opens.after, isRequest, beq_iff_eq]
      split_ifs
      · rfl
      · rfl
  | send data => rfl
  | sys o =>
      cases o with
      | file c =>
          show d.before = (if _ then _ else _ : Opens).before
          split_ifs
          · rfl
          · rfl
      | _ => rfl

/-! ## All sessions -/

/-- Sessions on a tree, and the same sessions on its files. -/
structure Mirrors {ι α : Type} (root : Fs) (c : Shared ι Sys Fs Seat α)
    (a : Shared ι Sys Disk (Desk × Footprint Path) α) : Prop where
  dirs : root.SameDirs c.store
  store : ∀ p, a.store p = c.store.contents p
  program : ∀ i, (a.part i).1 = (c.part i).1
  describes : ∀ i, (a.part i).2.1.Describes (c.part i).2
  holds : ∀ i, ¬Resting (c.part i).1 → (a.part i).2.1.Holds c.store (c.part i).2
  tidy : ∀ i, (c.part i).1.Sat Numbered Tidy (fun _ _ => True) (a.part i).2.1.opens

/-- The names of the files that a session has open for the request it handles. -/
def Desk.Uses (d : Desk) (p : Path) : Prop :=
  ∃ handle e, d.before ≤ handle ∧ d.opened[handle]? = some e ∧ e.1 = p

section

variable {ι : Type} {α : Type} {root : Fs} {c : Shared ι Sys Fs Seat α}
  {a : Shared ι Sys Disk (Desk × Footprint Path) α} {i : ι} {o : Sys.Op}
  {k : Sys.Ans o → Program Sys α}

theorem Desk.Describes.total {d : Desk} {seat : Seat} (h : d.Describes seat) :
    d.opens.total = seat.handles.length := by
  have hoff := congrArg List.length h.offsets
  rwa [List.length_map, List.length_map] at hoff

theorem Mirrors.tidyCall (h : Mirrors root c a) (hc : (c.part i).1 = .call o k) (ch : Choice) :
    ∀ call, o = .sys (.file call) → TidyCall (a.part i).2.1.opens call := by
  have hsat := h.tidy i
  rw [hc] at hsat
  have hstep : Seated (c.part i).2 o (((c.part i).2.host c.store).answer ch o).1
    (((c.part i).2.host c.store).answer ch o).2.seat := ⟨c.store, _, ⟨ch, rfl⟩, rfl⟩
  exact (hsat _ _ (numbered_seated (h.describes i).total hstep).1).1

theorem Mirrors.held (h : Mirrors root c a) (hc : (c.part i).1 = .call o k)
    (ho : isRequest o = false) : (a.part i).2.1.Holds c.store (c.part i).2 := by
  refine h.holds i ?_
  rw [hc]
  show ¬isRequest o = true
  rw [ho]
  decide

theorem Mirrors.follows (h : Mirrors root c a) (hc : (c.part i).1 = .call o k)
    (hlist : ∀ path, o ≠ .sys (.file (.list path))) (ch : Choice) :
    Desk.Follows root c.store a.store (c.part i).2 (a.part i).2.1 ch o :=
  Desk.follows (h.describes i) h.dirs h.store (h.held hc) (h.tidyCall hc ch) hlist ch

variable [DecidableEq ι]

/-- One call, which changes no file that another session has open for a request under way. -/
theorem Mirrors.next (h : Mirrors root c a) (hc : (c.part i).1 = .call o k)
    (hlist : ∀ path, o ≠ .sys (.file (.list path))) (ch : Choice) (f : Footprint Path)
    (hothers : ∀ j, j ≠ i → ¬Resting (c.part j).1 → ∀ p, (a.part j).2.1.Uses p →
      p ∉ (touched root.place (a.part i).2.1.opened.names o).writes) :
    ((a.part i).2.1.answer root ch a.store o).1 = (((c.part i).2.host c.store).answer ch o).1 ∧
      Mirrors root
        (c.next i ((((c.part i).2.host c.store).answer ch o).2.fs.view [])
          (k (((c.part i).2.host c.store).answer ch o).1)
          (((c.part i).2.host c.store).answer ch o).2.seat)
        (a.next i ((a.part i).2.1.answer root ch a.store o).2.1
          (k (((c.part i).2.host c.store).answer ch o).1)
          (((a.part i).2.1.answer root ch a.store o).2.2, f)) := by
  have hfollows := h.follows hc hlist ch
  have hans := hfollows.ans
  -- each field asks about the session of the call, then about the others
  refine ⟨hans, hfollows.dirs.trans (Fs.view_sameDirs _ _), hfollows.store, fun j => ?_, fun j => ?_,
    fun j hbusy => ?_, fun j => ?_⟩
  · by_cases hj : j = i
    · subst hj
      rw [Shared.next_part_self, Shared.next_part_self]
    · rw [Shared.next_part_of_ne hj, Shared.next_part_of_ne hj]
      exact h.program j
  · by_cases hj : j = i
    · subst hj
      rw [Shared.next_part_self, Shared.next_part_self]
      exact hfollows.describes
    · rw [Shared.next_part_of_ne hj, Shared.next_part_of_ne hj]
      exact h.describes j
  · by_cases hj : j = i
    · subst hj
      rw [Shared.next_part_self, Shared.next_part_self]
      exact hfollows.holds
    · rw [Shared.next_part_of_ne hj] at hbusy
      rw [Shared.next_part_of_ne hj, Shared.next_part_of_ne hj]
      intro handle e e' hbefore ho he
      -- the call does not write what another session has open
      have hkept := hfollows.names e.1
        (hothers j hj hbusy e.1 ⟨handle, e, hbefore, ho, rfl⟩)
      exact hkept.trans (h.holds j hbusy handle e e' hbefore ho he)
  · by_cases hj : j = i
    · subst hj
      rw [Shared.next_part_self, Shared.next_part_self]
      have hsat := h.tidy j
      rw [hc] at hsat
      have hstep : Seated (c.part j).2 o (((c.part j).2.host c.store).answer ch o).1
        (((c.part j).2.host c.store).answer ch o).2.seat := ⟨c.store, _, ⟨ch, rfl⟩, rfl⟩
      obtain ⟨hnumbered, htotal⟩ := numbered_seated (h.describes j).total hstep
      have hopens : ((a.part j).2.1.answer root ch a.store o).2.2.opens =
          (a.part j).2.1.opens.after o (((c.part j).2.host c.store).answer ch o).1 := by
        have hbefore := Desk.before_answer root a.store (a.part j).2.1 ch o
        rw [hans] at hbefore
        exact congrArg₂ Opens.mk hbefore (hfollows.describes.total.trans htotal.symm)
      rw [hopens]
      exact (hsat _ _ hnumbered).2
    · rw [Shared.next_part_of_ne hj, Shared.next_part_of_ne hj]
      exact h.tidy j

end

/-- What a session has open was touched for its request. -/
theorem Desk.uses_answer {root : Fs} {σ : Disk} {d : Desk} {ch : Choice} {o : Sys.Op}
    {f : Footprint Path} (hf : ∀ p, d.Uses p → f.Touches p) (ι : Type) [DecidableEq ι] {p : Path}
    (hp : (d.answer root ch σ o).2.2.Uses p) : ((disk ι root).after (d, f) o).Touches p := by
  obtain ⟨handle, e, hbefore, ho, rfl⟩ := hp
  have hkept : isRequest o = false → (f.add (touched root.place d.opened.names o)).Touches e.1 →
      ((disk ι root).after (d, f) o).Touches e.1 := by
    intro hrequest htouch
    rw [Interaction.Keyed.after_call (M := disk ι root) hrequest]
    exact htouch
  cases o with
  | recv n =>
      by_cases hrequest : isRequest (.recv n) = true
      · simp only [answer, hrequest, if_true] at hbefore ho
        rw [List.getElem?_eq_none hbefore] at ho
        cases ho
      · simp only [answer, hrequest, Bool.false_eq_true, if_false] at hbefore ho
        exact hkept (Bool.eq_false_iff.2 hrequest)
          (Footprint.touches_add.2 (Or.inl (hf _ ⟨handle, e, hbefore, ho, rfl⟩)))
  | send data =>
      exact hkept rfl (Footprint.touches_add.2 (Or.inl (hf _ ⟨handle, e, hbefore, ho, rfl⟩)))
  | sys o =>
      cases o with
      | file c =>
          refine hkept rfl (Footprint.touches_add.2 ?_)
          refine (c.opened_onDisk ho).imp_left fun hold => ?_
          obtain ⟨e₀, ho₀, heq⟩ := hold
          exact heq ▸ hf _ ⟨handle, e₀, hbefore, ho₀, rfl⟩
      | _ => exact hkept rfl (Footprint.touches_add.2 (Or.inl (hf _ ⟨handle, e, hbefore, ho, rfl⟩)))

/-- What a call touches on the files, it touches on the tree. -/
theorem Desk.touched_sub {root fs : Fs} {seat : Seat} {d : Desk} {o : Sys.Op}
    (hd : d.Describes seat) (hdirs : root.SameDirs fs) (hheld : isRequest o = false → d.Holds fs seat)
    (htidy : ∀ c, o = .sys (.file c) → TidyCall d.opens c) :
    (touched root.place d.opened.names o).Sub ((seat.host fs).touches o) := by
  have hplace : (seat.host fs).fs.place = root.place :=
    funext fun path => (hdirs.trans (fs.view_sameDirs _)).place path
  have hnames : isRequest o = false → ∀ handle, d.before ≤ handle → ∀ p ∈ d.opened.names handle,
      p ∈ (seat.host fs).fs.names handle := by
    intro ho handle hbefore p hp
    obtain ⟨e, he, rfl⟩ : ∃ e, d.opened[handle]? = some e ∧ e.1 = p := by
      simpa [OpenNames.names] using hp
    have hmatches : Matches root d.before (fs.view seat.handles) (fun p => fs.contents p) d.opened :=
      ⟨hdirs.trans (fs.view_sameDirs _), fun _ => rfl, hd.offsets, hheld ho⟩
    rcases hmatches.getElem? handle with ⟨hnone, -⟩ | ⟨p, i, off, hopen, hhandle⟩
    · rw [hnone] at he
      cases he
    · rw [hopen] at he
      cases he
      exact Fs.mem_names hhandle (hheld ho handle _ _ hbefore hopen hhandle)
  cases o with
  | sys o =>
      cases o with
      | file c =>
          have hc := htidy c rfl
          unfold Host.touches
          rw [hplace]
          cases c with
          | read handle n => exact ⟨hnames rfl handle hc.1, fun _ hk => hk⟩
          | write handle b => exact ⟨fun _ hk => hk, hnames rfl handle hc.1⟩
          | _ => exact .refl _
      | _ => exact .refl _
  | _ => exact .refl _

/-! ## Forth and back -/

section

variable {ι : Type} [DecidableEq ι] {α : Type} {root : Fs}

omit [DecidableEq ι] in
theorem Mirrors.touched_sub {c : Shared ι Sys Fs Seat α}
    {a : Shared ι Sys Disk (Desk × Footprint Path) α} {i : ι} {o : Sys.Op}
    {k : Sys.Ans o → Program Sys α} (h : Mirrors root c a) (hc : (c.part i).1 = .call o k)
    (ch : Choice) : (touched root.place (a.part i).2.1.opened.names o).Sub
      (((c.part i).2.host c.store).touches o) :=
  Desk.touched_sub (h.describes i) h.dirs (h.held hc) (h.tidyCall hc ch)

omit [DecidableEq ι] in
theorem idle_disk (root : Fs) {p : Program Sys α} : (disk ι root).Idle p ↔ Resting p := by
  cases p with
  | ret a => exact Iff.rfl
  | call o k => exact Iff.rfl

/-- What is touched on the files is touched on the tree, and what is open was touched. -/
structure Covers (c : Shared ι Sys Fs (Seat × Footprint Path) α)
    (a : Shared ι Sys Disk (Desk × Footprint Path) α) : Prop where
  sub : ∀ i, (a.part i).2.2.Sub (c.part i).2.2
  uses : ∀ i p, (a.part i).2.1.Uses p → (a.part i).2.2.Touches p

/-- An undisturbed run on a tree is one on its files. -/
theorem Mirrors.forth {c₀ c : Shared ι Sys Fs (Seat × Footprint Path) α}
    {a₀ : Shared ι Sys Disk (Desk × Footprint Path) α} (h₀ : Mirrors root (c₀.mapPart Prod.fst) a₀)
    (hcovers₀ : Covers c₀ a₀) (hrun : Shared.Reaches (Undisturbed ι) c₀ c) :
    ∃ a, Shared.Reaches (disk ι root).apart a₀ a ∧ Mirrors root (c.mapPart Prod.fst) a ∧ Covers c a := by
  induction hrun with
  | refl => exact ⟨a₀, .refl, h₀, hcovers₀⟩
  | @tail d d' _ hstep ih =>
      obtain ⟨a, hreach, hmirrors, hcovers⟩ := ih
      obtain ⟨i, hc, ⟨⟨h', ⟨⟨ch, hanswer⟩, hlist⟩, hstore, hseat⟩, htouched, hapart⟩⟩ := hstep
      rename_i o k ans fs' l'
      obtain ⟨seat', f'⟩ := l'
      obtain rfl : (((d.part i).2.1.host d.store).answer ch o).1 = ans := congrArg Prod.fst hanswer
      obtain rfl : (((d.part i).2.1.host d.store).answer ch o).2 = h' := congrArg Prod.snd hanswer
      dsimp only at hstore hseat htouched hapart
      subst hstore
      subst hseat
      have hsub := hmirrors.touched_sub hc ch
      have hothers : ∀ j, j ≠ i → ¬Resting (d.part j).1 → (a.part j).2.2.Apart
          (touched root.place (a.part i).2.1.opened.names o) :=
        fun j hj hbusy => (hapart j hj hbusy).mono (hcovers.sub j) hsub
      -- a session uses only what it has touched, and the call writes none of it
      obtain ⟨hans, hnext⟩ := hmirrors.next hc hlist ch ((disk ι root).after (a.part i).2 o)
        fun j hj hbusy p hp hw =>
          ((hothers j hj hbusy).writes p hw).elim fun hr hw' =>
            (hcovers.uses j p hp).elim hr hw'
      have hanswered : (disk ι root).apart a i o (((d.part i).2.1.host d.store).answer ch o).1
          ((a.part i).2.1.answer root ch a.store o).2.1
          (((a.part i).2.1.answer root ch a.store o).2.2, (disk ι root).after (a.part i).2 o) := by
        refine ⟨⟨⟨hlist, ch, Prod.ext hans rfl⟩, rfl⟩, fun j hj hidle => ?_⟩
        rw [idle_disk, hmirrors.program j] at hidle
        exact hothers j hj hidle
      refine ⟨_, hreach.tail (.call i ((hmirrors.program i).trans hc) hanswered), ?_, ?_⟩
      · rw [Shared.mapPart_next]
        exact hnext
      · refine ⟨fun j => ?_, fun j p hp => ?_⟩
        · by_cases hj : j = i
          · subst hj
            rw [Shared.next_part_self, Shared.next_part_self, htouched]
            -- a request starts a new transaction, and another call adds to the one under way
            by_cases hrequest : isRequest o = true
            · rw [touchedAfter, if_pos hrequest, Interaction.Keyed.after_start (M := disk ι root) hrequest]
              exact hsub
            · rw [touchedAfter, if_neg hrequest,
                Interaction.Keyed.after_call (M := disk ι root) (Bool.eq_false_iff.2 hrequest)]
              exact (hcovers.sub j).add hsub
          · rw [Shared.next_part_of_ne hj, Shared.next_part_of_ne hj]
            exact hcovers.sub j
        · by_cases hj : j = i
          · subst hj
            rw [Shared.next_part_self] at hp ⊢
            exact Desk.uses_answer (hcovers.uses j) ι hp
          · rw [Shared.next_part_of_ne hj] at hp ⊢
            exact hcovers.uses j p hp

/-- A serial run on the files of a tree is one on the tree. -/
theorem Mirrors.back {c₀ : Shared ι Sys Fs Seat α} {a₀ a : Shared ι Sys Disk (Desk × Footprint Path) α}
    (h₀ : Mirrors root c₀ a₀) (hrun : Shared.Reaches (disk ι root).serial a₀ a) :
    ∃ c, Shared.Reaches (OneByOne ι) c₀ c ∧ Mirrors root c a := by
  induction hrun with
  | refl => exact ⟨c₀, .refl, h₀⟩
  | @tail b b' _ hstep ih =>
      obtain ⟨c, hreach, hmirrors⟩ := ih
      obtain ⟨i, hb, ⟨⟨⟨hlist, ch, hanswer⟩, hafter⟩, hrest⟩⟩ := hstep
      rename_i o k ans σ' l'
      obtain ⟨d', f'⟩ := l'
      have hc : (c.part i).1 = .call o k := (hmirrors.program i).symm.trans hb
      have hresting : ∀ j, j ≠ i → Resting (c.part j).1 := by
        intro j hj
        rw [← hmirrors.program j, ← idle_disk (ι := ι) root]
        exact hrest j hj
      obtain ⟨hans, hnext⟩ := hmirrors.next hc hlist ch f'
        fun j hj hbusy => absurd (hresting j hj) hbusy
      rw [hanswer] at hans hnext
      dsimp only at hans hnext
      subst hans
      exact ⟨_, hreach.tail (.call i hc ⟨⟨_, ⟨⟨ch, rfl⟩, hlist⟩, rfl, rfl⟩, hresting⟩), hnext⟩

omit [DecidableEq ι] in
/-- Two trees with the same files under the same sessions. -/
theorem Mirrors.sameEnd {c c' : Shared ι Sys Fs Seat α}
    {a : Shared ι Sys Disk (Desk × Footprint Path) α} (h : Mirrors root c a) (h' : Mirrors root c' a) :
    SameEnd c c' where
  dirs := h.dirs.symm.trans h'.dirs
  contents := fun p => (h'.store p).symm.trans (h.store p)
  program := fun i => (h'.program i).symm.trans (h.program i)
  seat := fun i => (h'.describes i).same.symm.trans (h.describes i).same

end

section

variable {ι : Type} (P : Platform) (fs : Fs) (start : ι → Session) (bound : ι → Nat)
  (console : ι → Console)

/-- The sessions on the files of the store. -/
def diskSessions : Shared ι Sys Disk (Desk × Footprint Path) (Except Exit Int × Session) :=
  ⟨fs.contents, fun i =>
    (Worker.commandLoop P (bound i) (start i), (⟨[], 0, .start (console i)⟩, .none))⟩

theorem mirrors_start :
    Mirrors fs (sessions P fs start bound console) (diskSessions P fs start bound console) where
  dirs := fs.view_sameDirs []
  store := fun _ => rfl
  program := fun _ => rfl
  describes := fun _ => ⟨rfl, rfl⟩
  holds := fun _ _ _ _ _ _ ho => by cases ho
  tidy := by
    intro i
    have htidy := (Worker.tidies_commandLoop (P := P) (bound i)).program (x := start i)
      (s := ⟨0, 0⟩) trivial
    exact htidy.imp fun _ _ _ => trivial

theorem covers_start :
    Covers (freshSessions P fs start bound console) (diskSessions P fs start bound console) where
  sub := fun _ => .refl _
  uses := by
    rintro i p ⟨handle, e, -, ho, -⟩
    cases ho

theorem resting_commandLoop (n : Nat) (x : Session) : Resting (Worker.commandLoop P n x) := by
  cases n with
  | zero => trivial
  | succ n => exact rfl

end

/-! ## Caution -/

theorem Fs.fileType_view (fs : Fs) (handles : List (Nat × Nat)) (path : Buffer) :
    (fs.view handles).fileType path = fs.fileType path := by
  have hresolve : (fs.view handles).resolve path = fs.resolve path :=
    resolve_congr (show ∀ q, (fs.view handles).node q = fs.node q from fun _ => rfl) rfl path
  unfold fileType
  rw [hresolve]
  rfl

/-- A path where there is no file, for a session that has looked at it. -/
structure Vacant (fs : Fs) (f : Footprint Path) (path : Buffer) : Prop where
  unused : fs.fileType path ≠ some .regular
  looked : ∀ p, fs.place path = some p → p ∈ f.reads

/-- A path stays vacant while the name it leads to is as it was. -/
theorem Vacant.kept {fs fs' : Fs} {f f' : Footprint Path} {path : Buffer} (h : Vacant fs f path)
    (hdirs : fs.SameDirs fs') (hnode : ∀ p, p ∈ f.reads → fs'.node p = fs.node p) (hf : f.Sub f') :
    Vacant fs' f' path where
  unused := by
    intro hregular
    obtain ⟨p, i, hr, hp⟩ := Fs.fileType_regular.1 hregular
    have hplace : fs'.place path = some p :=
      Fs.place_eq_some.2 ⟨hr, fun hdir => by rw [hp] at hdir; cases hdir⟩
    rw [hdirs.place] at hplace
    rw [hnode p (h.looked p hplace)] at hp
    exact h.unused (Fs.fileType_regular.2 ⟨p, i, hdirs.resolve.1 hr, hp⟩)
  looked := by
    intro p hp
    rw [hdirs.place] at hp
    exact hf.reads p (h.looked p hp)

/-- Sessions with what they know, which is still so while they handle a request. -/
structure Wary {ι α : Type} (c : Shared ι Sys Fs (Seat × Footprint Path) α) (m : ι → Memo) : Prop where
  cautious : ∀ i, (c.part i).1.Sat Memoed Cautious (fun _ _ => True) (m i)
  vacant : ∀ i path, ¬Resting (c.part i).1 → (m i).unused = some path →
    Vacant c.store (c.part i).2.2 path
  accepted : ∀ i payload, (m i).request = some payload → HasAccepted (c.part i).2.1.notes payload

section

variable {ι : Type} [DecidableEq ι] {α : Type} {root : Fs}
  {c : Shared ι Sys Fs (Seat × Footprint Path) α} {a : Shared ι Sys Disk (Desk × Footprint Path) α}
  {m : ι → Memo} {i : ι} {o : Sys.Op} {k : Sys.Ans o → Program Sys α}

theorem Wary.next (hw : Wary c m) (hmirrors : Mirrors root (c.mapPart Prod.fst) a)
    (hc : (c.part i).1 = .call o k) (hlist : ∀ path, o ≠ .sys (.file (.list path)))
    (hapart : ∀ j, j ≠ i → ¬Resting (c.part j).1 →
      (c.part j).2.2.Apart (((c.part i).2.1.host c.store).touches o)) (ch : Choice) :
    Wary (c.next i ((((c.part i).2.1.host c.store).answer ch o).2.fs.view [])
      (k (((c.part i).2.1.host c.store).answer ch o).1)
      ((((c.part i).2.1.host c.store).answer ch o).2.seat,
        touchedAfter (c.part i).2.2 ((c.part i).2.1.host c.store) o))
      (Function.update m i ((m i).after o (((c.part i).2.1.host c.store).answer ch o).1)) := by
  have hfollows := hmirrors.follows hc hlist ch
  have hsub := hmirrors.touched_sub hc ch
  have hdirs : c.store.SameDirs
      ((((c.part i).2.1.host c.store).answer ch o).2.fs.view []) :=
    (hmirrors.dirs.symm.trans hfollows.dirs).trans (Fs.view_sameDirs _ _)
  have hnames : ∀ p, p ∉ (((c.part i).2.1.host c.store).touches o).writes →
      ((((c.part i).2.1.host c.store).answer ch o).2.fs.view []).node p = c.store.node p :=
    fun p hp => hfollows.names p fun hmem => hp (hsub.writes p hmem)
  refine ⟨fun j => ?_, fun j path hbusy hpath => ?_, fun j payload hpayload => ?_⟩
  · by_cases hj : j = i
    · subst hj
      have hcautious := hw.cautious j
      rw [hc] at hcautious
      rw [Shared.next_part_self, Function.update_self]
      exact (hcautious _ _ rfl).2
    · rw [Shared.next_part_of_ne hj, Function.update_of_ne hj]
      exact hw.cautious j
  · by_cases hj : j = i
    · subst hj
      rw [Function.update_self] at hpath
      rw [Shared.next_part_self]
      rcases Memo.unused_answer hpath with ⟨ho, hold, hstat⟩ | ⟨rfl, hunused⟩
      · -- the call leaves all names as they are
        have hwrites : (((c.part j).2.1.host c.store).touches o).writes = [] := by
          cases o with
          | sys o =>
              cases o with
              | file call =>
                  obtain ⟨q, rfl⟩ := hstat call rfl
                  rfl
              | _ => rfl
          | _ => rfl
        have hvacant := hw.vacant j path (fun hrest => by
          rw [hc] at hrest
          exact absurd hrest (by show ¬isRequest o = true; rw [ho]; decide)) hold
        refine hvacant.kept hdirs (fun p _ => hnames p (by rw [hwrites]; exact List.not_mem_nil)) ?_
        rw [touchedAfter, ho]
        exact ⟨fun _ hp => List.mem_append_left _ hp, fun _ hp => List.mem_append_left _ hp⟩
      · -- the call has just looked there
        have hlooked : Vacant c.store (((c.part j).2.1.host c.store).touches (.sys (.file (.stat path))))
            path := by
          rw [show ((c.part j).2.1.host c.store).fs = c.store.view _ from rfl,
            Fs.fileType_view] at hunused
          refine ⟨hunused, fun p hp => ?_⟩
          rw [← (c.store.view_sameDirs (c.part j).2.1.handles).place] at hp
          exact Option.mem_toList.2 hp
        refine hlooked.kept hdirs (fun p _ => hnames p List.not_mem_nil) ?_
        exact ⟨fun _ hp => List.mem_append_right _ hp, fun _ hp => List.mem_append_right _ hp⟩
    · rw [Function.update_of_ne hj] at hpath
      rw [Shared.next_part_of_ne hj] at hbusy ⊢
      -- another session's free path: the call writes nothing that session has touched
      refine (hw.vacant j path hbusy hpath).kept hdirs (fun p hp => hnames p fun hwrite => ?_) (.refl _)
      exact ((hapart j hj hbusy).writes p hwrite).1 hp
  · by_cases hj : j = i
    · subst hj
      rw [Function.update_self] at hpayload
      rw [Shared.next_part_self]
      exact Memo.request_answer (h := (c.part j).2.1.host c.store) (hw.accepted j) hpayload
    · rw [Function.update_of_ne hj] at hpayload
      rw [Shared.next_part_of_ne hj]
      exact hw.accepted j payload hpayload

omit [DecidableEq ι] in
theorem Wary.call (hw : Wary c m) {call : FileCall} {k : Sys.Ans (.sys (.file call)) → Program Sys α}
    (hc : (c.part i).1 = .call (.sys (.file call)) k) : CautiousCall (m i) call := by
  have hcautious := hw.cautious i
  rw [hc] at hcautious
  exact (hcautious (((c.part i).2.1.host c.store).answer .calm (.sys (.file call))).1 _ rfl).1 call rfl

end

/-! ## Runs that do no harm -/

/-- The call puts a file at the path. -/
def Takes (path : Buffer) (o : Sys.Op) : Prop :=
  o = .sys (.file (.openWrite path)) ∨ ∃ old, o = .sys (.file (.rename old path))

/-- A file is put only where there is none. -/
theorem Wary.takes {ι α : Type} {c : Shared ι Sys Fs (Seat × Footprint Path) α} {m : ι → Memo} {i : ι}
    {o : Sys.Op} {k : Sys.Ans o → Program Sys α} {path : Buffer} (hw : Wary c m)
    (hc : (c.part i).1 = .call o k) (ho : Takes path o) : c.store.fileType path ≠ some .regular := by
  have hbusy : ¬Resting (c.part i).1 := by
    rw [hc]
    show ¬isRequest o = true
    rcases ho with rfl | ⟨old, rfl⟩
    · exact Bool.false_ne_true
    · exact Bool.false_ne_true
  have hunused : (m i).unused = some path := by
    rcases ho with rfl | ⟨old, rfl⟩
    · exact hw.call hc
    · exact hw.call hc
  exact (hw.vacant i path hbusy hunused).unused

section

variable {ι : Type} [DecidableEq ι] {P : Platform} {fs : Fs} {start : ι → Session} {bound : ι → Nat}
  {console : ι → Console} {c : Shared ι Sys Fs (Seat × Footprint Path) (Except Exit Int × Session)}

/-- In an undisturbed run what the sessions know is so, at each call that they make. -/
theorem wary_run (hrun : Shared.Reaches (Undisturbed ι) (freshSessions P fs start bound console) c) :
    ∃ m, Wary c m := by
  induction hrun with
  | refl =>
      refine ⟨fun _ => ⟨none, none⟩, fun i => ?_, fun i path _ h => (by cases h),
        fun i p h => (by cases h)⟩
      have hcareful := (Worker.careful_commandLoop (P := P) (bound i)).program (x := start i)
        (s := ⟨none, none⟩) trivial
      exact hcareful.imp fun _ _ _ => trivial
  | @tail d d' hrun hstep ih =>
      obtain ⟨m, hw⟩ := ih
      obtain ⟨a, -, hmirrors, -⟩ := Mirrors.forth (mirrors_start P fs start bound console)
        (covers_start P fs start bound console) hrun
      obtain ⟨i, hc, ⟨⟨h', ⟨⟨ch, hanswer⟩, hlist⟩, hstore, hseat⟩, htouched, hapart⟩⟩ := hstep
      rename_i o k ans fs' l'
      obtain ⟨seat', f'⟩ := l'
      obtain rfl : (((d.part i).2.1.host d.store).answer ch o).1 = ans := congrArg Prod.fst hanswer
      obtain rfl : (((d.part i).2.1.host d.store).answer ch o).2 = h' := congrArg Prod.snd hanswer
      dsimp only at hstore hseat htouched
      subst hstore
      subst hseat
      subst htouched
      exact ⟨_, hw.next hmirrors hc hlist hapart ch⟩

/-- **Sessions that do not disturb each other.** In a run in which no call meets a file that a request
    under way of another session has touched, one of the two changing it, a file is created or renamed
    only to where there is none; and once all requests are handled, a run that handles them one after
    the other has the same files, and each worker in it received and sent the same. -/
theorem sessions_serialize (hrun : Shared.Reaches (Undisturbed ι)
      (freshSessions P fs start bound console) c) :
    (∀ i o k path, (c.part i).1 = .call o k → Takes path o → c.store.fileType path ≠ some .regular) ∧
      ((∀ i, Resting (c.part i).1) → ∃ c', Shared.Reaches (OneByOne ι)
        (sessions P fs start bound console) c' ∧ SameEnd (c.mapPart Prod.fst) c') := by
  constructor
  · intro i o k path hc ho
    obtain ⟨m, hw⟩ := wary_run hrun
    exact hw.takes hc ho
  · intro hrest
    obtain ⟨a, hreach, hmirrors, -⟩ := Mirrors.forth (mirrors_start P fs start bound console)
      (covers_start P fs start bound console) hrun
    have hidle₀ : ∀ i, (disk ι fs).Idle ((diskSessions P fs start bound console).part i).1 :=
      fun i => (idle_disk _).2 (resting_commandLoop P (bound i) (start i))
    have hidle : ∀ i, (disk ι fs).Idle (a.part i).1 := by
      intro i
      rw [idle_disk, hmirrors.program i]
      exact hrest i
    obtain ⟨c', hreach', hmirrors'⟩ := (mirrors_start P fs start bound console).back
      (Interaction.Keyed.serializable hidle₀ hreach hidle)
    exact ⟨c', hreach', hmirrors.sameEnd hmirrors'⟩

end

/-! ## Files that stay -/

/-- Two names have a file. -/
def TwoFiles (fs : Fs) : Prop :=
  ∃ p q i j, p ≠ q ∧ fs.node p = some (.file i) ∧ fs.node q = some (.file j)

theorem TwoFiles.of_kept {fs fs' : Fs} (h : TwoFiles fs)
    (hkept : ∀ r i, fs.node r = some (.file i) → ∃ i', fs'.node r = some (.file i')) :
    TwoFiles fs' := by
  obtain ⟨p, q, i, j, hpq, hp, hq⟩ := h
  obtain ⟨i', hp'⟩ := hkept p i hp
  obtain ⟨j', hq'⟩ := hkept q j hq
  exact ⟨p, q, i', j', hpq, hp', hq'⟩

theorem Fs.openWrite_kept {fs : Fs} {path : Buffer} {r : Path} {i : Nat}
    (hr : fs.node r = some (.file i)) : (fs.openWrite path).2.node r = some (.file i) := by
  cases hres : fs.resolve path with
  | error e =>
      rw [openWrite_fail fun p hp => by rw [hres] at hp; cases hp]
      exact hr
  | ok p =>
      cases hp : fs.node p with
      | none =>
          rw [(openWrite_free hres hp).2]
          have hne := (fs.resolve_makeable hres hp).1
          have hrp : r ≠ p := fun heq => by rw [heq, hp] at hr; cases hr
          have hnode := FsState.node_enter fs.newInode hne (.file fs.nextInode) r
          rw [if_neg hrp] at hnode
          exact hnode.trans hr
      | some n =>
          cases n with
          | dir =>
              rw [openWrite_fail fun p' hp' => by rw [hres] at hp'; cases hp'; exact hp]
              exact hr
          | file j =>
              rw [(openWrite_file hres hp).2]
              exact hr

/-- Two files stay two, where none is removed and none is given a name in use. -/
theorem TwoFiles.answer {fs : Fs} {c : FileCall} (h : TwoFiles fs)
    (hdirs : ∀ path, c ≠ .createDirectory path) (hremove : ∀ path, c ≠ .remove path)
    (hrename : ∀ old path, c = .rename old path → fs.fileType path ≠ some .regular) (fault : Bool) :
    TwoFiles (c.answer fault fs).2 := by
  cases fault with
  | true => cases c <;> exact h
  | false =>
      cases c with
      | stat path => exact h
      | fileSize path => exact h
      | list path => exact h
      | createDirectory path => exact absurd rfl (hdirs path)
      | remove path => exact absurd rfl (hremove path)
      | openRead path =>
          refine h.of_kept fun r i hr => ⟨i, ?_⟩
          simp only [FileCall.answer, Bool.false_eq_true, if_false]
          split
          · exact hr
          · exact hr
      | openWrite path => exact h.of_kept fun r i hr => ⟨i, Fs.openWrite_kept hr⟩
      | read handle n =>
          refine h.of_kept fun r i hr => ⟨i, ?_⟩
          simp only [FileCall.answer, Bool.false_eq_true, if_false, Fs.read]
          split
          · exact hr
          · exact hr
      | write handle b =>
          refine h.of_kept fun r i hr => ⟨i, ?_⟩
          simp only [FileCall.answer, Bool.false_eq_true, if_false, Fs.write]
          split
          · exact hr
          · exact hr
      | rename old path =>
          simp only [FileCall.answer, Bool.false_eq_true, if_false]
          rcases Fs.rename_cases fs old path with ⟨-, heq⟩ | ⟨p, i, -, -, -, heq⟩ |
            ⟨p, q, i, hp, hq, hpi, hqn, -, hstate⟩ | ⟨p, q, i, j, hp, hq, hpi, hqj, -⟩
          · rw [heq]
            exact h
          · rw [heq]
            exact h
          · have hnode : ∀ r, (fs.rename old path).2.node r =
                if r = q then some (.file i) else if r = p then none else fs.node r := by
              intro r
              rw [hstate, FsState.node_enter _ (fs.resolve_makeable hq hqn).1,
                FsState.node_unlink _ (Fs.ne_nil_of_file hpi)]
            have hstays : ∀ r j, r ≠ p → fs.node r = some (.file j) →
                (fs.rename old path).2.node r = some (.file j) := by
              intro r j hrp hr
              rw [hnode, if_neg, if_neg hrp, hr]
              rintro rfl
              rw [hqn] at hr
              cases hr
            have hmoved : (fs.rename old path).2.node q = some (.file i) := by rw [hnode, if_pos rfl]
            have hneq : ∀ r j, fs.node r = some (.file j) → r ≠ q := by
              rintro r j hr rfl
              rw [hqn] at hr
              cases hr
            -- at most one of the two is the one that moves
            obtain ⟨x, y, jx, jy, hxy, hx, hy⟩ := h
            by_cases hxp : x = p
            · exact ⟨q, y, i, jy, (hneq y jy hy).symm, hmoved,
                hstays y jy (fun hyp => hxy (hxp.trans hyp.symm)) hy⟩
            · by_cases hyp : y = p
              · exact ⟨x, q, jx, i, hneq x jx hx, hstays x jx hxp hx, hmoved⟩
              · exact ⟨x, y, jx, jy, hxy, hstays x jx hxp hx, hstays y jy hyp hy⟩
          · exact absurd (Fs.fileType_regular.2 ⟨q, j, hq, hqj⟩) (hrename old path rfl)

/-- A session was asked to delete a file. -/
def Deletes (notes : List Note) : Prop :=
  ∃ payload, HasAccepted notes payload ∧ commandCode payload = RequestCodes.deleteReq

/-- The note of a request to delete. -/
def asksToDelete : Note → Bool
  | .accepted _ payload _ => commandCode payload == RequestCodes.deleteReq
  | _ => false

instance (notes : List Note) : Decidable (Deletes notes) :=
  decidable_of_iff (∃ e ∈ notes, asksToDelete e = true) (by
    constructor
    · rintro ⟨e, hmem, he⟩
      cases e with
      | accepted n payload frame => exact ⟨payload, ⟨n, frame, hmem⟩, beq_iff_eq.1 he⟩
      | _ => cases he
    · rintro ⟨payload, ⟨n, frame, hmem⟩, hcode⟩
      exact ⟨_, hmem, beq_iff_eq.2 hcode⟩)

section

variable {ι : Type} [DecidableEq ι] {P : Platform} {fs : Fs} {start : ι → Session} {bound : ι → Nat}
  {console : ι → Console} {c : Shared ι Sys Fs (Seat × Footprint Path) (Except Exit Int × Session)}

/-- Two files stay two in an undisturbed run, unless a session is asked to delete one. -/
theorem twoFiles_run (hfs : TwoFiles fs)
    (hrun : Shared.Reaches (Undisturbed ι) (freshSessions P fs start bound console) c) :
    TwoFiles c.store ∨ ∃ i, Deletes (c.part i).2.1.notes := by
  induction hrun with
  | refl => exact Or.inl hfs
  | @tail d d' hrun hstep ih =>
      obtain ⟨m, hw⟩ := wary_run hrun
      obtain ⟨a, -, hmirrors, -⟩ := Mirrors.forth (mirrors_start P fs start bound console)
        (covers_start P fs start bound console) hrun
      obtain ⟨i, hc, ⟨⟨h', ⟨⟨ch, hanswer⟩, hlist⟩, hstore, hseat⟩, -⟩⟩ := hstep
      rename_i o k ans fs' l'
      obtain ⟨seat', f'⟩ := l'
      obtain rfl : (((d.part i).2.1.host d.store).answer ch o).2 = h' := congrArg Prod.snd hanswer
      dsimp only at hstore hseat
      subst hstore
      subst hseat
      have hkeep : ∀ j, Deletes (d.part j).2.1.notes → ∃ j', Deletes
          ((d.next i ((((d.part i).2.1.host d.store).answer ch o).2.fs.view []) (k ans)
            ((((d.part i).2.1.host d.store).answer ch o).2.seat, f')).part j').2.1.notes := by
        rintro j ⟨payload, haccepted, hcode⟩
        refine ⟨j, payload, ?_, hcode⟩
        by_cases hj : j = i
        · subst hj
          rw [Shared.next_part_self]
          exact HasAccepted.answer (h := (d.part j).2.1.host d.store) haccepted ch o
        · rw [Shared.next_part_of_ne hj]
          exact haccepted
      rcases ih with htwo | ⟨j, hdeletes⟩
      · rcases Host.fs_answer ((d.part i).2.1.host d.store) ch o with hsame | ⟨call, rfl, hcall⟩
        · left
          refine htwo.of_kept fun r j hr => ⟨j, ?_⟩
          rw [Shared.next_store, hsame]
          exact hr
        · by_cases hremove : ∃ path, call = .remove path
          · obtain ⟨path, rfl⟩ := hremove
            obtain ⟨payload, hrequest, hcode⟩ := hw.call hc
            exact Or.inr (hkeep i ⟨payload, hw.accepted i payload hrequest, hcode⟩)
          · left
            have hview : TwoFiles ((d.part i).2.1.host d.store).fs := htwo.of_kept fun r j hr => ⟨j, hr⟩
            have hafter := hview.answer (c := call)
              (fun path hpath => by
                have htidy := hmirrors.tidyCall hc ch call rfl
                rw [hpath] at htidy
                exact htidy)
              (fun path hpath => hremove ⟨path, hpath⟩) (fun old path hpath => by
                rw [show ((d.part i).2.1.host d.store).fs = d.store.view _ from rfl, Fs.fileType_view]
                exact hw.takes hc (Or.inr ⟨old, by rw [hpath]⟩)) ch.fault
            rw [Shared.next_store, hcall]
            exact hafter.of_kept fun r j hr => ⟨j, hr⟩
      · exact Or.inr (hkeep j hdeletes)

omit [DecidableEq ι] in
theorem closed_freshSessions : (freshSessions P fs start bound console).mapPart Prod.fst =
    sessions P fs start bound console := rfl

end

/-- One after the other, no request disturbs another. -/
theorem OneByOne.undisturbed {ι α : Type} [DecidableEq ι] {c₀ c : Shared ι Sys Fs Seat α}
    (hrun : Shared.Reaches (OneByOne ι) c₀ c) (d₀ : Shared ι Sys Fs (Seat × Footprint Path) α)
    (hd₀ : d₀.mapPart Prod.fst = c₀) :
    ∃ d, d.mapPart Prod.fst = c ∧ Shared.Reaches (Undisturbed ι) d₀ d := by
  induction hrun with
  | refl => exact ⟨d₀, hd₀, .refl⟩
  | tail _ hstep ih =>
      obtain ⟨d, rfl, hreach⟩ := ih
      obtain ⟨i, hc, hanswer, hrest⟩ := hstep
      rename_i o k ans fs' seat'
      refine ⟨d.next i fs' (k ans) (seat', touchedAfter (d.part i).2.2 ((d.part i).2.1.host d.store) o),
        Shared.mapPart_next _, hreach.tail (.call i hc ⟨hanswer, rfl, fun j hj hbusy => ?_⟩)⟩
      exact absurd (hrest j hj) hbusy

/-! ## Two renames -/

/-- Two sessions of a user who has the files `a` and `b`, for one request each. -/
def twoSessions : Shared Bool Sys Fs Seat (Except Exit Int × Session) :=
  sessions (.plain .little) (storeOf [ascii "a", ascii "b"]) (fun _ => .start (ascii "user1") [])
    (fun _ => 1) fun _ => ⟨[], false, false⟩

/-- The first session is asked to rename `a`, and has looked for both names when the second one is
    asked to rename `b`. -/
def renameBoth (newA newB : Buffer) : List (Bool × Choice) :=
  (false, .deliver (plainFrame 0 (RenameM1.new (ascii "a") newA).serialize)) ::
    List.replicate 7 (false, .calm) ++
    (true, .deliver (plainFrame 0 (RenameM1.new (ascii "b") newB).serialize)) ::
    List.replicate 12 (true, .calm) ++ List.replicate 5 (false, .calm)

/-- A request to list the folder. -/
def isListing : Sys.Op → Bool
  | .sys (.file (.list _)) => true
  | _ => false

instance {Key : Type} [DecidableEq Key] (f g : Footprint Key) : Decidable (f.Apart g) :=
  decidable_of_iff ((∀ k ∈ g.writes, k ∉ f.reads ∧ k ∉ f.writes) ∧ ∀ k ∈ g.reads, k ∉ f.writes)
    ⟨fun h => ⟨h.1, h.2⟩, fun h => ⟨h.writes, h.reads⟩⟩

instance {α : Type} : ∀ p : Program Sys α, Decidable (Resting p)
  | .ret _ => .isTrue trivial
  | .call o _ => inferInstanceAs (Decidable (isRequest o = true))

section

variable {ι : Type} [DecidableEq ι] {α : Type}

/-- One call of a session, answered with a given choice, and what it touches. -/
def trackedTurn (c : Shared ι Sys Fs (Seat × Footprint Path) α) (i : ι) (ch : Choice) :
    Shared ι Sys Fs (Seat × Footprint Path) α :=
  match (c.part i).1 with
  | .ret _ => c
  | .call o k =>
    let h := (c.part i).2.1.host c.store
    let r := h.answer ch o
    c.next i (r.2.fs.view []) (k r.1) (r.2.seat, touchedAfter (c.part i).2.2 h o)

/-- The call of a session that is next disturbs no other. -/
def Peaceful (c : Shared ι Sys Fs (Seat × Footprint Path) α) (i : ι) : Prop :=
  match (c.part i).1 with
  | .ret _ => True
  | .call o _ => isListing o = false ∧ ∀ j, j ≠ i → ¬Resting (c.part j).1 →
      (c.part j).2.2.Apart (((c.part i).2.1.host c.store).touches o)

instance [Fintype ι] (c : Shared ι Sys Fs (Seat × Footprint Path) α) (i : ι) :
    Decidable (Peaceful c i) :=
  match hc : (c.part i).1 with
  | .ret _ => .isTrue (by simp [Peaceful, hc])
  | .call o _ => decidable_of_iff (isListing o = false ∧ ∀ j, j ≠ i → ¬Resting (c.part j).1 →
      (c.part j).2.2.Apart (((c.part i).2.1.host c.store).touches o)) (by simp [Peaceful, hc])

/-- The calls of a schedule, as long as they disturb no other session. -/
def trackedTurns [Fintype ι] : List (ι × Choice) → Shared ι Sys Fs (Seat × Footprint Path) α →
    Option (Shared ι Sys Fs (Seat × Footprint Path) α)
  | [], c => some c
  | (i, ch) :: schedule, c =>
    if Peaceful c i then trackedTurns schedule (trackedTurn c i ch) else none

theorem Peaceful.reaches {c : Shared ι Sys Fs (Seat × Footprint Path) α} {i : ι}
    (h : Peaceful c i) (ch : Choice) : Shared.Reaches (Undisturbed ι) c (trackedTurn c i ch) := by
  unfold Peaceful at h
  unfold trackedTurn
  cases hc : (c.part i).1 with
  | ret _ => exact .refl
  | call o k =>
      rw [hc] at h
      obtain ⟨hlist, hapart⟩ := h
      refine .single (.call i hc ⟨⟨_, ⟨⟨ch, rfl⟩, fun path ho => ?_⟩, rfl, rfl⟩, rfl, hapart⟩)
      rw [ho] at hlist
      cases hlist

theorem trackedTurns_reaches [Fintype ι] {schedule : List (ι × Choice)}
    {c d : Shared ι Sys Fs (Seat × Footprint Path) α} (h : trackedTurns schedule c = some d) :
    Shared.Reaches (Undisturbed ι) c d := by
  induction schedule generalizing c with
  | nil =>
      cases h
      exact .refl
  | cons e schedule ih =>
      obtain ⟨i, ch⟩ := e
      rw [trackedTurns] at h
      split_ifs at h with hpeaceful
      exact (hpeaceful.reaches ch).trans (ih h)

end

set_option maxRecDepth 20000 in
/-- Two overlapping renames to different names. -/
theorem sessions_serialize_renames : ∃ c : Shared Bool Sys Fs (Seat × Footprint Path) _,
    c.store.list (ascii "../data/user1") = some [ascii "c", ascii "d"] ∧
      ∃ c', Shared.Reaches (OneByOne Bool) twoSessions c' ∧ SameEnd (c.mapPart Prod.fst) c' := by
  obtain ⟨c, hc⟩ : ∃ c, trackedTurns (renameBoth (ascii "c") (ascii "d"))
      (twoSessions.mapPart fun seat => (seat, .none)) = some c :=
    Option.isSome_iff_exists.1 (by decide +kernel)
  have hend : (trackedTurns (renameBoth (ascii "c") (ascii "d"))
      (twoSessions.mapPart fun seat => (seat, .none))).map (fun c =>
        (c.store.list (ascii "../data/user1"), decide (∀ i, Resting (c.part i).1))) =
      some (some [ascii "c", ascii "d"], true) := by decide +kernel
  rw [hc, Option.map_some, Option.some.injEq, Prod.mk.injEq, decide_eq_true_iff] at hend
  exact ⟨c, hend.1, (sessions_serialize (trackedTurns_reaches hc)).2 hend.2⟩

/-- Only one path has a file. -/
theorem eq_of_keys (fs : Fs) {p q : Path}
    (hkeys : ∀ r ∈ fs.entries.keys, (fs.contents r).isSome → r = q) (hp : fs.contents p ≠ none) :
    p = q := by
  obtain ⟨b, hb⟩ := Option.ne_none_iff_exists'.1 hp
  obtain ⟨i, hi, -⟩ := Fs.contents_eq_some.1 hb
  have hlookup : fs.entries.lookup p = some (.file i) := by
    unfold FsState.node at hi
    rwa [if_neg (Fs.ne_nil_of_file hi)] at hi
  have hmem : p ∈ fs.entries := AList.lookup_isSome.1 (by rw [hlookup]; rfl)
  exact hkeys p (AList.mem_keys.1 hmem) (by rw [hb]; rfl)

set_option maxRecDepth 20000 in
/-- Two overlapping renames to one name: both are acknowledged, and a file is gone. -/
theorem renames_lose_a_file : ¬∀ (P : Platform) (fs : Fs) (start : Bool → Session)
    (bound : Bool → Nat) (console : Bool → Console) c,
      Shared.Reaches (OnStore Bool Unlisted) (sessions P fs start bound console) c →
        (∀ i, Resting (c.part i).1) →
          ∃ c', Shared.Reaches (OneByOne Bool) (sessions P fs start bound console) c' ∧ SameEnd c c' := by
  intro hall
  have hpermits : Permits (fun _ o => isListing o = false) (renameBoth (ascii "c") (ascii "c"))
      twoSessions := by decide +kernel
  have hreach := hpermits.reaches.mono (E := OnStore Bool Unlisted)
    fun c i o a fs' seat' hstep => by
      obtain ⟨h', ⟨hanswer, hlist⟩, hrest⟩ := hstep
      refine ⟨h', ⟨hanswer, fun path ho => ?_⟩, hrest⟩
      rw [ho] at hlist
      cases hlist
  obtain ⟨c', hserial, hsame⟩ := hall _ _ _ _ _ _ hreach (by decide +kernel)
  obtain ⟨d, rfl, hrun⟩ := OneByOne.undisturbed hserial _ closed_freshSessions
  have htwo : TwoFiles (storeOf [ascii "a", ascii "b"]) :=
    ⟨[ascii "data", ascii "user1", ascii "a"], [ascii "data", ascii "user1", ascii "b"], 0, 1,
      by decide +kernel, by decide +kernel, by decide +kernel⟩
  rcases twoFiles_run htwo hrun with ⟨p, q, i, j, hpq, hp, hq⟩ | ⟨i, hdeletes⟩
  · -- only `c` is left
    have hleft : ∀ r, d.store.contents r ≠ none → r = [ascii "data", ascii "user1", ascii "c"] := by
      intro r hr
      have hcontents := hsame.contents r
      refine eq_of_keys (turns (renameBoth (ascii "c") (ascii "c")) twoSessions).store
        (by decide +kernel) ?_
      rw [← hcontents]
      exact hr
    have hp' := hleft p (by rw [Fs.contents_of_file hp]; simp)
    have hq' := hleft q (by rw [Fs.contents_of_file hq]; simp)
    exact hpq (hp'.trans hq'.symm)
  · -- no request to delete was accepted
    have hnotes := congrArg Seat.notes (hsame.seat i)
    have hclean : ∀ i, ¬Deletes
        ((turns (renameBoth (ascii "c") (ascii "c")) twoSessions).part i).2.notes := by decide +kernel
    have hdeletes' : Deletes ((d.mapPart Prod.fst).part i).2.closed.notes := hdeletes
    rw [hnotes] at hdeletes'
    exact hclean i hdeletes'

end CloudStorage
