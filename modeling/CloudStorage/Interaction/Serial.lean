import CloudStorage.Interaction.Shared

set_option autoImplicit false

/-! # Transactions

Programs on a store with keys, where each call reads some keys and writes some. A transaction of a
program is what it does from a call that `starts` one up to the next such call or its end.

`serializable` is about runs in which no call meets what another transaction under way has touched:
it writes no key that the other has read or written, and reads none that the other has written. Such a
run can be had one transaction after the other, each at the place where it ends. -/

namespace Interaction

/-- The keys that are read and written. -/
structure Footprint (Key : Type) where
  reads : List Key
  writes : List Key

namespace Footprint

variable {Key : Type}

def add (f g : Footprint Key) : Footprint Key := ⟨f.reads ++ g.reads, f.writes ++ g.writes⟩

/-- A call with the footprint `g` leaves alone what was touched with `f`. -/
structure Apart (f g : Footprint Key) : Prop where
  writes : ∀ k ∈ g.writes, k ∉ f.reads ∧ k ∉ f.writes
  reads : ∀ k ∈ g.reads, k ∉ f.writes

theorem Apart.symm {f g : Footprint Key} (h : f.Apart g) : g.Apart f where
  writes := fun k hk => ⟨fun hr => h.reads k hr hk, fun hw => (h.writes k hw).2 hk⟩
  reads := fun k hk hw => (h.writes k hw).1 hk

/-- What `f` touches, `g` does. -/
structure Sub (f g : Footprint Key) : Prop where
  reads : ∀ k ∈ f.reads, k ∈ g.reads
  writes : ∀ k ∈ f.writes, k ∈ g.writes

theorem Sub.refl (f : Footprint Key) : f.Sub f := ⟨fun _ => id, fun _ => id⟩

theorem Sub.add {f f' g g' : Footprint Key} (h : f.Sub f') (h' : g.Sub g') :
    (f.add g).Sub (f'.add g') where
  reads := fun k hk => List.mem_append.2 ((List.mem_append.1 hk).imp (h.reads k) (h'.reads k))
  writes := fun k hk => List.mem_append.2 ((List.mem_append.1 hk).imp (h.writes k) (h'.writes k))

theorem Apart.mono {f f' g g' : Footprint Key} (h : f.Apart g) (hf : f'.Sub f) (hg : g'.Sub g) :
    f'.Apart g' where
  writes := fun k hk =>
    ⟨fun hr => (h.writes k (hg.writes k hk)).1 (hf.reads k hr),
      fun hw => (h.writes k (hg.writes k hk)).2 (hf.writes k hw)⟩
  reads := fun k hk hw => h.reads k (hg.reads k hk) (hf.writes k hw)

/-- Nothing is touched. -/
def none : Footprint Key := ⟨[], []⟩

theorem none_apart (f : Footprint Key) : none.Apart f where
  writes := fun _ _ => ⟨List.not_mem_nil, List.not_mem_nil⟩
  reads := fun _ _ => List.not_mem_nil

/-- A key that was touched. -/
def Touches (f : Footprint Key) (k : Key) : Prop := k ∈ f.reads ∨ k ∈ f.writes

theorem mem_writes_add {f g : Footprint Key} {k : Key} :
    k ∈ (f.add g).writes ↔ k ∈ f.writes ∨ k ∈ g.writes := List.mem_append

theorem Apart.not_touches {f g : Footprint Key} (h : f.Apart g) {k : Key} (hk : g.Touches k) :
    k ∉ f.writes :=
  hk.elim (h.reads k) fun hw => (h.writes k hw).2

theorem touches_add {f g : Footprint Key} {k : Key} :
    (f.add g).Touches k ↔ f.Touches k ∨ g.Touches k := by
  simp only [Touches, add, List.mem_append]
  exact or_or_or_comm

end Footprint

/-- The values of `σ` at these keys, and those of `τ` elsewhere. -/
def overlay {Key Val : Type} [DecidableEq Key] (ks : List Key) (σ τ : Key → Val) : Key → Val :=
  fun k => if k ∈ ks then σ k else τ k

section

variable {Key Val : Type} [DecidableEq Key] {ks : List Key} {σ τ : Key → Val} {k : Key}

theorem overlay_of_mem (h : k ∈ ks) : overlay ks σ τ k = σ k := if_pos h

theorem overlay_of_not_mem (h : k ∉ ks) : overlay ks σ τ k = τ k := if_neg h

end

/-- How calls on a store with keys are answered: what a call does depends on the keys of its footprint
    alone, and it changes only those that it writes. -/
structure Keyed (ι : Type) (I : Interface) (Key Val L : Type) [DecidableEq Key] where
  starts : I.Op → Bool
  footprint : L → I.Op → Footprint Key
  answers : ι → (Key → Val) → L → (o : I.Op) → I.Ans o → (Key → Val) → L → Prop
  frame : ∀ {i σ l o a σ' l'}, answers i σ l o a σ' l' →
    ∀ k, k ∉ (footprint l o).writes → σ' k = σ k
  congr : ∀ {i σ l o a σ' l' τ}, answers i σ l o a σ' l' →
    (∀ k, (footprint l o).Touches k → τ k = σ k) →
    answers i τ l o a (overlay (footprint l o).writes σ' τ) l'

namespace Keyed

variable {ι : Type} [DecidableEq ι] {I : Interface} {Key Val L α : Type} [DecidableEq Key]
  (M : Keyed ι I Key Val L)

/-- Between two transactions, or at the end. -/
def Idle : Program I α → Prop
  | .ret _ => True
  | .call o _ => M.starts o = true

/-- What the transaction has touched after one more call. -/
def after (l : L × Footprint Key) (o : I.Op) : Footprint Key :=
  if M.starts o = true then M.footprint l.1 o else l.2.add (M.footprint l.1 o)

/-- A call is answered, and what it touches is added up. -/
def Answers (i : ι) (σ : Key → Val) (l : L × Footprint Key) (o : I.Op) (a : I.Ans o) (σ' : Key → Val)
    (l' : L × Footprint Key) : Prop :=
  M.answers i σ l.1 o a σ' l'.1 ∧ l'.2 = M.after l o

/-- No call meets what another transaction under way has touched. -/
def apart : Shared.Env ι I (Key → Val) (L × Footprint Key) α := fun c i o a σ' l' =>
  M.Answers i c.store (c.part i).2 o a σ' l' ∧
    ∀ j, j ≠ i → ¬M.Idle (c.part j).1 → (c.part j).2.2.Apart (M.footprint (c.part i).2.1 o)

/-- No call is made while another transaction is under way. -/
def serial : Shared.Env ι I (Key → Val) (L × Footprint Key) α := fun c i o a σ' l' =>
  M.Answers i c.store (c.part i).2 o a σ' l' ∧ ∀ j, j ≠ i → M.Idle (c.part j).1

variable {M}

/-! ## A transaction by itself -/

/-- A program that started a transaction on the store `σ₀`, and is in it or has just ended it. -/
inductive Under (M : Keyed ι I Key Val L) (i : ι) (σ₀ : Key → Val) :
    Program I α × (L × Footprint Key) → Program I α → (Key → Val) → L × Footprint Key → Prop where
  | start {o : I.Op} {k : I.Ans o → Program I α} {l : L × Footprint Key} {a : I.Ans o}
      {σ : Key → Val} {l' : L × Footprint Key} (hs : M.starts o = true)
      (ha : M.Answers i σ₀ l o a σ l') : Under M i σ₀ (.call o k, l) (k a) σ l'
  | call {d : Program I α × (L × Footprint Key)} {o : I.Op} {k : I.Ans o → Program I α}
      {σ : Key → Val} {l : L × Footprint Key} {a : I.Ans o} {σ' : Key → Val} {l' : L × Footprint Key}
      (h : Under M i σ₀ d (.call o k) σ l) (hs : M.starts o = false)
      (ha : M.Answers i σ l o a σ' l') : Under M i σ₀ d (k a) σ' l'

variable {i : ι} {σ₀ σ τ : Key → Val} {d : Program I α × (L × Footprint Key)} {p : Program I α}
  {l : L × Footprint Key}

omit [DecidableEq ι] in
theorem after_start {l : L × Footprint Key} {o : I.Op} (hs : M.starts o = true) :
    M.after l o = M.footprint l.1 o := if_pos hs

omit [DecidableEq ι] in
theorem after_call {l : L × Footprint Key} {o : I.Op} (hs : M.starts o = false) :
    M.after l o = l.2.add (M.footprint l.1 o) := if_neg (by rw [hs]; decide)

omit [DecidableEq ι] in
/-- A transaction changes only what it writes. -/
theorem Under.frame (h : Under M i σ₀ d p σ l) {k : Key} (hk : k ∉ l.2.writes) : σ k = σ₀ k := by
  induction h with
  | start hs ha =>
      rw [ha.2, after_start hs] at hk
      exact M.frame ha.1 k hk
  | call h hs ha ih =>
      rw [ha.2, after_call hs, Footprint.mem_writes_add, not_or] at hk
      rw [M.frame ha.1 k hk.2, ih hk.1]

omit [DecidableEq ι] in
/-- A transaction runs alike on a store that has the same values where it touches it. -/
theorem Under.congr (h : Under M i σ₀ d p σ l) (hτ : ∀ k, l.2.Touches k → τ k = σ₀ k) :
    Under M i τ d p (overlay l.2.writes σ τ) l := by
  induction h with
  | start hs ha =>
      rw [ha.2, after_start hs] at hτ
      refine .start hs ⟨?_, ha.2⟩
      rw [ha.2, after_start hs]
      exact M.congr ha.1 hτ
  | @call _ o k σ l a σ' l' h hs ha ih =>
      rw [ha.2, after_call hs] at hτ
      have hbefore : ∀ k, l.2.Touches k → τ k = σ₀ k :=
        fun k hk => hτ k (Footprint.touches_add.2 (Or.inl hk))
      refine .call (ih hbefore) hs ⟨?_, ha.2⟩
      -- where the call touches the store, it is as in the run that is copied
      have hsame : ∀ k, (M.footprint l.1 o).Touches k → overlay l.2.writes σ τ k = σ k := by
        intro k hk
        by_cases hw : k ∈ l.2.writes
        · exact overlay_of_mem hw
        · rw [overlay_of_not_mem hw, h.frame hw]
          exact hτ k (Footprint.touches_add.2 (Or.inr hk))
      have hcall := M.congr ha.1 hsame
      have hstore : overlay (M.footprint l.1 o).writes σ' (overlay l.2.writes σ τ) =
          overlay l'.2.writes σ' τ := by
        funext k
        rw [ha.2, after_call hs]
        by_cases hw : k ∈ (M.footprint l.1 o).writes
        · rw [overlay_of_mem hw, overlay_of_mem (Footprint.mem_writes_add.2 (Or.inr hw))]
        · rw [overlay_of_not_mem hw]
          by_cases hw' : k ∈ l.2.writes
          · rw [overlay_of_mem hw', overlay_of_mem (Footprint.mem_writes_add.2 (Or.inl hw')),
              M.frame ha.1 k hw]
          · rw [overlay_of_not_mem hw', overlay_of_not_mem]
            exact fun hmem => (Footprint.mem_writes_add.1 hmem).elim hw' hw
      rw [← hstore]
      exact hcall

/-- A transaction that runs by itself, while all others rest. -/
theorem Under.reaches {c : Shared ι I (Key → Val) (L × Footprint Key) α}
    (h : Under M i σ₀ d p σ l) (hd : c.part i = d) (hσ : c.store = σ₀)
    (hrest : ∀ j, j ≠ i → M.Idle (c.part j).1) :
    Shared.Reaches M.serial c (c.next i σ p l) := by
  induction h with
  | @start o k l a σ l' hs ha =>
      refine .single (.call i (o := o) (k := k) (a := a) (by rw [hd]) ⟨?_, hrest⟩)
      rw [hd, hσ]
      exact ha
  | @call d o k σ l a σ' l' h hs ha ih =>
      have hstep : Shared.Step M.serial (c.next i σ (.call o k) l)
          ((c.next i σ (.call o k) l).next i σ' (k a) l') := by
        refine .call i (o := o) (k := k) (a := a) (by rw [Shared.next_part_self]) ⟨?_, fun j hj => ?_⟩
        · rw [Shared.next_part_self]
          exact ha
        · rw [Shared.next_part_of_ne hj]
          exact hrest j hj
      have hnext : (c.next i σ (.call o k) l).next i σ' (k a) l' = c.next i σ' (k a) l' := by
        simp [Shared.next]
      rw [hnext] at hstep
      exact (ih hd).tail hstep

/-! ## All transactions -/

/-- Program `i` rests as in `d`, or is in a transaction that it started there; `f` is what it has
    touched, and `σ` the store as it would be without the others. -/
inductive Since (M : Keyed ι I Key Val L) (d : Shared ι I (Key → Val) (L × Footprint Key) α) (i : ι) :
    Program I α × (L × Footprint Key) → (Key → Val) → Footprint Key → Prop where
  | rest (hd : M.Idle (d.part i).1) : Since M d i (d.part i) d.store .none
  | busy {p : Program I α} {l : L × Footprint Key} {σ : Key → Val} (hp : ¬M.Idle p)
      (h : Under M i d.store (d.part i) p σ l) : Since M d i (p, l) σ l.2

omit [DecidableEq ι] in
theorem Since.frame {d : Shared ι I (Key → Val) (L × Footprint Key) α}
    {part : Program I α × (L × Footprint Key)} {f : Footprint Key} (h : Since M d i part σ f) {k : Key}
    (hk : k ∉ f.writes) : σ k = d.store k := by
  cases h with
  | rest hd => rfl
  | busy hp h => exact h.frame hk

/-- A run in which transactions overlap, and the serial run of those that have ended: where a
    transaction under way has touched the store it is as that transaction left it, and where none has
    written it is as the others left it. -/
structure Overlap (M : Keyed ι I Key Val L) (c₀ c d : Shared ι I (Key → Val) (L × Footprint Key) α)
    (σ : ι → Key → Val) (f : ι → Footprint Key) : Prop where
  serial : Shared.Reaches M.serial c₀ d
  idle : ∀ i, M.Idle (d.part i).1
  since : ∀ i, Since M d i (c.part i) (σ i) (f i)
  touched : ∀ i k, (f i).Touches k → c.store k = σ i k
  free : ∀ k, (∀ i, k ∉ (f i).writes) → c.store k = d.store k
  apart : ∀ i j, i ≠ j → (f i).Apart (f j)

variable {c₀ c c' e : Shared ι I (Key → Val) (L × Footprint Key) α} {σs : ι → Key → Val}
  {f : ι → Footprint Key}

/-- What a call of `i` touches is in the store as it would be without the others. -/
theorem Overlap.seen (h : Overlap M c₀ c e σs f) {g : Footprint Key}
    (hg : ∀ j, j ≠ i → (f j).Apart g) {k : Key} (hk : g.Touches k) : c.store k = σs i k := by
  by_cases ht : (f i).Touches k
  · exact h.touched i k ht
  · have hwrites : ∀ j, k ∉ (f j).writes := by
      intro j hmem
      by_cases hj : j = i
      · subst hj
        exact ht (Or.inr hmem)
      · rcases hk with hr | hw
        · exact (hg j hj).reads k hr hmem
        · exact ((hg j hj).writes k hw).2 hmem
    rw [h.free k hwrites, (h.since i).frame (hwrites i)]

omit [DecidableEq ι] in
/-- What a transaction under way has touched is what it says. -/
theorem Since.apart {d : Shared ι I (Key → Val) (L × Footprint Key) α}
    {part : Program I α × (L × Footprint Key)} {f g : Footprint Key} (h : Since M d i part σ f)
    (hg : ¬M.Idle part.1 → part.2.2.Apart g) : f.Apart g := by
  cases h with
  | rest hd => exact Footprint.none_apart g
  | busy hp h => exact hg hp

/-- One more call of a program, on the store as it would be without the others. -/
theorem Overlap.call (h : Overlap M c₀ c e σs f) {o : I.Op} {k : I.Ans o → Program I α} {a : I.Ans o}
    {s' : Key → Val} {l' : L × Footprint Key} (hc : (c.part i).1 = .call o k)
    (ha : M.Answers i c.store (c.part i).2 o a s' l')
    (hg : ∀ j, j ≠ i → (f j).Apart (M.footprint (c.part i).2.1 o)) :
    Under M i e.store (e.part i) (k a)
        (overlay (M.footprint (c.part i).2.1 o).writes s' (σs i)) l' ∧
      (∀ x, l'.2.Touches x ↔ (f i).Touches x ∨ (M.footprint (c.part i).2.1 o).Touches x) ∧
      ∀ x, x ∈ l'.2.writes ↔ x ∈ (f i).writes ∨ x ∈ (M.footprint (c.part i).2.1 o).writes := by
  have hcall := M.congr ha.1 fun x hx => (h.seen hg hx).symm
  have hafter := ha.2
  have hsince := h.since i
  generalize σs i = σ at hsince hcall ⊢
  generalize f i = fi at hsince ⊢
  generalize hpart : c.part i = part at hc hafter hsince hcall ⊢
  cases hsince with
  | rest hd =>
      have hs : M.starts o = true := by
        rw [hc] at hd
        exact hd
      have hd' : e.part i = (.call o k, (e.part i).2) := Prod.ext hc rfl
      rw [after_start hs] at hafter
      refine ⟨?_, fun x => ?_, fun x => ?_⟩
      · have hstart := Under.start (k := k) hs ⟨hcall, (after_start hs).symm ▸ hafter⟩
        rw [← hd'] at hstart
        exact hstart
      · rw [hafter]
        simp [Footprint.none, Footprint.Touches]
      · rw [hafter]
        simp [Footprint.none]
  | @busy p l σ hp hunder =>
      obtain rfl : p = .call o k := hc
      have hs : M.starts o = false := Bool.eq_false_iff.2 hp
      rw [after_call hs] at hafter
      refine ⟨hunder.call hs ⟨hcall, (after_call hs).symm ▸ hafter⟩, fun x => ?_, fun x => ?_⟩
      · rw [hafter]
        exact Footprint.touches_add
      · rw [hafter]
        exact Footprint.mem_writes_add

/-- A call after which its transaction goes on. -/
theorem Overlap.busy (h : Overlap M c₀ c e σs f) {o : I.Op} {k : I.Ans o → Program I α} {a : I.Ans o}
    {s' : Key → Val} {l' : L × Footprint Key} (hc : (c.part i).1 = .call o k)
    (ha : M.Answers i c.store (c.part i).2 o a s' l')
    (hg : ∀ j, j ≠ i → (f j).Apart (M.footprint (c.part i).2.1 o)) (hbusy : ¬M.Idle (k a)) :
    Overlap M c₀ (c.next i s' (k a) l') e
      (Function.update σs i (overlay (M.footprint (c.part i).2.1 o).writes s' (σs i)))
      (Function.update f i l'.2) := by
  obtain ⟨hunder, htouch, hwrite⟩ := h.call hc ha hg
  have hframe := M.frame ha.1
  -- what the transaction has touched with this call stays apart from the others
  have hapart : ∀ j, j ≠ i → (f j).Apart l'.2 := by
    intro j hj
    refine ⟨fun x hx => ?_, fun x hx hw => ?_⟩
    · rcases (hwrite x).1 hx with hx | hx
      · exact (h.apart j i hj).writes x hx
      · exact (hg j hj).writes x hx
    · rcases (htouch x).1 (Or.inl hx) with hx | hx
      · exact (h.apart j i hj).not_touches hx hw
      · exact (hg j hj).not_touches hx hw
  -- the serial run does not move: only the transaction's own view of the store does
  refine ⟨h.serial, h.idle, fun j => ?_, fun j x hx => ?_, fun x hx => ?_, fun j j' hne => ?_⟩
  · by_cases hj : j = i
    · subst hj
      rw [Shared.next_part_self, Function.update_self, Function.update_self]
      exact .busy hbusy hunder
    · rw [Shared.next_part_of_ne hj, Function.update_of_ne hj, Function.update_of_ne hj]
      exact h.since j
  · rw [Shared.next_store]
    by_cases hj : j = i
    · subst hj
      rw [Function.update_self] at hx ⊢
      -- what the call writes is the transaction's, and the rest is as it was
      by_cases hw : x ∈ (M.footprint (c.part j).2.1 o).writes
      · exact (overlay_of_mem hw).symm
      · rw [overlay_of_not_mem hw, hframe x hw]
        rcases (htouch x).1 hx with hx | hx
        · exact h.touched j x hx
        · exact h.seen hg hx
    · rw [Function.update_of_ne hj] at hx ⊢
      rw [hframe x fun hw => ?_]
      · exact h.touched j x hx
      · exact hx.elim ((hg j hj).writes x hw).1 ((hg j hj).writes x hw).2
  · have hx' : ∀ j, x ∉ (f j).writes := by
      intro j hmem
      by_cases hj : j = i
      · subst hj
        refine hx j ?_
        rw [Function.update_self]
        exact (hwrite x).2 (Or.inl hmem)
      · refine hx j ?_
        rw [Function.update_of_ne hj]
        exact hmem
    rw [Shared.next_store, hframe x fun hw => hx i ?_]
    · exact h.free x hx'
    · rw [Function.update_self]
      exact (hwrite x).2 (Or.inr hw)
  · by_cases hj : j = i
    · subst hj
      rw [Function.update_self, Function.update_of_ne (Ne.symm hne)]
      exact (hapart j' (Ne.symm hne)).symm
    · rw [Function.update_of_ne hj]
      by_cases hj' : j' = i
      · subst hj'
        rw [Function.update_self]
        exact hapart j hj
      · rw [Function.update_of_ne hj']
        exact h.apart j j' hne

/-- A call with which its transaction ends: the serial run gets the transaction, and the others are as
    if they had started after it. -/
theorem Overlap.commit (h : Overlap M c₀ c e σs f) {o : I.Op} {k : I.Ans o → Program I α} {a : I.Ans o}
    {s' : Key → Val} {l' : L × Footprint Key} (hc : (c.part i).1 = .call o k)
    (ha : M.Answers i c.store (c.part i).2 o a s' l')
    (hg : ∀ j, j ≠ i → (f j).Apart (M.footprint (c.part i).2.1 o)) (hidle : M.Idle (k a)) :
    let σ' := overlay (M.footprint (c.part i).2.1 o).writes s' (σs i)
    Overlap M c₀ (c.next i s' (k a) l') (e.next i σ' (k a) l')
      (fun j => if j = i then σ' else overlay (f j).writes (σs j) σ') (Function.update f i .none) := by
  intro σ'
  obtain ⟨hunder, htouch, hwrite⟩ := h.call hc ha hg
  have hframe := M.frame ha.1
  -- what another transaction has touched is not written by this one
  have hkept : ∀ j, j ≠ i → ∀ x, (f j).Touches x → x ∉ l'.2.writes := by
    intro j hj x hx hw
    rcases (hwrite x).1 hw with hw | hw
    · exact (h.apart i j (Ne.symm hj)).not_touches hx hw
    · exact hx.elim ((hg j hj).writes x hw).1 ((hg j hj).writes x hw).2
  refine ⟨h.serial.trans (hunder.reaches rfl rfl fun j _ => h.idle j), fun j => ?_, fun j => ?_,
    fun j x hx => ?_, fun x hx => ?_, fun j j' hne => ?_⟩
  · by_cases hj : j = i
    · subst hj
      rw [Shared.next_part_self]
      exact hidle
    · rw [Shared.next_part_of_ne hj]
      exact h.idle j
  -- the transaction that ends rests, and the others run on a store that has its writes
  · by_cases hj : j = i
    · subst hj
      rw [Shared.next_part_self, if_pos rfl, Function.update_self]
      have hrest := Since.rest (M := M) (d := e.next j σ' (k a) l') (i := j)
        (by rw [Shared.next_part_self]; exact hidle)
      rw [Shared.next_part_self] at hrest
      exact hrest
    · rw [Shared.next_part_of_ne hj, if_neg hj, Function.update_of_ne hj]
      have hsince := h.since j
      have hkeptj := hkept j hj
      generalize f j = fj at hsince hkeptj ⊢
      generalize σs j = σj at hsince ⊢
      generalize c.part j = part at hsince ⊢
      cases hsince with
      | rest hd =>
          have hrest := Since.rest (M := M) (d := e.next i σ' (k a) l') (i := j)
            (by rw [Shared.next_part_of_ne hj]; exact hd)
          rw [Shared.next_part_of_ne hj] at hrest
          exact hrest
      | busy hp hbusy =>
          refine .busy hp ?_
          rw [Shared.next_part_of_ne hj, Shared.next_store]
          exact hbusy.congr fun x hx => hunder.frame (hkeptj x hx)
  -- what the others have touched is as they left it
  · rw [Shared.next_store]
    by_cases hj : j = i
    · subst hj
      rw [Function.update_self] at hx
      exact (hx.elim List.not_mem_nil List.not_mem_nil).elim
    · rw [Function.update_of_ne hj] at hx
      have hnot : x ∉ (M.footprint (c.part i).2.1 o).writes :=
        fun hw => hkept j hj x hx ((hwrite x).2 (Or.inr hw))
      rw [if_neg hj, hframe x hnot, h.touched j x hx]
      by_cases hw : x ∈ (f j).writes
      · exact (overlay_of_mem hw).symm
      · rw [overlay_of_not_mem hw, (h.since j).frame hw]
        exact (hunder.frame (hkept j hj x hx)).symm
  -- what no transaction under way has written is as in the serial run
  · rw [Shared.next_store, Shared.next_store]
    show s' x = overlay (M.footprint (c.part i).2.1 o).writes s' (σs i) x
    by_cases hw : x ∈ (M.footprint (c.part i).2.1 o).writes
    · exact (overlay_of_mem hw).symm
    · rw [overlay_of_not_mem hw, hframe x hw]
      by_cases hw' : x ∈ (f i).writes
      · exact h.touched i x (Or.inr hw')
      · have hall : ∀ j, x ∉ (f j).writes := by
          intro j hmem
          by_cases hj : j = i
          · exact hw' (hj ▸ hmem)
          · refine hx j ?_
            rw [Function.update_of_ne hj]
            exact hmem
        rw [h.free x hall, (h.since i).frame hw']
  · by_cases hj : j = i
    · subst hj
      rw [Function.update_self]
      exact Footprint.none_apart _
    · rw [Function.update_of_ne hj]
      by_cases hj' : j' = i
      · subst hj'
        rw [Function.update_self]
        exact (Footprint.none_apart _).symm
      · rw [Function.update_of_ne hj']
        exact h.apart j j' hne

/-- **Transactions that keep apart can be had one after the other**: a run in which no call meets what
    another transaction under way has touched, and which ends between transactions, ends like a run in
    which no call is made while another transaction is under way. -/
theorem serializable (hidle₀ : ∀ i, M.Idle (c₀.part i).1) (hrun : Shared.Reaches M.apart c₀ c)
    (hidle : ∀ i, M.Idle (c.part i).1) : Shared.Reaches M.serial c₀ c := by
  have hoverlap : ∃ e σs f, Overlap M c₀ c e σs f := by
    clear hidle
    induction hrun with
    | refl =>
        exact ⟨c₀, fun _ => c₀.store, fun _ => .none, .refl, hidle₀, fun i => .rest (hidle₀ i),
          fun _ _ hx => (hx.elim List.not_mem_nil List.not_mem_nil).elim, fun _ _ => rfl,
          fun _ _ _ => Footprint.none_apart _⟩
    | tail _ hstep ih =>
        obtain ⟨e, σs, f, h⟩ := ih
        obtain ⟨i, hc, ha, hapart⟩ := hstep
        rename_i o k a s' l'
        have hg : ∀ j, j ≠ i → (f j).Apart _ := fun j hj => (h.since j).apart (hapart j hj)
        by_cases hend : M.Idle (k a)
        · exact ⟨_, _, _, h.commit hc ha hg hend⟩
        · exact ⟨_, _, _, h.busy hc ha hg hend⟩
  obtain ⟨e, σs, f, h⟩ := hoverlap
  have hrest : ∀ i, c.part i = e.part i ∧ f i = .none := by
    intro i
    have hsince := h.since i
    have hi := hidle i
    generalize c.part i = part at hsince hi ⊢
    generalize f i = fi at hsince ⊢
    generalize σs i = σ at hsince
    cases hsince with
    | rest _ => exact ⟨rfl, rfl⟩
    | busy hp _ => exact absurd hi hp
  have hsame : c = e := by
    have hstore : c.store = e.store := by
      funext x
      refine h.free x fun i hmem => ?_
      rw [(hrest i).2] at hmem
      exact List.not_mem_nil hmem
    have hpart : c.part = e.part := funext fun i => (hrest i).1
    cases c
    cases e
    cases hstore
    cases hpart
    rfl
  rw [hsame]
  exact h.serial

end Keyed

end Interaction
