import CloudStorage.Interaction.Dialogue

set_option autoImplicit false

/-! # Two programs over a reliable link

`Link` runs two networked programs over two first-in-first-out streams, in any interleaving. A
receive takes symbols, not blocks, so that nothing forces it to ask for what was sent.

The main result is `Link.in_step`. It needs one conversation: if the left program has a run with
conversation `t` and the right one a run with the mirrored conversation, then under every schedule
each receive asks for exactly the block that was sent, the link can always go on to the common end,
and it stops nowhere else. The invariant is `InStep`: one of the two is ahead of the other, by
blocks that it has sent and the other has not yet received. -/

namespace Interaction

open Program

variable {β : Type}

/-! ## Streams -/

/-- What is left of a stream of blocks after `n` of its symbols. -/
def dropSymbols : Nat → List (List β) → List (List β)
  | _, [] => []
  | n, b :: q => if b.length ≤ n then dropSymbols (n - b.length) q else b.drop n :: q

/-- Take `n` symbols from a stream of blocks. -/
def pull (n : Nat) (q : List (List β)) : Option (List β × List (List β)) :=
  if n ≤ q.flatten.length then some (q.flatten.take n, dropSymbols n q) else none

theorem dropSymbols_zero {q : List (List β)} (hq : ∀ b ∈ q, b ≠ []) : dropSymbols 0 q = q := by
  cases q with
  | nil => rfl
  | cons b q =>
      have hb : ¬b.length ≤ 0 := by
        simpa [List.length_eq_zero_iff] using hq b (List.mem_cons_self ..)
      rw [dropSymbols, if_neg hb, List.drop_zero]

/-- Asking for the length of the first block takes that block. -/
theorem pull_head {d : List β} {q : List (List β)} (hq : ∀ b ∈ q, b ≠ []) :
    pull d.length (d :: q) = some (d, q) := by
  have hlen : d.length ≤ (d :: q).flatten.length := by simp
  rw [pull, if_pos hlen, List.flatten_cons, List.take_left, dropSymbols, if_pos (Nat.le_refl _),
    Nat.sub_self, dropSymbols_zero hq]

theorem pull_nil {n : Nat} (hn : n ≠ 0) : pull n ([] : List (List β)) = none := by
  rw [pull, if_neg]
  simpa using hn

/-! ## The link -/

variable {J J' : Interface} {L L' α α' : Type}

/-- Two networked programs and the blocks on their way to each of them. -/
structure Link (β : Type) (J J' : Interface) (α α' L L' : Type) where
  left : Config β J α L
  right : Config β J' α' L'
  toRight : List (List β)
  toLeft : List (List β)

namespace Link

/-- One call of one of the two programs. -/
inductive Step (m : Machine J L) (m' : Machine J' L') :
    Link β J J' α α' L L' → Link β J J' α α' L L' → Prop where
  | leftSys {l l' r a b} (h : Does m l none l') : Step m m' ⟨l, r, a, b⟩ ⟨l', r, a, b⟩
  | leftSend {l l' r a b d} (h : Does m l (some (.sent d)) l') :
      Step m m' ⟨l, r, a, b⟩ ⟨l', r, a ++ [d], b⟩
  | leftGot {l l' r a b b' d} (h : Does m l (some (.got d)) l')
      (hp : pull d.length b = some (d, b')) : Step m m' ⟨l, r, a, b⟩ ⟨l', r, a, b'⟩
  | rightSys {l r r' a b} (h : Does m' r none r') : Step m m' ⟨l, r, a, b⟩ ⟨l, r', a, b⟩
  | rightSend {l r r' a b d} (h : Does m' r (some (.sent d)) r') :
      Step m m' ⟨l, r, a, b⟩ ⟨l, r', a, b ++ [d]⟩
  | rightGot {l r r' a a' b d} (h : Does m' r (some (.got d)) r')
      (hp : pull d.length a = some (d, a')) : Step m m' ⟨l, r, a, b⟩ ⟨l, r', a', b⟩

/-- Any number of calls of the two programs. -/
def Reaches (m : Machine J L) (m' : Machine J' L') :
    Link β J J' α α' L L' → Link β J J' α α' L L' → Prop :=
  Relation.ReflTransGen (Step m m')

/-- The same link seen from the other side. -/
def swap (k : Link β J J' α α' L L') : Link β J' J α' α L' L := ⟨k.right, k.left, k.toLeft, k.toRight⟩

variable {m : Machine J L} {m' : Machine J' L'} {k k' : Link β J J' α α' L L'}

@[simp]
theorem swap_swap : k.swap.swap = k := rfl

theorem Step.swap (h : Step m m' k k') : Step m' m k.swap k'.swap := by
  cases h with
  | leftSys h => exact .rightSys h
  | leftSend h => exact .rightSend h
  | leftGot h hp => exact .rightGot h hp
  | rightSys h => exact .leftSys h
  | rightSend h => exact .leftSend h
  | rightGot h hp => exact .leftGot h hp

theorem Reaches.swap (h : Reaches m m' k k') : Reaches m' m k.swap k'.swap := by
  induction h with
  | refl => exact .refl
  | tail _ hstep ih => exact ih.tail hstep.swap

/-! ## One side ahead of the other -/

/-- The left program is ahead: what it has still to say and hear is what the right one has, but for
    the blocks on their way to the right, and nothing is on its way to the left. -/
def Ahead (m : Machine J L) (m' : Machine J' L') (fl : Config β J α L) (fr : Config β J' α' L')
    (k : Link β J J' α α' L L') (ls ls' : List (Option (Talk β))) : Prop :=
  Path m k.left ls fl ∧ Path m' k.right ls' fr ∧ k.toLeft = [] ∧ (∀ d ∈ k.toRight, d ≠ []) ∧
    ls'.reduceOption = k.toRight.map .got ++ ls.reduceOption.map .mirror

/-- One of the two is ahead of the other, with `ls` and `ls'` still to do. -/
def InStep (m : Machine J L) (m' : Machine J' L') (fl : Config β J α L) (fr : Config β J' α' L')
    (k : Link β J J' α α' L L') (ls ls' : List (Option (Talk β))) : Prop :=
  Ahead m m' fl fr k ls ls' ∨ Ahead m' m fr fl k.swap ls' ls

variable {fl : Config β J α L} {fr : Config β J' α' L'} {ls ls' : List (Option (Talk β))}

/-- Every call of a link whose left side is ahead leaves one side ahead. -/
theorem Ahead.step (hfl : Resting m fl) (hfr : Resting m' fr) (h : Ahead m m' fl fr k ls ls')
    (hs : Step m m' k k') : ∃ ls₁ ls₁', InStep m m' fl fr k' ls₁ ls₁' := by
  obtain ⟨l, r, a, b⟩ := k
  obtain ⟨hl, hr, hb, ha, htalk⟩ := h
  obtain rfl : b = [] := hb
  cases hs with
  | leftSys hd =>
      obtain ⟨ls₀, rfl, hl₀⟩ := hl.after_quiet hfl hd (by simp)
      exact ⟨ls₀, ls', Or.inl ⟨hl₀, hr, rfl, ha, by simpa using htalk⟩⟩
  | @leftSend _ _ _ _ _ d hd =>
      obtain ⟨ls₀, rfl, hl₀⟩ := hl.after_quiet hfl hd (by simp)
      have htalk₀ : ls'.reduceOption = (a ++ [d]).map .got ++ ls₀.reduceOption.map .mirror := by
        simpa using htalk
      refine ⟨ls₀, ls', Or.inl ⟨hl₀, hr, rfl, fun d' hd' => ?_, htalk₀⟩⟩
      exact hr.got_ne_nil (htalk₀ ▸ List.mem_append_left _ (List.mem_map_of_mem hd'))
  | leftGot hd hp =>
      rw [pull_nil (by simpa using hd.got_ne_nil)] at hp
      cases hp
  | rightSys hd =>
      obtain ⟨ls₀, rfl, hr₀⟩ := hr.after_quiet hfr hd (by simp)
      exact ⟨ls, ls₀, Or.inl ⟨hl, hr₀, rfl, ha, by simpa using htalk⟩⟩
  | @rightSend _ _ _ _ _ d hd =>
      obtain ⟨ls₀, rfl, hr₀⟩ := hr.after_quiet hfr hd (by simp)
      -- the right one can only speak when nothing is on its way to it
      cases a with
      | cons a₀ a => simp at htalk
      | nil =>
          have hls : ls.reduceOption = [Talk.got d] ++ ls₀.reduceOption.map .mirror := by
            simpa [Function.comp_def] using (congrArg (List.map Talk.mirror) htalk).symm
          refine ⟨ls, ls₀, Or.inr ⟨hr₀, hl, rfl, fun d' hd' => ?_, hls⟩⟩
          obtain rfl : d' = d := by simpa [Link.swap] using hd'
          exact hl.got_ne_nil (hls ▸ List.mem_cons_self ..)
  | @rightGot _ _ _ _ a' _ d hd hp =>
      cases a with
      | nil =>
          rw [pull_nil (by simpa using hd.got_ne_nil)] at hp
          cases hp
      | cons a₀ a =>
          rcases hr.after_got hd with rfl | ⟨d₀, ls₀, rfl, hlen, hr₀⟩
          · simp at htalk
          · simp only [List.reduceOption_cons_of_some, List.map_cons, List.cons_append,
              List.cons.injEq, Talk.got.injEq] at htalk
            obtain ⟨rfl, htalk⟩ := htalk
            have ha' : ∀ b ∈ a, b ≠ [] := fun b hb => ha b (List.mem_cons_of_mem _ hb)
            rw [hlen, pull_head ha'] at hp
            cases hp
            exact ⟨ls, ls₀, Or.inl ⟨hl, hr₀ rfl, rfl, ha', htalk⟩⟩

theorem InStep.step (hfl : Resting m fl) (hfr : Resting m' fr) (h : InStep m m' fl fr k ls ls')
    (hs : Step m m' k k') : ∃ ls₁ ls₁', InStep m m' fl fr k' ls₁ ls₁' := by
  rcases h with h | h
  · exact h.step hfl hfr hs
  · obtain ⟨ls₁', ls₁, h'⟩ := h.step hfr hfl hs.swap
    exact ⟨ls₁, ls₁', Or.symm h'⟩

/-! ## What follows -/

/-- A program about to receive finds in the stream to it, if anything, a block of the length it
    asks for. -/
def Fits (c : Config β J α L) (q : List (List β)) : Prop :=
  ∀ n g, c.1 = .call (.recv n) g → ∀ d q', q = d :: q' → d.length = n

/-- Each side asks for what was sent. -/
def Aligned (k : Link β J J' α α' L L') : Prop := Fits k.left k.toLeft ∧ Fits k.right k.toRight

/-- Both are done, and nothing is left unread. -/
def ended (fl : Config β J α L) (fr : Config β J' α' L') : Link β J J' α α' L L' := ⟨fl, fr, [], []⟩

theorem Ahead.aligned (h : Ahead m m' fl fr k ls ls') : Aligned k := by
  obtain ⟨l, r, a, b⟩ := k
  obtain ⟨-, hr, hb, -, htalk⟩ := h
  obtain rfl : b = [] := hb
  refine ⟨fun n g _ d q' hq => absurd hq (by simp), fun n g hg d q' hq => ?_⟩
  obtain rfl : a = d :: q' := hq
  cases hr with
  | nil => simp at htalk
  | @cons _ _ _ e ls₀ hstep _ =>
      obtain ⟨d₀, hlen, rfl⟩ := hstep.of_recv hg
      simp only [List.reduceOption_cons_of_some, List.map_cons, List.cons_append,
        List.cons.injEq, Talk.got.injEq] at htalk
      rw [← htalk.1, hlen]

theorem InStep.aligned (h : InStep m m' fl fr k ls ls') : Aligned k := by
  rcases h with h | h
  · exact h.aligned
  · exact ⟨h.aligned.2, h.aligned.1⟩

/-- The right one moves when the left one, ahead of it, is not about to speak. -/
theorem Ahead.progress_right (h : Ahead m m' fl fr k ls ls') (hne : ls' ≠ [])
    (hquiet : ∀ d t, ls.reduceOption ≠ .sent d :: t) :
    ∃ k' ls₁ ls₁', Step m m' k k' ∧ InStep m m' fl fr k' ls₁ ls₁' ∧
      ls₁.length + ls₁'.length < ls.length + ls'.length := by
  obtain ⟨l, r, a, b⟩ := k
  obtain ⟨hl, hr, hb, ha, htalk⟩ := h
  obtain rfl : b = [] := hb
  cases hr with
  | nil => exact absurd rfl hne
  | @cons _ r' _ e ls₀ hd hr₀ =>
      match e with
      | none =>
          exact ⟨_, ls, ls₀, .rightSys hd, Or.inl ⟨hl, hr₀, rfl, ha, by simpa using htalk⟩, by simp⟩
      | some (.sent d) =>
          cases a with
          | cons a₀ a => simp at htalk
          | nil =>
              have hls : ls.reduceOption = [Talk.got d] ++ ls₀.reduceOption.map .mirror := by
                simpa [Function.comp_def] using (congrArg (List.map Talk.mirror) htalk).symm
              refine ⟨_, ls, ls₀, .rightSend hd, Or.inr ⟨hr₀, hl, rfl, fun d' hd' => ?_, hls⟩,
                by simp⟩
              obtain rfl : d' = d := by simpa [Link.swap] using hd'
              exact hl.got_ne_nil (hls ▸ List.mem_cons_self ..)
      | some (.got d) =>
          cases a with
          | nil =>
              refine absurd ?_ (hquiet d (ls₀.reduceOption.map .mirror))
              simpa [Function.comp_def] using (congrArg (List.map Talk.mirror) htalk).symm
          | cons a₀ a =>
              simp only [List.reduceOption_cons_of_some, List.map_cons, List.cons_append,
                List.cons.injEq, Talk.got.injEq] at htalk
              obtain ⟨rfl, htalk⟩ := htalk
              have ha' : ∀ b ∈ a, b ≠ [] := fun b hb => ha b (List.mem_cons_of_mem _ hb)
              exact ⟨_, ls, ls₀, .rightGot hd (pull_head ha'),
                Or.inl ⟨hl, hr₀, rfl, ha', htalk⟩, by simp⟩

/-- A link with something still to do can do some of it. -/
theorem Ahead.progress (h : Ahead m m' fl fr k ls ls') :
    k = ended fl fr ∨ ∃ k' ls₁ ls₁', Step m m' k k' ∧ InStep m m' fl fr k' ls₁ ls₁' ∧
      ls₁.length + ls₁'.length < ls.length + ls'.length := by
  have hright := h.progress_right
  obtain ⟨l, r, a, b⟩ := k
  obtain ⟨hl, hr, hb, ha, htalk⟩ := h
  obtain rfl : b = [] := hb
  -- the left one speaks or works; where it would have to hear, the right one moves
  cases hl with
  | nil =>
      by_cases hne : ls' = []
      · subst hne
        obtain rfl : a = [] := by simpa using htalk.symm
        cases hr
        exact Or.inl rfl
      · exact Or.inr (hright hne (by simp))
  | @cons _ l' _ e ls₀ hd hl₀ =>
      match e with
      | none =>
          exact Or.inr ⟨_, ls₀, ls', .leftSys hd,
            Or.inl ⟨hl₀, hr, rfl, ha, by simpa using htalk⟩, by simp⟩
      | some (.sent d) =>
          have htalk₀ : ls'.reduceOption = (a ++ [d]).map .got ++ ls₀.reduceOption.map .mirror := by
            simpa using htalk
          refine Or.inr ⟨_, ls₀, ls', .leftSend hd,
            Or.inl ⟨hl₀, hr, rfl, fun d' hd' => ?_, htalk₀⟩, by simp⟩
          exact hr.got_ne_nil (htalk₀ ▸ List.mem_append_left _ (List.mem_map_of_mem hd'))
      | some (.got d) =>
          refine Or.inr (hright ?_ (by simp))
          rintro rfl
          simp at htalk

theorem InStep.progress (h : InStep m m' fl fr k ls ls') :
    k = ended fl fr ∨ ∃ k' ls₁ ls₁', Step m m' k k' ∧ InStep m m' fl fr k' ls₁ ls₁' ∧
      ls₁.length + ls₁'.length < ls.length + ls'.length := by
  rcases h with h | h
  · exact h.progress
  · rcases h.progress with hend | ⟨k', ls₁', ls₁, hs, h', hlt⟩
    · exact Or.inl (congrArg Link.swap hend)
    · exact Or.inr ⟨k'.swap, ls₁, ls₁', hs.swap, Or.symm h', by omega⟩

/-- A link in step can go on to the common end. -/
theorem InStep.reaches_end (h : InStep m m' fl fr k ls ls') : Reaches m m' k (ended fl fr) := by
  induction hn : ls.length + ls'.length using Nat.strongRecOn generalizing k ls ls' with
  | _ n ih =>
      rcases h.progress with rfl | ⟨k', ls₁, ls₁', hs, h', hlt⟩
      · exact .refl
      · exact .head hs (ih _ (hn ▸ hlt) h' rfl)

variable {cl : Config β J α L} {cr : Config β J' α' L'} {t : List (Talk β)}

/-- Two mirrored runs put a link in step. -/
theorem inStep_of_talks (hl : Talks m cl t fl) (hr : Talks m' cr (t.map .mirror) fr) :
    ∃ ls ls', InStep m m' fl fr ⟨cl, cr, [], []⟩ ls ls' := by
  obtain ⟨ls, rfl, hl⟩ := hl
  obtain ⟨ls', ht, hr⟩ := hr
  exact ⟨ls, ls', Or.inl ⟨hl, hr, rfl, by simp, by simpa using ht⟩⟩

/-- Two mirrored runs can be had together. -/
theorem reaches_of_talks (hl : Talks m cl t fl) (hr : Talks m' cr (t.map .mirror) fr) :
    Reaches m m' ⟨cl, cr, [], []⟩ (ended fl fr) := by
  obtain ⟨ls, ls', h⟩ := inStep_of_talks hl hr
  exact h.reaches_end

/-- **One conversation, every schedule.** If the two programs have mirrored runs that end where they
    can at most receive, then whatever the interleaving: each receive asks for the block that was
    sent, the common end with nothing unread stays within reach, and the link stops nowhere else. -/
theorem in_step (hl : Talks m cl t fl) (hr : Talks m' cr (t.map .mirror) fr)
    (hfl : Resting m fl) (hfr : Resting m' fr) (hrun : Reaches m m' ⟨cl, cr, [], []⟩ k) :
    Aligned k ∧ Reaches m m' k (ended fl fr) ∧ ((∀ k', ¬Step m m' k k') → k = ended fl fr) := by
  have hinv : ∃ ls ls', InStep m m' fl fr k ls ls' := by
    induction hrun with
    | refl => exact inStep_of_talks hl hr
    | tail _ hs ih =>
        obtain ⟨ls, ls', h⟩ := ih
        exact h.step hfl hfr hs
  obtain ⟨ls, ls', h⟩ := hinv
  refine ⟨h.aligned, h.reaches_end, fun hstuck => ?_⟩
  rcases h.progress with hend | ⟨k', _, _, hs, -⟩
  · exact hend
  · exact absurd hs (hstuck k')

end Link

end Interaction
