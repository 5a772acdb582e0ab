import CloudStorage.Interaction.Script

set_option autoImplicit false

/-! # Links with something left over

If one side of a link has ended and something is on its way to it, this is never read: the stream to it
only grows. So a link does not lead to an end with nothing unread if one side plays a script to its end
and the other side says more than that; nor does it if the one side then waits for a block of another
length than what is said. -/

namespace Interaction

open Program

variable {μ β : Type} {J J' : Interface} {L L' α α' : Type} {m : Machine J L} {m' : Machine J' L'}
  {carries : μ → List β → Prop} {Q Q' : Config β J α L → Prop} {R R' : Config β J' α' L' → Prop}

/-- A program that has ended. -/
def Ended (c : Config β J α L) : Prop := ∃ a l, c = (.ret a, l)

namespace Program

variable {p : Program (J.net β) α} {p' : Program (J'.net β) α'} {l : L} {l' : L'}

/-- Mirrored runs along a script, after which both sides play on. -/
theorem Plays.meet_more {s t t' : List (Turn μ)} (h : p.Plays m carries Q l (s ++ t))
    (h' : p'.Plays m' carries R l' (s.map .mirror ++ t')) :
    ∃ said p₁ l₁ p₁' l₁', Talks m (p, l) said (p₁, l₁) ∧ Talks m' (p', l') (said.map .mirror) (p₁', l₁') ∧
      p₁.Plays m carries Q l₁ t ∧ p₁'.Plays m' carries R l₁' t' := by
  induction s generalizing p l p' l' with
  | nil => exact ⟨[], p, l, p', l', .refl _, .refl _, h, h'⟩
  | cons turn s ih =>
      cases turn with
      | say message =>
          obtain ⟨d, p₁, l₁, hd, hne, ht, hp⟩ := h.say
          obtain ⟨p₁', l₁', ht', hp'⟩ := h'.hear hd hne
          obtain ⟨said, p₂, l₂, p₂', l₂', ht₁, ht₁', hends⟩ := ih hp hp'
          exact ⟨.sent d :: said, p₂, l₂, p₂', l₂', ht.trans ht₁, ht'.trans ht₁', hends⟩
      | hear message =>
          obtain ⟨d, p₁', l₁', hd, hne, ht', hp'⟩ := h'.say
          obtain ⟨p₁, l₁, ht, hp⟩ := h.hear hd hne
          obtain ⟨said, p₂, l₂, p₂', l₂', ht₁, ht₁', hends⟩ := ih hp hp'
          exact ⟨.got d :: said, p₂, l₂, p₂', l₂', ht.trans ht₁, ht'.trans ht₁', hends⟩

end Program

namespace Link

/-- The left side has ended, and something is on its way to it. -/
def Overrun (k : Link β J J' α α' L L') : Prop := Ended k.left ∧ k.toLeft ≠ []

theorem Overrun.step {k k' : Link β J J' α α' L L'} (h : Overrun k) (hs : Step m m' k k') :
    Overrun k' := by
  obtain ⟨⟨a, l, hleft⟩, hne⟩ := h
  cases hs with
  | leftSys hd =>
      obtain rfl := hleft
      exact hd.elim
  | leftSend hd =>
      obtain rfl := hleft
      exact hd.elim
  | leftGot hd hp =>
      obtain rfl := hleft
      exact hd.elim
  | rightSys hd => exact ⟨⟨a, l, hleft⟩, hne⟩
  | rightSend hd => exact ⟨⟨a, l, hleft⟩, by simp⟩
  | rightGot hd hp => exact ⟨⟨a, l, hleft⟩, hne⟩

theorem Overrun.reaches {k k' : Link β J J' α α' L L'} (h : Overrun k) (hr : Reaches m m' k k') :
    Overrun k' := by
  induction hr with
  | refl => exact h
  | tail _ hs ih => exact ih.step hs

/-- A run of the right side that hears nothing, with what it says on its way to the left side. -/
theorem reaches_path {c : Config β J α L} {r r' : Config β J' α' L'} {ls : List (Option (Talk β))}
    {a b : List (List β)} (h : Path m' r ls r') (hdeaf : ∀ d, some (.got d) ∉ ls) :
    Reaches m m' ⟨c, r, a, b⟩ ⟨c, r', a, b ++ Talk.sends ls.reduceOption⟩ := by
  induction h generalizing b with
  | nil r =>
      simp only [List.reduceOption_nil, Talk.sends, List.filterMap_nil, List.append_nil]
      exact .refl
  | @cons r r₁ r' e ls hstep _ ih =>
      have hdeaf' : ∀ d, some (.got d) ∉ ls := fun d hd => hdeaf d (List.mem_cons_of_mem _ hd)
      cases e with
      | none =>
          rw [List.reduceOption_cons_of_none]
          exact .head (.rightSys hstep) (ih hdeaf')
      | some turn =>
          cases turn with
          | got d => exact absurd (List.mem_cons_self ..) (hdeaf d)
          | sent d =>
              have hrest := ih (b := b ++ [d]) hdeaf'
              rw [List.append_assoc] at hrest
              rw [List.reduceOption_cons_of_some]
              exact .head (.rightSend hstep) hrest

/-- What the right side says is on its way to the left side. -/
theorem reaches_sent {c : Config β J α L} {r r' : Config β J' α' L'} {d : List β} {a : List (List β)}
    (h : Talks m' r [.sent d] r') : Reaches m m' ⟨c, r, a, []⟩ ⟨c, r', a, [d]⟩ := by
  obtain ⟨ls, ht, hp⟩ := h
  have hrun := reaches_path (m := m) (c := c) (a := a) (b := []) hp fun d' hd' => by
    have hmem := List.reduceOption_mem_iff.2 hd'
    rw [ht, List.mem_singleton] at hmem
    cases hmem
  rw [ht] at hrun
  exact hrun

/-- **What is said too much is never read.** -/
theorem not_leadsTo_of_more {p : Program (J.net β) α} {p' : Program (J'.net β) α'} {l : L} {l' : L'}
    {s t : List (Turn μ)} {message : μ} (h : p.Plays m carries Ended l s)
    (h' : p'.Plays m' carries R l' (s.map .mirror ++ .say message :: t)) :
    ¬LeadsTo m m' Q' R' ⟨(p, l), (p', l'), [], []⟩ := by
  rintro ⟨fl, fr, -, -, -, -, hall⟩
  rw [← List.append_nil s] at h
  obtain ⟨said, p₁, l₁, p₁', l₁', ht, ht', hp, hp'⟩ := h.meet_more h'
  obtain ⟨c, hrest, hend, -⟩ := hp.rest
  obtain ⟨d, p₂', l₂', -, -, hsaid, -⟩ := hp'.say
  have hdone : Talks m (p, l) said c := by
    have htalk := ht.trans hrest
    rwa [List.append_nil] at htalk
  have hreach := (reaches_of_talks hdone ht').trans (reaches_sent hsaid)
  have hover : Overrun (⟨c, (p₂', l₂'), [], [d]⟩ : Link β J J' α α' L L') := ⟨hend, by simp⟩
  exact (hover.reaches (hall _ hreach).2.1).2 rfl

/-- **What is said is not what is waited for.** The left side says one thing more before it waits, and
    the right side says its thing before it hears this. -/
theorem not_leadsTo_of_misfit {p : Program (J.net β) α} {p' : Program (J'.net β) α'} {l : L} {l' : L'}
    {s t : List (Turn μ)} {request message : μ} {n : Nat}
    (h : p.Plays m carries (Waits n) l (s ++ [.say request]))
    (h' : p'.Plays m' carries R l' (s.map .mirror ++ .say message :: t))
    (hlen : ∀ d, carries message d → d.length ≠ n) :
    ¬LeadsTo m m' Q' R' ⟨(p, l), (p', l'), [], []⟩ := by
  rintro ⟨fl, fr, -, -, -, -, hall⟩
  obtain ⟨said, p₁, l₁, p₁', l₁', ht, ht', hp, hp'⟩ := h.meet_more h'
  obtain ⟨d₁, p₂, l₂, -, -, hasked, hp₂⟩ := hp.say
  obtain ⟨c, hrest, ⟨k, hk⟩, -⟩ := hp₂.rest
  obtain ⟨d, p₂', l₂', hd, -, hsaid, -⟩ := hp'.say
  have hwaits : Talks m (p₁, l₁) [.sent d₁] c := hasked.trans hrest
  have hleft : Reaches m m' ⟨(p₁, l₁), (p₁', l₁'), [], []⟩ ⟨c, (p₁', l₁'), [d₁], []⟩ :=
    (reaches_sent hwaits).swap
  have hreach := ((reaches_of_talks ht ht').trans hleft).trans (reaches_sent hsaid)
  exact hlen d hd ((hall _ hreach).1.1 n k hk d [] rfl)

end Link

end Interaction
