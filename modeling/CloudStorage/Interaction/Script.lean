import CloudStorage.Interaction.Link
import CloudStorage.Interaction.Routine

set_option autoImplicit false

/-! # Scripts

A script is a conversation in messages, not blocks: `carries` says which blocks carry a message.
`Program.Plays` holds of a program that follows a script whatever blocks its messages come in; it is
read along the program and composes with it. Two programs that play mirrored scripts have mirrored
runs (`Plays.meet`), which is what `Link.in_step` needs. -/

namespace Interaction

/-- A message to say or to hear. -/
inductive Turn (μ : Type) : Type where
  | say (message : μ)
  | hear (message : μ)

namespace Turn

variable {μ : Type}

/-- The turn of the other side. -/
def mirror : Turn μ → Turn μ
  | say message => hear message
  | hear message => say message

@[simp]
theorem mirror_say (message : μ) : (say message).mirror = hear message := rfl

@[simp]
theorem mirror_hear (message : μ) : (hear message).mirror = say message := rfl

@[simp]
theorem mirror_mirror (turn : Turn μ) : turn.mirror.mirror = turn := by cases turn <;> rfl

theorem mirror_comp_mirror : (mirror : Turn μ → Turn μ) ∘ mirror = id := funext mirror_mirror

end Turn

namespace Program

variable {μ β : Type} {J : Interface} {L α γ : Type}

/-- From `l`, the program says and hears what the script tells it, and stops in `Q`: at its end, or
    where it would have to hear more. -/
def Plays (m : Machine J L) (carries : μ → List β → Prop) (Q : Config β J α L → Prop) :
    Program (J.net β) α → L → List (Turn μ) → Prop
  | .ret a, l, s => s = [] ∧ Q (.ret a, l)
  | .call (.sys o) k, l, s => (k (m l o).1).Plays m carries Q (m l o).2 s
  | .call (.send d) k, l, s => (d = [] ∧ (k true).Plays m carries Q l s) ∨
      ∃ message s', s = .say message :: s' ∧ carries message d ∧ d ≠ [] ∧
        (k true).Plays m carries Q l s'
  | .call (.recv n) k, l, s => (s = [] ∧ Q (.call (.recv n) k, l)) ∨
      ∃ message s', s = .hear message :: s' ∧ ∀ d, carries message d → d.length = n ∧
        (k (some d)).Plays m carries Q l s'

variable {m : Machine J L} {carries : μ → List β → Prop} {Q Q' : Config β J α L → Prop}
  {p : Program (J.net β) α} {l : L} {s s' : List (Turn μ)} {message : μ}

theorem resting_ret (a : α) (l : L) : Resting m ((.ret a, l) : Config β J α L) :=
  fun _ _ h => False.elim h

theorem resting_recv (n : Nat) (k : Option (List β) → Program (J.net β) α) (l : L) :
    Resting m ((.call (.recv n) k, l) : Config β J α L) := by
  rintro e c' ⟨d, -, -, he, -⟩
  exact ⟨d, he⟩

/-- Consequence. -/
theorem Plays.mono (h : p.Plays m carries Q l s) (hQ : ∀ c, Q c → Q' c) :
    p.Plays m carries Q' l s := by
  induction p generalizing l s with
  | ret a => exact ⟨h.1, hQ _ h.2⟩
  | call o k ih =>
      cases o with
      | sys o => exact ih _ h
      | send d =>
          rcases h with ⟨hd, hk⟩ | ⟨message, s', hs, hd, hne, hk⟩
          · exact Or.inl ⟨hd, ih _ hk⟩
          · exact Or.inr ⟨message, s', hs, hd, hne, ih _ hk⟩
      | recv n =>
          rcases h with ⟨hs, hq⟩ | ⟨message, s', hs, hk⟩
          · exact Or.inl ⟨hs, hQ _ hq⟩
          · exact Or.inr ⟨message, s', hs, fun d hd => ⟨(hk d hd).1, ih _ (hk d hd).2⟩⟩

/-- The rule of sequencing. -/
theorem Plays.bind {f : α → Program (J.net β) γ} {R : Config β J γ L → Prop}
    (h : p.Plays m carries (fun c => ∃ a l', c = (.ret a, l') ∧ (f a).Plays m carries R l' s') l s) :
    (p.bind f).Plays m carries R l (s ++ s') := by
  induction p generalizing l s with
  | ret a =>
      obtain ⟨rfl, _, _, heq, hf⟩ := h
      cases heq
      exact hf
  | call o k ih =>
      cases o with
      | sys o => exact ih _ h
      | send d =>
          rcases h with ⟨hd, hk⟩ | ⟨message, s₁, rfl, hd, hne, hk⟩
          · exact Or.inl ⟨hd, ih _ hk⟩
          · exact Or.inr ⟨message, s₁ ++ s', rfl, hd, hne, ih _ hk⟩
      | recv n =>
          rcases h with ⟨-, _, _, heq, -⟩ | ⟨message, s₁, rfl, hk⟩
          · cases heq
          · exact Or.inr ⟨message, s₁ ++ s', rfl, fun d hd => ⟨(hk d hd).1, ih _ (hk d hd).2⟩⟩

/-- The program waits for a block of length `n`. -/
def Waits (n : Nat) (c : Config β J α L) : Prop := ∃ k, c.1 = .call (.recv n) k

/-- What waits in front of a program makes it wait. -/
theorem Plays.bind_waits {n : Nat} {f : α → Program (J.net β) γ}
    (h : p.Plays m carries (Waits n) l s) : (p.bind f).Plays m carries (Waits n) l s := by
  induction p generalizing l s with
  | ret a =>
      obtain ⟨-, _, hk⟩ := h
      cases hk
  | call o k ih =>
      cases o with
      | sys o => exact ih _ h
      | send d =>
          rcases h with ⟨hd, hk⟩ | ⟨message, s₁, hs, hd, hne, hk⟩
          · exact Or.inl ⟨hd, ih _ hk⟩
          · exact Or.inr ⟨message, s₁, hs, hd, hne, ih _ hk⟩
      | recv n' =>
          rcases h with ⟨hs, k', hk⟩ | ⟨message, s₁, hs, hk⟩
          · cases hk
            exact Or.inl ⟨hs, _, rfl⟩
          · exact Or.inr ⟨message, s₁, hs, fun d hd => ⟨(hk d hd).1, ih _ (hk d hd).2⟩⟩

/-- A program that ends with a script plays no longer one. -/
theorem Plays.ends_once {t : List (Turn μ)}
    (h : p.Plays m carries (fun c => ∃ a l', c = (.ret a, l')) l s) (h' : p.Plays m carries Q l (s ++ t))
    (hcarried : ∀ message, .hear message ∈ s → ∃ d, carries message d) : t = [] := by
  induction p generalizing l s with
  | ret a =>
      obtain ⟨rfl, -⟩ := h
      exact h'.1
  | call o k ih =>
      cases o with
      | sys o => exact ih _ h h' hcarried
      | send d =>
          rcases h with ⟨hd, hk⟩ | ⟨message, s₁, rfl, -, hne, hk⟩
          · rcases h' with ⟨-, hk'⟩ | ⟨_, _, -, -, hne, -⟩
            · exact ih _ hk hk' hcarried
            · exact absurd hd hne
          · rcases h' with ⟨hd, -⟩ | ⟨_, _, heq, -, -, hk'⟩
            · exact absurd hd hne
            · cases heq
              exact ih _ hk hk' fun message hm => hcarried message (List.mem_cons_of_mem _ hm)
      | recv n =>
          rcases h with ⟨-, _, _, heq⟩ | ⟨message, s₁, rfl, hk⟩
          · cases heq
          · rcases h' with ⟨heq, -⟩ | ⟨_, _, heq, hk'⟩
            · cases heq
            · cases heq
              obtain ⟨d, hd⟩ := hcarried message (List.mem_cons_self ..)
              exact ih _ (hk d hd).2 (hk' d hd).2 fun message hm =>
                hcarried message (List.mem_cons_of_mem _ hm)

/-! ## The conversation of a script -/

/-- At the end of the script the program comes to rest. -/
theorem Plays.rest (h : p.Plays m carries Q l []) :
    ∃ c, Talks m (p, l) [] c ∧ Q c ∧ Resting m c := by
  induction p generalizing l with
  | ret a => exact ⟨_, .refl _, h.2, resting_ret a l⟩
  | call o k ih =>
      cases o with
      | sys o =>
          obtain ⟨c, ht, hq, hrest⟩ := ih _ h
          exact ⟨c, ht.sys, hq, hrest⟩
      | send d =>
          rcases h with ⟨rfl, hk⟩ | ⟨_, _, hs, -⟩
          · obtain ⟨c, ht, hq, hrest⟩ := ih _ hk
            exact ⟨c, ht.send_nil, hq, hrest⟩
          · cases hs
      | recv n =>
          rcases h with ⟨-, hq⟩ | ⟨_, _, hs, -⟩
          · exact ⟨_, .refl _, hq, resting_recv n k l⟩
          · cases hs

theorem Plays.say (h : p.Plays m carries Q l (.say message :: s)) :
    ∃ d p' l', carries message d ∧ d ≠ [] ∧ Talks m (p, l) [.sent d] (p', l') ∧
      p'.Plays m carries Q l' s := by
  induction p generalizing l with
  | ret a => cases h.1
  | call o k ih =>
      cases o with
      | sys o =>
          obtain ⟨d, p', l', hd, hne, ht, hp⟩ := ih _ h
          exact ⟨d, p', l', hd, hne, ht.sys, hp⟩
      | send d =>
          rcases h with ⟨rfl, hk⟩ | ⟨_, _, hs, hd, hne, hk⟩
          · obtain ⟨d, p', l', hd, hne, ht, hp⟩ := ih _ hk
            exact ⟨d, p', l', hd, hne, ht.send_nil, hp⟩
          · cases hs
            exact ⟨d, _, l, hd, hne, .send hne (.refl _), hk⟩
      | recv n =>
          rcases h with ⟨hs, -⟩ | ⟨_, _, hs, -⟩
          · cases hs
          · cases hs

theorem Plays.hear (h : p.Plays m carries Q l (.hear message :: s)) {d : List β}
    (hd : carries message d) (hne : d ≠ []) :
    ∃ p' l', Talks m (p, l) [.got d] (p', l') ∧ p'.Plays m carries Q l' s := by
  induction p generalizing l with
  | ret a => cases h.1
  | call o k ih =>
      cases o with
      | sys o =>
          obtain ⟨p', l', ht, hp⟩ := ih _ h
          exact ⟨p', l', ht.sys, hp⟩
      | send d =>
          rcases h with ⟨rfl, hk⟩ | ⟨_, _, hs, -⟩
          · obtain ⟨p', l', ht, hp⟩ := ih _ hk
            exact ⟨p', l', ht.send_nil, hp⟩
          · cases hs
      | recv n =>
          rcases h with ⟨hs, -⟩ | ⟨_, _, hs, hk⟩
          · cases hs
          · cases hs
            obtain ⟨hlen, hk⟩ := hk d hd
            exact ⟨_, l, .recv hne hlen.symm (.refl _), hk⟩

/-- **Mirrored scripts give mirrored runs**: what one side says, in the blocks it happens to choose,
    the other side hears. -/
theorem Plays.meet {J' : Interface} {L' α' : Type} {m' : Machine J' L'} {p' : Program (J'.net β) α'}
    {l' : L'} {R : Config β J' α' L' → Prop} (h : p.Plays m carries Q l s)
    (h' : p'.Plays m' carries R l' (s.map .mirror)) :
    ∃ t c c', Talks m (p, l) t c ∧ Talks m' (p', l') (t.map .mirror) c' ∧ Q c ∧ R c' ∧
      Resting m c ∧ Resting m' c' := by
  induction s generalizing p l p' l' with
  | nil =>
      obtain ⟨c, ht, hq, hrest⟩ := h.rest
      obtain ⟨c', ht', hr, hrest'⟩ := h'.rest
      exact ⟨[], c, c', ht, ht', hq, hr, hrest, hrest'⟩
  | cons turn s ih =>
      cases turn with
      | say message =>
          obtain ⟨d, p₁, l₁, hd, hne, ht, hp⟩ := h.say
          obtain ⟨p₁', l₁', ht', hp'⟩ := h'.hear hd hne
          obtain ⟨t, c, c', ht₁, ht₁', hends⟩ := ih hp hp'
          exact ⟨.sent d :: t, c, c', ht.trans ht₁, ht'.trans ht₁', hends⟩
      | hear message =>
          obtain ⟨d, p₁', l₁', hd, hne, ht', hp'⟩ := h'.say
          obtain ⟨p₁, l₁, ht, hp⟩ := h.hear hd hne
          obtain ⟨t, c, c', ht₁, ht₁', hends⟩ := ih hp hp'
          exact ⟨.got d :: t, c, c', ht.trans ht₁, ht'.trans ht₁', hends⟩

end Program

/-! ## Links of two players -/

namespace Link

open Program

variable {μ β : Type} {J J' : Interface} {L L' α α' : Type} {m : Machine J L} {m' : Machine J' L'}
  {carries : μ → List β → Prop} {Q : Config β J α L → Prop} {R : Config β J' α' L' → Prop}

/-- Every schedule of a link leads to an end in `Q` and `R`: each receive asks for the block that was
    sent, an end with nothing unread stays within reach, and the link stops nowhere else. -/
def LeadsTo (m : Machine J L) (m' : Machine J' L') (Q : Config β J α L → Prop)
    (R : Config β J' α' L' → Prop) (k₀ : Link β J J' α α' L L') : Prop :=
  ∃ fl fr, Q fl ∧ R fr ∧ Resting m fl ∧ Resting m' fr ∧ ∀ k, Reaches m m' k₀ k →
    Aligned k ∧ Reaches m m' k (ended fl fr) ∧ ((∀ k', ¬Step m m' k k') → k = ended fl fr)

/-- Two programs that play mirrored scripts. -/
theorem leadsTo_of_plays {p : Program (J.net β) α} {p' : Program (J'.net β) α'} {l : L} {l' : L'}
    {s : List (Turn μ)} (h : p.Plays m carries Q l s)
    (h' : p'.Plays m' carries R l' (s.map .mirror)) :
    LeadsTo m m' Q R ⟨(p, l), (p', l'), [], []⟩ := by
  obtain ⟨t, c, c', ht, ht', hq, hr, hrest, hrest'⟩ := h.meet h'
  exact ⟨c, c', hq, hr, hrest, hrest', fun k hrun => in_step ht ht' hrest hrest' hrun⟩

theorem LeadsTo.mono {Q' : Config β J α L → Prop} {R' : Config β J' α' L' → Prop}
    {k₀ : Link β J J' α α' L L'} (h : LeadsTo m m' Q R k₀) (hQ : ∀ c, Q c → Q' c)
    (hR : ∀ c, R c → R' c) : LeadsTo m m' Q' R' k₀ := by
  obtain ⟨fl, fr, hq, hr, hrest⟩ := h
  exact ⟨fl, fr, hQ _ hq, hR _ hr, hrest⟩

/-- Nothing happens after the end. -/
theorem not_step_ended {fl : Config β J α L} {fr : Config β J' α' L'} (hfl : Resting m fl)
    (hfr : Resting m' fr) (k : Link β J J' α α' L L') : ¬Step m m' (ended fl fr) k := by
  intro hs
  cases hs with
  | leftSys hd =>
      obtain ⟨_, he⟩ := hfl _ _ hd
      cases he
  | leftSend hd =>
      obtain ⟨_, he⟩ := hfl _ _ hd
      cases he
  | leftGot hd hp =>
      rw [pull_nil (by simpa using hd.got_ne_nil)] at hp
      cases hp
  | rightSys hd =>
      obtain ⟨_, he⟩ := hfr _ _ hd
      cases he
  | rightSend hd =>
      obtain ⟨_, he⟩ := hfr _ _ hd
      cases he
  | rightGot hd hp =>
      rw [pull_nil (by simpa using hd.got_ne_nil)] at hp
      cases hp

/-- The end is the same for all who speak of it. -/
theorem LeadsTo.and {Q' : Config β J α L → Prop} {R' : Config β J' α' L' → Prop}
    {k₀ : Link β J J' α α' L L'} (h : LeadsTo m m' Q R k₀) (h' : LeadsTo m m' Q' R' k₀) :
    LeadsTo m m' (fun c => Q c ∧ Q' c) (fun c => R c ∧ R' c) k₀ := by
  obtain ⟨fl, fr, hq, hr, hfl, hfr, hrun⟩ := h
  obtain ⟨fl', fr', hq', hr', hfl', hfr', hrun'⟩ := h'
  have hsame : (ended fl fr : Link β J J' α α' L L') = ended fl' fr' :=
    (hrun' _ (hrun k₀ .refl).2.1).2.2 (not_step_ended hfl hfr)
  cases hsame
  exact ⟨fl, fr, ⟨hq, hq'⟩, ⟨hr, hr'⟩, hfl, hfr, hrun⟩

/-- A value that the left end is known to have at the end is the only one it has there. -/
theorem LeadsTo.value_iff {γ : Type} {f : Config β J α L → γ} {a b : γ} {k₀ : Link β J J' α α' L L'}
    (h : LeadsTo m m' (fun c => f c = a) R k₀) :
    LeadsTo m m' (fun c => f c = b) R k₀ ↔ a = b := by
  constructor
  · intro h'
    obtain ⟨fl, _, ⟨ha, hb⟩, -⟩ := h.and h'
    rw [← ha, hb]
  · rintro rfl
    exact h

end Link

end Interaction
