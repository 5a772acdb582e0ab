import Mathlib.Data.List.ReduceOption
import CloudStorage.Interaction.Program

set_option autoImplicit false

/-! # Conversations

A networked program sends and receives blocks of symbols; its other calls are answered by a
deterministic `Machine`. `Path m c ls c'` is a run of one such program on its own, with the list of
its labels, and `Talks m c t c'` keeps only what it said and heard.

A program's next label is determined by where it is, up to the block that a receive returns
(`Does.unique`), so a run with a given conversation is the only one that the conversation allows. -/

namespace Interaction

/-- The calls of a networked program over symbols `β`: the network, or one of `J`. -/
inductive NetOp (β O : Type) : Type where
  | send (d : List β)
  | recv (n : Nat)
  | sys (o : O)

/-- `J` with a network: a send is answered by its success, a receive by a block or a failure. -/
def Interface.net (β : Type) (J : Interface) : Interface where
  Op := NetOp β J.Op
  Ans
    | .send _ => Bool
    | .recv _ => Option (List β)
    | .sys o => J.Ans o

/-- A deterministic environment for the calls of `J`. -/
abbrev Machine (J : Interface) (L : Type) : Type := L → (o : J.Op) → J.Ans o × L

/-- One thing said or heard. -/
inductive Talk (β : Type) : Type where
  | sent (d : List β)
  | got (d : List β)
  deriving DecidableEq

namespace Talk

variable {β : Type}

/-- What the other side does. -/
def mirror : Talk β → Talk β
  | sent d => got d
  | got d => sent d

@[simp]
theorem mirror_sent (d : List β) : (sent d).mirror = got d := rfl

@[simp]
theorem mirror_got (d : List β) : (got d).mirror = sent d := rfl

@[simp]
theorem mirror_mirror (e : Talk β) : e.mirror.mirror = e := by cases e <;> rfl

/-- The blocks of the sends of a conversation. -/
def sends (t : List (Talk β)) : List (List β) :=
  t.filterMap fun | sent d => some d | got _ => none

/-- What a send says: a send of nothing says nothing. -/
def ofSend : List β → Option (Talk β)
  | [] => none
  | b :: d => some (sent (b :: d))

theorem ofSend_of_ne_nil {d : List β} (hd : d ≠ []) : ofSend d = some (sent d) := by
  cases d with
  | nil => exact absurd rfl hd
  | cons b d => rfl

theorem ofSend_ne_got (d d' : List β) : ofSend d ≠ some (got d') := by
  cases d with
  | nil => exact fun h => by cases h
  | cons b d => exact fun h => by cases h

end Talk

namespace Program

variable {β : Type} {J : Interface} {L α γ : Type}

/-- A networked program with the state of its machine. -/
abbrev Config (β : Type) (J : Interface) (α L : Type) : Type := Program (J.net β) α × L

/-- One call of a networked program, labelled with what it says or hears. A receive is never
    empty. -/
def Does (m : Machine J L) : Config β J α L → Option (Talk β) → Config β J α L → Prop
  | (.ret _, _), _, _ => False
  | (.call (.sys o) k, l), e, c' => e = none ∧ c' = (k (m l o).1, (m l o).2)
  | (.call (.send d) k, l), e, c' => e = Talk.ofSend d ∧ c' = (k true, l)
  | (.call (.recv n) k, l), e, c' =>
    ∃ d : List β, d.length = n ∧ d ≠ [] ∧ e = some (.got d) ∧ c' = (k (some d), l)

/-- A run of one networked program on its own, with its labels. -/
inductive Path (m : Machine J L) :
    Config β J α L → List (Option (Talk β)) → Config β J α L → Prop where
  | nil (c : Config β J α L) : Path m c [] c
  | cons {c c' c'' : Config β J α L} {e : Option (Talk β)} {ls : List (Option (Talk β))}
      (h : Does m c e c') (hrest : Path m c' ls c'') : Path m c (e :: ls) c''

/-- A run of one networked program on its own, with its conversation. -/
def Talks (m : Machine J L) (c : Config β J α L) (t : List (Talk β)) (c' : Config β J α L) :
    Prop :=
  ∃ ls, ls.reduceOption = t ∧ Path m c ls c'

variable {m : Machine J L} {c c' c'' : Config β J α L} {t t' : List (Talk β)}

theorem Path.append {ls ls' : List (Option (Talk β))} (h : Path m c ls c')
    (h' : Path m c' ls' c'') : Path m c (ls ++ ls') c'' := by
  induction h with
  | nil => exact h'
  | cons hstep _ ih => exact .cons hstep (ih h')

theorem Talks.refl (c : Config β J α L) : Talks m c [] c := ⟨[], rfl, .nil c⟩

theorem Talks.trans (h : Talks m c t c') (h' : Talks m c' t' c'') : Talks m c (t ++ t') c'' := by
  obtain ⟨ls, rfl, hp⟩ := h
  obtain ⟨ls', rfl, hp'⟩ := h'
  exact ⟨ls ++ ls', by simp only [List.reduceOption, List.filterMap_append], hp.append hp'⟩

theorem Talks.sys {o : J.Op} {k : J.Ans o → Program (J.net β) α} {l : L}
    (h : Talks m (k (m l o).1, (m l o).2) t c) : Talks m (.call (.sys o) k, l) t c := by
  obtain ⟨ls, rfl, hp⟩ := h
  exact ⟨none :: ls, rfl, .cons ⟨rfl, rfl⟩ hp⟩

theorem Talks.send {d : List β} {k : Bool → Program (J.net β) α} {l : L} (hd : d ≠ [])
    (h : Talks m (k true, l) t c) : Talks m (.call (.send d) k, l) (.sent d :: t) c := by
  obtain ⟨ls, rfl, hp⟩ := h
  exact ⟨some (.sent d) :: ls, rfl, .cons ⟨(Talk.ofSend_of_ne_nil hd).symm, rfl⟩ hp⟩

theorem Talks.send_nil {k : Bool → Program (J.net β) α} {l : L} (h : Talks m (k true, l) t c) :
    Talks m (.call (.send []) k, l) t c := by
  obtain ⟨ls, rfl, hp⟩ := h
  exact ⟨none :: ls, rfl, .cons ⟨rfl, rfl⟩ hp⟩

theorem Talks.recv {d : List β} {n : Nat} {k : Option (List β) → Program (J.net β) α} {l : L}
    (hd : d ≠ []) (hn : n = d.length) (h : Talks m (k (some d), l) t c) :
    Talks m (.call (.recv n) k, l) (.got d :: t) c := by
  obtain ⟨ls, rfl, hp⟩ := h
  exact ⟨some (.got d) :: ls, rfl, .cons ⟨d, hn.symm, hd, rfl, rfl⟩ hp⟩

/-- A call of the first of two programs in sequence. -/
theorem Does.bind {p p' : Program (J.net β) α} {l l' : L} {e : Option (Talk β)}
    (f : α → Program (J.net β) γ) (h : Does m (p, l) e (p', l')) :
    Does m (p.bind f, l) e (p'.bind f, l') := by
  match p, h with
  | .call (.sys o) k, ⟨he, hc⟩ =>
      cases hc
      exact ⟨he, rfl⟩
  | .call (.send d) k, ⟨he, hc⟩ =>
      cases hc
      exact ⟨he, rfl⟩
  | .call (.recv n) k, ⟨d, hn, hd, he, hc⟩ =>
      cases hc
      exact ⟨d, hn, hd, he, rfl⟩

/-- A run of the first of two programs in sequence. -/
theorem Talks.bind {p p' : Program (J.net β) α} {l l' : L} (f : α → Program (J.net β) γ)
    (h : Talks m (p, l) t (p', l')) : Talks m (p.bind f, l) t (p'.bind f, l') := by
  obtain ⟨ls, rfl, hp⟩ := h
  refine ⟨ls, rfl, ?_⟩
  generalize hc : (p, l) = c at hp
  generalize hc' : (p', l') = c' at hp
  induction hp generalizing p l with
  | nil c =>
      subst hc
      cases hc'
      exact .nil _
  | @cons c c₁ _ _ _ hstep _ ih =>
      subst hc
      obtain ⟨p₁, l₁⟩ := c₁
      exact .cons (hstep.bind f) (ih rfl hc')

/-- The next label of a program is determined up to the block that a receive returns. -/
theorem Does.unique {e e' : Option (Talk β)} (h : Does m c e c') (h' : Does m c e' c'') :
    (e = e' ∧ c' = c'') ∨
      ∃ d d', e = some (.got d) ∧ e' = some (.got d') ∧ d.length = d'.length := by
  match c, h, h' with
  | (.call (.sys o) k, l), ⟨he, hc⟩, ⟨he', hc'⟩ => exact Or.inl ⟨he.trans he'.symm, hc.trans hc'.symm⟩
  | (.call (.send d) k, l), ⟨he, hc⟩, ⟨he', hc'⟩ => exact Or.inl ⟨he.trans he'.symm, hc.trans hc'.symm⟩
  | (.call (.recv n) k, l), ⟨d, hn, _, he, _⟩, ⟨d', hn', _, he', _⟩ =>
      exact Or.inr ⟨d, d', he, he', hn.trans hn'.symm⟩

/-- Hearing the same block leads to the same place. -/
theorem Does.unique_got {d : List β} (h : Does m c (some (.got d)) c')
    (h' : Does m c (some (.got d)) c'') : c' = c'' := by
  match c, h, h' with
  | (.call (.sys o) k, l), ⟨he, _⟩, _ => cases he
  | (.call (.send d) k, l), ⟨he, _⟩, _ => exact absurd he.symm (Talk.ofSend_ne_got _ _)
  | (.call (.recv n) k, l), ⟨_, _, _, he, hc⟩, ⟨_, _, _, he', hc'⟩ =>
      cases he
      cases he'
      exact hc.trans hc'.symm

/-- Nothing is left to do but to receive. -/
def Resting (m : Machine J L) (c : Config β J α L) : Prop :=
  ∀ e c', Does m c e c' → ∃ d, e = some (.got d)

/-- The label of a call that is no receive is the next one of every run. -/
theorem Path.after_quiet {c c' f : Config β J α L} {e : Option (Talk β)}
    {ls : List (Option (Talk β))} (hf : Resting m f) (h : Path m c ls f) (hd : Does m c e c')
    (he : ∀ d, e ≠ some (.got d)) : ∃ ls₀, ls = e :: ls₀ ∧ Path m c' ls₀ f := by
  cases h with
  | nil =>
      obtain ⟨d, hgot⟩ := hf _ _ hd
      exact absurd hgot (he d)
  | @cons _ c₁ _ e₁ ls₀ hd₁ hrest =>
      rcases hd.unique hd₁ with ⟨rfl, rfl⟩ | ⟨d, _, hgot, -⟩
      · exact ⟨ls₀, rfl, hrest⟩
      · exact absurd hgot (he d)

/-- A program about to receive does so next in every run, with a block of the same length. -/
theorem Path.after_got {c c' f : Config β J α L} {d : List β} {ls : List (Option (Talk β))}
    (h : Path m c ls f) (hd : Does m c (some (.got d)) c') :
    ls = [] ∨ ∃ d₀ ls₀, ls = some (.got d₀) :: ls₀ ∧ d.length = d₀.length ∧
      (d = d₀ → Path m c' ls₀ f) := by
  cases h with
  | nil => exact Or.inl rfl
  | @cons _ c₁ _ e₁ ls₀ hd₁ hrest =>
      refine Or.inr ?_
      rcases hd.unique hd₁ with ⟨rfl, rfl⟩ | ⟨d', d₀, hgot, rfl, hlen⟩
      · exact ⟨d, ls₀, rfl, rfl, fun _ => hrest⟩
      · cases hgot
        refine ⟨d₀, ls₀, rfl, hlen, ?_⟩
        rintro rfl
        rwa [hd.unique_got hd₁]

theorem Does.got_ne_nil {c c' : Config β J α L} {d : List β} (h : Does m c (some (.got d)) c') :
    d ≠ [] := by
  match c, h with
  | (.call (.sys _) _, _), ⟨he, _⟩ => cases he
  | (.call (.send _) _, _), ⟨he, _⟩ => exact absurd he.symm (Talk.ofSend_ne_got _ _)
  | (.call (.recv _) _, _), ⟨_, _, hd, he, _⟩ =>
      cases he
      exact hd

/-- A program at a receive goes on with a block of the length it asks for. -/
theorem Does.of_recv {c c' : Config β J α L} {e : Option (Talk β)} {n : Nat}
    {g : Option (List β) → Program (J.net β) α} (h : Does m c e c')
    (hc : c.1 = .call (.recv n) g) : ∃ d, d.length = n ∧ e = some (.got d) := by
  obtain ⟨p, l⟩ := c
  cases hc
  obtain ⟨d, hn, -, he, -⟩ := h
  exact ⟨d, hn, he⟩

theorem Path.got_ne_nil {c f : Config β J α L} {ls : List (Option (Talk β))} {d : List β}
    (h : Path m c ls f) (hd : Talk.got d ∈ ls.reduceOption) : d ≠ [] := by
  induction h with
  | nil => simp at hd
  | @cons _ _ _ e _ hstep _ ih =>
      cases e with
      | none => exact ih (by simpa using hd)
      | some e =>
          rw [List.reduceOption_cons_of_some, List.mem_cons] at hd
          rcases hd with rfl | hd
          · exact hstep.got_ne_nil
          · exact ih hd

end Program

end Interaction
