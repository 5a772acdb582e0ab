import Mathlib.Logic.Relation

set_option autoImplicit false

/-! # Programs that call an environment

A `Program` either returns or calls an operation of its `Interface` and goes on with the answer.
Nothing is said about who answers: a `Transition` describes one environment, as a relation between
the state before a call, the call, its answer and the state after it.

`Program.Sat rely guar Q` is the safety judgement of such a program. It is read along the program:
every call that the environment answers as `rely` allows meets `guar`, and every end meets `Q`. Its
two consequences for whole runs are `Sat.reaches` (what is left of a program after any number of
calls is still safe) and `Sat.invariant`. -/

namespace Interaction

/-- What a program may ask for: the operations, and the type of the answer to each. -/
structure Interface where
  Op : Type
  Ans : Op → Type

/-- A program over the interface `I` with a result in `α`. -/
inductive Program (I : Interface) (α : Type) : Type where
  | ret (a : α)
  | call (o : I.Op) (k : I.Ans o → Program I α)

/-- An environment with states `S`: which answers a call may get, and what they do to the state. -/
abbrev Transition (I : Interface) (S : Type) : Type :=
  S → (o : I.Op) → I.Ans o → S → Prop

namespace Program

variable {I : Interface} {S α β γ : Type}

/-- Run `p`, then the program that `f` gives for its result. -/
def bind : Program I α → (α → Program I β) → Program I β
  | .ret a, f => f a
  | .call o k, f => .call o fun a => (k a).bind f

/-- The result of a program that has ended. -/
def result : Program I α → Option α
  | .ret a => some a
  | .call _ _ => none

theorem eq_ret_of_result {p : Program I α} {a : α} (h : p.result = some a) : p = ret a := by
  cases p with
  | ret b => exact congrArg ret (Option.some.inj h)
  | call o k => cases h

@[simp]
theorem bind_ret_left (a : α) (f : α → Program I β) : (ret a).bind f = f a := rfl

@[simp]
theorem bind_ret_right (p : Program I α) : p.bind ret = p := by
  induction p with
  | ret a => rfl
  | call o k ih => simp only [bind, ih]

theorem bind_assoc (p : Program I α) (f : α → Program I β) (g : β → Program I γ) :
    (p.bind f).bind g = p.bind fun a => (f a).bind g := by
  induction p with
  | ret a => rfl
  | call o k ih => simp only [bind, ih]

/-! ## The safety judgement -/

/-- From `s`, as long as the environment keeps to `rely`: every call meets `guar`, and every end
    meets `Q`. -/
def Sat (rely guar : Transition I S) (Q : α → S → Prop) : Program I α → S → Prop
  | .ret a, s => Q a s
  | .call o k, s => ∀ a s', rely s o a s' → guar s o a s' ∧ (k a).Sat rely guar Q s'

variable {rely rely' guar guar' : Transition I S}

@[simp]
theorem sat_ret (Q : α → S → Prop) (a : α) (s : S) : (ret a).Sat rely guar Q s ↔ Q a s :=
  Iff.rfl

theorem sat_call (Q : α → S → Prop) (o : I.Op) (k : I.Ans o → Program I α) (s : S) :
    (call o k).Sat rely guar Q s ↔
      ∀ a s', rely s o a s' → guar s o a s' ∧ (k a).Sat rely guar Q s' :=
  Iff.rfl

/-- The rule of sequencing: the second program is judged where the first one ends. -/
theorem sat_bind (Q : β → S → Prop) (p : Program I α) (f : α → Program I β) (s : S) :
    (p.bind f).Sat rely guar Q s ↔ p.Sat rely guar (fun a s' => (f a).Sat rely guar Q s') s := by
  induction p generalizing s with
  | ret a => rfl
  | call o k ih => simp only [bind, sat_call, ih]

/-- Consequence: a weaker environment assumption, a stronger guarantee and a stronger end. -/
theorem Sat.mono {Q Q' : α → S → Prop} {p : Program I α} {s : S}
    (h : p.Sat rely guar Q s) (hrely : ∀ s o a s', rely' s o a s' → rely s o a s')
    (hguar : ∀ s o a s', guar s o a s' → guar' s o a s') (hQ : ∀ a s', Q a s' → Q' a s') :
    p.Sat rely' guar' Q' s := by
  induction p generalizing s with
  | ret a => exact hQ a s h
  | call o k ih =>
      intro a s' hstep
      obtain ⟨hg, hk⟩ := h a s' (hrely _ _ _ _ hstep)
      exact ⟨hguar _ _ _ _ hg, ih a hk⟩

/-- Consequence for the end alone. -/
theorem Sat.imp {Q Q' : α → S → Prop} {p : Program I α} {s : S} (h : p.Sat rely guar Q s)
    (hQ : ∀ a s', Q a s' → Q' a s') : p.Sat rely guar Q' s :=
  h.mono (fun _ _ _ _ => id) (fun _ _ _ _ => id) hQ

/-- Two judgements about one program hold together. -/
theorem Sat.and {Q Q' : α → S → Prop} {p : Program I α} {s : S} (h : p.Sat rely guar Q s)
    (h' : p.Sat rely guar' Q' s) :
    p.Sat rely (fun s o a s' => guar s o a s' ∧ guar' s o a s') (fun a s' => Q a s' ∧ Q' a s') s := by
  induction p generalizing s with
  | ret a => exact ⟨h, h'⟩
  | call o k ih =>
      intro a s' hstep
      obtain ⟨hg, hk⟩ := h a s' hstep
      obtain ⟨hg', hk'⟩ := h' a s' hstep
      exact ⟨⟨hg, hg'⟩, ih a hk hk'⟩

/-! ## Runs -/

/-- One answered call. -/
inductive Step (rely : Transition I S) : Program I α × S → Program I α × S → Prop where
  | call {o : I.Op} {k : I.Ans o → Program I α} {s : S} {a : I.Ans o} {s' : S}
      (h : rely s o a s') : Step rely (call o k, s) (k a, s')

/-- Any number of answered calls. -/
def Reaches (rely : Transition I S) : Program I α × S → Program I α × S → Prop :=
  Relation.ReflTransGen (Step rely)

/-- A run is one in every environment that allows more. -/
theorem Reaches.mono {c c' : Program I α × S} (h : Reaches rely c c')
    (hrely : ∀ s o a s', rely s o a s' → rely' s o a s') : Reaches rely' c c' := by
  induction h with
  | refl => exact .refl
  | tail _ hstep ih =>
      cases hstep with
      | call ha => exact ih.tail (.call (hrely _ _ _ _ ha))

theorem Sat.step {Q : α → S → Prop} {c c' : Program I α × S} (h : c.1.Sat rely guar Q c.2)
    (hstep : Step rely c c') : c'.1.Sat rely guar Q c'.2 := by
  cases hstep with
  | call ha => exact (h _ _ ha).2

/-- **Safety is kept along a run**: what is left of a safe program is safe. -/
theorem Sat.reaches {Q : α → S → Prop} {c c' : Program I α × S} (h : c.1.Sat rely guar Q c.2)
    (hrun : Reaches rely c c') : c'.1.Sat rely guar Q c'.2 := by
  induction hrun with
  | refl => exact h
  | tail _ hstep ih => exact ih.step hstep

/-- A state property that every guaranteed call establishes holds in every state reached. -/
theorem Sat.invariant {Q : α → S → Prop} {c c' : Program I α × S} (Inv : S → Prop)
    (hguar : ∀ s o a s', guar s o a s' → Inv s') (h : c.1.Sat rely guar Q c.2) (hs : Inv c.2)
    (hrun : Reaches rely c c') : Inv c'.2 := by
  induction hrun with
  | refl => exact hs
  | tail hbefore hstep _ =>
      have hmid := h.reaches hbefore
      cases hstep with
      | call ha => exact hguar _ _ _ _ (hmid _ _ ha).1

/-- A run that ends does so in a state that meets the postcondition. -/
theorem Sat.result {Q : α → S → Prop} {p : Program I α} {s s' : S} {a : α}
    (h : p.Sat rely guar Q s) (hrun : Reaches rely (p, s) (ret a, s')) : Q a s' :=
  h.reaches hrun

/-- A judgement about an abstract state, carried to one that it describes: each call that the concrete
    environment answers is one that the abstract environment answers alike. -/
theorem Sat.simulate {T : Type} {E G : Transition I T} {Q : α → S → Prop} (R : S → T → Prop)
    (hstep : ∀ s t o a t', R s t → E t o a t' →
      ∃ s', rely s o a s' ∧ R s' t' ∧ (guar s o a s' → G t o a t')) {p : Program I α} {s : S} {t : T}
    (h : p.Sat rely guar Q s) (hst : R s t) :
    p.Sat E G (fun a t' => ∃ s', R s' t' ∧ Q a s') t := by
  induction p generalizing s t with
  | ret a => exact ⟨s, hst, h⟩
  | call o k ih =>
      intro a t' hanswer
      obtain ⟨s', hs, hst', hg⟩ := hstep s t o a t' hst hanswer
      obtain ⟨hguar, hk⟩ := h a s' hs
      exact ⟨hg hguar, ih a hk hst'⟩

/-- A run in the concrete environment is one in the abstract one, where each call that keeps to the
    guarantee is answered alike. -/
theorem Sat.reaches_simulated {T : Type} {E G : Transition I T} {Q : α → T → Prop} (R : S → T → Prop)
    (hstep : ∀ s t o a t', R s t → E t o a t' → G t o a t' → ∃ s', rely s o a s' ∧ R s' t')
    {p : Program I α} {c : Program I α × T} {s : S} {t : T} (h : p.Sat E G Q t)
    (hrun : Reaches E (p, t) c) (hst : R s t) : ∃ s', Reaches rely (p, s) (c.1, s') ∧ R s' c.2 := by
  induction hrun with
  | refl => exact ⟨s, .refl, hst⟩
  | tail hbefore hlast ih =>
      obtain ⟨s₁, hrun₁, hst₁⟩ := ih
      have hmid := Sat.reaches (c := (p, t)) h hbefore
      cases hlast with
      | call ha =>
          obtain ⟨s₂, hs, hst₂⟩ := hstep _ _ _ _ _ hst₁ ha (hmid _ _ ha).1
          exact ⟨s₂, hrun₁.tail (.call hs), hst₂⟩

/-! ## The calls of a run -/

/-- A call and its answer. -/
abbrev Event (I : Interface) : Type := (o : I.Op) × I.Ans o

/-- The environment with the calls of the run kept beside its state. -/
def Logged (rely : Transition I S) : Transition I (S × List (Event I)) := fun s o a s' =>
  rely s.1 o a s'.1 ∧ s'.2 = s.2 ++ [⟨o, a⟩]

theorem Logged.forall {s s' : S × List (Event I)} {o : I.Op} {a : I.Ans o} {p : Event I → Prop}
    (hstep : Logged rely s o a s') (h : ∀ e ∈ s.2, p e) (hp : p ⟨o, a⟩) : ∀ e ∈ s'.2, p e := by
  intro e he
  rw [hstep.2, List.mem_append, List.mem_singleton] at he
  rcases he with he | rfl
  · exact h e he
  · exact hp

end Program

end Interaction
