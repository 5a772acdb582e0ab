import Mathlib.Logic.Function.Basic
import CloudStorage.Interaction.Program

set_option autoImplicit false

/-! # Programs on a shared state

A family of programs, each with a state of its own, that all use one store. At every step one of them
gets an answer; what it may be can depend on everything there is, and it changes the store and the
state of the one that asked. -/

namespace Interaction

/-- The store, and each program with its state. -/
structure Shared (ι : Type) (I : Interface) (S L α : Type) where
  store : S
  part : ι → Program I α × L

namespace Shared

variable {ι : Type} [DecidableEq ι] {I : Interface} {S L α : Type}

/-- The store is `s` now, and the program `i` is at `p` with the state `l`. -/
def next (c : Shared ι I S L α) (i : ι) (s : S) (p : Program I α) (l : L) : Shared ι I S L α :=
  ⟨s, Function.update c.part i (p, l)⟩

variable {c c' : Shared ι I S L α} {i j : ι} {s : S} {p : Program I α} {l : L}

@[simp]
theorem next_store : (c.next i s p l).store = s := rfl

@[simp]
theorem next_part_self : (c.next i s p l).part i = (p, l) := Function.update_self ..

theorem next_part_of_ne (h : j ≠ i) : (c.next i s p l).part j = c.part j :=
  Function.update_of_ne h ..

/-- The programs with a part of their states. -/
def mapPart {L' : Type} (f : L → L') (c : Shared ι I S L α) : Shared ι I S L' α :=
  ⟨c.store, fun i => ((c.part i).1, f (c.part i).2)⟩

theorem mapPart_next {L' : Type} (f : L → L') :
    (c.next i s p l).mapPart f = (c.mapPart f).next i s p (f l) := by
  have hpart : ∀ j, ((c.next i s p l).mapPart f).part j = ((c.mapPart f).next i s p (f l)).part j := by
    intro j
    by_cases hj : j = i
    · subst hj
      simp [mapPart]
    · rw [next_part_of_ne hj]
      simp [mapPart, next_part_of_ne hj]
  exact congrArg (Shared.mk s) (funext hpart)

/-- How the calls of each program are answered: from all there is to an answer, a store and a state of
    the one that asked. -/
abbrev Env (ι : Type) (I : Interface) (S L α : Type) : Type :=
  Shared ι I S L α → ι → (o : I.Op) → I.Ans o → S → L → Prop

/-- One answered call of one of the programs. -/
inductive Step (env : Env ι I S L α) (c : Shared ι I S L α) : Shared ι I S L α → Prop where
  | call (i : ι) {o : I.Op} {k : I.Ans o → Program I α} {a : I.Ans o} {s' : S} {l' : L}
      (hc : (c.part i).1 = .call o k) (h : env c i o a s' l') : Step env c (c.next i s' (k a) l')

/-- Any number of answered calls. -/
def Reaches (env : Env ι I S L α) : Shared ι I S L α → Shared ι I S L α → Prop :=
  Relation.ReflTransGen (Step env)

variable {env : Env ι I S L α}

theorem Reaches.mono {E : Env ι I S L α} (h : Reaches env c c')
    (henv : ∀ c i o a s' l', env c i o a s' l' → E c i o a s' l') : Reaches E c c' := by
  induction h with
  | refl => exact .refl
  | tail _ hstep ih =>
      obtain ⟨i, hc, h⟩ := hstep
      exact ih.tail (.call i hc (henv _ _ _ _ _ _ h))

/-- **Safety of the programs together.** If each program is safe on its own state, whatever happens to
    the store, and the guaranteed calls keep an invariant of the store, then both hold in every run. -/
theorem invariant {E G : Transition I L} {Q : α → L → Prop} {K : S → Prop}
    (hrely : ∀ c i o a s' l', env c i o a s' l' → E (c.part i).2 o a l')
    (henv : ∀ c i o a s' l', env c i o a s' l' → G (c.part i).2 o a l' → K c.store → K s')
    (hsat : ∀ i, (c.part i).1.Sat E G Q (c.part i).2) (hs : K c.store) (hrun : Reaches env c c') :
    K c'.store ∧ ∀ i, (c'.part i).1.Sat E G Q (c'.part i).2 := by
  induction hrun with
  | refl => exact ⟨hs, hsat⟩
  | @tail d d' _ hstep ih =>
      obtain ⟨hinv, hall⟩ := ih
      obtain ⟨i, hc, h⟩ := hstep
      rename_i o k a s' l'
      have hi := hall i
      rw [hc] at hi
      obtain ⟨hg, hk⟩ := hi a l' (hrely _ _ _ _ _ _ h)
      refine ⟨henv _ _ _ _ _ _ h hg hinv, fun j => ?_⟩
      by_cases hj : j = i
      · subst hj
        rw [next_part_self]
        exact hk
      · rw [next_part_of_ne hj]
        exact hall j

end Shared

end Interaction
