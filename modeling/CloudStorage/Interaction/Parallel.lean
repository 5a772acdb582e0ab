import Mathlib.Logic.Function.Basic
import CloudStorage.Interaction.Program

set_option autoImplicit false

/-! # Programs side by side

A family of programs, each with a state of its own. At every step one of them gets an answer, and
what it may be can depend on the states of all. `project` gives the run of one program out of a run
of the family: the states of the others are reduced to what the program can have seen of them, which
only grows. -/

namespace Interaction

variable {ι : Type} [DecidableEq ι] {I : Interface} {S α : Type}

/-- One answered call of one of the programs. -/
inductive Parallel.Step (env : ι → (ι → S) → (o : I.Op) → I.Ans o → S → Prop) :
    (ι → Program I α × S) → (ι → Program I α × S) → Prop where
  | call {c : ι → Program I α × S} (i : ι) {o : I.Op} {k : I.Ans o → Program I α} {a : I.Ans o}
      {s' : S} (hc : (c i).1 = .call o k) (h : env i (fun j => (c j).2) o a s') :
      Parallel.Step env c (Function.update c i (k a, s'))

/-- Any number of answered calls. -/
def Parallel.Reaches (env : ι → (ι → S) → (o : I.Op) → I.Ans o → S → Prop) :
    (ι → Program I α × S) → (ι → Program I α × S) → Prop :=
  Relation.ReflTransGen (Parallel.Step env)

namespace Parallel

variable {env : ι → (ι → S) → (o : I.Op) → I.Ans o → S → Prop} {c c' : ι → Program I α × S}

/-- The run of one program, where the others do not matter. -/
theorem reaches_of (i : ι) {rely : Transition I S}
    (hrely : ∀ s o a s', env i s o a s' → rely (s i) o a s') (hrun : Reaches env c c') :
    Program.Reaches rely (c i) (c' i) := by
  induction hrun with
  | refl => exact .refl
  | @tail d d' _ hstep ih =>
      obtain ⟨j, hc, h⟩ := hstep
      rename_i o k a s'
      by_cases hij : i = j
      · subst hij
        have hd : d i = (.call o k, (d i).2) := Prod.ext hc rfl
        rw [hd] at ih
        have hnext : Program.Reaches rely (c i) (k a, s') := ih.tail (.call (hrely _ _ _ _ h))
        simpa using hnext
      · simpa [Function.update_of_ne hij] using ih

/-- **The run of one program.** What program `i` has seen of the states, `seen`, is ordered by `le`;
    it grows with every step of the others and is up to date at each step of `i`. -/
theorem project {V : Type} (i : ι) (seen : (ι → S) → V) (le : V → V → Prop) (hrefl : ∀ v, le v v)
    (htrans : ∀ u v w, le u v → le v w → le u w)
    (hgrow : ∀ j s o a s', env j s o a s' → le (seen s) (seen (Function.update s j s')))
    {R : Transition I (S × V)}
    (hrely : ∀ s o a s' v, env i s o a s' → le v (seen s) → R (s i, v) o a (s', seen s))
    (hrun : Reaches env c c') :
    ∃ v, le v (seen fun j => (c' j).2) ∧ Program.Reaches R
      ((c i).1, (c i).2, seen fun j => (c j).2) ((c' i).1, (c' i).2, v) := by
  induction hrun with
  | refl => exact ⟨_, hrefl _, .refl⟩
  | @tail d d' _ hstep ih =>
      obtain ⟨v, hv, hreach⟩ := ih
      obtain ⟨j, hc, h⟩ := hstep
      rename_i o k a s'
      have hstates : (fun l => (Function.update d j (k a, s') l).2) =
          Function.update (fun l => (d l).2) j s' := by
        funext l
        by_cases hl : l = j
        · subst hl
          simp
        · simp [hl]
      have hseen := hgrow j _ o a s' h
      rw [hstates]
      by_cases hij : i = j
      · subst hij
        refine ⟨_, hseen, hreach.tail ?_⟩
        rw [hc]
        simpa using Program.Step.call (k := k) (hrely _ o a s' v h hv)
      · refine ⟨v, htrans _ _ _ hv hseen, ?_⟩
        simpa [Function.update_of_ne hij] using hreach

/-- A run of one program, while the others rest. -/
theorem reaches_alone (i : ι) {rely : Transition I S}
    (hrely : ∀ s o a s', rely s o a s' → env i (Function.update (fun j => (c j).2) i s) o a s')
    {d : Program I α × S} (hrun : Program.Reaches rely (c i) d) :
    Reaches env c (Function.update c i d) := by
  induction hrun with
  | refl =>
      rw [Function.update_eq_self]
      exact .refl
  | tail _ hstep ih =>
      cases hstep with
      | @call o k s a s' ha =>
          have hstates : (fun j => (Function.update c i (.call o k, s) j).2) =
              Function.update (fun j => (c j).2) i s := by
            funext j
            by_cases hj : j = i
            · subst hj
              simp
            · simp [hj]
          have hnext : Step env (Function.update c i (.call o k, s))
              (Function.update (Function.update c i (.call o k, s)) i (k a, s')) :=
            .call i (by simp) (hstates ▸ hrely _ _ _ _ ha)
          rw [Function.update_idem] at hnext
          exact ih.tail hnext

end Parallel

end Interaction
