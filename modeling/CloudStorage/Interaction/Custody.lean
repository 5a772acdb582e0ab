import Mathlib.Algebra.Order.Group.Multiset
import Mathlib.Algebra.Order.Sub.Basic
import CloudStorage.Interaction.Routine

set_option autoImplicit false

/-! # Objects in custody

A library hands out objects, works on them and takes them back. A `Custody` says which, for each of its
calls. The state of a program that uses the library is the multiset of the objects that are out, and each
call has to be careful: what it works on and what it gives back is out.

`Owns A r P E` is the judgement for a function that only calls the library. It starts with the objects `A`
out, among any others, and ends with those that `P` or `E` say. It names what the function deals with and
nothing else, so it holds among more objects (`Owns.frame`). -/

namespace Interaction

/-- The operations of two interfaces. -/
def Interface.plus (I J : Interface) : Interface where
  Op := I.Op ⊕ J.Op
  Ans
    | .inl o => I.Ans o
    | .inr o => J.Ans o

/-- What the calls of a library do with objects: those that a call works on, those it takes back and those
    it hands out, and what is promised of its answers. -/
structure Custody (J : Interface) (H : Type) where
  uses : J.Op → List H
  frees : J.Op → Multiset H
  makes : (o : J.Op) → J.Ans o → Multiset H
  Answers : (o : J.Op) → J.Ans o → Prop

namespace Custody

variable {J : Interface} {H : Type} {C : Custody J H} {live : Multiset H} {o : J.Op}

/-- A call on objects that are out. -/
def Careful (C : Custody J H) (live : Multiset H) (o : J.Op) : Prop :=
  (∀ h ∈ C.uses o, h ∈ live) ∧ C.frees o ≤ live

theorem Careful.add (F : Multiset H) (h : C.Careful live o) : C.Careful (F + live) o :=
  ⟨fun x hx => Multiset.mem_add.2 (.inr (h.1 x hx)), h.2.trans (Multiset.le_add_left live F)⟩

variable [DecidableEq H]

/-- The objects that are out after a call. -/
def after (C : Custody J H) (live : Multiset H) (o : J.Op) (a : J.Ans o) : Multiset H :=
  live - C.frees o + C.makes o a

theorem after_add (F : Multiset H) (h : C.Careful live o) (a : J.Ans o) :
    C.after (F + live) o a = F + C.after live o a := by
  rw [after, after, add_tsub_assoc_of_le h.2, add_assoc]

end Custody

variable {I J : Interface} {H σ ε α β : Type} [DecidableEq H] {C : Custody J H}

/-- The program only calls the library, with care, and ends as `Q` says. -/
def Minds (C : Custody J H) (Q : α → Multiset H → Prop) : Program (I.plus J) α → Multiset H → Prop
  | .ret a, live => Q a live
  | .call (.inl _) _, _ => False
  | .call (.inr o) k, live =>
    C.Careful live o ∧ ∀ a, C.Answers o a → Minds C Q (k a) (C.after live o a)

theorem Minds.imp {Q Q' : α → Multiset H → Prop} {p : Program (I.plus J) α} {live : Multiset H}
    (h : Minds C Q p live) (hQ : ∀ a live, Q a live → Q' a live) : Minds C Q' p live := by
  induction p generalizing live with
  | ret a => exact hQ a live h
  | call o k ih =>
      cases o with
      | inl o => exact h.elim
      | inr o => exact ⟨h.1, fun a ha => ih a (h.2 a ha)⟩

theorem Minds.bind {Q : β → Multiset H → Prop} {p : Program (I.plus J) α}
    {f : α → Program (I.plus J) β} {live : Multiset H}
    (h : Minds C (fun a live => Minds C Q (f a) live) p live) : Minds C Q (p.bind f) live := by
  induction p generalizing live with
  | ret a => exact h
  | call o k ih =>
      cases o with
      | inl o => exact h.elim
      | inr o => exact ⟨h.1, fun a ha => ih a (h.2 a ha)⟩

/-- The ends of a routine told apart. -/
def Outcome (P : α → Multiset H → Prop) (E : ε → Multiset H → Prop) : Except ε α → Multiset H → Prop
  | .ok a => P a
  | .error e => E e

/-- Started with `A` among the objects that are out, `r` only calls the library, with care. It leaves its
    object alone and ends with objects as in `P`, or early with objects as in `E`, in the place of `A`. -/
def Owns (C : Custody J H) (A : Multiset H) (r : Routine (I.plus J) σ ε α) (P : α → Multiset H → Prop)
    (E : ε → Multiset H → Prop) : Prop :=
  ∀ x F, Minds C (fun y live => y.2 = x ∧ ∃ B, live = F + B ∧ Outcome P E y.1 B) (r x) (F + A)

namespace Owns

variable {A : Multiset H} {Q : β → Multiset H → Prop} {P P' : α → Multiset H → Prop}
  {E E' : ε → Multiset H → Prop} {r : Routine (I.plus J) σ ε α} {f : α → Routine (I.plus J) σ ε β}

theorem pure {a : α} (h : P a A) : Owns C A (pure a : Routine (I.plus J) σ ε α) P E :=
  fun _ _ => ⟨rfl, A, rfl, h⟩

theorem throw {e : ε} (h : E e A) : Owns C A (Routine.throw e : Routine (I.plus J) σ ε α) P E :=
  fun _ _ => ⟨rfl, A, rfl, h⟩

theorem bind (hr : Owns C A r P E) (hf : ∀ a B, P a B → Owns C B (f a) Q E) :
    Owns C A (r >>= f) Q E := by
  intro x F
  apply Minds.bind
  apply (hr x F).imp
  rintro ⟨e | a, y⟩ live ⟨rfl, B, rfl, hB⟩
  · exact ⟨rfl, B, rfl, hB⟩
  · exact hf a B hB y F

theorem conseq (hr : Owns C A r P E) (hP : ∀ a B, P a B → P' a B) (hE : ∀ e B, E e B → E' e B) :
    Owns C A r P' E' := by
  intro x F
  apply (hr x F).imp
  rintro ⟨e | a, y⟩ live ⟨rfl, B, rfl, hB⟩
  · exact ⟨rfl, B, rfl, hE e B hB⟩
  · exact ⟨rfl, B, rfl, hP a B hB⟩

/-- **The frame rule**: what holds of `r` among its own objects holds among more. -/
theorem frame (G : Multiset H) (hr : Owns C A r P E) :
    Owns C (G + A) r (fun a B => ∃ B', B = G + B' ∧ P a B') fun e B => ∃ B', B = G + B' ∧ E e B' := by
  intro x F
  have h := hr x (F + G)
  rw [add_assoc] at h
  apply h.imp
  rintro ⟨e | a, y⟩ live ⟨rfl, B, rfl, hB⟩
  · exact ⟨rfl, G + B, add_assoc F G B, B, rfl, hB⟩
  · exact ⟨rfl, G + B, add_assoc F G B, B, rfl, hB⟩

/-- One call of the library. -/
theorem call {o : J.Op} {P : J.Ans o → Multiset H → Prop} (hc : C.Careful A o)
    (h : ∀ a, C.Answers o a → P a (C.after A o a)) :
    Owns C A (Routine.call (I := I.plus J) (.inr o) : Routine (I.plus J) σ ε (J.Ans o)) P E :=
  fun _ F => ⟨hc.add F, fun a ha => ⟨rfl, C.after A o a, Custody.after_add F hc a, h a ha⟩⟩

end Owns

end Interaction
