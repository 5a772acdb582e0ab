import Mathlib.Logic.Function.Basic
import Mathlib.Data.Option.Basic

set_option autoImplicit false

/-! # Shelves

A shelf holds contents under names. What is put under a name that is taken, and what is moved to a name
that is taken, is left where it is; nothing but taking it down removes a content. So the contents of a
shelf are only lost by being taken down under the name that the moves have given them
(`Shelf.kept_or_taken`). -/

namespace Memory

/-- Contents under names. -/
abbrev Shelf (κ ν : Type) : Type := κ → Option ν

/-- What may be asked of a shelf. -/
inductive Change (κ ν : Type) : Type where
  | put (name : κ) (content : ν)
  | move (name newName : κ)
  | take (name : κ)
  | look

namespace Shelf

variable {κ ν : Type} [DecidableEq κ]

/-- The shelf after a change. A name that is taken is not taken again. -/
def change (m : Shelf κ ν) : Change κ ν → Shelf κ ν
  | .put name content => if (m name).isSome then m else Function.update m name (some content)
  | .move name newName =>
    if (m name).isSome ∧ m newName = none then
      Function.update (Function.update m name none) newName (m name)
    else m
  | .take name => Function.update m name none
  | .look => m

/-- The name after a change of what has this name before it. -/
def carry (m : Shelf κ ν) (k : κ) : Change κ ν → κ
  | .move name newName => if k = name ∧ m newName = none then newName else k
  | _ => k

/-- The shelf after some changes. -/
def changes (m : Shelf κ ν) (cs : List (Change κ ν)) : Shelf κ ν := cs.foldl change m

/-- The name after some changes. -/
def carries (m : Shelf κ ν) (k : κ) : List (Change κ ν) → κ
  | [] => k
  | c :: cs => carries (m.change c) (m.carry k c) cs

variable {m : Shelf κ ν} {k name newName : κ} {v content : ν} {c : Change κ ν}

@[simp]
theorem changes_nil : m.changes [] = m := rfl

@[simp]
theorem changes_cons (cs : List (Change κ ν)) : m.changes (c :: cs) = (m.change c).changes cs := rfl

theorem change_put_taken (h : m name = some v) : m.change (.put name content) = m := by
  simp [change, h]

theorem change_put_free (h : m name = none) :
    m.change (.put name content) = Function.update m name (some content) := by
  simp [change, h]

theorem change_move_missing (h : m name = none) : m.change (.move name newName) = m := by
  simp [change, h]

theorem change_move_taken (h : m newName = some v) : m.change (.move name newName) = m := by
  simp [change, h]

theorem change_move_free (h : m name = some v) (hfree : m newName = none) :
    m.change (.move name newName) = Function.update (Function.update m name none) newName (some v) := by
  simp [change, h, hfree]

theorem change_take_missing (h : m name = none) : m.change (.take name) = m := by
  rw [change, ← h, Function.update_eq_self]

/-- What is on the shelf after a change was there before it, or is what was put there. -/
theorem of_change (h : m.change c k = some v) : (∃ k', m k' = some v) ∨ ∃ name, c = .put name v := by
  cases c with
  | put name content =>
      cases htaken : m name with
      | some content' =>
          rw [change_put_taken htaken] at h
          exact Or.inl ⟨k, h⟩
      | none =>
          rw [change_put_free htaken, Function.update_apply] at h
          split at h
          · cases h
            exact Or.inr ⟨name, rfl⟩
          · exact Or.inl ⟨k, h⟩
  | move name newName =>
      simp only [change] at h
      split at h
      · simp only [Function.update_apply] at h
        split at h
        · exact Or.inl ⟨name, h⟩
        · split at h
          · cases h
          · exact Or.inl ⟨k, h⟩
      · exact Or.inl ⟨k, h⟩
  | take name =>
      rw [change, Function.update_apply] at h
      split at h
      · cases h
      · exact Or.inl ⟨k, h⟩
  | look => exact Or.inl ⟨k, h⟩

/-- A content that is not taken down is there after the change, under the name that it then has. -/
theorem change_carry (h : m k = some v) (hc : c ≠ .take k) : m.change c (m.carry k c) = some v := by
  cases c with
  | put name content =>
      by_cases htaken : (m name).isSome
      · simp [change, carry, htaken, h]
      · have hne : k ≠ name := by
          rintro rfl
          simp [h] at htaken
        simp [change, carry, htaken, h, Function.update_of_ne hne]
  | move name newName =>
      by_cases hfree : m newName = none
      · have hne : k ≠ newName := by
          rintro rfl
          rw [h] at hfree
          cases hfree
        by_cases hk : k = name
        · subst hk
          simp [change, carry, h, hfree]
        · by_cases hname : (m name).isSome
          · simp [change, carry, hk, hname, hfree, h, Function.update_of_ne hne]
          · simp [change, carry, hk, hname, h]
      · simp [change, carry, hfree, h]
  | take name =>
      have hne : k ≠ name := by
        rintro rfl
        exact hc rfl
      simp [change, carry, h, Function.update_of_ne hne]
  | look => exact h

/-- **Nothing is lost but what is taken down**: after any changes a content is still there, under the
    name that the moves gave it, or one of them took it down under the name that it had. -/
theorem kept_or_taken (h : m k = some v) (cs : List (Change κ ν)) :
    m.changes cs (m.carries k cs) = some v ∨
      ∃ pre post, cs = pre ++ .take (m.carries k pre) :: post := by
  induction cs generalizing m k with
  | nil => exact Or.inl h
  | cons c cs ih =>
      by_cases hc : c = .take k
      · exact Or.inr ⟨[], cs, by rw [hc]; rfl⟩
      · rcases ih (change_carry h hc) with hkept | ⟨pre, post, heq⟩
        · exact Or.inl hkept
        · exact Or.inr ⟨c :: pre, post, by rw [heq]; rfl⟩

/-- What is neither moved nor taken down stays under its name. -/
theorem changes_eq_some (h : m k = some v) {cs : List (Change κ ν)}
    (hcs : ∀ c ∈ cs, c ≠ .take k ∧ ∀ newName, c ≠ .move k newName) : m.changes cs k = some v := by
  induction cs generalizing m with
  | nil => exact h
  | cons c cs ih =>
      have hc := hcs c (List.mem_cons_self ..)
      have hsame : m.carry k c = k := by
        cases c with
        | move name newName =>
            have hne : k ≠ name := by
              rintro rfl
              exact hc.2 newName rfl
            simp [carry, hne]
        | _ => rfl
      have hstep := change_carry h hc.1
      rw [hsame] at hstep
      exact ih hstep fun c' hc' => hcs c' (List.mem_cons_of_mem _ hc')

end Shelf

end Memory
