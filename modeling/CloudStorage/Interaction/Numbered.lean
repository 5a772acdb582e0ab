import CloudStorage.Interaction.Script

set_option autoImplicit false

/-! # Numbered scripts

Two parties that number what they say, each in a sequence of its own. `number s r t` is the script `t`
with its messages numbered from `s` on for what is said and from `r` on for what is heard, so that a
script can be put together without the numbers and the numbers are added to the whole of it. -/

namespace Interaction

namespace Turn

variable {π : Type}

/-- How many messages of a script are said. -/
def spoken (t : List (Turn π)) : Nat :=
  t.countP fun | say _ => true | hear _ => false

/-- How many messages of a script are heard. -/
def heard (t : List (Turn π)) : Nat :=
  t.countP fun | say _ => false | hear _ => true

/-- The messages of a script with their numbers. -/
def number : Int → Int → List (Turn π) → List (Turn (Int × π))
  | _, _, [] => []
  | s, r, say payload :: t => say (s, payload) :: number (s + 1) r t
  | s, r, hear payload :: t => hear (r, payload) :: number s (r + 1) t

@[simp]
theorem spoken_nil : spoken ([] : List (Turn π)) = 0 := rfl

@[simp]
theorem heard_nil : heard ([] : List (Turn π)) = 0 := rfl

@[simp]
theorem spoken_say (payload : π) (t : List (Turn π)) : spoken (say payload :: t) = spoken t + 1 := by
  simp [spoken]

@[simp]
theorem spoken_hear (payload : π) (t : List (Turn π)) : spoken (hear payload :: t) = spoken t := by
  simp [spoken]

@[simp]
theorem heard_say (payload : π) (t : List (Turn π)) : heard (say payload :: t) = heard t := by
  simp [heard]

@[simp]
theorem heard_hear (payload : π) (t : List (Turn π)) : heard (hear payload :: t) = heard t + 1 := by
  simp [heard]

@[simp]
theorem spoken_append (t t' : List (Turn π)) : spoken (t ++ t') = spoken t + spoken t' := by
  simp [spoken]

@[simp]
theorem heard_append (t t' : List (Turn π)) : heard (t ++ t') = heard t + heard t' := by
  simp [heard]

@[simp]
theorem spoken_mirror (t : List (Turn π)) : spoken (t.map mirror) = heard t := by
  induction t with
  | nil => rfl
  | cons turn t ih => cases turn <;> simp [ih]

@[simp]
theorem heard_mirror (t : List (Turn π)) : heard (t.map mirror) = spoken t := by
  induction t with
  | nil => rfl
  | cons turn t ih => cases turn <;> simp [ih]

/-- A script that is only said. -/
@[simp]
theorem spoken_map_say {β : Type} (f : β → π) (l : List β) : spoken (l.map fun b => say (f b)) = l.length := by
  induction l with
  | nil => rfl
  | cons b l ih => simp [ih]

@[simp]
theorem heard_map_say {β : Type} (f : β → π) (l : List β) : heard (l.map fun b => say (f b)) = 0 := by
  induction l with
  | nil => rfl
  | cons b l ih => simp [ih]

@[simp]
theorem number_nil (s r : Int) : number s r ([] : List (Turn π)) = [] := rfl

/-- What comes later is numbered on. -/
theorem number_append (s r : Int) (t t' : List (Turn π)) :
    number s r (t ++ t') = number s r t ++ number (s + spoken t) (r + heard t) t' := by
  induction t generalizing s r with
  | nil => simp
  | cons turn t ih =>
      cases turn with
      | say payload =>
          have hnext : s + 1 + (spoken t : Int) = s + (spoken (say payload :: t) : Int) := by
            rw [spoken_say]
            push_cast
            omega
          rw [List.cons_append, number, ih, hnext, heard_say]
          rfl
      | hear payload =>
          have hnext : r + 1 + (heard t : Int) = r + (heard (hear payload :: t) : Int) := by
            rw [heard_hear]
            push_cast
            omega
          rw [List.cons_append, number, ih, hnext, spoken_hear]
          rfl

/-- The other side has the two sequences the other way round. -/
theorem number_mirror (s r : Int) (t : List (Turn π)) :
    number s r (t.map mirror) = (number r s t).map mirror := by
  induction t generalizing s r with
  | nil => rfl
  | cons turn t ih =>
      cases turn with
      | say payload => simp [number, ih]
      | hear payload => simp [number, ih]

end Turn

end Interaction
