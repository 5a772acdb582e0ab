import Mathlib.Data.List.GetD
import Mathlib.Data.List.OfFn
import Mathlib.Logic.Nontrivial.Basic

set_option autoImplicit false

/-! # Reads of vectors

A function copies ranges of symbols out of vectors, and nothing keeps such a range inside its vector:
what is read past the end is whatever lies in memory behind it. A `Reader` is a function of the memory
behind its vectors together with the ranges that it reads. It carries the proof that the memory
matters only to a function that reads past an end. -/

namespace Memory

variable {ι β α γ : Type}

/-- What lies behind each vector. -/
abbrev Behind (ι β : Type) : Type := ι → Nat → β

/-- The `n` symbols from place `off` of a vector on, those past its end taken from behind it. -/
def stretch (v : List β) (behind : Nat → β) (off n : Nat) : List β :=
  List.ofFn fun k : Fin n => v.getD (off + k) (behind (off + k - v.length))

@[simp]
theorem length_stretch (v : List β) (behind : Nat → β) (off n : Nat) :
    (stretch v behind off n).length = n := by simp [stretch]

theorem getElem_stretch (v : List β) (behind : Nat → β) (off n k : Nat)
    (h : k < (stretch v behind off n).length) :
    (stretch v behind off n)[k] = v.getD (off + k) (behind (off + k - v.length)) := by
  simp [stretch]

/-- A range inside the vector. -/
theorem stretch_of_le {v : List β} {off n : Nat} (behind : Nat → β) (h : off + n ≤ v.length) :
    stretch v behind off n = (v.drop off).take n := by
  apply List.ext_getElem
  · rw [length_stretch, List.length_take, List.length_drop]
    omega
  · intro k hk _
    rw [length_stretch] at hk
    rw [getElem_stretch, List.getElem_take, List.getElem_drop]
    exact List.getD_eq_getElem _ _ (by omega)

/-- A range from the start to past the end. -/
theorem stretch_of_ge {v : List β} {n : Nat} (behind : Nat → β) (h : v.length ≤ n) :
    stretch v behind 0 n = v ++ stretch [] behind 0 (n - v.length) := by
  apply List.ext_getElem
  · rw [List.length_append, length_stretch, length_stretch]
    omega
  · intro k hk _
    rw [length_stretch] at hk
    rw [getElem_stretch, Nat.zero_add]
    by_cases hv : k < v.length
    · rw [List.getElem_append_left hv]
      exact List.getD_eq_getElem _ _ hv
    · rw [List.getElem_append_right (by omega), getElem_stretch, List.getD_nil, Nat.zero_add]
      exact List.getD_eq_default _ _ (by omega)

/-- What is copied at too great a length is cut back to the vector. -/
theorem stretch_stretch {v : List β} {n : Nat} (a b : Nat → β) (h : v.length ≤ n) :
    stretch (stretch v a 0 n) b 0 v.length = v := by
  rw [stretch_of_le b (by rw [length_stretch]; omega), List.drop_zero, stretch_of_ge a h,
    List.take_left]

/-- A whole vector. -/
theorem stretch_self {v : List β} {n : Nat} (a : Nat → β) (h : v.length = n) :
    stretch v a 0 n = v := by
  subst h
  rw [stretch_of_le a (by omega), List.drop_zero, List.take_length]

/-- A range past the end shows what lies there. -/
theorem stretch_ne [Nontrivial β] (v : List β) (off n : Nat) (h : v.length < off + n)
    (hn : 0 < n) : ∃ a b : Nat → β, stretch v a off n ≠ stretch v b off n := by
  obtain ⟨a, b, hab⟩ := exists_pair_ne β
  refine ⟨fun _ => a, fun _ => b, fun heq => hab ?_⟩
  have hlast : v.length ≤ off + (n - 1) := by omega
  have hget := congrArg (·.getD (n - 1) a) heq
  simpa [stretch, Nat.sub_lt hn, List.getElem?_eq_none hlast] using hget

/-! ## Ranges -/

/-- One read: the size of the vector, and the range from place `first` up to but not including place
    `last`. -/
structure Range where
  size : Nat
  first : Nat
  last : Nat
  deriving DecidableEq, Repr

/-- No place of the range is past the end of the vector. -/
def Range.Inside (r : Range) : Prop := r.last ≤ r.size

instance (r : Range) : Decidable r.Inside := inferInstanceAs (Decidable (_ ≤ _))

/-- A function that reads vectors: its value and the ranges it reads. -/
structure Reader (ι β α : Type) where
  run : Behind ι β → α
  reads : Behind ι β → List Range
  run_congr : ∀ m m', (∀ r ∈ reads m, r.Inside) → run m' = run m ∧ reads m' = reads m

namespace Reader

/-- The function that reads nothing. -/
protected def pure (a : α) : Reader ι β α where
  run _ := a
  reads _ := []
  run_congr _ _ _ := ⟨rfl, rfl⟩

/-- One function after the other. -/
protected def bind (x : Reader ι β α) (f : α → Reader ι β γ) : Reader ι β γ where
  run m := (f (x.run m)).run m
  reads m := x.reads m ++ (f (x.run m)).reads m
  run_congr := by
    intro m m' h
    simp only [List.mem_append, or_imp, forall_and] at h
    obtain ⟨hrun, hreads⟩ := x.run_congr m m' h.1
    obtain ⟨hrun', hreads'⟩ := (f (x.run m)).run_congr m m' h.2
    exact ⟨by rw [hrun, hrun'], by rw [hrun, hreads, hreads']⟩

instance : Monad (Reader ι β) where
  pure := Reader.pure
  bind := Reader.bind

/-- Copy the `n` symbols from place `off` of the vector `v` on. -/
def read (i : ι) (v : List β) (off n : Nat) : Reader ι β (List β) where
  run m := stretch v (m i) off n
  reads _ := [⟨v.length, off, off + n⟩]
  run_congr := by
    intro m m' h
    have hin : off + n ≤ v.length := h _ (List.mem_singleton.2 rfl)
    exact ⟨by rw [stretch_of_le _ hin, stretch_of_le _ hin], rfl⟩

variable (m m' : Behind ι β)

@[simp]
theorem run_pure (a : α) : (pure a : Reader ι β α).run m = a := rfl

@[simp]
theorem reads_pure (a : α) : (pure a : Reader ι β α).reads m = [] := rfl

@[simp]
theorem run_bind (x : Reader ι β α) (f : α → Reader ι β γ) :
    (x >>= f).run m = (f (x.run m)).run m := rfl

@[simp]
theorem reads_bind (x : Reader ι β α) (f : α → Reader ι β γ) :
    (x >>= f).reads m = x.reads m ++ (f (x.run m)).reads m := rfl

@[simp]
theorem run_read (i : ι) (v : List β) (off n : Nat) :
    (read i v off n).run m = stretch v (m i) off n := rfl

@[simp]
theorem reads_read (i : ι) (v : List β) (off n : Nat) :
    (read i v off n).reads m = [⟨v.length, off, off + n⟩] := rfl

/-- Every range that is read lies inside its vector, whatever is behind the vectors. -/
def Safe (x : Reader ι β α) : Prop := ∀ m, ∀ r ∈ x.reads m, r.Inside

/-- The value does not depend on what is behind the vectors. -/
def Discreet (x : Reader ι β α) : Prop := ∀ m m', x.run m = x.run m'

/-- A function that stays inside its vectors shows nothing of what is behind them. -/
theorem Safe.discreet {x : Reader ι β α} (h : x.Safe) : x.Discreet :=
  fun m m' => (x.run_congr m' m (h m')).1

end Reader

end Memory
