import Mathlib.Data.List.Basic
import Mathlib.Data.List.Intervals
import Mathlib.Data.List.TakeWhile

set_option autoImplicit false

/-! # String streams

A stream over a string, with the state bits that tell whether its end was met and whether a read failed.
`getline` reads up to a delimiter; a loop over it reads tokens until a read fails. A string that was
joined with the delimiter comes apart into what was joined, as long as no part is empty or has the
delimiter in it (`tokens_intercalate`). -/

namespace Memory

/-- What is left of a stream, and its state. -/
structure TextStream (β : Type) where
  rest : List β
  eof : Bool
  failed : Bool
  deriving DecidableEq, Repr

namespace TextStream

variable {β : Type} [DecidableEq β]

/-- A stream over a string. -/
def start (t : List β) : TextStream β := ⟨t, false, false⟩

/-- Read up to the delimiter, which is dropped, or to the end. A read from a stream whose end was met
    fails, as one does that meets the end at once; the string is written if the stream was good. -/
def getline (delim : β) (s : TextStream β) : Option (List β) × TextStream β :=
  if s.eof || s.failed then (none, { s with failed := true })
  else
    let token := s.rest.takeWhile (· != delim)
    match s.rest.dropWhile (· != delim) with
    | _ :: rest => (some token, { s with rest := rest })
    | [] => (some token, { rest := [], eof := true, failed := token = [] })

/-- How much there is to read, with the end of the stream. -/
def size (s : TextStream β) : Nat := s.rest.length + if s.eof then 0 else 1

/-- A read that does not fail leaves less to read. -/
theorem size_getline {delim : β} {s : TextStream β} (h : (s.getline delim).2.failed = false) :
    (s.getline delim).2.size < s.size := by
  have hlen : (s.rest.dropWhile (· != delim)).length ≤ s.rest.length :=
    (List.dropWhile_sublist _).length_le
  by_cases hbad : (s.eof || s.failed) = true
  · rw [getline, if_pos hbad] at h
    cases h
  · rw [getline, if_neg hbad] at h ⊢
    rw [Bool.not_eq_true, Bool.or_eq_false_iff] at hbad
    cases hdrop : s.rest.dropWhile (· != delim) with
    | nil =>
        -- the stream is at its end now, and was not before
        simp [size, hbad.1]
    | cons c rest =>
        rw [hdrop, List.length_cons] at hlen
        simp only [size, hbad.1]
        omega

/-- The tokens of a loop over `getline`, which ends with the first read that fails. -/
def tokens (delim : β) (s : TextStream β) : List (List β) :=
  if _ : (s.getline delim).2.failed = false then
    (s.getline delim).1.getD [] :: tokens delim (s.getline delim).2
  else []
termination_by s.size
decreasing_by exact size_getline ‹_›

variable {delim : β} {a : List β}

theorem bne_of_not_mem (h : delim ∉ a) : ∀ b ∈ a, (b != delim) = true := by
  intro b hb
  rw [bne_iff_ne]
  rintro rfl
  exact h hb

/-- A token ends with a delimiter. -/
theorem tokens_append (h : delim ∉ a) (rest : List β) :
    (start (a ++ delim :: rest)).tokens delim = a :: (start rest).tokens delim := by
  have hread : (start (a ++ delim :: rest)).getline delim = (some a, start rest) := by
    have htake : (a ++ delim :: rest).takeWhile (· != delim) = a := by
      rw [List.takeWhile_append_of_pos (bne_of_not_mem h)]
      simp
    have hdrop : (a ++ delim :: rest).dropWhile (· != delim) = delim :: rest := by
      rw [List.dropWhile_append_of_pos (bne_of_not_mem h)]
      simp
    simp [start, getline, htake, hdrop]
  rw [tokens, hread]
  simp [start]

/-- A token ends with the string. -/
theorem tokens_last (h : delim ∉ a) (hne : a ≠ []) : (start a).tokens delim = [a] := by
  have hread : (start a).getline delim = (some a, ⟨[], true, false⟩) := by
    have htake : a.takeWhile (· != delim) = a := List.takeWhile_eq_self_iff.2 (bne_of_not_mem h)
    have hdrop : a.dropWhile (· != delim) = [] := List.dropWhile_eq_nil_iff.2 (bne_of_not_mem h)
    simp [start, getline, htake, hdrop, hne]
  have hend : (⟨[], true, false⟩ : TextStream β).tokens delim = [] := by
    rw [tokens]
    simp [getline]
  rw [tokens, hread]
  simp [hend]

/-- There is no token in an empty string. -/
theorem tokens_nil : (start ([] : List β)).tokens delim = [] := by
  rw [tokens]
  simp [start, getline]

/-- **What was joined comes apart.** -/
theorem tokens_intercalate {as : List (List β)} (h : ∀ a ∈ as, a ≠ [] ∧ delim ∉ a) :
    (start ([delim].intercalate as)).tokens delim = as := by
  induction as with
  | nil => exact tokens_nil
  | cons a as ih =>
      obtain ⟨hne, hnot⟩ := h a (List.mem_cons_self ..)
      have hrest := ih fun b hb => h b (List.mem_cons_of_mem _ hb)
      cases as with
      | nil =>
          rw [List.intercalate_singleton]
          exact tokens_last hnot hne
      | cons b bs =>
          rw [List.intercalate_cons_cons, List.append_assoc, List.singleton_append, tokens_append hnot,
            hrest]

end TextStream

end Memory
