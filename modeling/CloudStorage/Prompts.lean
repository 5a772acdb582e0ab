import CloudStorage.Calls
import CloudStorage.Interaction.May
import CloudStorage.Login

set_option autoImplicit false

/-! # Prompts

The client reads its standard input line by line, each line for a `Purpose`: the two login prompts,
the menu, a path or a file name. A function that refuses what it read clears the stream and ignores
the input up to the next end of line, although `std::getline` has already taken that of its own line,
so the line after a refused name is read for no purpose at all.

`Purpose.next` tells what a line leads to. A `Course` is a property of the purpose and the lines that
are left which every run keeps, whatever the server says, and a `Chase` is one that some run keeps;
each is followed once through the functions of the client. -/

namespace CloudStorage

open Interaction Interaction.Routine

/-! ## Lines -/

/-- The lines of a text, without their ends. The last one may lack its end. -/
def lines : Buffer → List Buffer
  | [] => []
  | c :: t =>
    if c = 10 then [] :: lines t
    else
      match lines t with
      | [] => [[c]]
      | line :: rest => (c :: line) :: rest

/-- A text with an end of line in it. -/
theorem lines_of_dropWhile {text rest : Buffer} {c : UInt8}
    (h : text.dropWhile (· != 10) = c :: rest) :
    lines text = text.takeWhile (· != 10) :: lines rest := by
  induction text with
  | nil => cases h
  | cons d t ih =>
      by_cases hd : d = 10
      · subst hd
        simp only [List.dropWhile_cons, bne_self_eq_false, Bool.false_eq_true, if_false] at h
        cases h
        simp [lines]
      · have hne : (d != 10) = true := by simpa using hd
        simp only [List.dropWhile_cons, hne, if_true] at h
        simp only [lines, if_neg hd, ih h, List.takeWhile_cons, hne, if_true]

/-- A text without an end of line is its only line. -/
theorem lines_of_dropWhile_nil {text : Buffer} (h : text.dropWhile (· != 10) = []) :
    text.takeWhile (· != 10) = text ∧ (text ≠ [] → lines text = [text]) := by
  induction text with
  | nil => exact ⟨rfl, fun hne => absurd rfl hne⟩
  | cons d t ih =>
      have hne : (d != 10) = true := by
        by_contra hd
        simp [hd] at h
      have hd : d ≠ 10 := by simpa using hne
      simp only [List.dropWhile_cons, hne, if_true] at h
      obtain ⟨htake, hlines⟩ := ih h
      refine ⟨by simp only [List.takeWhile_cons, hne, if_true, htake], fun _ => ?_⟩
      by_cases ht : t = []
      · simp [lines, hd, ht]
      · simp only [lines, if_neg hd, hlines ht]

namespace Console

/-- Once a read has met the end of the input, nothing is left of it. -/
def Sound (c : Console) : Prop := c.eof = true ∨ c.failed = true → c.input = []

/-- A sound console with these lines left. -/
def Holds (ls : List Buffer) (c : Console) : Prop := c.Sound ∧ lines c.input = ls

/-- What a read answers when these lines are left: the next of them, or a failure with the string
    unchanged or cleared. -/
def Answers (ls : List Buffer) (a : Option Buffer × Bool) : Prop :=
  match ls with
  | [] => a.2 = false ∧ a.1.getD [] = []
  | line :: _ => a = (some line, true)

variable {c : Console} {ls : List Buffer}

/-- A read takes a line. -/
theorem Holds.getline (h : c.Holds ls) :
    Answers ls c.getline.1 ∧ c.getline.2.Holds (ls.drop 1) := by
  obtain ⟨hsound, rfl⟩ := h
  unfold Console.getline
  by_cases hover : (c.eof || c.failed) = true
  · have hinput : c.input = [] := hsound (by simpa using hover)
    rw [if_pos hover, hinput]
    exact ⟨⟨rfl, rfl⟩, fun _ => rfl, by simp [lines]⟩
  · rw [if_neg hover]
    dsimp only
    split
    · rename_i rest hdrop
      rw [lines_of_dropWhile hdrop]
      refine ⟨rfl, fun hend => absurd ?_ hover, rfl⟩
      simpa using hend
    · rename_i hdrop
      obtain ⟨htake, hlines⟩ := lines_of_dropWhile_nil hdrop
      rw [htake]
      by_cases hempty : c.input = []
      · rw [hempty]
        exact ⟨⟨rfl, rfl⟩, fun _ => rfl, rfl⟩
      · rw [hlines hempty]
        exact ⟨by simp [Answers, hempty], fun _ => rfl, rfl⟩

/-- So does the call that ignores the rest of the input line. -/
theorem Holds.clearAndIgnore (h : c.Holds ls) : c.clearAndIgnore.Holds (ls.drop 1) := by
  obtain ⟨-, rfl⟩ := h
  unfold Console.clearAndIgnore
  split
  · rename_i rest hdrop
    rw [lines_of_dropWhile hdrop]
    exact ⟨fun hend => by simp at hend, rfl⟩
  · rename_i hdrop
    refine ⟨fun _ => rfl, ?_⟩
    by_cases hempty : c.input = []
    · rw [hempty]
      rfl
    · rw [(lines_of_dropWhile_nil hdrop).2 hempty]
      rfl

end Console

/-! ## What a line is for -/

/-- What the client does with the next line of its input. -/
inductive Purpose
  | username
  | password
  | choice
  | path
  /-- The first of the two names of a rename. -/
  | oldName
  /-- The last name that an operation asks for. -/
  | name
  /-- The line is skipped with the rest of one that was refused. -/
  | ignored
  deriving DecidableEq, Repr

namespace Purpose

open Client

/-- `Client::login` refuses the line. -/
def fieldInvalid (limit : Nat) (line : Buffer) : Bool :=
  line.isEmpty || decide (limit < line.length)

/-- What the line after this one is for; `none` where the session ends. -/
def next : Purpose → Buffer → Option Purpose
  | username, line => if fieldInvalid Max.usernameLength line then none else some password
  | password, line => if fieldInvalid Max.passwordLength line then none else some choice
  | choice, line =>
    match stoi line with
    | some 1 => some path
    | some 2 => some name
    | some 4 => some oldName
    | some 5 => some name
    | some 6 => none
    | _ => some choice
  | path, line => some (if line.isEmpty then ignored else choice)
  | oldName, line => some (if nameInvalid true line then ignored else name)
  | name, line => some (if nameInvalid true line then ignored else choice)
  | ignored, _ => some choice

/-- The login is not over. -/
def atLogin : Purpose → Bool
  | username | password => true
  | _ => false

theorem atLogin_of_choice {line : Buffer} {q : Purpose} (h : choice.next line = some q) :
    q.atLogin = false := by
  simp only [next] at h
  split at h
  all_goals cases h
  all_goals rfl

/-- The empty line is no logout. -/
theorem next_choice_nil : choice.next [] = some choice := by decide

/-- Read for this purpose and those that follow, the lines bring the session to its end. -/
def ends : Purpose → List Buffer → Bool
  | p, [] => p.atLogin
  | p, line :: ls =>
    match p.next line with
    | none => true
    | some q => ends q ls

/-- One of the lines is read for no purpose. -/
def swallows : Purpose → List Buffer → Bool
  | _, [] => false
  | p, line :: ls => p == ignored ||
    match p.next line with
    | none => false
    | some q => swallows q ls

end Purpose

end CloudStorage
