import CloudStorage.Course

set_option autoImplicit false

/-! # The menu and its input

Two properties of `Client::start` that depend on its standard input alone: that the session ends with
the input, and that every prompt takes the next line. Both fail, and what the lines are read for
decides when: a session without a logout repeats its last choice, or the choice that is no number, as
soon as the input is at its end, and a name that is refused takes the line after it along. -/

namespace CloudStorage

open Interaction

/-! ## The console of a run -/

namespace Host

/-- A call off the console leaves it as it is. -/
theorem console_answer (c : Choice) (h : Host) {o : Sys.Op} (ho : OffConsole o) :
    (h.answer c o).2.console = h.console := by
  cases o with
  | send data =>
      simp only [answer, put]
      split_ifs
      · rfl
      · rfl
      · rfl
  | recv n => rfl
  | sys o =>
      cases o with
      | getline => exact ho.elim
      | clearAndIgnore => exact ho.elim
      | _ => rfl

theorem anyEnv_offConsole {h h' : Host} {o : Sys.Op} {a : Sys.Ans o} (ho : OffConsole o)
    (hstep : anyEnv h o a h') : h'.console = h.console := by
  obtain ⟨c, hc⟩ := hstep
  rw [← console_answer c h ho, hc]

theorem anyEnv_getline {h h' : Host} {a : Option Buffer × Bool}
    (hstep : anyEnv h (.sys .getline) a h') :
    a = h.console.getline.1 ∧ h'.console = h.console.getline.2 := by
  obtain ⟨c, hc⟩ := hstep
  exact ⟨(congrArg Prod.fst hc).symm, (congrArg (Host.console ∘ Prod.snd) hc).symm⟩

theorem anyEnv_clearAndIgnore {h h' : Host} {u : Unit}
    (hstep : anyEnv h (.sys .clearAndIgnore) u h') : h'.console = h.console.clearAndIgnore := by
  obtain ⟨c, hc⟩ := hstep
  exact (congrArg (Host.console ∘ Prod.snd) hc).symm

end Host

/-! ## The end of the input -/

/-- A host at the start of a session whose standard input is `input`. -/
def atConsole (fs : Fs) (input : Buffer) : Host := Host.start fs ⟨input, false, false⟩

/-- Whatever the server answers and whatever else happens, the client has ended its session, in one
    way or another, before it would have to make more than `bound` choices. -/
def EndsWithin (P : Platform) (input : Buffer) (bound : Nat) : Prop :=
  ∀ (fs : Fs) (x x' : Session) (h : Host) (result : Except Exit Int),
    Program.Reaches Host.anyEnv (Client.start P bound x, atConsole fs input) (.ret (result, x'), h) →
      result ≠ .error .unfinished

theorem holds_start (fs : Fs) (input : Buffer) :
    (atConsole fs input).console.Holds (lines input) :=
  ⟨fun hend => by simp [atConsole, Host.start] at hend, rfl⟩

theorem ends_next {p q : Purpose} {line : Buffer} {ls : List Buffer} (hq : p.next line = some q) :
    p.ends (line :: ls) = q.ends ls := by
  simp only [Purpose.ends, hq]

/-- The lines lead to the end of the session, in every run. -/
def ending : Course Host where
  rely := Host.anyEnv
  guar := fun _ _ _ _ => True
  good p ls := p.ends ls = true
  held ls h := h.console.Holds ls
  quiet := by
    intro ls h o a h' ho hheld hstep
    rw [Host.anyEnv_offConsole ho hstep]
    exact ⟨trivial, hheld⟩
  getline := by
    intro ls h a h' hheld hstep
    obtain ⟨rfl, hconsole⟩ := Host.anyEnv_getline hstep
    rw [hconsole]
    exact ⟨trivial, hheld.getline⟩
  ignore := by
    intro ls h u h' _ hheld hstep
    rw [Host.anyEnv_clearAndIgnore hstep]
    exact ⟨trivial, hheld.clearAndIgnore⟩
  next := fun _ _ _ _ hgood hq => (ends_next hq).symm.trans hgood
  dry := by
    intro p q hp hgood
    rw [Purpose.ends, hp] at hgood
    cases hgood

/-- The lines do not lead there, in some run. -/
def lasting : Drift Host where
  rely := Host.anyEnv
  goal := fun _ => False
  host := id
  bad p ls h := p.ends ls = false ∧ h.console.Holds ls
  answer := by
    intro p ls h o c ho hbad
    refine ⟨(h.answer c o).2, ⟨c, rfl⟩, hbad.1, ?_⟩
    rw [Host.console_answer c h ho]
    exact hbad.2
  getline := by
    intro p line ls h _ hbad
    obtain ⟨hends, hheld⟩ := hbad
    obtain ⟨hanswer, hleft⟩ := hheld.getline
    cases hq : p.next line with
    | none => simp [Purpose.ends, hq] at hends
    | some q =>
        rw [ends_next hq] at hends
        have hline : h.console.getline.1 = (some line, true) := hanswer
        refine ⟨q, { h with console := h.console.getline.2 }, rfl, ⟨.calm, ?_⟩, hends, hleft⟩
        rw [← hline]
        rfl
  atEnd := by
    intro p h hbad
    obtain ⟨hends, hheld⟩ := hbad
    obtain ⟨hanswer, hleft⟩ := hheld.getline
    exact ⟨hends, _, _, hanswer, ⟨.calm, rfl⟩, fun q hq => ⟨hq, hleft⟩⟩
  ignore := by
    intro ls h hbad
    obtain ⟨hends, hheld⟩ := hbad
    refine ⟨_, ⟨.calm, rfl⟩, Or.inr ⟨?_, hheld.clearAndIgnore⟩⟩
    cases ls with
    | nil => rfl
    | cons line ls => exact hends

theorem EndsWithin.of_ends (P : Platform) {input : Buffer} (hends : Purpose.username.ends (lines input) = true)
    {bound : Nat} (hbound : (lines input).length ≤ bound) : EndsWithin P input bound := by
  intro fs x x' h result hrun heq
  have hat : ending.At .username bound (atConsole fs input) := ⟨_, hbound, hends, holds_start fs input⟩
  have hend := Program.Sat.result ((Course.follows_start (P := P) bound).program hat) hrun
  rw [heq] at hend
  have hgood : Purpose.choice.ends [] = true := hend rfl (Nat.le_refl _)
  cases hgood

/-- A run that makes more choices than there are lines. -/
theorem EndsWithin.ends {P : Platform} {input : Buffer} {bound : Nat}
    (hbound : (lines input).length ≤ bound) (h : EndsWithin P input bound) :
    Purpose.username.ends (lines input) = true := by
  by_contra hnot
  have hends : Purpose.username.ends (lines input) = false := by simpa using hnot
  have hat : lasting.At .username bound (atConsole .root input) :=
    ⟨_, hbound, hends, holds_start .root input⟩
  obtain ⟨p, h', hrun, hgoal | ⟨y, rfl, hend⟩⟩ :=
    (Drift.may_start (P := P) (x := Session.start [] []) bound hat).reaches
  · exact hgoal
  · obtain ⟨result, x'⟩ := y
    cases result with
    | ok n => exact hend
    | error e => exact h .root _ x' h' _ hrun (by rw [hend.1])

/-- **A session ends with its input** exactly if its lines end it: if reading them for what the
    prompts ask for, with the line after each refused name skipped, comes to a logout in the menu, or
    to a refusal or the end of the input at a login prompt. Where they do not, no bound on the number
    of choices holds for every run. -/
theorem session_ends_iff (P : Platform) (input : Buffer) (extra : Nat) :
    EndsWithin P input ((lines input).length + extra) ↔
      Purpose.username.ends (lines input) = true :=
  ⟨EndsWithin.ends (Nat.le_add_right _ _), fun h => .of_ends P h (Nat.le_add_right _ _)⟩

set_option maxRecDepth 10000 in
/-- After a list the input is at its end, and the client lists again and again. -/
theorem session_outlives_input :
    ¬EndsWithin (.plain .little) (ascii "user1\nroot\n3\n") 3 := by
  intro h
  have hends := h.ends (by decide)
  revert hends
  decide

/-! ## One line for each prompt -/

/-- The answers to the prompts among these calls. -/
def prompts (t : List (Program.Event Sys)) : List (Option Buffer × Bool) :=
  t.filterMap fun e => match e with
    | ⟨.sys .getline, answer⟩ => some answer
    | _ => none

theorem prompts_getline (t : List (Program.Event Sys)) (a : Option Buffer × Bool) :
    prompts (t ++ [⟨.sys .getline, a⟩]) = prompts t ++ [a] := by
  simp [prompts]

theorem prompts_append (t : List (Program.Event Sys)) {o : Sys.Op} (a : Sys.Ans o)
    (ho : o ≠ .sys .getline) : prompts (t ++ [⟨o, a⟩]) = prompts t := by
  rw [prompts, List.filterMap_append, ← prompts]
  suffices hnone : prompts [⟨o, a⟩] = [] by
    rw [← prompts, hnone, List.append_nil]
  cases o with
  | send => rfl
  | recv => rfl
  | sys o =>
      cases o with
      | getline => exact absurd rfl ho
      | _ => rfl

/-- Each prompt so far was answered with its line of the script, as long as there was one, and the
    input is at the line after those. -/
structure InStep (script : List Buffer) (t : List (Program.Event Sys)) (c : Console) : Prop where
  read : ∀ (i : Nat) a line, (prompts t)[i]? = some a → script[i]? = some line → a = (some line, true)
  left : lines c.input = script.drop (prompts t).length

/-- In every run, at every point, the prompts are in step with the lines of the input. -/
def LineByLine (P : Platform) (input : Buffer) : Prop :=
  ∀ (bound : Nat) (fs : Fs) (x : Session) (p : Program Sys (Except Exit Int × Session)) (h : Host)
    (t : List (Program.Event Sys)),
    Program.Reaches (Program.Logged Host.anyEnv)
      (Client.start P bound x, atConsole fs input, []) (p, h, t) →
    InStep (lines input) t h.console

section

variable {script ls : List Buffer} {t : List (Program.Event Sys)} {c : Console}

/-- A prompt takes its line. -/
theorem InStep.getline (h : InStep script t c) (hheld : c.Holds ls) :
    InStep script (t ++ [⟨.sys .getline, c.getline.1⟩]) c.getline.2 := by
  obtain ⟨hanswer, -, hleft⟩ := hheld.getline
  have hls : ls = script.drop (prompts t).length := hheld.2.symm.trans h.left
  constructor
  · intro i a line ha hline
    rw [prompts_getline] at ha
    by_cases hi : i < (prompts t).length
    · rw [List.getElem?_append_left hi] at ha
      exact h.read i a line ha hline
    · rw [List.getElem?_append_right (by omega), List.getElem?_singleton] at ha
      split_ifs at ha with hzero
      have hcons : ls = line :: script.drop ((prompts t).length + 1) := by
        obtain rfl : i = (prompts t).length := by omega
        rw [hls]
        exact List.drop_eq_getElem?_toList_append.trans (by simp [hline])
      rw [hcons] at hanswer
      exact (Option.some.inj ha).symm.trans hanswer
  · rw [hleft, hls, List.drop_drop, prompts_getline, List.length_append, List.length_singleton]

theorem InStep.offConsole (h : InStep script t c) {o : Sys.Op} (a : Sys.Ans o)
    (ho : o ≠ .sys .getline) : InStep script (t ++ [⟨o, a⟩]) c := by
  constructor
  · rw [prompts_append t a ho]
    exact h.read
  · rw [prompts_append t a ho]
    exact h.left

end

theorem OffConsole.ne_getline {o : Sys.Op} (ho : OffConsole o) : o ≠ .sys .getline := by
  rintro rfl
  exact ho

theorem swallows_next {p q : Purpose} {line : Buffer} {ls : List Buffer} (hp : p ≠ .ignored)
    (hq : p.next line = some q) : p.swallows (line :: ls) = q.swallows ls := by
  simp [Purpose.swallows, hq, hp]

/-- No line is swallowed, in every run. -/
def stepping (script : List Buffer) : Course (Host × List (Program.Event Sys)) where
  rely := Program.Logged Host.anyEnv
  guar := fun _ _ _ s' => InStep script s'.2 s'.1.console
  good p ls := p.swallows ls = false
  held ls s := s.1.console.Holds ls ∧ InStep script s.2 s.1.console
  quiet := by
    intro ls s o a s' ho hheld hstep
    obtain ⟨h', t'⟩ := s'
    obtain ⟨hanswer, rfl⟩ := hstep
    rw [Host.anyEnv_offConsole ho hanswer]
    have hin := hheld.2.offConsole a ho.ne_getline
    exact ⟨hin, hheld.1, hin⟩
  getline := by
    intro ls s a s' hheld hstep
    obtain ⟨h', t'⟩ := s'
    obtain ⟨hanswer, rfl⟩ := hstep
    obtain ⟨rfl, hconsole⟩ := Host.anyEnv_getline hanswer
    rw [hconsole]
    have hin := hheld.2.getline hheld.1
    exact ⟨hin, hheld.1.getline.1, hheld.1.getline.2, hin⟩
  ignore := by
    intro ls s u s' hgood hheld hstep
    obtain ⟨h', t'⟩ := s'
    obtain ⟨hanswer, rfl⟩ := hstep
    rw [Host.anyEnv_clearAndIgnore hanswer]
    have hnil : ls = [] := by
      cases ls with
      | nil => rfl
      | cons line ls => simp [Purpose.swallows] at hgood
    subst hnil
    have hskip := hheld.1.clearAndIgnore
    have hin := hheld.2.offConsole (o := .sys .clearAndIgnore) u fun heq => by cases heq
    have hin' : InStep script (s.2 ++ [⟨.sys .clearAndIgnore, u⟩]) s.1.console.clearAndIgnore :=
      ⟨hin.read, hskip.2.trans (hheld.1.2.symm.trans hin.left)⟩
    exact ⟨hin', hskip, hin'⟩
  next := by
    intro p line ls q hgood hq
    by_cases hp : p = .ignored
    · simp [Purpose.swallows, hp] at hgood
    · exact (swallows_next hp hq).symm.trans hgood
  dry := fun _ _ _ _ => rfl

/-- A line is swallowed, in some run. -/
def slipping (script : List Buffer) : Drift (Host × List (Program.Event Sys)) where
  rely := Program.Logged Host.anyEnv
  goal := fun s => ¬InStep script s.2 s.1.console
  host := Prod.fst
  bad p ls s := p.swallows ls = true ∧ s.1.console.Holds ls ∧ ls = script.drop (prompts s.2).length
  answer := by
    intro p ls s o c ho hbad
    refine ⟨((s.1.answer c o).2, s.2 ++ [⟨o, (s.1.answer c o).1⟩]), ⟨⟨c, rfl⟩, rfl⟩, hbad.1, ?_, ?_⟩
    · rw [Host.console_answer c s.1 ho]
      exact hbad.2.1
    · rw [prompts_append _ _ ho.ne_getline]
      exact hbad.2.2
  getline := by
    intro p line ls s hp hbad
    obtain ⟨hswallows, hheld, hls⟩ := hbad
    obtain ⟨hanswer, hleft⟩ := hheld.getline
    have hline : s.1.console.getline.1 = (some line, true) := hanswer
    cases hq : p.next line with
    | none => simp [Purpose.swallows, hq, hp] at hswallows
    | some q =>
        rw [swallows_next hp hq] at hswallows
        refine ⟨q, ({ s.1 with console := s.1.console.getline.2 },
          s.2 ++ [⟨.sys .getline, (some line, true)⟩]), rfl, ⟨⟨.calm, ?_⟩, rfl⟩, hswallows, hleft, ?_⟩
        · rw [← hline]
          rfl
        · rw [prompts_getline, List.length_append, List.length_singleton, ← List.drop_drop, ← hls]
          rfl
  atEnd := by
    intro p s hbad
    cases hbad.1
  ignore := by
    intro ls s hbad
    obtain ⟨hswallows, hheld, hls⟩ := hbad
    refine ⟨({ s.1 with console := s.1.console.clearAndIgnore },
      s.2 ++ [⟨.sys .clearAndIgnore, ()⟩]), ⟨⟨.calm, rfl⟩, rfl⟩, Or.inl fun hin => ?_⟩
    have hin' : InStep script (s.2 ++ [⟨.sys .clearAndIgnore, ()⟩]) s.1.console.clearAndIgnore := hin
    have hleft := hheld.clearAndIgnore.2.symm.trans hin'.left
    rw [prompts_append s.2 (o := .sys .clearAndIgnore) () (fun heq => by cases heq), ← hls] at hleft
    cases ls with
    | nil => cases hswallows
    | cons line ls =>
        have hlen := congrArg List.length hleft
        simp only [List.drop_succ_cons, List.drop_zero, List.length_cons] at hlen
        omega

theorem inStep_start (fs : Fs) (input : Buffer) :
    InStep (lines input) [] (atConsole fs input).console :=
  ⟨fun i a line ha _ => by simp [prompts] at ha, rfl⟩

theorem LineByLine.of_not_swallows (P : Platform) {input : Buffer}
    (h : Purpose.username.swallows (lines input) = false) : LineByLine P input := by
  intro bound fs x p h' t hrun
  have hstart := inStep_start fs input
  have hat : (stepping (lines input)).At .username (lines input).length (atConsole fs input, []) :=
    ⟨_, Nat.le_refl _, h, holds_start fs input, hstart⟩
  exact Program.Sat.invariant (c := (_, _)) (fun s => InStep (lines input) s.2 s.1.console)
    (fun _ _ _ _ hg => hg) ((Course.follows_start (P := P) bound).program hat) hstart hrun

theorem LineByLine.not_swallows {P : Platform} {input : Buffer} (h : LineByLine P input) :
    Purpose.username.swallows (lines input) = false := by
  by_contra hnot
  have hswallows : Purpose.username.swallows (lines input) = true := by simpa using hnot
  have hat : (slipping (lines input)).At .username (lines input).length (atConsole .root input, []) :=
    ⟨_, Nat.le_refl _, hswallows, holds_start .root input, rfl⟩
  obtain ⟨p, s, hrun, hgoal | ⟨y, rfl, hend⟩⟩ :=
    (Drift.may_start (P := P) (x := Session.start [] []) _ hat).reaches
  · exact hgoal (h _ .root _ p s.1 s.2 hrun)
  · obtain ⟨result, x'⟩ := y
    cases result with
    | ok n => exact hend
    | error e =>
        obtain ⟨ls, hlen, hbad, -, -⟩ := hend.2
        obtain rfl : ls = [] := List.eq_nil_of_length_eq_zero (Nat.le_zero.1 hlen)
        cases hbad

/-- **Each prompt takes exactly the next line** of an input exactly if reading its lines for what the
    prompts ask for never refuses the name or path of an operation with a line after it. -/
theorem line_by_line_iff (P : Platform) (input : Buffer) :
    LineByLine P input ↔ Purpose.username.swallows (lines input) = false :=
  ⟨LineByLine.not_swallows, .of_not_swallows P⟩

set_option maxRecDepth 10000 in
/-- The logout after an empty name is not read. -/
theorem logout_swallowed : ¬LineByLine (.plain .little) (ascii "user1\nroot\n5\n\n6\n") := by
  intro h
  have hnot := h.not_swallows
  revert hnot
  decide

end CloudStorage
