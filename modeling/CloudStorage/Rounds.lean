import CloudStorage.Deeds
import CloudStorage.Serving

set_option autoImplicit false

/-! # Rounds of the menu

A session as a sequence of stages: what the client has before it on the console and in its files, and
what the worker has in the folder of the user. A stage tells the next choice, its conversation and the
next stage. The two loops follow the same stages, so that they stay in step as long as each choice
fits. -/

namespace CloudStorage

open Interaction Memory

/-- Both sides between two choices, without their counters. -/
structure Stage where
  choice : Buffer
  console : Console
  home : Fs
  store : Fs

namespace Stage

/-- The choice that is read. -/
def chosen (s : Stage) : Buffer := s.console.getline.1.1.getD s.choice

/-- What it leads to. -/
def deed (s : Stage) : Deed := (Client.deed s.home s.chosen s.console.getline.2).1

/-- The stage after a choice of the user `u`, whose folder is `D`. -/
def next (u : Buffer) (D : Path) (s : Stage) : Stage where
  choice := s.chosen
  console := (Client.deed s.home s.chosen s.console.getline.2).2
  home := s.home.after (Client.deedCalls s.home (s.store.files D) s.chosen s.console.getline.2)
  store := match s.deed with
    | .request r => s.store.after (r.calls u s.store (s.store.files D))
    | _ => s.store

/-- The conversation about a choice, as the worker has it. -/
def script (P : Platform) (D : Path) (s : Stage) : List (Turn Buffer) :=
  s.deed.script P (s.store.files D) (s.store.fileNames D)

/-- The stage after some choices; nothing comes after a logout. -/
def after (u : Buffer) (D : Path) : Nat → Stage → Stage
  | 0, s => s
  | n + 1, s => if s.deed = .logout then s else after u D n (s.next u D)

/-- The conversation about some choices. -/
def scripts (P : Platform) (u : Buffer) (D : Path) : Nat → Stage → List (Turn Buffer)
  | 0, _ => []
  | n + 1, s => s.script P D ++ if s.deed = .logout then [] else scripts P u D n (s.next u D)

/-- Whether one of some choices is a logout. -/
def leaves (u : Buffer) (D : Path) : Nat → Stage → Bool
  | 0, _ => false
  | n + 1, s => if s.deed = .logout then true else leaves u D n (s.next u D)

variable {P : Platform} {u : Buffer} {D : Path} {s : Stage} {n : Nat}

theorem after_next (h : s.deed ≠ .logout) (n : Nat) : s.after u D (n + 1) = (s.next u D).after u D n := by
  rw [after, if_neg h]

theorem scripts_next (h : s.deed ≠ .logout) (n : Nat) :
    s.scripts P u D (n + 1) = s.script P D ++ (s.next u D).scripts P u D n := by
  rw [scripts, if_neg h]

theorem leaves_next (h : s.deed ≠ .logout) (n : Nat) :
    s.leaves u D (n + 1) = (s.next u D).leaves u D n := by
  rw [leaves, if_neg h]

/-- What holds of all stages holds from the next one on. -/
theorem forall_next {p : Stage → Prop} (h : s.deed ≠ .logout) (hall : ∀ k < n + 1, p (s.after u D k)) :
    ∀ k < n, p ((s.next u D).after u D k) := by
  intro k hk
  rw [← after_next h]
  exact hall (k + 1) (Nat.succ_lt_succ hk)

/-- What is downloaded is there. -/
def Allowed (D : Path) (s : Stage) : Prop := s.deed.Allowed (s.store.files D)

/-- What is listed and downloaded fits. -/
def Fits (D : Path) (s : Stage) : Prop := s.deed.Fits (s.store.files D) (s.store.fileNames D)

instance (D : Path) (s : Stage) : Decidable (s.Allowed D) := inferInstanceAs (Decidable (Deed.Allowed _ _))

instance (D : Path) (s : Stage) : Decidable (s.Fits D) := inferInstanceAs (Decidable (Deed.Fits _ _ _))

end Stage

/-- The session after a logout. -/
def Session.closed (x : Session) : Session := { x with sessionKey := [] }

/-- How a menu for some choices ends: with a logout, or because they are all made. -/
def Stage.menuEnd (P : Platform) (u : Buffer) (D : Path) (n : Nat) (s : Stage) (x : Session) :
    Except Exit Int × Session :=
  if s.leaves u D n then (.ok 0, (x.advance ((s.scripts P u D n).map .mirror)).closed)
  else (.error .unfinished, x.advance ((s.scripts P u D n).map .mirror))

/-- What is heard and said about a logout, as the worker has it. -/
theorem script_logout {P : Platform} {D : Path} {s : Stage} (h : s.deed = .logout) :
    s.script P D = [.hear LogoutM1.serialize, .say (LogoutAck 0).serialize] := by
  rw [Stage.script, h]
  rfl

/-! ## The client -/

namespace Client

open Member

variable {P : Platform} {key : Buffer} {heap : Host → Buffer} {x : Session} {h : Host} {u : Buffer}
  {D D' : Path} {s : Stage}
  {R : Program.Config UInt8 SysCalls (Except Exit Int × Session) (Host × (Nat → Choice)) → Prop}

theorem ofName_ne_logout (f : Buffer → Request) (name : Option Buffer) :
    Deed.ofName f name ≠ .logout := by
  cases name <;> simp [Deed.ofName]

theorem uploadOf_ne_logout (home : Fs) (path : Buffer) : uploadOf home path ≠ .logout := by
  unfold uploadOf
  cases home.fileAt path with
  | none => simp
  | some contents =>
      dsimp only
      split_ifs <;> simp

/-- Only the sixth choice is a logout. -/
theorem deed_eq_logout {home : Fs} {choice : Buffer} {c : Console} :
    (deed home choice c).1 = .logout ↔ stoi choice = some logoutOption := by
  unfold deed logoutOption
  split
  case h_7 hnot => simpa using hnot
  all_goals rename_i hchoice
  · simp [hchoice, uploadOf_ne_logout]
  · simp [hchoice, ofName_ne_logout]
  · simp [hchoice]
  · cases hname : (enteredName c).1 with
    | none => simp [hchoice]
    | some name => simp [hchoice, ofName_ne_logout]
  · simp [hchoice, ofName_ne_logout]
  · simp [hchoice]

section

variable (henc : Encrypts P key)
include henc

/-- A round of the menu that is no logout. -/
theorem converses_round {n : Nat} {t : List (Turn Buffer)} (hat : Host.At s.home s.console h)
    (hroom : s.home.HasRoom downloadsPath D') (hallowed : s.Allowed D) (hfits : s.Fits D)
    (hstay : s.deed ≠ .logout)
    (hnext : ∀ h', Host.At (s.next u D).home (s.next u D).console h' →
      ConversesTo P key heap (menuLoop P n s.chosen) (x.advance ((s.script P D).map .mirror)) h' t R) :
    ConversesTo P key heap (menuLoop P (n + 1) s.choice) x h ((s.script P D).map .mirror ++ t) R := by
  obtain ⟨hfs, hconsole⟩ := hat
  obtain ⟨choice, console, home, store⟩ := s
  subst hfs hconsole
  apply ConversesTo.bind_quiet (plays_getline _)
  refine ⟨rfl, ?_⟩
  apply Converses.bind_to
  apply converses_handleMenuChoice (h := { h with console := h.console.getline.2 }) henc hroom hallowed
    hfits hstay
  intro result h' hresult hat'
  have hnot : ¬(result ≠ -2 ∧ stoi (h.console.getline.1.1.getD choice) = some logoutOption) :=
    fun hboth => hstay (deed_eq_logout.2 hboth.2)
  dsimp only
  rw [if_neg hresult, if_neg hnot]
  exact hnext h' hat'

/-- A logout that is acknowledged. -/
theorem plays_logout (hready : Ready key x [.say LogoutM1.serialize, .hear (LogoutAck 0).serialize])
    {Q : Except Exit Int → Session → Host → Prop}
    (hq : ∀ h', Host.At h.fs h.console h' → Q (.ok 1)
      (x.advance [.say LogoutM1.serialize, .hear (LogoutAck 0).serialize]).closed h') :
    Plays P key heap (returning (logout P)) x h (Turn.number x.sCounter x.rCounter
      [.say LogoutM1.serialize, .hear (LogoutAck 0).serialize]) Q := by
  have hparts : Ready key x ([.say LogoutM1.serialize] ++ [.hear (LogoutAck 0).serialize]) := hready
  have hsend : Counting x.sCounter := hparts.left.counting_say
  have hreceive : Counting x.rCounter := by
    have hcount := hparts.right.counting_hear
    simpa [Session.advance] using hcount
  have hcode : ¬(Ack.deserialize (LogoutAck 0).serialize).ackCode ≠ 0 := by decide
  apply Plays.returning
  apply Plays.bind (s := [.say (x.sCounter, LogoutM1.serialize)])
    (t := [.hear (x.rCounter, (LogoutAck 0).serialize)])
  apply plays_sendPacket henc hready.key hsend (by decide +kernel)
  intro h₁ hsame₁
  apply Plays.bind (s := [.hear (x.rCounter, (LogoutAck 0).serialize)]) (t := [])
  apply plays_expectPacket (x := { x with sCounter := x.sCounter + 1 }) hready.key hreceive
    (Ack.length_serialize _) (by decide)
  intro h₂ hsame₂
  dsimp only
  rw [if_neg hcode]
  apply Plays.bind_quiet (plays_modify _)
  apply Plays.bind_quiet (plays_print _)
  apply plays_pure
  have hat := (hsame₁.trans hsame₂).at
  have hend := hq { h₂ with printed := h₂.printed ++ [.sessionEnded] } ⟨hat.fs, hat.console⟩
  simpa [Session.closed, Session.advance] using hend

/-- The round of a logout. -/
theorem converses_leave {n : Nat} (hat : Host.At s.home s.console h) (hleave : s.deed = .logout)
    (hR : ∀ h' choices, h'.fs = s.home →
      R (.ret (.ok 0, (x.advance ((s.script P D).map .mirror)).closed), (h', choices))) :
    ConversesTo P key heap (menuLoop P (n + 1) s.choice) x h ((s.script P D).map .mirror) R := by
  have hchosen : stoi s.chosen = some 6 := deed_eq_logout.1 hleave
  have hmenu : handleMenuChoice P s.chosen = returning (logout P) := by
    rw [handleMenuChoice, hchosen]
    rfl
  have hlast : (1 : Int) ≠ -2 ∧ stoi s.chosen = some logoutOption := ⟨by decide, hchosen⟩
  rw [script_logout hleave] at hR ⊢
  apply ConversesTo.bind_quiet (plays_getline _)
  refine ⟨rfl, ?_⟩
  dsimp only
  rw [hat.console]
  intro hready
  show PlaysTo P key heap (handleMenuChoice P s.chosen >>= _) _ _ _ _
  rw [hmenu, ← List.append_nil (Turn.number _ _ _)]
  apply Plays.bind_playsTo
  apply plays_logout henc hready
  intro h' hat'
  dsimp only
  rw [if_neg (by decide)]
  show PlaysTo P key heap (if (1 : Int) ≠ -2 ∧ stoi s.chosen = some logoutOption then _ else _) _ _ _ _
  rw [if_pos hlast]
  exact playsTo_pure fun choices => hR h' choices (hat'.fs.trans hat.fs)

/-- The menu over some choices, by induction on them. -/
theorem converses_rounds {n : Nat} (hat : Host.At s.home s.console h)
    (hroom : s.home.HasRoom downloadsPath D') (hallowed : ∀ k < n, (s.after u D k).Allowed D)
    (hfits : ∀ k < n, (s.after u D k).Fits D)
    (hR : ∀ h' choices, h'.fs = (s.after u D n).home →
      R (.ret (s.menuEnd P u D n x), (h', choices))) :
    ConversesTo P key heap (menuLoop P n s.choice) x h ((s.scripts P u D n).map .mirror) R := by
  induction n generalizing s x h with
  | zero =>
      intro _
      apply playsTo_throw
      intro choices
      have hend := hR h choices hat.fs
      rwa [Stage.menuEnd, Stage.leaves, if_neg (by decide), Stage.scripts, List.map_nil,
        Session.advance_nil] at hend
  | succ n ih =>
      -- a logout ends the loop; any other choice leaves the rest of the choices to the induction
      by_cases hleave : s.deed = .logout
      · have hscripts : s.scripts P u D (n + 1) = s.script P D := by
          rw [Stage.scripts, if_pos hleave, List.append_nil]
        rw [hscripts]
        apply converses_leave henc hat hleave
        intro h' choices hfs
        have hend := hR h' choices
        rw [Stage.after, if_pos hleave, Stage.menuEnd, Stage.leaves, if_pos hleave, if_pos rfl, hscripts]
          at hend
        exact hend hfs
      · rw [Stage.scripts_next hleave, List.map_append]
        apply converses_round (u := u) henc hat hroom (hallowed 0 (Nat.succ_pos n))
          (hfits 0 (Nat.succ_pos n)) hleave
        intro h' hat'
        apply ih (s := s.next u D) hat' (files_deedCalls hroom _).1 (Stage.forall_next hleave hallowed)
          (Stage.forall_next hleave hfits)
        intro h'' choices hfs
        have hend := hR h'' choices
        rw [Stage.after_next hleave, Stage.menuEnd, Stage.leaves_next hleave, Stage.scripts_next hleave,
          List.map_append] at hend
        rw [Stage.menuEnd, Session.advance_advance]
        exact hend hfs

end

end Client

/-! ## The worker -/

namespace Worker

open Member

variable {P : Platform} {key : Buffer} {heap : Host → Buffer} {y : Session} {g : Host} {D : Path}
  {s : Stage}
  {R : Program.Config UInt8 SysCalls (Except Exit Int × Session) (Host × (Nat → Choice)) → Prop}

section

variable (henc : Encrypts P key)
include henc

/-- The round of a logout. The key is gone when the acknowledgement is sent. -/
theorem converses_leave {n : Nat}
    (hR : ∀ g' choices, g.Same g' → R (.ret (.ok 0,
      (y.advance [.hear LogoutM1.serialize, .say (LogoutAck 0).serialize]).closed), (g', choices))) :
    ConversesTo P key heap (commandLoop P (n + 1)) y g
      [.hear LogoutM1.serialize, .say (LogoutAck 0).serialize] R := by
  have hcode : commandCode LogoutM1.serialize = RequestCodes.logoutReq := CodeM1.commandCode_serialize _
  have hlen : LogoutM1.serialize.length = Max.initialRequestLength := CodeM1.length_serialize _
  have hcommand : command P RequestCodes.logoutReq LogoutM1.serialize = returning (logout P) := rfl
  apply Converses.bind_to (t := [.hear LogoutM1.serialize])
  apply converses_expectPacket hlen (by decide)
  intro g₁ hsame₁ hready
  have hcount := hready.counting_say
  have hrange : 0 ≤ (y.advance [.hear LogoutM1.serialize]).sCounter ∧
      (y.advance [.hear LogoutM1.serialize]).sCounter ≤ intMax := ⟨hcount.1, Int.le_of_lt hcount.2⟩
  have hack : Plays P key heap (returning (logout P)) (y.advance [.hear LogoutM1.serialize]) g₁
      [.say ((y.advance [.hear LogoutM1.serialize]).sCounter, (LogoutAck 0).serialize)]
      fun result y' g' => result = .ok 1 ∧ g.Same g' ∧
        y' = (y.advance [.hear LogoutM1.serialize, .say (LogoutAck 0).serialize]).closed := by
    apply Plays.returning
    apply Plays.bind_quiet (plays_get _)
    dsimp only
    rw [hready.key]
    apply Plays.bind_quiet (plays_serialize henc (sealable_ack _) _ _)
    intro w g₂ hw hsame₂
    apply Plays.bind_quiet (plays_modify _)
    rw [← List.append_nil [Turn.say _]]
    apply Plays.bind
    apply plays_sendFrame_or_end (x := (y.advance [.hear LogoutM1.serialize]).closed) hrange hw
    · intro _ g₃ hsame₃
      apply plays_pure
      refine ⟨rfl, hsame₁.trans (hsame₂.trans hsame₃), ?_⟩
      simp [Session.closed, Session.advance]
    · exact fun hmax => absurd hmax (Int.ne_of_lt hcount.2)
  dsimp only
  rw [hcode, hcommand, ← List.append_nil (Turn.number _ _ _)]
  apply Plays.bind_playsTo
  apply hack.mono
  rintro result y' g' ⟨rfl, hsame, rfl⟩
  dsimp only
  rw [if_neg (by decide), if_pos rfl]
  exact playsTo_pure fun choices => hR g' choices hsame

/-- The loop over some choices, by induction on them. A choice that leads to nothing costs no round. -/
theorem converses_rounds {u : Buffer} {n m : Nat} (hm : n < m) (hu : y.username = u)
    (hfs : g.fs = s.store) (hf : s.store.IsFolder (folderPath u) D)
    (hallowed : ∀ k < n, (s.after u D k).Allowed D) (hfits : ∀ k < n, (s.after u D k).Fits D)
    (hleft : s.leaves u D n = true → ∀ g' choices, g'.fs = (s.after u D n).store →
      R (.ret (.ok 0, (y.advance (s.scripts P u D n)).closed), (g', choices)))
    (hwaits : s.leaves u D n = false → ∀ k g' choices, g'.fs = (s.after u D n).store →
      R (commandLoop P (k + 1) (y.advance (s.scripts P u D n)), (g', choices))) :
    ConversesTo P key heap (commandLoop P m) y g (s.scripts P u D n) R := by
  obtain ⟨m, rfl⟩ := Nat.exists_eq_add_of_lt hm
  induction n generalizing s y g m with
  | zero =>
      rw [Nat.zero_add]
      obtain ⟨k, hk⟩ := waits_commandLoop P m y
      apply conversesTo_waiting hk
      intro choices
      have hend := hwaits rfl m g choices hfs
      rwa [Stage.scripts, Session.advance_nil] at hend
  | succ n ih =>
      -- a logout ends the loop; any other choice leaves the rest of the choices to the induction
      by_cases hleave : s.deed = .logout
      · have hscripts : s.scripts P u D (n + 1) =
            [.hear LogoutM1.serialize, .say (LogoutAck 0).serialize] := by
          rw [Stage.scripts, if_pos hleave, List.append_nil, script_logout hleave]
        rw [Stage.leaves, if_pos hleave, Stage.after, if_pos hleave, hscripts] at hleft
        rw [hscripts]
        apply converses_leave henc
        intro g' choices hsame
        exact hleft rfl g' choices (hsame.fs.trans hfs)
      · have hallowed' := Stage.forall_next hleave hallowed
        have hfits' := Stage.forall_next hleave hfits
        rw [Stage.leaves_next hleave, Stage.after_next hleave, Stage.scripts_next hleave,
          ← Session.advance_advance] at hleft hwaits
        rw [Stage.scripts_next hleave]
        cases hdeed : s.deed with
        | logout => exact absurd hdeed hleave
        -- nothing is sent, and the worker is still where it was
        | nothing =>
            have hscript : s.script P D = [] := by
              rw [Stage.script, hdeed]
              rfl
            have hstore : (s.next u D).store = s.store := by
              rw [Stage.next, hdeed]
            have hfuel : n + 1 + m + 1 = n + (m + 1) + 1 := by omega
            rw [hscript, Session.advance_nil] at hleft hwaits
            rw [hscript, List.nil_append, hfuel]
            apply ih (s := s.next u D) hu
            · rw [hfs, hstore]
            · rwa [hstore]
            · exact hallowed'
            · exact hfits'
            · exact hleft
            · exact hwaits
            · omega
        -- one round of the loop, which ends with the store of the next stage
        | request r =>
            have hscript : s.script P D = r.script P (s.store.files D) (s.store.fileNames D) := by
              rw [Stage.script, hdeed]
              rfl
            have hstore : (s.next u D).store = s.store.after (r.calls u s.store (s.store.files D)) := by
              rw [Stage.next, hdeed]
            have hfuel : n + 1 + m + 1 = n + m + 1 + 1 := by omega
            have hr : r.Allowed (s.store.files D) :=
              Client.allowed_of_deed hdeed (hallowed 0 (Nat.succ_pos n))
            have hlist : r = .list → Framed (s.store.fileNames D) := by
              rintro rfl
              have hfit := hfits 0 (Nat.succ_pos n)
              rw [Stage.after, Stage.Fits, hdeed] at hfit
              exact hfit
            subst hu
            rw [← hfs] at hf hscript hstore hr hlist
            rw [hscript] at hleft hwaits
            rw [hscript, hfuel]
            apply converses_round henc hf hr hlist
            intro g' hsame
            apply ih (s := s.next y.username D)
              (y := y.advance (r.script P (g.fs.files D) (g.fs.fileNames D))) rfl
            · rw [hstore]
              exact hsame.fs
            · rw [hstore]
              exact hf.sameDirs (Request.calls_sameDirs ..)
            · exact hallowed'
            · exact hfits'
            · exact hleft
            · exact hwaits
            · omega

end

end Worker

end CloudStorage
