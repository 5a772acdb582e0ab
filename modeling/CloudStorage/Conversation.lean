import CloudStorage.Exchange
import CloudStorage.Interaction.Numbered

set_option autoImplicit false

/-! # Conversations of one session

The scripts of client and worker without the counters. A function `Converses` along a list of payloads
if it plays the script in which they are numbered by the counters of the session, and leaves the session
with its counters moved on by what was said and heard; all of this as long as the counters last. -/

namespace CloudStorage

open Interaction

/-- A session with the counters after the conversation `t`. -/
def Session.advance (x : Session) (t : List (Turn Buffer)) : Session :=
  { x with sCounter := x.sCounter + Turn.spoken t, rCounter := x.rCounter + Turn.heard t }

namespace Session

@[simp]
theorem username_advance (x : Session) (t : List (Turn Buffer)) :
    (x.advance t).username = x.username := rfl

@[simp]
theorem advance_nil (x : Session) : x.advance [] = x := by simp [advance]

@[simp]
theorem advance_advance (x : Session) (t t' : List (Turn Buffer)) :
    (x.advance t).advance t' = x.advance (t ++ t') := by
  simp [advance, Int.add_assoc]

end Session

/-- The session has the key, and its counters last for the conversation. -/
structure Ready (key : Buffer) (x : Session) (t : List (Turn Buffer)) : Prop where
  key : x.sessionKey = key
  sent : 0 ≤ x.sCounter
  send_room : x.sCounter + Turn.spoken t ≤ intMax
  received : 0 ≤ x.rCounter
  receive_room : x.rCounter + Turn.heard t ≤ intMax

namespace Ready

variable {key : Buffer} {x : Session} {t t' : List (Turn Buffer)} {payload : Buffer}

theorem left (h : Ready key x (t ++ t')) : Ready key x t := by
  obtain ⟨hkey, hs, hs', hr, hr'⟩ := h
  rw [Turn.spoken_append] at hs'
  rw [Turn.heard_append] at hr'
  push_cast at hs' hr'
  exact ⟨hkey, hs, by omega, hr, by omega⟩

theorem right (h : Ready key x (t ++ t')) : Ready key (x.advance t) t' := by
  obtain ⟨hkey, hs, hs', hr, hr'⟩ := h
  rw [Turn.spoken_append] at hs'
  rw [Turn.heard_append] at hr'
  push_cast at hs' hr'
  refine ⟨hkey, ?_, ?_, ?_, ?_⟩
  all_goals
    simp only [Session.advance]
    omega

theorem counting_say (h : Ready key x [.say payload]) : Member.Counting x.sCounter := by
  have hroom := h.send_room
  rw [Turn.spoken_say, Turn.spoken_nil] at hroom
  exact ⟨h.sent, by push_cast at hroom; omega⟩

theorem counting_hear (h : Ready key x [.hear payload]) : Member.Counting x.rCounter := by
  have hroom := h.receive_room
  rw [Turn.heard_hear, Turn.heard_nil] at hroom
  exact ⟨h.received, by push_cast at hroom; omega⟩

end Ready

namespace Member

/-- As long as the counters last, the function says and hears what the conversation tells it, and ends
    in `Q` with the counters moved on. -/
def Converses (P : Platform) (key : Buffer) (heap : Host → Buffer) {α : Type} (r : Member α)
    (x : Session) (h : Host) (t : List (Turn Buffer)) (Q : Except Exit α → Host → Prop) : Prop :=
  Ready key x t → Plays P key heap r x h (Turn.number x.sCounter x.rCounter t) fun result x' h' =>
    x' = x.advance t ∧ Q result h'

variable {P : Platform} {key : Buffer} {heap : Host → Buffer} {α β : Type} {x : Session} {h : Host}
  {t t' : List (Turn Buffer)} {Q Q' : Except Exit α → Host → Prop}

/-! ## Rules -/

theorem Converses.mono {r : Member α} (hr : Converses P key heap r x h t Q)
    (hQ : ∀ result h', Q result h' → Q' result h') : Converses P key heap r x h t Q' := by
  intro hready
  apply (hr hready).mono
  rintro result x' h' ⟨hx, hq⟩
  exact ⟨hx, hQ _ _ hq⟩

theorem Converses.bind {r : Member β} {f : β → Member α}
    (hr : Converses P key heap r x h t fun result h' => match result with
      | .ok a => Converses P key heap (f a) (x.advance t) h' t' Q
      | .error e => t' = [] ∧ Q (.error e) h') :
    Converses P key heap (r >>= f) x h (t ++ t') Q := by
  intro hready
  rw [Turn.number_append]
  apply Plays.bind
  apply (hr hready.left).mono
  rintro result x' h' ⟨rfl, hq⟩
  cases result with
  | ok a =>
      apply (hq hready.right).mono
      rintro result x'' h'' ⟨rfl, hq'⟩
      exact ⟨x.advance_advance t t', hq'⟩
  | error e =>
      obtain ⟨rfl, hq⟩ := hq
      exact ⟨rfl, by rw [List.append_nil], hq⟩

/-- Sequencing before a function that says nothing. -/
theorem Converses.bind_last {r : Member β} {f : β → Member α}
    (hr : Converses P key heap r x h t fun result h' => match result with
      | .ok a => Converses P key heap (f a) (x.advance t) h' [] Q
      | .error e => Q (.error e) h') : Converses P key heap (r >>= f) x h t Q := by
  rw [← List.append_nil t]
  apply Converses.bind
  apply hr.mono
  intro result h' hq
  cases result with
  | ok a => exact hq
  | error e => exact ⟨rfl, hq⟩

/-- What says and hears nothing and leaves the session alone. -/
theorem converses_of_plays {r : Member α}
    (hr : Plays P key heap r x h [] fun result x' h' => x' = x ∧ Q result h') :
    Converses P key heap r x h [] Q := by
  intro _
  apply hr.mono
  rintro result x' h' ⟨rfl, hq⟩
  exact ⟨x'.advance_nil.symm, hq⟩

/-- Sequencing after a function that says nothing. -/
theorem Converses.bind_quiet {r : Member β} {f : β → Member α}
    (hr : Plays P key heap r x h [] fun result x' h' => x' = x ∧ match result with
      | .ok a => Converses P key heap (f a) x h' t Q
      | .error e => t = [] ∧ Q (.error e) h') :
    Converses P key heap (r >>= f) x h t Q := by
  apply Converses.bind (t := [])
  apply converses_of_plays
  apply hr.mono
  rintro result x' h' ⟨rfl, hq⟩
  refine ⟨rfl, ?_⟩
  rwa [Session.advance_nil]

theorem converses_pure {a : α} (hq : Q (.ok a) h) : Converses P key heap (pure a) x h [] Q :=
  converses_of_plays (plays_pure ⟨rfl, hq⟩)

theorem Converses.returning {r : Member Int} {Q : Except Exit Int → Host → Prop}
    (hr : Converses P key heap r x h t fun result => match result with
      | .ok n => Q (.ok n)
      | .error e => Q (value e)) : Converses P key heap (Member.returning r) x h t Q := by
  intro hready
  apply Plays.returning
  apply (hr hready).mono
  rintro result x' h' ⟨rfl, hq⟩
  cases result with
  | ok n => exact ⟨rfl, hq⟩
  | error e => exact ⟨rfl, hq⟩

/-! ## Known ends -/

/-- As `Converses`, with an end that is known in full: the function has ended, or it waits there. -/
def ConversesTo (P : Platform) (key : Buffer) (heap : Host → Buffer) {α : Type} (r : Member α)
    (x : Session) (h : Host) (t : List (Turn Buffer))
    (R : Program.Config UInt8 SysCalls (Except Exit α × Session) (Host × (Nat → Choice)) → Prop) :
    Prop :=
  Ready key x t → PlaysTo P key heap r x h (Turn.number x.sCounter x.rCounter t) R

variable {R : Program.Config UInt8 SysCalls (Except Exit α × Session) (Host × (Nat → Choice)) → Prop}

theorem Converses.bind_to {r : Member β} {f : β → Member α}
    (hr : Converses P key heap r x h t fun result h' => match result with
      | .ok a => ConversesTo P key heap (f a) (x.advance t) h' t' R
      | .error e => t' = [] ∧ ∀ choices, R (.ret (.error e, x.advance t), (h', choices))) :
    ConversesTo P key heap (r >>= f) x h (t ++ t') R := by
  intro hready
  rw [Turn.number_append]
  apply Plays.bind_playsTo
  apply (hr hready.left).mono
  rintro result x' h' ⟨rfl, hq⟩
  cases result with
  | ok a => exact hq hready.right
  | error e =>
      obtain ⟨rfl, hR⟩ := hq
      exact ⟨rfl, hR⟩

/-- Sequencing after a function that says nothing. -/
theorem ConversesTo.bind_quiet {r : Member β} {f : β → Member α}
    (hr : Plays P key heap r x h [] fun result x' h' => x' = x ∧ match result with
      | .ok a => ConversesTo P key heap (f a) x h' t R
      | .error e => t = [] ∧ ∀ choices, R (.ret (.error e, x), (h', choices))) :
    ConversesTo P key heap (r >>= f) x h t R := by
  apply Converses.bind_to (t := [])
  apply converses_of_plays
  apply hr.mono
  rintro result x' h' ⟨rfl, hq⟩
  refine ⟨rfl, ?_⟩
  rwa [Session.advance_nil]

/-- A function that starts with a receive waits for what does not come. -/
theorem conversesTo_waiting {r : Member α} {n : Nat}
    {k : Option Buffer → Program Sys (Except Exit α × Session)} (hwait : r x = .call (.recv n) k)
    (hR : ∀ choices, R (r x, (h, choices))) : ConversesTo P key heap r x h [] R :=
  fun _ => playsTo_waiting hwait hR

/-! ## Packets -/

section

variable (henc : Encrypts P key)
include henc

theorem converses_sendPacket {payload : Buffer} (hp : Sealable payload)
    {Q : Except Exit Unit → Host → Prop} (hq : ∀ h', h.Same h' → Q (.ok ()) h') :
    Converses P key heap (sendPacket P payload) x h [.say payload] Q := by
  intro hready
  apply plays_sendPacket henc hready.key hready.counting_say hp
  intro h' hsame
  exact ⟨by simp [Session.advance], hq h' hsame⟩

end

theorem converses_expectPacket {payload : Buffer} {n : Nat} {result : Int} (hn : payload.length = n)
    (hlt : n < 4294967296) {Q : Except Exit Buffer → Host → Prop}
    (hq : ∀ h', h.Same h' → Q (.ok payload) h') :
    Converses P key heap (expectPacket P n result) x h [.hear payload] Q := by
  intro hready
  apply plays_expectPacket hready.key hready.counting_hear hn hlt
  intro h' hsame
  exact ⟨by simp [Session.advance], hq h' hsame⟩

theorem converses_receivePacket {payload : Buffer} {n : Nat} (hn : payload.length = n)
    (hlt : n < 4294967296) {Q : Except Exit (Option Buffer) → Host → Prop}
    (hq : ∀ h', h.Same h' → Q (.ok (some payload)) h') :
    Converses P key heap (receivePacket P n) x h [.hear payload] Q := by
  intro hready
  apply plays_receivePacket hready.key hready.counting_hear hn hlt
  intro h' hsame
  exact ⟨by simp [Session.advance], hq h' hsame⟩

end Member

end CloudStorage
