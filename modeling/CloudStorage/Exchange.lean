import CloudStorage.AesCcm
import CloudStorage.Outcomes
import CloudStorage.Interaction.Overrun

set_option autoImplicit false

/-! # Exchanges

What client and worker say to each other over a reliable channel, on machines where no call fails. A
message is a counter with a payload; a frame carries it if it was made from the two under the session
key, with any IV. `Member.Plays` says which script a function follows and where it ends, whatever the
values are that a machine leaves open. -/

namespace CloudStorage

open Interaction

/-- A machine whose calls succeed, with these bytes behind each object that is read past its end. -/
def Host.onHeap (heap : Host → Buffer) : Machine SysCalls (Host × (Nat → Choice)) := fun l o =>
  match o with
  | .overrun => (heap l.1, l)
  | o => Host.benign l o

/-- A counter and a payload. -/
abbrev Message : Type := Int × Buffer

/-- The frame of a message, with any IV. -/
def Carries (P : Platform) (key : Buffer) (message : Message) (w : Buffer) : Prop :=
  ∃ iv, iv.length = Wrapper.ivLength ∧ Wrapper.frame P key iv message.1 message.2 = some w

/-- AES-128-CCM under the key, with the IV and the additional data of a frame: a text that has a byte is
    sealed as long as its length fits. -/
structure Encrypts (P : Platform) (key : Buffer) : Prop where
  length_key : key.length = Crypto.keyLen
  isSome_iff {iv aad clear : Buffer} : iv.length = Wrapper.ivLength → aad.length = Wrapper.ivLength + 4 →
    clear ≠ [] → ((P.encrypt key iv aad clear).isSome = true ↔ clear.length < Crypto.lengthLimit)

/-- The cipher made of `encrypt_aes_ccm` does so, over any library that does what it documents. -/
theorem encrypts_ccm {order : ByteOrder} {E : Crypto.Evp} {S : E.Ctx → Crypto.Settings} {C : Aes}
    {hE : E.Documented S C} {hmemory : E.new.isSome = true} {key : Buffer}
    (hkey : key.length = Crypto.keyLen) : Encrypts (.ccm order hE hmemory) key where
  length_key := hkey
  isSome_iff := by
    intro iv aad clear hiv haad hclear
    obtain ⟨hne, hcount⟩ := Wrapper.ne_nil_of_length haad
    have heq : (Platform.ccm order hE hmemory).encrypt key iv aad clear =
        Crypto.encryptAesCcm E clear [] key iv aad [] := if_pos ⟨hkey, hiv, hne, hcount⟩
    rw [heq, Crypto.encryptAesCcm_eq hE hmemory hkey hiv hne hcount]
    split_ifs with hok
    · exact ⟨fun _ => hok.2, fun _ => rfl⟩
    · exact ⟨fun h => absurd h (by decide), fun h => absurd ⟨hclear, h⟩ hok⟩

/-- A key of 16 bytes. -/
def sampleKey : Buffer := List.replicate 16 7

theorem encrypts_sampleKey (order : ByteOrder) : Encrypts (.aes order) sampleKey := encrypts_ccm rfl

/-- A file with a full chunk and a rest. -/
def sampleFile : Buffer := ascii "twenty bytes of text"

/-- A payload that is sealed. -/
def Sealable (payload : Buffer) : Prop := payload ≠ [] ∧ payload.length < Crypto.lengthLimit

instance (payload : Buffer) : Decidable (Sealable payload) := inferInstanceAs (Decidable (_ ∧ _))

theorem sealable_of_length {payload : Buffer} {n : Nat} (h : payload.length = n) (hpos : 0 < n)
    (hlt : n < Crypto.lengthLimit) : Sealable payload :=
  ⟨List.ne_nil_of_length_pos (by omega), by omega⟩

/-- Files, console and reports are as before. -/
structure Host.Same (h h' : Host) : Prop where
  fs : h'.fs = h.fs
  console : h'.console = h.console
  printed : h'.printed = h.printed

theorem Host.Same.refl (h : Host) : h.Same h := ⟨rfl, rfl, rfl⟩

theorem Host.Same.trans {h h' h'' : Host} (a : h.Same h') (b : h'.Same h'') : h.Same h'' :=
  ⟨b.fs.trans a.fs, b.console.trans a.console, b.printed.trans a.printed⟩

theorem Host.same_noted (h : Host) (e : Note) : h.Same (h.noted e) := ⟨rfl, rfl, rfl⟩

namespace Member

/-- From `x` and `h` the function says and hears what the script tells it, and ends in `Q`. -/
def Plays (P : Platform) (key : Buffer) (heap : Host → Buffer) {α : Type} (r : Member α)
    (x : Session) (h : Host) (s : List (Turn Message))
    (Q : Except Exit α → Session → Host → Prop) : Prop :=
  ∀ choices : Nat → Choice, (r x).Plays (Host.onHeap heap) (Carries P key)
    (fun c => ∃ result x' h' choices', c = (.ret (result, x'), (h', choices')) ∧ Q result x' h')
    (h, choices) s

variable {P : Platform} {key : Buffer} {heap : Host → Buffer} {α β : Type} {x x' : Session} {h h' : Host}
  {s : List (Turn Message)} {Q Q' : Except Exit α → Session → Host → Prop}

/-! ## Rules -/

theorem Plays.mono {r : Member α} (hr : Plays P key heap r x h s Q)
    (hQ : ∀ result x' h', Q result x' h' → Q' result x' h') : Plays P key heap r x h s Q' := by
  intro choices
  apply (hr choices).mono
  rintro c ⟨result, x', h', choices', rfl, hq⟩
  exact ⟨result, x', h', choices', rfl, hQ _ _ _ hq⟩

theorem plays_pure {a : α} (hq : Q (.ok a) x h) : Plays P key heap (pure a) x h [] Q :=
  fun choices => ⟨rfl, .ok a, x, h, choices, rfl, hq⟩

theorem plays_throw {e : Exit} (hq : Q (.error e) x h) :
    Plays P key heap (Routine.throw e : Member α) x h [] Q :=
  fun choices => ⟨rfl, .error e, x, h, choices, rfl, hq⟩

/-- The rule of sequencing; an early exit leaves nothing of the script. -/
theorem Plays.bind {r : Member β} {f : β → Member α} {t : List (Turn Message)}
    (hr : Plays P key heap r x h s fun result x' h' => match result with
      | .ok a => Plays P key heap (f a) x' h' t Q
      | .error e => t = [] ∧ Q (.error e) x' h') :
    Plays P key heap (r >>= f) x h (s ++ t) Q := by
  intro choices
  apply Program.Plays.bind
  apply (hr choices).mono
  rintro c ⟨result, x', h', choices', rfl, hq⟩
  refine ⟨_, _, rfl, ?_⟩
  cases result with
  | ok a => exact hq choices'
  | error e =>
      obtain ⟨rfl, hq⟩ := hq
      exact ⟨rfl, .error e, x', h', choices', rfl, hq⟩

/-- Sequencing after a function that says nothing. -/
theorem Plays.bind_quiet {r : Member β} {f : β → Member α}
    (hr : Plays P key heap r x h [] fun result x' h' => match result with
      | .ok a => Plays P key heap (f a) x' h' s Q
      | .error e => s = [] ∧ Q (.error e) x' h') :
    Plays P key heap (r >>= f) x h s Q := Plays.bind hr

/-- The rule of a handler, which says nothing. -/
theorem Plays.catchExit {r : Member α} {handler : Exit → Member α}
    (hr : Plays P key heap r x h s fun result x' h' => match result with
      | .ok a => Q (.ok a) x' h'
      | .error e => Plays P key heap (handler e) x' h' [] Q) :
    Plays P key heap (Routine.catchExit r handler) x h s Q := by
  intro choices
  have hs : s = s ++ [] := (List.append_nil s).symm
  rw [hs]
  apply Program.Plays.bind
  apply (hr choices).mono
  rintro c ⟨result, x', h', choices', rfl, hq⟩
  refine ⟨_, _, rfl, ?_⟩
  cases result with
  | ok a => exact ⟨rfl, .ok a, x', h', choices', rfl, hq⟩
  | error e => exact hq choices'

theorem Plays.returning {r : Member Int} {Q : Except Exit Int → Session → Host → Prop}
    (hr : Plays P key heap r x h s fun result => match result with
      | .ok n => Q (.ok n)
      | .error e => Q (value e)) : Plays P key heap (Member.returning r) x h s Q := by
  apply Plays.catchExit
  apply hr.mono
  intro result x' h' hq
  cases result with
  | ok n => exact hq
  | error e =>
      cases e with
      | returned n => exact plays_pure hq
      | thrown e => exact plays_throw hq
      | exited => exact plays_throw hq
      | undefined => exact plays_throw hq
      | unfinished => exact plays_throw hq

/-- A `try` block in which nothing is thrown. -/
theorem plays_attempt {r : Member β} {Q : Except Exit (Except Exception β) → Session → Host → Prop}
    (hr : Plays P key heap r x h s fun result x' h' => ∃ b, result = .ok b ∧ Q (.ok (.ok b)) x' h') :
    Plays P key heap (attempt r) x h s Q := by
  apply Plays.catchExit
  rw [← List.append_nil s]
  apply Plays.bind
  apply hr.mono
  rintro result x' h' ⟨b, rfl, hq⟩
  exact plays_pure hq

/-- A `try` block in which something is thrown. -/
theorem plays_attempt_thrown {r : Member β} {Q : Except Exit (Except Exception β) → Session → Host → Prop}
    (hr : Plays P key heap r x h s fun result x' h' =>
      ∃ e, result = .error (.thrown e) ∧ Q (.ok (.error e)) x' h') :
    Plays P key heap (attempt r) x h s Q := by
  apply Plays.catchExit
  rw [← List.append_nil s]
  apply Plays.bind
  apply hr.mono
  rintro result x' h' ⟨e, rfl, hq⟩
  exact ⟨rfl, plays_pure hq⟩

theorem plays_get {Q : Except Exit Session → Session → Host → Prop} (hq : Q (.ok x) x h) :
    Plays P key heap Routine.get x h [] Q :=
  fun choices => ⟨rfl, .ok x, x, h, choices, rfl, hq⟩

theorem plays_modify {f : Session → Session} {Q : Except Exit Unit → Session → Host → Prop}
    (hq : Q (.ok ()) (f x) h) : Plays P key heap (Routine.modify f) x h [] Q :=
  fun choices => ⟨rfl, .ok (), f x, h, choices, rfl, hq⟩

/-- As `Plays`, but the function may also stop where it waits for more than the script has. -/
def Stops (P : Platform) (key : Buffer) (heap : Host → Buffer) {α : Type} (r : Member α)
    (x : Session) (h : Host) (s : List (Turn Message)) (K : Host → Prop) : Prop :=
  ∀ choices : Nat → Choice, (r x).Plays (Host.onHeap heap) (Carries P key) (fun c => K c.2.1)
    (h, choices) s

theorem Plays.stops {r : Member α} {K : Host → Prop} (hr : Plays P key heap r x h s fun _ _ => K) :
    Stops P key heap r x h s K := by
  intro choices
  apply (hr choices).mono
  rintro c ⟨result, x', h', choices', rfl, hk⟩
  exact hk

theorem Plays.bind_stops {r : Member β} {f : β → Member α} {K : Host → Prop}
    {t : List (Turn Message)} (hr : Plays P key heap r x h s fun result x' h' => match result with
      | .ok a => Stops P key heap (f a) x' h' t K
      | .error _ => t = [] ∧ K h') :
    Stops P key heap (r >>= f) x h (s ++ t) K := by
  intro choices
  apply Program.Plays.bind
  apply (hr choices).mono
  rintro c ⟨result, x', h', choices', rfl, hq⟩
  refine ⟨_, _, rfl, ?_⟩
  cases result with
  | ok a => exact hq choices'
  | error e => exact hq

/-- A receive of a frame that does not come. -/
theorem stops_receiveFrame {n : Nat} {f : Option (Int × Buffer × Buffer) → Member α} {K : Host → Prop}
    (hk : K h) : Stops P key heap (receiveFrame P n >>= f) x h [] K := by
  cases hlarge : tooLarge (Wrapper.getSize n) with
  | true =>
      unfold receiveFrame
      simp only [hlarge, if_true]
      exact fun _ => ⟨rfl, hk⟩
  | false =>
      unfold receiveFrame
      simp only [hlarge, Bool.false_eq_true, if_false]
      exact fun _ => Or.inl ⟨rfl, hk⟩

/-- As `Stops`, with an end that is known in full: the function has ended, or it waits there. -/
def PlaysTo (P : Platform) (key : Buffer) (heap : Host → Buffer) {α : Type} (r : Member α)
    (x : Session) (h : Host) (s : List (Turn Message))
    (Q : Program.Config UInt8 SysCalls (Except Exit α × Session) (Host × (Nat → Choice)) → Prop) :
    Prop :=
  ∀ choices : Nat → Choice, (r x).Plays (Host.onHeap heap) (Carries P key) Q (h, choices) s

variable {R : Program.Config UInt8 SysCalls (Except Exit α × Session) (Host × (Nat → Choice)) → Prop}

theorem Plays.bind_playsTo {r : Member β} {f : β → Member α} {t : List (Turn Message)}
    (hr : Plays P key heap r x h s fun result x' h' => match result with
      | .ok a => PlaysTo P key heap (f a) x' h' t R
      | .error e => t = [] ∧ ∀ choices, R (.ret (.error e, x'), (h', choices))) :
    PlaysTo P key heap (r >>= f) x h (s ++ t) R := by
  intro choices
  apply Program.Plays.bind
  apply (hr choices).mono
  rintro c ⟨result, x', h', choices', rfl, hq⟩
  refine ⟨_, _, rfl, ?_⟩
  cases result with
  | ok a => exact hq choices'
  | error e => exact ⟨hq.1, hq.2 choices'⟩

theorem playsTo_pure {a : α} (hR : ∀ choices, R (.ret (.ok a, x), (h, choices))) :
    PlaysTo P key heap (pure a) x h [] R := fun choices => ⟨rfl, hR choices⟩

theorem playsTo_throw {e : Exit} (hR : ∀ choices, R (.ret (.error e, x), (h, choices))) :
    PlaysTo P key heap (Routine.throw e : Member α) x h [] R := fun choices => ⟨rfl, hR choices⟩

/-- What waits in front of a function makes it wait. -/
theorem PlaysTo.bind_waits {r : Member β} {f : β → Member α} {n : Nat}
    (hr : PlaysTo P key heap r x h s (Program.Waits n)) :
    PlaysTo P key heap (r >>= f) x h s (Program.Waits n) := fun choices => (hr choices).bind_waits

theorem PlaysTo.returning_waits {r : Member Int} {n : Nat}
    (hr : PlaysTo P key heap r x h s (Program.Waits n)) :
    PlaysTo P key heap (Member.returning r) x h s (Program.Waits n) := fun choices => (hr choices).bind_waits

/-- A function that has ended says no more. -/
theorem Plays.ends_once {r : Member α} {t : List (Turn Message)}
    (hr : Plays P key heap r x h s fun _ _ _ => True) (hr' : PlaysTo P key heap r x h (s ++ t) R)
    (hcarried : ∀ message, .hear message ∈ s → ∃ w, Carries P key message w) : t = [] := by
  apply Program.Plays.ends_once _ (hr' fun _ => .calm) hcarried
  apply (hr fun _ => .calm).mono
  rintro c ⟨result, x', h', choices', rfl, -⟩
  exact ⟨_, _, rfl⟩

/-- A function that starts with a receive waits for what does not come. -/
theorem playsTo_waiting {r : Member α} {n : Nat} {k : Option Buffer → Program Sys (Except Exit α × Session)}
    (hwait : r x = .call (.recv n) k) (hR : ∀ choices, R (r x, (h, choices))) :
    PlaysTo P key heap r x h [] R := by
  intro choices
  have hR := hR choices
  rw [hwait] at hR ⊢
  exact Or.inl ⟨rfl, hR⟩

/-! ## Calls -/

theorem plays_file {c : FileCall} {Q : Except Exit c.Ans → Session → Host → Prop}
    (hq : Q (.ok (c.answer false h.fs).1) x { h with fs := (c.answer false h.fs).2 }) :
    Plays P key heap (file c) x h [] Q :=
  fun choices => ⟨rfl, _, x, _, fun n => choices (n + 1), rfl, hq⟩

theorem plays_stat {path : Buffer} {Q : Except Exit (Option FileType) → Session → Host → Prop}
    (hq : Q (.ok (h.fs.fileType path)) x h) : Plays P key heap (file (.stat path)) x h [] Q :=
  plays_file hq

theorem plays_fileSize {path : Buffer} {Q : Except Exit (Option Nat) → Session → Host → Prop}
    (hq : Q (.ok ((FileCall.fileSize path).answer false h.fs).1) x h) :
    Plays P key heap (file (.fileSize path)) x h [] Q :=
  plays_file hq

theorem plays_list {path : Buffer} {Q : Except Exit (Option (List Name)) → Session → Host → Prop}
    (hq : Q (.ok (h.fs.list path)) x h) : Plays P key heap (file (.list path)) x h [] Q :=
  plays_file hq

theorem plays_note {e : Note} {Q : Except Exit Unit → Session → Host → Prop}
    (hq : Q (.ok ()) x (h.noted e)) : Plays P key heap (note e) x h [] Q :=
  fun choices => ⟨rfl, _, x, _, fun n => choices (n + 1), rfl, hq⟩

theorem plays_print {r : Report} {Q : Except Exit Unit → Session → Host → Prop}
    (hq : Q (.ok ()) x { h with printed := h.printed ++ [r] }) :
    Plays P key heap (print r) x h [] Q :=
  fun choices => ⟨rfl, _, x, _, fun n => choices (n + 1), rfl, hq⟩

theorem plays_getline {Q : Except Exit (Option Buffer × Bool) → Session → Host → Prop}
    (hq : Q (.ok h.console.getline.1) x { h with console := h.console.getline.2 }) :
    Plays P key heap getline x h [] Q :=
  fun choices => ⟨rfl, _, x, _, fun n => choices (n + 1), rfl, hq⟩

theorem plays_clearAndIgnore {Q : Except Exit Unit → Session → Host → Prop}
    (hq : Q (.ok ()) x { h with console := h.console.clearAndIgnore }) :
    Plays P key heap clearAndIgnore x h [] Q :=
  fun choices => ⟨rfl, _, x, _, fun n => choices (n + 1), rfl, hq⟩

theorem plays_random {n : Nat} {Q : Except Exit (Option Buffer) → Session → Host → Prop}
    (hq : ∀ b : Buffer, b.length = n → Q (.ok (some b)) x h) :
    Plays P key heap (random n) x h [] Q :=
  fun choices => ⟨rfl, _, x, _, fun n => choices (n + 1), rfl, hq _ (length_fit _ _)⟩

theorem plays_garbage {u : Unset} {Q : Except Exit Nat → Session → Host → Prop}
    (hq : ∀ n, Q (.ok n) x h) : Plays P key heap (garbage u) x h [] Q :=
  fun choices => ⟨rfl, _, x, _, fun n => choices (n + 1), rfl, hq _⟩

theorem plays_overrun {Q : Except Exit Buffer → Session → Host → Prop} (hq : Q (.ok (heap h)) x h) :
    Plays P key heap overrun x h [] Q :=
  fun choices => ⟨rfl, _, x, _, choices, rfl, hq⟩

theorem plays_sendData {message : Message} {w : Buffer} {Q : Except Exit Bool → Session → Host → Prop}
    (hw : Carries P key message w) (hq : Q (.ok true) x h) :
    Plays P key heap (sendData w) x h [.say message] Q := by
  intro choices
  obtain ⟨iv, hiv, hframe⟩ := hw
  exact Or.inr ⟨message, [], rfl, ⟨iv, hiv, hframe⟩, Wrapper.frame_ne_nil hiv hframe, rfl, _, x, h,
    choices, rfl, hq⟩

theorem plays_sendNothing {Q : Except Exit Bool → Session → Host → Prop} (hq : Q (.ok true) x h) :
    Plays P key heap (sendData []) x h [] Q :=
  fun choices => Or.inl ⟨rfl, rfl, _, x, h, choices, rfl, hq⟩

theorem plays_receiveData {message : Message} {n : Nat}
    {Q : Except Exit (Option Buffer) → Session → Host → Prop}
    (hn : n = Wrapper.overhead + message.2.length)
    (hq : ∀ w, Carries P key message w → Q (.ok (some w)) x h) :
    Plays P key heap (receiveData n) x h [.hear message] Q := by
  intro choices
  refine Or.inr ⟨message, [], rfl, fun w hw => ?_⟩
  obtain ⟨iv, hiv, hframe⟩ := hw
  refine ⟨by rw [Wrapper.length_frame hiv hframe, hn], ?_⟩
  exact ⟨rfl, _, x, h, choices, rfl, hq w ⟨iv, hiv, hframe⟩⟩

/-! ## Packets -/

/-- A counter that can be incremented. -/
def Counting (c : Int) : Prop := 0 ≤ c ∧ c < intMax

instance (c : Int) : Decidable (Counting c) := inferInstanceAs (Decidable (_ ∧ _))

theorem Counting.increment {c : Int} (hc : Counting c) : incrementCounter c = c + 1 ∧ c + 1 ≠ -1 := by
  unfold Counting at hc
  refine ⟨?_, by omega⟩
  unfold incrementCounter Max.counterMaxValue
  rw [if_neg (by omega)]

/-- What is left of a packet that was sealed: its frame. -/
theorem exists_frame (henc : Encrypts P key) {iv : Buffer} (hiv : iv.length = Wrapper.ivLength)
    {payload : Buffer} (hp : Sealable payload) (counter : Int) :
    ∃ w, Wrapper.frame P key iv counter payload = some w := by
  obtain ⟨hne, hlimit⟩ := hp
  have hint : ¬intMax - 1 < payload.length := by
    unfold Crypto.lengthLimit intMax at *
    omega
  rw [← Option.isSome_iff_exists, Wrapper.frame, Option.isSome_map, Wrapper.encryptAesCcm, if_neg hint]
  exact (henc.isSome_iff hiv (Wrapper.length_createAAD _ hiv) hne).2 hlimit

/-- A payload that is too long has no frame. -/
theorem frame_eq_none (henc : Encrypts P key) {iv : Buffer} (hiv : iv.length = Wrapper.ivLength)
    {payload : Buffer} (hlong : Crypto.lengthLimit ≤ payload.length) (counter : Int) :
    Wrapper.frame P key iv counter payload = none := by
  have hne : payload ≠ [] := List.ne_nil_of_length_pos (Nat.lt_of_lt_of_le (by decide) hlong)
  rw [Wrapper.frame, Option.map_eq_none_iff, Wrapper.encryptAesCcm]
  split_ifs
  · rfl
  · rw [← Option.not_isSome_iff_eq_none, henc.isSome_iff hiv (Wrapper.length_createAAD _ hiv) hne]
    exact Nat.not_lt.2 hlong

theorem exists_carried (henc : Encrypts P key) {payload : Buffer} (hp : Sealable payload) (counter : Int) :
    ∃ w, Carries P key (counter, payload) w := by
  have hiv : (List.replicate Wrapper.ivLength 0 : Buffer).length = Wrapper.ivLength :=
    List.length_replicate
  obtain ⟨w, hw⟩ := exists_frame henc hiv hp counter
  exact ⟨w, _, hiv, hw⟩

theorem incrementCounter_max : incrementCounter intMax = -1 := by decide

/-- At its end the counter makes the function return -1. -/
theorem plays_advanceSend_or_end (hc : 0 ≤ x.sCounter ∧ x.sCounter ≤ intMax)
    {Q : Except Exit Unit → Session → Host → Prop}
    (hq : Counting x.sCounter → ∀ h', h.Same h' →
      Q (.ok ()) { x with sCounter := x.sCounter + 1 } h')
    (hend : x.sCounter = intMax → ∀ x' h', h.Same h' → Q (.error (.returned (-1))) x' h') :
    Plays P key heap advanceSend x h [] Q := by
  apply Plays.bind_quiet (plays_get _)
  apply Plays.bind_quiet (plays_modify _)
  apply Plays.bind_quiet (plays_note _)
  dsimp only
  by_cases hmax : x.sCounter = intMax
  · rw [if_pos (by rw [hmax, incrementCounter_max])]
    exact plays_throw (hend hmax _ _ (Host.same_noted ..))
  · have hcount : Counting x.sCounter := ⟨hc.1, by omega⟩
    rw [hcount.increment.1, if_neg hcount.increment.2]
    exact plays_pure (hq hcount _ (Host.same_noted ..))

theorem plays_sendFrame_or_end {message : Message} {w : Buffer}
    (hc : 0 ≤ x.sCounter ∧ x.sCounter ≤ intMax) (hw : Carries P key message w)
    {Q : Except Exit Unit → Session → Host → Prop}
    (hq : Counting x.sCounter → ∀ h', h.Same h' →
      Q (.ok ()) { x with sCounter := x.sCounter + 1 } h')
    (hend : x.sCounter = intMax → ∀ x' h', h.Same h' → Q (.error (.returned (-1))) x' h') :
    Plays P key heap (sendFrame w) x h [.say message] Q := by
  apply Plays.bind (s := [.say message]) (t := []) (plays_sendData hw _)
  exact Plays.bind_quiet (plays_pure (plays_advanceSend_or_end hc hq hend))

/-- Serializing a packet builds a frame of it. -/
theorem plays_serialize (henc : Encrypts P key) {payload : Buffer} (hp : Sealable payload)
    (counter : Int) {Q : Except Exit Buffer → Session → Host → Prop}
    (hq : ∀ w h', Carries P key (counter, payload) w → h.Same h' → Q (.ok w) x h') :
    Plays P key heap (Wrapper.serialize P key counter payload) x h [] Q := by
  apply Plays.bind_quiet (plays_random _)
  intro iv hiv
  obtain ⟨w, hw⟩ := exists_frame henc hiv hp counter
  dsimp only
  rw [hw]
  exact Plays.bind_quiet (plays_note (plays_pure (hq w _ ⟨iv, hiv, hw⟩ (Host.same_noted ..))))

theorem plays_sendPacket_or_end (henc : Encrypts P key) (hkey : x.sessionKey = key)
    (hc : 0 ≤ x.sCounter ∧ x.sCounter ≤ intMax) {payload : Buffer} (hp : Sealable payload)
    {Q : Except Exit Unit → Session → Host → Prop}
    (hq : Counting x.sCounter → ∀ h', h.Same h' →
      Q (.ok ()) { x with sCounter := x.sCounter + 1 } h')
    (hend : x.sCounter = intMax → ∀ x' h', h.Same h' → Q (.error (.returned (-1))) x' h') :
    Plays P key heap (sendPacket P payload) x h [.say (x.sCounter, payload)] Q := by
  apply Plays.bind_quiet (plays_get _)
  dsimp only
  rw [hkey]
  apply Plays.bind_quiet (plays_serialize henc hp x.sCounter _)
  intro w h' hw hsame
  exact plays_sendFrame_or_end hc hw (fun hcount h'' hsame' => hq hcount h'' (hsame.trans hsame'))
    fun hmax x'' h'' hsame' => hend hmax x'' h'' (hsame.trans hsame')

theorem plays_sendPacket (henc : Encrypts P key) (hkey : x.sessionKey = key)
    (hc : Counting x.sCounter) {payload : Buffer} (hp : Sealable payload)
    {Q : Except Exit Unit → Session → Host → Prop}
    (hq : ∀ h', h.Same h' → Q (.ok ()) { x with sCounter := x.sCounter + 1 } h') :
    Plays P key heap (sendPacket P payload) x h [.say (x.sCounter, payload)] Q :=
  plays_sendPacket_or_end henc hkey ⟨hc.1, Int.le_of_lt hc.2⟩ hp (fun _ => hq)
    fun hmax => absurd hmax (Int.ne_of_lt hc.2)

/-- What is too long to be sealed is not sent, but counted. -/
theorem plays_sendPacket_too_long (henc : Encrypts P key) (hkey : x.sessionKey = key)
    (hc : 0 ≤ x.sCounter ∧ x.sCounter ≤ intMax) {payload : Buffer}
    (hp : Crypto.lengthLimit ≤ payload.length) {Q : Except Exit Unit → Session → Host → Prop}
    (hq : ∀ result x' h', h.Same h' → Q result x' h') :
    Plays P key heap (sendPacket P payload) x h [] Q := by
  have hserialize : Plays P key heap (Wrapper.serialize P x.sessionKey x.sCounter payload) x h []
      fun result x' h' => result = .ok [] ∧ x' = x ∧ h' = h := by
    apply Plays.bind_quiet (plays_random _)
    intro iv hiv
    have hnone : Wrapper.frame P x.sessionKey iv x.sCounter payload = none := by
      rw [hkey]
      exact frame_eq_none henc hiv hp _
    dsimp only
    rw [hnone]
    exact plays_pure ⟨rfl, rfl, rfl⟩
  apply Plays.bind_quiet (plays_get _)
  apply Plays.bind_quiet (hserialize.mono _)
  rintro result x' h' ⟨rfl, rfl, rfl⟩
  apply Plays.bind_quiet (plays_sendNothing _)
  apply Plays.bind_quiet (plays_pure _)
  exact plays_advanceSend_or_end hc (fun _ h'' hsame => hq _ _ h'' hsame)
    fun _ x'' h'' hsame => hq _ x'' h'' hsame

theorem plays_receiveFrame (hkey : x.sessionKey = key) {message : Message}
    (hc : 0 ≤ message.1 ∧ message.1 ≤ intMax) {n : Nat} (hn : message.2.length = n)
    (hlt : n < 4294967296) {Q : Except Exit (Option (Int × Buffer × Buffer)) → Session → Host → Prop}
    (hq : ∀ w, Q (.ok (some (message.1, message.2, w))) x h) :
    Plays P key heap (receiveFrame P n) x h [.hear message] Q := by
  have hsize : Wrapper.getSize n = Wrapper.overhead + n := Wrapper.getSize_of_lt (by omega)
  have hfit : tooLarge (Wrapper.overhead + n) = false := by
    unfold tooLarge Wrapper.overhead Wrapper.ivLength Wrapper.tagLength
    exact decide_eq_false (by omega)
  unfold receiveFrame
  simp only [hsize, hfit, Bool.false_eq_true, if_false]
  apply Plays.bind (s := [.hear message]) (t := []) (plays_receiveData (by rw [hn]) _)
  rintro w ⟨iv, hiv, hframe⟩
  have hlen := Wrapper.length_frame hiv hframe
  apply Plays.bind_quiet (plays_get _)
  have hopen : Wrapper.deserialize P x.sessionKey w = pure (some (message.1, message.2)) := by
    rw [hkey, Wrapper.deserialize, if_neg (by rw [hlen]; unfold Wrapper.overhead; omega),
      if_neg (by rw [hlen]; omega), Wrapper.openFrame_frame hiv hframe, Option.map_some,
      Wrapper.counterOf_frame hiv hc.1 hc.2 hframe]
  dsimp only
  rw [hopen]
  exact Plays.bind_quiet (plays_pure (plays_pure (hq w)))

theorem plays_checkCounter {payload w : Buffer} {Q : Except Exit Unit → Session → Host → Prop}
    (hq : ∀ h', h.Same h' → Q (.ok ()) x h') :
    Plays P key heap (checkCounter x.rCounter payload w) x h [] Q := by
  apply Plays.bind_quiet (plays_get _)
  dsimp only
  rw [if_neg (by simp)]
  exact plays_note (hq _ (Host.same_noted ..))

/-- At its end the counter makes the function return -1. -/
theorem plays_advanceReceive_or_end (hc : 0 ≤ x.rCounter ∧ x.rCounter ≤ intMax)
    {Q : Except Exit Unit → Session → Host → Prop}
    (hq : Counting x.rCounter → ∀ h', h.Same h' →
      Q (.ok ()) { x with rCounter := x.rCounter + 1 } h')
    (hend : x.rCounter = intMax → ∀ x' h', h.Same h' → Q (.error (.returned (-1))) x' h') :
    Plays P key heap advanceReceive x h [] Q := by
  apply Plays.bind_quiet (plays_get _)
  apply Plays.bind_quiet (plays_modify _)
  apply Plays.bind_quiet (plays_note _)
  dsimp only
  by_cases hmax : x.rCounter = intMax
  · rw [if_pos (by rw [hmax, incrementCounter_max])]
    exact plays_throw (hend hmax _ _ (Host.same_noted ..))
  · have hcount : Counting x.rCounter := ⟨hc.1, by omega⟩
    rw [hcount.increment.1, if_neg hcount.increment.2]
    exact plays_pure (hq hcount _ (Host.same_noted ..))

theorem plays_expectPacket_or_end (hkey : x.sessionKey = key)
    (hc : 0 ≤ x.rCounter ∧ x.rCounter ≤ intMax) {payload : Buffer} {n : Nat} {result : Int}
    (hn : payload.length = n) (hlt : n < 4294967296)
    {Q : Except Exit Buffer → Session → Host → Prop}
    (hq : Counting x.rCounter → ∀ h', h.Same h' →
      Q (.ok payload) { x with rCounter := x.rCounter + 1 } h')
    (hend : x.rCounter = intMax → ∀ x' h', h.Same h' → Q (.error (.returned (-1))) x' h') :
    Plays P key heap (expectPacket P n result) x h [.hear (x.rCounter, payload)] Q := by
  apply Plays.bind (s := [.hear (x.rCounter, payload)]) (t := []) _
  apply Plays.bind (s := [.hear (x.rCounter, payload)]) (t := [])
    (plays_receiveFrame hkey hc hn hlt _)
  intro w
  apply Plays.bind_quiet (plays_checkCounter _)
  intro h₁ hsame
  apply Plays.bind_quiet (plays_advanceReceive_or_end hc _ _)
  · exact fun hcount h₂ hsame' => plays_pure (plays_pure (hq hcount h₂ (hsame.trans hsame')))
  · exact fun hmax x₂ h₂ hsame' => ⟨rfl, rfl, hend hmax x₂ h₂ (hsame.trans hsame')⟩

theorem plays_expectPacket (hkey : x.sessionKey = key) (hc : Counting x.rCounter) {payload : Buffer}
    {n : Nat} {result : Int} (hn : payload.length = n) (hlt : n < 4294967296)
    {Q : Except Exit Buffer → Session → Host → Prop}
    (hq : ∀ h', h.Same h' → Q (.ok payload) { x with rCounter := x.rCounter + 1 } h') :
    Plays P key heap (expectPacket P n result) x h [.hear (x.rCounter, payload)] Q :=
  plays_expectPacket_or_end hkey ⟨hc.1, Int.le_of_lt hc.2⟩ hn hlt (fun _ => hq)
    fun hmax => absurd hmax (Int.ne_of_lt hc.2)

theorem plays_receivePacket (hkey : x.sessionKey = key) (hc : Counting x.rCounter) {payload : Buffer}
    {n : Nat} (hn : payload.length = n) (hlt : n < 4294967296)
    {Q : Except Exit (Option Buffer) → Session → Host → Prop}
    (hq : ∀ h', h.Same h' → Q (.ok (some payload)) { x with rCounter := x.rCounter + 1 } h') :
    Plays P key heap (receivePacket P n) x h [.hear (x.rCounter, payload)] Q := by
  apply Plays.bind (s := [.hear (x.rCounter, payload)]) (t := [])
    (plays_receiveFrame hkey ⟨hc.1, Int.le_of_lt hc.2⟩ hn hlt _)
  intro w
  apply Plays.bind_quiet (plays_checkCounter _)
  intro h₁ hsame
  apply Plays.bind_quiet (plays_advanceReceive_or_end ⟨hc.1, Int.le_of_lt hc.2⟩ _ _)
  · exact fun _ h₂ hsame' => plays_pure (hq h₂ (hsame.trans hsame'))
  · exact fun hmax => absurd hmax (Int.ne_of_lt hc.2)

/-! ## Two functions over a channel -/

/-- Two functions with mirrored scripts, on one channel. -/
theorem Stops.leadsTo {γ δ : Type} {r : Member γ} {r' : Member δ} {x y : Session} {h g : Host}
    {heap heap' : Host → Buffer} {K K' : Host → Prop} (hr : Stops P key heap r x h s K)
    (hr' : Stops P key heap' r' y g (s.map .mirror) K') (choices choices' : Nat → Choice) :
    Link.LeadsTo (Host.onHeap heap) (Host.onHeap heap') (fun c => K c.2.1) (fun c => K' c.2.1)
      ⟨(r x, (h, choices)), (r' y, (g, choices')), [], []⟩ :=
  Link.leadsTo_of_plays (hr choices) (hr' choices')

theorem PlaysTo.leadsTo {γ δ : Type} {r : Member γ} {r' : Member δ} {x y : Session} {h g : Host}
    {heap heap' : Host → Buffer}
    {R : Program.Config UInt8 SysCalls (Except Exit γ × Session) (Host × (Nat → Choice)) → Prop}
    {R' : Program.Config UInt8 SysCalls (Except Exit δ × Session) (Host × (Nat → Choice)) → Prop}
    (hr : PlaysTo P key heap r x h s R) (hr' : PlaysTo P key heap' r' y g (s.map .mirror) R')
    (choices choices' : Nat → Choice) :
    Link.LeadsTo (Host.onHeap heap) (Host.onHeap heap') R R'
      ⟨(r x, (h, choices)), (r' y, (g, choices')), [], []⟩ :=
  Link.leadsTo_of_plays (hr choices) (hr' choices')

/-- A function that says more than the other one, which has ended, wants to hear. -/
theorem PlaysTo.not_leadsTo {γ δ : Type} {r : Member γ} {r' : Member δ} {x y : Session} {h g : Host}
    {heap heap' : Host → Buffer} {message : Message} {t : List (Turn Message)}
    {R Q : Program.Config UInt8 SysCalls (Except Exit γ × Session) (Host × (Nat → Choice)) → Prop}
    {R' Q' : Program.Config UInt8 SysCalls (Except Exit δ × Session) (Host × (Nat → Choice)) → Prop}
    (hr : PlaysTo P key heap r x h s R) (hended : ∀ c, R c → Ended c)
    (hr' : PlaysTo P key heap' r' y g (s.map .mirror ++ .say message :: t) R')
    (choices choices' : Nat → Choice) :
    ¬Link.LeadsTo (Host.onHeap heap) (Host.onHeap heap') Q Q'
      ⟨(r x, (h, choices)), (r' y, (g, choices')), [], []⟩ :=
  Link.not_leadsTo_of_more ((hr choices).mono hended) (hr' choices')

/-- A function that says something else than what the other one waits for after a request. -/
theorem PlaysTo.not_leadsTo_of_misfit {γ δ : Type} {r : Member γ} {r' : Member δ} {x y : Session}
    {h g : Host} {heap heap' : Host → Buffer} {request message : Message} {t : List (Turn Message)} {n : Nat}
    {Q : Program.Config UInt8 SysCalls (Except Exit γ × Session) (Host × (Nat → Choice)) → Prop}
    {R' Q' : Program.Config UInt8 SysCalls (Except Exit δ × Session) (Host × (Nat → Choice)) → Prop}
    (hr : PlaysTo P key heap r x h (s ++ [.say request]) (Program.Waits n))
    (hr' : PlaysTo P key heap' r' y g (s.map .mirror ++ .say message :: t) R')
    (hlen : ∀ w, Carries P key message w → w.length ≠ n) (choices choices' : Nat → Choice) :
    ¬Link.LeadsTo (Host.onHeap heap) (Host.onHeap heap') Q Q'
      ⟨(r x, (h, choices)), (r' y, (g, choices')), [], []⟩ :=
  Link.not_leadsTo_of_misfit (hr choices) (hr' choices') hlen

-- from here on the rules are all there is to know
attribute [irreducible] Plays Stops PlaysTo

end Member

end CloudStorage
