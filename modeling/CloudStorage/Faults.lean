import CloudStorage.AesCcm
import CloudStorage.Counters
import CloudStorage.Transfers
import CloudStorage.Login

set_option autoImplicit false

/-! # Faults of a session

`Worker::start` runs in a thread of the server process, so a session must end by returning from it:
`exit` and an exception that leaves the thread end every other session too. The code does not keep to
this. `Tame` is the condition on the calls under which it does, and the triples of this module carry
it through the login, the handlers and the command loop. -/

namespace CloudStorage

open Interaction Interaction.Routine

namespace Host

/-- The number of frames sent since the login. -/
def sends (h : Host) : Nat := h.counted.length - h.accepted.length

/-- The request that was accepted last, while nothing has been built or sent since. -/
def unanswered (h : Host) : Option Buffer :=
  match h.notes.reverse with
  | .counted _ _ :: .accepted _ payload _ :: _ => some payload
  | _ => none

end Host

/-- The command codes that `Worker::start` handles. -/
def knownCommand (code : UInt8) : Bool :=
  code = RequestCodes.uploadReq || code = RequestCodes.downloadReq || code = RequestCodes.listReq ||
    code = RequestCodes.renameReq || code = RequestCodes.deleteReq || code = RequestCodes.logoutReq

/-- What a received block must be. Before the login has derived a key: once the username is answered,
    the client's key arrives. After that: a frame of the length of a request that opens under the next
    counter holds a known command, and a shorter frame that opens carries the next counter. -/
def TameBlock (P : Platform) (h : Host) (n : Nat) (r : Option Buffer) : Prop :=
  match h.derivedKey with
  | none => h.wire ≠ [] → r ≠ none
  | some key => ∀ w payload, r = some w → Wrapper.openFrame P key w = some payload →
      (n = Wrapper.getSize Max.initialRequestLength →
        Wrapper.counterOf P w = h.accepted.length → h.accepted.length < intMax →
        knownCommand (commandCode payload)) ∧
      (n ≤ Wrapper.getSize (ChunkM2.getSize Max.maxFileChunk) →
        Wrapper.counterOf P w = h.accepted.length ∧ h.accepted.length < intMax)

/-- A call, with its answer, that does not lead into a fault. -/
def TameCall (P : Platform) (h : Host) : (o : Sys.Op) → Sys.Ans o → Prop
  -- the counter of sent frames is not at its end
  | .send _, sent => sent = true → h.sends < intMax
  | .recv n, r => TameBlock P h n r
  -- outside a `try` block, a file can be looked up
  | .sys (.file (.stat _)), found => found = none → ∀ request, h.unanswered = some request →
      commandCode request = RequestCodes.downloadReq
  | .sys (.file (.read _ n)), (data : Buffer) => data.length = n
  | .sys (.file (.write _ _)), (done : Bool) => done = true
  | .sys (.file (.list _)), (names : Option (List Name)) => ∀ l, names = some l →
      wordOfSize (File.joinNames l).length < intMax
  | .sys (.note (.announced length)), _ => length ≤ Login.maxEphemeralPublicKeySize
  -- the file object of a refused download has no chunks
  | .sys (.note (.refused size)), _ => numFileChunks size = 0 ∧ lastChunkSize size = 0
  | _, _ => True

instance decidableTameBlock (P : Platform) (h : Host) (n : Nat) (r : Option Buffer) :
    Decidable (TameBlock P h n r) :=
  match hkey : h.derivedKey with
  | none => decidable_of_iff (h.wire ≠ [] → r ≠ none) (by rw [TameBlock, hkey])
  | some key => decidable_of_iff (∀ w ∈ r, ∀ payload ∈ Wrapper.openFrame P key w,
      (n = Wrapper.getSize Max.initialRequestLength →
        Wrapper.counterOf P w = h.accepted.length → h.accepted.length < intMax →
        knownCommand (commandCode payload)) ∧
      (n ≤ Wrapper.getSize (ChunkM2.getSize Max.maxFileChunk) →
        Wrapper.counterOf P w = h.accepted.length ∧ h.accepted.length < intMax)) (by
    rw [TameBlock, hkey]
    exact ⟨fun hall w payload hw hopen => hall w hw payload hopen,
      fun hall w hw payload hopen => hall w payload hw hopen⟩)

instance decidableTameCall (P : Platform) (h : Host) :
    ∀ (o : Sys.Op) (a : Sys.Ans o), Decidable (TameCall P h o a)
  | .send _, (sent : Bool) => inferInstanceAs (Decidable (sent = true → h.sends < intMax))
  | .recv n, r => decidableTameBlock P h n r
  | .sys (.file (.stat _)), (found : Option FileType) => inferInstanceAs (Decidable (found = none →
      ∀ request ∈ h.unanswered, commandCode request = RequestCodes.downloadReq))
  | .sys (.file (.read _ n)), (data : Buffer) => inferInstanceAs (Decidable (data.length = n))
  | .sys (.file (.write _ _)), (done : Bool) => inferInstanceAs (Decidable (done = true))
  | .sys (.file (.list _)), (names : Option (List Name)) =>
    inferInstanceAs (Decidable (∀ l ∈ names, wordOfSize (File.joinNames l).length < intMax))
  | .sys (.note (.announced length)), _ =>
    inferInstanceAs (Decidable (length ≤ Login.maxEphemeralPublicKeySize))
  | .sys (.note (.refused size)), _ =>
    inferInstanceAs (Decidable (numFileChunks size = 0 ∧ lastChunkSize size = 0))
  | .sys (.random _), _ | .sys (.crypto _), _ | .sys .getline, _ | .sys .clearAndIgnore, _
  | .sys (.garbage _), _ | .sys .overrun, _ | .sys (.print _), _ | .sys (.note (.sealed ..)), _
  | .sys (.note (.accepted ..)), _ | .sys (.note (.counted ..)), _ | .sys (.note (.derived _)), _
  | .sys (.file (.fileSize _)), _ | .sys (.file (.openRead _)), _ | .sys (.file (.openWrite _)), _
  | .sys (.file (.rename ..)), _ | .sys (.file (.remove _)), _
  | .sys (.file (.createDirectory _)), _ => .isTrue trivial

/-- The environments in which a session ends without harm. -/
def Tame (P : Platform) : Transition Sys Host := fun h o a h' => Host.anyEnv h o a h' ∧ TameCall P h o a

/-- The `result` of a command that was not recognised is not looked at. -/
def NoUnsetResult : Transition Sys Host := fun _ o _ _ => o ≠ .sys (.garbage .result)

theorem noUnsetResult_send {h h' : Host} {data : Buffer} {sent : Bool} :
    NoUnsetResult h (.send data) sent h' := fun heq => by cases heq

theorem noUnsetResult_recv {h h' : Host} {n : Nat} {r : Option Buffer} :
    NoUnsetResult h (.recv n) r h' := fun heq => by cases heq

theorem noUnsetResult_file {h h' : Host} {c : FileCall} {a : c.Ans} :
    NoUnsetResult h (.sys (.file c)) a h' := fun heq => by cases heq

theorem noUnsetResult_note {h h' : Host} {e : Note} {u : Unit} :
    NoUnsetResult h (.sys (.note e)) u h' := fun heq => by cases heq

/-- The triples of this module. -/
abbrev Safe (P : Platform) {α : Type} (Pre : Session → Host → Prop) (r : Member α)
    (Post : α → Session → Host → Prop) (E : Exit → Session → Host → Prop) : Prop :=
  Triple (Tame P) NoUnsetResult Pre r Post E

/-- The object and the log of a session agree, and at least `k` frames were accepted. -/
structure Running (k : Nat) (x : Session) (h : Host) : Prop where
  key : h.derivedKey = some x.sessionKey
  received : x.rCounter = h.accepted.length
  sent : x.sCounter = h.sends
  counted : h.accepted.length ≤ h.counted.length
  le : h.accepted.length ≤ intMax
  atLeast : k ≤ h.accepted.length

/-- A handler returned 0 early. -/
def Handled (k : Nat) (e : Exit) (x : Session) (h : Host) : Prop := e = .returned 0 ∧ Running k x h

/-- No exit is taken. -/
def NoExit (_ : Exit) (_ : Session) (_ : Host) : Prop := False

variable {P : Platform} {k : Nat} {x : Session} {h h' : Host}

/-! ## Calls that keep the log -/

theorem Host.derivedKey_noted_of_ne (e : Note) (he : ∀ key, e ≠ .derived key) :
    (h.noted e).derivedKey = h.derivedKey := by
  unfold derivedKey noted
  rw [List.filterMap_append]
  cases e with
  | derived key => exact absurd rfl (he key)
  | _ => simp

/-- Such calls leave the key as it is. -/
theorem Host.answer_derivedKey {c : Choice} {o : Sys.Op} (ho : Uncounted o) :
    (h.answer c o).2.derivedKey = h.derivedKey := by
  match o, ho with
  | .recv n, _ => rfl
  | .sys (.note (.sealed _ _ _)), _ | .sys (.note (.announced _)), _
  | .sys (.note (.refused _)), _ => exact derivedKey_noted_of_ne _ (by simp)
  | .sys (.random _), _ | .sys (.file _), _ | .sys (.crypto _), _ | .sys .getline, _
  | .sys .clearAndIgnore, _ | .sys (.garbage .fileSize), _ | .sys .overrun, _ | .sys (.print _), _ => rfl

theorem Running.congr (run : Running k x h) (hk : h'.derivedKey = h.derivedKey)
    (ha : h'.accepted = h.accepted) (hc : h'.counted = h.counted) : Running k x h' where
  key := hk.trans run.key
  received := by rw [ha, run.received]
  sent := by rw [Host.sends, ha, hc, run.sent, Host.sends]
  counted := by rw [ha, hc]; exact run.counted
  le := by rw [ha]; exact run.le
  atLeast := by rw [ha]; exact run.atLeast

theorem Running.uncounted {o : Sys.Op} {a : Sys.Ans o} (run : Running k x h) (ho : Uncounted o)
    (hstep : Host.anyEnv h o a h') : Running k x h' := by
  obtain ⟨c, hc⟩ := hstep
  obtain ⟨-, ha, hcount⟩ := Host.answer_uncounted (c := c) (h := h) ho
  have hkey := Host.answer_derivedKey (h := h) (c := c) ho
  rw [hc] at ha hcount hkey
  exact run.congr hkey ha hcount

theorem Uncounted.ne_result : ∀ o, Uncounted o → o ≠ .sys (.garbage .result)
  | _, h, rfl => h

/-- A function of harmless calls keeps the log, where it takes no exit. -/
theorem safe_of_only {α : Type} {r : Member α} (hr : Only Uncounted (fun _ => False) r) :
    Safe P (Running k) r (fun _ => Running k) NoExit := by
  refine (hr.triple fun x s o a s' ho run hstep => ?_).conseq (fun _ _ => id) (fun _ _ _ => id)
    fun _ _ _ he => he.1
  exact ⟨Uncounted.ne_result o ho, run.uncounted ho hstep.1⟩

theorem safe_sys (o : SysCall) (ho : Uncounted (.sys o)) :
    Safe P (Running k) (Member.sys o) (fun _ => Running k) NoExit :=
  safe_of_only (.call ho)

/-! ## Sending and receiving -/

theorem sends_put_counted {w : Buffer} {c n : Int} (hle : h.accepted.length ≤ h.counted.length) :
    ((h.put w).noted (.counted c n)).sends = h.sends + 1 := by
  have hput : (h.put w).accepted = h.accepted ∧ (h.put w).counted = h.counted := by
    unfold Host.put
    split <;> exact ⟨rfl, rfl⟩
  unfold Host.sends
  rw [Host.accepted_noted_counted, Host.counted_noted_counted, hput.1, hput.2,
    List.length_append, List.length_singleton]
  omega

/-- Counting a frame that was sent. -/
theorem Running.countSend {c n : Int} (run : Running k x h) (w : Buffer) :
    Running k { x with sCounter := x.sCounter + 1 } ((h.put w).noted (.counted c n)) := by
  have hsends := sends_put_counted (w := w) (c := c) (n := n) run.counted
  have hput : (h.put w).derivedKey = h.derivedKey ∧ (h.put w).accepted = h.accepted ∧
      (h.put w).counted = h.counted := by
    unfold Host.put
    split <;> exact ⟨rfl, rfl, rfl⟩
  obtain ⟨hk, ha, hc⟩ := hput
  refine ⟨?_, ?_, ?_, ?_, ?_, ?_⟩
  · rw [Host.derivedKey_noted_of_ne _ (by simp), hk, run.key]
  · rw [Host.accepted_noted_counted, ha, run.received]
  · rw [hsends, run.sent]
    rfl
  · rw [Host.accepted_noted_counted, Host.counted_noted_counted, ha, hc, List.length_append]
    exact Nat.le_add_right_of_le run.counted
  · rw [Host.accepted_noted_counted, ha]
    exact run.le
  · rw [Host.accepted_noted_counted, ha]
    exact run.atLeast

theorem incrementCounter_of_lt {c : Int} (h : c < intMax) :
    incrementCounter c = c + 1 := by
  unfold incrementCounter Max.counterMaxValue
  rw [if_neg (by omega)]

/-- Sending a frame: while the counter is not at its end, the only early end is a failed send. -/
theorem tame_sendFrame {w : Buffer} {Q : Unit → Session → Host → Prop}
    {E : Exit → Session → Host → Prop} (hs : x.sCounter = h.sends)
    (hok : Q () { x with sCounter := x.sCounter + 1 }
      ((h.put w).noted (.counted x.sCounter (x.sCounter + 1)))) (hfail : E (.returned 0) x h) :
    (Member.sendFrame w).Sat (Tame P) NoUnsetResult Q E x h := by
  simp only [Member.sendFrame, Member.advanceSend, sat_bind, Member.sat_sendData, sat_require,
    sat_get, sat_modify, Member.sat_note]
  rintro sent h₁ ⟨hstep, htame⟩
  rcases Host.anyEnv_send hstep with ⟨rfl, rfl⟩ | ⟨rfl, rfl⟩
  · exact ⟨noUnsetResult_send, by simp, fun _ => hfail⟩
  · have hlt : h.sends < intMax := htame rfl
    have hinc : incrementCounter x.sCounter = x.sCounter + 1 := incrementCounter_of_lt (by omega)
    refine ⟨noUnsetResult_send, fun _ u h₂ hnote => ?_, by simp⟩
    rw [Host.anyEnv_note hnote.1, hinc, if_neg (by omega)]
    exact ⟨noUnsetResult_note, hok⟩

theorem safe_sendFrame (w : Buffer) :
    Safe P (Running k) (Member.sendFrame w) (fun _ => Running k) (Handled k) :=
  fun _ _ run => tame_sendFrame run.sent (run.countSend w) ⟨rfl, run⟩

/-- A function that takes no exit, in a place where exits are allowed. -/
theorem Safe.exits {α : Type} {Pre : Session → Host → Prop} {r : Member α}
    {Post : α → Session → Host → Prop} {E : Exit → Session → Host → Prop}
    (hr : Safe P Pre r Post NoExit) : Safe P Pre r Post E :=
  hr.conseq (fun _ _ => id) (fun _ _ _ => id) fun _ _ _ he => he.elim

theorem safe_sendPacket (payload : Buffer) :
    Safe P (Running k) (Member.sendPacket P payload) (fun _ => Running k) (Handled k) :=
  .bind (.get fun _ _ run => run) fun _ => 
    .bind (safe_of_only (Wrapper.only_serialize _ _ _ _)).exits safe_sendFrame

/-- A frame that was received comes with what the environment promises of it. -/
theorem safe_receiveFrame {n : Nat} (hn : n < 4294967296) :
    Safe P (Running k) (Member.receiveFrame P n) (fun r x h => Running k x h ∧
      ∀ c payload w, r = some (c, payload, w) → c = Wrapper.counterOf P w ∧
        Wrapper.openFrame P x.sessionKey w = some payload ∧
        TameBlock P h (Wrapper.getSize n) (some w)) NoExit := by
  intro x h run
  have hsize : Wrapper.getSize n = Wrapper.overhead + n := Wrapper.getSize_of_lt (by omega)
  have hfit : tooLarge (Wrapper.getSize n) = false := by
    rw [hsize]
    unfold tooLarge Wrapper.overhead Wrapper.ivLength Wrapper.tagLength
    exact decide_eq_false (by omega)
  simp only [Member.receiveFrame, hfit, Bool.false_eq_true, if_false, sat_bind,
    Member.sat_receiveData]
  rintro r h₁ ⟨hrecv, htame⟩
  obtain ⟨rfl, hlen⟩ := Host.anyEnv_recv hrecv
  refine ⟨noUnsetResult_recv, ?_⟩
  cases r with
  | none => exact ⟨run, by simp⟩
  | some w =>
      have hw : w.length = Wrapper.overhead + n := (hlen w rfl).trans hsize
      simp only [sat_bind, sat_get, Wrapper.deserialize]
      rw [if_neg (by rw [hw]; unfold Wrapper.overhead; omega), if_neg (by omega), sat_pure, sat_pure]
      refine ⟨run, fun c payload w' hr => ?_⟩
      simp only [Option.map_map, Option.map_eq_some_iff, Function.comp_def, Prod.mk.injEq] at hr
      obtain ⟨_, hopen, rfl, rfl, rfl⟩ := hr
      exact ⟨rfl, hopen, htame⟩

/-- Accepting and counting a frame. -/
theorem Running.countReceive {c n : Int} {p w : Buffer} (run : Running k x h)
    (hlt : h.accepted.length < intMax) :
    Running (k + 1) { x with rCounter := x.rCounter + 1 }
      ((h.noted (.accepted c p w)).noted (.counted (h.accepted.length : Int) n)) where
  key := by
    rw [Host.derivedKey_noted_of_ne _ (by simp), Host.derivedKey_noted_of_ne _ (by simp), run.key]
  received := by
    simp only [Host.accepted_noted_counted, Host.accepted_noted_accepted, List.length_append,
      List.length_singleton, run.received]
    push_cast
    rfl
  sent := by
    have := run.counted
    have hsent := run.sent
    simp only [Host.sends, Host.accepted_noted_counted, Host.accepted_noted_accepted,
      Host.counted_noted_counted, Host.counted_noted_accepted, List.length_append,
      List.length_singleton] at hsent ⊢
    omega
  counted := by
    have := run.counted
    simp only [Host.accepted_noted_counted, Host.accepted_noted_accepted,
      Host.counted_noted_counted, Host.counted_noted_accepted, List.length_append,
      List.length_singleton]
    omega
  le := by
    simp only [Host.accepted_noted_counted, Host.accepted_noted_accepted, List.length_append,
      List.length_singleton]
    omega
  atLeast := by
    have := run.atLeast
    simp only [Host.accepted_noted_counted, Host.accepted_noted_accepted, List.length_append,
      List.length_singleton]
    omega

/-- Checking and counting a frame: it ends with -1 where the counter is not the next one, or where it
    was the last. -/
theorem tame_count {c : Int} {p w : Buffer} {Q : Unit → Session → Host → Prop}
    {E : Exit → Session → Host → Prop} (run : Running k x h)
    (hleft : ∀ x h', ¬(c = h.accepted.length ∧ h.accepted.length < intMax) →
      E (.returned (-1)) x h')
    (hok : c = h.accepted.length → h.accepted.length < intMax →
      Q () { x with rCounter := x.rCounter + 1 }
        ((h.noted (.accepted c p w)).noted (.counted h.accepted.length (x.rCounter + 1)))) :
    (Member.checkCounter c p w >>= fun _ => Member.advanceReceive).Sat (Tame P) NoUnsetResult
      Q E x h := by
  have hr := run.received
  have hle := run.le
  simp only [Member.checkCounter, Member.advanceReceive, sat_bind, sat_get]
  split_ifs with hne
  · exact hleft _ _ fun hc => hne (hc.1.trans hr.symm)
  · have hc : c = h.accepted.length := (not_not.1 hne).trans hr
    simp only [sat_modify, Member.sat_note]
    rintro u h₁ ⟨hnote, -⟩
    rw [Host.anyEnv_note hnote]
    refine ⟨noUnsetResult_note, ?_⟩
    rintro u' h₂ ⟨hnote', -⟩
    rw [Host.anyEnv_note hnote']
    refine ⟨noUnsetResult_note, ?_⟩
    split_ifs with hend
    · refine hleft _ _ fun hlt => ?_
      rw [incrementCounter_of_lt (by omega)] at hend
      omega
    · have hmax : h.accepted.length ≠ intMax := fun hmax =>
        hend (by rw [hr, hmax]; simp [incrementCounter, Max.counterMaxValue])
      have hq := hok hc (by omega)
      rw [incrementCounter_of_ne hend, hr]
      rwa [hr] at hq

/-- A frame of data: it is received and counted, or not received. -/
theorem safe_receivePacket {n : Nat} (hn : n ≤ ChunkM2.getSize Max.maxFileChunk) :
    Safe P (Running k) (Member.receivePacket P n) (fun _ => Running k) NoExit := by
  have hchunk : ChunkM2.getSize Max.maxFileChunk = 16 := by decide
  have hsize : ∀ m ≤ 16, Wrapper.getSize m = 30 + m := fun m hm => by
    rw [Wrapper.getSize_of_lt (by omega)]
    rfl
  refine .bind (safe_receiveFrame (by omega)) fun r => ?_
  match r with
  | none => exact .pure _ fun _ _ hr => hr.1
  | some (c, p, w) =>
      rintro x h ⟨run, hr⟩
      obtain ⟨rfl, hopen, htame⟩ := hr c p w rfl
      unfold TameBlock at htame
      rw [run.key] at htame
      obtain ⟨hc, hlt⟩ := (htame w p rfl hopen).2
        (by rw [hchunk, hsize n (by omega), hsize 16 (by omega)]; omega)
      have hcount := tame_count (P := P) (c := Wrapper.counterOf P w) (p := p) (w := w)
        (Q := fun _ x h => Running k x h) (E := NoExit) run (fun _ _ hnot => hnot ⟨hc, hlt⟩)
        fun _ _ => ?_
      · rw [sat_bind] at hcount
        dsimp only
        rw [sat_bind]
        refine hcount.imp (fun _ _ _ hadv => ?_) fun _ _ _ => id
        rw [sat_bind]
        exact hadv.imp (fun _ _ _ hrun => hrun) fun _ _ _ => id
      · have hnext := run.countReceive (c := Wrapper.counterOf P w) (n := x.rCounter + 1) (p := p)
          (w := w) hlt
        exact { hnext with atLeast := Nat.le_of_succ_le hnext.atLeast }

theorem safe_expectChunk {n : Nat} (hn : n ≤ ChunkM2.getSize Max.maxFileChunk) :
    Safe P (Running k) (Member.expectPacket P n 0) (fun _ => Running k) (Handled k) := by
  refine .bind (safe_receivePacket hn).exits fun r => ?_
  match r with
  | none => exact .throw _ fun _ _ run => ⟨rfl, run⟩
  | some payload => exact .pure _ fun _ _ run => run

/-! ## Files -/

/-- A request was accepted, and nothing was done about it yet. -/
structure Asked (k : Nat) (request : Buffer) (x : Session) (h : Host) : Prop where
  running : Running k x h
  unanswered : h.unanswered = some request

/-- Looking up a file for a request other than a download. -/
theorem Asked.stat {request path : Buffer} {a : Option FileType} (ask : Asked k request x h)
    (hcode : commandCode request ≠ RequestCodes.downloadReq)
    (hstep : Tame P h (.sys (.file (.stat path))) a h') : h' = h ∧ a ≠ none := by
  obtain ⟨hstep, htame⟩ := hstep
  obtain ⟨fault, -, rfl⟩ := Host.anyEnv_file hstep
  exact ⟨rfl, fun ha => hcode (htame ha _ ask.unanswered)⟩

theorem safe_exists {request : Buffer} (path : Buffer)
    (hcode : commandCode request ≠ RequestCodes.downloadReq) :
    Safe P (Asked k request) (File.exists path) (fun _ => Asked k request) NoExit := by
  intro x h ask
  simp only [File.exists, sat_bind]
  intro a h₁ hstep
  obtain ⟨rfl, ha⟩ := ask.stat hcode hstep
  refine ⟨nofun, ?_⟩
  match a with
  | none => exact absurd rfl ha
  | some .notFound => exact ask
  | some .regular | some .directory =>
      intro a' h₂ hstep'
      obtain ⟨rfl, ha'⟩ := ask.stat hcode hstep'
      refine ⟨nofun, ?_⟩
      match a' with
      | none => exact absurd rfl ha'
      | some .notFound | some .regular | some .directory => exact ask

theorem safe_isDirectory {request : Buffer} (path : Buffer)
    (hcode : commandCode request ≠ RequestCodes.downloadReq) :
    Safe P (Asked k request) (Member.isDirectory path) (fun _ => Asked k request) NoExit := by
  intro x h ask
  simp only [Member.isDirectory, sat_bind]
  intro a h₁ hstep
  obtain ⟨rfl, ha⟩ := ask.stat hcode hstep
  refine ⟨noUnsetResult_file, ?_⟩
  rcases a with _ | found
  · exact absurd rfl ha
  · cases found with
    | notFound => exact ask
    | _ =>
        intro a' h₂ hstep'
        obtain ⟨rfl, ha'⟩ := ask.stat hcode hstep'
        refine ⟨noUnsetResult_file, ?_⟩
        rcases a' with _ | _ | _ | _
        · exact absurd rfl ha'
        · exact ask
        · exact ask
        · exact ask

theorem safe_readName {request : Buffer} (field : Buffer) :
    Safe P (Asked k request) (Member.readName field) (fun _ => Asked k request) NoExit := by
  refine ((Member.only_readName (X := fun _ => False) field).triple fun x s o a s' ho ask hstep => ?_).conseq
    (fun _ _ => id) (fun _ _ _ => id) fun _ _ _ he => he.1
  subst ho
  obtain ⟨⟨c, hc⟩, -⟩ := hstep
  obtain rfl : s = s' := congrArg Prod.snd hc
  exact ⟨nofun, ask⟩

theorem safe_file (call : FileCall) :
    Safe P (Running k) (Member.file call) (fun _ => Running k) NoExit :=
  safe_sys (.file call) trivial

/-- A `try` block around a lookup. -/
theorem safe_attempt_exists (path : Buffer) :
    Safe P (Running k) (Member.attempt (File.exists path)) (fun _ => Running k) NoExit :=
  safe_of_only ((Member.only_attempt (File.only_exists path)).mono
    (fun o ho => (OnFile.unlogged o ho).uncounted) fun _ => id)

/-- A file that was created without an error is open for writing. -/
theorem safe_create (f : File) (path : Buffer) :
    Safe P (Running k) (f.create path)
      (fun r x h => Running k x h ∧ (r.2 = none → ∃ handle, r.1.output = .opened handle)) NoExit := by
  refine .bind (safe_attempt_exists path) fun found => ?_
  match found with
  | .error _ | .ok true => exact .pure _ fun _ _ run => ⟨run, by simp⟩
  | .ok false =>
      dsimp only
      split
      · refine .bind (safe_file (.openWrite path)) fun handle => ?_
        match handle with
        | none => exact .pure _ fun _ _ run => ⟨run, by simp⟩
        | some handle => exact .pure _ fun _ _ run => ⟨run, fun _ => ⟨handle, rfl⟩⟩
      · exact .pure _ fun _ _ run => ⟨run, by simp⟩

/-- A file that was read without an error is open for reading. -/
theorem safe_read (f : File) (path : Buffer) :
    Safe P (Running k) (f.read path)
      (fun r x h => Running k x h ∧ (r.2 = none → ∃ handle, r.1.input = .opened handle)) NoExit := by
  refine .bind (safe_attempt_exists path) fun found => ?_
  match found with
  | .error _ | .ok false => exact .pure _ fun _ _ run => ⟨run, by simp⟩
  | .ok true =>
      refine .bind (safe_file (.fileSize path)) fun size => ?_
      match size with
      | none => exact .pure _ fun _ _ run => ⟨run, by simp⟩
      | some size =>
          dsimp only
          split
          · refine .bind (safe_file (.openRead path)) fun handle => ?_
            match handle with
            | none => exact .pure _ fun _ _ run => ⟨run, by simp⟩
            | some handle => exact .pure _ fun _ _ run => ⟨run, fun _ => ⟨handle, rfl⟩⟩
          · exact .pure _ fun _ _ run => ⟨run, by simp⟩

theorem safe_writeChunk {f : File} {handle : Nat} (hf : f.output = .opened handle) (chunk : Buffer) :
    Safe P (Running k) (f.writeChunk chunk) (fun _ => Running k) NoExit := by
  intro x h run
  simp only [File.writeChunk, hf, sat_bind, sat_require]
  rintro (done : Bool) h₁ ⟨hstep, htame⟩
  obtain rfl : done = true := htame
  exact ⟨noUnsetResult_file, fun _ => run.uncounted (o := .sys (.file (.write handle chunk))) trivial hstep,
    by simp⟩

theorem safe_readChunk {f : File} {handle : Nat} (hf : f.input = .opened handle) (n : Nat) :
    Safe P (Running k) (f.readChunk n) (fun b x h => Running k x h ∧ b.length = n) NoExit := by
  intro x h run
  simp only [File.readChunk, hf, sat_bind]
  rintro (buffer : Buffer) h₁ ⟨hstep, htame⟩
  have hlen : buffer.length = n := htame
  refine ⟨noUnsetResult_file, ?_⟩
  show Sat (Tame P) NoUnsetResult (fun b x h => Running k x h ∧ b.length = n) NoExit
    (if buffer.length = n then pure buffer
      else Routine.throw (.thrown (.runtimeError "Unable to read from file."))) x h₁
  rw [if_pos hlen]
  exact ⟨run.uncounted (o := .sys (.file (.read handle n))) trivial hstep, hlen⟩

/-! ## The transfer of a file -/

theorem safe_sendChunk {f : File} {handle : Nat} (hf : f.input = .opened handle)
    (m2 : Buffer → ChunkM2) (hm2 : ∀ b, (m2 b).fileChunk = b) {n : Nat} (hn : n < intMax) :
    Safe P (Running k) (Member.sendChunk P m2 f n) (fun _ => Running k) (Handled k) := by
  refine .bind (safe_readChunk hf n).exits fun chunk => ?_
  rintro x h ⟨run, hlen⟩
  have hserialize : (m2 chunk).serialize = some ((m2 chunk).commandCode :: chunk) := by
    rw [ChunkM2.serialize_of_lt (by rw [hm2, hlen]; exact hn), hm2]
  rw [hserialize]
  exact safe_sendPacket _ x h run

theorem safe_sendChunks {f : File} {handle : Nat} (hf : f.input = .opened handle)
    (m2 : Buffer → ChunkM2) (hm2 : ∀ b, (m2 b).fileChunk = b) (n : Nat) :
    Safe P (Running k) (Member.sendChunks P m2 f n) (fun _ => Running k) (Handled k) := by
  induction n with
  | zero => exact .pure _ fun _ _ run => run
  | succ n ih => exact .bind (safe_sendChunk hf m2 hm2 (by decide)) fun _ => ih

theorem safe_sendLastChunk {f : File} {handle : Nat} (hf : f.input = .opened handle)
    (m2 : Buffer → ChunkM2) (hm2 : ∀ b, (m2 b).fileChunk = b) {n : Nat} (hn : n < intMax) :
    Safe P (Running k) (Member.sendLastChunk P m2 f n) (fun _ => Running k) (Handled k) := by
  unfold Member.sendLastChunk
  split
  · exact safe_sendChunk hf m2 hm2 hn
  · exact .pure _ fun _ _ run => run

theorem safe_receiveChunks {write : Bool → Buffer → Member Unit}
    (hwrite : ∀ b chunk, Safe P (Running k) (write b chunk) (fun _ => Running k) NoExit) (n : Nat)
    (b : Bool) :
    Safe P (Running k) (Member.receiveChunks P write n b) (fun _ => Running k) NoExit := by
  induction n generalizing b with
  | zero => exact .pure _ fun _ _ run => run
  | succ n ih =>
      refine .bind (safe_receivePacket (Nat.le_refl _)) fun r => ?_
      match r with
      | none => exact ih true
      | some payload => exact .bind (hwrite b _) fun _ => ih b

theorem safe_receiveLastChunk {write : Bool → Buffer → Member Unit}
    (hwrite : ∀ b chunk, Safe P (Running k) (write b chunk) (fun _ => Running k) NoExit) {n : Nat}
    (hn : n ≤ Max.maxFileChunk) (b : Bool) :
    Safe P (Running k) (Member.receiveLastChunk P write b n) (fun _ => Running k) (Handled k) := by
  unfold Member.receiveLastChunk
  split
  · have hsize : ChunkM2.getSize n ≤ ChunkM2.getSize Max.maxFileChunk := by
      rw [ChunkM2.getSize_of_lt (Nat.lt_of_le_of_lt hn (by decide)),
        ChunkM2.getSize_of_lt (by decide)]
      omega
    exact .bind (safe_expectChunk hsize) fun payload => (hwrite b _).exits
  · exact .pure _ fun _ _ run => run

/-! ## The handlers -/

namespace Worker

theorem safe_receiveFile (path : Buffer) (size : Nat) :
    Safe P (Running k) (receiveFile P path size) (fun n x h => n ≠ -1 ∧ Running k x h) (Handled k) := by
  refine .bind (safe_create _ path).exits fun r => ?_
  obtain ⟨file, error⟩ := r
  rintro x h ⟨run, hopen⟩
  cases error with
  | some e => exact ⟨by decide, run⟩
  | none =>
      obtain ⟨handle, hf⟩ := hopen rfl
      have hlast : lastChunkSize size ≤ Max.maxFileChunk := by
        unfold lastChunkSize Max.maxFileChunk
        omega
      refine Triple.bind (K := Running k) (safe_receiveChunks (fun _ => safe_writeChunk hf) _ _).exits
        (fun e => .bind (safe_receiveLastChunk (fun _ => safe_writeChunk hf) hlast e)
        fun _ => .bind (safe_sendPacket _) fun _ => .pure _ fun _ _ run => ⟨by decide, run⟩) x h run

theorem safe_uploadFile {request : Buffer} (payload : Buffer)
    (hcode : commandCode request ≠ RequestCodes.downloadReq) :
    Safe P (Asked k request) (uploadFile P payload) (fun n x h => n ≠ -1 ∧ Running k x h)
      (Handled k) :=
  .bind (safe_readName _).exits fun _ => .bind (.get fun _ _ ask => ask) fun _ =>
    .bind (safe_exists _ hcode).exits fun _ =>
    .bind ((safe_sendPacket _).weaken fun _ _ ask => ask.running) fun _ => safe_receiveFile _ _

/-- A download goes on after its refusal only where there is nothing to send. -/
theorem safe_markRefused (fileError : Bool) (file : File) :
    Safe P (Running k) (markRefused fileError file) (fun _ x h => Running k x h ∧
      (fileError = true → numFileChunks file.fileSize = 0 ∧ lastChunkSize file.fileSize = 0)) NoExit := by
  intro x h run
  unfold markRefused
  split_ifs with he
  · rw [Member.sat_note]
    rintro u h₁ ⟨hstep, htame⟩
    exact ⟨nofun, run.uncounted (o := .sys (.note (.refused file.fileSize))) trivial hstep,
      fun _ => htame⟩
  · exact ⟨run, fun h => absurd h he⟩

theorem safe_sendFile {file : File}
    (hfile : (∃ handle, file.input = .opened handle) ∨
      numFileChunks file.fileSize = 0 ∧ lastChunkSize file.fileSize = 0) :
    Safe P (Running k) (sendFile P file) (fun n x h => n ≠ -1 ∧ Running k x h) (Handled k) := by
  have hend : Safe P (Running k) (pure 1 : Member Int) (fun n x h => n ≠ -1 ∧ Running k x h)
      (Handled k) := .pure _ fun _ _ run => ⟨by decide, run⟩
  rcases hfile with ⟨handle, hf⟩ | ⟨hchunks, hlast⟩
  · exact .bind (safe_sendChunks hf DownloadM2 (fun _ => rfl) _) fun _ =>
      .bind (safe_sendLastChunk hf DownloadM2 (fun _ => rfl) (lastChunkSize_lt _)) fun _ => hend
  · unfold sendFile
    rw [hchunks, hlast]
    exact .bind (.pure _ fun _ _ run => run) fun _ => .bind (.pure _ fun _ _ run => run) fun _ => hend

theorem safe_downloadFile (payload : Buffer) :
    Safe P (Running k) (downloadFile P payload) (fun n x h => n ≠ -1 ∧ Running k x h) (Handled k) := by
  have hname : Safe P (Running k) (Member.readName (NameM1.deserialize payload).fileName.bytes)
      (fun _ => Running k) NoExit :=
    safe_of_only ((Member.only_readName _).mono (fun _ h => h ▸ trivial) fun _ => id)
  refine .bind hname.exits fun name => .bind (.get fun _ _ run => run) fun s =>
    .bind (safe_sys (.garbage .fileSize) trivial).exits fun unset =>
    .bind (safe_read _ _).exits fun r => ?_
  obtain ⟨file, error⟩ := r
  rintro x h ⟨run, hopen⟩
  dsimp only
  generalize herror : (error.isSome || file.fileSize == 0) = fileError
  refine Triple.bind (safe_markRefused fileError file).exits (fun _ => ?_) x h run
  rintro x h ⟨run, hrefused⟩
  refine Triple.bind (safe_sendPacket _) (fun _ => safe_sendFile ?_) x h run
  cases fileError with
  | true => exact Or.inr (hrefused rfl)
  | false =>
      refine Or.inl (hopen ?_)
      cases error <;> simp_all

theorem safe_sendList {fileNames : Buffer} (hlen : wordOfSize fileNames.length < intMax) :
    Safe P (Running k) (sendList P fileNames) (fun n x h => n ≠ -1 ∧ Running k x h) (Handled k) := by
  unfold sendList
  rw [ListM3.serialize_of_lt (by rw [List.length_take]; omega)]
  exact .bind (safe_sendPacket _) fun _ => .pure _ fun _ _ run => ⟨by decide, run⟩

/-- The list of names is short enough to send. -/
theorem safe_getFileNames (path : Buffer) :
    Safe P (Running k) (File.getFileNames path)
      (fun names x h => Running k x h ∧ wordOfSize names.length < intMax) NoExit := by
  intro x h run
  simp only [File.getFileNames, sat_bind]
  rintro (names : Option (List Name)) h₁ ⟨hstep, htame⟩
  have run' := run.uncounted (o := .sys (.file (.list path))) trivial hstep
  refine ⟨noUnsetResult_file, ?_⟩
  cases names with
  | none => exact ⟨run', by simp [wordOfSize, intMax]⟩
  | some l => exact ⟨run', htame l rfl⟩

theorem safe_listFiles {request : Buffer}
    (hcode : commandCode request ≠ RequestCodes.downloadReq) :
    Safe P (Asked k request) (listFiles P) (fun n x h => n ≠ -1 ∧ Running k x h) (Handled k) := by
  refine .bind (.get fun _ _ ask => ask) fun s => .bind (safe_isDirectory _ hcode).exits fun isDir => ?_
  refine Triple.weaken (K := Running k) ?_ fun _ _ ask => ask.running
  split
  · refine .bind (safe_getFileNames _).exits fun names => ?_
    rintro x h ⟨run, hlen⟩
    exact Triple.bind (safe_sendPacket _) (fun _ => safe_sendList hlen) x h run
  · exact .bind (safe_sendPacket _) fun _ => .pure _ fun _ _ run => ⟨by decide, run⟩

theorem safe_renameCode {request : Buffer} (path newPath : Buffer)
    (hcode : commandCode request ≠ RequestCodes.downloadReq) :
    Safe P (Asked k request) (renameCode path newPath) (fun _ => Running k) NoExit := by
  refine .bind (safe_exists path hcode) fun found => ?_
  split
  · refine .bind (safe_exists newPath hcode) fun found => ?_
    refine Triple.weaken (K := Running k) ?_ fun _ _ ask => ask.running
    split
    · exact .pure _ fun _ _ run => run
    · refine .bind (safe_file (.rename path newPath)) fun done => ?_
      split <;> exact .pure _ fun _ _ run => run
  · exact .pure _ fun _ _ ask => ask.running

theorem safe_renameFile {request : Buffer} (payload : Buffer)
    (hcode : commandCode request ≠ RequestCodes.downloadReq) :
    Safe P (Asked k request) (renameFile P payload) (fun n x h => n ≠ -1 ∧ Running k x h)
      (Handled k) :=
  .bind (safe_readName _).exits fun _ => .bind (safe_readName _).exits fun _ =>
    .bind (.get fun _ _ ask => ask) fun _ => .bind (safe_renameCode _ _ hcode).exits fun _ =>
    .bind (safe_sendPacket _) fun _ => .pure _ fun _ _ run => ⟨by decide, run⟩

theorem safe_deleteCode {request : Buffer} (path : Buffer)
    (hcode : commandCode request ≠ RequestCodes.downloadReq) :
    Safe P (Asked k request) (deleteCode path) (fun _ => Running k) NoExit := by
  refine .bind (safe_exists path hcode) fun found => ?_
  refine Triple.weaken (K := Running k) ?_ fun _ _ ask => ask.running
  split
  · refine .bind (safe_file (.remove path)) fun done => ?_
    split <;> exact .pure _ fun _ _ run => run
  · exact .pure _ fun _ _ run => run

theorem safe_deleteFile {request : Buffer} (payload : Buffer)
    (hcode : commandCode request ≠ RequestCodes.downloadReq) :
    Safe P (Asked k request) (deleteFile P payload) (fun n x h => n ≠ -1 ∧ Running k x h)
      (Handled k) :=
  .bind (safe_readName _).exits fun _ => .bind (.get fun _ _ ask => ask) fun _ =>
    .bind (safe_deleteCode _ hcode).exits fun _ => .bind (safe_sendPacket _) fun _ =>
    .pure _ fun _ _ run => ⟨by decide, run⟩

/-- After a logout nothing is promised about the session, whose key is gone. -/
theorem safe_logout :
    Safe P (Running k) (logout P) (fun n _ _ => n ≠ -1) (fun e _ _ => e = .returned 0) := by
  refine .bind (.get fun _ _ run => run) fun _ => .bind (safe_of_only (Wrapper.only_serialize _ _ _ _)).exits
    fun w => ?_
  intro x h run
  simp only [sat_bind, sat_modify]
  exact tame_sendFrame run.sent (show (1 : Int) ≠ -1 by decide) rfl

/-- A call of a handler yields something other than -1. -/
theorem safe_returning {Pre : Session → Host → Prop} {r : Member Int}
    {R : Session → Host → Prop} (hr : Safe P Pre r (fun n x h => n ≠ -1 ∧ R x h)
      (fun e x h => e = .returned 0 ∧ R x h)) :
    Safe P Pre (Member.returning r) (fun n x h => n ≠ -1 ∧ R x h) NoExit := by
  refine .catchExit hr fun e => ?_
  rintro x h ⟨rfl, hR⟩
  exact ⟨by decide, hR⟩

theorem safe_command {request : Buffer} (hknown : knownCommand (commandCode request)) :
    Safe P (Asked k request) (command P (commandCode request) request)
      (fun n x h => n ≠ -1 ∧ (commandCode request ≠ RequestCodes.logoutReq → Running k x h)) NoExit := by
  have hweak : ∀ {n : Int} {x h}, n ≠ -1 ∧ Running k x h →
      n ≠ -1 ∧ (commandCode request ≠ RequestCodes.logoutReq → Running k x h) :=
    fun h => ⟨h.1, fun _ => h.2⟩
  have hhandler : ∀ {Pre : Session → Host → Prop} {r : Member Int},
      Safe P Pre r (fun n x h => n ≠ -1 ∧ Running k x h) (Handled k) →
      Safe P Pre (Member.returning r)
        (fun n x h => n ≠ -1 ∧ (commandCode request ≠ RequestCodes.logoutReq → Running k x h)) NoExit :=
    fun hr => (safe_returning hr).conseq (fun _ _ => id) (fun _ _ _ => hweak) fun _ _ _ => id
  unfold command
  split_ifs with h1 h2 h3 h4 h5 h6
  · exact hhandler (safe_uploadFile _ (by rw [h1]; decide))
  · exact hhandler ((safe_downloadFile _).weaken fun _ _ ask => ask.running)
  · exact hhandler (safe_listFiles (by rw [h3]; decide))
  · exact hhandler (safe_renameFile _ (by rw [h4]; decide))
  · exact hhandler (safe_deleteFile _ (by rw [h5]; decide))
  · have hlogout := safe_returning (R := fun _ _ => True) (safe_logout (P := P) (k := k) |>.conseq
      (fun _ _ => id) (fun _ _ _ h => ⟨h, trivial⟩) fun _ _ _ h => ⟨h, trivial⟩)
    exact hlogout.conseq (fun _ _ ask => ask.running) (fun _ _ _ h => ⟨h.1, fun hne => absurd h6 hne⟩)
      fun _ _ _ => id
  · simp [knownCommand, h1, h2, h3, h4, h5, h6] at hknown

/-! ## The command loop -/

/-- A request: a known command, or a return from the thread. -/
theorem safe_expectRequest :
    Safe P (Running k) (Member.expectPacket P Max.initialRequestLength 0)
      (fun request x h => knownCommand (commandCode request) ∧ Asked (k + 1) request x h)
      (fun e _ _ => ∃ n, e = .returned n) := by
  refine .bind (P := fun r x h => match r with
    | none => True
    | some request => knownCommand (commandCode request) ∧ Asked (k + 1) request x h) ?_ fun r => ?_
  · refine .bind (safe_receiveFrame (by decide)).exits fun r => ?_
    cases r with
    | none => exact .pure _ fun _ _ _ => trivial
    | some r =>
        obtain ⟨c, p, w⟩ := r
        rintro x h ⟨run, hr⟩
        obtain ⟨rfl, hopen, htame⟩ := hr c p w rfl
        unfold TameBlock at htame
        rw [run.key] at htame
        have hknown := (htame w p rfl hopen).1 rfl
        have hcount := tame_count (P := P) (c := Wrapper.counterOf P w) (p := p) (w := w)
          (Q := fun _ x h => knownCommand (commandCode p) ∧ Asked (k + 1) p x h)
          (E := fun e _ _ => ∃ n, e = .returned n) run (fun _ _ _ => ⟨_, rfl⟩) fun hc hlt =>
          ⟨hknown hc hlt, run.countReceive hlt, by simp [Host.unanswered, Host.noted]⟩
        rw [sat_bind] at hcount
        dsimp only
        rw [sat_bind]
        refine hcount.imp (fun _ _ _ hadv => ?_) fun _ _ _ => id
        rw [sat_bind]
        exact hadv.imp (fun _ _ _ hq => hq) fun _ _ _ => id
  · cases r with
    | none => exact .throw _ fun _ _ _ => ⟨_, rfl⟩
    | some request => exact .pure _ fun _ _ h => h

/-- The command loop, by induction on its bound: each round accepts a request, and no session accepts
    more than the counter counts. -/
theorem safe_commandLoop (n : Nat) (hn : intMax < k + n) :
    Safe P (Running k) (commandLoop P n) (fun _ _ _ => True) (fun e _ _ => ∃ n, e = .returned n) := by
  induction n generalizing k with
  | zero =>
      intro x h run
      have := run.le
      have := run.atLeast
      omega
  | succ n ih =>
      refine .bind safe_expectRequest fun request => ?_
      rintro x h ⟨hknown, ask⟩
      refine Triple.bind (safe_command hknown).exits (fun result => ?_) x h ask
      rintro x h ⟨hne, run⟩
      rw [if_neg hne]
      split_ifs with hlogout
      · trivial
      · exact ih (by omega) x h (run hlogout)

end Worker

/-! ## The login -/

/-- The login returned 0. -/
def Refused (e : Exit) (_ : Session) (_ : Host) : Prop := e = .returned 0

/-- A session before its key is derived. -/
structure Fresh (x : Session) (h : Host) : Prop where
  key : h.derivedKey = none
  accepted : h.accepted = []
  counted : h.counted = []
  sCounter : x.sCounter = 0
  rCounter : x.rCounter = 0

theorem Fresh.congr (hf : Fresh x h) (hk : h'.derivedKey = h.derivedKey)
    (ha : h'.accepted = h.accepted) (hc : h'.counted = h.counted) : Fresh x h' :=
  ⟨hk.trans hf.key, ha.trans hf.accepted, hc.trans hf.counted, hf.sCounter, hf.rCounter⟩

/-- What is known during a login: nothing but the log and whether something was sent. -/
structure Logged (K : Session → Host → Prop) : Prop where
  congr : ∀ {x h h'}, K x h → h'.wire = h.wire → h'.derivedKey = h.derivedKey →
    h'.accepted = h.accepted → h'.counted = h.counted → K x h'

theorem logged_sent : Logged fun x h => Fresh x h ∧ h.wire ≠ [] :=
  ⟨fun hf hw hk ha hc => ⟨hf.1.congr hk ha hc, hw ▸ hf.2⟩⟩

section

variable {K : Session → Host → Prop}

theorem Logged.sys (hK : Logged K) (o : SysCall) (ho : Uncounted (.sys o)) :
    Safe P K (Member.sys o) (fun _ => K) NoExit := by
  rintro x h hk a h' ⟨⟨c, hc⟩, -⟩
  obtain ⟨hw, ha, hcount⟩ := Host.answer_uncounted (c := c) (h := h) ho
  have hkey := Host.answer_derivedKey (h := h) (c := c) ho
  rw [hc] at hw ha hcount hkey
  exact ⟨Uncounted.ne_result _ ho, hK.congr hk hw hkey ha hcount⟩

theorem safe_crypto (c : CryptoCall) : Safe P K (Member.crypto c) (fun _ => K) NoExit := by
  rintro x h hk a h' ⟨⟨choice, hc⟩, -⟩
  obtain rfl : h = h' := congrArg Prod.snd hc
  exact ⟨nofun, hk⟩

theorem safe_receiveData (n : Nat) :
    Safe P K (Member.receiveData n) (fun _ => K) NoExit := by
  rintro x h hk r h' ⟨hstep, -⟩
  obtain ⟨rfl, -⟩ := Host.anyEnv_recv hstep
  exact ⟨nofun, hk⟩

theorem safe_expect {α : Type} {r : Member (Option α)} {Pre : Session → Host → Prop}
    (hr : Safe P Pre r (fun _ => K) NoExit) :
    Safe P Pre (Member.expect r 0) (fun _ => K) Refused := by
  refine .bind hr.exits fun a => ?_
  match a with
  | none => exact .throw _ fun _ _ _ => rfl
  | some a => exact .pure _ fun _ _ hk => hk

theorem safe_require (b : Bool) :
    Safe P K (Routine.require b (.returned 0)) (fun _ => K) Refused :=
  (Triple.require b _ fun _ _ _ => rfl).conseq (fun _ _ => id) (fun _ _ _ h => h.2) fun _ _ _ => id

/-- A block that was sent, or a return. -/
theorem safe_sent {K' : Session → Host → Prop} (data : Buffer)
    (hK : ∀ x h, K x h → K' x (h.put data)) :
    Safe P K (Member.sent (Member.sendData data)) (fun _ => K') Refused := by
  intro x h hk
  simp only [Member.sent, sat_bind, Member.sat_sendData, sat_require]
  rintro ok h₁ ⟨hstep, -⟩
  rcases Host.anyEnv_send hstep with ⟨rfl, rfl⟩ | ⟨rfl, rfl⟩
  · exact ⟨noUnsetResult_send, by simp, fun _ => rfl⟩
  · exact ⟨noUnsetResult_send, fun _ => hK x h hk, by simp⟩

end

theorem sizeImage_ne_nil (order : ByteOrder) (n : Nat) : sizeImage order n ≠ [] := by
  cases order <;> simp [sizeImage, little]

namespace Worker

theorem safe_receiveUsername :
    Safe P Fresh (receiveUsername P) (fun _ x h => Fresh x h ∧ h.wire ≠ []) Refused := by
  refine .bind (safe_expect (.bind (safe_receiveData _) fun _ => .pure _ fun _ _ h => h))
    fun length => .bind (safe_require _) fun _ =>
    .bind (safe_expect (safe_receiveData length)) fun name => ?_
  refine .bind (P := fun _ => Fresh) (fun x h hf => ⟨hf.key, hf.accepted, hf.counted, hf.sCounter,
    hf.rCounter⟩) fun _ => ?_
  refine .bind (safe_sent _ fun x h hf => ?_) fun _ => safe_require _
  rw [Host.put, if_neg (sizeImage_ne_nil _ _)]
  exact ⟨⟨hf.key, hf.accepted, hf.counted, hf.sCounter, hf.rCounter⟩, by simp⟩

/-- The client's key arrives, so the variable for it is written. -/
theorem safe_receiveClientKey :
    Safe P (fun x h => Fresh x h ∧ h.wire ≠ []) (receiveClientKey P) (fun _ => Fresh) Refused := by
  have hsome : ∀ n, Safe P (fun x h => Fresh x h ∧ h.wire ≠ []) (Member.receiveData n)
      (fun r x h => r ≠ none ∧ Fresh x h ∧ h.wire ≠ []) NoExit := by
    rintro n x h ⟨hf, hwire⟩ r h' ⟨hstep, htame⟩
    obtain ⟨rfl, -⟩ := Host.anyEnv_recv hstep
    have hblock : TameBlock P h' n r := htame
    unfold TameBlock at hblock
    rw [hf.key] at hblock
    exact ⟨nofun, hblock hwire, hf, hwire⟩
  have hkey : Safe P (fun x h => Fresh x h ∧ h.wire ≠ []) (Member.receiveEphemeralPublicKey P)
      (fun r x h => r ≠ none ∧ Fresh x h) NoExit := by
    refine .bind (P := fun r x h => r ≠ none ∧ Fresh x h ∧ h.wire ≠ []) (.bind (hsome _)
      fun r => .pure _ fun x h hr => ⟨by cases r <;> simp_all, hr.2⟩) fun r => ?_
    match r with
    | none => exact fun _ _ hr => absurd rfl hr.1
    | some length =>
        refine Triple.weaken (K := fun x h => Fresh x h ∧ h.wire ≠ []) ?_ fun _ _ hr => hr.2
        refine .bind (P := fun _ x h => length ≤ Login.maxEphemeralPublicKeySize ∧ Fresh x h ∧
          h.wire ≠ []) ?_ fun _ => ?_
        · rintro x h hf u h' ⟨hstep, htame⟩
          have := logged_sent.sys (P := P) (.note (.announced length)) trivial x h hf u h'
            ⟨hstep, htame⟩
          exact ⟨this.1, htame, this.2⟩
        · rintro x h ⟨hlen, hf⟩
          rw [if_neg (by omega)]
          refine Triple.bind (hsome length) (fun r => ?_) x h hf
          match r with
          | none => exact fun _ _ hr => absurd rfl hr.1
          | some serialized =>
              exact .bind ((safe_crypto (.deserializePublicKey serialized)).weaken fun _ _ hr => hr.2)
                fun key => .pure _ fun _ _ hf => ⟨by simp, hf.1⟩
  refine .bind hkey.exits fun r => ?_
  match r with
  | none => exact fun _ _ hr => absurd rfl hr.1
  | some (none, _) => exact .throw _ fun _ _ _ => rfl
  | some (some key, serialized) => exact .pure _ fun _ _ hr => hr.2

theorem safe_deriveKey (clientKey : Pkey) :
    Safe P Fresh (deriveKey clientKey) (fun _ => Running 0) Refused := by
  have hcrypto : ∀ c, Safe P Fresh (Member.crypto c) (fun _ => Fresh) NoExit :=
    safe_crypto
  refine .bind (safe_expect (hcrypto _)) fun serverKey => .bind (safe_expect (hcrypto _))
    fun sServerKey => .bind (hcrypto _).exits fun derived => .bind (safe_require _) fun _ =>
    .bind (safe_expect (hcrypto _)) fun digest => .bind ?_ fun _ => .pure _ fun _ _ run => run
  intro x h hf
  simp only [Member.generateSessionKey, sat_bind, sat_modify, Member.sat_note]
  rintro u h' ⟨hnote, -⟩
  rw [Host.anyEnv_note hnote]
  have ha : (h.noted (.derived (fit 16 digest))).accepted = h.accepted := by
    simp [Host.accepted, Host.noted]
  have hc : (h.noted (.derived (fit 16 digest))).counted = h.counted := by
    simp [Host.counted, Host.noted]
  refine ⟨nofun, ?_, ?_, ?_, ?_, ?_, Nat.zero_le _⟩
  · simp [Host.derivedKey, Host.noted]
  · rw [ha, hf.accepted, hf.rCounter]
    rfl
  · rw [Host.sends, ha, hc, hf.accepted, hf.counted, hf.sCounter]
    rfl
  · rw [ha, hf.accepted]
    exact Nat.zero_le _
  · rw [ha, hf.accepted]
    exact Nat.zero_le _

/-- The server's message leaves the log as it is. -/
theorem safe_sendM3 (sServerKey concatenatedKeys : Buffer) :
    Safe P (Running k) (sendM3 P sServerKey concatenatedKeys) (fun _ => Running k) Refused := by
  have hcrypto : ∀ c, Safe P (Running k) (Member.crypto c) (fun _ => Running k) NoExit :=
    safe_crypto
  have hput : ∀ data x h, Running k x h → Running k x (h.put data) := fun data x h run => by
    unfold Host.put
    split
    · exact run
    · exact run.congr rfl rfl rfl
  refine .bind (safe_expect (hcrypto _)) fun privateKey => .bind (safe_expect (hcrypto _))
    fun signature => .bind (.get fun _ _ run => run) fun s =>
    .bind (safe_expect (hcrypto (.encryptTextAES signature s.sessionKey))) fun r => ?_
  obtain ⟨cipherText, iv⟩ := r
  refine .bind (safe_expect (hcrypto _)) fun certificate =>
    .bind (P := fun _ => Running k) ?_ fun message => safe_sent message (hput message)
  exact .bind (safe_sys .overrun trivial).exits fun _ => .bind (safe_sys .overrun trivial).exits
    fun _ => .bind (safe_sys .overrun trivial).exits fun _ => .pure _ fun _ _ run => run

theorem safe_checkM4 (concatenatedKeys : Buffer) :
    Safe P (Running k) (checkM4 concatenatedKeys) (fun _ => Running k) Refused := by
  have hcrypto : ∀ c, Safe P (Running k) (Member.crypto c) (fun _ => Running k) NoExit :=
    safe_crypto
  exact .bind (safe_expect (safe_receiveData _)) fun message =>
    .bind (.get fun _ _ run => run) fun s => .bind (safe_expect (hcrypto _)) fun plaintext =>
    .bind (safe_expect (hcrypto _)) fun publicKey => .bind (hcrypto _).exits fun verified =>
    safe_require _

theorem safe_login :
    Safe P Fresh (login P) (fun n x h => n = 1 ∧ Running 0 x h) Refused := by
  refine .bind safe_receiveUsername fun _ => .bind safe_receiveClientKey fun r => ?_
  obtain ⟨clientKey, sClientKey⟩ := r
  exact .bind (safe_deriveKey clientKey) fun sServerKey => .bind (safe_sendM3 _ _) fun _ =>
    .bind (safe_checkM4 _) fun _ => .pure _ fun _ _ run => ⟨rfl, run⟩

/-- The whole session returns; the bound on the command loop is never reached. -/
theorem safe_start :
    Safe P Fresh (start P) (fun _ _ _ => True) (fun e _ _ => ∃ n, e = .returned n) := by
  refine .bind (P := fun n x h => n = 0 ∨ Running 0 x h) (.catchExit (E := Refused) (safe_login.conseq
    (fun _ _ => id) (fun _ _ _ h => Or.inr h.2) fun _ _ _ => id) fun e => ?_) fun loggedIn => ?_
  · rintro x h rfl
    exact Or.inl rfl
  · split_ifs with hzero
    · exact .pure _ fun _ _ _ => trivial
    · exact (safe_commandLoop (k := 0) (intMax + 2) (by omega)).weaken fun _ _ h => h.resolve_left hzero

end Worker

/-! ## Whole sessions -/

/-- A `Worker` that was just made. -/
def Session.new : Session := Session.start [] []

theorem fresh_new (fs : Fs) (console : Console) : Fresh .new (Host.start fs console) :=
  ⟨rfl, rfl, rfl, rfl, rfl⟩

/-- **Fault isolation.** In every run of `Worker::start` whose calls are all tame, whatever the client
    sends: if it ends, it returns; and it never looks at a `result` that was not set. -/
theorem session_returns (P : Platform) (fs : Fs) (console : Console)
    (c : Program Sys (Except Exit Int × Session) × Host)
    (hrun : Program.Reaches (Tame P) (Worker.start P .new, Host.start fs console) c) :
    (∀ result x, c.1 = .ret (result, x) → ∃ n, result = .ok n ∨ result = .error (.returned n)) ∧
      ∀ k, c.1 ≠ .call (.sys (.garbage .result)) k := by
  have hsat := Program.Sat.reaches (c := (_, _)) (Worker.safe_start.program (fresh_new fs console)) hrun
  obtain ⟨p, h⟩ := c
  refine ⟨fun result x hp => ?_, fun k hp => ?_⟩
  · obtain rfl : p = _ := hp
    match result with
    | .ok n => exact ⟨n, Or.inl rfl⟩
    | .error e =>
        obtain ⟨n, rfl⟩ := hsat
        exact ⟨n, Or.inr rfl⟩
  · obtain rfl : p = _ := hp
    exact (hsat (0 : Nat) h ⟨⟨.calm, rfl⟩, trivial⟩).1 rfl

set_option maxRecDepth 20000 in
/-- A user who uploads a file and sends its chunk under a wrong counter: the server exits. -/
theorem wrong_chunk_counter_exits :
    ¬∀ (P : Platform) (fs : Fs) (console : Console)
      (c : Program Sys (Except Exit Int × Session) × Host),
      Program.Reaches Host.anyEnv (Worker.start P .new, Host.start fs console) c →
      (∀ result x, c.1 = .ret (result, x) → ∃ n, result = .ok n ∨ result = .error (.returned n)) ∧
        ∀ k, c.1 ≠ .call (.sys (.garbage .result)) k := by
  intro hall
  let server := Host.start (Fs.ofFolders [ascii "/data", ascii "/data/user1"]) ⟨[], false, false⟩
  let request := (UploadM1.new (ascii "a") 1).serialize .little
  let login : List Choice := [.deliver (little 8 5), .deliver (ascii "user1"), .calm,
    .deliver (little 8 1), .calm, .deliver [0]] ++ List.replicate 18 .grant
  let upload : List Choice := .deliver (plainFrame 0 request) :: List.replicate 10 .calm ++
    [.deliver (plainFrame 7 [2, 97])]
  let c := Host.run (login ++ upload) (Worker.start (.plain .little) .new, server)
  have hexit : c.1.result.map (·.1) = some (.error .exited) := by decide
  obtain ⟨⟨result, x⟩, hresult, rfl⟩ := Option.map_eq_some_iff.1 hexit
  obtain ⟨n, hn⟩ := (hall (.plain .little) server.fs ⟨[], false, false⟩ c (Host.reaches_run _ _)).1 _ _
    (Program.eq_ret_of_result hresult)
  rcases hn with hn | hn <;> cases hn

/-- `user1` logs in, stores a file of a full chunk and five more bytes, and leaves. -/
def stayOfUser1 : List Choice :=
  [.deliver (little 8 5), .deliver (ascii "user1"), .grant, .deliver (little 8 1), .grant, .deliver [1]] ++
    List.replicate 14 .grant ++ [.deliver [0]] ++ List.replicate 3 .grant ++
    .deliver (sealedFrame 0 ((UploadM1.new (ascii "a") 20).serialize .little)) ::
      List.replicate 10 .grant ++
    .deliver (sealedFrame 1 (RequestCodes.uploadChunk :: ascii "twenty bytes of")) ::
      List.replicate 3 .grant ++
    .deliver (sealedFrame 2 (RequestCodes.uploadChunk :: ascii " text")) :: List.replicate 7 .grant ++
    .deliver (sealedFrame 3 LogoutM1.serialize) :: List.replicate 6 .grant

set_option maxRecDepth 20000 in
/-- The session returns 0 after four frames, and the file is stored. -/
theorem session_returns_stay :
    let c := Host.run stayOfUser1 (Worker.start (.aes .little) .new,
      Host.start (Fs.ofFolders [ascii "/data", ascii "/data/user1"]) ⟨[], false, false⟩)
    (∃ x, c.1.result = some (.ok 0, x) ∧
      ∃ n, (.ok 0 : Except Exit Int) = .ok n ∨ (.ok 0 : Except Exit Int) = .error (.returned n)) ∧
      c.2.accepted.length = 4 ∧
      c.2.fs.contents [ascii "data", ascii "user1", ascii "a"] = some (ascii "twenty bytes of text") := by
  intro c
  have htame : Host.Admits (TameCall (.aes .little)) stayOfUser1 (Worker.start (.aes .little) .new,
      Host.start (Fs.ofFolders [ascii "/data", ascii "/data/user1"]) ⟨[], false, false⟩) := by
    decide +kernel
  have hresult : c.1.result.map (·.1) = some (.ok 0) := by decide +kernel
  obtain ⟨⟨result, x⟩, hret, hok⟩ := Option.map_eq_some_iff.1 hresult
  obtain rfl : result = .ok 0 := hok
  refine ⟨⟨x, hret, ?_⟩, by decide +kernel, by decide +kernel⟩
  exact (session_returns (.aes .little) _ _ c (htame.reaches_run _)).1 _ _
    (Program.eq_ret_of_result hret)

end CloudStorage
