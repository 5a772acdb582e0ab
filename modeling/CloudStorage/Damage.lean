import CloudStorage.Admission
import CloudStorage.Conduct

set_option autoImplicit false

/-! # Damaged chunks

A chunk that does not authenticate sets `error_occured`, and the loop goes on with the next one; but
`r_counter` stays as it was, while the peer has counted the frame that it sent. From then on the end
is behind its peer: the next frame carries a counter that it does not expect. No transfer recovers
from a damaged chunk, whatever its size and wherever the chunk was. -/

namespace CloudStorage

open Interaction Interaction.Routine

open Wrapper (counterOf openFrame)

open Worker.Admission (Event AnyCall asks asked chunkFrame chunkFrames)

namespace Damage

/-- The transfer in which an end receives chunks. -/
def transfer (P : Platform) (payload : Buffer) : Endpoint → Member Int
  | .worker => Worker.uploadFile P payload
  | .client => Client.downloadFile P

/-- The lengths of the frames that the peer sends in it: the client is sent an acknowledgement
    first. -/
def frames (size : Nat) : Endpoint → List Nat
  | .worker => chunkFrames size
  | .client => Wrapper.getSize SizedAck.getSize :: chunkFrames size

/-- The end tells its failure: the worker builds an `UploadAck(0)`, the client prints a message. -/
def tellsFailure : Endpoint → Event → Bool
  | .worker, ⟨.sys (.note (.sealed _ payload _)), _⟩ => payload == (UploadAck 0).serialize
  | .client, ⟨.sys (.print r), _⟩ => r == .notDownloadedCorrectly
  | _, _ => false

/-- The length and the block of a receive. -/
def arrival : Event → Option (Nat × Option Buffer)
  | ⟨.recv n, block⟩ => some (n, block)
  | _ => none

/-- The receives of a run. -/
def arrivals (t : List Event) : List (Nat × Option Buffer) := t.filterMap arrival

/-- Of the frames that the peer sent, the one at position `j` arrived with its length and does not
    authenticate; the others arrived as they were sent, numbered on from `r_counter`. -/
structure OneDamaged (P : Platform) (x : Session) (j : Nat) (t : List Event) : Prop where
  damaged : ∃ n w, (arrivals t)[j]? = some (n, some w) ∧ w.length = n ∧ openFrame P x.sessionKey w = none
  others : ∀ (i n : Nat) (block : Option Buffer), (arrivals t)[i]? = some (n, block) → i ≠ j →
    ∃ w, block = some w ∧ openFrame P x.sessionKey w ≠ none ∧ counterOf P w = x.rCounter + i

/-- The transfer alone has failed: the end has consumed all of its frames, has told the failure,
    expects the number that its peer sends next, and goes on with the session. -/
structure Recovers (e : Endpoint) (size : Nat) (x x' : Session) (result : Except Exit Int)
    (t : List Event) : Prop where
  goesOn : ∃ n, result = .ok n ∧ n ≠ -1
  consumed : asked t = frames size e
  told : ∃ ev ∈ t, tellsFailure e ev = true
  inStep : x'.rCounter = x.rCounter + (frames size e).length

/-! ## Falling behind -/

/-- A receive whose block does not open. -/
def damaged (P : Platform) (key : Buffer) : Event → Bool
  | ⟨.recv _, block⟩ => (block : Option Buffer).any fun w => (openFrame P key w).isNone
  | _ => false

variable {P : Platform} {x x₀ : Session} {s s' : Host × List Event} {k : Nat}

/-- `r_counter` has moved by what was received, less what was damaged and less `k`. -/
structure Behind (P : Platform) (x₀ : Session) (k : Nat) (x : Session) (s : Host × List Event) :
    Prop where
  key : x.sessionKey = x₀.sessionKey
  counter : x.rCounter + s.2.countP (damaged P x₀.sessionKey) + k ≤ x₀.rCounter + (asked s.2).length

theorem asked_append (t : List Event) (ev : Event) :
    (asked (t ++ [ev])).length = (asked t).length + [ev].countP fun ev => (asks ev).isSome := by
  rw [asked, List.filterMap_append, List.length_append, ← asked]
  congr 1
  cases h : asks ev with
  | none => simp [h]
  | some n => simp [h]

theorem asks_of_damaged {key : Buffer} {ev : Event} (h : damaged P key ev = true) :
    (asks ev).isSome = true := by
  obtain ⟨o, a⟩ := ev
  cases o with
  | recv => rfl
  | send => cases h
  | sys => cases h

/-- No call brings `r_counter` ahead. -/
theorem Behind.step {o : Sys.Op} {a : Sys.Ans o} (h : Behind P x₀ k x s)
    (hstep : Program.Logged Host.anyEnv s o a s') : Behind P x₀ k x s' := by
  refine ⟨h.key, ?_⟩
  have hcounter := h.counter
  have hless : [(⟨o, a⟩ : Event)].countP (damaged P x₀.sessionKey) ≤
      [(⟨o, a⟩ : Event)].countP fun ev => (asks ev).isSome :=
    List.countP_mono_left fun ev _ => asks_of_damaged
  rw [hstep.2, asked_append, List.countP_append]
  omega

/-- A block that opens may be accepted. -/
theorem Behind.opened {n : Nat} {w : Buffer} (h : Behind P x₀ 0 x s)
    (hstep : Program.Logged Host.anyEnv s (.recv n) (some w : Option Buffer) s')
    (hopen : openFrame P x.sessionKey w ≠ none) : Behind P x₀ 1 x s' := by
  refine ⟨h.key, ?_⟩
  have hcounter := h.counter
  have hnot : damaged P x₀.sessionKey ⟨.recv n, (some w : Option Buffer)⟩ = false := by
    rw [h.key] at hopen
    show (openFrame P x₀.sessionKey w).isNone = false
    exact Option.isNone_eq_false_iff.2 (Option.isSome_iff_ne_none.2 hopen)
  have hask : (asks ⟨.recv n, (some w : Option Buffer)⟩).isSome = true := rfl
  rw [hstep.2, asked_append, List.countP_append, List.countP_singleton, List.countP_singleton,
    if_pos hask, if_neg (by simp [hnot])]
  omega

theorem quiet_behind : Quiet (Program.Logged Host.anyEnv) AnyCall (Behind P x₀ k) :=
  fun _ _ _ _ _ _ h hstep => ⟨trivial, h.step hstep⟩

/-- Every end of a function is covered where nothing is asked of it. -/
theorem left_of_behind {e : Exit} (h : Behind P x₀ 0 x s) : LeftOver (Behind P x₀ 0) e x s :=
  fun _ _ => Or.inr h

theorem behind_sendPacket (payload : Buffer) :
    Triple (Program.Logged Host.anyEnv) AnyCall (Behind P x₀ 0) (Member.sendPacket P payload)
      (fun _ => Behind P x₀ 0) (LeftOver (Behind P x₀ 0)) := by
  apply Triple.bind (Triple.get fun _ _ h => h)
  intro session
  apply Triple.bind (((Wrapper.only_serialize (X := fun _ => False) P _ _ _).triple
    fun _ _ _ _ _ _ h hstep => ⟨trivial, h.step hstep⟩).conseq (fun _ _ => id) (fun _ _ _ => id)
    fun _ _ _ h => h.1.elim)
  intro w x s h
  simp only [Member.sendFrame, Member.advanceSend, sat_bind, Member.sat_sendData, sat_require,
    sat_get, sat_modify, Member.sat_note]
  intro sent s₁ hsend
  have h₁ := h.step hsend
  refine ⟨trivial, fun _ u s₂ hnote => ⟨trivial, ?_⟩, fun _ => left_of_behind h₁⟩
  have h₂ := h₁.step hnote
  split
  · exact left_of_behind ⟨h₂.key, h₂.counter⟩
  · exact ⟨h₂.key, h₂.counter⟩

theorem behind_receiveFrame (n : Nat) :
    Triple (Program.Logged Host.anyEnv) AnyCall (Behind P x₀ 0) (Member.receiveFrame P n)
      (fun r => Behind P x₀ (if r.isSome then 1 else 0)) (LeftOver (Behind P x₀ 0)) := by
  intro x s h
  cases hlarge : tooLarge (Wrapper.getSize n) with
  | true =>
    simp only [Member.receiveFrame, hlarge, if_true]
    exact left_of_behind h
  | false =>
    simp only [Member.receiveFrame, hlarge, Bool.false_eq_true, if_false, sat_bind,
      Member.sat_receiveData]
    intro r s₁ hrecv
    refine ⟨trivial, ?_⟩
    cases r with
    | none => exact h.step hrecv
    | some w =>
        simp only [sat_bind, sat_get, Wrapper.deserialize]
        split
        · exact left_of_behind (h.step hrecv)
        · split
          · exact left_of_behind (h.step hrecv)
          · rw [sat_pure, sat_pure]
            cases hopen : openFrame P x.sessionKey w with
            | none => exact h.step hrecv
            | some payload => exact h.opened hrecv (by rw [hopen]; exact Option.some_ne_none _)

theorem behind_advanceReceive :
    Triple (Program.Logged Host.anyEnv) AnyCall (Behind P x₀ 1) Member.advanceReceive
      (fun _ => Behind P x₀ 0) (LeftOver (Behind P x₀ 0)) := by
  intro x s h
  simp only [Member.advanceReceive, Member.sat_note, sat_bind, sat_get, sat_modify]
  intro u s₁ hnote
  refine ⟨trivial, ?_⟩
  have h₁ := h.step hnote
  split
  · exact fun n hn => Or.inl (Exit.returned.inj hn).symm
  · rename_i hcounts
    refine ⟨h₁.key, ?_⟩
    have hcounter := h₁.counter
    show incrementCounter x.rCounter + _ + _ ≤ _
    rw [incrementCounter_of_ne hcounts]
    omega

/-- Every function of client and worker falls behind, or stays where it was. -/
def behind (P : Platform) (x₀ : Session) : Conduct P (Host × List Event) where
  rely := Program.Logged Host.anyEnv
  guar := AnyCall
  ready := Behind P x₀ 0
  opened _ := Behind P x₀ 1
  accepting := Behind P x₀ 1
  left := LeftOver (Behind P x₀ 0)
  left_ready _ _ _ := left_of_behind
  left_accepting _ _ _ := fun _ hn => by cases hn
  ready_quiet := quiet_behind
  accepting_quiet := quiet_behind
  garbage _ := fun _ _ h => (sat_call _ _).2 fun _ _ hstep => ⟨trivial, h.step hstep⟩
  sendPacket := behind_sendPacket
  receiveFrame n := (behind_receiveFrame n).conseq (fun _ _ => id)
    (fun r x s h => by cases r with
      | none => exact h
      | some f => exact h) fun _ _ _ => id
  checkCounter c p w := by
    intro x s h
    unfold Member.checkCounter
    simp only [sat_bind, sat_get]
    split
    · exact fun n hn => Or.inl (Exit.returned.inj hn).symm
    · exact (sat_call _ _).2 fun _ _ hstep => ⟨trivial, h.step hstep⟩
  advanceReceive := behind_advanceReceive
  workerLogout := Triple.unconstrained _
  closed _ _ := True
  close _ _ _ := trivial
  closed_quiet := fun _ _ _ _ _ _ _ _ => ⟨trivial, trivial⟩

/-! ## Transfers -/

theorem keeps_transfer (payload : Buffer) (e : Endpoint) :
    (behind P x₀).Keeps (transfer P payload e) := by
  cases e with
  | worker => exact Worker.keeps_uploadFile payload
  | client => exact Client.keeps_downloadFile

/-- How a transfer ends: the session is over, or `r_counter` is behind. -/
def Ends (P : Platform) (x₀ : Session) (result : Except Exit Int) (x : Session)
    (s : Host × List Event) : Prop :=
  ∀ n, result = .ok n → n = -1 ∨ Behind P x₀ 0 x s

theorem ends_transfer (payload : Buffer) (e : Endpoint) :
    Triple (Program.Logged Host.anyEnv) AnyCall (Behind P x₀ 0)
      (Member.returning (transfer P payload e)) (fun n => Ends P x₀ (.ok n))
      fun e => Ends P x₀ (.error e) := by
  apply Member.triple_returning
  apply (keeps_transfer payload e).conseq (fun _ _ => id)
  · exact fun n x s h m _ => Or.inr h
  · intro exit x s h m hm
    cases exit with
    | returned n =>
        obtain rfl : n = m := Except.ok.inj hm
        exact h n rfl
    | thrown e => cases hm
    | exited => cases hm
    | undefined => cases hm
    | unfinished => cases hm

theorem one_le_damaged {j : Nat} {t : List Event} (h : OneDamaged P x j t) :
    1 ≤ t.countP (damaged P x.sessionKey) := by
  obtain ⟨n, w, harrived, -, hclosed⟩ := h.damaged
  have hmem : (n, some w) ∈ arrivals t := List.mem_of_getElem? harrived
  obtain ⟨ev, hev, harrival⟩ := List.mem_filterMap.1 hmem
  rw [Nat.one_le_iff_ne_zero, ← Nat.pos_iff_ne_zero, List.countP_pos_iff]
  refine ⟨ev, hev, ?_⟩
  obtain ⟨o, a⟩ := ev
  cases o with
  | recv m =>
      obtain ⟨-, rfl⟩ := Prod.mk.inj (Option.some.inj harrival)
      show (openFrame P x.sessionKey w).isNone = true
      rw [hclosed]
      rfl
  | send => cases harrival
  | sys => cases harrival

/-- **No transfer recovers from a damaged chunk**, at either end, of no size and at no position. -/
theorem damaged_never_recovers (P : Platform) (payload : Buffer) (e : Endpoint) (size j : Nat)
    (x x' : Session) (h : Host) (cs : List Choice) (result : Except Exit Int)
    (hend : (Host.run cs (Member.returning (transfer P payload e) x, h)).1.result =
      some (result, x'))
    (hone : OneDamaged P x j (Host.events cs (Member.returning (transfer P payload e) x, h))) :
    ¬Recovers e size x x' result
      (Host.events cs (Member.returning (transfer P payload e) x, h)) := by
  intro hrec
  have hrun := Host.reaches_events cs (p := Member.returning (transfer P payload e) x) h []
  rw [List.nil_append, Program.eq_ret_of_result hend] at hrun
  have hstart : Behind P x 0 x (h, []) := ⟨rfl, by simp [asked]⟩
  have hends := Program.Sat.result (ends_transfer payload e x (h, []) hstart) hrun
  obtain ⟨n, rfl, hn⟩ := hrec.goesOn
  have hbehind : x'.rCounter +
      (Host.events cs (Member.returning (transfer P payload e) x, h)).countP
        (damaged P x.sessionKey) + (0 : Nat) ≤
      x.rCounter + (asked (Host.events cs (Member.returning (transfer P payload e) x, h))).length :=
    ((hends n rfl).resolve_left hn).counter
  rw [hrec.consumed, hrec.inStep] at hbehind
  have hmissed := one_le_damaged hone
  omega

/-- A frame whose tag was changed on the way. -/
def damage (w : Buffer) : Buffer := w.dropLast ++ [0]

/-- The upload of 16 bytes, with the first chunk damaged and the second as it was sent. -/
def firstDamaged : List Choice :=
  List.replicate 8 .calm ++
    [.deliver (damage (sealedFrame 0 (RequestCodes.uploadChunk :: List.replicate 15 97))),
      .deliver (sealedFrame 1 [RequestCodes.uploadChunk, 97])]

/-- The worker that handles it. -/
def uploadSixteen : Program Sys (Except Exit Int × Session) × Host :=
  (Member.returning (transfer (.aes .little) ((UploadM1.new (ascii "a") 16).serialize .little) .worker)
    (.start (ascii "user1") (List.replicate 16 0)),
    .start (Fs.ofFolders [ascii "/data", ascii "/data/user1"]) ⟨[], false, false⟩)

/-- The receives of the run, of which the first one got a damaged frame. -/
theorem oneDamaged_firstDamaged :
    OneDamaged (.aes .little) (.start (ascii "user1") (List.replicate 16 0)) 0
      (Host.events firstDamaged uploadSixteen) := by
  have harrivals : arrivals (Host.events firstDamaged uploadSixteen) =
      [(46, some (damage (sealedFrame 0 (RequestCodes.uploadChunk :: List.replicate 15 97)))),
        (32, some (sealedFrame 1 [RequestCodes.uploadChunk, 97]))] := by decide +kernel
  constructor
  · rw [harrivals]
    exact ⟨_, _, rfl, by decide +kernel, by decide +kernel⟩
  · intro i n block hblock hi
    rw [harrivals] at hblock
    rcases i with _ | _ | i
    · exact absurd rfl hi
    · cases hblock
      exact ⟨_, rfl, by decide +kernel, by decide +kernel⟩
    · cases hblock

set_option maxRecDepth 20000 in
/-- The worker sees a counter that it does not expect, and ends the session. -/
theorem damaged_never_recovers_first :
    (Host.run firstDamaged uploadSixteen).1.result =
        some (.ok (-1), ⟨ascii "user1", List.replicate 16 0, 1, 0⟩) ∧
      ¬Recovers .worker 16 (.start (ascii "user1") (List.replicate 16 0))
        ⟨ascii "user1", List.replicate 16 0, 1, 0⟩ (.ok (-1)) (Host.events firstDamaged uploadSixteen) :=
  have hend : (Host.run firstDamaged uploadSixteen).1.result =
      some (.ok (-1), ⟨ascii "user1", List.replicate 16 0, 1, 0⟩) := by decide +kernel
  ⟨hend, damaged_never_recovers _ _ .worker 16 0 _ _ _ _ _ hend oneDamaged_firstDamaged⟩

/-- Not every transfer with a damaged chunk recovers. -/
theorem damaged_chunk_ends_session :
    ¬∀ (P : Platform) (payload : Buffer) (e : Endpoint) (size j : Nat) (x x' : Session) (h : Host)
      (cs : List Choice) (result : Except Exit Int),
      size = (UploadM1.deserialize P.order payload).fileSize →
      (Host.run cs (Member.returning (transfer P payload e) x, h)).1.result = some (result, x') →
      OneDamaged P x j (Host.events cs (Member.returning (transfer P payload e) x, h)) →
      Recovers e size x x' result
        (Host.events cs (Member.returning (transfer P payload e) x, h)) := by
  intro hall
  have hend : (Host.run firstDamaged uploadSixteen).1.result =
      some (.ok (-1), ⟨ascii "user1", List.replicate 16 0, 1, 0⟩) := by decide +kernel
  have hrec := hall _ _ .worker 16 0 _ _ _ _ _ (by decide +kernel) hend oneDamaged_firstDamaged
  obtain ⟨n, hn, hne⟩ := hrec.goesOn
  exact hne (Except.ok.inj hn).symm

end Damage

end CloudStorage
