import CloudStorage.AesCcm
import CloudStorage.Conduct
import CloudStorage.Outcomes

set_option autoImplicit false

/-! # Counter discipline

Every send and every receive of client and worker checks a counter before it uses it and increments
it after. The invariant is `Steady`: `r_counter` is the number of frames accepted, and every frame on
the wire carries a counter below `s_counter`. Each of the shared calls has one triple that says how it
moves `Steady`, every function made of them keeps it, and `History` is what is left of it when the
two counters are forgotten. -/

namespace CloudStorage

open Interaction Interaction.Routine

namespace Host

/-- `incrementCounter` has returned -1. -/
def Exhausted (h : Host) : Prop := ∃ counter, (counter, -1) ∈ h.counted

/-- Such calls leave the log of frames and counters as it is. -/
theorem answer_uncounted {c : Choice} {h : Host} {o : Sys.Op} (ho : Uncounted o) :
    (h.answer c o).2.wire = h.wire ∧ (h.answer c o).2.accepted = h.accepted ∧
      (h.answer c o).2.counted = h.counted := by
  match o, ho with
  | .recv n, _ => exact ⟨rfl, rfl, rfl⟩
  | .sys (.note (.sealed _ _ _)), _ | .sys (.note (.announced _)), _
  | .sys (.note (.refused _)), _ =>
      simp [answer, answerSys, accepted, counted, noted]
  | .sys (.random _), _ | .sys (.file _), _ | .sys (.crypto _), _ | .sys .getline, _
  | .sys .clearAndIgnore, _ | .sys (.garbage .fileSize), _ | .sys .overrun, _ | .sys (.print _), _ =>
      exact ⟨rfl, rfl, rfl⟩

end Host

open Wrapper (counterOf)

variable (P : Platform)

/-- The counters of a run so far: the accepted frames carry 0, 1, 2 and so on, those sent carry
    increasing ones, all are `int`s from 0 on, and no increment went past the last `int`. -/
structure History (h : Host) : Prop where
  accepted : h.accepted.map (fun a => counterOf P a.2.2) =
    (List.range h.accepted.length).map Int.ofNat
  accepted_le : h.accepted.length ≤ intMax + 1
  sent : (h.wire.map (counterOf P)).Pairwise (· < ·)
  sent_range : ∀ f ∈ h.wire, 0 ≤ counterOf P f ∧ counterOf P f ≤ intMax
  counted : ∀ e ∈ h.counted,
    (0 ≤ e.1 ∧ e.1 < intMax ∧ e.2 = e.1 + 1) ∨ (e.1 = intMax ∧ e.2 = -1)

/-- Every call leaves a history, and after the end of a counter nothing is sent or accepted. -/
def Disciplined : Transition Sys Host := fun h _ _ h' =>
  History P h' ∧ (h.Exhausted → h'.Exhausted ∧ h'.wire = h.wire ∧ h'.accepted = h.accepted)

/-- The counters of the object agree with the history; `pending` frames are accepted and not yet
    counted. -/
structure Steady (pending : Nat) (x : Session) (h : Host) : Prop where
  history : History P h
  running : ¬h.Exhausted
  received : x.rCounter + pending = h.accepted.length
  rCounter_nonneg : 0 ≤ x.rCounter
  rCounter_le : x.rCounter ≤ intMax
  sCounter_nonneg : 0 ≤ x.sCounter
  sCounter_le : x.sCounter ≤ intMax
  sent_lt : ∀ f ∈ h.wire, counterOf P f < x.sCounter

/-- The triples of this module. -/
abbrev Counts {α : Type} (Pre : Session → Host → Prop) (r : Member α)
    (Post : α → Session → Host → Prop) : Prop :=
  Triple Host.anyEnv (Disciplined P) Pre r Post (LeftOver (Steady P 0))

variable {P} {x : Session} {h h' : Host} {k : Nat}

theorem History.congr (hist : History P h) (hw : h'.wire = h.wire)
    (ha : h'.accepted = h.accepted) (hc : h'.counted = h.counted) : History P h' := by
  constructor
  · rw [ha]
    exact hist.accepted
  · rw [ha]
    exact hist.accepted_le
  · rw [hw]
    exact hist.sent
  · rw [hw]
    exact hist.sent_range
  · rw [hc]
    exact hist.counted

theorem Steady.congr (st : Steady P k x h) (hw : h'.wire = h.wire)
    (ha : h'.accepted = h.accepted) (hc : h'.counted = h.counted) : Steady P k x h' where
  history := st.history.congr hw ha hc
  running := by
    unfold Host.Exhausted
    rw [hc]
    exact st.running
  received := by rw [ha, st.received]
  rCounter_nonneg := st.rCounter_nonneg
  rCounter_le := st.rCounter_le
  sCounter_nonneg := st.sCounter_nonneg
  sCounter_le := st.sCounter_le
  sent_lt := by
    rw [hw]
    exact st.sent_lt

/-- Every end of a function but a `return` is covered. -/
theorem left_of_ne {e : Exit} (he : ∀ n, e ≠ .returned n) : LeftOver (Steady P 0) e x h :=
  fun n hn => absurd hn (he n)

/-- Calls that log nothing keep the counters. -/
theorem quiet_steady : Quiet Host.anyEnv (Disciplined P) (Steady P k) := by
  rintro x s o a s' ho st ⟨c, hc⟩
  obtain ⟨hw, ha, hcount⟩ := Host.answer_uncounted (c := c) (h := s) ho.uncounted
  rw [hc] at hw ha hcount
  have st' := st.congr hw ha hcount
  exact ⟨⟨st'.history, fun hex => absurd hex st.running⟩, st'⟩

/-! ## The shared calls -/

@[simp]
theorem Host.counted_noted_accepted (h : Host) (c : Int) (p f : Buffer) :
    (h.noted (.accepted c p f)).counted = h.counted := by
  simp [counted, noted]

@[simp]
theorem Host.counted_noted_counted (h : Host) (c n : Int) :
    (h.noted (.counted c n)).counted = h.counted ++ [(c, n)] := by
  simp [counted, noted]

/-- An increment is recorded as it was made, and is -1 only at the end. -/
theorem History.count {c : Int} (hist : History P h) (hc : 0 ≤ c) (hc' : c ≤ intMax) :
    History P (h.noted (.counted c (incrementCounter c))) := by
  refine ⟨by simpa using hist.accepted, by simpa using hist.accepted_le, hist.sent,
    hist.sent_range, fun e he => ?_⟩
  rw [Host.counted_noted_counted, List.mem_append, List.mem_singleton] at he
  rcases he with he | rfl
  · exact hist.counted e he
  · by_cases hend : c = intMax
    · exact Or.inr ⟨hend, by simp [incrementCounter, Max.counterMaxValue, hend]⟩
    · exact Or.inl ⟨hc, by omega, by simp [incrementCounter, Max.counterMaxValue, hend]⟩

theorem running_count {c : Int} (hrun : ¬h.Exhausted) (hne : incrementCounter c ≠ -1) :
    ¬(h.noted (.counted c (incrementCounter c))).Exhausted := by
  rintro ⟨d, hd⟩
  rw [Host.counted_noted_counted, List.mem_append, List.mem_singleton, Prod.mk.injEq] at hd
  rcases hd with hd | ⟨-, hd⟩
  · exact hrun ⟨d, hd⟩
  · exact hne hd.symm

theorem incrementCounter_le {c : Int} (hc : c ≤ intMax) (hne : incrementCounter c ≠ -1) :
    incrementCounter c = c + 1 ∧ c + 1 ≤ intMax := by
  refine ⟨incrementCounter_of_ne hne, ?_⟩
  have hmax : c ≠ intMax := fun h => hne (by simp [incrementCounter, Max.counterMaxValue, h])
  omega

/-- The history after a frame with the current counter. -/
theorem Steady.put {w : Buffer} (st : Steady P 0 x h) (hw : w = [] ∨ counterOf P w = x.sCounter) :
    History P (h.put w) ∧ (∀ f ∈ (h.put w).wire, counterOf P f ≤ x.sCounter) ∧
      (h.put w).accepted = h.accepted ∧ (h.put w).counted = h.counted := by
  unfold Host.put
  split_ifs with hnil
  · exact ⟨st.history, fun f hf => Int.le_of_lt (st.sent_lt f hf), rfl, rfl⟩
  · have hcw : counterOf P w = x.sCounter := hw.resolve_left hnil
    have hle : ∀ f ∈ h.wire ++ [w], counterOf P f ≤ x.sCounter := by
      intro f hf
      rcases List.mem_append.1 hf with hf | hf
      · exact Int.le_of_lt (st.sent_lt f hf)
      · obtain rfl := List.mem_singleton.1 hf
        exact Int.le_of_eq hcw
    refine ⟨⟨st.history.accepted, st.history.accepted_le, ?_, ?_, st.history.counted⟩, hle, rfl, rfl⟩
    · rw [List.map_append, List.pairwise_append]
      refine ⟨st.history.sent, by simp, fun a ha b hb => ?_⟩
      obtain ⟨f, hf, rfl⟩ := List.mem_map.1 ha
      obtain rfl : b = counterOf P w := by simpa using hb
      rw [hcw]
      exact st.sent_lt f hf
    · intro f hf
      rcases List.mem_append.1 hf with hf | hf
      · exact st.history.sent_range f hf
      · rw [List.mem_singleton.1 hf, hcw]
        exact ⟨st.sCounter_nonneg, st.sCounter_le⟩

/-- Sending a frame with the current counter, or nothing. -/
theorem counts_sendFrame (w : Buffer) :
    Counts P (fun x h => Steady P 0 x h ∧ (w = [] ∨ counterOf P w = x.sCounter))
      (Member.sendFrame w) fun _ => Steady P 0 := by
  rintro x h ⟨st, hw⟩
  obtain ⟨hist, hle, ha, hc⟩ := st.put hw
  have hrun : ¬(h.put w).Exhausted := by
    unfold Host.Exhausted
    rw [hc]
    exact st.running
  simp only [Member.sendFrame, Member.advanceSend, sat_bind, Member.sat_sendData, sat_require,
    sat_get, sat_modify, Member.sat_note]
  intro sent h₁ hstep
  rcases Host.anyEnv_send hstep with ⟨rfl, rfl⟩ | ⟨rfl, rfl⟩
  · refine ⟨⟨st.history, fun hex => absurd hex st.running⟩, by simp, fun _ n _ => Or.inr st⟩
  · refine ⟨⟨hist, fun hex => absurd hex st.running⟩, fun _ u h₂ hnote => ?_, by simp⟩
    rw [Host.anyEnv_note hnote]
    have hist₂ := hist.count st.sCounter_nonneg st.sCounter_le
    refine ⟨⟨hist₂, fun hex => absurd hex hrun⟩, ?_⟩
    split_ifs with hend
    · exact fun n hn => Or.inl (by simpa using hn.symm)
    · obtain ⟨hinc, hmax⟩ := incrementCounter_le st.sCounter_le hend
      have hnonneg := st.sCounter_nonneg
      refine ⟨hist₂, running_count hrun hend, ?_, st.rCounter_nonneg, st.rCounter_le, ?_, ?_,
        fun f hf => ?_⟩
      · rw [Host.accepted_noted_counted, ha]
        exact st.received
      · show 0 ≤ incrementCounter x.sCounter
        omega
      · show incrementCounter x.sCounter ≤ intMax
        omega
      · have := hle f hf
        show counterOf P f < incrementCounter x.sCounter
        omega

/-- A serialized packet is empty or carries the counter it was made with. -/
theorem counts_serialize (key : Buffer) (counter : Int) (payload : Buffer) :
    Counts P (fun x h => Steady P 0 x h ∧ x.sCounter = counter)
      (Wrapper.serialize P key counter payload) fun w x h =>
        Steady P 0 x h ∧ (w = [] ∨ counterOf P w = x.sCounter) := by
  rintro x h ⟨st, rfl⟩
  simp only [Wrapper.serialize, sat_bind, Member.sat_random]
  intro iv h₁ hrandom
  obtain ⟨rfl, hiv⟩ := Host.anyEnv_random hrandom
  refine ⟨⟨st.history, fun hex => absurd hex st.running⟩, ?_⟩
  cases iv with
  | none => exact ⟨st, Or.inl rfl⟩
  | some iv =>
      dsimp only
      split
      · exact ⟨st, Or.inl rfl⟩
      · rename_i wrapper hframe
        have hcounter := Wrapper.counterOf_frame (hiv iv rfl) st.sCounter_nonneg st.sCounter_le hframe
        simp only [sat_bind, Member.sat_note, sat_pure]
        intro u h₂ hnote
        obtain ⟨c, hc⟩ := hnote
        obtain ⟨hw, ha, hcount⟩ :=
          Host.answer_uncounted (c := c) (h := h₁) (o := .sys (.note (.sealed _ _ _))) trivial
        rw [hc] at hw ha hcount
        have st' := st.congr hw ha hcount
        exact ⟨⟨st'.history, fun hex => absurd hex st.running⟩, st', Or.inr hcounter⟩

theorem counts_sendPacket (payload : Buffer) :
    Counts P (Steady P 0) (Member.sendPacket P payload) fun _ => Steady P 0 := by
  exact .bind (.get (P := fun s x h => Steady P 0 x h ∧ x.sCounter = s.sCounter)
    fun _ _ st => ⟨st, rfl⟩) fun s => .bind (counts_serialize _ _ _) counts_sendFrame

/-- A frame that opens comes with the counter it carries. -/
theorem counts_receiveFrame (n : Nat) :
    Counts P (Steady P 0) (Member.receiveFrame P n) fun r x h => match r with
      | none => Steady P 0 x h
      | some f => Steady P 0 x h ∧ f.1 = counterOf P f.2.2 := by
  intro x h st
  unfold Member.receiveFrame
  dsimp only
  split
  · exact left_of_ne (by simp)
  · simp only [sat_bind, Member.sat_receiveData]
    intro r h₁ hrecv
    obtain ⟨rfl, -⟩ := Host.anyEnv_recv hrecv
    refine ⟨⟨st.history, fun hex => absurd hex st.running⟩, ?_⟩
    cases r with
    | none => exact st
    | some w =>
        simp only [sat_bind, sat_get]
        unfold Wrapper.deserialize
        split_ifs
        · exact left_of_ne (by simp)
        · exact left_of_ne (by simp)
        · simp only [sat_pure]
          cases Wrapper.openFrame P x.sessionKey w with
          | none => exact st
          | some p => exact ⟨st, rfl⟩

/-- A frame passes the check exactly with the next counter. -/
theorem counts_checkCounter (c : Int) (p w : Buffer) :
    Counts P (fun x h => Steady P 0 x h ∧ c = counterOf P w) (Member.checkCounter c p w)
      fun _ => Steady P 1 := by
  rintro x h ⟨st, hc⟩
  simp only [Member.checkCounter, sat_bind, sat_get]
  split_ifs with hne
  · exact fun n hn => Or.inl (by simpa using hn.symm)
  · rw [Member.sat_note]
    intro u h₁ hnote
    rw [Host.anyEnv_note hnote]
    have hnext : counterOf P w = h.accepted.length := by
      have := st.received
      omega
    have hist : History P (h.noted (.accepted c p w)) := by
      refine ⟨?_, ?_, st.history.sent, st.history.sent_range, by simpa using st.history.counted⟩
      · simp only [Host.accepted_noted_accepted, List.map_append, List.length_append,
          st.history.accepted, List.map_cons, List.map_nil, List.length_singleton,
          List.range_succ, hnext]
        rfl
      · have := st.received
        have := st.rCounter_le
        simp only [Host.accepted_noted_accepted, List.length_append, List.length_singleton]
        omega
    refine ⟨⟨hist, fun hex => absurd hex st.running⟩, hist, ?_, ?_,
      st.rCounter_nonneg, st.rCounter_le, st.sCounter_nonneg, st.sCounter_le, st.sent_lt⟩
    · unfold Host.Exhausted
      rw [Host.counted_noted_accepted]
      exact st.running
    · have := st.received
      simp only [Host.accepted_noted_accepted, List.length_append, List.length_singleton]
      push_cast
      omega

theorem counts_advanceReceive :
    Counts P (Steady P 1) Member.advanceReceive fun _ => Steady P 0 := by
  intro x h st
  have hnonneg := st.rCounter_nonneg
  simp only [Member.advanceReceive, sat_bind, sat_get, sat_modify, Member.sat_note]
  intro u h₁ hnote
  rw [Host.anyEnv_note hnote]
  have hist := st.history.count hnonneg st.rCounter_le
  refine ⟨⟨hist, fun hex => absurd hex st.running⟩, ?_⟩
  split_ifs with hend
  · exact fun n hn => Or.inl (by simpa using hn.symm)
  · obtain ⟨hinc, hmax⟩ := incrementCounter_le st.rCounter_le hend
    refine ⟨hist, running_count st.running hend, ?_, ?_, ?_, st.sCounter_nonneg, st.sCounter_le,
      st.sent_lt⟩
    · have := st.received
      rw [Host.accepted_noted_counted]
      show incrementCounter x.rCounter + 0 = _
      omega
    · show 0 ≤ incrementCounter x.rCounter
      omega
    · show incrementCounter x.rCounter ≤ intMax
      omega

theorem counts_garbage (u : Unset) :
    Counts P (Steady P 0) (Member.garbage u) fun _ => Steady P 0 := by
  rintro x h st word h' ⟨c, hc⟩
  obtain rfl : h = h' := congrArg Prod.snd hc
  exact ⟨⟨st.history, fun hex => absurd hex st.running⟩, st⟩

/-- Clearing the session key leaves the counters alone. -/
theorem Steady.clearKey (st : Steady P 0 x h) : Steady P 0 { x with sessionKey := [] } h :=
  ⟨st.history, st.running, st.received, st.rCounter_nonneg, st.rCounter_le, st.sCounter_nonneg,
    st.sCounter_le, st.sent_lt⟩

theorem counts_workerLogout :
    Counts P (Steady P 0) (Worker.logout P) fun _ => Steady P 0 := by
  refine .bind (.get (P := fun s x h => Steady P 0 x h ∧ x.sCounter = s.sCounter)
    fun _ _ st => ⟨st, rfl⟩) fun _ => .bind (counts_serialize _ _ _) fun w =>
      .bind (P := fun _ x h => Steady P 0 x h ∧ (w = [] ∨ counterOf P w = x.sCounter)) ?_ fun _ =>
      .bind (counts_sendFrame w) fun _ => .pure _ fun _ _ h => h
  exact fun _ _ h => ⟨h.1.clearKey, h.2⟩

variable (P) in
/-- The conduct of an end that keeps its counters. -/
def counting : Conduct P Host where
  rely := Host.anyEnv
  guar := Disciplined P
  ready := Steady P 0
  opened f x h := Steady P 0 x h ∧ f.1 = counterOf P f.2.2
  accepting := Steady P 1
  left := LeftOver (Steady P 0)
  left_ready _ _ _ h := fun _ _ => Or.inr h
  left_accepting _ _ _ := left_of_ne (by simp)
  ready_quiet := quiet_steady
  accepting_quiet := quiet_steady
  garbage := counts_garbage
  sendPacket := counts_sendPacket
  receiveFrame := counts_receiveFrame
  checkCounter := counts_checkCounter
  advanceReceive := counts_advanceReceive
  workerLogout := counts_workerLogout.conseq (fun _ _ => id) (fun _ _ _ _ => trivial) fun _ _ _ _ => trivial
  closed := Steady P 0
  close := fun _ _ st => st.clearKey
  closed_quiet := quiet_steady

theorem goesOn_counting : (counting P).GoesOn := fun _ _ _ => Iff.rfl

/-! ## Whole runs -/

theorem steady_start (username key : Buffer) (fs : Fs) (console : Console) :
    Steady P 0 (Session.start username key) (Host.start fs console) where
  history := ⟨rfl, by simp [Host.start, Host.accepted], by simp [Host.start],
    by simp [Host.start], by simp [Host.start, Host.counted]⟩
  running := by simp [Host.Exhausted, Host.start, Host.counted]
  received := rfl
  rCounter_nonneg := Int.le_refl _
  rCounter_le := by simp [Session.start, intMax]
  sCounter_nonneg := Int.le_refl _
  sCounter_le := by simp [Session.start, intMax]
  sent_lt := by simp [Host.start]

/-- After the end of a counter a disciplined run neither sends nor accepts. -/
theorem exhausted_later {α : Type} {Q : α → Host → Prop} {c c' : Program Sys α × Host}
    (hsat : c.1.Sat Host.anyEnv (Disciplined P) Q c.2) (hex : c.2.Exhausted)
    (hlater : Program.Reaches Host.anyEnv c c') :
    c'.2.Exhausted ∧ c'.2.wire = c.2.wire ∧ c'.2.accepted = c.2.accepted := by
  induction hlater with
  | refl => exact ⟨hex, rfl, rfl⟩
  | tail hbefore hstep ih =>
      have hmid := hsat.reaches hbefore
      cases hstep with
      | call ha =>
          obtain ⟨hex', hw, hacc⟩ := (hmid _ _ ha).1.2 ih.1
          exact ⟨hex', hw.trans ih.2.1, hacc.trans ih.2.2⟩

/-- No two accepted frames are the same: their counters differ. -/
theorem History.nodup_accepted (hist : History P h) : (h.accepted.map fun a => a.2.2).Nodup := by
  refine List.Nodup.of_map (counterOf P) ?_
  rw [List.map_map, show counterOf P ∘ (fun a : Int × Buffer × Buffer => a.2.2) =
    fun a => counterOf P a.2.2 from rfl, hist.accepted]
  exact List.nodup_range.map fun a b hab => Int.ofNat.inj hab

variable (P) in
/-- **Counter discipline and replay rejection.** In every run of one end of a session, whatever the
    network, the machine and the user do: the frames accepted so far carry the counters 0, 1, 2 and
    so on and no frame is accepted twice; the frames sent carry increasing counters; all of them are
    from 0 to the last `int` and no increment goes past it; and once an increment has returned -1 no
    frame is sent or accepted any more. -/
theorem counter_discipline (side : Endpoint) (bound : Nat) (username key : Buffer) (fs : Fs)
    (console : Console) (c c' : Program Sys (Except Exit Int × Session) × Host)
    (hrun : Program.Reaches Host.anyEnv
      (side.program P bound (Session.start username key), Host.start fs console) c)
    (hlater : Program.Reaches Host.anyEnv c c') :
    History P c.2 ∧ (c.2.accepted.map fun a => a.2.2).Nodup ∧
      (c.2.Exhausted → c'.2.wire = c.2.wire ∧ c'.2.accepted = c.2.accepted) := by
  have hst := steady_start (P := P) username key fs console
  have hsat := ((counting P).meets_program goesOn_counting side bound).program hst
  have hist : History P c.2 :=
    Program.Sat.invariant (c := (_, _)) (History P) (fun _ _ _ _ hg => hg.1) hsat hst.history hrun
  exact ⟨hist, hist.nodup_accepted, fun hex => (exhausted_later (hsat.reaches hrun) hex hlater).2⟩

/-- A worker for `user1` and the frames of an upload of 20 bytes. -/
def uploadingWorker : Program Sys (Except Exit Int × Session) × Host :=
  (Endpoint.worker.program (.aes .little) 2 (.start (ascii "user1") (List.replicate 16 0)),
    .start (Fs.ofFolders [ascii "/data", ascii "/data/user1"]) ⟨[], false, false⟩)

def requestAndChunk : List Choice :=
  .deliver (sealedFrame 0 ((UploadM1.new (ascii "a") 20).serialize .little)) :: List.replicate 10 .calm ++
    .deliver (sealedFrame 1 (RequestCodes.uploadChunk :: ascii "twenty bytes of")) :: List.replicate 3 .calm

def restAndLogout : List Choice :=
  .deliver (sealedFrame 2 (RequestCodes.uploadChunk :: ascii " text")) :: List.replicate 7 .calm ++
    .deliver (sealedFrame 3 LogoutM1.serialize) :: List.replicate 6 .calm

set_option maxRecDepth 20000 in
/-- It accepts the frames 0 and 1, and later 2 and 3, and has then sent 0, 1 and 2. -/
theorem counter_discipline_upload :
    let c := Host.run requestAndChunk uploadingWorker
    let c' := Host.run restAndLogout c
    c.2.accepted.map (·.1) = [0, 1] ∧ c'.2.accepted.map (·.1) = [0, 1, 2, 3] ∧
      c'.2.wire.map (counterOf (.aes .little)) = [0, 1, 2] ∧ History (.aes .little) c.2 ∧
      (c.2.accepted.map fun a => a.2.2).Nodup ∧
      (c.2.Exhausted → c'.2.wire = c.2.wire ∧ c'.2.accepted = c.2.accepted) := by
  intro c c'
  refine ⟨by decide +kernel, by decide +kernel, by decide +kernel, ?_⟩
  exact counter_discipline (.aes .little) .worker 2 (ascii "user1") (List.replicate 16 0) _ _ c c'
    (Host.reaches_run _ _) (Host.reaches_run _ _)

end CloudStorage
