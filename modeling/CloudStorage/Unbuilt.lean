import CloudStorage.AesCcm
import CloudStorage.Conduct
import Mathlib.Logic.Function.Iterate

set_option autoImplicit false

/-! # Frames that could not be built

`Wrapper::serialize` signals its failure by an empty buffer, and nothing looks at it: the buffer goes
to `sendData`, for which a send of no bytes succeeds on a healthy connection, and `s_counter` is
counted. Only a socket that refuses the empty buffer makes the function take its error path. -/

namespace CloudStorage

open Interaction Interaction.Routine

namespace Unbuilt

/-- A call with its answer. -/
abbrev Event : Type := Program.Event Sys

/-- What a user may ask for. -/
inductive Request
  | upload
  | download
  | list
  | rename
  | delete
  | logout
  deriving DecidableEq, Repr

/-- The operation of the client, and the handler of the worker for a request with this payload. -/
def operation (P : Platform) (payload : Buffer) : Endpoint → Request → Member Int
  | .client, .upload => Client.uploadFile P
  | .client, .download => Client.downloadFile P
  | .client, .list => Client.listFiles P
  | .client, .rename => Client.renameFile P
  | .client, .delete => Client.deleteFile P
  | .client, .logout => Client.logout P
  | .worker, .upload => Worker.uploadFile P payload
  | .worker, .download => Worker.downloadFile P payload
  | .worker, .list => Worker.listFiles P
  | .worker, .rename => Worker.renameFile P payload
  | .worker, .delete => Worker.deleteFile P payload
  | .worker, .logout => Worker.logout P

/-- The call hands bytes to the socket, which takes them. -/
def handsOver : Event → Bool
  | ⟨.send w, sent⟩ => !w.isEmpty && (sent : Bool)
  | _ => false

/-- How many frames were handed over. -/
def handedOver (t : List Event) : Nat := t.countP handsOver

/-- What is sent is empty, or the frame that was built directly before. -/
def Built (t : List Event) : Prop :=
  ∀ pre w sent, pre ++ [⟨.send w, sent⟩] <+: t → w = [] ∨
    ∃ counter payload, pre.getLast? = some ⟨.sys (.note (.sealed counter payload w)), ()⟩

/-- What is to hold at each point of a function that started in the session `x`, with the calls `t` so
    far and `p` left of it. -/
structure NeverCounted (x : Session) (p : Program Sys (Except Exit Int × Session)) (t : List Event) :
    Prop where
  built : Built t
  /-- With a frame that could not be built the function ends, and returns its error. -/
  abandoned : ∀ pre sent, pre ++ [⟨.send [], sent⟩] <+: t →
    t = pre ++ [⟨.send [], sent⟩] ∧ ∃ x', p = .ret (.error (.returned 0), x')
  /-- Each advance of `s_counter` is for a frame that was handed over. -/
  counted : ∀ result x', p = .ret (result, x') →
    x'.sCounter = incrementCounter^[handedOver t] x.sCounter

/-- The socket has taken an empty buffer. -/
def Taken (t : List Event) : Prop := (⟨.send [], true⟩ : Event) ∈ t

/-! ## The calls so far -/

variable {P : Platform} {c : Int} {x : Session} {t : List Event} {s s' : Host × List Event}

theorem handedOver_append (t : List Event) (e : Event) :
    handedOver (t ++ [e]) = handedOver t + if handsOver e then 1 else 0 := by
  rw [handedOver, List.countP_append, ← handedOver, List.countP_singleton]

theorem Built.nil : Built [] := by
  intro pre w sent h
  simp at h

theorem Built.append (h : Built t) {e : Event}
    (he : ∀ w sent, e = ⟨.send w, sent⟩ → w = [] ∨
      ∃ counter payload, t.getLast? = some ⟨.sys (.note (.sealed counter payload w)), ()⟩) :
    Built (t ++ [e]) := by
  intro pre w sent hpre
  rcases List.prefix_concat_iff.1 hpre with heq | hpre
  · obtain ⟨rfl, hsend⟩ := List.append_inj' heq rfl
    exact he w sent (List.singleton_inj.1 hsend).symm
  · exact h pre w sent hpre

/-- Between two sends: unless the socket has taken an empty buffer, none was refused, and
    `s_counter` is what the frames handed over make it. -/
structure Tally (c : Int) (x : Session) (t : List Event) : Prop where
  built : Built t
  last : t.getLast? ≠ some ⟨.send [], true⟩
  sound : ¬Taken t → (⟨.send [], false⟩ : Event) ∉ t ∧
    x.sCounter = incrementCounter^[handedOver t] c

/-- Directly after the socket has refused an empty buffer. -/
structure Refused (c : Int) (x : Session) (t : List Event) : Prop where
  built : Built t
  last : ∃ pre, t = pre ++ [⟨.send [], false⟩] ∧ (¬Taken t → (⟨.send [], false⟩ : Event) ∉ pre)
  sound : ¬Taken t → x.sCounter = incrementCounter^[handedOver t] c

/-- A call is only made where no empty buffer was refused before. -/
def Unrefused : Transition Sys (Host × List Event) := fun s _ _ _ =>
  Built s.2 ∧ (¬Taken s.2 → (⟨.send [], false⟩ : Event) ∉ s.2)

/-- How a function ends early. -/
def Leaves (c : Int) (e : Exit) (x : Session) (s : Host × List Event) : Prop :=
  Tally c x s.2 ∨ (e = .returned 0 ∧ Refused c x s.2)

theorem Taken.append {e : Event} (h : Taken t) : Taken (t ++ [e]) := List.mem_append_left _ h

theorem Tally.unrefused {o : Sys.Op} {a : Sys.Ans o} (h : Tally c x s.2) : Unrefused s o a s' :=
  ⟨h.built, fun hnot => (h.sound hnot).1⟩

/-- A call that is no send. -/
def NoSend : Sys.Op → Prop
  | .send _ => False
  | _ => True

theorem Unlogged.noSend : ∀ {o : Sys.Op}, Unlogged o → NoSend o
  | .recv _, _ | .sys _, _ => trivial

theorem Tally.append (h : Tally c x t) {o : Sys.Op} (a : Sys.Ans o) (ho : NoSend o) :
    Tally c x (t ++ [⟨o, a⟩]) := by
  have hne : ∀ w sent, (⟨o, a⟩ : Event) ≠ ⟨.send w, sent⟩ := by
    rintro w sent heq
    obtain rfl : o = .send w := congrArg Sigma.fst heq
    exact ho
  have hnone : handsOver ⟨o, a⟩ = false := by
    cases o with
    | send w => exact ho.elim
    | recv n => rfl
    | sys o => rfl
  constructor
  · exact h.built.append fun w sent heq => absurd heq (hne w sent)
  · simpa using hne [] true
  · intro hnot
    obtain ⟨hmem, hcount⟩ := h.sound fun htaken => hnot htaken.append
    refine ⟨?_, by rw [hcount, handedOver_append, hnone]; rfl⟩
    simpa [hmem] using (hne [] false).symm

theorem Tally.step {o : Sys.Op} {a : Sys.Ans o} (h : Tally c x s.2)
    (hstep : Program.Logged Host.anyEnv s o a s') (ho : NoSend o) :
    Unrefused s o a s' ∧ Tally c x s'.2 := by
  refine ⟨h.unrefused, ?_⟩
  rw [hstep.2]
  exact h.append a ho

theorem quiet_tally : Quiet (Program.Logged Host.anyEnv) Unrefused fun x s => Tally c x s.2 :=
  fun _ _ _ _ _ ho h hstep => h.step hstep (Unlogged.noSend ho)

/-! ## The sends -/

/-- The triples of this section. -/
abbrev Counted {α : Type} (c : Int) (Pre : Session → Host × List Event → Prop) (r : Member α)
    (Post : α → Session → Host × List Event → Prop) : Prop :=
  Triple (Program.Logged Host.anyEnv) Unrefused Pre r Post (Leaves c)

/-- What may be sent: nothing, or what was just built. -/
def Sendable (w : Buffer) (t : List Event) : Prop :=
  w = [] ∨ ∃ counter payload, t.getLast? = some ⟨.sys (.note (.sealed counter payload w)), ()⟩

/-- A refused send. -/
theorem Tally.refused {w : Buffer} (h : Tally c x t) (hw : Sendable w t) :
    Built (t ++ [⟨.send w, false⟩]) ∧
      (Tally c x (t ++ [⟨.send w, false⟩]) ∨ Refused c x (t ++ [⟨.send w, false⟩])) := by
  have hbuilt : Built (t ++ [⟨.send w, false⟩]) := by
    apply h.built.append
    rintro w' sent heq
    cases heq
    exact hw
  have hnone : handsOver ⟨.send w, false⟩ = false := by simp [handsOver]
  have hcount : ¬Taken (t ++ [⟨.send w, false⟩]) →
      x.sCounter = incrementCounter^[handedOver (t ++ [⟨.send w, false⟩])] c := by
    intro hnot
    rw [(h.sound fun htaken => hnot htaken.append).2, handedOver_append, hnone]
    rfl
  refine ⟨hbuilt, ?_⟩
  cases w with
  | nil =>
      refine Or.inr ⟨hbuilt, ⟨t, rfl, fun hnot => ?_⟩, hcount⟩
      exact (h.sound fun htaken => hnot htaken.append).1
  | cons b w =>
      have hlast : ∀ sent, (⟨.send (b :: w), false⟩ : Event) ≠ ⟨.send [], sent⟩ := by
        intro sent heq
        cases heq
      refine Or.inl ⟨hbuilt, by simpa using hlast true, fun hnot => ⟨?_, hcount hnot⟩⟩
      have hmem := (h.sound fun htaken => hnot htaken.append).1
      simpa [hmem] using (hlast false).symm

/-- A send that the socket takes, and its count. -/
theorem Tally.taken {w : Buffer} (h : Tally c x t) (hw : Sendable w t) (next : Int) :
    Built (t ++ [⟨.send w, true⟩]) ∧
      (¬Taken (t ++ [⟨.send w, true⟩]) → (⟨.send [], false⟩ : Event) ∉ t ++ [⟨.send w, true⟩]) ∧
      Tally c { x with sCounter := incrementCounter x.sCounter }
        (t ++ [⟨.send w, true⟩] ++ [⟨.sys (.note (.counted x.sCounter next)), ()⟩]) := by
  have hbuilt : Built (t ++ [⟨.send w, true⟩]) := by
    apply h.built.append
    rintro w' sent heq
    cases heq
    exact hw
  have hmem : ¬Taken (t ++ [⟨.send w, true⟩]) →
      (⟨.send [], false⟩ : Event) ∉ t ++ [⟨.send w, true⟩] := by
    intro hnot
    rw [List.mem_append, not_or]
    refine ⟨(h.sound fun htaken => hnot htaken.append).1, fun heq => ?_⟩
    cases List.mem_singleton.1 heq
  have hnote : ∀ w sent, (⟨.sys (.note (.counted x.sCounter next)), ()⟩ : Event) ≠ ⟨.send w, sent⟩ := by
    intro w sent heq
    cases heq
  refine ⟨hbuilt, hmem, hbuilt.append fun w' sent heq => absurd heq (hnote w' sent), ?_, fun hnot => ?_⟩
  · simpa using hnote [] true
  have hnot' : ¬Taken (t ++ [⟨.send w, true⟩]) := fun htaken => hnot htaken.append
  have hw' : w ≠ [] := by
    rintro rfl
    exact hnot' (List.mem_append_right _ (List.mem_singleton_self _))
  have hone : handsOver ⟨.send w, true⟩ = true := by simp [handsOver, hw']
  constructor
  · rw [List.mem_append, not_or]
    exact ⟨hmem hnot', by simpa using (hnote [] false).symm⟩
  · rw [handedOver_append, handedOver_append, hone]
    show incrementCounter x.sCounter = incrementCounter^[handedOver t + 1] c
    rw [Function.iterate_succ_apply', ← (h.sound fun htaken => hnot' htaken.append).2]

theorem counted_sendFrame (w : Buffer) :
    Counted c (fun x s => Tally c x s.2 ∧ Sendable w s.2) (Member.sendFrame w)
      fun _ x s => Tally c x s.2 := by
  rintro x s ⟨h, hw⟩
  simp only [Member.sendFrame, Member.advanceSend, sat_bind, Member.sat_sendData, sat_require,
    sat_get, sat_modify, Member.sat_note]
  intro sent s₁ hsend
  have htrace : s₁.2 = s.2 ++ [⟨.send w, sent⟩] := hsend.2
  refine ⟨h.unrefused, ?_, ?_⟩
  · rintro rfl u s₂ hnote
    obtain ⟨hbuilt, hmem, htally⟩ := h.taken hw (incrementCounter x.sCounter)
    rw [← htrace] at hbuilt hmem htally
    have hcount : Tally c { x with sCounter := incrementCounter x.sCounter } s₂.2 := by
      rw [hnote.2]
      exact htally
    refine ⟨⟨hbuilt, hmem⟩, ?_⟩
    split
    · exact Or.inl hcount
    · exact hcount
  · rintro rfl
    rw [Leaves, htrace]
    exact (h.refused hw).2.imp_right fun href => ⟨rfl, href⟩

theorem counted_serialize (key : Buffer) (counter : Int) (payload : Buffer) :
    Counted c (fun x s => Tally c x s.2) (Wrapper.serialize P key counter payload)
      fun w x s => Tally c x s.2 ∧ Sendable w s.2 := by
  intro x s h
  simp only [Wrapper.serialize, sat_bind, Member.sat_random]
  intro iv s₁ hrandom
  obtain ⟨hguar, h₁⟩ := h.step hrandom trivial
  refine ⟨hguar, ?_⟩
  cases iv with
  | none => exact ⟨h₁, Or.inl rfl⟩
  | some iv =>
      dsimp only
      split
      · exact ⟨h₁, Or.inl rfl⟩
      · simp only [sat_bind, Member.sat_note, sat_pure]
        intro u s₂ hnote
        obtain ⟨hguar, h₂⟩ := h₁.step hnote trivial
        refine ⟨hguar, h₂, Or.inr ⟨counter, payload, ?_⟩⟩
        rw [hnote.2, List.getLast?_append_of_ne_nil _ (by simp)]
        rfl

theorem counted_sendPacket (payload : Buffer) :
    Counted c (fun x s => Tally c x s.2) (Member.sendPacket P payload) fun _ x s => Tally c x s.2 :=
  .bind (.get fun _ _ h => h) fun _ => .bind (counted_serialize _ _ _) counted_sendFrame

theorem counted_workerLogout :
    Counted c (fun x s => Tally c x s.2) (Worker.logout P) fun _ x s => Tally c x s.2 := by
  refine .bind (.get fun _ _ h => h) fun session => .bind (counted_serialize _ _ _) fun w => ?_
  refine .bind (P := fun _ x s => Tally c x s.2 ∧ Sendable w s.2) ?_ fun _ =>
    .bind (counted_sendFrame w) fun _ => .pure _ fun _ _ h => h
  exact fun x s h => ⟨⟨h.1.built, h.1.last, h.1.sound⟩, h.2⟩

theorem counted_receiveFrame (n : Nat) :
    Counted c (fun x s => Tally c x s.2) (Member.receiveFrame P n) fun _ x s => Tally c x s.2 := by
  have hquiet : Only Unlogged (fun _ => True) (Member.receiveFrame P n) := by
    unfold Member.receiveFrame
    dsimp only
    split
    · exact .throw trivial
    · refine .bind (.call trivial) fun (received : Option Buffer) => ?_
      cases received with
      | none => exact .pure _
      | some wrapper =>
          exact .bind .get fun session => .bind ((Wrapper.only_deserialize P _ wrapper).mono
            (fun _ => id) fun _ _ => trivial) fun _ => .pure _
  exact quiet_tally.of_only hquiet fun _ _ _ _ => Or.inl

/-- A note between two sends. -/
theorem counted_note (e : Note) :
    Counted c (fun x s => Tally c x s.2) (Member.note e) fun _ x s => Tally c x s.2 :=
  fun _ _ h => (Member.sat_note e _).2 fun _ _ hstep => h.step hstep trivial

theorem counted_checkCounter (counter : Int) (payload wrapper : Buffer) :
    Counted c (fun x s => Tally c x s.2) (Member.checkCounter counter payload wrapper)
      fun _ x s => Tally c x s.2 := by
  refine .bind (.get (P := fun _ x s => Tally c x s.2) fun _ _ h => h) fun session => ?_
  split
  · exact .throw _ fun _ _ => Or.inl
  · exact counted_note _

theorem counted_advanceReceive :
    Counted c (fun x s => Tally c x s.2) Member.advanceReceive fun _ x s => Tally c x s.2 := by
  refine .bind (.get (P := fun _ x s => Tally c x s.2) fun _ _ h => h) fun session => ?_
  refine .bind (P := fun _ x s => Tally c x s.2) ?_ fun _ => .bind (counted_note _) fun _ => ?_
  · exact fun x s h => ⟨h.built, h.last, h.sound⟩
  · split
    · exact .throw _ fun _ _ => Or.inl
    · exact .pure _ fun _ _ h => h

/-- Every function counts what it hands over. -/
def tallying (P : Platform) (c : Int) : Conduct P (Host × List Event) where
  rely := Program.Logged Host.anyEnv
  guar := Unrefused
  ready x s := Tally c x s.2
  opened _ x s := Tally c x s.2
  accepting x s := Tally c x s.2
  left := Leaves c
  left_ready _ _ _ := Or.inl
  left_accepting _ _ := Or.inl
  ready_quiet := quiet_tally
  accepting_quiet := quiet_tally
  garbage _ := fun _ _ h _ _ hstep => h.step hstep trivial
  sendPacket := counted_sendPacket
  receiveFrame n := (counted_receiveFrame n).conseq (fun _ _ => id)
    (fun r x s h => by cases r <;> exact h) fun _ _ _ => id
  checkCounter := counted_checkCounter
  advanceReceive := counted_advanceReceive
  workerLogout := counted_workerLogout.conseq (fun _ _ => id) (fun _ _ _ _ => trivial)
    fun _ _ _ _ => trivial
  closed x s := Tally c x s.2
  close _ _ h := ⟨h.built, h.last, h.sound⟩
  closed_quiet := quiet_tally

/-! ## Whole operations -/

theorem keeps_operation (payload : Buffer) (side : Endpoint) (request : Request) :
    (tallying P c).Keeps (operation P payload side request) := by
  cases side with
  | client =>
      cases request with
      | upload => exact Client.keeps_uploadFile
      | download => exact Client.keeps_downloadFile
      | list => exact Client.keeps_listFiles
      | rename => exact Client.keeps_renameFile
      | delete => exact Client.keeps_deleteFile
      | logout => exact Client.keeps_logout fun _ _ h => ⟨h.built, h.last, h.sound⟩
  | worker =>
      cases request with
      | upload => exact Worker.keeps_uploadFile payload
      | download => exact Worker.keeps_downloadFile payload
      | list => exact Worker.keeps_listFiles
      | rename => exact Worker.keeps_renameFile payload
      | delete => exact Worker.keeps_deleteFile payload
      | logout => exact counted_workerLogout (P := P) (c := c)

theorem mem_of_before {pre : List Event} {e : Event} (h : pre ++ [e] <+: t) : e ∈ t :=
  h.subset (List.mem_append_right _ (List.mem_singleton_self _))

theorem prefix_of_mem {e : Event} (h : e ∈ t) : ∃ pre, pre ++ [e] <+: t := by
  obtain ⟨pre, post, rfl⟩ := List.append_of_mem h
  exact ⟨pre, post, by simp⟩

theorem not_before (hmem : ¬Taken t → (⟨.send [], false⟩ : Event) ∉ t) (hnot : ¬Taken t)
    (pre : List Event) (sent : Bool) : ¬pre ++ [⟨.send [], sent⟩] <+: t := by
  intro hpre
  cases sent with
  | true => exact hnot (mem_of_before hpre)
  | false => exact hmem hnot (mem_of_before hpre)

section

variable {p : Program Sys (Except Exit Int × Session)} {result : Except Exit Int}

/-- At a call. -/
theorem neverCounted_call {o : Sys.Op} {k : Sys.Ans o → Program Sys (Except Exit Int × Session)}
    (hbuilt : Built t) (hmem : ¬Taken t → (⟨.send [], false⟩ : Event) ∉ t) :
    NeverCounted x (.call o k) t ↔ ¬Taken t := by
  constructor
  · intro hnever htaken
    obtain ⟨pre, hpre⟩ := prefix_of_mem htaken
    obtain ⟨-, x', heq⟩ := hnever.abandoned pre true hpre
    cases heq
  · intro hnot
    exact ⟨hbuilt, fun pre sent hpre => absurd hpre (not_before hmem hnot pre sent),
      fun result x' heq => by cases heq⟩

/-- At an end with no refused buffer. -/
theorem Tally.neverCounted_ret {x' : Session} (h : Tally x.sCounter x' t) :
    NeverCounted x (.ret (result, x')) t ↔ ¬Taken t := by
  constructor
  · intro hnever htaken
    obtain ⟨pre, hpre⟩ := prefix_of_mem htaken
    have hlast := h.last
    rw [(hnever.abandoned pre true hpre).1] at hlast
    exact hlast (by simp)
  · intro hnot
    refine ⟨h.built, fun pre sent hpre => ?_, fun result x'' heq => ?_⟩
    · exact absurd hpre (not_before (fun hn => (h.sound hn).1) hnot pre sent)
    · cases heq
      exact (h.sound hnot).2

/-- At the end after a refused buffer. -/
theorem Refused.neverCounted_ret {x' : Session} (h : Refused x.sCounter x' t) :
    NeverCounted x (.ret (.error (.returned 0), x')) t ↔ ¬Taken t := by
  obtain ⟨pre, hpre, hmem⟩ := h.last
  constructor
  · intro hnever htaken
    obtain ⟨pre', hpre'⟩ := prefix_of_mem htaken
    have heq := hpre.symm.trans (hnever.abandoned pre' true hpre').1
    cases (List.append_inj' heq rfl).2
  · intro hnot
    refine ⟨h.built, fun pre' sent hpre' => ⟨?_, x', rfl⟩, fun result x'' heq => ?_⟩
    · rw [hpre] at hpre' hnot
      rcases List.prefix_concat_iff.1 hpre' with heq | hbefore
      · rw [hpre, heq]
      · rw [← hpre] at hnot
        have hnot' : ¬Taken pre := fun htaken => hnot (hpre ▸ htaken.append)
        exact absurd hbefore (not_before (fun _ => hmem hnot) hnot' pre' sent)
    · cases heq
      exact h.sound hnot

end

/-- **A frame that could not be built is not counted** exactly as long as the socket takes no empty
    buffer. -/
theorem never_counted_iff (P : Platform) (payload : Buffer) (side : Endpoint) (request : Request)
    (x : Session) (h h' : Host) (p : Program Sys (Except Exit Int × Session)) (t : List Event)
    (hrun : Program.Reaches (Program.Logged Host.anyEnv)
      (operation P payload side request x, h, []) (p, h', t)) :
    NeverCounted x p t ↔ ¬Taken t := by
  have hstart : Tally x.sCounter x [] := ⟨.nil, by simp, fun _ => ⟨by simp, rfl⟩⟩
  have hreach := Program.Sat.reaches (c := (_, _))
    ((keeps_operation (P := P) payload side request).program (s := (h, [])) hstart) hrun
  cases p with
  | call o k =>
      obtain ⟨⟨hbuilt, hmem⟩, -⟩ := hreach _ ((h'.answer .calm o).2, t ++ [⟨o, (h'.answer .calm o).1⟩])
        ⟨⟨.calm, rfl⟩, rfl⟩
      exact neverCounted_call hbuilt hmem
  | ret y =>
      obtain ⟨result, x'⟩ := y
      cases result with
      | ok n => exact Tally.neverCounted_ret hreach
      | error e =>
          rcases hreach with htally | ⟨rfl, href⟩
          · exact htally.neverCounted_ret
          · exact href.neverCounted_ret

/-- A list that could not be asked for: the socket refuses the empty buffer. -/
theorem never_counted_refused :
    NeverCounted (.start (ascii "user1") (List.replicate 16 0))
      (.ret (.error (.returned 0), .start (ascii "user1") (List.replicate 16 0)))
      [⟨.sys (.random 12), none⟩, ⟨.send [], false⟩] :=
  (never_counted_iff (.aes .little) [] .client .list (.start (ascii "user1") (List.replicate 16 0))
    (.start .root ⟨[], false, false⟩) _ _ _ (Host.reaches_events [.fail, .fail] _ [])).2 (by
      show ¬(⟨.send [], true⟩ : Event) ∈ [⟨.sys (.random 12), none⟩, ⟨.send [], false⟩]
      intro hmem
      rcases hmem with _ | ⟨_, _ | ⟨_, hmem⟩⟩
      cases hmem)

/-- The socket takes it, and the client counts it and waits for the answer. -/
theorem empty_frame_counted :
    ¬∀ (P : Platform) (payload : Buffer) (side : Endpoint) (request : Request) (x : Session)
      (h h' : Host) (p : Program Sys (Except Exit Int × Session)) (t : List Event),
      Program.Reaches (Program.Logged Host.anyEnv)
        (operation P payload side request x, h, []) (p, h', t) → NeverCounted x p t := by
  intro hall
  have hnever := hall (.aes .little) [] .client .list (.start (ascii "user1") (List.replicate 16 0))
    (.start .root ⟨[], false, false⟩) _ _ _ (Host.reaches_events [.fail, .calm] _ [])
  obtain ⟨-, x', heq⟩ := hnever.abandoned [⟨.sys (.random 12), none⟩] true
    (List.prefix_refl _)
  cases heq

end Unbuilt

end CloudStorage
