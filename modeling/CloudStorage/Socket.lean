import CloudStorage.Channel
import CloudStorage.Interaction.Link
import Mathlib.Data.List.Induction

set_option autoImplicit false

/-! # The socket below the frames

`sendData`, `receiveData`, `sendSize` and `receiveSize` of `Util.cpp`, over a stream of bytes. The
socket may transfer any number of bytes up to the length it is asked for, or fail; the four functions
test the number that it returns in three different ways, and only `sendSize` compares it with the
length.

The last section leads up to the calls of `Host` and of `Link`, which hand over whole blocks: what the
functions return, short or not, is an answer of the machine, and without short transfers the streams
are a reliable link. -/

namespace CloudStorage

open Interaction

theorem Endpoint.peer_peer (e : Endpoint) : e.peer.peer = e := by
  cases e with
  | client => rfl
  | worker => rfl

namespace Socket

/-! ## The functions -/

/-- What the socket does with a call: it fails, or it transfers this many bytes, as far as there are
    so many. -/
abbrev Behaviour : Type := Option Nat

/-- `send`: what it returns, and what it puts on the stream. -/
def send (b : Behaviour) (data : Buffer) : Int × Buffer :=
  match b with
  | none => (-1, [])
  | some n => ((data.take n).length, data.take n)

/-- `recv` into a buffer: what it returns, the buffer and the stream after it. -/
def recv (b : Behaviour) (buffer stream : Buffer) : Int × Buffer × Buffer :=
  match b with
  | none => (-1, buffer, stream)
  | some n =>
    let got := (stream.take buffer.length).take n
    (got.length, got ++ buffer.drop got.length, stream.drop got.length)

/-- `sendData`: its result, and the stream after it. -/
def sendData (b : Behaviour) (data stream : Buffer) : Bool × Buffer :=
  let r := send b data
  (r.1 != -1, stream ++ r.2)

/-- `sendSize`. -/
def sendSize (order : ByteOrder) (b : Behaviour) (number : Nat) (stream : Buffer) : Bool × Buffer :=
  let r := send b (sizeImage order number)
  (!(r.1 != 8 || r.1 == -1), stream ++ r.2)

/-- `receiveData`: its result, and the buffer and the stream after it. -/
def receiveData (b : Behaviour) (buffer stream : Buffer) : Bool × Buffer × Buffer :=
  let r := recv b buffer stream
  (!decide (r.1 ≤ 0), r.2)

/-- `receiveSize`, into the eight bytes of `number`. -/
def receiveSize (order : ByteOrder) (b : Behaviour) (number : Nat) (stream : Buffer) :
    Bool × Buffer × Buffer :=
  let r := recv b (sizeImage order number) stream
  (!decide (r.1 ≤ 0), r.2)

/-! ## Short transfers -/

/-- A send of fewer bytes than it was given. -/
def shortSend (b : Behaviour) (data : Buffer) : Bool := b.any (· < data.length)

/-- How many bytes a `recv` transfers. -/
def received (b : Behaviour) (buffer stream : Buffer) : Nat :=
  b.elim 0 fun n => min n (min buffer.length stream.length)

/-- A receive of some bytes, but of fewer than there is room for. -/
def shortReceive (b : Behaviour) (buffer stream : Buffer) : Bool :=
  decide (0 < received b buffer stream ∧ received b buffer stream < buffer.length)

variable {b : Behaviour} {data buffer stream : Buffer}

/-- `sendData` is all or nothing unless the send is short. -/
theorem sendData_iff : ((sendData b data stream).1 = true →
    (sendData b data stream).2 = stream ++ data) ↔ shortSend b data = false := by
  cases b with
  | none => simp [sendData, send, shortSend]
  | some n =>
      have hok : (((data.take n).length : Int) != -1) = true := bne_iff_ne.mpr (by omega)
      simp only [sendData, send, shortSend, Option.any_some, hok, List.append_cancel_left_eq,
        List.take_eq_self_iff, forall_const, decide_eq_false_iff_not, Nat.not_lt]

/-- `sendSize` is all or nothing. -/
theorem sendSize_whole (order : ByteOrder) (number : Nat) :
    (sendSize order b number stream).1 = true →
      (sendSize order b number stream).2 = stream ++ sizeImage order number := by
  cases b with
  | none => simp [sendSize, send]
  | some n =>
      intro hok
      simp only [sendSize, send, List.length_take, length_sizeImage, Bool.not_eq_true', Bool.or_eq_false_iff,
        bne_eq_false_iff_eq] at hok
      have hn : 8 ≤ n := by omega
      simp [sendSize, send, hn]

/-- What a `recv` that does not fail leaves behind. -/
theorem recv_some (n : Nat) : recv (some n) buffer stream =
    (↑(received (some n) buffer stream),
      stream.take (received (some n) buffer stream) ++ buffer.drop (received (some n) buffer stream),
      stream.drop (received (some n) buffer stream)) := by
  have hlen : ((stream.take buffer.length).take n).length = received (some n) buffer stream := by
    simp only [List.length_take, received, Option.elim_some]
  have htake : (stream.take buffer.length).take n = stream.take (received (some n) buffer stream) := by
    rw [List.take_take, List.take_eq_take_iff]
    simp only [received, Option.elim_some]
    omega
  rw [htake] at hlen
  simp only [recv, htake, hlen]

/-- The buffer keeps its length. -/
theorem length_recv : (recv b buffer stream).2.1.length = buffer.length := by
  cases b with
  | none => rfl
  | some n =>
      have hle : received (some n) buffer stream ≤ min buffer.length stream.length :=
        Nat.min_le_right _ _
      rw [recv_some, List.length_append, List.length_take, List.length_drop]
      omega

/-- A receive is all or nothing unless it is short. -/
theorem receive_iff : ((!decide ((recv b buffer stream).1 ≤ 0)) = true →
    stream = (recv b buffer stream).2.1 ++ (recv b buffer stream).2.2) ↔
      shortReceive b buffer stream = false := by
  cases b with
  | none => simp [recv, shortReceive, received]
  | some n =>
      rw [recv_some, shortReceive]
      generalize hk : received (some n) buffer stream = k
      have hstream : k ≤ stream.length := by
        rw [← hk]
        simp only [received, Option.elim_some]
        omega
      simp only [decide_eq_false_iff_not, not_and, not_lt, Bool.not_eq_true']
      constructor
      · intro hwhole hpos
        have hlen := congrArg List.length (hwhole (by omega))
        simp only [List.length_append, List.length_take, List.length_drop] at hlen
        omega
      · intro hfull hpos
        have hle : buffer.length ≤ k := hfull (by omega)
        simp [List.drop_eq_nil_of_le hle]

/-! ## A session over two streams -/

/-- A call of one of the four functions. -/
inductive Call
  | sendData (data : Buffer)
  | sendSize (number : Nat)
  | receiveData (buffer : Buffer)
  | receiveSize (number : Nat)
  deriving DecidableEq, Repr

/-- A call by one end, and what the socket does with it. -/
structure Move where
  side : Endpoint
  call : Call
  behaviour : Behaviour

/-- The bytes on their way to each end. -/
abbrev Streams : Type := Endpoint → Buffer

/-- What a call returns, the block that it was given or that it has filled, and the streams after
    it. -/
structure Outcome where
  ok : Bool
  block : Buffer
  streams : Streams

namespace Move

variable (order : ByteOrder)

def sends (m : Move) : Bool :=
  match m.call with
  | .sendData _ | .sendSize _ => true
  | .receiveData _ | .receiveSize _ => false

/-- A send puts bytes on the stream to the peer, a receive takes them off the stream to its own end. -/
def perform (m : Move) (s : Streams) : Outcome :=
  match m.call with
  | .sendData data =>
    let r := Socket.sendData m.behaviour data (s m.side.peer)
    ⟨r.1, data, Function.update s m.side.peer r.2⟩
  | .sendSize number =>
    let r := Socket.sendSize order m.behaviour number (s m.side.peer)
    ⟨r.1, sizeImage order number, Function.update s m.side.peer r.2⟩
  | .receiveData buffer =>
    let r := Socket.receiveData m.behaviour buffer (s m.side)
    ⟨r.1, r.2.1, Function.update s m.side r.2.2⟩
  | .receiveSize number =>
    let r := Socket.receiveSize order m.behaviour number (s m.side)
    ⟨r.1, r.2.1, Function.update s m.side r.2.2⟩

/-- If the call returns true: the whole argument was put on the stream, and the whole destination
    holds the next bytes of the stream. -/
def AllOrNothing (m : Move) (s : Streams) : Prop :=
  (m.perform order s).ok = true →
    if m.sends then
      (m.perform order s).streams m.side.peer = s m.side.peer ++ (m.perform order s).block
    else s m.side = (m.perform order s).block ++ (m.perform order s).streams m.side

/-- The end that the bytes of the call are for. -/
def target (m : Move) : Endpoint := if m.sends then m.side.peer else m.side

theorem perform_frame (m : Move) (s : Streams) {e : Endpoint} (he : e ≠ m.target) :
    (m.perform order s).streams e = s e := by
  obtain ⟨side, call, behaviour⟩ := m
  cases call with
  | sendData data => exact Function.update_of_ne he _ _
  | sendSize number => exact Function.update_of_ne he _ _
  | receiveData buffer => exact Function.update_of_ne he _ _
  | receiveSize number => exact Function.update_of_ne he _ _

/-- A short transfer that is not noticed. -/
def short (m : Move) (s : Streams) : Bool :=
  match m.call with
  | .sendData data => shortSend m.behaviour data
  | .sendSize _ => false
  | .receiveData buffer => shortReceive m.behaviour buffer (s m.side)
  | .receiveSize number => shortReceive m.behaviour (sizeImage order number) (s m.side)

theorem allOrNothing_iff (m : Move) (s : Streams) :
    m.AllOrNothing order s ↔ m.short order s = false := by
  obtain ⟨side, call, behaviour⟩ := m
  cases call with
  | sendData data => simpa [AllOrNothing, perform, sends, short] using sendData_iff
  | sendSize number => simpa [AllOrNothing, perform, sends, short] using sendSize_whole order number
  | receiveData buffer =>
      simpa [AllOrNothing, perform, sends, short, Socket.receiveData] using receive_iff
  | receiveSize number =>
      simpa [AllOrNothing, perform, sends, short, Socket.receiveSize] using receive_iff

end Move

/-- Both streams, with the blocks that each end has sent and received by calls that returned true. -/
structure Conversation where
  streams : Streams
  sent : Endpoint → List Buffer
  received : Endpoint → List Buffer
  /-- Every call has returned true. -/
  succeeded : Bool

namespace Conversation

variable (order : ByteOrder)

/-- A conversation over streams that hold these bytes. -/
def start (s : Streams) : Conversation := ⟨s, fun _ => [], fun _ => [], true⟩

/-- The conversation after a call. -/
def after (c : Conversation) (m : Move) : Conversation :=
  let r := m.perform order c.streams
  let logged (log : Endpoint → List Buffer) :=
    if r.ok then Function.update log m.side (log m.side ++ [r.block]) else log
  if m.sends then ⟨r.streams, logged c.sent, c.received, c.succeeded && r.ok⟩
  else ⟨r.streams, c.sent, logged c.received, c.succeeded && r.ok⟩

/-- The conversation after some calls. -/
def run (s : Streams) (moves : List Move) : Conversation := moves.foldl (after order) (start s)

variable {order}

/-- The bytes that were put on a stream are those that were taken off it and those that are left. -/
def InOrder (s : Streams) (c : Conversation) : Prop :=
  ∀ e : Endpoint, s e ++ (c.sent e.peer).flatten = (c.received e).flatten ++ c.streams e

theorem inOrder_start (s : Streams) : InOrder s (start s) := by
  intro e
  simp [start]

/-- A call that is all or nothing, and returns true, keeps the order. -/
theorem InOrder.after {s : Streams} {c : Conversation} {m : Move} (h : InOrder s c)
    (hwhole : m.AllOrNothing order c.streams) (hok : (m.perform order c.streams).ok = true) :
    InOrder s (c.after order m) := by
  intro e
  have hall := hwhole hok
  have hsame := Move.perform_frame order m c.streams (e := e)
  simp only [Conversation.after, hok, if_true]
  by_cases hsends : m.sends = true
  · rw [if_pos hsends] at hall ⊢
    dsimp only
    simp only [Move.target, if_pos hsends] at hsame
    by_cases he : e = m.side.peer
    · subst he
      rw [Endpoint.peer_peer] at *
      rw [Function.update_self, List.flatten_append, List.flatten_singleton, hall, ← List.append_assoc,
        ← List.append_assoc, ← h m.side.peer, Endpoint.peer_peer]
    · have hother : e.peer ≠ m.side := by
        intro heq
        rw [← heq, Endpoint.peer_peer] at he
        exact he rfl
      rw [Function.update_of_ne hother, hsame he]
      exact h e
  · rw [if_neg hsends] at hall ⊢
    dsimp only
    simp only [Move.target, if_neg hsends] at hsame
    by_cases he : e = m.side
    · subst he
      rw [Function.update_self, List.flatten_append, List.flatten_singleton, List.append_assoc, ← hall]
      exact h m.side
    · rw [Function.update_of_ne he, hsame he]
      exact h e

/-- Blocks of the lengths of those that were sent are those. -/
theorem prefix_of_flatten {xs ys : List Buffer} {rest : Buffer} (h : ys.flatten = xs.flatten ++ rest)
    (hlen : xs.map List.length <+: ys.map List.length) : xs <+: ys := by
  induction xs generalizing ys with
  | nil => exact List.nil_prefix
  | cons x xs ih =>
      cases ys with
      | nil => simp at hlen
      | cons y ys =>
          rw [List.map_cons, List.map_cons, List.cons_prefix_cons] at hlen
          rw [List.flatten_cons, List.flatten_cons, List.append_assoc] at h
          obtain ⟨rfl, htail⟩ := List.append_inj h hlen.1.symm
          exact List.cons_prefix_cons.2 ⟨rfl, ih htail hlen.2⟩

/-- The receiver's frame boundaries are the sender's: it has the bytes in order, and where it asked for
    the lengths of what was sent, it has the blocks that were sent. -/
structure Coincide (s : Streams) (c : Conversation) : Prop where
  bytes : InOrder s c
  boundaries : ∀ e : Endpoint, s e = [] →
    (c.received e).map List.length <+: (c.sent e.peer).map List.length → c.received e <+: c.sent e.peer

theorem InOrder.coincide {s : Streams} {c : Conversation} (h : InOrder s c) : Coincide s c where
  bytes := h
  boundaries := by
    intro e hs hlen
    have hbytes := h e
    rw [hs, List.nil_append] at hbytes
    exact prefix_of_flatten hbytes hlen

theorem run_append (s : Streams) (moves : List Move) (m : Move) :
    run order s (moves ++ [m]) = (run order s moves).after order m := by
  simp [run]

theorem succeeded_after (c : Conversation) (m : Move) :
    (c.after order m).succeeded = (c.succeeded && (m.perform order c.streams).ok) := by
  simp only [Conversation.after]
  split <;> rfl

/-- By induction on the calls: as long as all of them return true, the order is kept. -/
theorem inOrder_run {s : Streams} {moves : List Move}
    (hwhole : ∀ before m, before ++ [m] <+: moves → m.AllOrNothing order (run order s before).streams)
    (hok : (run order s moves).succeeded = true) : InOrder s (run order s moves) := by
  induction moves using List.reverseRecOn with
  | nil => exact inOrder_start s
  | append_singleton moves m ih =>
      rw [run_append, succeeded_after, Bool.and_eq_true] at hok
      rw [run_append]
      have hbefore := ih (fun before m' hpre => hwhole before m' (hpre.trans (List.prefix_append _ _))) hok.1
      exact hbefore.after (hwhole moves m (List.prefix_refl _)) hok.2

end Conversation

/-- The framing of a session: each call is all or nothing, and where all of them return true, the frame
    boundaries coincide. -/
structure Framing (order : ByteOrder) (s : Streams) (moves : List Move) : Prop where
  whole : ∀ before m, before ++ [m] <+: moves →
    m.AllOrNothing order (Conversation.run order s before).streams
  coincide : (Conversation.run order s moves).succeeded = true →
    Conversation.Coincide s (Conversation.run order s moves)

/-- **Framing is all or nothing** exactly in the sessions without a short transfer that goes
    unnoticed. -/
theorem framing_iff (order : ByteOrder) (s : Streams) (moves : List Move) :
    Framing order s moves ↔ ∀ before m, before ++ [m] <+: moves →
      m.short order (Conversation.run order s before).streams = false := by
  constructor
  · intro h before m hpre
    exact (m.allOrNothing_iff order _).1 (h.whole before m hpre)
  · intro h
    have hwhole : ∀ before m, before ++ [m] <+: moves →
        m.AllOrNothing order (Conversation.run order s before).streams := fun before m hpre =>
      (m.allOrNothing_iff order _).2 (h before m hpre)
    exact ⟨hwhole, fun hok => (Conversation.inOrder_run hwhole hok).coincide⟩

/-- A send of one byte of two, which `sendData` takes for a success. -/
theorem short_send_unnoticed :
    ¬∀ (order : ByteOrder) (s : Streams) (moves : List Move), Framing order s moves := by
  intro hall
  have hnone := (framing_iff .little (fun _ => []) [⟨.client, .sendData [1, 2], some 1⟩]).1
    (hall _ _ _) [] _ (List.prefix_refl _)
  exact absurd hnone (by decide)

/-! ## The calls of the machine -/

/-- The machine may take a send or refuse it. -/
theorem anyEnv_send (h : Host) (data : Buffer) (ok : Bool) :
    Host.anyEnv h (.send data) ok (if ok then h.put data else h) := by
  refine ⟨{ Choice.calm with fault := !ok }, ?_⟩
  cases ok with
  | true => rfl
  | false => rfl

/-- What `sendData` and `sendSize` return is an answer of the machine to a send. -/
theorem anyEnv_sendData (h : Host) (b : Behaviour) (data stream : Buffer) :
    Host.anyEnv h (.send data) (sendData b data stream).1
      (if (sendData b data stream).1 then h.put data else h) :=
  anyEnv_send h data _

theorem anyEnv_sendSize (order : ByteOrder) (h : Host) (b : Behaviour) (number : Nat)
    (stream : Buffer) :
    Host.anyEnv h (.send (sizeImage order number)) (sendSize order b number stream).1
      (if (sendSize order b number stream).1 then h.put (sizeImage order number) else h) :=
  anyEnv_send h _ _

/-- What `receiveData` returns, with the buffer that it leaves, is an answer of the machine to a
    receive. -/
theorem anyEnv_receiveData (h : Host) (b : Behaviour) (buffer stream : Buffer) :
    Host.anyEnv h (.recv buffer.length) (if (receiveData b buffer stream).1 then
      some (receiveData b buffer stream).2.1 else none : Option Buffer) h := by
  refine ⟨⟨!(receiveData b buffer stream).1, (receiveData b buffer stream).2.1, 0, CryptoCall.refused⟩, ?_⟩
  have hlen : (receiveData b buffer stream).2.1.length = buffer.length := length_recv
  simp only [Host.answer, fit_of_length hlen]
  cases hok : (receiveData b buffer stream).1 with
  | false => simp
  | true =>
      have hne : buffer.length ≠ 0 := by
        intro hzero
        obtain rfl : buffer = [] := List.eq_nil_of_length_eq_zero hzero
        cases b with
        | none => cases hok
        | some n => simp [receiveData, recv] at hok
      simp [hne]

/-- A receive that is not short is a receive of the reliable link. -/
theorem pull_of_receiveData {b : Behaviour} {buffer : Buffer} {q : List Buffer}
    (hok : (receiveData b buffer q.flatten).1 = true)
    (hshort : shortReceive b buffer q.flatten = false) :
    pull buffer.length q = some ((receiveData b buffer q.flatten).2.1, dropSymbols buffer.length q) := by
  have hwhole : q.flatten = (receiveData b buffer q.flatten).2.1 ++
      (receiveData b buffer q.flatten).2.2 := receive_iff.2 hshort hok
  have hlen : (receiveData b buffer q.flatten).2.1.length = buffer.length := length_recv
  have htake : q.flatten.take buffer.length = (receiveData b buffer q.flatten).2.1 := by
    conv_lhs => rw [hwhole, ← hlen]
    exact List.take_left
  have hle : buffer.length ≤ q.flatten.length := by
    rw [hwhole, List.length_append, hlen]
    exact Nat.le_add_right _ _
  rw [pull, if_pos hle, htake]

end Socket

end CloudStorage
