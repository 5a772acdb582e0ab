import CloudStorage.AesCcm
import CloudStorage.Calls

set_option autoImplicit false

/-! # Refused downloads

`Worker::download_file` acknowledges a file that it cannot serve with code 1 and then goes on as if
it served it: the number of chunks is computed from the size in its `File` object, which is the
file's if `File::read` got that far, and whatever the member happened to be if it did not. The first
chunk then throws, because the stream is not open, and nothing catches the exception.

The run is compared with its calls: `sizeLeft` is the size that these have left in the object. -/

namespace CloudStorage

open Interaction Interaction.Routine

namespace Worker

/-- A call with its answer. -/
abbrev Event : Type := Program.Event Sys

/-- The size of the file object after the calls: the answer of `fs::file_size`, or else what the
    member was before it was written. -/
def sizeLeft (t : List Event) : Nat :=
  t.foldl (fun size e => match e with
    | ⟨.sys (.garbage .fileSize), unset⟩ => (unset : Nat)
    | ⟨.sys (.file (.fileSize _)), found⟩ => (found : Option Nat).getD size
    | _ => size) 0

/-- The download was refused. -/
def refuses : Event → Bool
  | ⟨.sys (.note (.refused _)), _⟩ => true
  | _ => false

/-- A frame was handed to the socket, which took it. -/
def sends : Event → Bool
  | ⟨.send w, sent⟩ => (sent : Bool) && w != []
  | _ => false

/-- No chunk follows from a file of this size. -/
def NoChunks (size : Nat) : Prop := numFileChunks size = 0 ∧ lastChunkSize size = 0

instance (size : Nat) : Decidable (NoChunks size) := inferInstanceAs (Decidable (_ ∧ _))

/-- The function returns with its acknowledgement as the only frame it sent. -/
structure EndsWithAck (P : Platform) (x x' : Session) (h h' : Host) (result : Except Exit Int) :
    Prop where
  returns : result = .ok 1
  counter : x'.sCounter = x.sCounter + 1
  ack : ∃ iv w, Wrapper.frame P x.sessionKey iv x.sCounter ((DownloadAck 1 0).serialize P.order) =
    some w ∧ h'.wire = h.wire ++ [w]

/-! ## Before the acknowledgement -/

/-- Any environment, with the calls kept. -/
abbrev Recorded : Transition Sys (Host × List Event) := Program.Logged Host.anyEnv

/-- Nothing is asked of the calls. -/
abbrev AnyCall : Transition Sys (Host × List Event) := fun _ _ _ _ => True

variable {P : Platform} {x x₀ : Session} {h₀ : Host} {size : Nat} {t : List Event}

/-- Nothing was sent and nothing refused, and `size` is in the file object. -/
structure Before (x₀ : Session) (h₀ : Host) (size : Nat) (x : Session) (s : Host × List Event) :
    Prop where
  object : x = x₀
  wire : s.1.wire = h₀.wire
  unsent : ∀ e ∈ s.2, sends e = false
  open_ : ∀ e ∈ s.2, refuses e = false
  left : sizeLeft s.2 = size

/-- A call that sends nothing, notes nothing and leaves the size. -/
def Silent : Sys.Op → Prop
  | .send _ => False
  | .sys (.note _) => False
  | .sys (.garbage _) => False
  | .sys (.file (.fileSize _)) => False
  | _ => True

theorem sizeLeft_append (t : List Event) (e : Event) : sizeLeft (t ++ [e]) = match e with
    | ⟨.sys (.garbage .fileSize), unset⟩ => (unset : Nat)
    | ⟨.sys (.file (.fileSize _)), found⟩ => (found : Option Nat).getD (sizeLeft t)
    | _ => sizeLeft t := by
  rw [sizeLeft, List.foldl_append]
  rfl

theorem Silent.marks {o : Sys.Op} (ho : Silent o) (a : Sys.Ans o) (t : List Event) :
    sends ⟨o, a⟩ = false ∧ refuses ⟨o, a⟩ = false ∧ sizeLeft (t ++ [⟨o, a⟩]) = sizeLeft t := by
  rw [sizeLeft_append]
  cases o with
  | send => exact False.elim ho
  | recv => exact ⟨rfl, rfl, rfl⟩
  | sys o =>
      cases o with
      | note => exact False.elim ho
      | garbage => exact False.elim ho
      | file c =>
          cases c with
          | fileSize => exact False.elim ho
          | _ => exact ⟨rfl, rfl, rfl⟩
      | _ => exact ⟨rfl, rfl, rfl⟩

/-- The wire is changed by a send alone. -/
theorem wire_of_silent {h h' : Host} {o : Sys.Op} {a : Sys.Ans o} (ho : ∀ d, o ≠ .send d)
    (hstep : Host.anyEnv h o a h') : h'.wire = h.wire := by
  obtain ⟨c, hc⟩ := hstep
  obtain rfl : (h.answer c o).2 = h' := congrArg Prod.snd hc
  cases o with
  | send d => exact absurd rfl (ho d)
  | recv => rfl
  | sys o => cases o <;> rfl

/-- A call before the acknowledgement, given what it does to the size. -/
theorem Before.step {s s' : Host × List Event} {o : Sys.Op} {a : Sys.Ans o} {size' : Nat}
    (h : Before x₀ h₀ size x s) (ho : ∀ d, o ≠ .send d) (hstep : Recorded s o a s')
    (hsends : sends ⟨o, a⟩ = false) (hrefuses : refuses ⟨o, a⟩ = false)
    (hsize : sizeLeft (s.2 ++ [⟨o, a⟩]) = size') : Before x₀ h₀ size' x s' := by
  constructor
  · exact h.object
  · exact (wire_of_silent ho hstep.1).trans h.wire
  · exact hstep.forall h.unsent hsends
  · exact hstep.forall h.open_ hrefuses
  · rw [hstep.2, hsize]

theorem Before.silent {s s' : Host × List Event} {o : Sys.Op} {a : Sys.Ans o}
    (h : Before x₀ h₀ size x s) (ho : Silent o) (hstep : Recorded s o a s') :
    Before x₀ h₀ size x s' := by
  obtain ⟨hsends, hrefuses, hsize⟩ := ho.marks a s.2
  have hnot : ∀ d, o ≠ .send d := by
    intro d heq
    subst heq
    exact ho
  exact h.step hnot hstep hsends hrefuses (hsize.trans h.left)

/-- Functions that make silent calls keep the state. -/
theorem keeps_silent {α : Type} {A : Sys.Op → Prop} {X : Exit → Prop} {r : Member α}
    (hr : Only A X r) (hA : ∀ o, A o → Silent o) :
    Triple Recorded AnyCall (Before x₀ h₀ size) r (fun _ => Before x₀ h₀ size)
      fun e x s => X e ∧ Before x₀ h₀ size x s :=
  hr.triple fun _ _ o _ _ ho h hstep => ⟨trivial, h.silent (hA o ho) hstep⟩

/-- The stream of a refused file is not open. -/
def NotOpened (f : File) : Prop := ∀ handle, f.input ≠ .opened handle

/-- `File::read` leaves the size that its calls tell, and an open stream only without an error. -/
theorem triple_read (f : File) (hf : NotOpened f) (path : Buffer) :
    Triple Recorded AnyCall (Before x₀ h₀ f.fileSize) (f.read path)
      (fun r x s => Before x₀ h₀ r.1.fileSize x s ∧ (r.2.isSome = true → NotOpened r.1))
      fun _ _ _ => False := by
  have hexists : Triple Recorded AnyCall (Before x₀ h₀ f.fileSize)
      (Member.attempt (File.exists path)) (fun _ => Before x₀ h₀ f.fileSize) fun _ _ _ => False :=
    (keeps_silent (Member.only_attempt (X := fun _ => False) (File.only_exists path)) (by
      intro o ho
      cases o with
      | sys o =>
          cases o with
          | file c =>
              obtain rfl : c = .stat path := ho
              trivial
          | _ => exact False.elim ho
      | _ => exact False.elim ho)).conseq (fun _ _ => id) (fun _ _ _ => id) fun _ _ _ h => h.1
  apply Triple.bind hexists
  intro found
  rcases found with e | _ | _
  · exact fun _ _ h => ⟨h, fun _ => hf⟩
  · exact fun _ _ h => ⟨h, fun _ => hf⟩
  · intro x s h
    refine (sat_bind _ _).2 ((sat_call _ _).2 fun (found : Option Nat) s₁ hstep => ⟨trivial, ?_⟩)
    have h₁ : Before x₀ h₀ (found.getD f.fileSize) x s₁ := by
      apply h.step (fun d heq => by cases heq) hstep rfl rfl
      rw [sizeLeft_append, ← h.left]
    cases found with
    | none => exact ⟨h₁, fun _ => hf⟩
    | some size =>
        dsimp only
        split
        · refine (sat_bind _ _).2 ((sat_call _ _).2 fun (handle : Option Nat) s₂ hstep' =>
            ⟨trivial, ?_⟩)
          have h₂ : Before x₀ h₀ size x s₂ := h₁.silent (o := .sys (.file (.openRead path))) trivial hstep'
          cases handle with
          | none => exact ⟨h₂, fun _ _ => by simp⟩
          | some handle => exact ⟨h₂, fun herror => by cases herror⟩
        · exact ⟨h₁, fun _ => hf⟩

/-! ## The acknowledgement and what follows -/

variable {s s' : Host × List Event}

/-- Nothing was refused. -/
def Unrefused (_ : Session) (s : Host × List Event) : Prop := ∀ e ∈ s.2, refuses e = false

theorem Unrefused.step {o : Sys.Op} {a : Sys.Ans o} (h : Unrefused x s) (ho : refuses ⟨o, a⟩ = false)
    (hstep : Recorded s o a s') (x' : Session) : Unrefused x' s' :=
  hstep.forall h ho

/-- `r` refuses nothing. -/
abbrev Serves {α : Type} (r : Member α) : Prop :=
  Triple Recorded AnyCall Unrefused r (fun _ => Unrefused) fun _ => Unrefused

theorem serves_call {o : Sys.Op} (ho : ∀ a, refuses ⟨o, a⟩ = false) :
    Serves (Routine.call o : Member (Sys.Ans o)) := fun _ _ h =>
  (sat_call o _).2 fun a _ hstep => ⟨trivial, h.step (ho a) hstep _⟩

theorem serves_throw {α : Type} (e : Exit) : Serves (Routine.throw e : Member α) := fun _ _ h => h

theorem serves_sendFrame (w : Buffer) : Serves (Member.sendFrame w) := by
  apply Triple.bind (serves_call (o := .send w) fun _ => rfl)
  intro sent
  have htest : Serves (Routine.require sent (.returned 0) : Member Unit) := fun _ _ h =>
    (sat_require sent _ _).2 ⟨fun _ => h, fun _ => h⟩
  apply Triple.bind htest
  intro _ x s h
  refine (sat_bind _ _).2 ((sat_bind _ _).2 ((sat_bind _ _).2 fun (_ : Unit) s₁ hstep => ⟨trivial, ?_⟩))
  have h₁ := h.step rfl hstep { x with sCounter := incrementCounter x.sCounter }
  split
  · exact h₁
  · exact h₁

theorem serves_sendPacket (payload : Buffer) : Serves (Member.sendPacket P payload) := by
  apply Triple.bind (Triple.get fun _ _ h => h)
  intro x₀
  apply Triple.bind _ serves_sendFrame
  apply Triple.bind (serves_call (o := .sys (.random Wrapper.ivLength)) fun _ => rfl)
  intro (iv : Option Buffer)
  cases iv with
  | none => exact Triple.pure _ fun _ _ h => h
  | some iv =>
      dsimp only
      split
      · exact Triple.pure _ fun _ _ h => h
      · rename_i w _
        exact Triple.bind (serves_call (o := .sys (.note (.sealed x₀.sCounter payload w))) fun _ => rfl)
          fun _ => Triple.pure _ fun _ _ h => h

theorem serves_sendChunk (file : File) (n : Nat) : Serves (Member.sendChunk P DownloadM2 file n) := by
  apply Triple.bind (P := fun _ => Unrefused)
  · apply ((file.only_readChunk n).triple _).conseq (fun _ _ => id) (fun _ _ _ => id) fun _ _ _ h => h.2
    intro x s o a s' ho h hstep
    refine ⟨trivial, h.step ?_ hstep x⟩
    cases o with
    | sys o =>
        cases o with
        | file => rfl
        | _ => exact False.elim ho
    | _ => exact False.elim ho
  · intro chunk
    split
    · exact serves_throw _
    · exact serves_sendPacket _

theorem serves_sendFile (file : File) : Serves (sendFile P file) := by
  have hchunks : ∀ n, Serves (Member.sendChunks P DownloadM2 file n) := by
    intro n
    induction n with
    | zero => exact Triple.pure _ fun _ _ h => h
    | succ n ih => exact Triple.bind (serves_sendChunk file _) fun _ => ih
  have hlast : ∀ n, Serves (Member.sendLastChunk P DownloadM2 file n) := by
    intro n
    unfold Member.sendLastChunk
    split
    · exact serves_sendChunk file n
    · exact Triple.pure _ fun _ _ h => h
  apply Triple.bind (hchunks _)
  intro _
  exact Triple.bind (hlast _) fun _ => Triple.pure _ fun _ _ h => h

/-- The download is refused and nothing is sent yet. -/
structure Refusing (x₀ : Session) (h₀ : Host) (size : Nat) (x : Session) (s : Host × List Event) :
    Prop where
  object : x = x₀
  wire : s.1.wire = h₀.wire
  unsent : ∀ e ∈ s.2, sends e = false
  left : sizeLeft s.2 = size

/-- The counter has moved on; the acknowledgement is sent, or there was none to send. -/
structure Acked (P : Platform) (x₀ : Session) (h₀ : Host) (size : Nat) (x : Session)
    (s : Host × List Event) : Prop where
  counter : x.sCounter = incrementCounter x₀.sCounter
  counts : incrementCounter x₀.sCounter ≠ -1
  left : sizeLeft s.2 = size
  ack : (∃ iv w, Wrapper.frame P x₀.sessionKey iv x₀.sCounter
      ((DownloadAck 1 0).serialize P.order) = some w ∧ s.1.wire = h₀.wire ++ [w] ∧
        ∃ e ∈ s.2, sends e = true) ∨
    (s.1.wire = h₀.wire ∧ ∀ e ∈ s.2, sends e = false)

/-- An early `return`: nothing was sent, or the counter is at its end. -/
def Unacked (x₀ : Session) (e : Exit) (_ : Session) (s : Host × List Event) : Prop :=
  ∃ n, e = .returned n ∧ n ≠ 1 ∧
    ((∀ e ∈ s.2, sends e = false) ∨ incrementCounter x₀.sCounter = -1)

theorem Refusing.note {n : Note} {u : Unit} (h : Refusing x₀ h₀ size x s)
    (hstep : Recorded s (.sys (.note n)) u s') : Refusing x₀ h₀ size x s' := by
  constructor
  · exact h.object
  · exact (wire_of_silent (fun d heq => by cases heq) hstep.1).trans h.wire
  · exact hstep.forall h.unsent rfl
  · rw [hstep.2, sizeLeft_append]
    exact h.left

theorem Before.refusing (h : Before x₀ h₀ size x s) : Refusing x₀ h₀ size x s :=
  ⟨h.object, h.wire, h.unsent, h.left⟩

/-- What `Wrapper::serialize` returns: the frame of the payload, or nothing. -/
def FrameOrNil (P : Platform) (x₀ : Session) (payload w : Buffer) : Prop :=
  w = [] ∨ ∃ iv, iv.length = Wrapper.ivLength ∧
    Wrapper.frame P x₀.sessionKey iv x₀.sCounter payload = some w

theorem triple_serialize (payload : Buffer) :
    Triple Recorded AnyCall (Refusing x₀ h₀ size)
      (Wrapper.serialize P x₀.sessionKey x₀.sCounter payload)
      (fun w x s => Refusing x₀ h₀ size x s ∧ FrameOrNil P x₀ payload w) fun _ _ _ => False := by
  intro x s h
  refine (sat_bind _ _).2 ((sat_call _ _).2 fun (iv : Option Buffer) s₁ hstep => ⟨trivial, ?_⟩)
  have hsame : s₁.1 = s.1 := (Host.anyEnv_random hstep.1).1
  have h₁ : Refusing x₀ h₀ size x s₁ := by
    constructor
    · exact h.object
    · rw [hsame, h.wire]
    · exact hstep.forall h.unsent rfl
    · rw [hstep.2, sizeLeft_append]
      exact h.left
  cases iv with
  | none => exact ⟨h₁, Or.inl rfl⟩
  | some iv =>
      have hiv : iv.length = Wrapper.ivLength := (Host.anyEnv_random hstep.1).2 iv rfl
      dsimp only
      split
      · exact ⟨h₁, Or.inl rfl⟩
      · rename_i w hw
        exact (sat_bind _ _).2 fun (_ : Unit) s₂ hnote =>
          ⟨trivial, h₁.note hnote, Or.inr ⟨iv, hiv, hw⟩⟩

theorem triple_sendFrame {w : Buffer}
    (hw : FrameOrNil P x₀ ((DownloadAck 1 0).serialize P.order) w) :
    Triple Recorded AnyCall (Refusing x₀ h₀ size) (Member.sendFrame w)
      (fun _ => Acked P x₀ h₀ size) (Unacked x₀) := by
  intro x s h
  refine (sat_bind _ _).2 ((sat_call _ _).2 fun (sent : Bool) s₁ hstep => ⟨trivial, ?_⟩)
  obtain ⟨henv, hlog⟩ := hstep
  have hleft : sizeLeft s₁.2 = size := by
    rw [hlog, sizeLeft_append]
    exact h.left
  have hunsent : sends ⟨.send w, sent⟩ = false → ∀ e ∈ s₁.2, sends e = false := by
    intro hlast
    exact Program.Logged.forall ⟨henv, hlog⟩ h.unsent hlast
  rcases Host.anyEnv_send henv with ⟨rfl, -⟩ | ⟨rfl, hput⟩
  · exact (sat_bind _ _).2 ((sat_require _ _ _).2 ⟨fun hsent => absurd hsent (by simp),
      fun _ => ⟨0, rfl, by decide, Or.inl (hunsent rfl)⟩⟩)
  · refine (sat_bind _ _).2 ((sat_require _ _ _).2 ⟨fun _ => ?_, fun hsent => absurd hsent (by simp)⟩)
    refine (sat_bind _ _).2 ((sat_bind _ _).2 ((sat_bind _ _).2 fun (_ : Unit) s₂ hnote =>
      ⟨trivial, ?_⟩))
    obtain ⟨hnote, hlog₂⟩ := hnote
    have hwire : s₂.1.wire = (s.1.put w).wire := by
      rw [← hput]
      exact wire_of_silent (fun d heq => by cases heq) hnote
    by_cases hcounts : incrementCounter x₀.sCounter = -1
    · have hcond : incrementCounter x.sCounter = -1 := h.object ▸ hcounts
      rw [if_pos hcond]
      exact ⟨-1, rfl, by decide, Or.inr hcounts⟩
    · have hcond : incrementCounter x.sCounter ≠ -1 := h.object ▸ hcounts
      rw [if_neg hcond]
      refine ⟨by rw [← h.object], hcounts, ?_, ?_⟩
      · rw [hlog₂, sizeLeft_append]
        exact hleft
      · rcases hw with rfl | ⟨iv, hiv, hframe⟩
        · refine Or.inr ⟨?_, ?_⟩
          · rw [hwire]
            exact h.wire
          · exact Program.Logged.forall ⟨hnote, hlog₂⟩ (hunsent rfl) rfl
        · have hne := Wrapper.frame_ne_nil hiv hframe
          refine Or.inl ⟨iv, w, hframe, ?_, ⟨.send w, true⟩, ?_, ?_⟩
          · rw [hwire, Host.put, if_neg hne, h.wire]
          · rw [hlog₂, hlog]
            simp
          · simp [sends, hne]

theorem triple_sendAck :
    Triple Recorded AnyCall (Refusing x₀ h₀ size)
      (Member.sendPacket P ((DownloadAck 1 0).serialize P.order))
      (fun _ => Acked P x₀ h₀ size) (Unacked x₀) := by
  intro x s h
  refine (sat_bind _ _).2 ?_
  show (Wrapper.serialize P x.sessionKey x.sCounter _ >>= Member.sendFrame).Sat _ _ _ _ x s
  rw [h.object]
  refine (sat_bind _ _).2 ((triple_serialize _ x₀ s (h.object ▸ h)).imp ?_ fun _ _ _ => False.elim)
  intro w x' s' hw
  exact triple_sendFrame hw.2 x' s' hw.1

theorem readChunk_notOpened {f : File} (hf : NotOpened f) (n : Nat) :
    ∃ what, f.readChunk n = Routine.throw (.thrown (.runtimeError what)) := by
  cases hinput : f.input with
  | closed => exact ⟨_, by rw [File.readChunk, hinput]⟩
  | failed => exact ⟨_, by rw [File.readChunk, hinput]⟩
  | opened handle => exact absurd hinput (hf handle)

/-- A chunk of a file that is not open throws. -/
theorem triple_sendChunk {f : File} (hf : NotOpened f) (n : Nat)
    {K : Session → Host × List Event → Prop} {Q : Unit → Session → Host × List Event → Prop} :
    Triple Recorded AnyCall K (Member.sendChunk P DownloadM2 f n) Q
      fun e x s => K x s ∧ ∃ what, e = .thrown what := by
  obtain ⟨what, hread⟩ := readChunk_notOpened hf n
  intro x s h
  show (f.readChunk n >>= _).Sat _ _ _ _ x s
  rw [hread]
  exact ⟨h, _, rfl⟩

/-- After a refusal the function either has no chunk to send or throws. -/
theorem triple_sendFile {f : File} (hf : NotOpened f ∨ f.fileSize = 0)
    {K : Session → Host × List Event → Prop} :
    Triple Recorded AnyCall K (sendFile P f) (fun n x s => K x s ∧ n = 1 ∧ NoChunks f.fileSize)
      fun e x s => K x s ∧ (∃ what, e = .thrown what) ∧ ¬NoChunks f.fileSize := by
  by_cases hnone : NoChunks f.fileSize
  · intro x s h
    unfold sendFile Member.sendLastChunk
    rw [hnone.1, if_neg (by rw [hnone.2]; simp)]
    exact ⟨h, rfl, hnone⟩
  · have hclosed : NotOpened f := by
      rcases hf with hf | hzero
      · exact hf
      · rw [hzero] at hnone
        exact absurd (by decide) hnone
    have hthrows : ∀ n, Triple Recorded AnyCall K (Member.sendChunk P DownloadM2 f n)
        (fun _ _ _ => False) fun e x s => K x s ∧ (∃ what, e = .thrown what) ∧ ¬NoChunks f.fileSize :=
      fun n => (triple_sendChunk hclosed n).conseq (fun _ _ => id) (fun _ _ _ => id)
        fun _ _ _ h => ⟨h.1, h.2, hnone⟩
    unfold sendFile
    cases hchunks : numFileChunks f.fileSize with
    | succ n =>
        have hloop : Triple Recorded AnyCall K (Member.sendChunks P DownloadM2 f (n + 1))
            (fun _ _ _ => False)
            fun e x s => K x s ∧ (∃ what, e = .thrown what) ∧ ¬NoChunks f.fileSize :=
          Triple.bind (hthrows _) fun _ _ _ => False.elim
        exact Triple.bind hloop fun _ _ _ => False.elim
    | zero =>
        have hlast : lastChunkSize f.fileSize ≠ 0 := fun hzero => hnone ⟨hchunks, hzero⟩
        have hloop : Triple Recorded AnyCall K (Member.sendChunks P DownloadM2 f 0) (fun _ => K)
            fun e x s => K x s ∧ (∃ what, e = .thrown what) ∧ ¬NoChunks f.fileSize :=
          Triple.pure _ fun _ _ => id
        apply Triple.bind hloop
        intro _
        apply Triple.bind _ fun _ _ _ => False.elim
        unfold Member.sendLastChunk
        rw [if_pos hlast]
        exact hthrows _

/-! ## The whole function -/

/-- The acknowledgement can be sent and counted, and the size left in the file object has no
    chunks. -/
def Harmless (x : Session) (t : List Event) : Prop :=
  incrementCounter x.sCounter ≠ -1 ∧ (∃ e ∈ t, sends e = true) ∧ NoChunks (sizeLeft t)

/-- How a download ends, if it was refused. -/
def EndsHarmless (P : Platform) (x₀ : Session) (h₀ : Host) (result : Except Exit Int) (x : Session)
    (s : Host × List Event) : Prop :=
  (∃ e ∈ s.2, refuses e = true) →
    (EndsWithAck P x₀ x h₀ s.1 result ↔ Harmless x₀ s.2)

theorem Unrefused.ends (h : Unrefused x s) (result : Except Exit Int) :
    EndsHarmless P x₀ h₀ result x s := by
  rintro ⟨e, he, hrefused⟩
  rw [h e he] at hrefused
  cases hrefused

theorem Unacked.ends {e : Exit} (h : Unacked x₀ e x s) {result : Except Exit Int}
    (hresult : ∀ n, e = .returned n → result = .ok n) :
    EndsHarmless P x₀ h₀ result x s := by
  obtain ⟨n, rfl, hn, hcause⟩ := h
  intro _
  constructor
  · intro hends
    have hone := (hresult n rfl).symm.trans hends.returns
    exact absurd (Except.ok.inj hone) hn
  · rintro ⟨hcounts, ⟨e, he, hsent⟩, -⟩
    rcases hcause with hunsent | hend
    · rw [hunsent e he] at hsent
      cases hsent
    · exact absurd hend hcounts

theorem Acked.ends_iff (h : Acked P x₀ h₀ size x s) :
    EndsWithAck P x₀ x h₀ s.1 (.ok 1) ↔ ∃ e ∈ s.2, sends e = true := by
  constructor
  · intro hends
    rcases h.ack with ⟨_, _, -, -, hsent⟩ | ⟨hwire, -⟩
    · exact hsent
    · obtain ⟨_, w, -, hwire'⟩ := hends.ack
      rw [hwire] at hwire'
      simp at hwire'
  · rintro ⟨e, he, hsent⟩
    refine ⟨rfl, ?_, ?_⟩
    · rw [h.counter]
      have hcounts := h.counts
      unfold incrementCounter at hcounts ⊢
      split
      · rename_i hmax
        rw [if_pos hmax] at hcounts
        exact absurd rfl hcounts
      · rfl
    · rcases h.ack with ⟨iv, w, hframe, hwire, -⟩ | ⟨-, hunsent⟩
      · exact ⟨iv, w, hframe, hwire⟩
      · rw [hunsent e he] at hsent
        cases hsent

theorem triple_downloadFile (payload : Buffer) :
    Triple Recorded AnyCall (Before x₀ h₀ 0) (downloadFile P payload)
      (fun n => EndsHarmless P x₀ h₀ (.ok n)) fun e => EndsHarmless P x₀ h₀ (Member.value e) := by
  apply Triple.bind (P := fun _ => Before x₀ h₀ 0)
  · exact (keeps_silent (Member.only_readName (X := fun _ => False) _) fun o ho => by
      subst ho
      trivial).conseq (fun _ _ => id) (fun _ _ _ => id) fun _ _ _ h => h.1.elim
  intro fileName
  apply Triple.bind (P := fun _ => Before x₀ h₀ 0) (Triple.get fun _ _ h => h)
  intro session
  apply Triple.bind (P := fun unset => Before x₀ h₀ unset)
  · intro x s h
    exact (sat_call _ _).2 fun (unset : Nat) s₁ hstep => ⟨trivial,
      h.step (o := .sys (.garbage .fileSize)) (fun d heq => by cases heq) hstep rfl rfl
        (sizeLeft_append _ _)⟩
  intro unset
  apply Triple.bind ((triple_read (File.new unset) (fun _ heq => by cases heq) _).conseq
    (fun _ _ => id) (fun _ _ _ => id) fun _ _ _ => False.elim)
  intro read
  obtain ⟨file, error⟩ := read
  dsimp only
  cases herror : error.isSome || file.fileSize == 0 with
  | false =>
      intro x s h
      -- no refusal: what follows sends no refusal either
      have hopen : Unrefused x s := h.1.open_
      have hrest : Serves (markRefused false file >>= fun _ =>
          Member.sendPacket P ((DownloadAck 0 file.fileSize).serialize P.order) >>= fun _ =>
            sendFile P file) :=
        Triple.bind (Triple.pure _ fun _ _ h => h) fun _ =>
          Triple.bind (serves_sendPacket _) fun _ => serves_sendFile file
      exact (hrest x s hopen).imp (fun n x' s' h' => h'.ends _) fun e x' s' h' => h'.ends _
  | true =>
      have hclosed : error.isSome = true → NotOpened file → NotOpened file ∨ file.fileSize = 0 :=
        fun _ h => Or.inl h
      intro x s h
      -- a refusal: the file was not opened, or it is empty
      have hf : NotOpened file ∨ file.fileSize = 0 := by
        rcases Bool.or_eq_true_iff.1 herror with hsome | hzero
        · exact Or.inl (h.2 hsome)
        · exact Or.inr (eq_of_beq hzero)
      refine (sat_bind _ _).2 fun (_ : Unit) s₁ hnote => ⟨trivial, ?_⟩
      have h₁ : Refusing x₀ h₀ file.fileSize x s₁ := h.1.refusing.note hnote
      have hrest : Triple Recorded AnyCall (Refusing x₀ h₀ file.fileSize)
          (Member.sendPacket P ((DownloadAck 1 0).serialize P.order) >>= fun _ => sendFile P file)
          (fun n => EndsHarmless P x₀ h₀ (.ok n))
          fun e => EndsHarmless P x₀ h₀ (Member.value e) := by
        apply Triple.bind (triple_sendAck.conseq (fun _ _ => id) (fun _ _ _ => id)
          fun e x s h => h.ends fun n heq => by rw [heq]; rfl)
        intro _
        apply (triple_sendFile hf).conseq (fun _ _ => id)
        · rintro n x s ⟨hacked, rfl, hnone⟩ _
          rw [hacked.ends_iff]
          constructor
          · exact fun hsent => ⟨hacked.counts, hsent, by rw [hacked.left]; exact hnone⟩
          · exact fun hharmless => hharmless.2.1
        · rintro e x s ⟨hacked, ⟨what, rfl⟩, hsome⟩ _
          constructor
          · intro hends
            cases hends.returns
          · intro hharmless
            have hnone := hharmless.2.2
            rw [hacked.left] at hnone
            exact absurd hnone hsome
      exact hrest x s₁ h₁

/-- **A refused download ends with its acknowledgement exactly if no chunk is left to send**: the
    acknowledgement goes out and is counted, and the size in the file object makes no chunk. -/
theorem refused_download_iff (P : Platform) (payload : Buffer) (x x' : Session) (h : Host)
    (cs : List Choice) (result : Except Exit Int)
    (hend : (Host.run cs (Member.returning (downloadFile P payload) x, h)).1.result =
      some (result, x'))
    (hrefused : ∃ e ∈ Host.events cs (Member.returning (downloadFile P payload) x, h),
      refuses e = true) :
    EndsWithAck P x x' h (Host.run cs (Member.returning (downloadFile P payload) x, h)).2 result ↔
      Harmless x (Host.events cs (Member.returning (downloadFile P payload) x, h)) := by
  have hrun := Host.reaches_events cs (p := Member.returning (downloadFile P payload) x) h []
  rw [List.nil_append, Program.eq_ret_of_result hend] at hrun
  have hstart : Before x h 0 x (h, []) := ⟨rfl, rfl, by simp, by simp, rfl⟩
  have hsat := (Member.triple_returning (Q := EndsHarmless P x h)
    (triple_downloadFile payload)) x (h, []) hstart
  have hends := Program.Sat.result hsat hrun
  cases result with
  | ok n => exact hends hrefused
  | error e => exact hends hrefused

/-- A request for a file that is not there. -/
def missingFile : Buffer := (DownloadM1 (ascii "a")).serialize

/-- The download of that file from an empty store. -/
def downloadMissing : Program Sys (Except Exit Int × Session) × Host :=
  (Member.returning (downloadFile (.aes .little) missingFile)
    (.start (ascii "user1") (List.replicate 16 0)), .start .root ⟨[], false, false⟩)

/-- Nothing fails, and the members that are read before they are written hold this number. -/
def calmWith (unset : Nat) : List Choice := List.replicate 20 { Choice.calm with word := unset }

set_option maxRecDepth 20000 in
/-- With 0 in the size of the file object, the refusal is all there is. -/
theorem refused_download_iff_zero :
    EndsWithAck (.aes .little) (.start (ascii "user1") (List.replicate 16 0))
      ⟨ascii "user1", List.replicate 16 0, 1, 0⟩ (.start .root ⟨[], false, false⟩)
      (Host.run (calmWith 0) downloadMissing).2 (.ok 1) :=
  (refused_download_iff (.aes .little) missingFile (.start (ascii "user1") (List.replicate 16 0))
    ⟨ascii "user1", List.replicate 16 0, 1, 0⟩ (.start .root ⟨[], false, false⟩) (calmWith 0) (.ok 1)
    (by decide +kernel) (by decide +kernel)).2
      ⟨by decide, by decide +kernel, by decide +kernel⟩

set_option maxRecDepth 20000 in
/-- With 1 in it, an exception leaves the function after the acknowledgement. -/
theorem refused_download_throws :
    (∃ e ∈ Host.events (calmWith 1) downloadMissing, refuses e = true) ∧
      (Host.run (calmWith 1) downloadMissing).1.result =
        some (.error (.thrown (.runtimeError "Unable to read from file.")),
          ⟨ascii "user1", List.replicate 16 0, 1, 0⟩) ∧
      ∀ x x' h h', ¬EndsWithAck (.aes .little) x x' h h'
        (.error (.thrown (.runtimeError "Unable to read from file."))) := by
  refine ⟨by decide +kernel, by decide +kernel, fun _ _ _ _ hends => ?_⟩
  cases hends.returns

end Worker

end CloudStorage
