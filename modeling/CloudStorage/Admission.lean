import CloudStorage.AesCcm
import CloudStorage.Outcomes

set_option autoImplicit false

/-! # The first acknowledgement of an upload

`Worker::upload_file` acknowledges an upload after it has asked `File::exists`, and goes on to the
chunks if `File::create` succeeds. The two agree where the file exists: then the acknowledgement is a
refusal and nothing is created. They disagree where the name is free or taken by something that is no
file: the acknowledgement is a promise, and `File::create` may still refuse the name or fail to open
the file.

The channel is intact here: what is sent is sent, and every receive delivers a frame that opens. A
run is judged by its calls. -/

namespace CloudStorage

open Interaction Interaction.Routine

namespace Worker

namespace Admission

/-- A call with its answer. -/
abbrev Event : Type := Program.Event Sys

/-- The network does its part: a send succeeds, and a receive delivers a frame that opens. -/
def intact (P : Platform) (key : Buffer) : Event → Bool
  | ⟨.send _, sent⟩ => (sent : Bool)
  | ⟨.recv _, block⟩ => (block : Option Buffer).any fun w => (Wrapper.openFrame P key w).isSome
  | _ => true

/-- The length that a receive asks for. -/
def asks : Event → Option Nat
  | ⟨.recv n, _⟩ => some n
  | _ => none

/-- The code of an acknowledgement that is built under this counter. -/
def acks (counter : Int) : Event → Option UInt8
  | ⟨.sys (.note (.sealed c payload _)), _⟩ =>
    if c = counter then some (Ack.deserialize payload).ackCode else none
  | _ => none

/-- A path was found to be a regular file. -/
def finds : Event → Bool
  | ⟨.sys (.file (.stat _)), found⟩ => (found : Option FileType).any (· == .regular)
  | _ => false

/-- A file call that does what it is called for, on a path that ends in a name which `File::create`
    accepts. -/
def succeeds : Event → Bool
  | ⟨.sys (.file (.stat path)), found⟩ =>
    File.nameAccepted (filename path) && (found : Option FileType).isSome
  | ⟨.sys (.file (.openWrite _)), handle⟩ => (handle : Option Nat).isSome
  | ⟨.sys (.file (.write _ _)), written⟩ => (written : Bool)
  | _ => true

/-- The lengths that the receives of a run ask for. -/
def asked (t : List Event) : List Nat := t.filterMap asks

/-- The code of the first acknowledgement: the one under the counter that the upload begins with. -/
def firstAck (counter : Int) (t : List Event) : Option UInt8 := (t.filterMap (acks counter)).head?

/-- The length of the frame of a chunk. -/
def chunkFrame (n : Nat) : Nat := Wrapper.getSize (ChunkM2.getSize n)

/-- The lengths of the chunk frames of a file. -/
def chunkFrames (size : Nat) : List Nat :=
  List.replicate (size / Max.maxFileChunk) (chunkFrame Max.maxFileChunk) ++
    if size % Max.maxFileChunk ≠ 0 then [chunkFrame (size % Max.maxFileChunk)] else []

/-- The acknowledgement tells the truth: it is a promise exactly if the worker receives the chunk
    frames and returns, and after a refusal it receives nothing. -/
structure Truthful (code : UInt8) (size : Nat) (result : Except Exit Int) (t : List Event) : Prop where
  promised : code = 1 ↔ (∃ n, result = .ok n) ∧ asked t = chunkFrames size
  refused : code = 0 → asked t = []

/-- Something is to be received, for a file that is there already or can be created and written; or
    nothing is, for a file that is not there. -/
def Admissible (size : Nat) (t : List Event) : Prop :=
  if size = 0 then ∀ e ∈ t, finds e = false
  else (∃ e ∈ t, finds e = true) ∨ ∀ e ∈ t, succeeds e = true

instance (size : Nat) (t : List Event) : Decidable (Admissible size t) :=
  inferInstanceAs (Decidable (if size = 0 then ∀ e ∈ t, finds e = false
    else (∃ e ∈ t, finds e = true) ∨ ∀ e ∈ t, succeeds e = true))

/-! ## What the calls of a run add up to -/

/-- Whether a file was found, whether all calls succeeded, and the lengths that were asked for. -/
structure Tally (found : Bool) (clean : Prop) (l : List Nat) (t : List Event) : Prop where
  found : (∃ e ∈ t, finds e = true) ↔ found = true
  clean : (∀ e ∈ t, succeeds e = true) ↔ clean
  asked : asked t = l

variable {found : Bool} {clean : Prop} {l : List Nat} {t t' : List Event} {size : Nat}

theorem Tally.append (h : Tally found clean l t)
    (hfinds : ∀ e ∈ t', finds e = true → found = true) :
    Tally found (clean ∧ ∀ e ∈ t', succeeds e = true) (l ++ Admission.asked t') (t ++ t') := by
  constructor
  · constructor
    · rintro ⟨e, he, hfound⟩
      rcases List.mem_append.1 he with he | he
      · exact h.found.1 ⟨e, he, hfound⟩
      · exact hfinds e he hfound
    · intro hfound
      obtain ⟨e, he, hfinds⟩ := h.found.2 hfound
      exact ⟨e, List.mem_append_left _ he, hfinds⟩
  · rw [← h.clean, List.forall_mem_append]
  · rw [Admission.asked, List.filterMap_append]
    exact congrArg (· ++ Admission.asked t') h.asked

theorem chunkFrames_eq_nil : chunkFrames size = [] ↔ size = 0 := by
  constructor
  · intro h
    obtain ⟨hfull, hlast⟩ := List.append_eq_nil_iff.1 h
    have hdiv : size / Max.maxFileChunk = 0 := by
      simpa using hfull
    have hmod : size % Max.maxFileChunk = 0 := by
      by_contra hne
      rw [if_pos hne] at hlast
      cases hlast
    have hsum := Nat.div_add_mod size Max.maxFileChunk
    rw [hdiv, hmod] at hsum
    exact hsum.symm
  · rintro rfl
    rfl

/-- The code of an acknowledgement. -/
def ackOf (found : Bool) : UInt8 := if found then 0 else 1

/-- A file was found: the refusal is true where there was something to refuse. -/
theorem Tally.truthful_found (h : Tally true clean [] t) (n : Int) :
    Truthful (ackOf true) size (.ok n) t ↔ Admissible size t := by
  have hfound := h.found.2 rfl
  unfold Admissible
  constructor
  · intro htrue
    rw [if_neg, or_iff_left_of_imp fun _ => hfound]
    · exact hfound
    · intro hzero
      have hone := htrue.promised.2 ⟨⟨n, rfl⟩, h.asked.trans (chunkFrames_eq_nil.2 hzero).symm⟩
      exact absurd hone (by decide)
  · intro hadm
    refine ⟨⟨fun hone => absurd hone (by decide), fun hall => ?_⟩, fun _ => h.asked⟩
    have hzero : size = 0 := chunkFrames_eq_nil.1 (hall.2.symm.trans h.asked)
    rw [if_pos hzero] at hadm
    obtain ⟨e, he, hfinds⟩ := hfound
    rw [hadm e he] at hfinds
    cases hfinds

/-- No file was found: the promise is kept if the function returned after all the frames. -/
theorem Tally.truthful_free (h : Tally false clean l t) {result : Except Exit Int}
    (hkept : ((∃ n, result = .ok n) ∧ l = chunkFrames size) ↔ size = 0 ∨ clean) :
    Truthful (ackOf false) size result t ↔ Admissible size t := by
  have hnone : ∀ e ∈ t, finds e = false := by
    intro e he
    by_contra hne
    exact absurd (h.found.1 ⟨e, he, by simpa using hne⟩) (by simp)
  have hadm : Admissible size t ↔ size = 0 ∨ clean := by
    unfold Admissible
    split
    · rename_i hzero
      exact ⟨fun _ => Or.inl hzero, fun _ => hnone⟩
    · rename_i hne
      rw [h.clean, or_iff_right hne]
      constructor
      · rintro (⟨e, he, hfinds⟩ | hclean)
        · rw [hnone e he] at hfinds
          cases hfinds
        · exact hclean
      · exact Or.inr
  rw [hadm, ← hkept, ← h.asked]
  constructor
  · exact fun htrue => htrue.promised.1 rfl
  · exact fun hall => ⟨⟨fun _ => hall, fun _ => rfl⟩, fun hzero => absurd hzero (by decide)⟩

/-! ## The calls before the chunks -/

variable {P : Platform} {key : Buffer} {x x₁ : Session} {s s' s₁ : Host × List Event} {path : Buffer}
  {c₀ : Int}

/-- Any machine on an intact channel, with the calls kept. -/
abbrev Recorded (P : Platform) (key : Buffer) : Transition Sys (Host × List Event) :=
  Program.Logged fun h o a h' => Host.anyEnv h o a h' ∧ intact P key ⟨o, a⟩ = true

/-- Nothing is asked of the calls. -/
abbrev AnyCall : Transition Sys (Host × List Event) := fun _ _ _ _ => True

/-- Since `s₁` there were calls of the kind `p` alone, and the store is as it was. -/
def Since (p : Event → Prop) (s₁ s : Host × List Event) : Prop :=
  s.1.fs = s₁.1.fs ∧ ∃ t, s.2 = s₁.2 ++ t ∧ ∀ e ∈ t, p e

theorem Since.refl (p : Event → Prop) (s₁ : Host × List Event) : Since p s₁ s₁ :=
  ⟨rfl, [], (List.append_nil _).symm, by simp⟩

theorem Since.step {p : Event → Prop} {o : Sys.Op} {a : Sys.Ans o} (h : Since p s₁ s)
    (hstep : Recorded P key s o a s') (hfs : s'.1.fs = s.1.fs) (hp : p ⟨o, a⟩) : Since p s₁ s' := by
  obtain ⟨hstore, t, ht, hall⟩ := h
  refine ⟨hfs.trans hstore, t ++ [⟨o, a⟩], ?_, ?_⟩
  · rw [hstep.2, ht, List.append_assoc]
  · rw [List.forall_mem_append]
    exact ⟨hall, by simpa using hp⟩

/-- A lookup of the path and its answer. -/
def lookup (path : Buffer) (found : Option FileType) : Event := ⟨.sys (.file (.stat path)), found⟩

theorem finds_lookup (path : Buffer) (answer : Option FileType) :
    finds (lookup path answer) = true ↔ answer = some .regular := by
  cases answer with
  | none => exact ⟨fun h => absurd h Bool.false_ne_true, fun h => by cases h⟩
  | some found =>
      cases found with
      | regular => exact ⟨fun _ => rfl, fun _ => rfl⟩
      | notFound => exact ⟨fun h => absurd h Bool.false_ne_true, fun h => by cases h⟩
      | directory => exact ⟨fun h => absurd h Bool.false_ne_true, fun h => by cases h⟩

/-- Lookups of the path that were answered. -/
def Looked (path : Buffer) (s₁ s : Host × List Event) : Prop :=
  Since (fun e => e = lookup path (s₁.1.fs.fileType path) ∧ (s₁.1.fs.fileType path).isSome = true) s₁ s

/-- Lookups of the path of which one failed. -/
def LookupFailed (path : Buffer) (s₁ s : Host × List Event) : Prop :=
  Since (fun e => ∃ found, e = lookup path found ∧ (found = none ∨ found = s₁.1.fs.fileType path))
    s₁ s ∧ lookup path none ∈ s.2

theorem stat_step {found : Option FileType}
    (hstep : Recorded P key s (.sys (.file (.stat path))) found s') :
    s'.1.fs = s.1.fs ∧ (found = none ∨ found = s.1.fs.fileType path) := by
  obtain ⟨fault, ha, hh⟩ := Host.anyEnv_file hstep.1.1
  refine ⟨by rw [hh]; rfl, ?_⟩
  cases fault with
  | true => exact Or.inl ha.symm
  | false => exact Or.inr ha.symm

theorem Looked.step {found : FileType} (h : Looked path s₁ s)
    (hstep : Recorded P key s (.sys (.file (.stat path))) (some found : Option FileType) s') :
    Looked path s₁ s' ∧ s₁.1.fs.fileType path = some found := by
  obtain ⟨hfs, hfound⟩ := stat_step hstep
  have htype : s₁.1.fs.fileType path = some found := by
    rw [← h.1]
    exact (hfound.resolve_left (by simp)).symm
  exact ⟨Since.step h hstep hfs ⟨by rw [htype]; rfl, by rw [htype]; rfl⟩, htype⟩

theorem Looked.failed (h : Looked path s₁ s)
    (hstep : Recorded P key s (.sys (.file (.stat path))) (none : Option FileType) s') :
    LookupFailed path s₁ s' := by
  obtain ⟨hfs, -⟩ := stat_step hstep
  obtain ⟨hstore, t, ht, hall⟩ := h
  constructor
  · have hbefore : Since (fun e => ∃ found, e = lookup path found ∧
        (found = none ∨ found = s₁.1.fs.fileType path)) s₁ s :=
      ⟨hstore, t, ht, fun e he => ⟨_, (hall e he).1, Or.inr rfl⟩⟩
    exact hbefore.step hstep hfs ⟨none, rfl, Or.inl rfl⟩
  · rw [hstep.2]
    exact List.mem_append_right _ (List.mem_singleton_self _)

/-- `File::exists` looks the path up, at least once. -/
theorem triple_exists (path : Buffer) (x₁ : Session) (s₁ : Host × List Event) :
    Triple (Recorded P key) AnyCall (fun x s => x = x₁ ∧ s = s₁) (File.exists path)
      (fun found x s => x = x₁ ∧ Looked path s₁ s ∧ s.2 ≠ s₁.2 ∧
        (found = true ↔ s₁.1.fs.fileType path = some .regular))
      fun e x s => x = x₁ ∧ LookupFailed path s₁ s ∧ ∃ what, e = .thrown what := by
  rintro x s ⟨rfl, rfl⟩
  have hne : ∀ {s' s'' : Host × List Event} {o : Sys.Op} {a : Sys.Ans o}, Recorded P key s' o a s'' →
      s.2.length ≤ s'.2.length → s''.2 ≠ s.2 := by
    intro s' s'' o a hstep hlen heq
    have hlast := congrArg List.length hstep.2
    rw [heq, List.length_append, List.length_singleton] at hlast
    omega
  refine (sat_bind _ _).2 ((sat_call _ _).2 fun (found : Option FileType) s' hstep => ⟨trivial, ?_⟩)
  cases found with
  | none => exact ⟨rfl, Looked.failed (Since.refl _ s) hstep, _, rfl⟩
  | some found =>
      obtain ⟨h', htype⟩ := Looked.step (Since.refl _ s) hstep
      have hlen : s.2.length ≤ s'.2.length := by
        rw [hstep.2, List.length_append]
        omega
      have hagain : Triple (Recorded P key) AnyCall (fun y z => y = x ∧ z = s')
          (File.isRegularFile path) (fun found y z => y = x ∧ Looked path s z ∧ z.2 ≠ s.2 ∧
            (found = true ↔ s.1.fs.fileType path = some .regular))
          fun e y z => y = x ∧ LookupFailed path s z ∧ ∃ what, e = .thrown what := by
        rintro y z ⟨rfl, rfl⟩
        refine (sat_bind _ _).2 ((sat_call _ _).2 fun (again : Option FileType) s'' hstep' =>
          ⟨trivial, ?_⟩)
        cases again with
        | none => exact ⟨rfl, h'.failed hstep', _, rfl⟩
        | some again =>
            obtain ⟨h'', htype'⟩ := h'.step hstep'
            rw [htype']
            cases again with
            | regular => exact ⟨rfl, h'', hne hstep' hlen, by simp⟩
            | notFound => exact ⟨rfl, h'', hne hstep' hlen, by simp⟩
            | directory => exact ⟨rfl, h'', hne hstep' hlen, by simp⟩
      rw [htype] at hagain ⊢
      cases found with
      | notFound => exact ⟨rfl, h', hne hstep (Nat.le_refl _), by simp⟩
      | regular => exact hagain x s' ⟨rfl, rfl⟩
      | directory => exact hagain x s' ⟨rfl, rfl⟩

/-! ## What the run has told -/

/-- The run so far, with the first acknowledgement that the peer may have seen of it. -/
structure Told (c₀ : Int) (found : Bool) (clean : Prop) (l : List Nat) (t : List Event) : Prop where
  tally : Tally found clean l t
  ack : ∀ e ∈ t, ∀ code, acks c₀ e = some code → code = ackOf found

theorem Told.append (h : Told c₀ found clean l t) (t' : List Event)
    (hfinds : ∀ e ∈ t', finds e = true → found = true)
    (hack : ∀ e ∈ t', ∀ code, acks c₀ e = some code → code = ackOf found) :
    Told c₀ found (clean ∧ ∀ e ∈ t', succeeds e = true) (l ++ asked t') (t ++ t') :=
  ⟨h.tally.append hfinds, List.forall_mem_append.2 ⟨h.ack, hack⟩⟩

theorem Told.clean_iff {clean' : Prop} (h : Told c₀ found clean l t) (hiff : clean ↔ clean') :
    Told c₀ found clean' l t := by
  rw [← propext hiff]
  exact h

/-- A call that tells nothing. -/
structure Mute (e : Event) : Prop where
  finds : finds e = false
  succeeds : succeeds e = true
  asks : asks e = none
  acks : ∀ c, acks c e = none

theorem Told.mute {e : Event} (h : Told c₀ found clean l t) (he : Mute e) :
    Told c₀ found clean l (t ++ [e]) := by
  have happ := h.append [e] (by simp [he.finds]) (by simp [he.acks])
  simp only [asked, List.filterMap_cons, he.asks, List.filterMap_nil, List.append_nil] at happ
  exact happ.clean_iff (by simp [he.succeeds])

/-- A receive. -/
def arrival (n : Nat) (block : Option Buffer) : Event := ⟨.recv n, block⟩

theorem Told.received {n : Nat} (h : Told c₀ found clean l t) (block : Option Buffer) :
    Told c₀ found clean (l ++ [n]) (t ++ [arrival n block]) := by
  have happ : Told c₀ found (clean ∧ ∀ e ∈ [arrival n block], succeeds e = true) (l ++ [n])
      (t ++ [arrival n block]) := by
    apply h.append
    · rw [List.forall_mem_singleton]
      exact fun hfinds => absurd hfinds (Bool.false_ne_true)
    · rw [List.forall_mem_singleton]
      exact fun code hcode => absurd hcode (Option.some_ne_none code).symm
  apply happ.clean_iff
  rw [List.forall_mem_singleton]
  exact and_iff_left rfl

/-- A call of a send, under a counter. -/
structure Speaks (c : Int) (payload : Buffer) (e : Event) : Prop where
  finds : finds e = false
  succeeds : succeeds e = true
  asks : asks e = none
  acks : ∀ c' code, acks c' e = some code → c' = c ∧ code = (Ack.deserialize payload).ackCode

theorem Mute.speaks {e : Event} (h : Mute e) (c : Int) (payload : Buffer) : Speaks c payload e := by
  refine ⟨h.finds, h.succeeds, h.asks, fun c' code hacks => ?_⟩
  rw [h.acks] at hacks
  cases hacks

/-- A packet that is the acknowledgement, or is sent under another counter. -/
theorem Told.since {c : Int} {payload : Buffer} (h : Told c₀ found clean l s₁.2)
    (hs : Since (Speaks c payload) s₁ s)
    (hack : c₀ = c → (Ack.deserialize payload).ackCode = ackOf found) :
    Told c₀ found clean l s.2 := by
  obtain ⟨-, t, ht, hall⟩ := hs
  have happ := h.append t (fun e he hfinds => by
      rw [(hall e he).finds] at hfinds
      cases hfinds) fun e he code hcode => by
    obtain ⟨hc, hcode⟩ := (hall e he).acks _ _ hcode
    rw [hcode, hack hc]
  have hnone : asked t = [] := by
    rw [asked, List.filterMap_eq_nil_iff]
    exact fun e he => (hall e he).asks
  rw [hnone, List.append_nil] at happ
  rw [ht]
  exact happ.clean_iff (and_iff_left fun e he => (hall e he).succeeds)

/-- On an intact channel a packet is sent and counted, or the counter is at its end. -/
theorem triple_sendPacket (payload : Buffer) (x₁ : Session) (s₁ : Host × List Event) :
    Triple (Recorded P key) AnyCall (fun x s => x = x₁ ∧ s = s₁) (Member.sendPacket P payload)
      (fun _ x s => x = { x₁ with sCounter := x₁.sCounter + 1 } ∧
        Since (Speaks x₁.sCounter payload) s₁ s)
      fun e _ _ => e = .returned (-1) := by
  -- what is sent and counted is the same for every frame, also for the empty one
  have hsend : ∀ w, Triple (Recorded P key) AnyCall
      (fun x s => x = x₁ ∧ Since (Speaks x₁.sCounter payload) s₁ s) (Member.sendFrame w)
      (fun _ x s => x = { x₁ with sCounter := x₁.sCounter + 1 } ∧
        Since (Speaks x₁.sCounter payload) s₁ s) fun e _ _ => e = .returned (-1) := by
    rintro w x s ⟨rfl, hs⟩
    simp only [Member.sendFrame, Member.advanceSend, sat_bind, Member.sat_sendData, sat_require,
      sat_get, sat_modify, Member.sat_note]
    intro sent s₂ hstep
    have hsent : sent = true := hstep.1.2
    have hstore : s₂.1.fs = s.1.fs := by
      rcases Host.anyEnv_send hstep.1.1 with ⟨-, hsame⟩ | ⟨-, hput⟩
      · rw [hsame]
      · rw [hput]
        unfold Host.put
        split <;> rfl
    have h₂ := hs.step hstep hstore (Mute.speaks ⟨rfl, rfl, rfl, fun _ => rfl⟩ _ _)
    refine ⟨trivial, fun _ u s₃ hnote => ⟨trivial, ?_⟩, fun hfalse => ?_⟩
    · have h₃ := h₂.step hnote (by rw [Host.anyEnv_note hnote.1.1]; rfl)
        (Mute.speaks ⟨rfl, rfl, rfl, fun _ => rfl⟩ _ _)
      split
      · exact rfl
      · rename_i hcounts
        refine ⟨?_, h₃⟩
        rw [incrementCounter_of_ne hcounts]
    · rw [hsent] at hfalse
      cases hfalse
  rintro x s ⟨rfl, rfl⟩
  simp only [Member.sendPacket, Wrapper.serialize, sat_bind, sat_get, Member.sat_random]
  intro iv s₂ hstep
  have h₂ := (Since.refl (Speaks x.sCounter payload) s).step hstep
    (by rw [(Host.anyEnv_random hstep.1.1).1]) (Mute.speaks ⟨rfl, rfl, rfl, fun _ => rfl⟩ _ _)
  refine ⟨trivial, ?_⟩
  cases iv with
  -- without an initialization vector or a ciphertext an empty frame goes out
  | none => exact hsend [] x s₂ ⟨rfl, h₂⟩
  | some iv =>
      dsimp only
      split
      · exact hsend [] x s₂ ⟨rfl, h₂⟩
      · rename_i w _
        simp only [sat_bind, Member.sat_note, sat_pure]
        intro u s₃ hnote
        have h₃ := h₂.step hnote (by rw [Host.anyEnv_note hnote.1.1]; rfl) (by
          refine ⟨rfl, rfl, rfl, fun c' code hacks => ?_⟩
          have hcode : (if x.sCounter = c' then some (Ack.deserialize payload).ackCode else none) =
            some code := hacks
          split_ifs at hcode with hc
          exact ⟨hc.symm, (Option.some.inj hcode).symm⟩)
        exact ⟨trivial, hsend w x s₃ ⟨rfl, h₃⟩⟩

/-! ## Creating the file -/

/-- A lookup is no acknowledgement and asks for nothing. -/
theorem Told.lookups {p : Event → Prop} (h : Told c₀ found clean [] s₁.2) (path : Buffer)
    (hp : ∀ e, p e → ∃ answer, e = lookup path answer ∧ (answer = some .regular → found = true))
    (hs : Since p s₁ s) : ∃ t, s.2 = s₁.2 ++ t ∧ (∀ e ∈ t, p e) ∧
      Told c₀ found (clean ∧ ∀ e ∈ t, succeeds e = true) [] s.2 := by
  obtain ⟨-, t, ht, hall⟩ := hs
  refine ⟨t, ht, hall, ?_⟩
  have happ := h.append t
    (fun e he hfinds => by
      obtain ⟨answer, rfl, hanswer⟩ := hp e (hall e he)
      exact hanswer ((finds_lookup _ _).1 hfinds))
    (fun e he code hcode => by
      obtain ⟨answer, rfl, -⟩ := hp e (hall e he)
      cases hcode)
  have hnone : asked t = [] := by
    rw [asked, List.filterMap_eq_nil_iff]
    intro e he
    obtain ⟨answer, rfl, -⟩ := hp e (hall e he)
    rfl
  rw [hnone, List.append_nil] at happ
  rw [ht]
  exact happ

theorem succeeds_lookup (path : Buffer) (answer : Option FileType) :
    succeeds (lookup path answer) = true ↔
      File.nameAccepted (filename path) = true ∧ answer.isSome = true :=
  Bool.and_eq_true_iff

/-- `File::create` creates nothing and leaves a trace of why, or opens the file. -/
theorem triple_create {f : File} (h : Told c₀ found clean [] s₁.2)
    (hclean : found = false → File.nameAccepted (filename path) = true → clean)
    (htype : found = true ↔ s₁.1.fs.fileType path = some .regular) :
    Triple (Recorded P key) AnyCall (fun x s => x = x₁ ∧ s = s₁) (f.create path)
      (fun r x s => x = x₁ ∧
        ((r.2 ≠ none ∧ ∃ clean', Told c₀ found clean' [] s.2 ∧ (found = false → ¬clean')) ∨
          (r.2 = none ∧ found = false ∧ Told c₀ false True [] s.2 ∧
            ∃ handle, r.1.output = .opened handle)))
      fun _ _ _ => False := by
  have hexists : Triple (Recorded P key) AnyCall (fun x s => x = x₁ ∧ s = s₁)
      (Member.attempt (File.exists path))
      (fun r x s => x = x₁ ∧ match r with
        | .ok found => Looked path s₁ s ∧ s.2 ≠ s₁.2 ∧
            (found = true ↔ s₁.1.fs.fileType path = some .regular)
        | .error _ => LookupFailed path s₁ s)
      fun _ _ _ => False := by
    apply Triple.catchExit (Triple.bind (triple_exists path x₁ s₁) fun b => Triple.pure _ fun _ _ h => h)
    rintro e x s ⟨rfl, hfailed, what, rfl⟩
    exact ⟨rfl, hfailed⟩
  apply Triple.bind hexists
  intro r x s hr
  obtain ⟨rfl, hr⟩ := hr
  cases r with
  -- a lookup that throws ends the creation
  | error e =>
      obtain ⟨t, -, -, htold⟩ := h.lookups path (fun e he => by
        obtain ⟨answer, rfl, hanswer⟩ := he
        refine ⟨answer, rfl, fun hregular => htype.2 ?_⟩
        rcases hanswer with rfl | hanswer
        · cases hregular
        · rw [← hanswer, hregular]) hr.1
      refine ⟨rfl, Or.inl ⟨Option.some_ne_none e, _, htold, fun _ hclean' => ?_⟩⟩
      have hnone := (succeeds_lookup path none).1 (htold.tally.clean.2 hclean' _ hr.2)
      cases hnone.2
  | ok already =>
      obtain ⟨hlooked, hne, halready⟩ := hr
      obtain ⟨t, ht, hall, htold⟩ := h.lookups path
        (fun e he => ⟨_, he.1, fun hregular => htype.2 hregular⟩) hlooked
      cases already with
      -- the file is there already
      | true =>
          refine ⟨rfl, Or.inl ⟨Option.some_ne_none _, _, htold, fun hfree => ?_⟩⟩
          rw [htype.2 (halready.1 rfl)] at hfree
          cases hfree
      | false =>
          have hfree : found = false := by
            by_contra hfound
            exact absurd (halready.2 (htype.1 (by simpa using hfound))) (by simp)
          -- the lookups succeed if the name is one that the function accepts
          have hname : (clean ∧ ∀ e ∈ t, succeeds e = true) ↔
              File.nameAccepted (filename path) = true := by
            obtain ⟨e, he⟩ := List.exists_mem_of_ne_nil t fun hnil => hne (by rw [ht, hnil, List.append_nil])
            obtain ⟨rfl, hanswered⟩ := hall e he
            constructor
            · exact fun hsound => ((succeeds_lookup _ _).1 (hsound.2 _ he)).1
            · intro haccepted
              refine ⟨hclean hfree haccepted, fun e' he' => ?_⟩
              rw [(hall e' he').1]
              exact (succeeds_lookup _ _).2 ⟨haccepted, hanswered⟩
          replace htold := htold.clean_iff hname
          dsimp only
          split
          · rename_i haccepted
            refine (sat_bind _ _).2 ((sat_call _ _).2 fun (handle : Option Nat) s₂ hstep => ⟨trivial, ?_⟩)
            have hopened : Told c₀ found (File.nameAccepted (filename path) = true ∧
                ∀ e ∈ [(⟨.sys (.file (.openWrite path)), handle⟩ : Event)], succeeds e = true)
                ([] ++ asked [⟨.sys (.file (.openWrite path)), handle⟩]) s₂.2 := by
              rw [hstep.2]
              apply htold.append
              · rw [List.forall_mem_singleton]
                exact fun hfinds => absurd hfinds Bool.false_ne_true
              · rw [List.forall_mem_singleton]
                exact fun code hcode => absurd hcode (Option.some_ne_none code).symm
            rw [List.forall_mem_singleton] at hopened
            cases handle with
            -- the file cannot be opened
            | none =>
                refine ⟨rfl, Or.inl ⟨Option.some_ne_none _, _, hopened, fun _ hsound => ?_⟩⟩
                exact absurd hsound.2 Bool.false_ne_true
            | some handle =>
                rw [hfree] at hopened
                exact ⟨rfl, Or.inr ⟨rfl, hfree, hopened.clean_iff (iff_true_intro ⟨haccepted, rfl⟩),
                  handle, rfl⟩⟩
          · rename_i hrejected
            exact ⟨rfl, Or.inl ⟨Option.some_ne_none _, _, htold, fun _ => hrejected⟩⟩

/-! ## The chunks -/

/-- The key of the session is in place, and its counter has moved past the first acknowledgement. -/
structure Acked (x₀ x : Session) : Prop where
  key : x.sessionKey = x₀.sessionKey
  counter : x.sCounter ≠ x₀.sCounter

/-- The file is created, and these lengths were received. -/
def Receiving (x₀ : Session) (l : List Nat) (x : Session) (s : Host × List Event) : Prop :=
  Acked x₀ x ∧ Told x₀.sCounter false True l s.2

/-- The counters ended the session, or a write failed. -/
def Broken (x₀ : Session) (size : Nat) (e : Exit) (_ : Session) (s : Host × List Event) : Prop :=
  e = .returned (-1) ∨
    (size ≠ 0 ∧ (∃ what, e = .thrown what) ∧ ∃ l, Told x₀.sCounter false False l s.2)

variable {x₀ : Session}

theorem triple_receivePacket {n : Nat} (hn : n < 4294967296) :
    Triple (Recorded P x₀.sessionKey) AnyCall (Receiving x₀ l) (Member.receivePacket P n)
      (fun r x s => r.isSome = true ∧ Receiving x₀ (l ++ [Wrapper.getSize n]) x s) (Broken x₀ size) := by
  have hsize : Wrapper.getSize n = Wrapper.overhead + n := Wrapper.getSize_of_lt (by omega)
  have hfit : tooLarge (Wrapper.overhead + n) = false := by
    unfold tooLarge Wrapper.overhead Wrapper.ivLength Wrapper.tagLength
    exact decide_eq_false (by omega)
  rintro x s ⟨hacked, htold⟩
  simp only [Member.receivePacket, Member.receiveFrame, hsize, hfit, Bool.false_eq_true, if_false,
    sat_bind, Member.sat_receiveData]
  intro r s₁ hrecv
  refine ⟨trivial, ?_⟩
  have htold₁ : Told x₀.sCounter false True (l ++ [Wrapper.overhead + n]) s₁.2 := by
    rw [hrecv.2]
    exact htold.received r
  cases r with
  | none => exact absurd hrecv.1.2 Bool.false_ne_true
  | some w =>
      have hw : w.length = Wrapper.overhead + n := (Host.anyEnv_recv hrecv.1.1).2 w rfl
      have hopen : (Wrapper.openFrame P x.sessionKey w).isSome = true := by
        rw [hacked.key]
        exact hrecv.1.2
      simp only [sat_bind, sat_get, Wrapper.deserialize]
      rw [if_neg (by rw [hw]; unfold Wrapper.overhead; omega), if_neg (by omega), sat_pure]
      obtain ⟨payload, hpayload⟩ := Option.isSome_iff_exists.1 hopen
      rw [hpayload]
      simp only [Option.map_some, sat_pure, sat_bind, Member.checkCounter, sat_get]
      split
      · exact Or.inl rfl
      · simp only [Member.advanceReceive, Member.sat_note, sat_bind, sat_get, sat_modify]
        intro u s₂ hnote
        refine ⟨trivial, fun u' s₃ hnote' => ⟨trivial, ?_⟩⟩
        have htold₃ : Told x₀.sCounter false True (l ++ [Wrapper.overhead + n]) s₃.2 := by
          rw [hnote'.2, hnote.2]
          exact (htold₁.mute ⟨rfl, rfl, rfl, fun _ => rfl⟩).mute ⟨rfl, rfl, rfl, fun _ => rfl⟩
        split
        · exact Or.inl rfl
        · exact ⟨rfl, ⟨hacked.key, hacked.counter⟩, htold₃⟩

theorem triple_writeChunk {file : File} {handle : Nat} (hfile : file.output = .opened handle)
    (hsize : size ≠ 0) (errorOccured : Bool) (chunk : Buffer) :
    Triple (Recorded P x₀.sessionKey) AnyCall (Receiving x₀ l) (writeChunk file errorOccured chunk)
      (fun _ => Receiving x₀ l) (Broken x₀ size) := by
  rintro x s ⟨hacked, htold⟩
  simp only [writeChunk, File.writeChunk, hfile, sat_bind, sat_require]
  intro written s₁ hstep
  have hwritten : Told x₀.sCounter false (True ∧
      ∀ e ∈ [(⟨.sys (.file (.write handle chunk)), written⟩ : Event)], succeeds e = true)
      (l ++ asked [⟨.sys (.file (.write handle chunk)), written⟩]) s₁.2 := by
    rw [hstep.2]
    apply htold.append
    · rw [List.forall_mem_singleton]
      exact fun hfinds => absurd hfinds Bool.false_ne_true
    · rw [List.forall_mem_singleton]
      exact fun code hcode => absurd hcode (Option.some_ne_none code).symm
  rw [List.forall_mem_singleton, true_and] at hwritten
  have hnothing : l ++ asked [⟨.sys (.file (.write handle chunk)), written⟩] = l := List.append_nil l
  rw [hnothing] at hwritten
  refine ⟨trivial, fun hdone => ?_, fun hfailed => ?_⟩
  · exact ⟨hacked, hwritten.clean_iff (iff_true_intro hdone)⟩
  · refine Or.inr ⟨hsize, ⟨_, rfl⟩, l, hwritten.clean_iff ?_⟩
    rw [iff_false]
    intro hdone
    have hdone : written = true := hdone
    rw [hfailed] at hdone
    cases hdone

/-- The loop receives each of its chunks and no error occurs. -/
theorem triple_receiveChunks {file : File} {handle : Nat} (hfile : file.output = .opened handle)
    {n : Nat} (hsize : n ≠ 0 → size ≠ 0) :
    Triple (Recorded P x₀.sessionKey) AnyCall (Receiving x₀ l)
      (Member.receiveChunks P (writeChunk file) n false)
      (fun errorOccured x s => errorOccured = false ∧
        Receiving x₀ (l ++ List.replicate n (chunkFrame Max.maxFileChunk)) x s) (Broken x₀ size) := by
  induction n generalizing l with
  | zero =>
      rw [List.replicate_zero, List.append_nil]
      exact Triple.pure _ fun _ _ h => ⟨rfl, h⟩
  | succ n ih =>
      apply Triple.bind (triple_receivePacket (by decide))
      intro r
      cases r with
      | none => exact fun _ _ h => absurd h.1 Bool.false_ne_true
      | some payload =>
          have hwrite : Triple (Recorded P x₀.sessionKey) AnyCall
              (Receiving x₀ (l ++ [chunkFrame Max.maxFileChunk]))
              (writeChunk file false (ChunkM2.deserialize payload).fileChunk)
              (fun _ => Receiving x₀ (l ++ [chunkFrame Max.maxFileChunk])) (Broken x₀ size) :=
            triple_writeChunk hfile (hsize (Nat.succ_ne_zero n)) false _
          apply Triple.bind (hwrite.weaken fun _ _ h => h.2)
          intro _
          have hcons := List.append_cons l (chunkFrame Max.maxFileChunk)
            (List.replicate n (chunkFrame Max.maxFileChunk))
          rw [List.replicate_succ, hcons]
          exact ih fun _ => hsize (Nat.succ_ne_zero n)

theorem triple_receiveLastChunk {file : File} {handle : Nat} (hfile : file.output = .opened handle)
    {n : Nat} (hn : n < Max.maxFileChunk) (hlast : n ≠ 0 → size ≠ 0) :
    Triple (Recorded P x₀.sessionKey) AnyCall (Receiving x₀ l)
      (Member.receiveLastChunk P (writeChunk file) false n)
      (fun _ => Receiving x₀ (l ++ if n ≠ 0 then [chunkFrame n] else [])) (Broken x₀ size) := by
  unfold Member.receiveLastChunk
  split
  · rename_i hne
    have hsize : ChunkM2.getSize n < 4294967296 := by
      unfold Max.maxFileChunk at hn
      rw [ChunkM2.getSize_of_lt (by unfold intMax; omega)]
      omega
    apply Triple.bind (P := fun _ => Receiving x₀ (l ++ [chunkFrame n]))
    · apply Triple.bind (triple_receivePacket hsize)
      intro r
      cases r with
      | none => exact fun _ _ h => absurd h.1 Bool.false_ne_true
      | some payload => exact Triple.pure _ fun _ _ h => h.2
    · exact fun payload => triple_writeChunk hfile (hlast hne) _ _
  · rw [List.append_nil]
    exact Triple.pure _ fun _ _ h => h

/-! ## The whole function -/

/-- How an upload of this size ends, if the counters do not end it. -/
def Ends (x₀ : Session) (size : Nat) (result : Except Exit Int) (_ : Session)
    (s : Host × List Event) : Prop :=
  result ≠ .ok (-1) → ∀ code, firstAck x₀.sCounter s.2 = some code →
    (Truthful code size result s.2 ↔ Admissible size s.2)

theorem Told.firstAck {code : UInt8} (h : Told c₀ found clean l t)
    (hcode : firstAck c₀ t = some code) : code = ackOf found := by
  obtain ⟨e, he, hacks⟩ := List.mem_filterMap.1 (List.mem_of_head? hcode)
  exact h.ack e he code hacks

theorem numFileChunks_of_lt {size : Nat} (hsize : size < 4294967296) :
    numFileChunks size = size / Max.maxFileChunk := by
  have hsum := numFileChunks_add hsize
  unfold lastChunkSize Max.maxFileChunk at hsum
  unfold Max.maxFileChunk
  omega

theorem Broken.ends {e : Exit} (h : Broken x₀ size e x s) : Ends x₀ size (Member.value e) x s := by
  rcases h with rfl | ⟨hsize, ⟨what, rfl⟩, l, htold⟩
  · exact fun hne => absurd rfl hne
  · intro _ code hcode
    rw [htold.firstAck hcode]
    apply htold.tally.truthful_free
    rw [or_iff_right hsize, iff_false]
    rintro ⟨⟨n, hn⟩, -⟩
    cases hn

theorem triple_receiveFile (hsize : size < 4294967296) (path : Buffer) {x₁ : Session}
    {s₁ : Host × List Event} (hacked : Acked x₀ x₁) (h : Told x₀.sCounter found clean [] s₁.2)
    (hclean : found = false → File.nameAccepted (filename path) = true → clean)
    (htype : found = true ↔ s₁.1.fs.fileType path = some .regular) :
    Triple (Recorded P x₀.sessionKey) AnyCall (fun x s => x = x₁ ∧ s = s₁)
      (receiveFile P path size) (fun n => Ends x₀ size (.ok n))
      fun e => Ends x₀ size (Member.value e) := by
  apply Triple.bind ((triple_create h hclean htype).conseq (fun _ _ => id) (fun _ _ _ => id)
    fun _ _ _ => False.elim)
  intro r
  obtain ⟨file, error⟩ := r
  rintro x s ⟨rfl, ⟨herror, clean', htold, hunclean⟩ | ⟨herror, rfl, htold, handle, hfile⟩⟩
  · -- nothing is created: the function returns without a receive
    obtain ⟨e, rfl⟩ := Option.ne_none_iff_exists'.1 herror
    intro _ code hcode
    rw [htold.firstAck hcode]
    cases found with
    | true => exact htold.tally.truthful_found 0
    | false =>
        apply htold.tally.truthful_free
        rw [or_iff_left (hunclean rfl), eq_comm, chunkFrames_eq_nil]
        exact and_iff_right ⟨0, rfl⟩
  · obtain rfl : error = none := herror
    have hrest : Triple (Recorded P x₀.sessionKey) AnyCall (Receiving x₀ [])
        (do
          let errorOccured ← Member.receiveChunks P (writeChunk file) (numFileChunks size) false
          Member.receiveLastChunk P (writeChunk file) errorOccured (lastChunkSize size)
          Member.sendPacket P (UploadAck (if errorOccured then 0 else 1)).serialize
          return 1 : Member Int)
        (fun n => Ends x₀ size (.ok n)) fun e => Ends x₀ size (Member.value e) := by
      have hchunks : numFileChunks size ≠ 0 → size ≠ 0 := by
        rintro hne rfl
        exact hne rfl
      apply Triple.bind ((triple_receiveChunks hfile hchunks).conseq (fun _ _ => id)
        (fun _ _ _ => id) fun _ _ _ h => h.ends)
      intro errorOccured
      cases errorOccured with
      | true => exact fun _ _ h => absurd h.1.symm Bool.false_ne_true
      | false =>
          have hlast : lastChunkSize size ≠ 0 → size ≠ 0 := by
            rintro hne rfl
            exact hne rfl
          apply Triple.bind ((triple_receiveLastChunk hfile (Nat.mod_lt _ (by decide)) hlast).conseq
            (fun _ _ h => h.2) (fun _ _ _ => id) fun _ _ _ h => h.ends)
          rintro _ x s ⟨hacked, htold⟩
          refine (sat_bind _ _).2 ((triple_sendPacket _ x s x s ⟨rfl, rfl⟩).imp ?_ ?_)
          -- the last acknowledgement is the only one, and it says that the file was stored
          · rintro _ x' s' ⟨-, hsent⟩ _ code hcode
            have hdone := htold.since hsent fun heq => absurd heq.symm hacked.counter
            rw [hdone.firstAck hcode]
            apply hdone.tally.truthful_free
            rw [or_iff_right_of_imp fun _ => trivial, iff_true]
            refine ⟨⟨1, rfl⟩, ?_⟩
            rw [List.nil_append, numFileChunks_of_lt hsize]
            rfl
          · rintro e x' s' rfl
            exact fun hne => absurd rfl hne
    exact hrest x s ⟨hacked, htold⟩

/-- The lookups before the acknowledgement, which then says what they found. -/
theorem told_of_looked (c₀ : Int) (hmute : ∀ e ∈ s₁.2, Mute e) (hlooked : Looked path s₁ s) (hne : s.2 ≠ s₁.2)
    (htype : found = true ↔ s₁.1.fs.fileType path = some .regular) :
    ∃ clean : Prop, Told c₀ found clean [] s.2 ∧
      (found = false → File.nameAccepted (filename path) = true → clean) := by
  obtain ⟨-, t, ht, hall⟩ := hlooked
  have hmem : ∀ e ∈ s.2, Mute e ∨ e ∈ t := by
    intro e he
    rw [ht] at he
    exact (List.mem_append.1 he).imp (hmute e) id
  refine ⟨∀ e ∈ s.2, succeeds e = true, ⟨⟨?_, Iff.rfl, ?_⟩, ?_⟩, ?_⟩
  · constructor
    · rintro ⟨e, he, hfinds⟩
      rcases hmem e he with he | he
      · rw [he.finds] at hfinds
        cases hfinds
      · rw [(hall e he).1] at hfinds
        exact htype.2 ((finds_lookup _ _).1 hfinds)
    · intro hfound
      obtain ⟨e, he⟩ := List.exists_mem_of_ne_nil t fun hnil => hne (by rw [ht, hnil, List.append_nil])
      refine ⟨e, by rw [ht]; exact List.mem_append_right _ he, ?_⟩
      rw [(hall e he).1, finds_lookup]
      exact htype.1 hfound
  · rw [asked, List.filterMap_eq_nil_iff]
    intro e he
    rcases hmem e he with he | he
    · exact he.asks
    · rw [(hall e he).1]
      rfl
  · intro e he code hcode
    rcases hmem e he with he | he
    · rw [he.acks] at hcode
      cases hcode
    · rw [(hall e he).1] at hcode
      cases hcode
  · intro _ haccepted e he
    rcases hmem e he with he | he
    · exact he.succeeds
    · rw [(hall e he).1]
      exact (succeeds_lookup _ _).2 ⟨haccepted, (hall e he).2⟩

theorem triple_uploadFile (payload : Buffer) :
    Triple (Recorded P x₀.sessionKey) AnyCall (fun x s => x = x₀ ∧ s.2 = []) (uploadFile P payload)
      (fun n => Ends x₀ (UploadM1.deserialize P.order payload).fileSize (.ok n))
      fun e => Ends x₀ (UploadM1.deserialize P.order payload).fileSize (Member.value e) := by
  have hsize : (UploadM1.deserialize P.order payload).fileSize < 4294967296 := ofBe32_lt _
  rintro x s ⟨rfl, hs⟩
  refine (sat_bind _ _).2 ((sat_bind _ _).2 ((sat_call _ _).2 fun (beyond : Buffer) s₁ hstep =>
    ⟨trivial, ?_⟩))
  have hmute : ∀ e ∈ s₁.2, Mute e := by
    rw [hstep.2, hs, List.nil_append, List.forall_mem_singleton]
    exact ⟨rfl, rfl, rfl, fun _ => rfl⟩
  refine (sat_bind _ _).2 ((sat_bind _ _).2 ((triple_exists _ x s₁ x s₁ ⟨rfl, rfl⟩).imp ?_ ?_))
  · rintro found x' s₂ ⟨rfl, hlooked, hne, htype⟩
    obtain ⟨clean, htold, hclean⟩ := told_of_looked x'.sCounter hmute hlooked hne htype
    refine (sat_bind _ _).2 ((triple_sendPacket _ x' s₂ x' s₂ ⟨rfl, rfl⟩).imp ?_ ?_)
    · rintro _ x'' s₃ ⟨rfl, hsent⟩
      have htold₃ := htold.since hsent fun _ => rfl
      have hacked : Acked x' { x' with sCounter := x'.sCounter + 1 } := by
        refine ⟨rfl, ?_⟩
        show x'.sCounter + 1 ≠ x'.sCounter
        omega
      exact triple_receiveFile hsize _ hacked htold₃ hclean (by rw [hsent.1, hlooked.1]; exact htype)
        _ _ ⟨rfl, rfl⟩
    · rintro e x'' s₃ rfl
      exact fun hne => absurd rfl hne
  · -- the lookup failed: there is no acknowledgement
    rintro e x' s₂ ⟨rfl, ⟨⟨-, t, ht, hall⟩, -⟩, what, rfl⟩ _ code hcode
    obtain ⟨e, he, hacks⟩ := List.mem_filterMap.1 (List.mem_of_head? hcode)
    rw [ht] at he
    rcases List.mem_append.1 he with he | he
    · rw [(hmute e he).acks] at hacks
      cases hacks
    · obtain ⟨answer, rfl, -⟩ := hall e he
      cases hacks

/-- **The first acknowledgement tells the truth exactly if the upload is admissible**: on an intact
    channel, in a run that the counters do not end. -/
theorem first_ack_iff (P : Platform) (payload : Buffer) (x x' : Session) (h : Host)
    (cs : List Choice) (result : Except Exit Int) (code : UInt8)
    (hintact : Host.Admits (fun _ o a => intact P x.sessionKey ⟨o, a⟩ = true) cs
      (Member.returning (uploadFile P payload) x, h))
    (hend : (Host.run cs (Member.returning (uploadFile P payload) x, h)).1.result =
      some (result, x'))
    (hcounts : result ≠ .ok (-1))
    (hack : firstAck x.sCounter (Host.events cs (Member.returning (uploadFile P payload) x, h)) =
      some code) :
    Truthful code (UploadM1.deserialize P.order payload).fileSize result
        (Host.events cs (Member.returning (uploadFile P payload) x, h)) ↔
      Admissible (UploadM1.deserialize P.order payload).fileSize
        (Host.events cs (Member.returning (uploadFile P payload) x, h)) := by
  have hrun := hintact.reaches_events cs []
  rw [List.nil_append, Program.eq_ret_of_result hend] at hrun
  have hsat := Member.triple_returning
    (Q := Ends x (UploadM1.deserialize P.order payload).fileSize)
    (triple_uploadFile payload) x (h, []) ⟨rfl, rfl⟩
  have hends := Program.Sat.result hsat hrun
  cases result with
  | ok n => exact hends hcounts code hack
  | error e => exact hends hcounts code hack

/-- A worker with an empty folder that handles the upload of a file of 20 bytes. -/
def upload (name : Buffer) : Program Sys (Except Exit Int × Session) × Host :=
  (Member.returning (uploadFile (.aes .little) ((UploadM1.new name 20).serialize .little))
    (.start (ascii "user1") (List.replicate 16 0)),
    .start (Fs.ofFolders [ascii "/data", ascii "/data/user1"]) ⟨[], false, false⟩)

/-- Nothing fails, and both chunks arrive. -/
def chunksArrive : List Choice :=
  List.replicate 8 .calm ++
    .deliver (sealedFrame 0 (RequestCodes.uploadChunk :: ascii "twenty bytes of")) :: List.replicate 3 .calm ++
    .deliver (sealedFrame 1 (RequestCodes.uploadChunk :: ascii " text")) :: List.replicate 12 .calm

set_option maxRecDepth 20000 in
/-- A file of a full chunk and five more bytes under a valid name: the promise is kept. -/
theorem first_ack_iff_twenty :
    Truthful 1 20 (.ok 1) (Host.events chunksArrive (upload (ascii "a"))) :=
  (first_ack_iff (.aes .little) ((UploadM1.new (ascii "a") 20).serialize .little)
    (.start (ascii "user1") (List.replicate 16 0)) ⟨ascii "user1", List.replicate 16 0, 2, 2⟩
    (.start (Fs.ofFolders [ascii "/data", ascii "/data/user1"]) ⟨[], false, false⟩) chunksArrive
    (.ok 1) 1 (by decide +kernel) (by decide +kernel) (fun h => absurd (Except.ok.inj h) (by decide))
    (by decide +kernel)).2 (by decide +kernel)

set_option maxRecDepth 20000 in
/-- Under the name `a,b` the worker promises to take the file and takes nothing. -/
theorem first_ack_breaks_promise :
    ¬∀ (P : Platform) (payload : Buffer) (x x' : Session) (h : Host) (cs : List Choice)
      (result : Except Exit Int) (code : UInt8),
      Host.Admits (fun _ o a => intact P x.sessionKey ⟨o, a⟩ = true) cs
        (Member.returning (uploadFile P payload) x, h) →
      (Host.run cs (Member.returning (uploadFile P payload) x, h)).1.result = some (result, x') →
      result ≠ .ok (-1) →
      firstAck x.sCounter (Host.events cs (Member.returning (uploadFile P payload) x, h)) = some code →
      Truthful code (UploadM1.deserialize P.order payload).fileSize result
        (Host.events cs (Member.returning (uploadFile P payload) x, h)) := by
  intro hall
  have htrue := hall (.aes .little) ((UploadM1.new (ascii "a,b") 20).serialize .little)
    (.start (ascii "user1") (List.replicate 16 0)) ⟨ascii "user1", List.replicate 16 0, 1, 0⟩
    (.start (Fs.ofFolders [ascii "/data", ascii "/data/user1"]) ⟨[], false, false⟩) chunksArrive
    (.ok 0) 1 (by decide +kernel) (by decide +kernel) (fun h => absurd (Except.ok.inj h) (by decide))
    (by decide +kernel)
  have hasked : asked (Host.events chunksArrive (upload (ascii "a,b"))) = [] := by decide +kernel
  have hframes := hasked.symm.trans (htrue.promised.1 rfl).2
  exact absurd hframes (by decide +kernel)

end Admission

end Worker

end CloudStorage
