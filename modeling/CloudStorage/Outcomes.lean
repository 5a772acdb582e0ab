import CloudStorage.Calls
import CloudStorage.OpenFiles

set_option autoImplicit false

/-! # What the shared calls lead to

One specification for each call that a transfer is made of, in any environment: the results it can
have, and with each of them what became of the object and of the host. -/

namespace CloudStorage

open Interaction Interaction.Routine

/-- From `x` and `h`, `r` ends in `Q` or, where it ends early, in `E`. -/
abbrev Leads {α : Type} (r : Member α) (Q : α → Session → Host → Prop)
    (E : Exit → Session → Host → Prop) (x : Session) (h : Host) : Prop :=
  r.Sat Host.anyEnv (fun _ _ _ _ => True) Q E x h

/-- A run that ends does so in a state that its result allows. -/
theorem Leads.ended {α : Type} {r : Member α} {R : Except Exit α → Session → Host → Prop}
    {x x' : Session} {h h' : Host} {result : Except Exit α}
    (hr : Leads r (fun a => R (.ok a)) (fun e => R (.error e)) x h)
    (hrun : Program.Reaches Host.anyEnv (r x, h) (.ret (result, x'), h')) : R result x' h' := by
  have hend := Program.Sat.result (p := r x) hr hrun
  cases result <;> exact hend

namespace Host

/-- Nothing was stored, reported, built or sent on the way from `h` to `h'`. -/
structure Unsaid (h h' : Host) : Prop where
  fs : h'.fs = h.fs
  printed : h'.printed = h.printed
  sealed : h'.sealed = h.sealed
  wire : h'.wire = h.wire

theorem Unsaid.refl (h : Host) : Unsaid h h := ⟨rfl, rfl, rfl, rfl⟩

theorem unsaid_accepted (h : Host) (c : Int) (p w : Buffer) : Unsaid h (h.noted (.accepted c p w)) :=
  ⟨rfl, rfl, by simp [Host.sealed, noted], rfl⟩

theorem unsaid_counted (h : Host) (c n : Int) : Unsaid h (h.noted (.counted c n)) :=
  ⟨rfl, rfl, by simp [Host.sealed, noted], rfl⟩

theorem Unsaid.trans {h h' h'' : Host} (a : Unsaid h h') (b : Unsaid h' h'') : Unsaid h h'' :=
  ⟨b.fs.trans a.fs, b.printed.trans a.printed, b.sealed.trans a.sealed, b.wire.trans a.wire⟩

@[simp]
theorem accepted_noted_accepted (h : Host) (c : Int) (p f : Buffer) :
    (h.noted (.accepted c p f)).accepted = h.accepted ++ [(c, p, f)] := by
  simp [accepted, noted]

@[simp]
theorem accepted_noted_counted (h : Host) (c n : Int) :
    (h.noted (.counted c n)).accepted = h.accepted := by
  simp [accepted, noted]

@[simp]
theorem accepted_noted_sealed (h : Host) (c : Int) (p f : Buffer) :
    (h.noted (.sealed c p f)).accepted = h.accepted := by
  simp [accepted, noted]

@[simp]
theorem sealed_noted_sealed (h : Host) (c : Int) (p f : Buffer) :
    (h.noted (.sealed c p f)).sealed = h.sealed ++ [(c, p, f)] := by
  simp [Host.sealed, noted]

@[simp]
theorem sealed_noted_counted (h : Host) (c n : Int) :
    (h.noted (.counted c n)).sealed = h.sealed := by
  simp [Host.sealed, noted]

theorem anyEnv_file {h h' : Host} {call : FileCall} {a : call.Ans}
    (hstep : anyEnv h (.sys (.file call)) a h') :
    ∃ fault, (call.answer fault h.fs).1 = a ∧ h' = { h with fs := (call.answer fault h.fs).2 } := by
  obtain ⟨c, hc⟩ := hstep
  exact ⟨c.fault, congrArg Prod.fst hc, (congrArg Prod.snd hc).symm⟩

end Host

variable {P : Platform} {x : Session} {h : Host} {E : Exit → Session → Host → Prop}

/-! ## Receiving -/

/-- A packet of `n` bytes was accepted under the current counter. -/
def Received (x : Session) (h : Host) (n : Nat) (payload : Buffer) (h' : Host) : Prop :=
  h.Unsaid h' ∧ payload.length = n ∧ ∃ w, h'.accepted = h.accepted ++ [(x.rCounter, payload, w)]

/-- A receive returned -1: the counter did not match, or it ran out. -/
def NotReceived (x : Session) (h : Host) (n : Nat) (h' : Host) : Prop :=
  h' = h ∨ ∃ payload, Received x h n payload h'

theorem length_openFrame {key w payload : Buffer} (hw : Wrapper.overhead ≤ w.length)
    (hopen : Wrapper.openFrame P key w = some payload) :
    payload.length = w.length - Wrapper.overhead := by
  rw [P.length_decrypt _ _ _ _ _ _ hopen, length_slice]
  unfold Wrapper.overhead Wrapper.ivLength Wrapper.tagLength at *
  omega

theorem incrementCounter_of_ne {c : Int} (hne : incrementCounter c ≠ -1) :
    incrementCounter c = c + 1 := by
  unfold incrementCounter at *
  split_ifs at hne ⊢
  · exact absurd rfl hne
  · rfl

/-- What `receivePacket` can end with. -/
theorem leads_receivePacket {n : Nat} {Q : Option Buffer → Session → Host → Prop}
    (hn : n < 4294967296) (hnone : Q none x h)
    (hsome : ∀ payload h', Received x h n payload h' →
      Q (some payload) { x with rCounter := x.rCounter + 1 } h')
    (hleft : ∀ x' h', NotReceived x h n h' → E (.returned (-1)) x' h') :
    Leads (Member.receivePacket P n) Q E x h := by
  have hsize : Wrapper.getSize n = Wrapper.overhead + n := Wrapper.getSize_of_lt (by omega)
  have hfit : tooLarge (Wrapper.overhead + n) = false := by
    unfold tooLarge Wrapper.overhead Wrapper.ivLength Wrapper.tagLength
    exact decide_eq_false (by omega)
  simp only [Member.receivePacket, Member.receiveFrame, hsize, hfit, Bool.false_eq_true, if_false,
    sat_bind, Member.sat_receiveData]
  intro r h₁ hrecv
  obtain ⟨rfl, hlen⟩ := Host.anyEnv_recv hrecv
  refine ⟨trivial, ?_⟩
  cases r with
  | none => exact hnone
  | some w =>
      have hw : w.length = Wrapper.overhead + n := hlen w rfl
      simp only [sat_bind, sat_get, Wrapper.deserialize]
      rw [if_neg (by rw [hw]; unfold Wrapper.overhead; omega), if_neg (by omega), sat_pure]
      cases hopen : Wrapper.openFrame P x.sessionKey w with
      | none => exact hnone
      | some payload =>
          have hplen : payload.length = n := by
            rw [length_openFrame (by omega) hopen, hw]
            omega
          simp only [Option.map_some, sat_pure, sat_bind, Member.checkCounter, sat_get]
          split_ifs with hcounter
          · exact hleft _ _ (Or.inl rfl)
          · simp only [Member.advanceReceive, Member.sat_note, sat_bind, sat_get, sat_modify]
            intro u h₂ hnote
            rw [Host.anyEnv_note hnote]
            refine ⟨trivial, fun u' h₃ hnote' => ?_⟩
            rw [Host.anyEnv_note hnote']
            have hunsaid := (Host.unsaid_accepted h₁ (Wrapper.counterOf P w) payload w).trans
              (Host.unsaid_counted _ x.rCounter (incrementCounter x.rCounter))
            have hrec : Received x h₁ n payload
                ((h₁.noted (.accepted (Wrapper.counterOf P w) payload w)).noted
                  (.counted x.rCounter (incrementCounter x.rCounter))) :=
              ⟨hunsaid, hplen, w, by simp [not_not.1 hcounter]⟩
            refine ⟨trivial, ?_⟩
            split_ifs with hend
            · exact hleft _ _ (Or.inr ⟨payload, hrec⟩)
            · have hq := hsome payload _ hrec
              rwa [← incrementCounter_of_ne hend] at hq

theorem leads_expectPacket {n : Nat} {result : Int} {Q : Buffer → Session → Host → Prop}
    (hn : n < 4294967296) (hnone : E (.returned result) x h)
    (hsome : ∀ payload h', Received x h n payload h' →
      Q payload { x with rCounter := x.rCounter + 1 } h')
    (hleft : ∀ x' h', NotReceived x h n h' → E (.returned (-1)) x' h') :
    Leads (Member.expectPacket P n result) Q E x h := by
  unfold Leads Member.expectPacket Member.expect
  rw [sat_bind]
  exact leads_receivePacket hn hnone hsome hleft

/-! ## Sending -/

/-- The packet was handed over, or was not: the files, the reports and the accepted frames are as
    before, and nothing was built but this packet under the current counter. -/
structure Sent (x : Session) (h : Host) (payload : Buffer) (h' : Host) : Prop where
  fs : h'.fs = h.fs
  printed : h'.printed = h.printed
  accepted : h'.accepted = h.accepted
  sealed : ∀ e ∈ h'.sealed, e ∈ h.sealed ∨ (e.1 = x.sCounter ∧ e.2.1 = payload)

theorem Sent.refl (x : Session) (h : Host) (payload : Buffer) : Sent x h payload h :=
  ⟨rfl, rfl, rfl, fun _ => Or.inl⟩

theorem Sent.put {payload w : Buffer} {h' : Host} (hs : Sent x h payload h') :
    Sent x h payload (h'.put w) := by
  unfold Host.put
  split
  · exact hs
  · exact ⟨hs.fs, hs.printed, hs.accepted, hs.sealed⟩

theorem Sent.counted {payload : Buffer} {h' : Host} (hs : Sent x h payload h') (c n : Int) :
    Sent x h payload (h'.noted (.counted c n)) :=
  ⟨hs.fs, hs.printed, by simpa using hs.accepted, by simpa using hs.sealed⟩

/-- What `sendFrame` can end with. -/
theorem leads_sendFrame {payload w : Buffer} {h' : Host} {Q : Unit → Session → Host → Prop}
    (hs : Sent x h payload h')
    (hok : ∀ h'', Sent x h payload h'' → Q () { x with sCounter := x.sCounter + 1 } h'')
    (hleft : ∀ n x' h'', Sent x h payload h'' → E (.returned n) x' h'') :
    Leads (Member.sendFrame w) Q E x h' := by
  simp only [Member.sendFrame, Member.advanceSend, sat_bind, Member.sat_sendData, sat_require,
    sat_get, sat_modify, Member.sat_note]
  intro sent h₁ hstep
  rcases Host.anyEnv_send hstep with ⟨rfl, rfl⟩ | ⟨rfl, rfl⟩
  · exact ⟨trivial, by simp, fun _ => hleft _ _ _ hs⟩
  · refine ⟨trivial, fun _ u h₂ hnote => ?_, by simp⟩
    rw [Host.anyEnv_note hnote]
    have hs' := (hs.put (w := w)).counted x.sCounter (incrementCounter x.sCounter)
    refine ⟨trivial, ?_⟩
    split_ifs with hend
    · exact hleft _ _ _ hs'
    · have hq := hok _ hs'
      rwa [← incrementCounter_of_ne hend] at hq

/-- What `sendPacket` can end with. -/
theorem leads_sendPacket {payload : Buffer} {Q : Unit → Session → Host → Prop}
    (hok : ∀ h', Sent x h payload h' → Q () { x with sCounter := x.sCounter + 1 } h')
    (hleft : ∀ n x' h', Sent x h payload h' → E (.returned n) x' h') :
    Leads (Member.sendPacket P payload) Q E x h := by
  simp only [Member.sendPacket, Wrapper.serialize, sat_bind, sat_get, Member.sat_random]
  intro iv h₁ hrandom
  obtain ⟨rfl, -⟩ := Host.anyEnv_random hrandom
  have hrefl := Sent.refl x h₁ payload
  refine ⟨trivial, ?_⟩
  cases iv with
  | none => exact leads_sendFrame hrefl hok hleft
  | some iv =>
      dsimp only
      split
      · exact leads_sendFrame hrefl hok hleft
      · rename_i w hw
        simp only [sat_bind, Member.sat_note, sat_pure]
        intro u h₂ hnote
        rw [Host.anyEnv_note hnote]
        have hs : Sent x h₁ payload (h₁.noted (.sealed x.sCounter payload w)) := by
          refine ⟨rfl, rfl, by simp, fun e he => ?_⟩
          rw [Host.sealed_noted_sealed, List.mem_append, List.mem_singleton] at he
          rcases he with he | rfl
          · exact Or.inl he
          · exact Or.inr ⟨rfl, rfl⟩
        exact ⟨trivial, leads_sendFrame hs hok hleft⟩

/-! ## The machine -/

theorem leads_readName {field : Buffer} {Q : Buffer → Session → Host → Prop}
    (hQ : ∀ beyond, Q (cstr (field ++ beyond)) x h) : Leads (Member.readName field) Q E x h := by
  unfold Leads Member.readName
  rw [sat_bind]
  rintro beyond h₁ ⟨c, hc⟩
  obtain rfl : h = h₁ := congrArg Prod.snd hc
  exact ⟨trivial, hQ beyond⟩

theorem leads_getline {Q : Option Buffer × Bool → Session → Host → Prop}
    (hQ : Q h.console.getline.1 x { h with console := h.console.getline.2 }) :
    Leads Member.getline Q E x h := by
  rintro line h₁ ⟨c, hc⟩
  obtain rfl : h.console.getline.1 = line := congrArg Prod.fst hc
  obtain rfl : _ = h₁ := congrArg Prod.snd hc
  exact ⟨trivial, hQ⟩

theorem leads_clearAndIgnore {Q : Unit → Session → Host → Prop}
    (hQ : Q () x { h with console := h.console.clearAndIgnore }) :
    Leads Member.clearAndIgnore Q E x h := by
  rintro u h₁ ⟨c, hc⟩
  obtain rfl : _ = h₁ := congrArg Prod.snd hc
  exact ⟨trivial, hQ⟩

theorem leads_print {r : Report} {Q : Unit → Session → Host → Prop}
    (hQ : Q () x { h with printed := h.printed ++ [r] }) : Leads (Member.print r) Q E x h := by
  rintro u h₁ ⟨c, hc⟩
  obtain rfl : _ = h₁ := congrArg Prod.snd hc
  exact ⟨trivial, hQ⟩

/-! ## Files -/

/-- `File::exists`, where a `stat` says `t` or fails. -/
theorem sat_exists {S : Type} {rely guar : Transition Sys S} {path : Buffer} {t : Option FileType} {s : S}
    {Q : Bool → Session → S → Prop} {E : Exit → Session → S → Prop}
    (hstat : ∀ (a : Option FileType) s', rely s (.sys (.file (.stat path))) a s' →
      guar s (.sys (.file (.stat path))) a s' ∧ s' = s ∧ (a = none ∨ a = t))
    (hQ : ∀ b, (b = true ↔ t = some .regular) → Q b x s) (hthrown : E (.thrown .filesystemError) x s) :
    (File.exists path).Sat rely guar Q E x s := by
  simp only [File.exists, sat_bind]
  intro a s₁ hstep
  obtain ⟨hguar, rfl, ha⟩ := hstat a s₁ hstep
  refine ⟨hguar, ?_⟩
  rcases a with _ | found
  · exact hthrown
  · have ht := ha.resolve_left (by simp)
    cases found with
    | notFound => exact hQ false (by simp [← ht])
    | _ =>
        dsimp only
        intro a' s₂ hstep'
        obtain ⟨hguar', rfl, ha'⟩ := hstat a' s₂ hstep'
        refine ⟨hguar', ?_⟩
        rcases a' with _ | found'
        · exact hthrown
        · have ht' := ha'.resolve_left (by simp)
          cases found' with
          | notFound =>
              rw [← ht'] at ht
              cases ht
          | regular => exact hQ true (by simp [← ht'])
          | directory => exact hQ false (by simp [← ht'])

theorem leads_exists {path : Buffer} {Q : Bool → Session → Host → Prop}
    (hQ : ∀ b, (b = true ↔ h.fs.fileType path = some .regular) → Q b x h)
    (hthrown : E (.thrown .filesystemError) x h) : Leads (File.exists path) Q E x h := by
  refine sat_exists (fun a h' hstep => ?_) hQ hthrown
  obtain ⟨fault, ha, rfl⟩ := Host.anyEnv_file hstep
  refine ⟨trivial, rfl, ?_⟩
  cases fault
  · exact Or.inr ha.symm
  · exact Or.inl ha.symm

/-- A `try` block turns what is thrown into a value. -/
theorem sat_attempt {S α : Type} {rely guar : Transition Sys S} {r : Member α} {s : S}
    {Q : Except Exception α → Session → S → Prop} {E : Exit → Session → S → Prop}
    (hr : r.Sat rely guar (fun a => Q (.ok a)) (fun e x s => match e with
      | .thrown e => Q (.error e) x s
      | e => E e x s) x s) : (Member.attempt r).Sat rely guar Q E x s := by
  unfold Member.attempt
  rw [sat_catchExit, sat_bind]
  refine hr.imp (fun _ _ _ => id) fun e x' s' he => ?_
  cases e <;> exact he

/-- The host with the file system after the file at `path` was opened for writing. -/
def Opened (path : Buffer) (h : Host) (handle : Nat) (h' : Host) : Prop :=
  ∃ fs', h.fs.openWrite path = (some handle, fs') ∧ h' = { h with fs := fs' }

/-- `File::create` leaves the host as it is, or opens a file that is not there yet. -/
theorem leads_create {path : Buffer} {f : File}
    {Q : File × Option Exception → Session → Host → Prop}
    (herror : ∀ f e, Q (f, some e) x h)
    (hok : ∀ f handle h', h.fs.fileType path ≠ some .regular → f.output = .opened handle →
      Opened path h handle h' → Q (f, none) x h') : Leads (f.create path) Q E x h := by
  unfold Leads File.create
  rw [sat_bind]
  refine sat_attempt (leads_exists (fun b hb => ?_) (herror _ _))
  cases b with
  | true => exact herror _ _
  | false =>
      have hnot : h.fs.fileType path ≠ some .regular := by simpa using hb
      dsimp only
      split
      · simp only [sat_bind]
        intro a h₁ hstep
        obtain ⟨fault, ha, rfl⟩ := Host.anyEnv_file hstep
        cases fault with
        | true =>
            cases ha
            exact ⟨trivial, herror _ _⟩
        | false =>
            cases a with
            | none =>
                have hsame : ((FileCall.openWrite path).answer false h.fs).2 = h.fs :=
                  Fs.openWrite_none (Prod.ext ha rfl)
                rw [hsame]
                exact ⟨trivial, herror _ _⟩
            | some handle =>
                have hopen : Opened path h handle
                    { h with fs := ((FileCall.openWrite path).answer false h.fs).2 } :=
                  ⟨_, Prod.ext ha rfl, rfl⟩
                exact ⟨trivial, hok _ _ _ hnot rfl hopen⟩
      · exact herror _ _

/-- Writing a chunk at the end of an open file appends it, or throws and changes nothing. -/
theorem leads_writeChunk {f : File} {handle : Nat} {p : Path} {data chunk : Buffer}
    {Q : Unit → Session → Host → Prop} (hf : f.output = .opened handle)
    (hopen : h.fs.OpenAt handle p data)
    (hok : Q () x { h with fs := (h.fs.write handle chunk).2 })
    (hthrown : ∀ e, E (.thrown e) x h) : Leads (f.writeChunk chunk) Q E x h := by
  unfold Leads File.writeChunk
  rw [hf]
  simp only [sat_bind, sat_require]
  intro a h₁ hstep
  obtain ⟨fault, ha, rfl⟩ := Host.anyEnv_file hstep
  cases fault with
  | true =>
      obtain rfl : a = false := ha.symm
      exact ⟨trivial, by simp, fun _ => hthrown _⟩
  | false =>
      have htrue : a = true := ha.symm.trans (Fs.write_openAt hopen chunk).1
      subst htrue
      exact ⟨trivial, fun _ => hok, by simp⟩

end CloudStorage
