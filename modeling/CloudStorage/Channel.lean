import CloudStorage.Interaction.Parallel
import CloudStorage.Counters

set_option autoImplicit false

/-! # Origin of the frames

Client and worker side by side, and an attacker who owns the network: a receive may get any block, but
one that opens under the session key is a frame that one of the two has sent. Nothing in a frame says
which of the two, so an attacker can hand an end its own frame back. It is accepted where the end
waits for a frame of that length and has accepted as many frames as the number in it says;
`Reflectable` is this condition.

Where no receive is made in such a state, what an end accepts is a prefix of what its peer has sent.
The proof has two parts. Locally, `trusting` is the conduct of one end, which knows a part of its
peer's wire: what it accepts is on it. Globally, the wires of both carry increasing numbers, so the
accepted frames, which are numbered from 0 without a gap, are the first ones of the wire. -/

namespace CloudStorage

open Interaction Interaction.Routine

open Wrapper (counterOf openFrame)

/-- A list that is numbered without a gap, and taken from one with increasing numbers that starts no
    earlier, is the start of that list. -/
theorem prefix_of_numbered {α : Type} {f : α → Int} {xs ys : List α} {r : Int}
    (hxs : xs.map f = (List.range xs.length).map fun i : Nat => r + i)
    (hys : (ys.map f).Pairwise (· < ·)) (hr : ∀ y ∈ ys, r ≤ f y) (hsub : ∀ x ∈ xs, x ∈ ys) :
    xs <+: ys := by
  induction xs generalizing ys r with
  | nil => exact List.nil_prefix
  | cons x xs ih =>
      rw [List.length_cons, List.range_succ_eq_map, List.map_cons, List.map_cons, List.map_map,
        List.cons.injEq] at hxs
      obtain ⟨hx, hxs⟩ := hxs
      cases ys with
      | nil => exact absurd (hsub x (List.mem_cons_self ..)) (by simp)
      | cons y ys =>
          rw [List.map_cons, List.pairwise_cons] at hys
          have hlater : ∀ z ∈ ys, f y < f z := fun z hz => hys.1 _ (List.mem_map_of_mem hz)
          have hy : r ≤ f y := hr y (List.mem_cons_self ..)
          have hxy : x = y := by
            rcases List.mem_cons.1 (hsub x (List.mem_cons_self ..)) with h | h
            · exact h
            · have := hlater x h
              simp only [Int.ofNat_zero, Int.add_zero] at hx
              omega
          subst hxy
          rw [List.cons_prefix_cons]
          refine ⟨rfl, ih (r := r + 1) ?_ hys.2 (fun z hz => ?_) fun z hz => ?_⟩
          · rw [hxs]
            refine List.map_congr_left fun i _ => ?_
            simp only [Function.comp_apply, Nat.succ_eq_add_one]
            push_cast
            omega
          · have := hlater z hz
            omega
          · -- the numbers of the others are past that of the first
            refine (List.mem_cons.1 (hsub z (List.mem_cons_of_mem _ hz))).resolve_left ?_
            rintro rfl
            have hmem : f z ∈ xs.map f := List.mem_map_of_mem hz
            rw [hxs, List.mem_map] at hmem
            obtain ⟨i, -, hi⟩ := hmem
            simp only [Int.ofNat_zero, Int.add_zero, Function.comp_apply, Nat.succ_eq_add_one] at hx hi
            push_cast at hi
            omega

/-! ## The network -/

/-- The other end. -/
def Endpoint.peer : Endpoint → Endpoint
  | .client => .worker
  | .worker => .client

/-- A received block that opens is one that is `known`. -/
def Delivered (P : Platform) (key : Buffer) (known : Buffer → Prop) : (o : Sys.Op) → Sys.Ans o → Prop
  | .recv _, some w => openFrame P key w ≠ none → known w
  | _, _ => True

instance (P : Platform) (key : Buffer) (known : Buffer → Prop) [DecidablePred known] :
    ∀ o a, Decidable (Delivered P key known o a)
  | .recv _, some w => inferInstanceAs (Decidable (openFrame P key w ≠ none → known w))
  | .recv _, none => .isTrue trivial
  | .send _, _ | .sys _, _ => .isTrue trivial

theorem Delivered.imp {P : Platform} {key : Buffer} {known known' : Buffer → Prop} {o : Sys.Op}
    {a : Sys.Ans o} (h : Delivered P key known o a) (hk : ∀ w, known w → known' w) :
    Delivered P key known' o a := by
  match o, a with
  | .recv _, some w => exact fun hopen => hk w (h hopen)
  | .recv _, none => trivial
  | .send _, _ | .sys _, _ => trivial

/-- An end has sent a frame that it would accept as the next one, of `n` bytes. -/
def Reflectable (P : Platform) (h : Host) (n : Nat) : Prop :=
  ∃ w ∈ h.wire, w.length = n ∧ counterOf P w = h.accepted.length

instance (P : Platform) (h : Host) (n : Nat) : Decidable (Reflectable P h n) :=
  inferInstanceAs (Decidable (∃ w ∈ h.wire, _))

/-- The call is no receive that could be answered with the end's own frame. -/
def Unreflected (P : Platform) (h : Host) : Sys.Op → Prop
  | .recv n => ¬Reflectable P h n
  | _ => True

instance (P : Platform) (h : Host) : ∀ o, Decidable (Unreflected P h o)
  | .recv n => inferInstanceAs (Decidable ¬Reflectable P h n)
  | .send _ | .sys _ => .isTrue trivial

/-- An attacker who knows every frame on either wire; the cipher is ideal, so there is no other block
    that opens. Only calls that `may` be made are answered. -/
def Network (P : Platform) (key : Buffer) (may : Host → Sys.Op → Prop) (e : Endpoint)
    (hosts : Endpoint → Host) (o : Sys.Op) (a : Sys.Ans o) (h' : Host) : Prop :=
  Host.anyEnv (hosts e) o a h' ∧ may (hosts e) o ∧
    Delivered P key (fun w => w ∈ (hosts .client).wire ∨ w ∈ (hosts .worker).wire) o a

/-! ## One end -/

variable (P : Platform) (key : Buffer)

/-- The network as one end sees it, with what is known of the peer's wire beside its own state. -/
def Attacked : Transition Sys (Host × List Buffer) := fun s o a s' =>
  Host.anyEnv s.1 o a s'.1 ∧ s.2 <+: s'.2 ∧
    Delivered P key (fun w => w ∈ s.1.wire ∨ w ∈ s'.2) o a ∧ Unreflected P s.1 o

/-- Accepted frames are the peer's and open to what was accepted; frames on the wire were sealed and
    open to what was sealed. -/
structure Authentic (s : Host × List Buffer) : Prop where
  accepted : ∀ e ∈ s.1.accepted, e.2.2 ∈ s.2 ∧ openFrame P key e.2.2 = some e.2.1
  sent : ∀ w ∈ s.1.wire, ∃ c p, (c, p, w) ∈ s.1.sealed ∧ openFrame P key w = some p

/-- Every call leaves an authentic state, and a frame that is accepted is the peer's and not the
    end's own. -/
def Trusted : Transition Sys (Host × List Buffer) := fun s o _ s' =>
  Authentic P key s' ∧ ∀ c p w, o = .sys (.note (.accepted c p w)) → w ∉ s.1.wire ∧ w ∈ s'.2

theorem trusted_send {s s' : Host × List Buffer} {data : Buffer} {sent : Bool}
    (h : Authentic P key s') : Trusted P key s (.send data) sent s' :=
  ⟨h, fun _ _ _ heq => by cases heq⟩

/-- The object agrees with the state; `current` is its key. -/
structure Keyed (current : Buffer) (pending : Nat) (x : Session) (s : Host × List Buffer) : Prop where
  authentic : Authentic P key s
  key : x.sessionKey = current
  received : x.rCounter + pending = s.1.accepted.length

/-- A frame that was received and opened, with its number. -/
structure Unwrapped (f : Int × Buffer × Buffer) (x : Session) (s : Host × List Buffer) : Prop where
  keyed : Keyed P key key 0 x s
  counter : f.1 = counterOf P f.2.2
  opens : openFrame P key f.2.2 = some f.2.1
  known : f.2.2 ∈ s.1.wire ∨ f.2.2 ∈ s.2
  notOwn : f.2.2 ∈ s.1.wire → f.1 ≠ s.1.accepted.length

/-- The triples of this section. -/
abbrev Trusts {α : Type} (Pre : Session → Host × List Buffer → Prop) (r : Member α)
    (Post : α → Session → Host × List Buffer → Prop) : Prop :=
  Triple (Attacked P key) (Trusted P key) Pre r Post (LeftOver (Keyed P key key 0))

variable {P key} {x : Session} {s s' : Host × List Buffer} {current : Buffer} {k : Nat}

theorem Authentic.congr (au : Authentic P key s) (hw : s'.1.wire = s.1.wire)
    (ha : s'.1.accepted = s.1.accepted) (hs : s.1.sealed ⊆ s'.1.sealed) (hp : s.2 <+: s'.2) :
    Authentic P key s' := by
  refine ⟨fun e he => ?_, fun w hmem => ?_⟩
  · rw [ha] at he
    exact ⟨hp.subset (au.accepted e he).1, (au.accepted e he).2⟩
  · rw [hw] at hmem
    obtain ⟨c, p, hsealed, hopen⟩ := au.sent w hmem
    exact ⟨c, p, hs hsealed, hopen⟩

theorem Host.sealed_grows {h h' : Host} {o : Sys.Op} {a : Sys.Ans o} (hstep : anyEnv h o a h') :
    h.sealed ⊆ h'.sealed :=
  ((anyEnv_grows hstep).2.filterMap _).subset

/-- Calls that log nothing keep an authentic state. -/
theorem Authentic.quiet {o : Sys.Op} {a : Sys.Ans o} (au : Authentic P key s) (ho : Unlogged o)
    (hstep : Attacked P key s o a s') :
    Trusted P key s o a s' ∧ Authentic P key s' ∧ s'.1.accepted = s.1.accepted := by
  obtain ⟨henv, hp, -, -⟩ := hstep
  have hs := Host.sealed_grows henv
  obtain ⟨c, hc⟩ := henv
  obtain ⟨hw, ha, -⟩ := Host.answer_uncounted (c := c) (h := s.1) ho.uncounted
  rw [hc] at hw ha
  have au' : Authentic P key s' := au.congr hw ha hs hp
  refine ⟨⟨au', ?_⟩, au', ha⟩
  rintro c p w rfl
  exact ho.elim

theorem quiet_authentic : Quiet (Attacked P key) (Trusted P key) fun _ s => Authentic P key s :=
  fun _ _ _ _ _ ho au hstep => ⟨(au.quiet ho hstep).1, (au.quiet ho hstep).2.1⟩

theorem quiet_keyed : Quiet (Attacked P key) (Trusted P key) (Keyed P key current k) := by
  intro x s o a s' ho st hstep
  obtain ⟨hg, au, ha⟩ := st.authentic.quiet ho hstep
  exact ⟨hg, au, st.key, by rw [ha, st.received]⟩

/-- A note keeps an authentic state, but for that of an acceptance. -/
theorem Authentic.note {e : Note} {u : Unit} (au : Authentic P key s)
    (he : ∀ c p w, e ≠ .accepted c p w) (hstep : Attacked P key s (.sys (.note e)) u s') :
    Trusted P key s (.sys (.note e)) u s' ∧ Authentic P key s' ∧
      s'.1.accepted = s.1.accepted ∧ s'.1 = s.1.noted e := by
  obtain ⟨henv, hp, -, -⟩ := hstep
  have hs := Host.sealed_grows henv
  have hnoted := Host.anyEnv_note henv
  have ha : s'.1.accepted = s.1.accepted := by
    rw [hnoted]
    unfold Host.accepted Host.noted
    cases e with
    | accepted c p w => exact absurd rfl (he c p w)
    | _ => simp
  have au' : Authentic P key s' := au.congr (by rw [hnoted]; rfl) ha hs hp
  refine ⟨⟨au', fun c p w hacc => ?_⟩, au', ha, hnoted⟩
  cases hacc
  exact absurd rfl (he c p w)

/-! ## The shared calls -/

/-- A frame may be sent: it was sealed and opens to its payload, or there is nothing to send. -/
def Sendable (P : Platform) (key w : Buffer) (s : Host × List Buffer) : Prop :=
  w = [] ∨ ∃ c p, (c, p, w) ∈ s.1.sealed ∧ openFrame P key w = some p

theorem trusts_sendFrame (w : Buffer) :
    Triple (Attacked P key) (Trusted P key)
      (fun x s => Keyed P key current 0 x s ∧ Sendable P key w s) (Member.sendFrame w)
      (fun _ => Keyed P key current 0) (LeftOver (Keyed P key current 0)) := by
  rintro x s ⟨st, hw⟩
  simp only [Member.sendFrame, Member.advanceSend, sat_bind, Member.sat_sendData, sat_require,
    sat_get, sat_modify, Member.sat_note]
  rintro sent s₁ ⟨henv, hp, -, -⟩
  have hs := Host.sealed_grows henv
  have hacc : s₁.1.accepted = s.1.accepted := by
    rcases Host.anyEnv_send henv with ⟨-, h⟩ | ⟨-, h⟩
    · rw [h]
    · rw [h]
      unfold Host.put
      split_ifs <;> rfl
  have au : Authentic P key s₁ := by
    refine ⟨fun e he => ?_, fun f hf => ?_⟩
    · rw [hacc] at he
      exact ⟨hp.subset (st.authentic.accepted e he).1, (st.authentic.accepted e he).2⟩
    · have hf' : f ∈ s.1.wire ∨ (f = w ∧ w ≠ []) := by
        rcases Host.anyEnv_send henv with ⟨-, h⟩ | ⟨-, h⟩
        · rw [h] at hf
          exact Or.inl hf
        · rw [h] at hf
          unfold Host.put at hf
          split_ifs at hf with hnil
          · exact Or.inl hf
          · simpa [hnil] using hf
      rcases hf' with hf' | ⟨rfl, hne⟩
      · obtain ⟨c, p, hsealed, hopen⟩ := st.authentic.sent f hf'
        exact ⟨c, p, hs hsealed, hopen⟩
      · obtain ⟨c, p, hsealed, hopen⟩ := hw.resolve_left hne
        exact ⟨c, p, hs hsealed, hopen⟩
  have st₁ : Keyed P key current 0 x s₁ := ⟨au, st.key, by rw [hacc, st.received]⟩
  refine ⟨trusted_send P key au, fun _ u s₂ hnote => ?_, fun _ n _ => Or.inr st₁⟩
  obtain ⟨hg, au₂, ha₂, -⟩ := au.note (by simp) hnote
  refine ⟨hg, ?_⟩
  split_ifs
  · exact fun n hn => Or.inl (by simpa using hn.symm)
  · exact ⟨au₂, st.key, by rw [ha₂]; exact st₁.received⟩

theorem trusts_serialize (counter : Int) (payload : Buffer) :
    Trusts P key (Keyed P key key 0) (Wrapper.serialize P key counter payload) fun w x s =>
      Keyed P key key 0 x s ∧ Sendable P key w s := by
  intro x s st
  simp only [Wrapper.serialize, sat_bind, Member.sat_random]
  intro iv s₁ hrandom
  obtain ⟨-, hiv⟩ := Host.anyEnv_random hrandom.1
  obtain ⟨hg, st₁⟩ := quiet_keyed x s (.sys (.random _)) iv s₁ trivial st hrandom
  refine ⟨hg, ?_⟩
  cases iv with
  | none => exact ⟨st₁, Or.inl rfl⟩
  | some iv =>
      dsimp only
      split
      · exact ⟨st₁, Or.inl rfl⟩
      · rename_i wrapper hframe
        simp only [sat_bind, Member.sat_note, sat_pure]
        intro u s₂ hnote
        obtain ⟨hg₂, au₂, ha₂, hnoted⟩ := st₁.authentic.note (by simp) hnote
        refine ⟨hg₂, ⟨au₂, st.key, by rw [ha₂, st₁.received]⟩, Or.inr ⟨counter, payload, ?_,
          Wrapper.openFrame_frame (hiv iv rfl) hframe⟩⟩
        rw [hnoted]
        simp [Host.sealed, Host.noted]

theorem trusts_sendPacket (payload : Buffer) :
    Trusts P key (Keyed P key key 0) (Member.sendPacket P payload) fun _ => Keyed P key key 0 := by
  refine .bind (.get (P := fun s x h => Keyed P key key 0 x h ∧ s.sessionKey = key)
    fun _ _ st => ⟨st, st.key⟩) fun s => ?_
  refine .bind (P := fun w x h => Keyed P key key 0 x h ∧ Sendable P key w h) (fun x h st => ?_)
    fun w => trusts_sendFrame w
  rw [st.2]
  exact trusts_serialize _ _ x h st.1

/-- What opens is known, and not an own frame with the awaited number. -/
theorem trusts_receiveFrame (n : Nat) :
    Trusts P key (Keyed P key key 0) (Member.receiveFrame P n) fun r x s => match r with
      | none => Keyed P key key 0 x s
      | some f => Unwrapped P key f x s := by
  intro x s st
  unfold Member.receiveFrame
  dsimp only
  split
  · exact fun _ heq => by cases heq
  · simp only [sat_bind, Member.sat_receiveData]
    intro r s₁ hrecv
    obtain ⟨hg, st₁⟩ := quiet_keyed x s (.recv _) r s₁ trivial st hrecv
    obtain ⟨henv, hp, hdel, hown⟩ := hrecv
    obtain ⟨hsame, hlen⟩ := Host.anyEnv_recv henv
    refine ⟨hg, ?_⟩
    cases r with
    | none => exact st₁
    | some w =>
        simp only [sat_bind, sat_get, Wrapper.deserialize]
        split_ifs
        · exact fun _ heq => by cases heq
        · exact fun _ heq => by cases heq
        · rw [sat_pure, st.key]
          cases hopen : openFrame P key w with
          | none => exact st₁
          | some p =>
              have hknown := hdel (by simp [hopen])
              refine ⟨st₁, rfl, hopen, hsame ▸ hknown, fun hw hc => hown ⟨w, ?_, hlen w rfl, ?_⟩⟩
              · rw [← hsame]
                exact hw
              · rw [← hsame]
                exact hc

theorem trusts_checkCounter (c : Int) (p w : Buffer) :
    Trusts P key (Unwrapped P key (c, p, w)) (Member.checkCounter c p w) fun _ => Keyed P key key 1 := by
  intro x s st
  have hreceived := st.keyed.received
  simp only [Member.checkCounter, sat_bind, sat_get]
  split_ifs with hne
  · exact fun n hn => Or.inl (by simpa using hn.symm)
  · rw [Member.sat_note]
    rintro u s₁ ⟨henv, hp, -, -⟩
    have hs := Host.sealed_grows henv
    have hnoted := Host.anyEnv_note henv
    have hnot : w ∉ s.1.wire := fun hw => st.notOwn hw (by simp only; omega)
    have hpeer : w ∈ s.2 := st.known.resolve_left hnot
    have hacc : s₁.1.accepted = s.1.accepted ++ [(c, p, w)] := by
      rw [hnoted]
      simp [Host.accepted, Host.noted]
    have au : Authentic P key s₁ := by
      refine ⟨fun e he => ?_, fun f hf => ?_⟩
      · rw [hacc, List.mem_append, List.mem_singleton] at he
        rcases he with he | rfl
        · exact ⟨hp.subset (st.keyed.authentic.accepted e he).1,
            (st.keyed.authentic.accepted e he).2⟩
        · exact ⟨hp.subset hpeer, st.opens⟩
      · rw [hnoted] at hf
        obtain ⟨c', p', hsealed, hopen⟩ := st.keyed.authentic.sent f hf
        exact ⟨c', p', hs hsealed, hopen⟩
    refine ⟨⟨au, fun c' p' w' heq => ?_⟩, au, st.keyed.key, ?_⟩
    · cases heq
      exact ⟨hnot, hp.subset hpeer⟩
    · rw [hacc, List.length_append, List.length_singleton]
      push_cast
      omega

theorem trusts_advanceReceive :
    Trusts P key (Keyed P key key 1) Member.advanceReceive fun _ => Keyed P key key 0 := by
  intro x s st
  simp only [Member.advanceReceive, sat_bind, sat_get, sat_modify, Member.sat_note]
  intro u s₁ hnote
  obtain ⟨hg, au, ha, -⟩ := st.authentic.note (by simp) hnote
  refine ⟨hg, ?_⟩
  split_ifs with hend
  · exact fun n hn => Or.inl (by simpa using hn.symm)
  · refine ⟨au, st.key, ?_⟩
    show incrementCounter x.rCounter + 0 = _
    rw [incrementCounter_of_ne hend, ha, ← st.received]
    simp

theorem trusts_workerLogout :
    Triple (Attacked P key) (Trusted P key) (Keyed P key key 0) (Worker.logout P)
      (fun _ _ _ => True) fun _ _ _ => True := by
  refine .bind (.get (P := fun s x h => Keyed P key key 0 x h ∧ s.sessionKey = key)
    fun _ _ st => ⟨st, st.key⟩) fun s => ?_
  refine .bind (P := fun w x h => Keyed P key key 0 x h ∧ Sendable P key w h) (fun x h st => ?_)
    fun w => ?_
  · rw [st.2]
    exact (trusts_serialize _ _ x h st.1).imp (fun _ _ _ => id) fun _ _ _ _ => trivial
  · refine .bind (P := fun _ x h => Keyed P key [] 0 x h ∧ Sendable P key w h) ?_ fun _ => ?_
    · exact fun x h st => ⟨⟨st.1.authentic, rfl, st.1.received⟩, st.2⟩
    · exact .bind ((trusts_sendFrame w).conseq (fun _ _ => id) (fun _ _ _ => id)
        fun _ _ _ _ => trivial) fun _ => .pure _ fun _ _ _ => trivial

theorem trusts_garbage (u : Unset) :
    Trusts P key (Keyed P key key 0) (Member.garbage u) fun _ => Keyed P key key 0 := by
  intro x s st word s' hstep
  have hs := Host.sealed_grows hstep.1
  obtain ⟨⟨c, hc⟩, hp, -, -⟩ := hstep
  have hsame : s'.1 = s.1 := (congrArg Prod.snd hc).symm
  have au : Authentic P key s' := st.authentic.congr (by rw [hsame]) (by rw [hsame]) hs hp
  exact ⟨⟨au, nofun⟩, au, st.key, by rw [hsame, st.received]⟩

variable (P key) in
/-- The conduct of an end that accepts only its peer's frames. -/
def trusting : Conduct P (Host × List Buffer) where
  rely := Attacked P key
  guar := Trusted P key
  ready := Keyed P key key 0
  opened := Unwrapped P key
  accepting := Keyed P key key 1
  left := LeftOver (Keyed P key key 0)
  left_ready _ _ _ h := fun _ _ => Or.inr h
  left_accepting _ _ _ := fun _ hn => by cases hn
  ready_quiet := quiet_keyed
  accepting_quiet := quiet_keyed
  garbage := trusts_garbage
  sendPacket := trusts_sendPacket
  receiveFrame := trusts_receiveFrame
  checkCounter := trusts_checkCounter
  advanceReceive := trusts_advanceReceive
  workerLogout := trusts_workerLogout
  closed := fun _ s => Authentic P key s
  close := fun _ _ st => st.authentic
  closed_quiet := quiet_authentic

/-! ## Client and worker side by side -/

variable (P key) in
/-- What an end accepts is what its peer has sent, in that order. -/
structure PeerOnly (own peer : Program Sys (Except Exit Int × Session) × Host) : Prop where
  frames : (own.2.accepted.map fun e => e.2.2) <+: peer.2.wire
  payloads : (own.2.accepted.map fun e => e.2.1) <+: peer.2.wire.filterMap (openFrame P key)
  sealed : ∀ w ∈ peer.2.wire, ∃ c p, (c, p, w) ∈ peer.2.sealed ∧ openFrame P key w = some p
  next : ∀ c p w k, own.1 = .call (.sys (.note (.accepted c p w))) k →
    w ∈ peer.2.wire ∧ w ∉ own.2.wire

/-- Client and worker after a login. -/
def loggedIn (P : Platform) (username key : Buffer) (bound : Endpoint → Nat) (fs : Endpoint → Fs)
    (console : Endpoint → Console) (e : Endpoint) :
    Program Sys (Except Exit Int × Session) × Host :=
  (e.program P (bound e) (Session.start username key), Host.start (fs e) (console e))

theorem keyed_start (username : Buffer) (fs : Fs) (console : Console) :
    Keyed P key key 0 (Session.start username key) (Host.start fs console, []) :=
  ⟨⟨by simp [Host.start, Host.accepted], by simp [Host.start]⟩, rfl, rfl⟩

/-- What one end sees of a run of both. -/
theorem reaches_attacked {c c' : Endpoint → Program Sys (Except Exit Int × Session) × Host}
    (hrun : Parallel.Reaches (Network P key (Unreflected P)) c c') (e : Endpoint)
    (hc : (c e.peer).2.wire = []) :
    ∃ v, v <+: (c' e.peer).2.wire ∧ Program.Reaches (Attacked P key) ((c e).1, (c e).2, [])
      ((c' e).1, (c' e).2, v) := by
  have hproject := Parallel.project (R := Attacked P key) e (fun hosts => (hosts e.peer).wire)
    (· <+: ·) (fun _ => List.prefix_refl _) (fun _ _ _ => List.IsPrefix.trans)
    (fun j hosts o a h' hstep => ?_) (fun hosts o a h' v hstep hv => ?_) hrun
  · rw [hc] at hproject
    exact hproject
  · by_cases hj : j = e.peer
    · subst hj
      simpa using (Host.anyEnv_grows hstep.1).1
    · have hsame : Function.update hosts j h' e.peer = hosts e.peer :=
        Function.update_of_ne (Ne.symm hj) ..
      exact hsame ▸ List.prefix_refl _
  · refine ⟨hstep.1, hv, hstep.2.2.imp fun w hw => ?_, hstep.2.1⟩
    cases e with
    | client => exact hw
    | worker => exact hw.symm

/-- The history of one end in a run of both. -/
theorem history_of_reaches {may : Host → Sys.Op → Prop} {username : Buffer} {bound : Endpoint → Nat}
    {fs : Endpoint → Fs} {console : Endpoint → Console}
    {c : Endpoint → Program Sys (Except Exit Int × Session) × Host}
    (hrun : Parallel.Reaches (Network P key may) (loggedIn P username key bound fs console) c)
    (e : Endpoint) : History P (c e).2 := by
  have hst := steady_start (P := P) username key (fs e) (console e)
  have hsat := ((counting P).meets_program goesOn_counting e (bound e)).program hst
  exact Program.Sat.invariant (c := (_, _)) (History P) (fun _ _ _ _ hg => hg.1) hsat hst.history
    (Parallel.reaches_of e (fun _ _ _ _ hstep => hstep.1) hrun)

/-- A turn of one end, with given choices, while the other rests. -/
theorem reaches_turn {may : Host → Sys.Op → Prop}
    {c : Endpoint → Program Sys (Except Exit Int × Session) × Host} (e : Endpoint)
    (cs : List Choice) (hc : Host.Admits (fun h o a => may h o ∧
      Delivered P key (fun w => w ∈ h.wire ∨ w ∈ (c e.peer).2.wire) o a) cs (c e)) :
    Parallel.Reaches (Network P key may) c (Function.update c e (Host.run cs (c e))) := by
  refine Parallel.reaches_alone e (fun h o a h' hstep => ?_) (hc.reaches_run cs)
  obtain ⟨henv, hmay, hdel⟩ := hstep
  cases e with
  | client => exact ⟨by simpa using henv, by simpa using hmay, by simpa [Endpoint.peer] using hdel⟩
  | worker =>
      refine ⟨by simpa using henv, by simpa using hmay, ?_⟩
      have hswap := hdel.imp fun w => Or.symm
      simpa [Endpoint.peer] using hswap

variable (P key) in
/-- **Origin of the accepted frames.** In every run of a client and its worker in the hands of an
    attacker, in which no end receives where it could be answered with its own frame: the frames that
    an end accepts are the first frames that its peer has sent, in the order in which it has, and so
    are their payloads; and the next frame that an end accepts is its peer's and not its own. -/
theorem accepts_peers_frames (username : Buffer) (bound : Endpoint → Nat) (fs : Endpoint → Fs)
    (console : Endpoint → Console)
    (c : Endpoint → Program Sys (Except Exit Int × Session) × Host)
    (hrun : Parallel.Reaches (Network P key (Unreflected P))
      (loggedIn P username key bound fs console) c) (e : Endpoint) :
    PeerOnly P key (c e) (c e.peer) := by
  have hsat : ∀ e, ∃ v, v <+: (c e.peer).2.wire ∧ Authentic P key ((c e).2, v) ∧
      Program.Sat (Attacked P key) (Trusted P key) (fun _ _ => True) (c e).1 ((c e).2, v) := by
    intro e
    obtain ⟨v, hv, hreach⟩ := reaches_attacked hrun e rfl
    have hst : Keyed P key key 0 (.start username key) (Host.start (fs e) (console e), []) :=
      keyed_start username (fs e) (console e)
    have hmeets := ((trusting P key).meets_program (fun _ _ _ => Iff.rfl) e (bound e)).program hst
    exact ⟨v, hv, Program.Sat.invariant (c := (_, _)) (Authentic P key) (fun _ _ _ _ hg => hg.1)
      hmeets hst.authentic hreach,
      (Program.Sat.reaches (c := (_, _)) hmeets hreach).imp fun _ _ _ => trivial⟩
  obtain ⟨v, hv, au, hnext⟩ := hsat e
  obtain ⟨v', -, aupeer, -⟩ := hsat e.peer
  have hist := history_of_reaches hrun e
  have histpeer := history_of_reaches hrun e.peer
  have hframes : ((c e).2.accepted.map fun a => a.2.2) <+: (c e.peer).2.wire := by
    refine prefix_of_numbered (f := counterOf P) (r := 0) ?_ histpeer.sent
      (fun w hw => (histpeer.sent_range w hw).1) fun w hw => ?_
    · rw [List.map_map, List.length_map]
      refine hist.accepted.trans (List.map_congr_left fun i _ => ?_)
      simp
    · obtain ⟨a, ha, rfl⟩ := List.mem_map.1 hw
      exact hv.subset (au.accepted a ha).1
  have hpayloads : ((c e).2.accepted.map fun a => a.2.2).filterMap (openFrame P key) =
      (c e).2.accepted.map fun a => a.2.1 := by
    rw [List.filterMap_map, ← List.filterMap_eq_map]
    exact List.filterMap_congr fun a ha => (au.accepted a ha).2
  refine ⟨hframes, ?_, aupeer.sent, fun n p w k hk => ?_⟩
  · rw [← hpayloads]
    exact hframes.filterMap _
  · rw [hk] at hnext
    obtain ⟨hnot, hmem⟩ := (hnext () (_, v) ⟨⟨.calm, rfl⟩, List.prefix_refl _, trivial, trivial⟩).1.2
      n p w rfl
    exact ⟨hv.subset hmem, hnot⟩

/-- The IV of each frame is the one of `sealedFrame`. -/
def sameIv (n : Nat) : List Choice := List.replicate n (.deliver (List.replicate 12 3))

set_option maxRecDepth 20000 in
/-- A client that asks for a list, and a worker that receives the request. -/
theorem accepts_peers_frames_list :
    let key : Buffer := List.replicate 16 0
    let c₀ := loggedIn (.aes .little) (ascii "user1") key (fun _ => 1) (fun _ => Fs.root)
      fun _ => ⟨ascii "3\n", false, false⟩
    let c₁ := Function.update c₀ .client (Host.run (sameIv 5) (c₀ .client))
    let c₂ := Function.update c₁ .worker
      (Host.run [.deliver (sealedFrame 0 ListM1.serialize), .calm] (c₁ .worker))
    (c₂ .worker).2.accepted.length = 1 ∧
      PeerOnly (.aes .little) key (c₂ .worker) (c₂ Endpoint.worker.peer) := by
  intro key c₀ c₁ c₂
  have hclient : Parallel.Reaches (Network (.aes .little) key (Unreflected (.aes .little))) c₀ c₁ :=
    reaches_turn .client (sameIv 5) (by decide +kernel)
  have hworker : Parallel.Reaches (Network (.aes .little) key (Unreflected (.aes .little))) c₁ c₂ :=
    reaches_turn .worker [.deliver (sealedFrame 0 ListM1.serialize), .calm] (by decide +kernel)
  exact ⟨by decide +kernel, accepts_peers_frames (.aes .little) key (ascii "user1") (fun _ => 1)
    (fun _ => Fs.root) (fun _ => ⟨ascii "3\n", false, false⟩) c₂ (hclient.trans hworker) .worker⟩

set_option maxRecDepth 20000 in
/-- The upload of a file of one byte: the attacker keeps the chunk from the worker and gives it back to
    the client, who accepts it for the final acknowledgement. -/
theorem client_accepts_own_chunk :
    ¬∀ (P : Platform) (key username : Buffer) (bound : Endpoint → Nat) (fs : Endpoint → Fs)
      (console : Endpoint → Console) (c : Endpoint → Program Sys (Except Exit Int × Session) × Host),
      Parallel.Reaches (Network P key fun _ _ => True) (loggedIn P username key bound fs console) c →
      ∀ e, PeerOnly P key (c e) (c e.peer) := by
  intro hall
  let fs : Endpoint → Fs
    | .client => ((Fs.root.openWrite (ascii "/a")).2.write 0 [1]).2
    | .worker => Fs.ofFolders [ascii "/data", ascii "/data/user1"]
  let console : Endpoint → Console := fun _ => ⟨ascii "1\n/a\n", false, false⟩
  let key : Buffer := List.replicate 16 0
  let c₀ := loggedIn (.aes .little) (ascii "user1") key (fun _ => 1) fs console
  let request := sealedFrame 0 ((UploadM1.new (ascii "a") 1).serialize .little)
  let ack := sealedFrame 0 (UploadAck 1).serialize
  let chunk := sealedFrame 1 [RequestCodes.uploadChunk, 1]
  let csRequest : List Choice := sameIv 11
  let csWorker : List Choice := .deliver request :: sameIv 8
  let csChunk : List Choice := .deliver ack :: sameIv 7 ++ [.deliver chunk, .calm]
  let c₁ := Function.update c₀ .client (Host.run csRequest (c₀ .client))
  let c₂ := Function.update c₁ .worker (Host.run csWorker (c₁ .worker))
  let c₃ := Function.update c₂ .client (Host.run csChunk (c₂ .client))
  have h₁ : Parallel.Reaches (Network (.aes .little) key fun _ _ => True) c₀ c₁ :=
    reaches_turn .client csRequest (by decide +kernel)
  have h₂ : Parallel.Reaches (Network (.aes .little) key fun _ _ => True) c₁ c₂ :=
    reaches_turn .worker csWorker (by decide +kernel)
  have h₃ : Parallel.Reaches (Network (.aes .little) key fun _ _ => True) c₂ c₃ :=
    reaches_turn .client csChunk (by decide +kernel)
  have hown := (hall (.aes .little) key (ascii "user1") (fun _ => 1) fs console c₃
    ((h₁.trans h₂).trans h₃) .client).frames.length_le
  have haccepted : ((c₃ .client).2.accepted.map fun e => e.2.2) = [ack, chunk] := by decide +kernel
  have hsent : (c₃ Endpoint.client.peer).2.wire = [ack] := by decide +kernel
  rw [haccepted, hsent] at hown
  exact absurd hown (by decide)

end CloudStorage
