import CloudStorage.Login

set_option autoImplicit false

/-! # How a login succeeds

The steps of a login fail in different ways: a call into the network or the key exchange answers
with a `bool`, a null pointer or a number. Here each call of a login is kept with its answer, and
the end of the login is compared with them.

The two logins test the status of `deriveSharedSecret` differently. The worker's login ends where it
is 0, as it is documented for a failure; the client's compares it with -1 and goes on. -/

namespace CloudStorage

open Interaction Interaction.Routine

/-- `login` of each end. -/
def Endpoint.login (P : Platform) : Endpoint → Member Int
  | .client => Member.returning (Client.login P)
  | .worker => Member.returning (Worker.login P)

/-! ## The outcomes of the calls -/

/-- The primitive reported success. -/
def CryptoCall.succeeded : (c : CryptoCall) → c.Ans → Bool
  | .deriveSharedSecret _ _ => fun (a : Int × Buffer) => a.1 == 1
  | .verifyDigitalSignature _ _ _ | .verifyServerCertificate _ => fun (a : Bool) => a
  | .ecdhKeyGeneration | .deserializePublicKey _ | .loadPrivateKey _ _ | .loadPublicKey _
  | .readCertificate _ => fun (a : Option Pkey) => a.isSome
  | .serializePubKey _ | .computeSHA256Digest _ | .generateDigitalSignature _ _
  | .decryptTextAES _ _ _ | .serverCertificate => fun (a : Option Buffer) => a.isSome
  | .encryptTextAES _ _ => fun (a : Option (Buffer × Buffer)) => a.isSome

namespace Handshake

/-- A call with its answer. -/
abbrev Event : Type := Program.Event Sys

/-- The step reported success. -/
def succeeded : Event → Bool
  | ⟨.send _, sent⟩ => (sent : Bool)
  | ⟨.recv _, block⟩ => (block : Option Buffer).isSome
  | ⟨.sys (.crypto c), a⟩ => c.succeeded a
  | ⟨.sys _, _⟩ => true

/-- `deriveSharedSecret` reported its documented failure. -/
def deriveFailed : Event → Bool
  | ⟨.sys (.crypto (.deriveSharedSecret _ _)), a⟩ => (a : Int × Buffer).1 == 0
  | _ => false

/-- The digest of the shared secret was computed. -/
def digested : Event → Bool
  | ⟨.sys (.crypto (.computeSHA256Digest _)), digest⟩ => (digest : Option Buffer).isSome
  | _ => false

/-- A session key was computed. -/
def keyComputed : Event → Bool
  | ⟨.sys (.note (.derived _)), _⟩ => true
  | _ => false

/-- `deriveSharedSecret` answers 1 on success and 0 on failure. -/
def Documented (_ : Host) : (o : Sys.Op) → Sys.Ans o → Prop
  | .sys (.crypto (.deriveSharedSecret _ _)), a => (a : Int × Buffer).1 = 0 ∨ (a : Int × Buffer).1 = 1
  | _, _ => True

instance (h : Host) (o : Sys.Op) (a : Sys.Ans o) : Decidable (Documented h o a) := by
  unfold Documented
  split <;> infer_instance

/-- What a login that made the calls `t` may end with: 1 only if each of them succeeded, and 0 and
    no session key where the derivation failed. -/
structure Faithful (result : Except Exit Int) (t : List Event) : Prop where
  success : result = .ok 1 → ∀ e ∈ t, succeeded e
  failure : (∃ e ∈ t, deriveFailed e) → result = .ok 0 ∧ ∀ e ∈ t, ¬keyComputed e

/-! ## What a login has done so far -/

/-- Any environment whose derivations answer as documented, with the calls kept. -/
def Recorded : Transition Sys (Host × List Event) :=
  Program.Logged fun h o a h' => Host.anyEnv h o a h' ∧ Documented h o a

/-- No check has failed: only a client is past a derivation that did. `late` says whether the
    digest is computed. -/
structure Going (end_ : Endpoint) (late : Bool) (t : List Event) : Prop where
  succeeded : ∀ e ∈ t, succeeded e ∨ (end_ = .client ∧ deriveFailed e)
  computed : (∃ e ∈ t, keyComputed e) ↔ late
  digested : (∃ e ∈ t, digested e) ↔ late
  derived : (∃ e ∈ t, deriveFailed e) → late

/-- A check has failed. -/
structure Halted (end_ : Endpoint) (exit : Exit) (t : List Event) : Prop where
  exits : exit = .returned 0 ∨ (exit = .undefined ∧ ∀ e ∈ t, ¬deriveFailed e)
  computed : (∃ e ∈ t, keyComputed e) ↔ ∃ e ∈ t, digested e
  derived : (∃ e ∈ t, deriveFailed e) → (∃ e ∈ t, digested e) → end_ = .client

/-- A call that neither derives, nor digests, nor computes the session key. -/
def Plain : Sys.Op → Prop
  | .sys (.crypto (.deriveSharedSecret _ _)) => False
  | .sys (.crypto (.computeSHA256Digest _)) => False
  | .sys (.note (.derived _)) => False
  | _ => True

theorem Plain.marks {o : Sys.Op} (ho : Plain o) (a : Sys.Ans o) :
    deriveFailed ⟨o, a⟩ = false ∧ digested ⟨o, a⟩ = false ∧ keyComputed ⟨o, a⟩ = false := by
  cases o with
  | send => exact ⟨rfl, rfl, rfl⟩
  | recv => exact ⟨rfl, rfl, rfl⟩
  | sys o =>
      cases o with
      | crypto c =>
          cases c with
          | deriveSharedSecret => exact False.elim ho
          | computeSHA256Digest => exact False.elim ho
          | _ => exact ⟨rfl, rfl, rfl⟩
      | note e =>
          cases e with
          | derived => exact False.elim ho
          | _ => exact ⟨rfl, rfl, rfl⟩
      | _ => exact ⟨rfl, rfl, rfl⟩

/-- A call at the end of a run, for a mark that it does not bear. -/
theorem exists_append_iff {mark : Event → Bool} {t : List Event} {e : Event}
    (he : mark e = false) : (∃ e' ∈ t ++ [e], mark e') ↔ ∃ e' ∈ t, mark e' := by
  simp [or_and_right, exists_or, he]

/-- A call at the end of a run, for a mark that it bears. -/
theorem exists_append {mark : Event → Bool} (t : List Event) {e : Event} (he : mark e = true) :
    ∃ e' ∈ t ++ [e], mark e' := ⟨e, by simp, he⟩

variable {end_ : Endpoint} {late : Bool} {t : List Event}

theorem succeeded_of_not_deriveFailed {e : Event} (h : succeeded e ∨ (end_ = .client ∧ deriveFailed e))
    (hderive : ¬deriveFailed e) : succeeded e :=
  h.resolve_right fun h => hderive h.2

theorem not_deriveFailed {e : Event} (h : succeeded e) : ¬deriveFailed e := by
  intro hfailed
  unfold deriveFailed at hfailed
  split at hfailed
  · rename_i a
    have hone : ((a : Int × Buffer).1 == 1) = true := h
    have hzero : (a : Int × Buffer).1 = 0 := eq_of_beq hfailed
    rw [hzero] at hone
    cases hone
  · cases hfailed

theorem Going.client (h : Going end_ late t) (hfailed : ∃ e ∈ t, deriveFailed e) :
    end_ = .client := by
  obtain ⟨e, he, hfailed⟩ := hfailed
  rcases h.succeeded e he with hs | hc
  · exact absurd hfailed (not_deriveFailed hs)
  · exact hc.1

/-- How a function may end: before the derivation also by freeing a pointer that was never set. -/
def Final (late : Bool) (exit : Exit) : Prop := exit = .returned 0 ∨ (exit = .undefined ∧ late = false)

theorem Going.halted {exit : Exit} (h : Going end_ late t) (hexit : Final late exit) :
    Halted end_ exit t := by
  refine ⟨hexit.imp id fun hundefined => ⟨hundefined.1, fun e he hfailed => ?_⟩,
    h.computed.trans h.digested.symm, fun hfailed _ => h.client hfailed⟩
  have hlate := h.derived ⟨e, he, hfailed⟩
  rw [hundefined.2] at hlate
  cases hlate

theorem Halted.append {exit : Exit} {o : Sys.Op} {a : Sys.Ans o} (ho : Plain o)
    (h : Halted end_ exit t) : Halted end_ exit (t ++ [⟨o, a⟩]) := by
  obtain ⟨hfailed, hdigest, hkey⟩ := ho.marks a
  constructor
  · refine h.exits.imp id fun hundefined => ⟨hundefined.1, fun e he => ?_⟩
    rcases List.mem_append.1 he with he | he
    · exact hundefined.2 e he
    · obtain rfl : e = ⟨o, a⟩ := List.mem_singleton.1 he
      simp [hfailed]
  · rw [exists_append_iff hkey, exists_append_iff hdigest]
    exact h.computed
  · rw [exists_append_iff hfailed, exists_append_iff hdigest]
    exact h.derived

theorem Going.append {o : Sys.Op} {a : Sys.Ans o} (ho : Plain o) (h : Going end_ late t)
    (ha : Handshake.succeeded ⟨o, a⟩) : Going end_ late (t ++ [⟨o, a⟩]) := by
  obtain ⟨hfailed, hdigest, hkey⟩ := ho.marks a
  constructor
  · intro e he
    rcases List.mem_append.1 he with he | he
    · exact h.succeeded e he
    · obtain rfl : e = ⟨o, a⟩ := List.mem_singleton.1 he
      exact Or.inl ha
  · rw [exists_append_iff hkey]
    exact h.computed
  · rw [exists_append_iff hdigest]
    exact h.digested
  · rw [exists_append_iff hfailed]
    exact h.derived

/-! ## The checks of a login -/

/-- Any environment that answers, with nothing asked of the calls. -/
def anyCall : Transition Sys (Host × List Event) := fun _ _ _ _ => True

variable {α β : Type}

/-- `r` goes on only where all its calls succeeded. -/
def Checks (end_ : Endpoint) (late : Bool) (r : Member α) : Prop :=
  Triple Recorded anyCall (fun _ s => Going end_ late s.2) r (fun _ _ s => Going end_ late s.2)
    fun e _ s => Halted end_ e s.2

/-- `r` tells by its value whether its calls succeeded. -/
def Tells (end_ : Endpoint) (late : Bool) (good : α → Prop) (r : Member α) : Prop :=
  Triple Recorded anyCall (fun _ s => Going end_ late s.2) r
    (fun a _ s => (∀ exit, Final late exit → Halted end_ exit s.2) ∧ (good a → Going end_ late s.2))
    fun e _ s => Halted end_ e s.2

theorem Checks.pure (a : α) : Checks end_ late (pure a : Member α) := fun _ _ => id

theorem Checks.get : Checks end_ late (Routine.get : Member Session) := fun _ _ => id

theorem Checks.modify (f : Session → Session) :
    Checks end_ late (Routine.modify f : Member Unit) := fun _ _ => id

theorem Checks.bind {r : Member α} {f : α → Member β} (hr : Checks end_ late r)
    (hf : ∀ a, Checks end_ late (f a)) : Checks end_ late (r >>= f) := Triple.bind hr hf

theorem Checks.require (b : Bool) :
    Checks end_ late (Routine.require b (.returned 0) : Member Unit) := fun _ _ h =>
  (sat_require b _ _).2 ⟨fun _ => h, fun _ => h.halted (Or.inl rfl)⟩

theorem Tells.call {o : Sys.Op} (ho : Plain o) {g : Sys.Ans o → Prop}
    (hg : ∀ a, g a → succeeded ⟨o, a⟩) :
    Tells end_ late g (Routine.call o : Member (Sys.Ans o)) := by
  intro x s h
  refine (sat_call o _).2 fun a s' hstep => ⟨trivial, ?_⟩
  rw [hstep.2]
  exact ⟨fun _ hexit => (h.halted hexit).append ho, fun ha => h.append ho (hg a ha)⟩

/-- A call that cannot fail. -/
theorem Checks.call {o : Sys.Op} (ho : Plain o) (hsucceeds : ∀ a, succeeded ⟨o, a⟩) :
    Checks end_ late (Routine.call o : Member (Sys.Ans o)) :=
  (Tells.call (g := fun _ => True) ho fun a _ => hsucceeds a).conseq (fun _ _ => id)
    (fun _ _ _ h => h.2 trivial) fun _ _ _ => id

/-- A test of what the step before it told. -/
theorem Tells.require {r : Member Bool} (hr : Tells end_ late (· = true) r) {f : Member β}
    (hf : Checks end_ late f) :
    Checks end_ late (r >>= fun b => Routine.require b (.returned 0) >>= fun _ => f) :=
  Triple.bind hr fun b => Triple.bind
    (fun _ _ h => (sat_require b _ _).2 ⟨fun hb => h.2 hb, fun _ => h.1 _ (Or.inl rfl)⟩) fun _ => hf

theorem Tells.sent {r : Member Bool} (hr : Tells end_ late (· = true) r) :
    Checks end_ late (Member.sent r) :=
  Triple.bind hr fun b _ _ h => (sat_require b _ _).2 ⟨fun hb => h.2 hb, fun _ => h.1 _ (Or.inl rfl)⟩

theorem Tells.expect {r : Member (Option α)} (hr : Tells end_ late (fun a => a.isSome) r) :
    Checks end_ late (Member.expect r 0) := by
  apply Triple.bind hr
  intro a
  cases a with
  | none => exact fun _ _ h => h.1 _ (Or.inl rfl)
  | some a => exact fun _ _ h => h.2 rfl

theorem tells_send (data : Buffer) : Tells end_ late (· = true) (Member.sendData data) :=
  Tells.call (o := .send data) trivial fun _ => id

theorem tells_receive (n : Nat) : Tells end_ late (fun a => a.isSome) (Member.receiveData n) :=
  Tells.call (o := .recv n) trivial fun _ => id

theorem checks_overrun : Checks end_ late Member.overrun := Checks.call trivial fun _ => rfl

theorem checks_note {e : Note} (he : Plain (.sys (.note e))) :
    Checks end_ late (Member.note e) := Checks.call he fun _ => rfl

theorem tells_receiveSize (P : Platform) :
    Tells end_ late (fun a => a.isSome) (Member.receiveSize P) := by
  refine Triple.bind (tells_receive _) fun received _ _ h => ⟨h.1, fun hsome => h.2 ?_⟩
  simpa using hsome

theorem checks_sendSize (P : Platform) (n : Nat) :
    Checks end_ late (Member.sent (Member.sendSize P n)) := (tells_send _).sent

/-- The serialized key of the peer: all its calls succeeded where there is a key. -/
theorem tells_receiveEphemeralPublicKey (P : Platform) :
    Tells end_ late (fun a => ∃ key serialized, a = some (some key, serialized))
      (Member.receiveEphemeralPublicKey P) := by
  apply Triple.bind (tells_receiveSize P)
  intro size
  cases size with
  | none => exact fun _ _ h => ⟨h.1, by simp⟩
  | some length =>
      refine Triple.bind ((checks_note (e := .announced length) trivial).weaken fun _ _ h => h.2 rfl)
        fun _ => ?_
      split
      · exact fun _ _ h => ⟨fun _ => h.halted, by simp⟩
      · apply Triple.bind (tells_receive length)
        intro block
        cases block with
        | none => exact fun _ _ h => ⟨h.1, by simp⟩
        | some serialized =>
            refine Triple.bind ((Tells.call (o := .sys (.crypto (.deserializePublicKey serialized)))
              (g := fun (key : Option Pkey) => key.isSome) trivial fun _ => id).weaken
              fun _ _ h => h.2 rfl) fun (key : Option Pkey) _ _ h => ⟨h.1, fun hkey => h.2 ?_⟩
            obtain ⟨key', serialized', heq⟩ := hkey
            cases heq
            rfl

/-! ## The session key -/

/-- The derivation is done and was not found to fail; `digest` says whether its digest is computed. -/
structure Between (end_ : Endpoint) (digest : Bool) (t : List Event) : Prop where
  succeeded : ∀ e ∈ t, succeeded e ∨ (end_ = .client ∧ deriveFailed e)
  computed : ¬∃ e ∈ t, keyComputed e
  digested : (∃ e ∈ t, digested e) ↔ digest

theorem Going.undigested (h : Going end_ false t) :
    (¬∃ e ∈ t, keyComputed e) ∧ ¬∃ e ∈ t, Handshake.digested e :=
  ⟨fun hkey => Bool.false_ne_true (h.computed.1 hkey),
    fun hdigest => Bool.false_ne_true (h.digested.1 hdigest)⟩

/-- Nothing was computed from what the derivation left. -/
theorem halted_of_undigested (hkey : ¬∃ e ∈ t, keyComputed e) (hdigest : ¬∃ e ∈ t, digested e) :
    Halted end_ (.returned 0) t :=
  ⟨Or.inl rfl, iff_of_false hkey hdigest, fun _ h => absurd h hdigest⟩

theorem lenient_append {e : Event} (h : ∀ e' ∈ t, succeeded e' ∨ (end_ = .client ∧ deriveFailed e'))
    (he : succeeded e ∨ (end_ = .client ∧ deriveFailed e)) :
    ∀ e' ∈ t ++ [e], succeeded e' ∨ (end_ = .client ∧ deriveFailed e') := by
  intro e' he'
  rcases List.mem_append.1 he' with he' | he'
  · exact h e' he'
  · exact List.mem_singleton.1 he' ▸ he

/-- The derivation and the test of its status, which lets a failure pass at the client only. -/
theorem triple_derive {hostKey peerKey : Pkey} (test : Int → Bool) (f : Buffer → Member β)
    {Q : β → Session → Host × List Event → Prop} (htest : test 0 = true → end_ = .client)
    (hf : ∀ secret, Triple Recorded anyCall (fun _ s => Between end_ false s.2) (f secret) Q
      fun e _ s => Halted end_ e s.2) :
    Triple Recorded anyCall (fun _ s => Going end_ false s.2)
      (Member.crypto (.deriveSharedSecret hostKey peerKey) >>= fun (derived : Int × Buffer) =>
        Routine.require (test derived.1) (.returned 0) >>= fun _ => f derived.2)
      Q fun e _ s => Halted end_ e s.2 := by
  intro x s h
  refine (sat_bind _ _).2 ((sat_call _ _).2 fun (derived : Int × Buffer) s' hstep => ⟨trivial, ?_⟩)
  obtain ⟨⟨-, hstatus⟩, hlog⟩ := hstep
  obtain ⟨hkey, hdigest⟩ := h.undigested
  have hkey' : ¬∃ e ∈ s'.2, keyComputed e := by
    rw [hlog, exists_append_iff rfl]
    exact hkey
  have hdigest' : ¬∃ e ∈ s'.2, digested e := by
    rw [hlog, exists_append_iff rfl]
    exact hdigest
  refine (sat_bind _ _).2 ((sat_require _ _ _).2
    ⟨fun hpassed => hf _ _ _ ⟨?_, hkey', by simpa using hdigest'⟩,
      fun _ => halted_of_undigested hkey' hdigest'⟩)
  rw [hlog]
  apply lenient_append h.succeeded
  rcases (hstatus : derived.1 = 0 ∨ derived.1 = 1) with hzero | hone
  · rw [hzero] at hpassed
    exact Or.inr ⟨htest hpassed, beq_iff_eq.2 hzero⟩
  · exact Or.inl (beq_iff_eq.2 hone)

/-- The digest of what the derivation left. -/
theorem triple_digest (secret : Buffer) :
    Triple Recorded anyCall (fun _ s => Between end_ false s.2)
      (Member.expect (Member.crypto (.computeSHA256Digest secret)) 0)
      (fun _ _ s => Between end_ true s.2) fun e _ s => Halted end_ e s.2 := by
  intro x s h
  refine (sat_bind _ _).2 ((sat_call _ _).2 fun digest s' hstep => ⟨trivial, ?_⟩)
  have hlog := hstep.2
  have hkey : ¬∃ e ∈ s'.2, keyComputed e := by
    rw [hlog, exists_append_iff rfl]
    exact h.computed
  cases digest with
  | none =>
      apply halted_of_undigested hkey
      rw [hlog, exists_append_iff rfl, h.digested]
      exact Bool.false_ne_true
  | some digest =>
      refine ⟨?_, hkey, ?_⟩
      · rw [hlog]
        exact lenient_append h.succeeded (Or.inl rfl)
      · rw [hlog]
        exact iff_of_true (exists_append _ rfl) rfl

/-- The session key made of the digest. -/
theorem triple_generateSessionKey (digest : Buffer) :
    Triple Recorded anyCall (fun _ s => Between end_ true s.2) (Member.generateSessionKey digest)
      (fun _ _ s => Going end_ true s.2) fun e _ s => Halted end_ e s.2 := by
  intro x s h
  refine fun (_ : Unit) s' hstep => ⟨trivial, ?_⟩
  have hlog := hstep.2
  constructor
  · rw [hlog]
    exact lenient_append h.succeeded (Or.inl rfl)
  · rw [hlog]
    exact iff_of_true (exists_append _ rfl) rfl
  · rw [hlog, exists_append_iff rfl]
    exact h.digested
  · exact fun _ => rfl

/-! ## The two logins -/

/-- A login goes on to its end only where all its checks pass. -/
def Logs (end_ : Endpoint) (r : Member Int) : Prop :=
  Triple Recorded anyCall (fun _ s => Going end_ false s.2) r
    (fun n _ s => n = 1 ∧ Going end_ true s.2) fun e _ s => Halted end_ e s.2

variable (P : Platform)

/-- A primitive that is neither the derivation nor the digest. -/
theorem tells_crypto (c : CryptoCall) (hc : Plain (.sys (.crypto c))) :
    Tells end_ late (fun a => c.succeeded a) (Member.crypto c) :=
  Tells.call (o := .sys (.crypto c)) hc fun _ => id

section Worker

open Worker

theorem checks_receiveUsername : Checks end_ late (receiveUsername P) :=
  (tells_receiveSize P).expect.bind fun _ => (Checks.require _).bind fun _ =>
    (tells_receive _).expect.bind fun _ => (Checks.modify _).bind fun _ =>
      (checks_sendSize P _).bind fun _ => Checks.require _

/-- Only before the derivation: where the key did not arrive, the end is undefined. -/
theorem checks_receiveClientKey : Checks end_ false (receiveClientKey P) := by
  apply Triple.bind (tells_receiveEphemeralPublicKey P)
  intro received
  cases received with
  | none => exact fun _ _ h => h.1 _ (Or.inr ⟨rfl, rfl⟩)
  | some received =>
      obtain ⟨key, serialized⟩ := received
      cases key with
      | none => exact fun _ _ h => h.1 _ (Or.inl rfl)
      | some key => exact fun _ _ h => h.2 ⟨key, serialized, rfl⟩

theorem triple_deriveKey_worker (clientKey : Pkey) :
    Triple Recorded anyCall (fun _ s => Going end_ false s.2) (Worker.deriveKey clientKey)
      (fun _ _ s => Going end_ true s.2) fun e _ s => Halted end_ e s.2 := by
  refine Triple.bind (tells_crypto .ecdhKeyGeneration trivial).expect fun serverKey => ?_
  refine Triple.bind (tells_crypto (.serializePubKey serverKey) trivial).expect fun sServerKey => ?_
  refine triple_derive (fun status => status != 0) (fun secret => do
    let digest ← Member.expect (Member.crypto (.computeSHA256Digest secret)) 0
    Member.generateSessionKey digest
    return sServerKey) (fun h => by cases h) fun secret => ?_
  exact Triple.bind (triple_digest secret) fun digest =>
    Triple.bind (triple_generateSessionKey digest) fun _ _ _ => id

theorem checks_sendM3 (sServerKey concatenatedKeys : Buffer) :
    Checks end_ late (sendM3 P sServerKey concatenatedKeys) := by
  refine (tells_crypto (.loadPrivateKey _ _) trivial).expect.bind fun privateKey => ?_
  refine (tells_crypto (.generateDigitalSignature _ privateKey) trivial).expect.bind fun signature => ?_
  refine Checks.get.bind fun s => ?_
  refine (tells_crypto (.encryptTextAES signature s.sessionKey) trivial).expect.bind fun cipher => ?_
  refine (tells_crypto .serverCertificate trivial).expect.bind fun certificate => ?_
  exact (checks_overrun.bind fun _ => checks_overrun.bind fun _ => checks_overrun.bind fun _ =>
    .pure _).bind fun message => (tells_send message).sent

theorem checks_checkM4 (concatenatedKeys : Buffer) :
    Checks end_ late (checkM4 concatenatedKeys) := by
  refine (tells_receive _).expect.bind fun message => Checks.get.bind fun s => ?_
  refine (tells_crypto (.decryptTextAES _ s.sessionKey _) trivial).expect.bind fun plaintext => ?_
  refine (tells_crypto (.loadPublicKey _) trivial).expect.bind fun publicKey => ?_
  exact Triple.bind (tells_crypto (.verifyDigitalSignature concatenatedKeys plaintext publicKey)
    trivial) fun (verified : Bool) _ _ h =>
      (sat_require verified _ _).2 ⟨fun hb => h.2 hb, fun _ => h.1 _ (Or.inl rfl)⟩

theorem logs_worker : Logs end_ (Worker.login P) := by
  refine Triple.bind (checks_receiveUsername P) fun _ => ?_
  refine Triple.bind (checks_receiveClientKey P) fun keys => ?_
  obtain ⟨clientKey, sClientKey⟩ := keys
  refine Triple.bind (triple_deriveKey_worker clientKey) fun sServerKey => ?_
  refine Triple.bind (checks_sendM3 P sServerKey _) fun _ => ?_
  exact Triple.bind (checks_checkM4 _) fun _ _ _ h => ⟨rfl, h⟩

end Worker

section Client

open Client

theorem checks_readField (limit : Nat) : Checks end_ late (readField limit) :=
  (Checks.call (o := .sys .getline) trivial fun _ => rfl).bind fun _ =>
    (Checks.require _).bind fun _ => .pure _

theorem checks_sendUsername : Checks end_ late (sendUsername P) :=
  (checks_readField _).bind fun _ => (Checks.modify _).bind fun _ =>
    (checks_sendSize P _).bind fun _ => (tells_send _).sent.bind fun _ =>
      (tells_receiveSize P).expect.bind fun _ => Checks.require _

theorem checks_sendClientKey : Checks end_ late (sendClientKey P) := by
  refine (tells_crypto .ecdhKeyGeneration trivial).expect.bind fun clientKey => ?_
  refine (tells_crypto (.serializePubKey clientKey) trivial).expect.bind fun sClientKey => ?_
  exact (checks_sendSize P _).bind fun _ => (tells_send _).sent.bind fun _ => .pure _

theorem checks_receiveM3 : Checks end_ late (receiveM3 P) := by
  refine (tells_receive _).expect.bind fun message => ?_
  refine (checks_overrun.bind fun _ => checks_overrun.bind fun _ => .pure _).bind fun m => ?_
  refine (tells_crypto (.readCertificate m.certificate) trivial).expect.bind fun key => ?_
  exact (tells_crypto (.verifyServerCertificate m.certificate) trivial).require
    ((Checks.require _).bind fun _ => .pure _)

/-- Status 0 is not the -1 that the client compares with. -/
theorem triple_deriveKey_client (clientKey : Pkey) (sServerKey : Buffer) :
    Triple Recorded anyCall (fun _ s => Going .client false s.2) (Client.deriveKey clientKey sServerKey)
      (fun _ _ s => Going .client true s.2) fun e _ s => Halted .client e s.2 := by
  refine Triple.bind (tells_crypto (.deserializePublicKey sServerKey) trivial).expect
    fun serverKey => ?_
  refine triple_derive (fun status => status != -1) (fun secret => do
    let digest ← Member.expect (Member.crypto (.computeSHA256Digest secret)) 0
    Member.generateSessionKey digest) (fun _ => rfl) fun secret => ?_
  exact Triple.bind (triple_digest secret) triple_generateSessionKey

theorem checks_checkM3 (m : M3) (serverPublicKey : Pkey) (concatenatedKeys : Buffer) :
    Checks end_ late (checkM3 m serverPublicKey concatenatedKeys) := by
  refine Checks.get.bind fun s => ?_
  refine (tells_crypto (.decryptTextAES _ s.sessionKey _) trivial).expect.bind fun plaintext => ?_
  exact Triple.bind (tells_crypto (.verifyDigitalSignature concatenatedKeys plaintext serverPublicKey)
    trivial) fun (verified : Bool) _ _ h =>
      (sat_require verified _ _).2 ⟨fun hb => h.2 hb, fun _ => h.1 _ (Or.inl rfl)⟩

theorem checks_sendM4 (privateKey : Pkey) (concatenatedKeys : Buffer) :
    Checks end_ late (sendM4 privateKey concatenatedKeys) := by
  refine (tells_crypto (.generateDigitalSignature _ privateKey) trivial).expect.bind fun signature => ?_
  refine Checks.get.bind fun s => ?_
  refine (tells_crypto (.encryptTextAES signature s.sessionKey) trivial).expect.bind fun cipher => ?_
  exact (checks_overrun.bind fun _ => .pure _).bind fun message => (tells_send message).sent

theorem logs_client : Logs .client (Client.login P) := by
  refine Triple.bind (checks_sendUsername P) fun _ => ?_
  refine Triple.bind (checks_readField _) fun password => ?_
  refine Triple.bind Checks.get fun s => ?_
  refine Triple.bind (tells_crypto (.loadPrivateKey _ password) trivial).expect fun privateKey => ?_
  refine Triple.bind (checks_sendClientKey P) fun keys => ?_
  obtain ⟨clientKey, sClientKey⟩ := keys
  refine Triple.bind (checks_receiveM3 P) fun received => ?_
  obtain ⟨m, serverPublicKey⟩ := received
  refine Triple.bind (triple_deriveKey_client clientKey m.serverKey) fun _ => ?_
  refine Triple.bind (checks_checkM3 m serverPublicKey _) fun _ => ?_
  exact Triple.bind (checks_sendM4 privateKey _) fun _ _ _ h => ⟨rfl, h⟩

end Client

/-! ## Both ends -/

/-- How a login has ended: at its end, or at a check that failed. -/
def Ended (end_ : Endpoint) (result : Except Exit Int) (t : List Event) : Prop :=
  (result = .ok 1 ∧ Going end_ true t) ∨ ∃ exit, result = Member.value exit ∧ Halted end_ exit t

theorem Logs.returning {r : Member Int} (hr : Logs end_ r) :
    Triple Recorded anyCall (fun _ s => Going end_ false s.2) (Member.returning r)
      (fun n _ s => Ended end_ (.ok n) s.2) fun e _ s => Ended end_ (.error e) s.2 := by
  apply Member.triple_returning (Q := fun result _ (s : Host × List Event) => Ended end_ result s.2)
  intro x s h
  exact (hr x s h).imp (fun n _ _ hn => Or.inl ⟨congrArg Except.ok hn.1, hn.2⟩)
    fun exit _ _ hexit => Or.inr ⟨exit, rfl, hexit⟩

/-- Both logins end as they may. -/
theorem sat_login (end_ : Endpoint) (x : Session) (s : Host × List Event)
    (h : Going end_ false s.2) :
    ((end_.login P) x).Sat Recorded anyCall (fun y s' => Ended end_ y.1 s'.2) s := by
  have hlogs : Triple Recorded anyCall (fun _ s => Going end_ false s.2) (end_.login P)
      (fun n _ s => Ended end_ (.ok n) s.2) fun e _ s => Ended end_ (.error e) s.2 := by
    cases end_ with
    | client => exact (logs_client P).returning
    | worker => exact (logs_worker P).returning
  apply (hlogs.program h).imp
  intro y s' hy
  obtain ⟨e | n, x'⟩ := y <;> exact hy

theorem faithful_iff_of_going (h : Going end_ true t) :
    Faithful (.ok 1) t ↔
      (end_ = .client → ¬((∃ e ∈ t, deriveFailed e) ∧ ∃ e ∈ t, digested e)) := by
  constructor
  · rintro hf - ⟨hfailed, -⟩
    cases (hf.failure hfailed).1
  · intro hc
    have hnone : ∀ e ∈ t, ¬deriveFailed e := by
      intro e he hfailed
      exact hc (h.client ⟨e, he, hfailed⟩) ⟨⟨e, he, hfailed⟩, h.digested.2 rfl⟩
    refine ⟨fun _ e he => succeeded_of_not_deriveFailed (h.succeeded e he) (hnone e he), ?_⟩
    rintro ⟨e, he, hfailed⟩
    exact absurd hfailed (hnone e he)

theorem faithful_iff_of_halted {exit : Exit} (h : Halted end_ exit t) :
    Faithful (Member.value exit) t ↔
      (end_ = .client → ¬((∃ e ∈ t, deriveFailed e) ∧ ∃ e ∈ t, digested e)) := by
  constructor
  · rintro hf - ⟨hfailed, hdigest⟩
    obtain ⟨e, he, hkey⟩ := h.computed.2 hdigest
    exact (hf.failure hfailed).2 e he hkey
  · intro hc
    rcases h.exits with rfl | ⟨rfl, hnone⟩
    · refine ⟨fun hone => absurd hone (by simp [Member.value]), fun hfailed => ⟨rfl, fun e he hkey => ?_⟩⟩
      have hdigest := h.computed.1 ⟨e, he, hkey⟩
      exact hc (h.derived hfailed hdigest) ⟨hfailed, hdigest⟩
    · refine ⟨fun hone => absurd hone (by simp [Member.value]), ?_⟩
      rintro ⟨e, he, hfailed⟩
      exact absurd hfailed (hnone e he)

theorem going_nil (end_ : Endpoint) : Going end_ false [] := by
  constructor <;> simp

/-- **A login succeeds only if every step did**, and computes no key from a derivation that failed,
    but for a client whose digest succeeds after its derivation failed. -/
theorem faithful_iff (end_ : Endpoint) (x x' : Session) (h : Host) (cs : List Choice)
    (result : Except Exit Int) (hdoc : Host.Admits Documented cs (end_.login P x, h))
    (hend : (Host.run cs (end_.login P x, h)).1.result = some (result, x')) :
    Faithful result (Host.events cs (end_.login P x, h)) ↔
      (end_ = .client → ¬((∃ e ∈ Host.events cs (end_.login P x, h), deriveFailed e) ∧
        ∃ e ∈ Host.events cs (end_.login P x, h), digested e)) := by
  have hrun := Host.Admits.reaches_events cs hdoc []
  rw [List.nil_append, Program.eq_ret_of_result hend] at hrun
  rcases (sat_login P end_ x (h, []) (going_nil end_)).result hrun with ⟨hok, hgoing⟩ | ⟨exit, hval, hhalt⟩
  · obtain rfl : result = .ok 1 := hok
    exact faithful_iff_of_going hgoing
  · obtain rfl : result = Member.value exit := hval
    exact faithful_iff_of_halted hhalt

/-- A user at the console. -/
def console : Host := .start .root ⟨ascii "user1\nsecret\n", false, false⟩

/-- Every step succeeds; the server's answer to the username is 1. -/
def allSucceed : List Choice := List.replicate 40 { Choice.grant with bytes := [1] }

/-- Every step succeeds but the derivation of the shared secret. -/
def derivationFails : List Choice := List.replicate 40 { Choice.grant with
  bytes := [1]
  crypto := fun
    | .deriveSharedSecret _ _ => ((0, []) : Int × Buffer)
    | c => c.granted }

/-- The login of a client on that console. -/
def clientLogin : Program Sys (Except Exit Int × Session) × Host :=
  (Endpoint.client.login (.plain .little) (.start [] []), console)

set_option maxRecDepth 20000 in
/-- A client whose steps all succeed. -/
theorem faithful_iff_all_succeed : Faithful (.ok 1) (Host.events allSucceed clientLogin) :=
  (faithful_iff (.plain .little) .client (.start [] []) (.start (ascii "user1") (fit 16 [])) console
    allSucceed (.ok 1) (by decide +kernel) (by decide +kernel)).2
      fun _ h => absurd h.1 (by decide +kernel)

set_option maxRecDepth 20000 in
/-- A client whose derivation fails logs in, with a session key made of an empty secret. -/
theorem client_ignores_failed_derivation :
    Host.Admits Documented derivationFails clientLogin ∧
      (Host.run derivationFails clientLogin).1.result =
        some (.ok 1, .start (ascii "user1") (fit 16 [])) ∧
      ¬Faithful (.ok 1) (Host.events derivationFails clientLogin) := by
  refine ⟨by decide +kernel, by decide +kernel, fun hf => ?_⟩
  have hfailed : ∃ e ∈ Host.events derivationFails clientLogin, deriveFailed e := by decide +kernel
  cases (hf.failure hfailed).1

end Handshake

end CloudStorage
