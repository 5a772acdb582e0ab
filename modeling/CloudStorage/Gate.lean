import CloudStorage.IdealLogin
import CloudStorage.Interaction.Trace

set_option autoImplicit false

/-! # Nothing before the login

Neither side touches a file before its login is done, whatever the network sends and whatever the
primitives answer. `Worker.Authenticated` and `Client.Authenticated` list the calls that must have been
made: a key pair of this very session, the key that came from the peer, the session key derived from the
two, and a signature of both keys that was decrypted with the session key and verified. A signature from
another session is one of other keys. -/

namespace CloudStorage

open Interaction Interaction.Program Interaction.Routine Handshake IdealCrypto

variable {α : Type} {p q : Session → Prop} {evs : List Event}

/-- A call that is none into the file system and neither seals nor accepts a frame. The PEM files, the
    certificate and the revocation list that a login opens are calls into the primitives. -/
def OffDisk : Sys.Op → Prop
  | .sys (.file _) => False
  | .sys (.note (.sealed _ _ _)) => False
  | .sys (.note (.accepted _ _ _)) => False
  | _ => True

/-- The function returns nothing but 0 where it ends early. -/
def Refuses (e : Exit) : Prop := ∀ n, e = .returned n → n = 0

/-- A login from here on: no call into the file system, and no early exit but a refusal. -/
abbrev Proves (p : Session → Prop) (evs : List Event) (r : Member α)
    (Q : α → Session → List Event → Prop) : Prop := Gathers (I := Sys) OffDisk Refuses p evs r Q

/-- The note of a derivation. -/
def derivedEvent (sessionKey : Buffer) : Event := ⟨.sys (.note (.derived sessionKey)), ()⟩

namespace Member

theorem refuses_returned : Refuses (.returned 0) := fun _ heq => (Exit.returned.inj heq).symm

theorem refuses_undefined : Refuses .undefined := by
  intro n heq
  cases heq

/-- A call into the primitives is known with its answer. -/
theorem proves_crypto (c : CryptoCall) :
    Proves p evs (crypto c) fun a => Known p (cryptoEvent c a :: evs) :=
  gathers_call (I := Sys) (o := .sys (.crypto c)) trivial

/-- What is known of the answer of a step that may fail is known of its value. -/
theorem proves_expect {r : Member (Option α)} {Q : Option α → Session → List Event → Prop}
    (hr : Proves p evs r Q) : Proves p evs (expect r 0) fun a => Q (some a) := by
  apply Triple.bind hr
  intro a
  cases a with
  | none => exact .throw _ fun _ _ _ => refuses_returned
  | some a => exact .pure _ fun _ _ h => h

theorem offDisk_expect {r : Member (Option α)} (hr : Only OffDisk Refuses r) :
    Only OffDisk Refuses (expect r 0) := by
  apply hr.bind
  intro a
  cases a with
  | none => exact .throw refuses_returned
  | some a => exact .pure a

theorem offDisk_sent (data : Buffer) : Only OffDisk Refuses (sent (sendData data)) :=
  .bind (.call trivial) fun _ => .require refuses_returned

theorem offDisk_receiveSize (P : Platform) : Only OffDisk Refuses (receiveSize P) :=
  .bind (.call trivial) fun _ => .pure _

/-- The session key is noted and set. -/
theorem proves_generateSessionKey {digest : Buffer}
    (hp : ∀ x, p x → q { x with sessionKey := fit 16 digest }) :
    Proves p evs (generateSessionKey digest) fun _ => Known q (derivedEvent (fit 16 digest) :: evs) :=
  .bind (gathers_modify hp) fun _ =>
    gathers_call (I := Sys) (o := .sys (.note (.derived (fit 16 digest)))) trivial

end Member

open Member

/-- What the calls of a login show: the key of this session and that of the peer, the session key, and the
    signature that the peer sent, with the key that verified it. -/
structure Evidence where
  own : Pkey
  peer : Pkey
  publicKey : Pkey
  sOwn : Buffer
  sPeer : Buffer
  derived : Int × Buffer
  digest : Buffer
  cipherText : Buffer
  iv : Buffer
  signature : Buffer

/-- The calls that end in the session key. -/
def Evidence.derivation (E : Evidence) : List Event :=
  [derivedEvent (fit 16 E.digest), cryptoEvent (.computeSHA256Digest E.derived.2) (some E.digest),
    cryptoEvent (.deriveSharedSecret E.own E.peer) E.derived,
    cryptoEvent (.serializePubKey E.own) (some E.sOwn), cryptoEvent .ecdhKeyGeneration (some E.own),
    cryptoEvent (.deserializePublicKey E.sPeer) (some E.peer)]

/-! ## Files after the login -/

/-- A call into the file system is one that `G` allows after the calls before it. -/
def Guarded (G : List Event → FileCall → Prop) (t : List Event) (o : Sys.Op) : Prop :=
  ∀ c, o = .sys (.file c) → G t c

/-- The calls into the file system are those that `G` allows. -/
abbrev Gated (G : List Event → FileCall → Prop) (K : Session → List Event → Prop) (r : Member α) :
    Prop :=
  Triple Traced (fun t o _ _ => Guarded G t o) K r (fun _ _ _ => True) fun _ _ _ => True

/-- A login, and what comes after it if it returns something else than 0. -/
theorem triple_start {S : Type} {rely guar : Transition Sys S} {L K : Session → S → Prop}
    {login rest : Member Int} (hlogin : Triple rely guar L login (fun _ => K) fun e _ _ => Refuses e)
    (hrest : Triple rely guar K rest (fun _ _ _ => True) fun _ _ _ => True) :
    Triple rely guar L (returning login >>= fun loggedIn => if loggedIn = 0 then pure 0 else rest)
      (fun _ _ _ => True) fun _ _ _ => True := by
  have hreturns : Triple rely guar L (returning login) (fun n x t => n ≠ 0 → K x t)
      fun _ _ _ => True := by
    refine (triple_returning (Q := fun result x t => ∀ n, result = .ok n → n ≠ 0 → K x t)
      (hlogin.conseq (fun _ _ => id) (fun _ _ _ hK _ _ _ => hK) ?_)).conseq (fun _ _ => id)
      (fun n _ _ h => h n rfl) fun _ _ _ _ => trivial
    intro e x t he n heq hne
    cases e with
    | returned n' =>
        cases heq
        exact absurd (he n rfl) hne
    | thrown e => cases heq
    | exited => cases heq
    | undefined => cases heq
    | unfinished => cases heq
  apply Triple.bind hreturns
  intro n
  by_cases hzero : n = 0
  · rw [if_pos hzero]
    exact .pure _ fun _ _ _ => trivial
  · rw [if_neg hzero]
    exact hrest.weaken fun _ _ h => h hzero

theorem gated_start {G : List Event → FileCall → Prop} {K : Session → List Event → Prop}
    {login rest : Member Int} (hlogin : Proves (fun _ => True) [] login fun _ => K)
    (hrest : Gated G K rest) : Gated G (fun _ _ => True)
      (returning login >>= fun loggedIn => if loggedIn = 0 then pure 0 else rest) := by
  refine triple_start (L := fun _ _ => True) (fun x t _ => ?_) hrest
  refine (hlogin x t ⟨trivial, by simp⟩).mono (fun _ _ _ _ => id) ?_ (fun _ _ _ => id) fun _ _ _ => id
  intro t o a t' ho c hc
  rw [hc] at ho
  exact ho.elim

/-- Every call into the file system in a run of a guarded function is one that `G` allows after the calls
    before it. -/
theorem Gated.before {G : List Event → FileCall → Prop} {r : Member α} (hr : Gated G (fun _ _ => True) r)
    {rely : Transition Sys Host} {x : Session} {h h' : Host} {q : Program Sys (Except Exit α × Session)}
    {t front rest : List Event} {call : FileCall} {a : call.Ans}
    (hrun : Program.Reaches (Program.Logged rely) (r x, h, []) (q, h', t))
    (hcall : t = front ++ ⟨.sys (.file call), a⟩ :: rest) : G front call := by
  have hsat : (r x).Sat Traced (fun t o _ _ => Guarded G t o) (fun _ _ => True) [] := by
    apply (hr.program (x := x) (s := []) trivial).imp
    intro y t _
    trivial
  obtain ⟨added, rfl, hbefore⟩ := hsat.before hrun
  exact hbefore front (.sys (.file call)) a rest hcall call rfl

/-- The call is one into the file system. -/
def onDisk : Event → Bool
  | ⟨.sys (.file _), _⟩ => true
  | _ => false

theorem exists_onDisk {t : List Event} (h : ∃ e ∈ t, onDisk e) :
    ∃ (front : List Event) (call : FileCall) (a : call.Ans) (rest : List Event),
      t = front ++ ⟨.sys (.file call), a⟩ :: rest := by
  obtain ⟨⟨o, a⟩, he, hdisk⟩ := h
  obtain ⟨front, rest, hsplit⟩ := List.append_of_mem he
  cases o with
  | send data => cases hdisk
  | recv n => cases hdisk
  | sys o =>
      cases o with
      | file call => exact ⟨front, call, a, rest, hsplit⟩
      | _ => cases hdisk

/-! ## The worker -/

namespace Worker

variable {P : Platform} {u : Buffer}

/-- The calls that check the signature of the two keys. -/
def check (E : Evidence) (u : Buffer) : List Event :=
  [cryptoEvent (.verifyDigitalSignature (E.sOwn ++ E.sPeer) E.signature E.publicKey) true,
    cryptoEvent (.loadPublicKey (publicKeyFile u)) (some E.publicKey),
    cryptoEvent (.decryptTextAES E.cipherText (fit 16 E.digest) E.iv) (some E.signature)]

/-- The user `u` has been authenticated. -/
def Authenticated (u : Buffer) (t : List Event) : Prop :=
  u ∈ usernameList ∧ ∃ E : Evidence, E.derived.1 ≠ 0 ∧ ∀ e ∈ check E u ++ E.derivation, e ∈ t

theorem lasts_authenticated (u : Buffer) : Lasts (Authenticated u) := by
  rintro t e ⟨hu, E, hstatus, hall⟩
  exact ⟨hu, E, hstatus, fun e' he' => lasts_mem e' t e (hall e' he')⟩

theorem proves_receiveUsername : Proves (fun _ => True) [] (receiveUsername P) fun _ =>
    Known (fun x => x.username ∈ usernameList) [] := by
  refine .bind (gathers_only (offDisk_expect (offDisk_receiveSize P))) fun length =>
    .bind (gathers_only (.require refuses_returned)) fun _ =>
    .bind (gathers_only (offDisk_expect (.call trivial))) fun name =>
    .bind (gathers_modify (q := fun x => x.username = name) fun _ _ => rfl) fun _ =>
    .bind (gathers_only (offDisk_sent _)) fun _ =>
    (gathers_require refuses_returned).conseq (fun _ _ => id) ?_ fun _ _ _ => id
  rintro _ x t ⟨hknown, rfl, -⟩
  exact ⟨of_decide_eq_true hknown, by simp⟩

theorem proves_receiveClientKey : Proves p evs (receiveClientKey P) fun r =>
    Known p (cryptoEvent (.deserializePublicKey r.2) (some r.1) :: evs) := by
  have hreceive : Proves p evs (receiveEphemeralPublicKey P) fun r x t => ∀ key serialized,
      r = some (key, serialized) →
      Known p (cryptoEvent (.deserializePublicKey serialized) key :: evs) x t := by
    refine .bind (gathers_only (offDisk_receiveSize P)) fun length => ?_
    cases length with
    | none => exact .pure _ fun _ _ _ _ _ heq => by cases heq
    | some length =>
        refine .bind (gathers_only (Only.call (I := Sys) (o := .sys (.note _)) trivial)) fun _ => ?_
        split
        · exact .pure _ fun _ _ _ _ _ heq => by cases heq
        · refine .bind (gathers_only (.call trivial)) fun (block : Option Buffer) => ?_
          cases block with
          | none => exact .pure _ fun _ _ _ _ _ heq => by cases heq
          | some serialized =>
              refine .bind (proves_crypto (.deserializePublicKey serialized)) fun key => .pure _ ?_
              rintro x t hknown key' serialized' ⟨⟩
              exact hknown
  apply Triple.bind hreceive
  intro r
  cases r with
  | none => exact .throw _ fun _ _ _ => refuses_undefined
  | some r =>
      obtain ⟨key, serialized⟩ := r
      cases key with
      | none => exact .throw _ fun _ _ _ => refuses_returned
      | some key => exact .pure _ fun _ _ h => h _ _ rfl

/-- The session key, and the calls that lead to it. -/
theorem proves_deriveKey {clientKey : Pkey} (hp : ∀ x key, p x → p { x with sessionKey := key }) :
    Proves p evs (deriveKey clientKey) fun sServerKey x t => ∃ own derived digest, derived.1 ≠ 0 ∧
      Known (fun x => p x ∧ x.sessionKey = fit 16 digest)
        (derivedEvent (fit 16 digest) :: cryptoEvent (.computeSHA256Digest derived.2) (some digest) ::
          cryptoEvent (.deriveSharedSecret own clientKey) derived ::
          cryptoEvent (.serializePubKey own) (some sServerKey) ::
          cryptoEvent .ecdhKeyGeneration (some own) :: evs) x t := by
  refine .bind (proves_expect (proves_crypto .ecdhKeyGeneration)) fun own =>
    .bind (proves_expect (proves_crypto (.serializePubKey own))) fun sServerKey =>
    .bind (proves_crypto (.deriveSharedSecret own clientKey)) fun derived =>
    .bind (gathers_require refuses_returned) fun _ => ?_
  rintro x t ⟨hstatus, hknown⟩
  refine Triple.bind (proves_expect (proves_crypto (.computeSHA256Digest derived.2))) (fun digest => ?_)
    x t hknown
  refine .bind (proves_generateSessionKey (q := fun x => p x ∧ x.sessionKey = fit 16 digest)
    fun x hx => ⟨hp x _ hx, rfl⟩) fun _ => .pure _ ?_
  intro x t h
  exact ⟨own, derived, digest, by simpa using hstatus, h⟩

theorem offDisk_sendM3 (sServerKey concatenatedKeys : Buffer) :
    Only OffDisk Refuses (sendM3 P sServerKey concatenatedKeys) := by
  refine .bind (offDisk_expect (.call trivial)) fun privateKey =>
    .bind (offDisk_expect (.call trivial)) fun signature => .bind .get fun s =>
    .bind (offDisk_expect (.call trivial)) fun encrypted =>
    .bind (offDisk_expect (.call trivial)) fun certificate => .bind ?_ fun message => offDisk_sent message
  exact .bind (.call trivial) fun _ => .bind (.call trivial) fun _ => .bind (.call trivial) fun _ => .pure _

theorem proves_checkM4 {concatenatedKeys key : Buffer} :
    Proves (fun x => x.username = u ∧ x.sessionKey = key) evs (checkM4 concatenatedKeys) fun _ x t =>
      ∃ cipherText iv signature publicKey, Known (fun x => x.username = u ∧ x.sessionKey = key)
        (cryptoEvent (.verifyDigitalSignature concatenatedKeys signature publicKey) true ::
          cryptoEvent (.loadPublicKey (publicKeyFile u)) (some publicKey) ::
          cryptoEvent (.decryptTextAES cipherText key iv) (some signature) :: evs) x t := by
  refine .bind (gathers_only (offDisk_expect (.call trivial))) fun message => .bind gathers_get fun s => ?_
  rintro x t ⟨rfl, hknown⟩
  obtain ⟨⟨rfl, rfl⟩, -⟩ := id hknown
  refine Triple.bind (proves_expect (proves_crypto (.decryptTextAES _ s.sessionKey _))) (fun signature => ?_)
    s t hknown
  refine .bind (proves_expect (proves_crypto (.loadPublicKey (publicKeyFile s.username)))) fun publicKey =>
    .bind (proves_crypto (.verifyDigitalSignature _ signature publicKey)) fun verified =>
    (gathers_require refuses_returned).conseq (fun _ _ => id) ?_ fun _ _ _ => id
  rintro _ x t ⟨rfl, h⟩
  exact ⟨_, _, signature, publicKey, h⟩

/-- **The login of the worker** authenticates a user. -/
theorem proves_login : Proves (fun _ => True) [] (login P) fun _ x t =>
    derivedEvent x.sessionKey ∈ t ∧ ∃ u, x.username = u ∧ Authenticated u t := by
  refine .bind proves_receiveUsername fun _ => ?_
  rintro x t ⟨hlisted, hnone⟩
  have hstart : Known (fun x' => x'.username = x.username) [] x t := ⟨rfl, hnone⟩
  refine Triple.bind proves_receiveClientKey (fun r => ?_) x t hstart
  obtain ⟨peer, sPeer⟩ := r
  refine .bind (proves_deriveKey fun x' key hx => hx) fun sOwn => ?_
  rintro x' t' ⟨own, derived, digest, hstatus, hknown⟩
  refine Triple.bind (gathers_only (offDisk_sendM3 sOwn (sOwn ++ sPeer))) (fun _ => ?_) x' t' hknown
  refine .bind proves_checkM4 fun _ => .pure _ ?_
  rintro x'' t'' ⟨cipherText, iv, signature, publicKey, ⟨huser, hkey⟩, hall⟩
  refine ⟨?_, _, huser, hlisted,
    ⟨own, peer, publicKey, sOwn, sPeer, derived, digest, cipherText, iv, signature⟩, hstatus, hall⟩
  rw [hkey]
  exact hall _ (by simp)

end Worker

/-! ## The client -/

namespace Client

variable {P : Platform}

/-- The calls that check the server's certificate and its signature of the two keys. -/
def check (E : Evidence) (certificate : Buffer) : List Event :=
  [cryptoEvent (.verifyDigitalSignature (E.sPeer ++ E.sOwn) E.signature E.publicKey) true,
    cryptoEvent (.decryptTextAES E.cipherText (fit 16 E.digest) E.iv) (some E.signature),
    cryptoEvent (.verifyServerCertificate certificate) true,
    cryptoEvent (.readCertificate certificate) (some E.publicKey)]

/-- The server has been authenticated. Its key may have failed to give a secret: the status 0 passes. -/
def Authenticated (t : List Event) : Prop :=
  ∃ (E : Evidence) (certificate : Buffer), E.derived.1 ≠ -1 ∧
    ∀ e ∈ check E certificate ++ E.derivation, e ∈ t

theorem lasts_authenticated : Lasts Authenticated := by
  rintro t e ⟨E, certificate, hstatus, hall⟩
  exact ⟨E, certificate, hstatus, fun e' he' => lasts_mem e' t e (hall e' he')⟩

theorem offDisk_readField (limit : Nat) : Only OffDisk Refuses (readField limit) :=
  .bind (.call trivial) fun _ => .bind (.require refuses_returned) fun _ => .pure _

theorem proves_sendUsername : Proves (fun _ => True) [] (sendUsername P) fun _ =>
    Known (fun _ => True) [] :=
  .bind (gathers_only (offDisk_readField _)) fun _ => .bind (gathers_modify fun _ _ => trivial) fun _ =>
    .bind (gathers_only (offDisk_sent _)) fun _ => .bind (gathers_only (offDisk_sent _)) fun _ =>
    .bind (gathers_only (offDisk_expect (offDisk_receiveSize P))) fun _ =>
    gathers_only (.require refuses_returned)

theorem proves_sendClientKey : Proves p evs (sendClientKey P) fun r =>
    Known p (cryptoEvent (.serializePubKey r.1) (some r.2) ::
      cryptoEvent .ecdhKeyGeneration (some r.1) :: evs) := by
  refine .bind (proves_expect (proves_crypto .ecdhKeyGeneration)) fun own =>
    .bind (proves_expect (proves_crypto (.serializePubKey own))) fun sOwn => ?_
  exact .bind (gathers_only (offDisk_sent _)) fun _ => .bind (gathers_only (offDisk_sent _)) fun _ =>
    .pure _ fun _ _ h => h

theorem proves_receiveM3 : Proves p evs (receiveM3 P) fun r =>
    Known p (cryptoEvent (.verifyServerCertificate r.1.certificate) true ::
      cryptoEvent (.readCertificate r.1.certificate) (some r.2) :: evs) := by
  have hdeserialize : ∀ message, Only OffDisk Refuses (M3.deserialize P.order message) := by
    intro message
    exact .bind (.call trivial) fun _ => .bind (.call trivial) fun _ => .pure _
  refine .bind (gathers_only (offDisk_expect (.call trivial))) fun message =>
    .bind (gathers_only (hdeserialize message)) fun m =>
    .bind (proves_expect (proves_crypto (.readCertificate m.certificate))) fun publicKey =>
    .bind (proves_crypto (.verifyServerCertificate m.certificate)) fun trusted =>
    .bind (gathers_require refuses_returned) fun _ => ?_
  rintro x t ⟨rfl, hknown⟩
  refine Triple.bind (gathers_only (.require refuses_returned)) (fun _ => ?_) x t hknown
  exact .pure _ fun _ _ h => h

/-- The session key, and the calls that lead to it. -/
theorem proves_deriveKey {own : Pkey} {sPeer : Buffer} : Proves (fun _ => True) evs (deriveKey own sPeer)
    fun _ x t => ∃ peer derived digest, derived.1 ≠ -1 ∧ Known (fun x => x.sessionKey = fit 16 digest)
      (derivedEvent (fit 16 digest) :: cryptoEvent (.computeSHA256Digest derived.2) (some digest) ::
        cryptoEvent (.deriveSharedSecret own peer) derived ::
        cryptoEvent (.deserializePublicKey sPeer) (some peer) :: evs) x t := by
  refine .bind (proves_expect (proves_crypto (.deserializePublicKey sPeer))) fun peer =>
    .bind (proves_crypto (.deriveSharedSecret own peer)) fun derived =>
    .bind (gathers_require refuses_returned) fun _ => ?_
  rintro x t ⟨hstatus, hknown⟩
  refine Triple.bind (proves_expect (proves_crypto (.computeSHA256Digest derived.2))) (fun digest => ?_)
    x t hknown
  refine (proves_generateSessionKey (q := fun x => x.sessionKey = fit 16 digest) fun _ _ => rfl).conseq
    (fun _ _ => id) ?_ fun _ _ _ => id
  intro _ x t h
  exact ⟨peer, derived, digest, by simpa using hstatus, h⟩

theorem proves_checkM3 {m : M3} {publicKey : Pkey} {concatenatedKeys key : Buffer} :
    Proves (fun x => x.sessionKey = key) evs (checkM3 m publicKey concatenatedKeys) fun _ x t =>
      ∃ signature, Known (fun _ => True)
        (cryptoEvent (.verifyDigitalSignature concatenatedKeys signature publicKey) true ::
          cryptoEvent (.decryptTextAES m.cipherText key m.iv) (some signature) :: evs) x t := by
  refine .bind gathers_get fun s => ?_
  rintro x t ⟨rfl, hknown⟩
  obtain ⟨rfl, -⟩ := id hknown
  refine Triple.bind (proves_expect (proves_crypto (.decryptTextAES _ s.sessionKey _))) (fun signature => ?_)
    s t hknown
  refine .bind (proves_crypto (.verifyDigitalSignature _ signature publicKey)) fun verified =>
    (gathers_require refuses_returned).conseq (fun _ _ => id) ?_ fun _ _ _ => id
  rintro _ x t ⟨rfl, h⟩
  exact ⟨signature, h.mono (fun _ => trivial) fun _ => id⟩

theorem offDisk_sendM4 (privateKey : Pkey) (concatenatedKeys : Buffer) :
    Only OffDisk Refuses (sendM4 privateKey concatenatedKeys) := by
  refine .bind (offDisk_expect (.call trivial)) fun signature => .bind .get fun s =>
    .bind (offDisk_expect (.call trivial)) fun encrypted => .bind ?_ fun message => offDisk_sent message
  exact .bind (.call trivial) fun _ => .pure _

/-- **The login of the client** authenticates the server. -/
theorem proves_login : Proves (fun _ => True) [] (login P) fun _ _ t => Authenticated t := by
  refine .bind proves_sendUsername fun _ => .bind (gathers_only (offDisk_readField _)) fun password =>
    .bind (gathers_only .get) fun s =>
    .bind (gathers_only (offDisk_expect (.call trivial))) fun privateKey =>
    .bind proves_sendClientKey fun r => ?_
  obtain ⟨own, sOwn⟩ := r
  refine .bind proves_receiveM3 fun r => ?_
  obtain ⟨m, publicKey⟩ := r
  refine .bind proves_deriveKey fun _ => ?_
  rintro x t ⟨peer, derived, digest, hstatus, hknown⟩
  refine Triple.bind proves_checkM3 (fun _ => ?_) x t hknown
  rintro x t ⟨signature, hknown⟩
  refine Triple.bind (gathers_only (offDisk_sendM4 privateKey _)) (fun _ => .pure _ ?_) x t hknown
  intro x t h
  refine ⟨⟨own, peer, publicKey, sOwn, m.serverKey, derived, digest, m.cipherText, m.iv, signature⟩,
    m.certificate, hstatus, fun e he => h.2 e ?_⟩
  simp only [check, Evidence.derivation, List.cons_append, List.nil_append, List.mem_cons] at he ⊢
  tauto

/-- **The client touches no file before it has authenticated the server.** In every run of `start`, on any
    machine and with any network, a call into the file system comes after a login in which this very
    session's key was signed by the holder of a certificate that has been verified. -/
theorem authenticates_first (P : Platform) (n : Nat) (x : Session) (h h' : Host)
    (q : Program Sys (Except Exit Int × Session)) (t front rest : List Event) (call : FileCall)
    (a : call.Ans) (hrun : Program.Reaches (Program.Logged Host.anyEnv) (start P n x, h, []) (q, h', t))
    (hcall : t = front ++ ⟨.sys (.file call), a⟩ :: rest) : Authenticated front := by
  have hrest : Gated (fun t _ => Authenticated t) (fun _ t => Authenticated t) (menuLoop P n []) := by
    intro x t ht
    apply (sat_lasts lasts_authenticated (menuLoop P n [] x) ht).mono (fun _ _ _ _ => id)
    · exact fun t o _ _ ht c _ => ht
    · intro y t _
      split <;> trivial
  exact (gated_start proves_login hrest).before hrun hcall

/-- A client that logs in and looks for a file to upload. -/
def uploading : Program Sys (Except Exit Int × Session) × Host :=
  (start (.plain .little) 1 (.start [] []), .start .root ⟨ascii "user1\nsecret\n1\na\n", false, false⟩)

set_option maxRecDepth 20000 in
theorem authenticates_first_uploading : ∃ front call, ∃ (a : call.Ans) (rest : List Event),
    Host.events (List.replicate 40 { Choice.grant with bytes := [1] }) uploading =
      front ++ ⟨.sys (.file call), a⟩ :: rest ∧ Authenticated front := by
  have hdisk : ∃ e ∈ Host.events (List.replicate 40 { Choice.grant with bytes := [1] }) uploading,
      onDisk e := by decide +kernel
  obtain ⟨front, call, a, rest, hsplit⟩ := exists_onDisk hdisk
  have hrun := Host.reaches_events (List.replicate 40 { Choice.grant with bytes := [1] })
    (p := uploading.1) uploading.2 []
  rw [List.nil_append] at hrun
  exact ⟨front, call, a, rest, hsplit, authenticates_first _ 1 _ _ _ _ _ front rest call a hrun hsplit⟩

end Client

end CloudStorage
