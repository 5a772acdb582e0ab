import Mathlib.Data.Sym.Sym2
import CloudStorage.Handshake
import CloudStorage.Interaction.Journal

set_option autoImplicit false

/-! # A login with ideal primitives

`Client::login` and `Worker::login` as instances of a key exchange whose primitives are ideal
(`IdealCrypto`). Of the answers that an instance gets nothing else is known: a receive may get anything.
What an instance guarantees of its calls (`Guards`) and what it knows at its end (`Ended`) is shown for
each login by itself, call by call; what other instances do comes in only through the answers
(`Vouched`). -/

namespace CloudStorage

open Interaction Interaction.Routine Handshake

/-! ## Ideal primitives -/

/-- The file of the server's private key. -/
def serverKeyFile : Buffer := ascii "../commons/server_private_key.pem"

/-- The file of a user's private key. -/
def privateKeyFile (username : Buffer) : Buffer := ascii "../commons/" ++ username ++ ascii "/key.pem"

/-- The file of a user's public key. -/
def publicKeyFile (username : Buffer) : Buffer :=
  ascii "../commons/" ++ username ++ ascii "/public.pem"

/-- Ideal primitives for the key exchanges of the instances in `ι`. -/
structure IdealCrypto (ι : Type) where
  /-- The instance that generates an ephemeral key; the other keys are the attacker's. -/
  owner : Pkey → Option ι
  /-- A key in PEM form. -/
  pem : Pkey → Buffer
  /-- The first key in a buffer. -/
  firstKey : Buffer → Option Pkey
  /-- The shared secret of two keys. -/
  secret : Sym2 Pkey → Buffer
  digest : Buffer → Buffer
  /-- The long-term keys in the files. -/
  privateKey : Buffer → Pkey
  publicKey : Buffer → Pkey
  /-- The key that a certificate is about. -/
  certified : Buffer → Option Pkey
  /-- The strings that are a signature of something. -/
  IsSignature : Buffer → Prop
  /-- The reader returns the first key: whatever follows a key, and wherever the buffer is cut. -/
  firstKey_cut : ∀ {key key' : Pkey} {b rest : Buffer}, b <+: pem key ++ rest →
    firstKey b = some key' → key' = key
  /-- The secret of two instances' keys is that of no other keys. -/
  secret_inj : ∀ {p q : Sym2 Pkey}, (∀ key ∈ p, (owner key).isSome) → secret p = secret q → p = q
  /-- Nothing else has the digest of such a secret, nor its first half. -/
  digest_inj : ∀ {p : Sym2 Pkey} {s : Buffer}, (∀ key ∈ p, (owner key).isSome) →
    fit 16 (digest (secret p)) = fit 16 (digest s) → s = secret p
  /-- The files of a user are one key pair. -/
  publicKey_eq : ∀ username, publicKey (publicKeyFile username) = privateKey (privateKeyFile username)
  /-- No user has the server's key. -/
  privateKey_ne : ∀ username, privateKey (privateKeyFile username) ≠ privateKey serverKeyFile

namespace IdealCrypto

variable {ι : Type} (I : IdealCrypto ι)

/-- Both keys belong to instances. -/
def Private (p : Sym2 Pkey) : Prop := ∀ key ∈ p, (I.owner key).isSome

/-- The session key that `generateSessionKey` makes of a secret. -/
def sessionKey (s : Buffer) : Buffer := fit 16 (I.digest s)

/-- The attacker can compute the session key: it belongs to no secret of two instances' keys. -/
def Public (sessionKey : Buffer) : Prop :=
  ∃ s, (∀ p, I.Private p → s ≠ I.secret p) ∧ sessionKey = I.sessionKey s

/-- What a derivation from two keys leaves in the buffer. It succeeds for the keys of instances, and
    from other keys the secret of two instances' keys does not come. -/
def Derives (p : Sym2 Pkey) (derived : Int × Buffer) : Prop :=
  (I.Private p → derived = (1, I.secret p)) ∧
    (¬I.Private p → ∀ q, I.Private q → derived.2 ≠ I.secret q)

theorem private_pair {x y : Pkey} {i j : ι} (hx : I.owner x = some i) (hy : I.owner y = some j) :
    I.Private s(x, y) := by
  intro key hkey
  rcases Sym2.mem_iff.1 hkey with rfl | rfl
  · rw [hx]
    rfl
  · rw [hy]
    rfl

theorem not_public {p : Sym2 Pkey} (hp : I.Private p) : ¬I.Public (I.sessionKey (I.secret p)) := by
  rintro ⟨s, hs, heq⟩
  exact hs p hp (I.digest_inj hp heq)

/-- A session key of two instances' keys is derived from these keys only. -/
theorem eq_of_derives {p q : Sym2 Pkey} {derived : Int × Buffer} (hp : I.Private p)
    (hq : I.Derives q derived) (heq : I.sessionKey (I.secret p) = I.sessionKey derived.2) : q = p := by
  have hsecret : derived.2 = I.secret p := I.digest_inj hp heq
  by_cases hprivate : I.Private q
  · have hderived := hq.1 hprivate
    rw [hderived] at hsecret
    exact I.secret_inj hprivate hsecret
  · exact absurd hsecret (hq.2 hprivate p hp)

/-! ## The calls of the instances -/

/-- A call into the primitives with its answer. -/
abbrev cryptoEvent (c : CryptoCall) (a : c.Ans) : Event := ⟨.sys (.crypto c), a⟩

/-- The owner of the key signed the data. -/
def signs (data : Buffer) (key : Pkey) : Event → Bool
  | ⟨.sys (.crypto (.generateDigitalSignature data' key')), a⟩ =>
    data' == data && key' == key && (a : Option Buffer).isSome
  | _ => false

/-- A login derived the session key. -/
def derives (sessionKey : Buffer) : Event → Bool
  | ⟨.sys (.note (.derived sessionKey')), _⟩ => sessionKey' == sessionKey
  | _ => false

/-- Something is encrypted with the session key. -/
def encrypts (sessionKey : Buffer) : Event → Bool
  | ⟨.sys (.crypto (.encryptTextAES _ sessionKey')), _⟩ => sessionKey' == sessionKey
  | _ => false

/-- A private key was loaded. -/
def loads (key : Pkey) : Event → Bool
  | ⟨.sys (.crypto (.loadPrivateKey _ _)), a⟩ => (a : Option Pkey).any (· == key)
  | _ => false

/-- How the calls of instance `i` are answered, as far as no other instance matters. -/
def Answers (i : ι) : (c : CryptoCall) → c.Ans → Prop
  | .ecdhKeyGeneration => fun (a : Option Pkey) => ∀ key, a = some key → I.owner key = some i
  | .serializePubKey key => fun (a : Option Buffer) => ∀ b, a = some b → b = I.pem key
  | .deserializePublicKey b => fun (a : Option Pkey) => ∀ key, a = some key → I.firstKey b = some key
  | .deriveSharedSecret hostKey peerKey => fun (a : Int × Buffer) => I.Derives s(hostKey, peerKey) a
  | .computeSHA256Digest s => fun (a : Option Buffer) => ∀ d, a = some d → d = I.digest s
  | .loadPrivateKey path _ => fun (a : Option Pkey) => ∀ key, a = some key → key = I.privateKey path
  | .loadPublicKey path => fun (a : Option Pkey) => ∀ key, a = some key → key = I.publicKey path
  | .readCertificate b => fun (a : Option Pkey) => ∀ key, a = some key → I.certified b = some key
  -- the authority certifies the server only
  | .verifyServerCertificate b => fun (a : Bool) =>
    a = true → I.certified b = some (I.privateKey serverKeyFile)
  | _ => fun _ => True

/-- How they are answered for what the other instances did. A signature verifies only where the owner of
    the key signed exactly the data. Where the plain text is a signature, the cipher text comes from
    one who knows the session key: the attacker, another instance that derived it, or `i` itself. -/
def Vouched (i : ι) (s : ι → List Event) : (c : CryptoCall) → c.Ans → Prop
  | .verifyDigitalSignature data signature key => fun (a : Bool) =>
    a = true → I.IsSignature signature ∧ ∃ j, ∃ e ∈ s j, signs data key e
  | .decryptTextAES _ sessionKey _ => fun (a : Option Buffer) => ∀ b, a = some b → I.IsSignature b →
    I.Public sessionKey ∨ (∃ j, j ≠ i ∧ ∃ e ∈ s j, derives sessionKey e) ∨
      ∃ e ∈ s i, encrypts sessionKey e
  | _ => fun _ => True

/-- The same for all calls: the network, the console and the memory may answer anything. -/
def Own (i : ι) : (o : Sys.Op) → Sys.Ans o → Prop
  | .sys (.crypto c), a => I.Answers i c a
  | _, _ => True

def Allowed (i : ι) (s : ι → List Event) : (o : Sys.Op) → Sys.Ans o → Prop
  | .sys (.crypto c), a => I.Answers i c a ∧ I.Vouched i s c a
  | _, _ => True

theorem Allowed.own {I : IdealCrypto ι} {i : ι} {s : ι → List Event} {o : Sys.Op} {a : Sys.Ans o}
    (h : I.Allowed i s o a) : I.Own i o a := by
  cases o with
  | send => trivial
  | recv => trivial
  | sys o =>
      cases o with
      | crypto c => exact h.1
      | _ => trivial

/-! ## What a login guarantees of its calls -/

/-- The session key is made of a secret of a key of the instance. -/
def Keyed (i : ι) (sessionKey : Buffer) (own peer : Pkey) : Prop :=
  I.owner own = some i ∧
    ∃ derived, I.Derives s(own, peer) derived ∧ sessionKey = I.sessionKey derived.2

/-- A client has accepted the data with this session key: the data is what it took for the server's key
    with its own behind it, and the signature came encrypted. -/
structure Accepted (i : ι) (t : List Event) (sessionKey data : Buffer) (own peer : Pkey) : Prop where
  keyed : I.Keyed i sessionKey own peer
  derived : ∃ e ∈ t, derives sessionKey e
  peer : ∃ sServerKey, I.firstKey sServerKey = some peer ∧ data = sServerKey ++ I.pem own
  verified : ∃ cipherText iv signature,
    cryptoEvent (.decryptTextAES cipherText sessionKey iv) (some signature : Option Buffer) ∈ t ∧
    cryptoEvent (.verifyDigitalSignature data signature (I.privateKey serverKeyFile)) true ∈ t

theorem Accepted.mono {I : IdealCrypto ι} {i : ι} {t t' : List Event} {sessionKey data : Buffer}
    {own peer : Pkey} (h : I.Accepted i t sessionKey data own peer) (ht : t ⊆ t') :
    I.Accepted i t' sessionKey data own peer := by
  obtain ⟨e, he, hderives⟩ := h.derived
  obtain ⟨cipherText, iv, signature, hdecrypt, hverify⟩ := h.verified
  exact ⟨h.keyed, ⟨e, ht he, hderives⟩, h.peer, cipherText, iv, signature, ht hdecrypt, ht hverify⟩

/-- What a login that made the calls `t` guarantees of its next one. A worker signs only what begins with
    its own key. A client signs only what it has accepted, and decrypts before it encrypts. -/
def Guards (i : ι) : Endpoint → List Event → Sys.Op → Prop
  | _, _, .sys (.note (.derived sessionKey)) => ∃ own peer, I.Keyed i sessionKey own peer
  | .client, t, .sys (.crypto (.generateDigitalSignature data key)) =>
    (∃ e ∈ t, loads key e) ∧ key ≠ I.privateKey serverKeyFile ∧
      ∃ sessionKey own peer, I.Accepted i t sessionKey data own peer
  | .worker, _, .sys (.crypto (.generateDigitalSignature data key)) =>
    key = I.privateKey serverKeyFile ∧ ∃ own rest, I.owner own = some i ∧ data = I.pem own ++ rest
  | .client, t, .sys (.crypto (.decryptTextAES _ _ _)) => ∀ e ∈ t, ∀ sessionKey, ¬encrypts sessionKey e
  | _, _, _ => True

end IdealCrypto

/-! ## Rules for the two logins -/

namespace Agreement

open IdealCrypto

variable {ι : Type} {I : IdealCrypto ι} {i : ι} {end_ : Endpoint} {α β : Type}

/-- The calls of instance `i` and their guarantees. -/
abbrev Login (I : IdealCrypto ι) (i : ι) (end_ : Endpoint) (K : Session → List Event → Prop) (r : Member α)
    (Q : α → Session → List Event → Prop) : Prop :=
  Triple (Journal.Own (I.Own i)) (fun t o _ _ => I.Guards i end_ t o) K r Q fun e _ _ => e ≠ .returned 1

/-- A call that neither encrypts nor marks a derivation. -/
def Neutral : Sys.Op → Prop
  | .sys (.crypto (.encryptTextAES _ _)) => False
  | .sys (.note (.derived _)) => False
  | _ => True

/-- A neutral call that needs no guarantee. -/
def Harmless : Sys.Op → Prop
  | .sys (.crypto (.generateDigitalSignature _ _)) => False
  | .sys (.crypto (.decryptTextAES _ _ _)) => False
  | o => Neutral o

/-- Neutral calls keep `K`. -/
def Kept (K : Session → List Event → Prop) : Prop :=
  ∀ x t o a, Neutral o → K x t → K x (t ++ [⟨o, a⟩])

theorem Neutral.marks {o : Sys.Op} (ho : Neutral o) (a : Sys.Ans o) (sessionKey : Buffer) :
    encrypts sessionKey ⟨o, a⟩ = false ∧ derives sessionKey ⟨o, a⟩ = false := by
  cases o with
  | send => exact ⟨rfl, rfl⟩
  | recv => exact ⟨rfl, rfl⟩
  | sys o =>
      cases o with
      | crypto c =>
          cases c with
          | encryptTextAES => exact False.elim ho
          | _ => exact ⟨rfl, rfl⟩
      | note e =>
          cases e with
          | derived => exact False.elim ho
          | _ => exact ⟨rfl, rfl⟩
      | _ => exact ⟨rfl, rfl⟩

theorem Harmless.neutral {o : Sys.Op} (ho : Harmless o) : Neutral o := by
  cases o with
  | send => trivial
  | recv => trivial
  | sys o =>
      cases o with
      | crypto c => cases c <;> trivial
      | _ => exact ho

theorem Harmless.guards {o : Sys.Op} (ho : Harmless o) (t : List Event) : I.Guards i end_ t o := by
  cases end_ <;> cases o with
  | send => trivial
  | recv => trivial
  | sys o =>
      cases o with
      | crypto c => cases c <;> trivial
      | note e => cases e <;> trivial
      | _ => trivial

theorem Kept.and {K L : Session → List Event → Prop} (hK : Kept K) (hL : Kept L) :
    Kept fun x t => K x t ∧ L x t := fun x t o a ho h => ⟨hK x t o a ho h.1, hL x t o a ho h.2⟩

theorem kept_eq (s : Session) : Kept fun x _ => x = s := fun _ _ _ _ _ => id

theorem kept_mem (p : Session → Event → Prop) : Kept fun x t => ∃ e ∈ t, p x e := by
  rintro x t o a - ⟨e, he, hp⟩
  exact ⟨e, List.mem_append_left _ he, hp⟩

/-- Nothing was encrypted. -/
def Unencrypted (_ : Session) (t : List Event) : Prop := ∀ e ∈ t, ∀ sessionKey, ¬encrypts sessionKey e

theorem kept_unencrypted : Kept Unencrypted := by
  intro x t o a ho h e he sessionKey
  rcases List.mem_append.1 he with he | he
  · exact h e he sessionKey
  · obtain rfl := List.mem_singleton.1 he
    simp [(ho.marks a sessionKey).1]

/-- A routine of harmless calls. -/
theorem login_only {r : Member α} (hr : Only Harmless (· ≠ .returned 1) r)
    {K : Session → List Event → Prop} (hK : Kept K) : Login I i end_ K r fun _ => K := by
  apply (hr.triple _).conseq (fun _ _ => id) (fun _ _ _ => id) fun _ _ _ h => h.1
  rintro x t o a t' ho h ⟨rfl, -⟩
  exact ⟨ho.guards t, hK x t o a ho.neutral h⟩

/-- A call into the primitives: its answer is an ideal one, and it is in the journal. -/
theorem login_crypto (c : CryptoCall) (hc : Neutral (.sys (.crypto c)))
    {K : Session → List Event → Prop} (hK : Kept K)
    (hguard : ∀ x t, K x t → I.Guards i end_ t (.sys (.crypto c))) :
    Login I i end_ K (Member.crypto c)
      fun a x t => (K x t ∧ cryptoEvent c a ∈ t) ∧ I.Answers i c a := by
  intro x t h
  refine (sat_call (I := Sys) (.sys (.crypto c)) _).2 fun a t' hstep => ⟨hguard x t h, ?_⟩
  obtain ⟨rfl, hanswer⟩ := hstep
  exact ⟨⟨hK x t _ a hc h, List.mem_append_right _ (List.mem_singleton.2 rfl)⟩, hanswer⟩

theorem login_harmless (c : CryptoCall) (hc : Harmless (.sys (.crypto c)))
    {K : Session → List Event → Prop} (hK : Kept K) :
    Login I i end_ K (Member.crypto c) fun a x t => K x t ∧ I.Answers i c a :=
  (login_crypto c hc.neutral hK fun _ t _ => hc.guards t).conseq (fun _ _ => id)
    (fun _ _ _ h => ⟨h.1.1, h.2⟩) fun _ _ _ => id

/-- What is known of the answer of a step that may fail holds of its value. -/
theorem login_expect {r : Member (Option α)} {K : Session → List Event → Prop}
    {Q : Option α → Session → List Event → Prop} (hr : Login I i end_ K r Q) :
    Login I i end_ K (Member.expect r 0) fun a => Q (some a) := by
  apply Triple.bind hr
  intro a
  cases a with
  | none => exact fun _ _ _ => by simp
  | some a => exact fun _ _ h => h

/-- A fact that does not depend on the state. -/
theorem login_assume {p : Prop} {K : Session → List Event → Prop} {r : Member α}
    {Q : α → Session → List Event → Prop} (hr : p → Login I i end_ K r Q) :
    Login I i end_ (fun x t => K x t ∧ p) r Q := fun x t h => hr h.2 x t h.1

theorem login_encrypt (clear sessionKey : Buffer) {K : Session → List Event → Prop}
    (hK : ∀ x t a, K x t → K x (t ++ [cryptoEvent (.encryptTextAES clear sessionKey) a])) :
    Login I i end_ K (Member.crypto (.encryptTextAES clear sessionKey)) fun _ => K := by
  intro x t h
  refine fun a t' hstep => ⟨?_, ?_⟩
  · cases end_ <;> trivial
  · rw [hstep.1]
    exact hK x t a h

/-- The object as it is read. -/
theorem login_get {K : Session → List Event → Prop} :
    Login I i end_ K (Routine.get : Member Session) fun s x t => K x t ∧ x = s :=
  Triple.get fun _ _ h => ⟨h, rfl⟩

theorem login_require (b : Bool) {K : Session → List Event → Prop} :
    Login I i end_ K (Routine.require b (.returned 0) : Member Unit) fun _ x t => K x t ∧ b = true :=
  fun _ _ h => (sat_require b _ _).2 ⟨fun hb => ⟨h, hb⟩, fun _ => by simp⟩

/-! ## The client -/

section Client

open Client

variable (P : Platform)

abbrev HarmlessOnly (r : Member α) : Prop := Only Harmless (· ≠ .returned 1) r

theorem harmless_sent (data : Buffer) : HarmlessOnly (Member.sent (Member.sendData data)) :=
  (Only.call trivial).bind fun _ => .require (by simp)

theorem harmless_expect {r : Member (Option α)} (hr : HarmlessOnly r) :
    HarmlessOnly (Member.expect r 0) := by
  apply hr.bind
  intro a
  cases a with
  | none => exact .throw (by simp)
  | some a => exact .pure a

theorem harmless_receiveSize : HarmlessOnly (Member.receiveSize P) :=
  (Only.call trivial).bind fun _ => .pure _

theorem harmless_readField (limit : Nat) : HarmlessOnly (readField limit) := by
  apply Only.bind (Only.call trivial)
  intro a
  exact (Only.require (by simp)).bind fun _ => .pure _

theorem login_sendUsername {K : Session → List Event → Prop} (hK : Kept K)
    (hfree : ∀ x y t, K x t → K y t) : Login I i end_ K (sendUsername P) fun _ => K := by
  apply Triple.bind (login_only (harmless_readField _) hK)
  intro username
  apply Triple.bind (P := fun _ => K)
  · exact fun x t h => hfree x _ t h
  · intro _
    apply login_only _ hK
    apply (harmless_sent _).bind
    intro _
    apply (harmless_sent _).bind
    intro _
    exact (harmless_expect (harmless_receiveSize P)).bind fun _ => .require (by simp)

/-- The client's ephemeral key is its own. -/
theorem login_sendClientKey {K : Session → List Event → Prop} (hK : Kept K) :
    Login I i end_ K (sendClientKey P) fun keys x t =>
      K x t ∧ I.owner keys.1 = some i ∧ keys.2 = I.pem keys.1 := by
  apply Triple.bind (login_expect (login_harmless .ecdhKeyGeneration trivial hK))
  intro clientKey
  apply login_assume
  intro howner
  apply Triple.bind (login_expect (login_harmless (.serializePubKey clientKey) trivial hK))
  intro sClientKey
  apply login_assume
  intro hpem
  apply Triple.bind (login_only (harmless_sent _) hK)
  intro _
  apply Triple.bind (login_only (harmless_sent _) hK)
  intro _
  exact fun x t h => ⟨h, howner clientKey rfl, hpem sClientKey rfl⟩

/-- The key of a certificate that was accepted is the server's. -/
theorem login_receiveM3 {K : Session → List Event → Prop} (hK : Kept K) :
    Login I i end_ K (receiveM3 P) fun received x t =>
      K x t ∧ received.2 = I.privateKey serverKeyFile := by
  apply Triple.bind (login_only (harmless_expect (Only.call trivial)) hK)
  intro message
  have hdeserialize : HarmlessOnly (M3.deserialize P.order message) :=
    (Only.call trivial).bind fun _ => (Only.call trivial).bind fun _ => .pure _
  apply Triple.bind (login_only hdeserialize hK)
  intro m
  apply Triple.bind (login_expect (login_harmless (.readCertificate m.certificate) trivial hK))
  intro serverPublicKey
  apply login_assume
  intro hcertified
  apply Triple.bind (login_harmless (.verifyServerCertificate m.certificate) trivial hK)
  intro (trusted : Bool)
  apply login_assume
  intro htrusted
  apply Triple.bind (login_require trusted)
  intro _
  apply login_assume
  intro htrue
  apply Triple.bind (login_require _)
  intro _ x t h
  have hkey := (hcertified serverPublicKey rfl).symm.trans (htrusted htrue)
  exact ⟨h.1, Option.some.inj hkey⟩

/-- The digest of what was derived from a key of the instance. -/
theorem login_digest {hostKey peerKey : Pkey} {derived : Int × Buffer} {K : Session → List Event → Prop}
    (hK : Kept K) (howner : I.owner hostKey = some i) (hderives : I.Derives s(hostKey, peerKey) derived) :
    Login I i end_ K (Member.expect (Member.crypto (.computeSHA256Digest derived.2)) 0)
      fun digest x t => K x t ∧ I.Keyed i (fit 16 digest) hostKey peerKey := by
  apply (login_expect (login_harmless (.computeSHA256Digest derived.2) trivial hK)).conseq
    (fun _ _ => id) _ fun _ _ _ => id
  intro digest x t h
  exact ⟨h.1, howner, derived, hderives, congrArg (fit 16) (h.2 digest rfl)⟩

/-- The session key is one of the keys it was derived from. -/
theorem login_generateSessionKey {digest : Buffer} {K Q : Session → List Event → Prop} {own peer : Pkey}
    (hkeyed : I.Keyed i (fit 16 digest) own peer)
    (hQ : ∀ x t, K x t → Q { x with sessionKey := fit 16 digest }
      (t ++ [⟨.sys (.note (.derived (fit 16 digest))), ()⟩])) :
    Login I i end_ K (Member.generateSessionKey digest) fun _ => Q := by
  intro x t h
  refine fun (_ : Unit) t' hstep => ⟨?_, ?_⟩
  · cases end_ <;> exact ⟨own, peer, hkeyed⟩
  · rw [hstep.1]
    exact hQ x t h

theorem login_deriveKey_client {clientKey : Pkey} {sServerKey : Buffer}
    {K : Session → List Event → Prop} (hK : Kept K) (howner : I.owner clientKey = some i)
    (hnote : ∀ x t key e, K x t → K { x with sessionKey := key } (t ++ [⟨.sys (.note (.derived e)), ()⟩])) :
    Login I i end_ K (Client.deriveKey clientKey sServerKey) fun _ x t =>
      (K x t ∧ ∃ e ∈ t, derives x.sessionKey e) ∧
        ∃ peer, I.firstKey sServerKey = some peer ∧ I.Keyed i x.sessionKey clientKey peer := by
  apply Triple.bind (login_expect (login_harmless (.deserializePublicKey sServerKey) trivial hK))
  intro serverKey
  apply login_assume
  intro hfirst
  apply Triple.bind (login_harmless (.deriveSharedSecret clientKey serverKey) trivial hK)
  intro (derived : Int × Buffer)
  apply login_assume
  intro hderives
  apply Triple.bind (login_require _)
  intro _
  apply login_assume
  intro _
  apply Triple.bind (login_digest hK howner hderives)
  intro digest
  apply login_assume
  intro hkeyed
  apply login_generateSessionKey hkeyed
  intro x t h
  refine ⟨⟨hnote x t _ _ h, _, List.mem_append_right _ (List.mem_singleton.2 rfl), ?_⟩,
    serverKey, hfirst serverKey rfl, hkeyed⟩
  exact beq_self_eq_true _

/-- What a client checks before it signs. -/
theorem login_checkM3 {m : M3} {serverPublicKey : Pkey} {data : Buffer}
    {K : Session → List Event → Prop} (hK : Kept K) (hfree : ∀ x t, K x t → Unencrypted x t) :
    Login I i .client K (checkM3 m serverPublicKey data) fun _ x t =>
      K x t ∧ ∃ cipherText iv signature,
        cryptoEvent (.decryptTextAES cipherText x.sessionKey iv) (some signature : Option Buffer) ∈ t ∧
        cryptoEvent (.verifyDigitalSignature data signature serverPublicKey) true ∈ t := by
  apply Triple.bind login_get
  intro s
  have hread : Kept fun x t => K x t ∧ x = s := hK.and (kept_eq s)
  have hguard : ∀ x t, K x t ∧ x = s →
      I.Guards i .client t (.sys (.crypto (.decryptTextAES m.cipherText s.sessionKey m.iv))) :=
    fun x t h => hfree x t h.1
  apply Triple.bind (login_expect (login_crypto (.decryptTextAES m.cipherText s.sessionKey m.iv) trivial
    hread hguard))
  intro plaintext
  apply login_assume
  intro _
  have hdecrypted : Kept fun x t => (K x t ∧ x = s) ∧
      cryptoEvent (.decryptTextAES m.cipherText s.sessionKey m.iv) (some plaintext : Option Buffer) ∈ t :=
    hread.and fun _ _ _ _ _ h => List.mem_append_left _ h
  apply Triple.bind (login_crypto (.verifyDigitalSignature data plaintext serverPublicKey) trivial
    hdecrypted fun _ t _ => trivial)
  intro (verified : Bool)
  apply login_assume
  intro _ x t h
  refine (sat_require verified _ _).2 ⟨fun htrue => ?_, fun _ => by simp⟩
  subst htrue
  obtain ⟨⟨⟨hx, rfl⟩, hdecrypt⟩, hverify⟩ := h
  exact ⟨hx, m.cipherText, m.iv, plaintext, hdecrypt, hverify⟩

/-- A client that has accepted the data signs it. -/
theorem login_sendM4 {privateKey : Pkey} {data : Buffer} {K : Session → List Event → Prop}
    (hK : ∀ x t e, K x t → K x (t ++ [e])) (hguard : ∀ x t, K x t →
      I.Guards i .client t (.sys (.crypto (.generateDigitalSignature data privateKey)))) :
    Login I i .client K (sendM4 privateKey data) fun _ => K := by
  have hkept : Kept K := fun x t o a _ h => hK x t ⟨o, a⟩ h
  apply Triple.bind (login_expect (login_crypto (.generateDigitalSignature data privateKey) trivial hkept
    hguard))
  intro signature
  apply login_assume
  intro _
  apply Triple.weaken _ fun _ _ h => h.1
  apply Triple.bind login_get
  intro s
  apply Triple.weaken _ fun _ _ h => h.1
  apply Triple.bind (login_expect (login_encrypt signature s.sessionKey fun x t a h => hK x t _ h))
  intro encrypted
  have hserialize : HarmlessOnly (M4.serialize encrypted.1 encrypted.2) :=
    (Only.call trivial).bind fun _ => .pure _
  apply Triple.bind (login_only hserialize hkept)
  intro message
  exact login_only (harmless_sent message) hkept

/-- A private key is loaded, and nothing is encrypted yet. -/
def Loaded (key : Pkey) (x : Session) (t : List Event) : Prop :=
  Unencrypted x t ∧ ∃ e ∈ t, loads key e

/-- The session key is derived from the client's key and the first key in a buffer. -/
def Exchanged (I : IdealCrypto ι) (i : ι) (key clientKey : Pkey) (sServerKey : Buffer) (x : Session)
    (t : List Event) : Prop :=
  Loaded key x t ∧ (∃ e ∈ t, derives x.sessionKey e) ∧
    ∃ peer, I.firstKey sServerKey = some peer ∧ I.Keyed i x.sessionKey clientKey peer

/-- What is to be signed was accepted. -/
def Signable (I : IdealCrypto ι) (i : ι) (key : Pkey) (data : Buffer) (x : Session) (t : List Event) : Prop :=
  (∃ e ∈ t, loads key e) ∧ ∃ own peer, I.Accepted i t x.sessionKey data own peer

theorem kept_loaded (key : Pkey) : Kept (Loaded key) := kept_unencrypted.and (kept_mem fun _ e => loads key e)

theorem kept_exchanged (key clientKey : Pkey) (sServerKey : Buffer) :
    Kept (Exchanged I i key clientKey sServerKey) :=
  (kept_loaded key).and ((kept_mem fun x e => derives x.sessionKey e).and fun _ _ _ _ _ h => h)

/-- The note of a derivation changes nothing here. -/
theorem Loaded.derived {key : Pkey} {x : Session} {t : List Event} (h : Loaded key x t)
    (sessionKey sessionKey' : Buffer) : Loaded key { x with sessionKey := sessionKey }
      (t ++ [⟨.sys (.note (.derived sessionKey')), ()⟩]) := by
  obtain ⟨hfree, e, he, hloads⟩ := h
  refine ⟨fun e' he' sessionKey => ?_, e, List.mem_append_left _ he, hloads⟩
  rcases List.mem_append.1 he' with he' | he'
  · exact hfree e' he' sessionKey
  · obtain rfl := List.mem_singleton.1 he'
    simp [encrypts]

theorem Signable.append {key : Pkey} {data : Buffer} {x : Session} {t : List Event}
    (h : Signable I i key data x t) (e : Event) : Signable I i key data x (t ++ [e]) := by
  obtain ⟨⟨e', he', hloads⟩, own, peer, h⟩ := h
  exact ⟨⟨e', List.mem_append_left _ he', hloads⟩, own, peer, h.mono (List.subset_append_left t [e])⟩

/-- **A client ends its login** only with what it has accepted. -/
theorem login_client : Login I i .client Unencrypted (Client.login P) fun _ x t =>
    ∃ data own peer, I.Accepted i t x.sessionKey data own peer := by
  apply Triple.bind (login_sendUsername P kept_unencrypted fun _ _ _ h => h)
  intro _
  apply Triple.bind (login_only (harmless_readField _) kept_unencrypted)
  intro password
  apply Triple.bind login_get
  intro s
  apply Triple.weaken _ fun _ _ h => h.1
  apply Triple.bind (login_expect (login_crypto (.loadPrivateKey (privateKeyFile s.username) password)
    trivial kept_unencrypted fun _ _ _ => trivial))
  intro key
  apply login_assume
  intro hkey
  have hne : key ≠ I.privateKey serverKeyFile := by
    rw [hkey key rfl]
    exact I.privateKey_ne s.username
  have hloads : loads key (cryptoEvent (.loadPrivateKey (privateKeyFile s.username) password)
      (some key : Option Pkey)) := beq_self_eq_true key
  apply Triple.weaken (K := Loaded key) _ fun x t h => ⟨h.1, _, h.2, hloads⟩
  apply Triple.bind (login_sendClientKey P (kept_loaded key))
  intro keys
  obtain ⟨clientKey, sClientKey⟩ := keys
  apply login_assume
  intro (hown : I.owner clientKey = some i ∧ sClientKey = I.pem clientKey)
  apply Triple.bind (login_receiveM3 P (kept_loaded key))
  intro received
  obtain ⟨m, serverPublicKey⟩ := received
  apply login_assume
  intro (hserver : serverPublicKey = I.privateKey serverKeyFile)
  apply Triple.bind (login_deriveKey_client (kept_loaded key) hown.1 fun _ _ sessionKey sessionKey' h =>
    Loaded.derived h sessionKey sessionKey')
  intro _
  apply Triple.weaken (K := Exchanged I i key clientKey m.serverKey) _ fun x t h => ⟨h.1.1, h.1.2, h.2⟩
  apply Triple.bind (login_checkM3 (kept_exchanged key clientKey m.serverKey) fun _ _ h => h.1.1)
  intro _
  -- from here on only what was accepted matters, and every call keeps it
  have haccepted : ∀ x t, (Exchanged I i key clientKey m.serverKey x t ∧ ∃ cipherText iv signature,
      cryptoEvent (.decryptTextAES cipherText x.sessionKey iv) (some signature : Option Buffer) ∈ t ∧
      cryptoEvent (.verifyDigitalSignature (m.serverKey ++ sClientKey) signature serverPublicKey) true
        ∈ t) → Signable I i key (m.serverKey ++ sClientKey) x t := by
    rintro x t ⟨⟨hloaded, hderived, peer, hfirst, hkeyed⟩, hverified⟩
    rw [hserver] at hverified
    refine ⟨hloaded.2, clientKey, peer, hkeyed, hderived, ⟨m.serverKey, hfirst, ?_⟩, hverified⟩
    rw [hown.2]
  apply Triple.weaken _ haccepted
  apply Triple.bind (login_sendM4 (K := Signable I i key (m.serverKey ++ sClientKey))
    (fun _ _ e h => h.append e) fun x _ h => ⟨h.1, hne, x.sessionKey, h.2⟩)
  intro _ x t h
  exact ⟨m.serverKey ++ sClientKey, h.2⟩

end Client

/-! ## The worker -/

section Worker

open Worker

variable (P : Platform)

/-- No session key is derived. -/
def Underived (_ : Session) (t : List Event) : Prop := ∀ e ∈ t, ∀ sessionKey, ¬derives sessionKey e

/-- Only the session key is derived. -/
def DerivedOnly (x : Session) (t : List Event) : Prop :=
  ∀ e ∈ t, ∀ sessionKey, derives sessionKey e → sessionKey = x.sessionKey

theorem kept_underived : Kept Underived := by
  intro x t o a ho h e he sessionKey
  rcases List.mem_append.1 he with he | he
  · exact h e he sessionKey
  · obtain rfl := List.mem_singleton.1 he
    simp [(ho.marks a sessionKey).2]

theorem DerivedOnly.append {x : Session} {t : List Event} (h : DerivedOnly x t) {e : Event}
    (he : ∀ sessionKey, derives sessionKey e = false) : DerivedOnly x (t ++ [e]) := by
  intro e' he' sessionKey hderives
  rcases List.mem_append.1 he' with he' | he'
  · exact h e' he' sessionKey hderives
  · obtain rfl := List.mem_singleton.1 he'
    rw [he sessionKey] at hderives
    cases hderives

theorem kept_derivedOnly : Kept DerivedOnly :=
  fun _ _ _ a ho h => h.append fun sessionKey => (ho.marks a sessionKey).2

theorem login_receiveUsername : Login I i end_ Underived (receiveUsername P) fun _ => Underived := by
  apply Triple.bind (login_only (harmless_expect (harmless_receiveSize P)) kept_underived)
  intro length
  apply Triple.bind (login_only (.require (by simp)) kept_underived)
  intro _
  apply Triple.bind (login_only (harmless_expect (Only.call trivial)) kept_underived)
  intro name
  apply Triple.bind (P := fun _ => Underived)
  · exact fun _ _ h => h
  · intro _
    apply Triple.bind (login_only (harmless_sent _) kept_underived)
    intro _
    exact login_only (.require (by simp)) kept_underived

theorem harmless_receiveClientKey : HarmlessOnly (receiveClientKey P) := by
  have hreceive : HarmlessOnly (Member.receiveEphemeralPublicKey P) := by
    apply (harmless_receiveSize P).bind
    intro size
    cases size with
    | none => exact .pure _
    | some length =>
        apply Only.bind (Only.call trivial)
        intro _
        split
        · exact .pure _
        · apply Only.bind (Only.call trivial)
          intro block
          cases block with
          | none => exact .pure _
          | some serialized => exact (Only.call trivial).bind fun _ => .pure _
  apply hreceive.bind
  intro received
  cases received with
  | none => exact .throw (by simp)
  | some received =>
      obtain ⟨key, serialized⟩ := received
      cases key with
      | none => exact .throw (by simp)
      | some key => exact .pure _

/-- The worker sends its own key and derives one session key. -/
theorem login_deriveKey_worker (clientKey : Pkey) :
    Login I i end_ Underived (Worker.deriveKey clientKey) fun sServerKey x t =>
      DerivedOnly x t ∧ ∃ own, I.owner own = some i ∧ sServerKey = I.pem own := by
  apply Triple.bind (login_expect (login_harmless .ecdhKeyGeneration trivial kept_underived))
  intro serverKey
  apply login_assume
  intro howner
  apply Triple.bind (login_expect (login_harmless (.serializePubKey serverKey) trivial kept_underived))
  intro sServerKey
  apply login_assume
  intro hpem
  apply Triple.bind (login_harmless (.deriveSharedSecret serverKey clientKey) trivial kept_underived)
  intro (derived : Int × Buffer)
  apply login_assume
  intro hderives
  apply Triple.bind (login_require _)
  intro _
  apply login_assume
  intro _
  apply Triple.bind (login_digest kept_underived (howner serverKey rfl) hderives)
  intro digest
  apply login_assume
  intro hkeyed
  apply Triple.bind (login_generateSessionKey (Q := DerivedOnly) hkeyed _)
  · intro _ x t h
    exact ⟨h, serverKey, howner serverKey rfl, hpem sServerKey rfl⟩
  · intro x t h e he sessionKey hmark
    rcases List.mem_append.1 he with he | he
    · exact absurd hmark (h e he sessionKey)
    · obtain rfl := List.mem_singleton.1 he
      exact (beq_iff_eq.1 hmark).symm

/-- What the worker signs begins with its own key. -/
theorem login_sendM3 {own : Pkey} {sServerKey rest : Buffer} (howner : I.owner own = some i)
    (hpem : sServerKey = I.pem own) :
    Login I i .worker DerivedOnly (sendM3 P sServerKey (sServerKey ++ rest)) fun _ => DerivedOnly := by
  apply Triple.bind (login_expect (login_harmless (.loadPrivateKey serverKeyFile (ascii "root")) trivial
    kept_derivedOnly))
  intro privateKey
  apply login_assume
  intro hkey
  have hguard : ∀ x t, DerivedOnly x t → I.Guards i .worker t
      (.sys (.crypto (.generateDigitalSignature (sServerKey ++ rest) privateKey))) :=
    fun _ _ _ => ⟨hkey privateKey rfl, own, rest, howner, congrArg (· ++ rest) hpem⟩
  apply Triple.bind (login_expect (login_crypto (.generateDigitalSignature (sServerKey ++ rest) privateKey)
    trivial kept_derivedOnly hguard))
  intro signature
  apply Triple.weaken _ fun _ _ h => h.1.1
  apply Triple.bind login_get
  intro s
  apply Triple.weaken _ fun _ _ h => h.1
  apply Triple.bind (login_expect (login_encrypt signature s.sessionKey fun _ _ _ h => h.append fun _ => rfl))
  intro encrypted
  apply Triple.bind (login_expect (login_harmless .serverCertificate trivial kept_derivedOnly))
  intro certificate
  apply login_assume
  intro _
  have hserialize : HarmlessOnly ((M3.mk sServerKey encrypted.1 encrypted.2 certificate).serialize P.order) :=
    (Only.call trivial).bind fun _ => (Only.call trivial).bind fun _ => (Only.call trivial).bind fun _ =>
      .pure _
  apply Triple.bind (login_only hserialize kept_derivedOnly)
  intro message
  exact login_only (harmless_sent message) kept_derivedOnly

/-- The worker accepts a signature of the data by the user. -/
theorem login_checkM4 (data : Buffer) :
    Login I i .worker DerivedOnly (checkM4 data) fun _ x t => DerivedOnly x t ∧ ∃ signature,
      cryptoEvent (.verifyDigitalSignature data signature (I.privateKey (privateKeyFile x.username))) true
        ∈ t := by
  apply Triple.bind (login_only (harmless_expect (Only.call trivial)) kept_derivedOnly)
  intro message
  apply Triple.bind login_get
  intro s
  have hread : Kept fun x t => DerivedOnly x t ∧ x = s := kept_derivedOnly.and (kept_eq s)
  have hguard : ∀ x t, DerivedOnly x t ∧ x = s → I.Guards i .worker t (.sys (.crypto
      (.decryptTextAES (M4.deserialize message).1 s.sessionKey (M4.deserialize message).2))) :=
    fun _ _ _ => trivial
  apply Triple.bind (login_expect (login_crypto (.decryptTextAES (M4.deserialize message).1 s.sessionKey
    (M4.deserialize message).2) trivial hread hguard))
  intro plaintext
  apply Triple.weaken _ fun _ _ h => h.1.1
  apply Triple.bind (login_expect (login_harmless (.loadPublicKey (publicKeyFile s.username)) trivial hread))
  intro publicKey
  apply login_assume
  intro hkey
  apply Triple.bind (login_crypto (.verifyDigitalSignature data plaintext publicKey) trivial hread
    fun _ _ _ => trivial)
  intro (verified : Bool)
  apply login_assume
  intro _ x t h
  refine (sat_require verified _ _).2 ⟨fun htrue => ?_, fun _ => by simp⟩
  subst htrue
  obtain ⟨⟨honly, rfl⟩, hverify⟩ := h
  rw [hkey publicKey rfl, I.publicKey_eq] at hverify
  exact ⟨honly, plaintext, hverify⟩

/-- **A worker ends its login** only with a signature of its own key by the user. -/
theorem login_worker : Login I i .worker Underived (Worker.login P) fun _ x t =>
    DerivedOnly x t ∧ ∃ own rest signature, I.owner own = some i ∧
      cryptoEvent (.verifyDigitalSignature (I.pem own ++ rest) signature
        (I.privateKey (privateKeyFile x.username))) true ∈ t := by
  apply Triple.bind (login_receiveUsername P)
  intro _
  apply Triple.bind (login_only (harmless_receiveClientKey P) kept_underived)
  intro keys
  obtain ⟨clientKey, sClientKey⟩ := keys
  apply Triple.bind (login_deriveKey_worker clientKey)
  intro sServerKey
  apply login_assume
  rintro ⟨own, howner, hpem⟩
  apply Triple.bind (login_sendM3 P howner hpem)
  intro _
  apply Triple.bind (login_checkM4 _)
  intro _ x t h
  obtain ⟨honly, signature, hverify⟩ := h
  rw [hpem] at hverify
  exact ⟨honly, own, sClientKey, signature, howner, hverify⟩

end Worker

/-! ## Both logins -/

/-- What an instance knows when its login has ended with 1. -/
def Ended (I : IdealCrypto ι) (i : ι) : Endpoint → Session → List Event → Prop
  | .client, x, t => ∃ data own peer, I.Accepted i t x.sessionKey data own peer
  | .worker, x, t => DerivedOnly x t ∧ ∃ own rest signature, I.owner own = some i ∧
      cryptoEvent (.verifyDigitalSignature (I.pem own ++ rest) signature
        (I.privateKey (privateKeyFile x.username))) true ∈ t

theorem Login.returning {K : Session → List Event → Prop} {r : Member Int} {x : Session}
    {t : List Event} {Q : Session → List Event → Prop} (hr : Login I i end_ K r fun _ => Q) (h : K x t) :
    (Member.returning r x).Sat (Journal.Own (I.Own i)) (fun t o _ _ => I.Guards i end_ t o)
      (fun y t => y.1 = .ok 1 → Q y.2 t) t := by
  have htriple := Member.triple_returning (Q := fun result x t => result = .ok 1 → Q x t)
    (hr.conseq (fun _ _ => id) (fun _ _ _ hq _ => hq) fun e x t hne hone => ?_)
  · apply (htriple.program h).imp
    intro y t hy
    obtain ⟨e | n, x'⟩ := y <;> exact hy
  · cases e with
    | returned n =>
        obtain rfl : n = 1 := Except.ok.inj hone
        exact absurd rfl hne
    | _ => cases hone

theorem sat_instance (P : Platform) (end_ : Endpoint) (x : Session) :
    ((end_.login P) x).Sat (Journal.Own (I.Own i)) (fun t o _ _ => I.Guards i end_ t o)
      (fun y t => y.1 = .ok 1 → Ended I i end_ y.2 t) [] := by
  cases end_ with
  | client => exact (login_client P).returning fun e he => absurd he List.not_mem_nil
  | worker => exact (login_worker P).returning fun e he => absurd he List.not_mem_nil

end Agreement

end CloudStorage
