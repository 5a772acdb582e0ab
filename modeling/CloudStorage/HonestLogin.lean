import CloudStorage.IdealLogin
import CloudStorage.KeyMessages
import CloudStorage.TextAes
import CloudStorage.Exchange
import CloudStorage.Interaction.Recital

set_option autoImplicit false

/-! # A login that works

`Client::login` and `Worker::login` with primitives that do what they are for (`HonestCrypto`), over a
link that loses nothing. What is said in a login is not determined: the IVs are random, and behind the
key and the certificate there is memory of the worker. A message of the script is the set of blocks that
may be sent for it, and the other side goes on the same way whichever of them arrives. -/

namespace CloudStorage

open Interaction Interaction.Routine Login Memory Memory.Reader

/-! ## Honest primitives -/

/-- Primitives that work, for one login of a client and a worker with these ephemeral keys: what was
    written is read, the two sides derive one secret, a signature verifies and fills its slot, and the
    files and the certificate are in their places. -/
structure HonestCrypto where
  aes : Aes
  ephemeral : Endpoint → Pkey
  /-- A key in PEM form, and the reader of such keys. -/
  pem : Pkey → Buffer
  read : Buffer → Option Pkey
  secret : Sym2 Pkey → Buffer
  digest : Buffer → Buffer
  sign : Pkey → Buffer → Buffer
  /-- The long-term keys of the server and of the users, and the passwords of the users' files. -/
  serverKey : Pkey
  userKey : Buffer → Pkey
  password : Buffer → Buffer
  certificate : Buffer
  pem_ne : ∀ e, pem (ephemeral e) ≠ []
  pem_le : ∀ e, (pem (ephemeral e)).length ≤ maxEphemeralPublicKeySize
  read_pem : ∀ e, read (pem (ephemeral e)) = some (ephemeral e)
  length_sign : ∀ key data, (sign key data).length = 256
  certificate_le : certificate.length ≤ maxCertificateSize

namespace HonestCrypto

variable (H : HonestCrypto)

/-- How the calls of one side are answered. -/
def Answers (e : Endpoint) : (c : CryptoCall) → c.Ans → Prop
  | .ecdhKeyGeneration => fun (a : Option Pkey) => a = some (H.ephemeral e)
  | .serializePubKey key => fun (a : Option Buffer) => a = some (H.pem key)
  | .deserializePublicKey b => fun (a : Option Pkey) => a = H.read b
  | .deriveSharedSecret hostKey peerKey => fun (a : Int × Buffer) => a = (1, H.secret s(hostKey, peerKey))
  | .computeSHA256Digest data => fun (a : Option Buffer) => a = some (H.digest data)
  | .loadPrivateKey path password => fun (a : Option Pkey) =>
    (path = serverKeyFile → password = ascii "root" → a = some H.serverKey) ∧
      ∀ u, path = privateKeyFile u → password = H.password u → a = some (H.userKey u)
  | .loadPublicKey path => fun (a : Option Pkey) => ∀ u, path = publicKeyFile u → a = some (H.userKey u)
  | .generateDigitalSignature data key => fun (a : Option Buffer) => a = some (H.sign key data)
  | .verifyDigitalSignature data signature key => fun (a : Bool) => signature = H.sign key data → a = true
  | .encryptTextAES clear key => fun (a : Option (Buffer × Buffer)) =>
    ∃ random : Buffer, a = encryptTextAES H.aes (some random) clear key []
  | .decryptTextAES cipher key iv => fun (a : Option Buffer) => a = decryptTextAES H.aes cipher key iv []
  | .serverCertificate => fun (a : Option Buffer) => a = some H.certificate
  | .readCertificate pem => fun (a : Option Pkey) => pem = H.certificate → a = some H.serverKey
  | .verifyServerCertificate pem => fun (a : Bool) => pem = H.certificate → a = true

/-- Every call of one side is answered so, whatever else the machine chooses. -/
def Serves (e : Endpoint) (choices : Nat → Choice) : Prop := ∀ n c, H.Answers e c ((choices n).crypto c)

theorem Serves.next {H : HonestCrypto} {e : Endpoint} {choices : Nat → Choice} (h : H.Serves e choices) :
    H.Serves e fun n => choices (n + 1) := fun n => h (n + 1)

/-- The session key of the two ephemeral keys. -/
def sessionKey : Buffer := fit 16 (H.digest (H.secret s(H.ephemeral .client, H.ephemeral .worker)))

/-- What both sides sign. -/
def keys : Buffer := H.pem (H.ephemeral .worker) ++ H.pem (H.ephemeral .client)

/-! ## The script -/

/-- A signature of the keys encrypted with the session key, with the IV. -/
def Encrypted (key : Pkey) (cipherText iv : Buffer) : Prop :=
  ∃ random : Buffer,
    encryptTextAES H.aes (some random) (H.sign key H.keys) H.sessionKey [] = some (cipherText, iv)

/-- The messages of the worker, with whatever lies behind the vectors. -/
def m3 (order : ByteOrder) : Set Buffer :=
  {d | ∃ cipherText iv, H.Encrypted H.serverKey cipherText iv ∧ ∃ behind,
    (serializeM3 order ⟨H.pem (H.ephemeral .worker), cipherText, iv, H.certificate⟩).run behind = d}

/-- The messages of the client. -/
def m4 (u : Buffer) : Set Buffer :=
  {d | ∃ cipherText iv, H.Encrypted (H.userKey u) cipherText iv ∧ d = cipherText ++ iv}

/-- What the client says and hears in a login of the user `u`. -/
def loginScript (order : ByteOrder) (u : Buffer) : List (Turn (Set Buffer)) :=
  [.say {sizeImage order u.length}, .say {u}, .hear {sizeImage order 1}] ++
    [.say {sizeImage order (H.pem (H.ephemeral .client)).length}, .say {H.pem (H.ephemeral .client)}] ++
    [.hear (H.m3 order), .say (H.m4 u)]

end HonestCrypto

/-! ## Rules -/

namespace Member

variable {H : HonestCrypto} {e : Endpoint} {heap : Host → Buffer} {α β : Type} {x : Session} {h : Host}
  {s t : List (Turn (Set Buffer))} {Q Q' : Except Exit α → Session → Host → Prop}

/-- With answers that serve its side, the function says and hears what the script tells it. -/
def Follows (H : HonestCrypto) (e : Endpoint) (heap : Host → Buffer) {α : Type} (r : Member α) (x : Session)
    (h : Host) (s : List (Turn (Set Buffer))) (Q : Except Exit α → Session → Host → Prop) : Prop :=
  ∀ choices, H.Serves e choices → r.Recites (Host.onHeap heap) (fun message d => d ∈ message) x (h, choices)
    s fun result x' l' => H.Serves e l'.2 ∧ Q result x' l'.1

theorem Follows.mono {r : Member α} (hr : Follows H e heap r x h s Q)
    (hQ : ∀ result x' h', Q result x' h' → Q' result x' h') : Follows H e heap r x h s Q' :=
  fun choices hserves => (hr choices hserves).mono fun _ _ _ hq => ⟨hq.1, hQ _ _ _ hq.2⟩

theorem follows_pure {a : α} (hq : Q (.ok a) x h) : Follows H e heap (pure a) x h [] Q :=
  fun _ hserves => recites_pure ⟨hserves, hq⟩

/-- The rule of sequencing. -/
theorem Follows.bind {r : Member β} {f : β → Member α}
    (hr : Follows H e heap r x h s fun result x' h' =>
      ∃ b, result = .ok b ∧ Follows H e heap (f b) x' h' t Q) :
    Follows H e heap (r >>= f) x h (s ++ t) Q := by
  intro choices hserves
  apply Recites.bind
  apply (hr choices hserves).mono
  rintro result x' ⟨h', choices'⟩ ⟨hserves', b, rfl, hf⟩
  exact hf choices' hserves'

theorem Follows.bind_quiet {r : Member β} {f : β → Member α}
    (hr : Follows H e heap r x h [] fun result x' h' =>
      ∃ b, result = .ok b ∧ Follows H e heap (f b) x' h' t Q) :
    Follows H e heap (r >>= f) x h t Q := hr.bind

theorem follows_get {Q : Except Exit Session → Session → Host → Prop} (hq : Q (.ok x) x h) :
    Follows H e heap Routine.get x h [] Q := fun _ hserves => recites_get ⟨hserves, hq⟩

theorem follows_modify {f : Session → Session} {Q : Except Exit Unit → Session → Host → Prop}
    (hq : Q (.ok ()) (f x) h) : Follows H e heap (Routine.modify f) x h [] Q :=
  fun _ hserves => recites_modify ⟨hserves, hq⟩

theorem follows_require {b : Bool} {exit : Exit} {Q : Except Exit Unit → Session → Host → Prop}
    (hb : b = true) (hq : Q (.ok ()) x h) : Follows H e heap (Routine.require b exit) x h [] Q :=
  fun _ hserves => recites_require hb ⟨hserves, hq⟩

/-- A call into the primitives. -/
theorem follows_crypto {c : CryptoCall} {Q : Except Exit c.Ans → Session → Host → Prop}
    (hq : ∀ a, H.Answers e c a → Q (.ok a) x h) : Follows H e heap (crypto c) x h [] Q :=
  fun _ hserves => recites_sys ⟨hserves.next, hq _ (hserves 0 c)⟩

theorem follows_note {n : Note} {Q : Except Exit Unit → Session → Host → Prop}
    (hq : Q (.ok ()) x (h.noted n)) : Follows H e heap (note n) x h [] Q :=
  fun _ hserves => recites_sys ⟨hserves.next, hq⟩

theorem follows_getline {Q : Except Exit (Option Buffer × Bool) → Session → Host → Prop}
    (hq : Q (.ok h.console.getline.1) x { h with console := h.console.getline.2 }) :
    Follows H e heap getline x h [] Q := fun _ hserves => recites_sys ⟨hserves.next, hq⟩

theorem follows_overrun {Q : Except Exit Buffer → Session → Host → Prop}
    (hq : ∀ beyond, Q (.ok beyond) x h) : Follows H e heap overrun x h [] Q :=
  fun _ hserves => recites_sys ⟨hserves, hq _⟩

theorem follows_sendData {message : Set Buffer} {d : Buffer} {Q : Except Exit Bool → Session → Host → Prop}
    (hd : d ∈ message) (hne : d ≠ []) (hq : Q (.ok true) x h) :
    Follows H e heap (sendData d) x h [.say message] Q :=
  fun _ hserves => recites_send hd hne ⟨hserves, hq⟩

theorem follows_receiveData {message : Set Buffer} {n : Nat}
    {Q : Except Exit (Option Buffer) → Session → Host → Prop} (hlen : ∀ d ∈ message, d.length = n)
    (hq : ∀ d ∈ message, Q (.ok (some d)) x h) :
    Follows H e heap (receiveData n) x h [.hear message] Q :=
  fun _ hserves => recites_recv fun d hd => ⟨hlen d hd, hserves, hq d hd⟩

/-- A step that does not fail. -/
theorem Follows.expect {r : Member (Option β)} {result : Int} {Q : Except Exit β → Session → Host → Prop}
    (hr : Follows H e heap r x h s fun result x' h' => ∃ b, result = .ok (some b) ∧ Q (.ok b) x' h') :
    Follows H e heap (expect r result) x h s Q := by
  rw [← List.append_nil s]
  apply Follows.bind
  apply hr.mono
  rintro result x' h' ⟨b, rfl, hq⟩
  exact ⟨some b, rfl, follows_pure hq⟩

/-- A send that does not fail. -/
theorem Follows.sent {r : Member Bool} {Q : Except Exit Unit → Session → Host → Prop}
    (hr : Follows H e heap r x h s fun result x' h' => result = .ok true ∧ Q (.ok ()) x' h') :
    Follows H e heap (sent r) x h s Q := by
  rw [← List.append_nil s]
  apply Follows.bind
  apply hr.mono
  rintro result x' h' ⟨rfl, hq⟩
  exact ⟨true, rfl, follows_require rfl hq⟩

end Member

/-! ## Messages -/

namespace HonestCrypto

variable {H : HonestCrypto} {key : Pkey} {cipherText iv d u : Buffer} {order : ByteOrder}

/-- An encrypted signature fills its slot and comes back. -/
theorem Encrypted.arrives (h : H.Encrypted key cipherText iv) :
    cipherText.length = encryptedSignatureSize ∧ iv.length = cbcIvLength ∧
      ∀ a : Option Buffer, a = decryptTextAES H.aes cipherText H.sessionKey iv [] →
        a = some (H.sign key H.keys) := by
  obtain ⟨random, henc⟩ := h
  exact signature_arrives (H.length_sign key H.keys) ⟨some random, henc.symm⟩

/-- A signature is short enough to be encrypted. -/
theorem encrypted_of_answer {a : Option (Buffer × Buffer)}
    (ha : ∃ random : Buffer, a = encryptTextAES H.aes (some random) (H.sign key H.keys) H.sessionKey []) :
    ∃ cipherText iv, a = some (cipherText, iv) ∧ H.Encrypted key cipherText iv := by
  obtain ⟨random, rfl⟩ := ha
  have hle : (H.sign key H.keys).length ≤ intMax - cbcIvLength := by
    rw [H.length_sign]
    decide
  exact ⟨_, _, encryptTextAES_eq random [] hle, random, encryptTextAES_eq random [] hle⟩

/-- What the client decodes. -/
theorem deserialize_m3 (hd : d ∈ H.m3 order) : d.length = lengthM3 ∧
    ∃ cipherText iv, H.Encrypted H.serverKey cipherText iv ∧ ∀ behind, (deserializeM3 order d).run behind =
      (true, ⟨H.pem (H.ephemeral .worker), cipherText, iv, H.certificate⟩) := by
  obtain ⟨cipherText, iv, henc, behind, rfl⟩ := hd
  obtain ⟨hcipher, hiv, -⟩ := henc.arrives
  have hlen := length_serializeM3 order behind
    ⟨H.pem (H.ephemeral .worker), cipherText, iv, H.certificate⟩
  obtain ⟨hkeyField, hkeySize, hcipherField, hivField, hcertSize, hcertField⟩ :=
    slice_serializeM3 order behind ⟨H.pem (H.ephemeral .worker), cipherText, iv, H.certificate⟩ rfl
  have hkeyLt : (H.pem (H.ephemeral .worker)).length < 4294967296 :=
    Nat.lt_of_le_of_lt (H.pem_le .worker) (by decide)
  have hcertLt : H.certificate.length < 4294967296 := Nat.lt_of_le_of_lt H.certificate_le (by decide)
  refine ⟨hlen, cipherText, iv, henc, fun behind' => ?_⟩
  rw [run_deserializeM3 order behind' hlen, hkeyField, M3.keySize, hkeySize, hcipherField, hivField,
    M3.certSize, hcertSize, hcertField, M3.ofSizeField_sizeField order hkeyLt,
    M3.ofSizeField_sizeField order hcertLt, stretch_stretch _ _ (H.pem_le .worker),
    stretch_stretch _ _ H.certificate_le, stretch_self _ hcipher, stretch_self _ hiv]

/-- What the worker decodes. -/
theorem deserialize_m4 (hd : d ∈ H.m4 u) : d.length = encryptedSignatureSize + cbcIvLength ∧
    H.Encrypted (H.userKey u) (M4.deserialize d).1 (M4.deserialize d).2 := by
  obtain ⟨cipherText, iv, henc, rfl⟩ := hd
  obtain ⟨hcipher, hiv, -⟩ := henc.arrives
  refine ⟨by rw [List.length_append, hcipher, hiv], ?_⟩
  have htake : (cipherText ++ iv).take encryptedSignatureSize = cipherText := by
    rw [← hcipher, List.take_left]
  have hslice : slice encryptedSignatureSize cbcIvLength (cipherText ++ iv) = iv := by
    have := slice_append (c := []) hcipher hiv
    rwa [List.append_nil] at this
  rw [M4.deserialize, htake, hslice]
  exact henc

end HonestCrypto

namespace Member

variable {H : HonestCrypto} {e : Endpoint} {heap : Host → Buffer} {α β : Type} {x : Session} {h : Host}
  {P : Platform}

theorem sizeImage_ne (order : ByteOrder) (n : Nat) : sizeImage order n ≠ [] :=
  List.ne_nil_of_length_pos (by rw [length_sizeImage]; decide)

theorem follows_sendSize {n : Nat} {Q : Except Exit Bool → Session → Host → Prop} (hq : Q (.ok true) x h) :
    Follows H e heap (sendSize P n) x h [.say {sizeImage P.order n}] Q :=
  follows_sendData (Set.mem_singleton _) (sizeImage_ne _ _) hq

theorem follows_receiveSize {n : Nat} (hn : n < 18446744073709551616)
    {Q : Except Exit (Option Nat) → Session → Host → Prop} (hq : Q (.ok (some n)) x h) :
    Follows H e heap (receiveSize P) x h [.hear {sizeImage P.order n}] Q := by
  apply Follows.bind (s := [.hear {sizeImage P.order n}]) (t := [])
  apply follows_receiveData
  · rintro d rfl
    exact length_sizeImage _ _
  · rintro d rfl
    refine ⟨_, rfl, follows_pure ?_⟩
    rwa [Option.map_some, ofSizeImage_sizeImage P.order hn]

/-- The session key is set. -/
theorem follows_generateSessionKey {digest : Buffer} {Q : Except Exit Unit → Session → Host → Prop}
    (hq : ∀ h', h.Same h' → Q (.ok ()) { x with sessionKey := fit 16 digest } h') :
    Follows H e heap (generateSessionKey digest) x h [] Q := by
  apply Follows.bind_quiet
  apply follows_modify
  refine ⟨_, rfl, follows_note ?_⟩
  exact hq _ (Host.same_noted ..)

/-- A line from the console that is neither empty nor too long. -/
theorem follows_readField {line : Buffer} {limit : Nat} (hline : h.console.getline.1 = (some line, true))
    (hne : line ≠ []) (hle : line.length ≤ limit) {Q : Except Exit Buffer → Session → Host → Prop}
    (hq : Q (.ok line) x { h with console := h.console.getline.2 }) :
    Follows H e heap (Client.readField limit) x h [] Q := by
  apply Follows.bind_quiet
  apply follows_getline
  refine ⟨_, rfl, ?_⟩
  rw [hline]
  apply Follows.bind_quiet
  apply follows_require
  · simp [hne, hle]
  · exact ⟨_, rfl, follows_pure hq⟩

end Member

/-! ## The two logins -/

namespace Client

open Member

variable {H : HonestCrypto} {heap : Host → Buffer} {x : Session} {h : Host} {P : Platform}

/-- Someone types the name of a user and the password of the user's key. -/
structure Typed (H : HonestCrypto) (u : Buffer) (c : Console) (c' : Console) : Prop where
  user : u ∈ usernameList
  username : c.getline.1 = (some u, true)
  password : c.getline.2.getline.1 = (some (H.password u), true)
  password_ne : H.password u ≠ []
  password_le : (H.password u).length ≤ Max.passwordLength
  rest : c.getline.2.getline.2 = c'

theorem username_ne {u : Buffer} (hu : u ∈ usernameList) : u ≠ [] ∧ u.length ≤ Max.usernameLength := by
  revert u
  decide

theorem follows_sendUsername {u : Buffer} (hline : h.console.getline.1 = (some u, true))
    (hu : u ∈ usernameList) {Q : Except Exit Unit → Session → Host → Prop}
    (hq : Q (.ok ()) { x with username := u } { h with console := h.console.getline.2 }) :
    Follows H .client heap (sendUsername P) x h
      [.say {sizeImage P.order u.length}, .say {u}, .hear {sizeImage P.order 1}] Q := by
  obtain ⟨hne, hle⟩ := username_ne hu
  apply Follows.bind_quiet
  apply follows_readField hline hne hle
  refine ⟨_, rfl, ?_⟩
  apply Follows.bind_quiet
  apply follows_modify
  refine ⟨_, rfl, ?_⟩
  apply Follows.bind (s := [_]) (t := [_, _])
  apply Follows.sent
  apply follows_sendSize
  refine ⟨rfl, _, rfl, ?_⟩
  apply Follows.bind (s := [_]) (t := [_])
  apply Follows.sent
  apply follows_sendData (Set.mem_singleton _) hne
  refine ⟨rfl, _, rfl, ?_⟩
  apply Follows.bind (s := [_]) (t := [])
  apply Follows.expect
  apply follows_receiveSize (by decide)
  exact ⟨_, rfl, _, rfl, follows_require rfl hq⟩

theorem follows_sendClientKey {Q : Except Exit (Pkey × Buffer) → Session → Host → Prop}
    (hq : Q (.ok (H.ephemeral .client, H.pem (H.ephemeral .client))) x h) :
    Follows H .client heap (sendClientKey P) x h
      [.say {sizeImage P.order (H.pem (H.ephemeral .client)).length},
        .say {H.pem (H.ephemeral .client)}] Q := by
  apply Follows.bind_quiet
  apply Follows.expect
  apply follows_crypto
  rintro a rfl
  refine ⟨_, rfl, _, rfl, ?_⟩
  apply Follows.bind_quiet
  apply Follows.expect
  apply follows_crypto
  rintro a rfl
  refine ⟨_, rfl, _, rfl, ?_⟩
  apply Follows.bind (s := [_]) (t := [_])
  apply Follows.sent
  apply follows_sendSize
  refine ⟨rfl, _, rfl, ?_⟩
  apply Follows.bind (s := [_]) (t := [])
  apply Follows.sent
  apply follows_sendData (Set.mem_singleton _) (H.pem_ne .client)
  exact ⟨rfl, _, rfl, follows_pure hq⟩

/-- The message of the worker, decoded and with the certificate checked. -/
theorem follows_receiveM3 {Q : Except Exit (M3 × Pkey) → Session → Host → Prop}
    (hq : ∀ cipherText iv, H.Encrypted H.serverKey cipherText iv →
      Q (.ok (⟨H.pem (H.ephemeral .worker), cipherText, iv, H.certificate⟩, H.serverKey)) x h) :
    Follows H .client heap (receiveM3 P) x h [.hear (H.m3 P.order)] Q := by
  apply Follows.bind (s := [_]) (t := [])
  apply Follows.expect
  apply follows_receiveData fun d hd => (HonestCrypto.deserialize_m3 hd).1
  intro d hd
  obtain ⟨hlen, cipherText, iv, henc, hdecoded⟩ := HonestCrypto.deserialize_m3 hd
  refine ⟨_, rfl, _, rfl, ?_⟩
  rw [M3.deserialize_eq P.order hlen]
  apply Follows.bind_quiet
  apply Follows.bind_quiet
  apply follows_overrun
  intro behindKey
  refine ⟨_, rfl, ?_⟩
  apply Follows.bind_quiet
  apply follows_overrun
  intro behindCertificate
  refine ⟨_, rfl, ?_⟩
  rw [hdecoded]
  apply follows_pure
  refine ⟨_, rfl, ?_⟩
  apply Follows.bind_quiet
  apply Follows.expect
  apply follows_crypto
  intro a ha
  rw [ha rfl]
  refine ⟨_, rfl, _, rfl, ?_⟩
  apply Follows.bind_quiet
  apply follows_crypto
  intro trusted htrusted
  refine ⟨_, rfl, ?_⟩
  apply Follows.bind_quiet
  apply follows_require (htrusted rfl)
  refine ⟨_, rfl, ?_⟩
  apply Follows.bind_quiet
  apply follows_require
  · exact decide_eq_true (H.pem_le .worker)
  · exact ⟨_, rfl, follows_pure (hq cipherText iv henc)⟩

theorem follows_deriveKey {Q : Except Exit Unit → Session → Host → Prop}
    (hq : ∀ h', h.Same h' → Q (.ok ()) { x with sessionKey := H.sessionKey } h') :
    Follows H .client heap (deriveKey (H.ephemeral .client) (H.pem (H.ephemeral .worker))) x h [] Q := by
  apply Follows.bind_quiet
  apply Follows.expect
  apply follows_crypto
  intro a ha
  rw [ha, H.read_pem]
  refine ⟨_, rfl, _, rfl, ?_⟩
  apply Follows.bind_quiet
  apply follows_crypto
  rintro derived rfl
  refine ⟨_, rfl, ?_⟩
  apply Follows.bind_quiet
  apply follows_require (by rfl)
  refine ⟨_, rfl, ?_⟩
  apply Follows.bind_quiet
  apply Follows.expect
  apply follows_crypto
  rintro a rfl
  exact ⟨_, rfl, _, rfl, follows_generateSessionKey hq⟩

theorem follows_checkM3 {m : M3} (henc : H.Encrypted H.serverKey m.cipherText m.iv)
    (hkey : x.sessionKey = H.sessionKey) {Q : Except Exit Unit → Session → Host → Prop}
    (hq : Q (.ok ()) x h) :
    Follows H .client heap (checkM3 m H.serverKey H.keys) x h [] Q := by
  apply Follows.bind_quiet
  apply follows_get
  refine ⟨_, rfl, ?_⟩
  rw [hkey]
  apply Follows.bind_quiet
  apply Follows.expect
  apply follows_crypto
  intro a ha
  rw [henc.arrives.2.2 a ha]
  refine ⟨_, rfl, _, rfl, ?_⟩
  apply Follows.bind_quiet
  apply follows_crypto
  intro verified hverified
  exact ⟨_, rfl, follows_require (hverified rfl) hq⟩

theorem follows_sendM4 {u : Buffer} (hkey : x.sessionKey = H.sessionKey)
    {Q : Except Exit Unit → Session → Host → Prop} (hq : Q (.ok ()) x h) :
    Follows H .client heap (sendM4 (H.userKey u) H.keys) x h [.say (H.m4 u)] Q := by
  apply Follows.bind_quiet
  apply Follows.expect
  apply follows_crypto
  rintro a rfl
  refine ⟨_, rfl, _, rfl, ?_⟩
  apply Follows.bind_quiet
  apply follows_get
  refine ⟨_, rfl, ?_⟩
  rw [hkey]
  apply Follows.bind_quiet
  apply Follows.expect
  apply follows_crypto
  intro a ha
  obtain ⟨cipherText, iv, rfl, henc⟩ := HonestCrypto.encrypted_of_answer ha
  obtain ⟨hcipher, hiv, -⟩ := henc.arrives
  refine ⟨_, rfl, _, rfl, ?_⟩
  apply Follows.bind_quiet
  apply Follows.bind_quiet
  apply follows_overrun
  intro behind
  refine ⟨_, rfl, ?_⟩
  rw [fit_append_left hcipher, fit_of_length hiv]
  apply follows_pure
  refine ⟨_, rfl, ?_⟩
  apply Follows.sent
  have hsent : cipherText ++ iv ∈ H.m4 u := ⟨cipherText, iv, henc, rfl⟩
  apply follows_sendData hsent
  · apply List.append_ne_nil_of_left_ne_nil
    exact List.ne_nil_of_length_pos (by rw [hcipher]; decide)
  · exact ⟨rfl, hq⟩

/-- **The login of the client.** -/
theorem follows_login {u : Buffer} {c : Console} (htyped : Typed H u h.console c)
    {Q : Except Exit Int → Session → Host → Prop}
    (hq : ∀ h', h'.fs = h.fs → h'.console = c → h'.printed = h.printed →
      Q (.ok 1) { x with username := u, sessionKey := H.sessionKey } h') :
    Follows H .client heap (login P) x h (H.loginScript P.order u) Q := by
  rw [HonestCrypto.loginScript, List.append_assoc]
  apply Follows.bind
  apply follows_sendUsername htyped.username htyped.user
  refine ⟨_, rfl, ?_⟩
  apply Follows.bind_quiet
  apply follows_readField htyped.password htyped.password_ne htyped.password_le
  refine ⟨_, rfl, ?_⟩
  apply Follows.bind_quiet
  apply follows_get
  refine ⟨_, rfl, ?_⟩
  apply Follows.bind_quiet
  apply Follows.expect
  apply follows_crypto
  rintro a ⟨-, ha⟩
  rw [ha u rfl rfl]
  refine ⟨_, rfl, _, rfl, ?_⟩
  apply Follows.bind
  apply follows_sendClientKey
  refine ⟨_, rfl, ?_⟩
  apply Follows.bind (s := [_]) (t := [_])
  apply follows_receiveM3
  intro cipherText iv henc
  refine ⟨_, rfl, ?_⟩
  apply Follows.bind_quiet
  apply follows_deriveKey
  intro h' hsame
  refine ⟨_, rfl, ?_⟩
  apply Follows.bind_quiet
  apply follows_checkM3 (m := ⟨_, cipherText, iv, _⟩) henc rfl
  refine ⟨_, rfl, ?_⟩
  apply Follows.bind (s := [_]) (t := [])
  apply follows_sendM4 rfl
  refine ⟨_, rfl, follows_pure ?_⟩
  exact hq h' hsame.fs (hsame.console.trans htyped.rest) hsame.printed

end Client

namespace Worker

open Member

variable {H : HonestCrypto} {heap : Host → Buffer} {y : Session} {g : Host} {P : Platform} {u : Buffer}

theorem follows_receiveUsername (hu : u ∈ usernameList) {Q : Except Exit Unit → Session → Host → Prop}
    (hq : Q (.ok ()) { y with username := u } g) :
    Follows H .worker heap (receiveUsername P) y g
      [.hear {sizeImage P.order u.length}, .hear {u}, .say {sizeImage P.order 1}] Q := by
  obtain ⟨-, hle⟩ := Client.username_ne hu
  apply Follows.bind (s := [_]) (t := [_, _])
  apply Follows.expect
  apply follows_receiveSize (Nat.lt_of_le_of_lt hle (by decide))
  refine ⟨_, rfl, _, rfl, ?_⟩
  apply Follows.bind_quiet
  apply follows_require (decide_eq_true hle)
  refine ⟨_, rfl, ?_⟩
  apply Follows.bind (s := [_]) (t := [_])
  apply Follows.expect
  apply follows_receiveData
  · rintro d rfl
    rfl
  rintro d rfl
  refine ⟨_, rfl, _, rfl, ?_⟩
  apply Follows.bind_quiet
  apply follows_modify
  refine ⟨_, rfl, ?_⟩
  rw [decide_eq_true hu]
  apply Follows.bind (s := [_]) (t := [])
  apply Follows.sent
  apply follows_sendSize
  exact ⟨rfl, _, rfl, follows_require rfl hq⟩

theorem follows_receiveClientKey {Q : Except Exit (Pkey × Buffer) → Session → Host → Prop}
    (hq : ∀ g', g.Same g' → Q (.ok (H.ephemeral .client, H.pem (H.ephemeral .client))) y g') :
    Follows H .worker heap (receiveClientKey P) y g
      [.hear {sizeImage P.order (H.pem (H.ephemeral .client)).length},
        .hear {H.pem (H.ephemeral .client)}] Q := by
  have hle := H.pem_le .client
  apply Follows.bind (s := [_, _]) (t := [])
  apply Follows.bind (s := [_]) (t := [_])
  apply follows_receiveSize (Nat.lt_of_le_of_lt hle (by decide))
  refine ⟨_, rfl, ?_⟩
  apply Follows.bind_quiet
  apply follows_note
  refine ⟨_, rfl, ?_⟩
  rw [if_neg (Nat.not_lt.2 hle)]
  apply Follows.bind (s := [_]) (t := [])
  apply follows_receiveData
  · rintro d rfl
    rfl
  rintro d rfl
  refine ⟨_, rfl, ?_⟩
  apply Follows.bind_quiet
  apply follows_crypto
  intro a ha
  rw [ha, H.read_pem]
  refine ⟨_, rfl, follows_pure ?_⟩
  exact ⟨_, rfl, follows_pure (hq _ (Host.same_noted ..))⟩

theorem follows_deriveKey {Q : Except Exit Buffer → Session → Host → Prop}
    (hq : ∀ g', g.Same g' →
      Q (.ok (H.pem (H.ephemeral .worker))) { y with sessionKey := H.sessionKey } g') :
    Follows H .worker heap (deriveKey (H.ephemeral .client)) y g [] Q := by
  apply Follows.bind_quiet
  apply Follows.expect
  apply follows_crypto
  rintro a rfl
  refine ⟨_, rfl, _, rfl, ?_⟩
  apply Follows.bind_quiet
  apply Follows.expect
  apply follows_crypto
  rintro a rfl
  refine ⟨_, rfl, _, rfl, ?_⟩
  apply Follows.bind_quiet
  apply follows_crypto
  rintro derived rfl
  refine ⟨_, rfl, ?_⟩
  apply Follows.bind_quiet
  apply follows_require (by rfl)
  refine ⟨_, rfl, ?_⟩
  apply Follows.bind_quiet
  apply Follows.expect
  apply follows_crypto
  rintro a rfl
  refine ⟨_, rfl, _, rfl, ?_⟩
  -- the secret does not depend on the order of the keys
  rw [Sym2.eq_swap]
  apply Follows.bind_quiet
  apply follows_generateSessionKey
  intro g' hsame
  exact ⟨_, rfl, follows_pure (hq g' hsame)⟩

theorem follows_sendM3 (hkey : y.sessionKey = H.sessionKey)
    {Q : Except Exit Unit → Session → Host → Prop} (hq : Q (.ok ()) y g) :
    Follows H .worker heap (sendM3 P (H.pem (H.ephemeral .worker)) H.keys) y g [.say (H.m3 P.order)] Q := by
  apply Follows.bind_quiet
  apply Follows.expect
  apply follows_crypto
  rintro a ⟨ha, -⟩
  rw [ha rfl rfl]
  refine ⟨_, rfl, _, rfl, ?_⟩
  apply Follows.bind_quiet
  apply Follows.expect
  apply follows_crypto
  rintro a rfl
  refine ⟨_, rfl, _, rfl, ?_⟩
  apply Follows.bind_quiet
  apply follows_get
  refine ⟨_, rfl, ?_⟩
  rw [hkey]
  apply Follows.bind_quiet
  apply Follows.expect
  apply follows_crypto
  intro a ha
  obtain ⟨cipherText, iv, rfl, henc⟩ := HonestCrypto.encrypted_of_answer ha
  refine ⟨_, rfl, _, rfl, ?_⟩
  apply Follows.bind_quiet
  apply Follows.expect
  apply follows_crypto
  rintro a rfl
  refine ⟨_, rfl, _, rfl, ?_⟩
  rw [M3.serialize_eq P.order henc.arrives.2.1]
  apply Follows.bind_quiet
  apply Follows.bind_quiet
  apply follows_overrun
  intro behindKey
  refine ⟨_, rfl, ?_⟩
  apply Follows.bind_quiet
  apply follows_overrun
  intro behindCipher
  refine ⟨_, rfl, ?_⟩
  apply Follows.bind_quiet
  apply follows_overrun
  intro behindCertificate
  refine ⟨_, rfl, follows_pure ⟨_, rfl, ?_⟩⟩
  apply Follows.sent
  apply follows_sendData (show _ ∈ H.m3 P.order from ⟨cipherText, iv, henc, _, rfl⟩)
  · exact List.ne_nil_of_length_pos (by rw [length_serializeM3]; decide)
  · exact ⟨rfl, hq⟩

theorem follows_checkM4 (hkey : y.sessionKey = H.sessionKey) (huser : y.username = u)
    {Q : Except Exit Unit → Session → Host → Prop} (hq : Q (.ok ()) y g) :
    Follows H .worker heap (checkM4 H.keys) y g [.hear (H.m4 u)] Q := by
  apply Follows.bind (s := [_]) (t := [])
  apply Follows.expect
  apply follows_receiveData fun d hd => (HonestCrypto.deserialize_m4 hd).1
  intro d hd
  have henc := (HonestCrypto.deserialize_m4 hd).2
  refine ⟨_, rfl, _, rfl, ?_⟩
  apply Follows.bind_quiet
  apply follows_get
  refine ⟨_, rfl, ?_⟩
  rw [hkey, huser]
  apply Follows.bind_quiet
  apply Follows.expect
  apply follows_crypto
  intro a ha
  rw [henc.arrives.2.2 a ha]
  refine ⟨_, rfl, _, rfl, ?_⟩
  apply Follows.bind_quiet
  apply Follows.expect
  apply follows_crypto
  intro a ha
  rw [ha u rfl]
  refine ⟨_, rfl, _, rfl, ?_⟩
  apply Follows.bind_quiet
  apply follows_crypto
  intro verified hverified
  exact ⟨_, rfl, follows_require (hverified rfl) hq⟩

/-- **The login of the worker.** -/
theorem follows_login (hu : u ∈ usernameList) {Q : Except Exit Int → Session → Host → Prop}
    (hq : ∀ g', g.Same g' → Q (.ok 1) { y with username := u, sessionKey := H.sessionKey } g') :
    Follows H .worker heap (login P) y g ((H.loginScript P.order u).map .mirror) Q := by
  rw [HonestCrypto.loginScript, List.append_assoc, List.map_append, List.map_append]
  apply Follows.bind
  apply follows_receiveUsername hu
  refine ⟨_, rfl, ?_⟩
  apply Follows.bind
  apply follows_receiveClientKey
  intro g₁ hsame₁
  refine ⟨_, rfl, ?_⟩
  apply Follows.bind_quiet
  apply follows_deriveKey
  intro g₂ hsame₂
  refine ⟨_, rfl, ?_⟩
  apply Follows.bind (s := [_]) (t := [_])
  apply follows_sendM3 rfl
  refine ⟨_, rfl, ?_⟩
  apply Follows.bind (s := [_]) (t := [])
  apply follows_checkM4 rfl rfl
  exact ⟨_, rfl, follows_pure (hq g₂ (hsame₁.trans hsame₂))⟩

end Worker

/-! ## Over a link -/

/-- A login has returned 1, in this session, and has left files and reports alone. -/
def LoggedIn (h : Host) (console : Console) (x : Session)
    (c : Program.Config UInt8 SysCalls (Except Exit Int × Session) (Host × (Nat → Choice))) : Prop :=
  ∃ h' choices, c = (.ret (.ok 1, x), (h', choices)) ∧ h'.fs = h.fs ∧ h'.console = console ∧
    h'.printed = h.printed

/-- **A login completes.** When both logins run over a reliable link and someone types the name and the
    password of a user, then under every schedule each receive asks for exactly the block that was sent,
    and both return 1 with nothing unread: logged in as this user, with the same session key, and with
    the counters as they were. -/
theorem login_completes (H : HonestCrypto) (P : Platform) {u : Buffer} {x y : Session} {h g : Host}
    {c : Console} (htyped : Client.Typed H u h.console c) (heap heap' : Host → Buffer)
    {choices choices' : Nat → Choice} (hserves : H.Serves .client choices)
    (hserves' : H.Serves .worker choices') :
    Link.LeadsTo (Host.onHeap heap) (Host.onHeap heap')
      (LoggedIn h c { x with username := u, sessionKey := H.sessionKey })
      (LoggedIn g g.console { y with username := u, sessionKey := H.sessionKey })
      ⟨(Client.login P x, (h, choices)), (Worker.login P y, (g, choices')), [], []⟩ := by
  have hclient : Member.Follows H .client heap (Client.login P) x h (H.loginScript P.order u)
      fun result x' h' => result = .ok 1 ∧ x' = { x with username := u, sessionKey := H.sessionKey } ∧
        h'.fs = h.fs ∧ h'.console = c ∧ h'.printed = h.printed :=
    Client.follows_login htyped fun h' hfs hconsole hprinted => ⟨rfl, rfl, hfs, hconsole, hprinted⟩
  have hworker : Member.Follows H .worker heap' (Worker.login P) y g ((H.loginScript P.order u).map .mirror)
      fun result y' g' => result = .ok 1 ∧ y' = { y with username := u, sessionKey := H.sessionKey } ∧
        g'.fs = g.fs ∧ g'.console = g.console ∧ g'.printed = g.printed :=
    Worker.follows_login htyped.user fun g' hsame => ⟨rfl, rfl, hsame.fs, hsame.console, hsame.printed⟩
  apply (Link.leadsTo_of_plays (hclient choices hserves) (hworker choices' hserves')).mono
  · rintro c ⟨result, x', ⟨h', choices₁⟩, rfl, -, rfl, rfl, hends⟩
    exact ⟨h', choices₁, rfl, hends⟩
  · rintro c ⟨result, y', ⟨g', choices₁⟩, rfl, -, rfl, rfl, hends⟩
    exact ⟨g', choices₁, rfl, hends⟩

/-! ## A login of `user1` -/

/-- Primitives that hide nothing, and one long-term key for all. -/
def HonestCrypto.plain : HonestCrypto where
  aes := .plain
  ephemeral
    | .client => 1
    | .worker => 2
  pem key := [UInt8.ofNat key]
  read b := b.head?.map UInt8.toNat
  secret _ := [5]
  digest data := data
  sign _ _ := List.replicate 256 6
  serverKey := 7
  userKey _ := 7
  password _ := ascii "secret"
  certificate := [9]
  pem_ne _ := by simp
  pem_le _ := by
    rw [List.length_singleton]
    decide
  read_pem e := by cases e <;> rfl
  length_sign _ _ := List.length_replicate
  certificate_le := by decide

/-- The answers of these primitives, with IVs of zeros. -/
def HonestCrypto.plainAnswer (e : Endpoint) : (c : CryptoCall) → c.Ans
  | .ecdhKeyGeneration => (some (plain.ephemeral e) : Option Pkey)
  | .serializePubKey key => (some (plain.pem key) : Option Buffer)
  | .deserializePublicKey b => (plain.read b : Option Pkey)
  | .deriveSharedSecret hostKey peerKey => ((1, plain.secret s(hostKey, peerKey)) : Int × Buffer)
  | .computeSHA256Digest data => (some (plain.digest data) : Option Buffer)
  | .loadPrivateKey _ _ | .loadPublicKey _ | .readCertificate _ => (some 7 : Option Pkey)
  | .generateDigitalSignature data key => (some (plain.sign key data) : Option Buffer)
  | .verifyDigitalSignature _ _ _ | .verifyServerCertificate _ => true
  | .encryptTextAES clear key => (encryptTextAES .plain (some []) clear key [] : Option (Buffer × Buffer))
  | .decryptTextAES cipher key iv => (decryptTextAES .plain cipher key iv [] : Option Buffer)
  | .serverCertificate => (some plain.certificate : Option Buffer)

/-- A machine on which they answer. -/
def HonestCrypto.plainChoices (e : Endpoint) : Nat → Choice :=
  fun _ => { Choice.calm with crypto := plainAnswer e }

theorem HonestCrypto.serves_plain (e : Endpoint) : plain.Serves e (plainChoices e) := by
  intro n c
  cases c with
  | loadPrivateKey path password => exact ⟨fun _ _ => rfl, fun _ _ _ => rfl⟩
  | loadPublicKey path => exact fun _ _ => rfl
  | verifyDigitalSignature data signature key => exact fun _ => rfl
  | encryptTextAES clear key => exact ⟨[], rfl⟩
  | readCertificate pem => exact fun _ => rfl
  | verifyServerCertificate pem => exact fun _ => rfl
  | _ => rfl

theorem typed_user1 : Client.Typed .plain (ascii "user1") Handshake.console.console ⟨[], false, false⟩ where
  user := by decide
  username := by decide
  password := by decide
  password_ne := by decide
  password_le := by decide
  rest := by decide

/-- `user1` logs in. -/
theorem login_completes_user1 : Link.LeadsTo (Host.onHeap fun _ => [1]) (Host.onHeap fun _ => [2])
    (LoggedIn Handshake.console ⟨[], false, false⟩ (.start (ascii "user1") HonestCrypto.plain.sessionKey))
    (LoggedIn (.start .root ⟨[], true, false⟩) ⟨[], true, false⟩
      (.start (ascii "user1") HonestCrypto.plain.sessionKey))
    ⟨(Client.login (.plain .little) (.start [] []), (Handshake.console, HonestCrypto.plainChoices .client)),
      (Worker.login (.plain .little) (.start [] []),
        (.start .root ⟨[], true, false⟩, HonestCrypto.plainChoices .worker)), [], []⟩ :=
  login_completes (x := .start [] []) (y := .start [] []) (g := .start .root ⟨[], true, false⟩) .plain
    (.plain .little) typed_user1 _ _ (HonestCrypto.serves_plain .client)
    (HonestCrypto.serves_plain .worker)

end CloudStorage
