import CloudStorage.Handshake
import CloudStorage.Interaction.Realizes
import CloudStorage.Objects

set_option autoImplicit false

/-! # The login with its objects

`Client::login` and `Worker::login` once more, with every object of OpenSSL that they allocate, use and
free, in the order of the source. Each failure names the objects that it frees. They carry out the logins
of the key exchange, in which the calls into OpenSSL are single calls.

A login uses and frees only what is out, on every path. The worker leaves nothing behind. The client leaves
behind the server's ephemeral key, and the server's certificate where no signature is verified. -/

namespace CloudStorage

open Interaction Login Handshake

namespace Objects

/-! ## Failures -/

section

variable {α : Type}

/-- Free `os` and return 0. -/
def failing (os : List Object) : Obj α := do
  release os
  Routine.throw (.returned 0)

/-- Where there is no value, free `os` and return 0. -/
def orFail (os : List Object) : Option α → Obj α
  | some a => pure a
  | none => failing os

/-- Go on if `ok`, else free `os` and return 0. -/
def ensure (ok : Bool) (os : List Object) : Obj Unit := if ok then pure () else failing os

/-- A function without objects. -/
def plain (r : Member α) : Obj α := r.lift OpenSsl

end

/-! ## The worker -/

namespace Worker

open Member

variable (P : Platform)

/-- `receiveEphemeralPublicKey`. -/
def receiveEphemeralPublicKey : Obj (Option (Option (Ptr .pkey) × Buffer)) := do
  match ← plain (receiveSize P) with
  | none => return none
  | some length => do
    plain (note (.announced length))
    if maxEphemeralPublicKeySize < length then return none
    else do
      match ← plain (receiveData length) with
      | none => return none
      | some serialized => do
        let key ← deserializePublicKey serialized
        return some (key, serialized)

/-- The client's key. Where it did not arrive, a pointer that was never set is freed. -/
def receiveClientKey : Obj (Ptr .pkey × Buffer) := do
  match ← receiveEphemeralPublicKey P with
  | none => Routine.throw .undefined
  | some (none, _) => Routine.throw (.returned 0)
  | some (some key, serialized) => return (key, serialized)

def deriveKey (clientKey : Ptr .pkey) : Obj Buffer := do
  let serverKey ← orFail [clientKey.object] (← ecdhKeyGeneration)
  let sServerKey ← orFail [clientKey.object, serverKey.object] (← serializePubKey serverKey [])
  let (ret, sharedSecretKey) ← deriveSharedSecret serverKey clientKey []
  ensure (ret != 0) [clientKey.object, serverKey.object]
  release [clientKey.object, serverKey.object]
  let digest ← orFail [] (← computeSHA256Digest sharedSecretKey [])
  plain (generateSessionKey digest)
  return sServerKey

/-- The server's certificate in PEM form. -/
def serverCertificate : Obj (Option Buffer) := do
  match ← make (.fopen (ascii "../commons/Cloud_Storage_Server_cert.pem")) with
  | none => return none
  | some file => do
    let cert ← make (.pemReadX509 file)
    release [file.object]
    match cert with
    | none => return none
    | some cert => do
      match ← make .bioNew with
      | none => leaving [cert.object] none
      | some bio => do
        if (← status (.pemWriteBioX509 bio cert)) = 0 then leaving [bio.object, cert.object] none
        else do
          let size : Nat ← lib (.bioPending bio)
          let (ret, bytes) ← fill (.bioRead bio size)
          if ret ≤ 0 then leaving [bio.object, cert.object] none
          else leaving [cert.object, bio.object] (some (overwrite 0 bytes (fit size [])))

def sendM3 (sServerKey concatenatedKeys : Buffer) : Obj Unit := do
  let privateKey ← orFail []
    (← loadPrivateKey (ascii "../commons/server_private_key.pem") (ascii "root"))
  let signature ← orFail [privateKey.object] (← generateDigitalSignature concatenatedKeys privateKey [])
  release [privateKey.object]
  let s ← Routine.get
  let (cipherText, iv) ← orFail [] (← encryptTextAES signature s.sessionKey [])
  let certificate ← orFail [] (← serverCertificate)
  let message ← plain ((M3.mk sServerKey cipherText iv certificate).serialize P.order)
  ensure (← plain (sendData message)) []

def checkM4 (concatenatedKeys : Buffer) : Obj Unit := do
  let message ← orFail [] (← plain (receiveData (encryptedSignatureSize + cbcIvLength)))
  let (cipherText, iv) := M4.deserialize message
  let s ← Routine.get
  let plaintext ← orFail [] (← decryptTextAES cipherText s.sessionKey iv [])
  let publicKey ← orFail []
    (← loadPublicKey (ascii "../commons/" ++ s.username ++ ascii "/public.pem"))
  let verified ← verifyDigitalSignature concatenatedKeys plaintext (some publicKey)
  ensure verified [publicKey.object]
  release [publicKey.object]

/-- `Worker::login`. -/
def login : Obj Int := do
  plain (CloudStorage.Worker.receiveUsername P)
  let (clientKey, sClientKey) ← receiveClientKey P
  let sServerKey ← deriveKey clientKey
  let concatenatedKeys := sServerKey ++ sClientKey
  sendM3 P sServerKey concatenatedKeys
  checkM4 concatenatedKeys
  return 1

end Worker

/-! ## The client -/

namespace Client

open Member

variable (P : Platform)

/-- Send an ephemeral key. -/
def sendClientKey (privateKey : Ptr .pkey) : Obj (Ptr .pkey × Buffer) := do
  let clientKey ← orFail [privateKey.object] (← ecdhKeyGeneration)
  let sClientKey ← orFail [clientKey.object, privateKey.object] (← serializePubKey clientKey [])
  ensure (← plain (sendSize P sClientKey.length)) [clientKey.object, privateKey.object]
  ensure (← plain (sendData sClientKey)) [clientKey.object, privateKey.object]
  return (clientKey, sClientKey)

/-- Read the certificate of the server from its PEM form. -/
def readCertificate (pem : Buffer) : Obj (Option (Ptr .x509)) := do
  match ← make (.bioNewMemBuf pem) with
  | none => return none
  | some bio => do
    let cert ← make (.pemReadBioX509 bio)
    leaving [bio.object] cert

/-- `verifyServerCertificate`. What the store and its context are is not looked at: a null pointer is
    dereferenced. -/
def verifyServerCertificate (caCert : Ptr .x509) (crl : Ptr .crl) (serverCert : Ptr .x509) :
    Obj Bool := do
  match ← make .x509StoreNew with
  | none => Routine.throw .undefined
  | some store => do
    let _ ← status (.storeAddCert store caCert)
    let _ ← status (.storeAddCrl store crl)
    let _ ← status (.storeSetFlags store)
    match ← make .x509StoreCtxNew with
    | none => Routine.throw .undefined
    | some ctx => do
      let _ ← status (.storeCtxInit ctx store serverCert)
      let ret ← status (.verifyCert ctx)
      leaving [ctx.object, store.object, caCert.object, crl.object] (decide (ret = 1))

/-- Load the CA certificate and the revocation list and check the certificate of the server. -/
def checkCertificate (serverCert : Ptr .x509) : Obj Bool := do
  match ← make (.fopen (ascii "../commons/Cloud Storage CA_cert.pem")) with
  | none => return false
  | some file => do
    let caCert ← make (.pemReadX509 file)
    release [file.object]
    match caCert with
    | none => return false
    | some caCert => do
      match ← make (.fopen (ascii "../commons/Cloud Storage CA_crl.pem")) with
      | none => leaving [caCert.object] false
      | some file => do
        let crl ← make (.pemReadX509Crl file)
        release [file.object]
        match crl with
        | none => leaving [caCert.object] false
        | some crl => verifyServerCertificate caCert crl serverCert

/-- Receive the server's message and check its certificate. Where that fails, the certificate is not
    freed. -/
def receiveM3 (clientKey privateKey : Ptr .pkey) : Obj (M3 × Ptr .x509) := do
  let keys := [clientKey.object, privateKey.object]
  let message ← orFail keys (← plain (receiveData lengthM3))
  let m ← plain (M3.deserialize P.order message)
  let serverCert ← orFail keys (← readCertificate m.certificate)
  ensure (← checkCertificate serverCert) keys
  ensure (decide (m.serverKey.length ≤ maxEphemeralPublicKeySize)) keys
  return (m, serverCert)

/-- Derive the session key. The server's key is not freed. -/
def deriveKey (clientKey privateKey : Ptr .pkey) (sServerKey : Buffer) : Obj (Ptr .pkey) := do
  let serverKey ← orFail [clientKey.object, privateKey.object] (← deserializePublicKey sServerKey)
  let (ret, sharedSecretKey) ← deriveSharedSecret clientKey serverKey []
  ensure (ret != -1) [clientKey.object, privateKey.object]
  release [clientKey.object]
  let digest ← orFail [privateKey.object] (← computeSHA256Digest sharedSecretKey [])
  plain (generateSessionKey digest)
  return serverKey

/-- Check the server's signature of the keys with the key of its certificate. -/
def verifySignature (serverCert : Ptr .x509) (concatenatedKeys signature : Buffer) :
    Obj (Bool × Option (Ptr .pkey)) := do
  let serverPublicKey ← make (.x509GetPubkey serverCert)
  let verified ← verifyDigitalSignature concatenatedKeys signature serverPublicKey
  return (verified, serverPublicKey)

def checkM3 (m : M3) (serverCert : Ptr .x509) (privateKey : Ptr .pkey) (concatenatedKeys : Buffer) :
    Obj Unit := do
  let s ← Routine.get
  let plaintext ← orFail [privateKey.object] (← decryptTextAES m.cipherText s.sessionKey m.iv [])
  let (verified, serverPublicKey) ← verifySignature serverCert concatenatedKeys plaintext
  ensure verified (privateKey.object :: held serverPublicKey)
  release (held serverPublicKey)
  release [serverCert.object]

def sendM4 (privateKey : Ptr .pkey) (concatenatedKeys : Buffer) : Obj Unit := do
  let signature ← orFail [privateKey.object] (← generateDigitalSignature concatenatedKeys privateKey [])
  release [privateKey.object]
  let s ← Routine.get
  let (cipherText, iv) ← orFail [] (← encryptTextAES signature s.sessionKey [])
  let message ← plain (M4.serialize cipherText iv)
  ensure (← plain (sendData message)) []

/-- `Client::login`, on a connected socket. -/
def login : Obj Int := do
  plain (CloudStorage.Client.sendUsername P)
  let password ← plain (CloudStorage.Client.readField Max.passwordLength)
  let s ← Routine.get
  let privateKey ← orFail []
    (← loadPrivateKey (ascii "../commons/" ++ s.username ++ ascii "/key.pem") password)
  let (clientKey, sClientKey) ← sendClientKey P privateKey
  let (m, serverCert) ← receiveM3 P clientKey privateKey
  let _ ← deriveKey clientKey privateKey m.serverKey
  let concatenatedKeys := m.serverKey ++ sClientKey
  checkM3 m serverCert privateKey concatenatedKeys
  sendM4 privateKey concatenatedKeys
  return 1

end Client

/-! ## The rules for the pieces of a login -/

/-- The calls into the key exchange. -/
def IsCrypto : Sys.Op → Prop
  | .sys (.crypto _) => True
  | _ => False

/-- What holds of the calls into the key exchange that have been made. -/
def Steady (T : List Event → Prop) : Prop := ∀ t s, (∀ e ∈ s, ¬IsCrypto e.1) → T t → T (t ++ s)

/-- No call into the key exchange is made and nothing is thrown, and the value is as `V` says. -/
def Harmless {α : Type} (r : Member α) (V : α → Prop) : Prop :=
  ∀ x, r.Sat (fun (_ : Unit) _ _ _ => True) (fun _ o _ _ => ¬IsCrypto o) (fun a _ _ => V a)
    (fun _ _ _ => False) x ()

theorem harmless_sendData (data : Buffer) : Harmless (Member.sendData data) fun _ => True :=
  fun _ _ _ _ => ⟨id, trivial⟩

theorem harmless_sendSize (P : Platform) (n : Nat) : Harmless (Member.sendSize P n) fun _ => True :=
  fun _ _ _ _ => ⟨id, trivial⟩

theorem harmless_receiveData (n : Nat) : Harmless (Member.receiveData n) fun _ => True :=
  fun _ _ _ _ => ⟨id, trivial⟩

theorem harmless_receiveSize (P : Platform) : Harmless (Member.receiveSize P) fun _ => True :=
  fun _ _ _ _ => ⟨id, trivial⟩

theorem harmless_note (n : Note) : Harmless (Member.note n) fun _ => True :=
  fun _ _ _ _ => ⟨id, trivial⟩

theorem harmless_generateSessionKey (digest : Buffer) :
    Harmless (Member.generateSessionKey digest) fun _ => True := fun _ _ _ _ => ⟨id, trivial⟩

theorem harmless_serializeM3 (order : ByteOrder) (m : M3) : Harmless (m.serialize order) fun _ => True :=
  fun _ _ _ _ => ⟨id, fun _ _ _ => ⟨id, fun _ _ _ => ⟨id, trivial⟩⟩⟩

theorem harmless_deserializeM3 (order : ByteOrder) (d : Buffer) :
    Harmless (M3.deserialize order d) fun m => m.cipherText.length ≤ encryptedSignatureSize :=
  fun _ _ _ _ => ⟨id, fun _ _ _ => ⟨id, List.length_take_le _ _⟩⟩

theorem harmless_serializeM4 (cipherText iv : Buffer) :
    Harmless (M4.serialize cipherText iv) fun _ => True := fun _ _ _ _ => ⟨id, trivial⟩

/-- No call into the key exchange is made, and the exits return 0. -/
abbrev Plainly {α : Type} (r : Member α) : Prop := Routine.Within (fun o => ¬IsCrypto o) (· = .returned 0) r

theorem plainly_expect {α : Type} {r : Member (Option α)} (hr : Plainly r) : Plainly (Member.expect r 0) :=
  hr.bind fun a => by
    cases a with
    | none => exact .throw rfl
    | some a => exact .pure a

theorem plainly_sent {r : Member Bool} (hr : Plainly r) : Plainly (Member.sent r) :=
  hr.bind fun _ => .require rfl

theorem plainly_readField (limit : Nat) : Plainly (CloudStorage.Client.readField limit) :=
  .bind (.call id) fun _ => .bind (.require rfl) fun _ => .pure _

theorem plainly_sendUsername (P : Platform) : Plainly (CloudStorage.Client.sendUsername P) :=
  .bind (plainly_readField _) fun _ => .bind (.modify _) fun _ =>
    .bind (plainly_sent (.call id)) fun _ => .bind (plainly_sent (.call id)) fun _ =>
      .bind (plainly_expect (.bind (.call id) fun _ => .pure _)) fun _ => .require rfl

theorem plainly_receiveUsername (P : Platform) : Plainly (CloudStorage.Worker.receiveUsername P) :=
  .bind (plainly_expect (.bind (.call id) fun _ => .pure _)) fun _ => .bind (.require rfl) fun _ =>
    .bind (plainly_expect (.call id)) fun _ => .bind (.modify _) fun _ =>
      .bind (plainly_sent (.call id)) fun _ => .require rfl

/-- Wherever `K` holds, `r` carries out `r'`. An early exit leaves behind what `left` says. -/
abbrev CarriesOut {α β : Type} (F : Multiset Object) (left : List Event → Multiset Object)
    (K : Multiset Object → List Event → Prop) (r : Obj α) (r' : Member β)
    (Q : α → β → Multiset Object → List Event → Prop) : Prop :=
  Performs custody IsCrypto (· = Exit.undefined) K r r' Q fun _ live t => live = F + left t

section

variable {α β γ δ : Type} {F A B : Multiset Object} {left : List Event → Multiset Object}
  {T : List Event → Prop} {K : Multiset Object → List Event → Prop}
  {Q : γ → δ → Multiset Object → List Event → Prop}

/-- Nothing is called, and nothing thrown, but the rest of the machine. -/
theorem carries_plain {r : Member α} {V : α → Prop} (hT : Steady T) (hr : Harmless r V) :
    CarriesOut F left (Holding F A T) (plain r) r fun a b live t => b = a ∧ V a ∧ Holding F A T live t := by
  apply (Performs.lift (A := fun o => ¬IsCrypto o) (X := fun _ => False) hr ?_).conseq (fun _ _ => id) ?_ ?_
  · rintro live t s hs ⟨hlive, ht⟩
    exact ⟨hlive, hT t s hs ht⟩
  · rintro a b live t ⟨rfl, hb, h⟩
    exact ⟨rfl, hb, h⟩
  · exact fun _ _ _ h => h.1.elim

theorem failing_bind (os : List Object) (g : α → Obj γ) : failing os >>= g = failing os := by
  show (release os >>= fun _ => Routine.throw (.returned 0)) >>= g = _
  rw [Routine.bind_assoc]
  rfl

/-- Nothing but the rest of the machine is called, where nothing would be left behind. -/
theorem carries_plainly {r : Member α} (hT : Steady T) (hr : Plainly r) (hleft : ∀ t, T t → left t = A) :
    CarriesOut F left (Holding F A T) (plain r) r fun a b live t => b = a ∧ Holding F A T live t := by
  apply (Performs.lift (V := fun _ => True) hr ?_).conseq (fun _ _ => id) ?_ ?_
  · rintro live t s hs ⟨hlive, ht⟩
    exact ⟨hlive, hT t s hs ht⟩
  · exact fun _ _ _ _ h => ⟨h.1, h.2.2⟩
  · rintro e live t ⟨-, rfl, ht⟩
    rw [hleft t ht]

/-- Both go on with the same value. -/
theorem carries_then {f : Obj α} {f' : Member β} {g : α → Obj γ} {g' : β → Member δ}
    {out : α → Multiset Object} {T' : α → List Event → Prop} (φ : α → β)
    (hf : CarriesOut F left K f f' fun a b live t => b = φ a ∧ Holding F (out a) (T' a) live t)
    (hg : ∀ a, CarriesOut F left (Holding F (out a) (T' a)) (g a) (g' (φ a)) Q) :
    CarriesOut F left K (f >>= g) (f' >>= g') Q := by
  refine Performs.bind hf fun a b => ?_
  rintro x live t ⟨rfl, h⟩
  exact hg a x live t h

theorem carries_plain_then {r : Member α} {g : α → Obj γ} {g' : α → Member δ} {V : α → Prop}
    (hT : Steady T) (hr : Harmless r V)
    (hg : ∀ a, V a → CarriesOut F left (Holding F A T) (g a) (g' a) Q) :
    CarriesOut F left (Holding F A T) (plain r >>= g) (r >>= g') Q := by
  refine Performs.bind (carries_plain hT hr) fun a b => ?_
  rintro x live t ⟨rfl, ha, h⟩
  exact hg b ha x live t h

/-- A failure frees everything but what is left behind. -/
theorem carries_failing (os : List Object) (hA : A = (os : Multiset Object) + B)
    (hleft : ∀ t, T t → left t = B) :
    CarriesOut F left (Holding F A T) (failing os) (Routine.throw (.returned 0)) Q := by
  refine Performs.left (owns_release (E := fun _ _ => False) os) (fun _ _ h => h.elim)
    (hA.trans (zero_add _).symm) ?_
  rintro _ B' rfl
  apply Performs.throw
  rintro live t ⟨rfl, ht⟩
  rw [zero_add, hleft t ht]

/-- A value that may be missing: the failure frees all but what is left behind. -/
theorem carries_orFail {f : Obj (Option α)} {f' : Member (Option β)} {g : α → Obj γ} {g' : β → Member δ}
    {out : Option α → Multiset Object} {T' : Option α → List Event → Prop} (φ : α → β) (os : List Object)
    (hf : CarriesOut F left K f f' fun a b live t => b = a.map φ ∧ Holding F (out a) (T' a) live t)
    (hfail : out none = (os : Multiset Object) + B) (hleft : ∀ t, T' none t → left t = B)
    (hg : ∀ a, CarriesOut F left (Holding F (out (some a)) (T' (some a))) (g a) (g' (φ a)) Q) :
    CarriesOut F left K (f >>= fun a => orFail os a >>= g) (Member.expect f' 0 >>= g') Q := by
  rw [Member.expect, Routine.bind_assoc]
  refine Performs.bind hf fun a b => ?_
  rintro x live t ⟨rfl, h⟩
  cases a with
  | none =>
      rw [orFail, failing_bind]
      exact carries_failing os hfail hleft x live t h
  | some a => exact hg a x live t h

/-- A condition: the failure frees all but what is left behind. -/
theorem carries_ensure {g : Unit → Obj γ} {g' : Unit → Member δ} {b : Bool} (os : List Object)
    (hfail : b = false → A = (os : Multiset Object) + B) (hleft : b = false → ∀ t, T t → left t = B)
    (hg : b = true → CarriesOut F left (Holding F A T) (g ()) (g' ()) Q) :
    CarriesOut F left (Holding F A T) (ensure b os >>= g) (Routine.require b (.returned 0) >>= g') Q := by
  cases b with
  | false =>
      rw [ensure, if_neg Bool.false_ne_true, failing_bind]
      exact carries_failing os (hfail rfl) (hleft rfl)
  | true => exact hg rfl

/-- A message: where it is not sent, the failure frees all but what is left behind. -/
theorem carries_sent {r : Member Bool} {g : Unit → Obj γ} {g' : Unit → Member δ} (os : List Object)
    (hT : Steady T) (hr : Harmless r fun _ => True) (hfail : A = (os : Multiset Object) + B)
    (hleft : ∀ t, T t → left t = B)
    (hg : CarriesOut F left (Holding F A T) (g ()) (g' ()) Q) :
    CarriesOut F left (Holding F A T) (plain r >>= fun ok => ensure ok os >>= g)
      (Member.sent r >>= g') Q := by
  rw [Member.sent, Routine.bind_assoc]
  refine Performs.bind (carries_plain hT hr) fun ok ok' => ?_
  rintro x live t ⟨rfl, -, h⟩
  exact carries_ensure os (fun _ => hfail) (fun _ => hleft) (fun _ => hg) x live t h

/-- The last message. -/
theorem carries_sent_last {r : Member Bool} (hT : Steady T) (hr : Harmless r fun _ => True)
    (hleft : ∀ t, T t → left t = A) :
    CarriesOut F left (Holding F A T) (plain r >>= fun ok => ensure ok []) (Member.sent r)
      fun _ _ => Holding F A T := by
  rw [← Routine.bind_pure (Member.sent r)]
  have hend : (plain r >>= fun ok => ensure ok []) = plain r >>= fun ok => ensure ok [] >>= pure := by
    simp only [Routine.bind_pure]
  rw [hend]
  exact carries_sent [] hT hr (zero_add A).symm hleft (Performs.pure fun _ _ h => h)

/-- A block: where it does not arrive, the failure frees all but what is left behind. -/
theorem carries_receiveData {n : Nat} {g : Buffer → Obj γ} {g' : Buffer → Member δ} (os : List Object)
    (hT : Steady T) (hfail : A = (os : Multiset Object) + B) (hleft : ∀ t, T t → left t = B)
    (hg : ∀ d, CarriesOut F left (Holding F A T) (g d) (g' d) Q) :
    CarriesOut F left (Holding F A T) (plain (Member.receiveData n) >>= fun a => orFail os a >>= g)
      (Member.expect (Member.receiveData n) 0 >>= g') Q := by
  have hreceive : CarriesOut F left (Holding F A T) (plain (Member.receiveData n)) (Member.receiveData n)
      fun a b live t => b = a.map id ∧ Holding F A T live t := by
    refine (carries_plain hT (harmless_receiveData n)).conseq (fun _ _ => id) ?_ fun _ _ _ => id
    rintro a b live t ⟨rfl, -, h⟩
    exact ⟨(Option.map_id_apply).symm, h⟩
  exact carries_orFail id os hreceive hfail hleft hg

theorem carries_get_then {g : Session → Obj γ} {g' : Session → Member δ}
    (hg : ∀ s, CarriesOut F left K (g s) (g' s) Q) :
    CarriesOut F left K (Routine.get >>= g) (Routine.get >>= g') Q := by
  refine Performs.bind Performs.get fun s s' => ?_
  rintro x live t ⟨rfl, h⟩
  exact hg s' x live t h

/-- Objects are freed. -/
theorem carries_release {g : Unit → Obj γ} {r' : Member δ} (os : List Object)
    (hA : A = (os : Multiset Object) + B) (hg : CarriesOut F left (Holding F B T) (g ()) r' Q) :
    CarriesOut F left (Holding F A T) (release os >>= g) r' Q := by
  refine Performs.left (owns_release (E := fun _ _ => False) os) (fun _ _ h => h.elim)
    (hA.trans (zero_add _).symm) ?_
  rintro _ B' rfl
  rwa [zero_add]

/-- A function in the place of a call. -/
theorem carries_crypto {c : CryptoCall} {f : Obj α} {G A' : Multiset Object} {out : α → Multiset Object}
    {answer : α → c.Ans} {T' : α → List Event → Prop}
    (hf : Owns custody A' f (fun a B => B = out a) fun e _ => e = .undefined) (hA : A = G + A')
    (hT : ∀ a t, T t → T' a (t ++ [⟨.sys (.crypto c), answer a⟩])) :
    CarriesOut F left (Holding F A T) f (Member.crypto c) fun a b live t =>
      b = answer a ∧ Holding F (G + out a) (T' a) live t :=
  Performs.instead hf (fun _ _ h => h) trivial hA hT

theorem steady_true : Steady fun _ => True := fun _ _ _ _ => trivial

end

/-! ## The worker carries out its login -/

namespace Worker

variable {P : Platform} {F : Multiset Object}

/-- The worker leaves nothing behind. -/
abbrev CarriesAll {α β : Type} (F A : Multiset Object) (r : Obj α) (r' : Member β)
    (Q : α → β → Multiset Object → List Event → Prop) : Prop :=
  CarriesOut F (fun _ => 0) (Holding F A fun _ => True) r r' Q

theorem carries_call {α : Type} {c : CryptoCall} {f : Obj α} {A G A' : Multiset Object}
    {out : α → Multiset Object} {answer : α → c.Ans}
    (hf : Owns custody A' f (fun a B => B = out a) fun e _ => e = .undefined) (hA : A = G + A') :
    CarriesAll F A f (Member.crypto c) fun a b live t =>
      b = answer a ∧ Holding F (G + out a) (fun _ => True) live t :=
  carries_crypto hf hA fun _ _ _ => trivial

theorem carries_deriveKey (clientKey : Ptr .pkey) :
    CarriesAll F {clientKey.object} (deriveKey clientKey)
      (CloudStorage.Worker.deriveKey clientKey.address)
      fun a b live t => b = a ∧ Holding F 0 (fun _ => True) live t := by
  unfold deriveKey CloudStorage.Worker.deriveKey
  refine carries_orFail Ptr.address [clientKey.object]
    (carries_call owns_ecdhKeyGeneration (add_zero _).symm) (by rfl) (fun _ _ => rfl) fun serverKey => ?_
  refine carries_orFail id [clientKey.object, serverKey.object]
    (carries_call (owns_serializePubKey serverKey []) (by rfl)) (by rfl) (fun _ _ => rfl) fun sServerKey => ?_
  refine carries_then id (carries_call (owns_deriveSharedSecret serverKey clientKey [])
    ((zero_add _).trans (add_comm _ _)).symm) fun derived => ?_
  have hheld : 0 + ({serverKey.object} + {clientKey.object}) =
      (([clientKey.object, serverKey.object] : List Object) : Multiset Object) + 0 := by
    rw [zero_add, add_comm]
    rfl
  refine carries_ensure _ (fun _ => hheld) (fun _ _ _ => rfl) fun _ => ?_
  refine carries_release _ hheld ?_
  refine carries_orFail id [] (carries_call (owns_computeSHA256Digest derived.2 []) (add_zero _).symm) (by rfl)
    (fun _ _ => rfl) fun digest => ?_
  refine carries_plain_then steady_true (harmless_generateSessionKey digest) fun _ _ => ?_
  exact Performs.pure fun live t h => ⟨rfl, h⟩

/-- A received key is out. -/
def received : Option (Option (Ptr .pkey) × Buffer) → Multiset Object
  | none => 0
  | some key => (held key.1 : Multiset Object)

/-- The key as the login without objects has it. -/
def addressed (key : Option (Ptr .pkey) × Buffer) : Option Pkey × Buffer := (key.1.map Ptr.address, key.2)

theorem carries_receiveEphemeralPublicKey :
    CarriesAll F 0 (receiveEphemeralPublicKey P) (Member.receiveEphemeralPublicKey P)
      fun a b live t => b = a.map addressed ∧ Holding F (received a) (fun _ => True) live t := by
  unfold receiveEphemeralPublicKey Member.receiveEphemeralPublicKey
  refine carries_plain_then steady_true (harmless_receiveSize P) fun length _ => ?_
  cases length with
  | none => exact Performs.pure fun live t h => ⟨rfl, h⟩
  | some length =>
      refine carries_plain_then steady_true (harmless_note _) fun _ _ => ?_
      by_cases hlong : maxEphemeralPublicKeySize < length
      · simp only [hlong, ↓reduceIte]
        exact Performs.pure fun live t h => ⟨rfl, h⟩
      · simp only [hlong, ↓reduceIte]
        refine carries_plain_then steady_true (harmless_receiveData length) fun serialized _ => ?_
        cases serialized with
        | none => exact Performs.pure fun live t h => ⟨rfl, h⟩
        | some serialized =>
            refine carries_then (Option.map Ptr.address)
              (carries_call (owns_deserializePublicKey serialized) (add_zero _).symm) fun key => ?_
            exact Performs.pure fun live t h => ⟨rfl, h.1.trans (by rw [zero_add]; rfl), trivial⟩

theorem carries_receiveClientKey :
    CarriesAll F 0 (receiveClientKey P) (CloudStorage.Worker.receiveClientKey P)
      fun a b live t => b = (a.1.address, a.2) ∧ Holding F {a.1.object} (fun _ => True) live t := by
  unfold receiveClientKey CloudStorage.Worker.receiveClientKey
  refine carries_then (Option.map addressed) carries_receiveEphemeralPublicKey fun key => ?_
  rcases key with _ | ⟨_ | key, serialized⟩
  · exact Performs.undefined rfl
  · exact Performs.throw fun live t h => h.1
  · exact Performs.pure fun live t h => ⟨rfl, h⟩

theorem owns_serverCertificate {E : Exit → Multiset Object → Prop} :
    Owns custody 0 serverCertificate (fun _ B => B = 0) E := by
  unfold serverCertificate
  refine owns_make (by simp [Maker.uses]) (.pure rfl) fun file => ?_
  refine owns_make (by simp [Maker.uses]) ?_ fun cert => ?_
  · refine (owns_release (B := 0) [file.object]).bind ?_
    rintro _ B rfl
    exact .pure rfl
  · have hheld : ({cert.object} : Multiset Object) + ({file.object} + 0) =
        (([file.object] : List Object) : Multiset Object) + {cert.object} := add_comm _ _
    rw [hheld]
    refine (owns_release [file.object]).bind ?_
    rintro _ B rfl
    refine owns_make (by simp [Maker.uses]) (owns_leaving _ rfl rfl) fun bio => ?_
    have hleave : Owns custody ({bio.object} + {cert.object})
        (leaving [bio.object, cert.object] (none : Option Buffer)) (fun _ B => B = 0) E :=
      owns_leaving _ rfl rfl
    refine owns_status (by simp [Operation.uses]) fun _ => owns_ite (fun _ => hleave) fun _ => ?_
    refine owns_lib (by simp [custody]) rfl (fun _ => rfl) fun size => ?_
    refine owns_fill (by simp [Filler.uses]) fun filled => owns_ite (fun _ => hleave) fun _ => ?_
    exact owns_leaving _ (add_comm _ _) rfl

theorem carries_sendM3 (sServerKey concatenatedKeys : Buffer) :
    CarriesAll F 0 (sendM3 P sServerKey concatenatedKeys)
      (CloudStorage.Worker.sendM3 P sServerKey concatenatedKeys)
      fun _ _ => Holding F 0 fun _ => True := by
  unfold sendM3 CloudStorage.Worker.sendM3
  refine carries_orFail Ptr.address [] (carries_call (owns_loadPrivateKey _ _) (add_zero _).symm)
    (by rfl) (fun _ _ => rfl) fun privateKey => ?_
  refine carries_orFail id [privateKey.object]
    (carries_call (owns_generateDigitalSignature concatenatedKeys privateKey []) (by rfl)) (by rfl)
    (fun _ _ => rfl) fun signature => ?_
  refine carries_release [privateKey.object] (add_comm _ _) ?_
  refine carries_get_then fun s => ?_
  refine carries_orFail id [] (carries_call (owns_encryptTextAES signature s.sessionKey [])
    (add_zero _).symm) (by rfl) (fun _ _ => rfl) fun encrypted => ?_
  refine carries_orFail id [] (carries_call owns_serverCertificate (add_zero _).symm) (by rfl)
    (fun _ _ => rfl) fun certificate => ?_
  refine carries_plain_then steady_true (harmless_serializeM3 _ _) fun message _ => ?_
  exact carries_sent_last steady_true (harmless_sendData message) fun _ _ => rfl

theorem carries_checkM4 (concatenatedKeys : Buffer) :
    CarriesAll F 0 (checkM4 concatenatedKeys) (CloudStorage.Worker.checkM4 concatenatedKeys)
      fun _ _ => Holding F 0 fun _ => True := by
  unfold checkM4 CloudStorage.Worker.checkM4
  refine carries_receiveData [] steady_true (by rfl) (fun _ _ => rfl) fun message => ?_
  refine carries_get_then fun s => ?_
  have hlen : (M4.deserialize message).1.length ≤ intMax :=
    (List.length_take_le _ _).trans (by decide)
  refine carries_orFail id [] (carries_call (owns_decryptTextAES _ s.sessionKey _ [] hlen)
    (add_zero _).symm) (by rfl) (fun _ _ => rfl) fun plaintext => ?_
  refine carries_orFail Ptr.address [] (carries_call (owns_loadPublicKey _) (add_zero _).symm) (by rfl)
    (fun _ _ => rfl) fun publicKey => ?_
  refine carries_then id (carries_call (owns_verifyDigitalSignature concatenatedKeys plaintext
    (some publicKey)) (by rfl)) fun verified => ?_
  have hheld : (0 : Multiset Object) + (held (some publicKey) : Multiset Object) =
      (([publicKey.object] : List Object) : Multiset Object) + 0 := add_comm _ _
  rw [← Routine.bind_pure (Routine.require _ _), ← Routine.bind_pure (release _)]
  refine carries_ensure _ (fun _ => hheld) (fun _ _ _ => rfl) fun _ => ?_
  exact carries_release _ hheld (Performs.pure fun live t h => h)

theorem carries_login :
    CarriesAll F 0 (login P) (CloudStorage.Worker.login P)
      fun a b live t => b = a ∧ Holding F 0 (fun _ => True) live t := by
  unfold login CloudStorage.Worker.login
  refine carries_then id (carries_plainly steady_true (plainly_receiveUsername P) fun _ _ => rfl)
    fun _ => ?_
  refine carries_then (fun key => (key.1.address, key.2)) carries_receiveClientKey fun key => ?_
  refine carries_then id (carries_deriveKey key.1) fun sServerKey => ?_
  refine Performs.bind (carries_sendM3 sServerKey _) fun _ _ => ?_
  refine Performs.bind (carries_checkM4 _) fun _ _ => ?_
  exact Performs.pure fun live t h => ⟨rfl, h⟩

end Worker

/-! ## The client carries out its login -/

namespace Client

/-- The key that a call has read. -/
def keyRead : Event → List Object
  | ⟨.sys (.crypto (.deserializePublicKey _)), (a : Option Pkey)⟩ =>
    held (a.map fun address => (⟨address⟩ : Ptr .pkey))
  | _ => []

/-- The certificate that a call has read. -/
def certificateRead : Event → List Object
  | ⟨.sys (.crypto (.readCertificate _)), (a : Option Pkey)⟩ =>
    held (a.map fun address => (⟨address⟩ : Ptr .x509))
  | _ => []

/-- A signature is verified. -/
def verifies : Event → Bool
  | ⟨.sys (.crypto (.verifyDigitalSignature _ _ _)), (a : Bool)⟩ => a
  | _ => false

/-- What a login leaves behind: the keys that it has read, and the certificate too if no signature was
    verified. -/
def leftBehind (t : List Event) : Multiset Object :=
  ((t.flatMap keyRead : List Object) : Multiset Object) +
    bif t.any verifies then 0 else ((t.flatMap certificateRead : List Object) : Multiset Object)

/-- The calls have read these keys and certificates, and a signature is verified or not. -/
structure Told (keys certificates : List Object) (verified : Bool) (t : List Event) : Prop where
  keys : t.flatMap keyRead = keys
  certificates : t.flatMap certificateRead = certificates
  verified : t.any verifies = verified

section

variable {P : Platform} {F : Multiset Object} {keys certificates : List Object} {verified : Bool}
  {t : List Event}

theorem Told.leftBehind (h : Told keys certificates verified t) :
    leftBehind t = (keys : Multiset Object) + bif verified then 0 else (certificates : Multiset Object) := by
  rw [Client.leftBehind, h.keys, h.certificates, h.verified]

theorem Told.snoc (h : Told keys certificates verified t) (e : Event) :
    Told (keys ++ keyRead e) (certificates ++ certificateRead e) (verified || verifies e) (t ++ [e]) := by
  constructor
  · rw [List.flatMap_append, h.keys, List.flatMap_singleton]
  · rw [List.flatMap_append, h.certificates, List.flatMap_singleton]
  · rw [List.any_append, h.verified, List.any_cons, List.any_nil, Bool.or_false]

/-- A call that reads no key and no certificate and verifies no signature. -/
def Neutral (e : Event) : Prop := keyRead e = [] ∧ certificateRead e = [] ∧ verifies e = false

theorem Told.pass (h : Told keys certificates verified t) {e : Event} (he : Neutral e) :
    Told keys certificates verified (t ++ [e]) := by
  have hsnoc := h.snoc e
  rwa [he.1, he.2.1, he.2.2, List.append_nil, List.append_nil, Bool.or_false] at hsnoc

theorem neutral_of_not_isCrypto {e : Event} (he : ¬IsCrypto e.1) : Neutral e := by
  obtain ⟨o, a⟩ := e
  cases o with
  | send d => exact ⟨rfl, rfl, rfl⟩
  | recv n => exact ⟨rfl, rfl, rfl⟩
  | sys o =>
      cases o with
      | crypto c => exact absurd trivial he
      | _ => exact ⟨rfl, rfl, rfl⟩

theorem steady_told : Steady (Told keys certificates verified) := by
  intro t s hs h
  induction s generalizing t with
  | nil => rwa [List.append_nil]
  | cons e s ih =>
      rw [List.append_cons]
      exact ih _ (fun e he => hs e (List.mem_cons_of_mem _ he))
        (h.pass (neutral_of_not_isCrypto (hs e List.mem_cons_self)))

theorem carries_call {α : Type} {c : CryptoCall} {f : Obj α} {A G A' : Multiset Object}
    {out : α → Multiset Object} {answer : α → c.Ans}
    (hc : ∀ b : c.Ans, Neutral ⟨.sys (.crypto c), b⟩)
    (hf : Owns custody A' f (fun a B => B = out a) fun e _ => e = .undefined) (hA : A = G + A') :
    CarriesOut F leftBehind (Holding F A (Told keys certificates verified)) f (Member.crypto c)
      fun a b live t => b = answer a ∧ Holding F (G + out a) (Told keys certificates verified) live t :=
  carries_crypto hf hA fun a _ h => h.pass (hc (answer a))

theorem carries_sendClientKey (privateKey : Ptr .pkey) :
    CarriesOut F leftBehind (Holding F {privateKey.object} (Told [] [] false))
      (sendClientKey P privateKey) (CloudStorage.Client.sendClientKey P)
      fun a b live t => b = (a.1.address, a.2) ∧
        Holding F ({privateKey.object} + {a.1.object}) (Told [] [] false) live t := by
  unfold sendClientKey CloudStorage.Client.sendClientKey
  refine carries_orFail Ptr.address [privateKey.object] (carries_call (fun _ => ⟨rfl, rfl, rfl⟩)
    owns_ecdhKeyGeneration (add_zero _).symm) (by rfl) (fun _ h => h.leftBehind) fun clientKey => ?_
  have hheld : ({privateKey.object} : Multiset Object) + {clientKey.object} =
      (([clientKey.object, privateKey.object] : List Object) : Multiset Object) + (0 + 0) := add_comm _ _
  refine carries_orFail id _ (carries_call (fun _ => ⟨rfl, rfl, rfl⟩) (owns_serializePubKey clientKey [])
    (by rfl)) hheld (fun _ h => h.leftBehind) fun sClientKey => ?_
  refine carries_sent _ steady_told (harmless_sendSize P _) hheld (fun _ h => h.leftBehind) ?_
  refine carries_sent _ steady_told (harmless_sendData _) hheld (fun _ h => h.leftBehind) ?_
  exact Performs.pure fun live t h => ⟨rfl, h⟩

theorem owns_readCertificate {E : Exit → Multiset Object → Prop} (pem : Buffer) :
    Owns custody 0 (readCertificate pem) (fun a B => B = (held a : Multiset Object)) E := by
  unfold readCertificate
  refine owns_make (by simp [Maker.uses]) (.pure rfl) fun bio => ?_
  refine owns_make (by simp [Maker.uses]) (owns_leaving _ rfl rfl) fun cert => ?_
  exact owns_leaving _ (add_comm _ _) rfl

theorem owns_verifyServerCertificate (caCert : Ptr .x509) (crl : Ptr .crl) (serverCert : Ptr .x509) :
    Owns custody ({caCert.object} + {crl.object} + {serverCert.object})
      (verifyServerCertificate caCert crl serverCert) (fun _ B => B = {serverCert.object})
      fun e _ => e = .undefined := by
  unfold verifyServerCertificate
  refine owns_make (by simp [Maker.uses]) (.throw rfl) fun store => ?_
  refine owns_status (by simp [Operation.uses]) fun _ => ?_
  refine owns_status (by simp [Operation.uses]) fun _ => ?_
  refine owns_status (by simp [Operation.uses]) fun _ => ?_
  refine owns_make (by simp [Maker.uses]) (.throw rfl) fun ctx => ?_
  refine owns_status (by simp [Operation.uses]) fun _ => ?_
  refine owns_status (by simp [Operation.uses]) fun _ => ?_
  exact owns_leaving _ (by simp only [coe_cons, Multiset.coe_nil]; abel) rfl

/-- Whether it is found good or not, only the certificate itself is left. -/
theorem owns_checkCertificate (serverCert : Ptr .x509) :
    Owns custody {serverCert.object} (checkCertificate serverCert) (fun _ B => B = {serverCert.object})
      fun e _ => e = .undefined := by
  unfold checkCertificate
  refine owns_make (by simp [Maker.uses]) (.pure rfl) fun file => ?_
  refine owns_make (by simp [Maker.uses]) ?_ fun caCert => ?_
  · refine (owns_release [file.object]).bind ?_
    rintro _ B rfl
    exact .pure rfl
  have hheld : ({caCert.object} : Multiset Object) + ({file.object} + {serverCert.object}) =
      (([file.object] : List Object) : Multiset Object) + ({caCert.object} + {serverCert.object}) :=
    add_left_comm _ _ _
  rw [hheld]
  refine (owns_release [file.object]).bind ?_
  rintro _ B rfl
  have hleave : Owns custody ({caCert.object} + {serverCert.object}) (leaving [caCert.object] false)
      (fun _ B => B = {serverCert.object}) fun e _ => e = .undefined := owns_leaving _ rfl rfl
  refine owns_make (by simp [Maker.uses]) hleave fun file => ?_
  refine owns_make (by simp [Maker.uses]) ?_ fun crl => ?_
  · refine (owns_release [file.object]).bind ?_
    rintro _ B rfl
    exact hleave
  have hheld : ({crl.object} : Multiset Object) +
      ({file.object} + ({caCert.object} + {serverCert.object})) =
      (([file.object] : List Object) : Multiset Object) +
        ({caCert.object} + {crl.object} + {serverCert.object}) := by
    simp only [coe_cons, Multiset.coe_nil]
    abel
  rw [hheld]
  refine (owns_release [file.object]).bind ?_
  rintro _ B rfl
  exact owns_verifyServerCertificate caCert crl serverCert

/-- The certificate that is read stays out. -/
theorem carries_readCertificate {A : Multiset Object} (pem : Buffer) :
    CarriesOut F leftBehind (Holding F A (Told keys certificates verified)) (readCertificate pem)
      (Member.crypto (.readCertificate pem)) fun a b live t => b = a.map Ptr.address ∧
        Holding F (A + (held a : Multiset Object)) (Told keys (certificates ++ held a) verified) live t := by
  refine carries_crypto (owns_readCertificate pem) (add_zero _).symm fun a t h => ?_
  have hsnoc := h.snoc ⟨.sys (.crypto (.readCertificate pem)), a.map Ptr.address⟩
  cases a <;> simpa [keyRead, certificateRead, verifies] using hsnoc

/-- The key that is read stays out. -/
theorem carries_deserializePublicKey {A : Multiset Object} (sKey : Buffer) :
    CarriesOut F leftBehind (Holding F A (Told keys certificates verified)) (deserializePublicKey sKey)
      (Member.crypto (.deserializePublicKey sKey)) fun a b live t => b = a.map Ptr.address ∧
        Holding F (A + (held a : Multiset Object)) (Told (keys ++ held a) certificates verified) live t := by
  refine carries_crypto (owns_deserializePublicKey sKey) (add_zero _).symm fun a t h => ?_
  have hsnoc := h.snoc ⟨.sys (.crypto (.deserializePublicKey sKey)), a.map Ptr.address⟩
  cases a <;> simpa [keyRead, certificateRead, verifies] using hsnoc

theorem owns_verifySignature {E : Exit → Multiset Object → Prop} (serverCert : Ptr .x509)
    (concatenatedKeys signature : Buffer) :
    Owns custody {serverCert.object} (verifySignature serverCert concatenatedKeys signature)
      (fun a B => B = {serverCert.object} + (held a.2 : Multiset Object)) E := by
  unfold verifySignature
  have hverify : ∀ key : Option (Ptr .pkey), Owns custody ({serverCert.object} + (held key : Multiset Object))
      (do
        let verified ← verifyDigitalSignature concatenatedKeys signature key
        pure (verified, key))
      (fun a B => B = {serverCert.object} + (held a.2 : Multiset Object)) E := by
    intro key
    refine (Owns.frame {serverCert.object} (owns_verifyDigitalSignature concatenatedKeys signature
      key (E := fun _ _ => False))).conseq (fun _ _ => id) (fun _ _ h => ?_) |>.bind fun b B h => ?_
    · obtain ⟨_, _, h⟩ := h
      exact h.elim
    · obtain ⟨B', rfl, rfl⟩ := h
      exact .pure rfl
  refine owns_make (by simp [Maker.uses]) ?_ fun key => ?_
  · simpa using hverify none
  · rw [add_comm]
    exact hverify (some key)

theorem carries_receiveM3 (clientKey privateKey : Ptr .pkey) :
    CarriesOut F leftBehind (Holding F ({privateKey.object} + {clientKey.object}) (Told [] [] false))
      (receiveM3 P clientKey privateKey) (CloudStorage.Client.receiveM3 P)
      fun a b live t => (b = (a.1, a.2.address) ∧ a.1.cipherText.length ≤ encryptedSignatureSize) ∧
        Holding F ({privateKey.object} + {clientKey.object} + {a.2.object}) (Told [] [a.2.object] false)
          live t := by
  unfold receiveM3 CloudStorage.Client.receiveM3
  have hheld : ({privateKey.object} : Multiset Object) + {clientKey.object} =
      (([clientKey.object, privateKey.object] : List Object) : Multiset Object) + (0 + 0) := add_comm _ _
  refine carries_receiveData _ steady_told hheld (fun _ h => h.leftBehind) fun message => ?_
  refine carries_plain_then steady_told (harmless_deserializeM3 P.order message) fun m hm => ?_
  refine carries_orFail Ptr.address _ (carries_readCertificate m.certificate) hheld
    (fun _ h => h.leftBehind) fun serverCert => ?_
  have hheld : ({privateKey.object} : Multiset Object) + {clientKey.object} + {serverCert.object} =
      (([clientKey.object, privateKey.object] : List Object) : Multiset Object) +
        (0 + {serverCert.object}) := by
    simp only [coe_cons, Multiset.coe_nil]
    abel
  refine carries_then id (carries_call (fun _ => ⟨rfl, rfl, rfl⟩) (owns_checkCertificate serverCert)
    (by rfl)) fun trusted => ?_
  refine carries_ensure _ (fun _ => hheld) (fun _ _ h => h.leftBehind) fun _ => ?_
  refine carries_ensure _ (fun _ => hheld) (fun _ _ h => h.leftBehind) fun _ => ?_
  exact Performs.pure fun live t h => ⟨⟨rfl, hm⟩, h⟩

/-- The server's key stays out. -/
theorem carries_deriveKey (clientKey privateKey : Ptr .pkey) (cert : Object) (sServerKey : Buffer) :
    CarriesOut F leftBehind
      (Holding F ({privateKey.object} + {clientKey.object} + {cert}) (Told [] [cert] false))
      (deriveKey clientKey privateKey sServerKey)
      (CloudStorage.Client.deriveKey clientKey.address sServerKey) fun a _ live t =>
        Holding F ({privateKey.object} + {cert} + {a.object}) (Told [a.object] [cert] false) live t := by
  unfold deriveKey CloudStorage.Client.deriveKey
  have hheld : ({privateKey.object} : Multiset Object) + {clientKey.object} + {cert} =
      (([clientKey.object, privateKey.object] : List Object) : Multiset Object) + (0 + {cert}) := by
    simp only [coe_cons, Multiset.coe_nil]
    abel
  refine carries_orFail Ptr.address _ (carries_deserializePublicKey sServerKey) hheld
    (fun _ h => h.leftBehind) fun serverKey => ?_
  have hpair : ({privateKey.object} : Multiset Object) + {clientKey.object} + {cert} + {serverKey.object} =
      {privateKey.object} + {cert} + ({clientKey.object} + {serverKey.object}) := by abel
  refine carries_then id (carries_call (fun _ => ⟨rfl, rfl, rfl⟩)
    (owns_deriveSharedSecret clientKey serverKey []) hpair) fun derived => ?_
  have hheld : ({privateKey.object} : Multiset Object) + {cert} +
      ({clientKey.object} + {serverKey.object}) =
      (([clientKey.object, privateKey.object] : List Object) : Multiset Object) +
        ({serverKey.object} + {cert}) := by
    simp only [coe_cons, Multiset.coe_nil]
    abel
  refine carries_ensure _ (fun _ => hheld) (fun _ _ h => h.leftBehind) fun _ => ?_
  have hrest : ({privateKey.object} : Multiset Object) + {cert} +
      ({clientKey.object} + {serverKey.object}) = (([clientKey.object] : List Object) : Multiset Object) +
        ({privateKey.object} + {cert} + {serverKey.object}) := by
    simp only [coe_cons, Multiset.coe_nil]
    abel
  refine carries_release _ hrest ?_
  have hheld : ({privateKey.object} : Multiset Object) + {cert} + {serverKey.object} + 0 =
      (([privateKey.object] : List Object) : Multiset Object) + ({serverKey.object} + {cert}) := by
    simp only [coe_cons, Multiset.coe_nil]
    abel
  refine carries_orFail id [privateKey.object] (carries_call (fun _ => ⟨rfl, rfl, rfl⟩)
    (owns_computeSHA256Digest derived.2 []) (add_zero _).symm) hheld (fun _ h => h.leftBehind)
    fun digest => ?_
  rw [← Routine.bind_pure (Member.generateSessionKey (id digest))]
  refine carries_plain_then steady_told (harmless_generateSessionKey digest) fun _ _ => ?_
  exact Performs.pure fun live t h => by simpa using h

/-- Once the signature is verified, the certificate is freed. -/
theorem carries_checkM3 (m : M3) (hm : m.cipherText.length ≤ encryptedSignatureSize)
    (serverCert : Ptr .x509) (privateKey : Ptr .pkey) (serverKey : Object) (concatenatedKeys : Buffer) :
    CarriesOut F leftBehind (Holding F ({privateKey.object} + {serverCert.object} + {serverKey})
        (Told [serverKey] [serverCert.object] false))
      (checkM3 m serverCert privateKey concatenatedKeys)
      (CloudStorage.Client.checkM3 m serverCert.address concatenatedKeys) fun _ _ live t =>
        Holding F ({privateKey.object} + {serverKey}) (Told [serverKey] [serverCert.object] true)
          live t := by
  unfold checkM3 CloudStorage.Client.checkM3
  refine carries_get_then fun s => ?_
  have hheld : ({privateKey.object} : Multiset Object) + {serverCert.object} + {serverKey} + 0 =
      (([privateKey.object] : List Object) : Multiset Object) +
        ({serverKey} + {serverCert.object}) := by
    simp only [coe_cons, Multiset.coe_nil]
    abel
  refine carries_orFail id _ (carries_call (fun _ => ⟨rfl, rfl, rfl⟩)
    (owns_decryptTextAES m.cipherText s.sessionKey m.iv [] (hm.trans (by decide))) (add_zero _).symm)
    hheld (fun _ h => h.leftBehind) fun plaintext => ?_
  have hverify : CarriesOut F leftBehind (Holding F
      ({privateKey.object} + {serverCert.object} + {serverKey} + 0)
        (Told [serverKey] [serverCert.object] false))
      (verifySignature serverCert concatenatedKeys plaintext)
      (Member.crypto (.verifyDigitalSignature concatenatedKeys plaintext serverCert.address))
      fun a b live t => b = a.1 ∧ Holding F ({privateKey.object} + {serverKey} +
        ({serverCert.object} + (held a.2 : Multiset Object)))
        (Told [serverKey] [serverCert.object] a.1) live t :=
    carries_crypto (owns_verifySignature serverCert concatenatedKeys plaintext) (by abel)
      fun a t h => h.snoc ⟨.sys (.crypto (.verifyDigitalSignature _ _ _)), a.1⟩
  refine carries_then Prod.fst hverify fun result => ?_
  obtain ⟨ok, serverPublicKey⟩ := result
  rw [← Routine.bind_pure (Routine.require _ _), ← Routine.bind_pure (release [serverCert.object])]
  refine carries_ensure (B := {serverKey} + {serverCert.object}) _ (fun _ => ?_) ?_ ?_
  · simp only [coe_cons]
    abel
  · rintro hfalse t h
    obtain rfl : ok = false := hfalse
    exact h.leftBehind
  · intro htrue
    obtain rfl : ok = true := htrue
    refine carries_release (B := {privateKey.object} + {serverKey} + {serverCert.object}) _ ?_ ?_
    · abel
    · refine carries_release [serverCert.object] (add_comm _ _) ?_
      exact Performs.pure fun live t h => h

theorem carries_sendM4 (privateKey : Ptr .pkey) (serverKey cert : Object) (concatenatedKeys : Buffer) :
    CarriesOut F leftBehind (Holding F ({privateKey.object} + {serverKey}) (Told [serverKey] [cert] true))
      (sendM4 privateKey concatenatedKeys)
      (CloudStorage.Client.sendM4 privateKey.address concatenatedKeys) fun _ _ live t =>
        Holding F {serverKey} (Told [serverKey] [cert] true) live t := by
  unfold sendM4 CloudStorage.Client.sendM4
  refine carries_orFail id [privateKey.object] (carries_call (fun _ => ⟨rfl, rfl, rfl⟩)
    (owns_generateDigitalSignature concatenatedKeys privateKey []) (add_comm _ _)) (add_comm _ _)
    (fun _ h => h.leftBehind) fun signature => ?_
  refine carries_release [privateKey.object] (add_comm _ _) ?_
  refine carries_get_then fun s => ?_
  refine carries_orFail id [] (carries_call (fun _ => ⟨rfl, rfl, rfl⟩)
    (owns_encryptTextAES signature s.sessionKey []) (add_zero _).symm) (zero_add _).symm
    (fun _ h => h.leftBehind) fun encrypted => ?_
  refine carries_plain_then steady_told (harmless_serializeM4 _ _) fun message _ => ?_
  exact carries_sent_last steady_told (harmless_sendData message) fun _ h => h.leftBehind

theorem carries_login :
    CarriesOut F leftBehind (Holding F 0 (Told [] [] false)) (login P) (CloudStorage.Client.login P)
      fun a b live t => b = a ∧ live = F + leftBehind t ∧ ∃ key : Ptr .pkey, leftBehind t = {key.object} := by
  unfold login CloudStorage.Client.login
  refine carries_then id (carries_plainly steady_told (plainly_sendUsername P) fun _ h => h.leftBehind)
    fun _ => ?_
  refine carries_then id (carries_plainly steady_told (plainly_readField _) fun _ h => h.leftBehind)
    fun password => ?_
  refine carries_get_then fun s => ?_
  refine carries_orFail Ptr.address [] (carries_call (fun _ => ⟨rfl, rfl, rfl⟩)
    (owns_loadPrivateKey _ password) (add_zero _).symm) (by rfl) (fun _ h => h.leftBehind)
    fun privateKey => ?_
  refine carries_then (fun key => (key.1.address, key.2)) (carries_sendClientKey privateKey)
    fun key => ?_
  obtain ⟨clientKey, sClientKey⟩ := key
  refine Performs.bind (carries_receiveM3 clientKey privateKey) fun received _ => ?_
  rintro x live t ⟨⟨rfl, hm⟩, h⟩
  obtain ⟨m, serverCert⟩ := received
  refine Performs.bind (carries_deriveKey clientKey privateKey serverCert.object m.serverKey)
    (fun serverKey _ => ?_) x live t h
  refine Performs.bind (carries_checkM3 m hm serverCert privateKey serverKey.object _) fun _ _ => ?_
  refine Performs.bind (carries_sendM4 privateKey serverKey.object serverCert.object _) fun _ _ => ?_
  apply Performs.pure
  rintro live t ⟨rfl, ht⟩
  have hkey : leftBehind t = {serverKey.object} := ht.leftBehind
  exact ⟨rfl, by rw [hkey], serverKey, hkey⟩

end

end Client

/-! ## Runs -/

/-- The key exchange may answer anything. -/
theorem anyEnv_crypto (h : Host) (o : Sys.Op) (a : Sys.Ans o) (ho : IsCrypto o) :
    Host.anyEnv h o a h := by
  classical
  cases o with
  | send d => exact ho.elim
  | recv n => exact ho.elim
  | sys o =>
      cases o with
      | crypto c =>
          have hself : Function.update CryptoCall.refused c (show c.Ans from a) c = a :=
            Function.update_self c (show c.Ans from a) CryptoCall.refused
          exact ⟨{ Choice.calm with crypto := Function.update CryptoCall.refused c (show c.Ans from a) },
            congrArg (fun b : c.Ans => (b, h)) hself⟩
      | _ => exact ho.elim

/-- What a judgement from an empty list of calls on says of runs. -/
theorem CarriesOut.run {left : List Event → Multiset Object} {T V : List Event → Prop}
    {r : Obj Int} {r' : Member Int} {x : Session} {h h' : Host} {live live' : Multiset Object}
    {p : Program (Sys.plus OpenSsl) (Except Exit Int × Session)} (hT : T [])
    (hr : CarriesOut live left (Holding live 0 T) r r' fun a b live' t =>
      b = a ∧ live' = live + left t ∧ V t)
    (hrun : Program.Reaches (custody.beside Host.anyEnv) (r x, h, live) (p, h', live')) :
    (∀ o k, p = .call (.inr o) k → custody.Careful live' o) ∧
      ∃ q t, Program.Reaches (Program.Logged Host.anyEnv) (r' x, h, []) (q, h', t) ∧
        ∀ result x', p = .ret (result, x') → result = .error .undefined ∨
          q = .ret (result, x') ∧ live' = live + left t ∧ ∀ n, result = .ok n → V t := by
  obtain ⟨q, t, hq, hp⟩ := Realizes.reaches anyEnv_crypto (hr x live [] ⟨(add_zero live).symm, hT⟩) hrun
  constructor
  · rintro o k rfl
    exact hp.1
  cases p with
  | call o k => exact ⟨q, t, hq, fun _ _ hret => by cases hret⟩
  | ret y =>
      obtain ⟨q', t', hsilent, hend⟩ := hp
      refine ⟨q', t', hq.trans (reaches_of_silent h' anyEnv_crypto hsilent), ?_⟩
      rintro result x' hret
      cases hret
      cases result with
      | error e => exact hend.imp (congrArg Except.error) fun h => ⟨h.1, h.2, fun _ hn => by cases hn⟩
      | ok n =>
          obtain ⟨b, hq', rfl, hlive, hV⟩ := hend
          exact .inr ⟨hq', hlive, fun _ _ => hV⟩

/-- OpenSSL does what it is asked for. A new object gets the address `n`. -/
def LibCall.done (n : Nat) : (o : LibCall) → OpenSsl.Ans o
  | @LibCall.make k _ => (some ⟨n⟩ : Option (Ptr k))
  | .generate _ => ((1, some ⟨n⟩) : Int × Option (Ptr .pkey))
  | .status _ => (1 : Int)
  | .fill _ => ((1, []) : Int × Buffer)
  | .deriveLength _ => ((1, 1) : Int × Nat)
  | .pkeySize _ | .bioPending _ => (1 : Nat)
  | .bioMemData _ => ([1] : Buffer)
  | .free _ => ()

/-- Run a program with given choices, one for each call that is not into OpenSSL. -/
def play {α : Type} : Program (Sys.plus OpenSsl) α → List Choice → Nat → Host × Multiset Object →
    Program (Sys.plus OpenSsl) α × Host × Multiset Object
  | .ret a, _, _, s => (.ret a, s)
  | .call (.inr o) k, cs, n, s => play (k (o.done n)) cs (n + 1) (s.1, custody.after s.2 o (o.done n))
  | .call (.inl o) k, [], _, s => (.call (.inl o) k, s)
  | .call (.inl o) k, c :: cs, n, s => play (k (s.1.answer c o).1) cs n ((s.1.answer c o).2, s.2)

theorem reaches_play {α : Type} (p : Program (Sys.plus OpenSsl) α) (cs : List Choice) (n : Nat)
    (s : Host × Multiset Object) :
    Program.Reaches (custody.beside Host.anyEnv) (p, s) (play p cs n s) := by
  induction p generalizing cs n s with
  | ret a => exact .refl
  | call o k ih =>
      cases o with
      | inr o =>
          have hanswer : custody.Answers o (o.done n) := by
            cases o with
            | generate f => exact fun _ => rfl
            | _ => trivial
          exact .head (.call ⟨hanswer, rfl⟩) (ih _ _ _ _)
      | inl o =>
          cases cs with
          | nil => exact .refl
          | cons c cs =>
              have hanswer : custody.beside Host.anyEnv s (.inl o) (s.1.answer c o).1
                  ((s.1.answer c o).2, s.2) := ⟨⟨c, rfl⟩, rfl⟩
              exact .head (.call hanswer) (ih _ _ _ _)

/-- A run that has ended. -/
theorem reaches_play_ended {α : Type} {p : Program (Sys.plus OpenSsl) α} (cs : List Choice) (n : Nat)
    (s : Host × Multiset Object) {a : α} (hend : (play p cs n s).1.result = some a) :
    Program.Reaches (custody.beside Host.anyEnv) (p, s)
      (.ret a, (play p cs n s).2.1, (play p cs n s).2.2) :=
  Program.eq_ret_of_result hend ▸ reaches_play p cs n s

/-- **The worker leaves nothing behind**: in a run of its login with the objects, every call is on objects
    that are out, and where the run ends they are those that were out before. -/
theorem Worker.leaves_nothing_behind {P : Platform} {x : Session} {h h' : Host}
    {live live' : Multiset Object} {p : Program (Sys.plus OpenSsl) (Except Exit Int × Session)}
    (hrun : Program.Reaches (custody.beside Host.anyEnv) (login P x, h, live) (p, h', live')) :
    (∀ o k, p = .call (.inr o) k → custody.Careful live' o) ∧
      ∃ q t, Program.Reaches (Program.Logged Host.anyEnv) (CloudStorage.Worker.login P x, h, [])
          (q, h', t) ∧
        ∀ result x', p = .ret (result, x') → result = .error .undefined ∨
          q = .ret (result, x') ∧ live' = live := by
  have hlogin : CarriesAll live 0 (login P) (CloudStorage.Worker.login P) fun a b live' _ =>
      b = a ∧ live' = live + 0 ∧ True :=
    carries_login.conseq (fun _ _ => id) (fun _ _ _ _ h => ⟨h.1, h.2.1, trivial⟩) fun _ _ _ => id
  obtain ⟨hcareful, q, t, hq, hend⟩ := hlogin.run trivial hrun
  refine ⟨hcareful, q, t, hq, fun result x' hret => (hend result x' hret).imp id fun h => ⟨h.1, ?_⟩⟩
  rw [h.2.1, add_zero]

/-- The worker receives the name `user1` and then the number 1, over and over. -/
def Worker.userArrives : List Choice :=
  .deliver [5] :: .deliver (ascii "user1") :: List.replicate 12 (.deliver [1])

/-- The end of the worker's login of `user1`. -/
def Worker.userServed : Program (Sys.plus OpenSsl) (Except Exit Int × Session) × Host × Multiset Object :=
  play (login (.plain .little) (.start [] [])) userArrives 0 (.start .root ⟨[], true, false⟩, 0)

theorem Worker.leaves_nothing_behind_user1 : userServed.2.2 = 0 ∧ ∃ t,
    Program.Reaches (Program.Logged Host.anyEnv)
      (CloudStorage.Worker.login (.plain .little) (.start [] []), .start .root ⟨[], true, false⟩, [])
      (.ret (.ok 1, .start (ascii "user1") (List.replicate 16 0)), userServed.2.1, t) := by
  have hrun := reaches_play_ended (p := login (.plain .little) (.start [] [])) userArrives 0
    (.start .root ⟨[], true, false⟩, 0) (a := (.ok 1, .start (ascii "user1") (List.replicate 16 0)))
    (by decide +kernel)
  obtain ⟨-, q, t, hq, hend⟩ := leaves_nothing_behind hrun
  obtain hbad | ⟨rfl, hlive⟩ := hend _ _ rfl
  · cases hbad
  · unfold userServed
    exact ⟨hlive, t, hq⟩

/-- **What the client leaves behind**: in a run of its login with the objects, every call is on objects
    that are out. Where the run ends, those that were out before are, and so is every key that it has read
    from a message, and a certificate where no signature was verified. After a login that succeeds that is
    one key. -/
theorem Client.leaves_behind {P : Platform} {x : Session} {h h' : Host}
    {live live' : Multiset Object} {p : Program (Sys.plus OpenSsl) (Except Exit Int × Session)}
    (hrun : Program.Reaches (custody.beside Host.anyEnv) (login P x, h, live) (p, h', live')) :
    (∀ o k, p = .call (.inr o) k → custody.Careful live' o) ∧
      ∃ q t, Program.Reaches (Program.Logged Host.anyEnv) (CloudStorage.Client.login P x, h, [])
          (q, h', t) ∧
        ∀ result x', p = .ret (result, x') → result = .error .undefined ∨
          q = .ret (result, x') ∧ live' = live + leftBehind t ∧
            ∀ n, result = .ok n → ∃ key : Ptr .pkey, leftBehind t = {key.object} :=
  CarriesOut.run ⟨rfl, rfl, rfl⟩ carries_login hrun

/-- The end of a login of `user1` at a server whose answers are full of zeros. -/
def Client.userLoggedIn : Program (Sys.plus OpenSsl) (Except Exit Int × Session) × Host × Multiset Object :=
  play (login (.plain .little) (.start [] [])) (List.replicate 20 (.deliver [1])) 0 (console, 0)

theorem Client.leaves_behind_user1 : ∃ t,
    Program.Reaches (Program.Logged Host.anyEnv)
      (CloudStorage.Client.login (.plain .little) (.start [] []), console, [])
      (.ret (.ok 1, .start (ascii "user1") (List.replicate 16 0)), userLoggedIn.2.1, t) ∧
      leftBehind t = {⟨.pkey, 39⟩} := by
  have hrun := reaches_play_ended (p := login (.plain .little) (.start [] []))
    (List.replicate 20 (.deliver [1])) 0 (console, 0)
    (a := (.ok 1, .start (ascii "user1") (List.replicate 16 0))) (by decide +kernel)
  have hleft : userLoggedIn.2.2 = {⟨.pkey, 39⟩} := by decide +kernel
  unfold userLoggedIn at hleft ⊢
  obtain ⟨-, q, t, hq, hend⟩ := leaves_behind hrun
  obtain hbad | ⟨rfl, hlive, -⟩ := hend _ _ rfl
  · cases hbad
  · rw [zero_add] at hlive
    exact ⟨t, hq, hlive.symm.trans hleft⟩

end Objects

end CloudStorage
