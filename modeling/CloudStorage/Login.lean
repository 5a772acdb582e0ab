import CloudStorage.Client

set_option autoImplicit false

/-! # The key exchange

`Client::login` and `Worker::login`: the peers exchange ephemeral Diffie-Hellman keys, derive the
session key from them and sign the two serialized keys. The primitives are calls (`CryptoCall`). A
buffer that is read past its end gives whatever lies behind it. -/

namespace CloudStorage

open Interaction

/-! ## Layout of the messages -/

namespace Login

def maxEphemeralPublicKeySize : Nat := 2048
def encryptedSignatureSize : Nat := 272
def cbcIvLength : Nat := 16
def maxCertificateSize : Nat := 5 * 1024
def sizeLength : Nat := 8

/-- `calLengthLoginMessageFromTheServer`. -/
def lengthM3 : Nat :=
  maxEphemeralPublicKeySize + sizeLength + encryptedSignatureSize + cbcIvLength + sizeLength +
    maxCertificateSize

end Login

open Login

/-- What the server sends: its key, its encrypted signature and its certificate. -/
structure M3 where
  serverKey : Buffer
  cipherText : Buffer
  iv : Buffer
  certificate : Buffer

namespace M3

/-- A length as `serializeM3` writes it: a `size_t` that holds the length in network order. -/
def sizeField (order : ByteOrder) (n : Nat) : Buffer := sizeImage order (htonl order (wordOfSize n))

/-- What `deserializeM3` reads from such a field. -/
def ofSizeField (order : ByteOrder) (b : Buffer) : Nat :=
  ntohl order (wordOfSize (ofSizeImage order b))

/-- `serializeM3`: every part is copied at its greatest length. -/
def serialize (order : ByteOrder) (m : M3) : Member Buffer := do
  let behindKey ← Member.overrun
  let behindCipher ← Member.overrun
  let behindCertificate ← Member.overrun
  return fit maxEphemeralPublicKeySize (m.serverKey ++ behindKey) ++
    sizeField order m.serverKey.length ++
    fit encryptedSignatureSize (m.cipherText ++ behindCipher) ++ fit cbcIvLength m.iv ++
    sizeField order m.certificate.length ++
    fit maxCertificateSize (m.certificate ++ behindCertificate)

/-- `deserializeM3`: the key and the certificate are cut to the announced lengths. -/
def deserialize (order : ByteOrder) (input : Buffer) : Member M3 := do
  let key := input.take maxEphemeralPublicKeySize
  let input := input.drop maxEphemeralPublicKeySize
  let keySize := ofSizeField order (input.take sizeLength)
  let input := input.drop sizeLength
  let cipherText := input.take encryptedSignatureSize
  let input := input.drop encryptedSignatureSize
  let iv := input.take cbcIvLength
  let input := input.drop cbcIvLength
  let certificateSize := ofSizeField order (input.take sizeLength)
  let certificate := (input.drop sizeLength).take maxCertificateSize
  let behindKey ← Member.overrun
  let behindCertificate ← Member.overrun
  return {
    serverKey := fit keySize (key ++ behindKey)
    cipherText := cipherText
    iv := iv
    certificate := fit certificateSize (certificate ++ behindCertificate) }

end M3

namespace M4

/-- `serializeM4`. -/
def serialize (cipherText iv : Buffer) : Member Buffer := do
  let behindCipher ← Member.overrun
  return fit encryptedSignatureSize (cipherText ++ behindCipher) ++ fit cbcIvLength iv

/-- `deserializeM4`: the cipher text and the IV. -/
def deserialize (input : Buffer) : Buffer × Buffer :=
  (input.take encryptedSignatureSize, slice encryptedSignatureSize cbcIvLength input)

end M4

namespace Member

variable (P : Platform)

/-- `sendSize`, in the byte order of the host. -/
def sendSize (n : Nat) : Member Bool := sendData (sizeImage P.order n)

/-- `receiveSize`. -/
def receiveSize : Member (Option Nat) := do
  let received ← receiveData sizeLength
  return received.map (ofSizeImage P.order)

/-- Send, and return 0 where that fails. -/
def sent (r : Member Bool) : Member Unit := do
  let ok ← r
  Routine.require ok (.returned 0)

/-- `generateSessionKey`: the first half of the digest becomes the session key. -/
def generateSessionKey (digest : Buffer) : Member Unit := do
  let key := fit 16 digest
  Routine.modify fun s => { s with sessionKey := key }
  note (.derived key)

/-- `receiveEphemeralPublicKey`: the key and its serialized form. The key is `none` where it is not
    one, and all is `none` where the variable for it was not written. -/
def receiveEphemeralPublicKey : Member (Option (Option Pkey × Buffer)) := do
  match ← receiveSize P with
  | none => return none
  | some length => do
    note (.announced length)
    if maxEphemeralPublicKeySize < length then return none
    else do
      match ← receiveData length with
      | none => return none
      | some serialized => do
        let key : Option Pkey ← crypto (.deserializePublicKey serialized)
        return some (key, serialized)

end Member

/-! ## The worker -/

namespace Worker

open Member

variable (P : Platform)

/-- `Worker::login` up to the client's key: the user is known. -/
def receiveUsername : Member Unit := do
  let length ← expect (receiveSize P) 0
  Routine.require (decide (length ≤ Max.usernameLength)) (.returned 0)
  let name ← expect (receiveData length) 0
  Routine.modify fun s => { s with username := name }
  let usernameExists := decide (name ∈ usernameList)
  sent (sendSize P (if usernameExists then 1 else 0))
  Routine.require usernameExists (.returned 0)

/-- The client's key. Where it did not arrive, a pointer that was never set is freed. -/
def receiveClientKey : Member (Pkey × Buffer) := do
  match ← receiveEphemeralPublicKey P with
  | none => Routine.throw .undefined
  | some (none, _) => Routine.throw (.returned 0)
  | some (some key, serialized) => return (key, serialized)

/-- Derive the session key; the answer is the serialized key of the server. -/
def deriveKey (clientKey : Pkey) : Member Buffer := do
  let serverKey ← expect (crypto .ecdhKeyGeneration) 0
  let sServerKey ← expect (crypto (.serializePubKey serverKey)) 0
  let derived : Int × Buffer ← crypto (.deriveSharedSecret serverKey clientKey)
  Routine.require (derived.1 != 0) (.returned 0)
  let digest ← expect (crypto (.computeSHA256Digest derived.2)) 0
  generateSessionKey digest
  return sServerKey

/-- Sign the keys, and send the server's with the encrypted signature and the certificate. -/
def sendM3 (sServerKey concatenatedKeys : Buffer) : Member Unit := do
  let privateKey ← expect
    (crypto (.loadPrivateKey (ascii "../commons/server_private_key.pem") (ascii "root"))) 0
  let signature ← expect (crypto (.generateDigitalSignature concatenatedKeys privateKey)) 0
  let s ← Routine.get
  let (cipherText, iv) ← expect (crypto (.encryptTextAES signature s.sessionKey)) 0
  let certificate ← expect (crypto .serverCertificate) 0
  let message ← (M3.mk sServerKey cipherText iv certificate).serialize P.order
  sent (sendData message)

/-- Receive the client's signature and check it. -/
def checkM4 (concatenatedKeys : Buffer) : Member Unit := do
  let message ← expect (receiveData (encryptedSignatureSize + cbcIvLength)) 0
  let (cipherText, iv) := M4.deserialize message
  let s ← Routine.get
  let plaintext ← expect (crypto (.decryptTextAES cipherText s.sessionKey iv)) 0
  let publicKey ← expect
    (crypto (.loadPublicKey (ascii "../commons/" ++ s.username ++ ascii "/public.pem"))) 0
  let verified : Bool ← crypto (.verifyDigitalSignature concatenatedKeys plaintext publicKey)
  Routine.require verified (.returned 0)

/-- `Worker::login`. -/
def login : Member Int := do
  receiveUsername P
  let (clientKey, sClientKey) ← receiveClientKey P
  let sServerKey ← deriveKey clientKey
  let concatenatedKeys := sServerKey ++ sClientKey
  sendM3 P sServerKey concatenatedKeys
  checkM4 concatenatedKeys
  return 1

/-- `Worker::start`. No session handles more commands than its counter counts. -/
def start : Member Int := do
  let loggedIn ← returning (login P)
  if loggedIn = 0 then return 0 else commandLoop P (intMax + 2)

end Worker

/-! ## The client -/

namespace Client

open Member

variable (P : Platform)

/-- Read a line from the console that is not empty and not too long. -/
def readField (limit : Nat) : Member Buffer := do
  let (line, good) ← getline
  let field := line.getD []
  Routine.require (good && !field.isEmpty && decide (field.length ≤ limit)) (.returned 0)
  return field

/-- `Client::login` up to the answer to the username. -/
def sendUsername : Member Unit := do
  let username ← readField Max.usernameLength
  Routine.modify fun s => { s with username := username }
  sent (sendSize P username.length)
  sent (sendData username)
  let response ← expect (receiveSize P) 0
  Routine.require (response != 0) (.returned 0)

/-- Send an ephemeral key; the answer is the key and its serialized form. -/
def sendClientKey : Member (Pkey × Buffer) := do
  let clientKey ← expect (crypto .ecdhKeyGeneration) 0
  let sClientKey ← expect (crypto (.serializePubKey clientKey)) 0
  sent (sendSize P sClientKey.length)
  sent (sendData sClientKey)
  return (clientKey, sClientKey)

/-- Receive the server's message and check its certificate; the answer is the message and the
    certificate's key. -/
def receiveM3 : Member (M3 × Pkey) := do
  let message ← expect (receiveData lengthM3) 0
  let m ← M3.deserialize P.order message
  let serverPublicKey ← expect (crypto (.readCertificate m.certificate)) 0
  let trusted : Bool ← crypto (.verifyServerCertificate m.certificate)
  Routine.require trusted (.returned 0)
  Routine.require (decide (m.serverKey.length ≤ maxEphemeralPublicKeySize)) (.returned 0)
  return (m, serverPublicKey)

/-- Derive the session key. A derivation that fails returns 0, which is not the -1 it is compared
    with, so the client goes on with what is in the buffer. -/
def deriveKey (clientKey : Pkey) (sServerKey : Buffer) : Member Unit := do
  let serverKey ← expect (crypto (.deserializePublicKey sServerKey)) 0
  let derived : Int × Buffer ← crypto (.deriveSharedSecret clientKey serverKey)
  Routine.require (derived.1 != -1) (.returned 0)
  let digest ← expect (crypto (.computeSHA256Digest derived.2)) 0
  generateSessionKey digest

/-- Check the server's signature of the keys. -/
def checkM3 (m : M3) (serverPublicKey : Pkey) (concatenatedKeys : Buffer) : Member Unit := do
  let s ← Routine.get
  let plaintext ← expect (crypto (.decryptTextAES m.cipherText s.sessionKey m.iv)) 0
  let verified : Bool ← crypto (.verifyDigitalSignature concatenatedKeys plaintext serverPublicKey)
  Routine.require verified (.returned 0)

/-- Sign the keys and send the encrypted signature. -/
def sendM4 (privateKey : Pkey) (concatenatedKeys : Buffer) : Member Unit := do
  let signature ← expect (crypto (.generateDigitalSignature concatenatedKeys privateKey)) 0
  let s ← Routine.get
  let (cipherText, iv) ← expect (crypto (.encryptTextAES signature s.sessionKey)) 0
  let message ← M4.serialize cipherText iv
  sent (sendData message)

/-- `Client::login`, on a connected socket. -/
def login : Member Int := do
  sendUsername P
  let password ← readField Max.passwordLength
  let s ← Routine.get
  let privateKey ← expect
    (crypto (.loadPrivateKey (ascii "../commons/" ++ s.username ++ ascii "/key.pem") password)) 0
  let (clientKey, sClientKey) ← sendClientKey P
  let (m, serverPublicKey) ← receiveM3 P
  deriveKey clientKey m.serverKey
  let concatenatedKeys := m.serverKey ++ sClientKey
  checkM3 m serverPublicKey concatenatedKeys
  sendM4 privateKey concatenatedKeys
  return 1

/-- `Client::start`, for at most `bound` choices. -/
def start (bound : Nat) : Member Int := do
  let loggedIn ← returning (login P)
  if loggedIn = 0 then return 0 else menuLoop P bound []

end Client

end CloudStorage
