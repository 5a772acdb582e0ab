import CloudStorage.Login
import CloudStorage.Cipher.Cbc

set_option autoImplicit false

/-! # AES-CBC

`encryptTextAES` and `decryptTextAES` of `crypto.cpp`, over any block cipher in CBC mode with PKCS#7
padding. The ciphertext is written into a buffer that was sized before the padding was known and is
handed on as long as it was sized: one block longer than the plaintext. That is the ciphertext's length
exactly for plaintexts of full blocks; behind every other ciphertext there are bytes that are not of it,
and `decryptTextAES` takes the whole buffer. -/

namespace CloudStorage

open Cipher Cipher.BlockCipher Login

/-- AES-128, with the block length in bytes. -/
abbrev Aes : Type := BlockCipher Buffer UInt8 cbcIvLength

/-- A cipher that hides nothing: the laws hold of it. -/
def Aes.plain : Aes where
  encrypt _ b := b
  decrypt _ b := b
  xor a b := a ^^^ b
  mark := UInt8.ofNat
  count := UInt8.toNat
  pos := by decide
  length_encrypt _ _ h := h
  length_decrypt _ _ h := h
  decrypt_encrypt _ _ _ := rfl
  xor_xor a b := by rw [UInt8.xor_assoc, UInt8.xor_self, UInt8.xor_zero]
  count_mark p hp := by
    unfold cbcIvLength at hp
    rw [UInt8.toNat_ofNat']
    omega

/-- Copy `data` over the bytes of a buffer from place `off` on. -/
def overwrite (off : Nat) (data buf : Buffer) : Buffer :=
  buf.take off ++ data ++ buf.drop (off + data.length)

/-- `encryptTextAES` with what `RAND_bytes` yields: the ciphertext buffer, which held `cphrBuf` before,
    and the IV. -/
def encryptTextAES (C : Aes) (random : Option Buffer) (clearBuf sessionKey cphrBuf : Buffer) :
    Option (Buffer × Buffer) :=
  match random with
  | none => none
  | some bytes =>
    let iv := fit cbcIvLength bytes
    if intMax - cbcIvLength < clearBuf.length then none
    else
      let encBufferSize := clearBuf.length + cbcIvLength
      let cphrBuf := fit encBufferSize cphrBuf
      let (out, ctx) := C.encryptUpdate sessionKey (init iv) clearBuf
      let cphrBuf := overwrite 0 out cphrBuf
      let totalLen := out.length
      let cphrBuf := overwrite totalLen (C.encryptFinal sessionKey ctx) cphrBuf
      some (cphrBuf, iv)

/-- `decryptTextAES`: the plaintext in a buffer that held `clearBuf` before. -/
def decryptTextAES (C : Aes) (cphrBuf sessionKey iv clearBuf : Buffer) : Option Buffer :=
  let clearBuf := fit cphrBuf.length clearBuf
  let (out, ctx) := C.decryptUpdate sessionKey (init iv) cphrBuf
  let clearBuf := overwrite 0 out clearBuf
  match C.decryptFinal sessionKey ctx with
  | none => none
  | some last =>
    let totalLen := out.length + last.length
    let clearBuf := overwrite out.length last clearBuf
    some (clearBuf.take totalLen)

/-- The bytes of the ciphertext of a plaintext of `n` bytes. -/
def cphrSize (n : Nat) : Nat := (n / cbcIvLength + 1) * cbcIvLength

/-! ## What the two functions compute -/

variable {C : Aes} {clearBuf sessionKey : Buffer}

/-- One piece written behind another. -/
theorem overwrite_overwrite (out last buf : Buffer) :
    overwrite out.length last (overwrite 0 out buf) =
      out ++ last ++ buf.drop (out.length + last.length) := by
  simp [overwrite, List.drop_append, List.drop_drop]

/-- The buffer that is handed on: the ciphertext, and what is left of the buffer behind it. -/
theorem encryptTextAES_eq (bytes cphrBuf : Buffer) (h : clearBuf.length ≤ intMax - cbcIvLength) :
    encryptTextAES C (some bytes) clearBuf sessionKey cphrBuf =
      some (C.seal sessionKey (fit cbcIvLength bytes) clearBuf ++
        (fit (clearBuf.length + cbcIvLength) cphrBuf).drop (cphrSize clearBuf.length),
        fit cbcIvLength bytes) := by
  have hlen := length_seal (C := C) (k := sessionKey) (length_fit cbcIvLength bytes) clearBuf
  have hseal := encryptUpdate_append_final (C := C) (k := sessionKey) (v := fit cbcIvLength bytes)
    clearBuf
  rw [← hseal, List.length_append] at hlen
  rw [encryptTextAES, if_neg (by omega)]
  dsimp only
  rw [overwrite_overwrite, hlen, hseal]
  rfl

/-- The plaintext is cut out of its buffer: what was in it before does not matter. -/
theorem decryptTextAES_eq (cphrBuf iv clearBuf : Buffer) :
    decryptTextAES C cphrBuf sessionKey iv clearBuf = C.open sessionKey iv cphrBuf := by
  unfold decryptTextAES «open»
  dsimp only
  cases C.decryptFinal sessionKey (C.decryptUpdate sessionKey (init iv) cphrBuf).2 with
  | none => rfl
  | some last =>
      dsimp only
      rw [overwrite_overwrite, ← List.length_append, List.take_left]
      rfl

/-- How much of the buffer is not ciphertext. -/
theorem length_rest (n : Nat) (cphrBuf : Buffer) :
    ((fit (n + cbcIvLength) cphrBuf).drop (cphrSize n)).length = n % cbcIvLength := by
  rw [List.length_drop, length_fit, cphrSize, cbcIvLength]
  omega

/-! ## The round trip -/

/-- Whatever is encrypted is a ciphertext of its own length and decrypts to the plaintext. -/
def CbcRoundTrips (C : Aes) (sessionKey clearBuf : Buffer) : Prop :=
  ∀ random cphrBuf clearBuf' cphr iv,
    encryptTextAES C random clearBuf sessionKey cphrBuf = some (cphr, iv) →
      cphr.length = cphrSize clearBuf.length ∧
        decryptTextAES C cphr sessionKey iv clearBuf' = some clearBuf

/-- A plaintext of full blocks fills the buffer. -/
theorem round_trip_of_dvd (C : Aes) (sessionKey : Buffer) (hdvd : cbcIvLength ∣ clearBuf.length) :
    CbcRoundTrips C sessionKey clearBuf := by
  intro random cphrBuf clearBuf' cphr iv henc
  have hlen : clearBuf.length ≤ intMax - cbcIvLength := by
    by_contra hlong
    cases random with
    | none => cases henc
    | some bytes =>
        rw [encryptTextAES, if_pos (by omega)] at henc
        cases henc
  cases random with
  | none => cases henc
  | some bytes =>
      have hrest : (fit (clearBuf.length + cbcIvLength) cphrBuf).drop (cphrSize clearBuf.length) = [] := by
        rw [← List.length_eq_zero_iff, length_rest]
        exact Nat.mod_eq_zero_of_dvd hdvd
      rw [encryptTextAES_eq bytes cphrBuf hlen, hrest, List.append_nil] at henc
      cases henc
      refine ⟨length_seal (length_fit _ _) _, ?_⟩
      rw [decryptTextAES_eq, open_seal (length_fit _ _)]

/-- Behind every other ciphertext there are bytes that keep it from decrypting. -/
theorem decrypts_to_none (C : Aes) (sessionKey bytes cphrBuf clearBuf' : Buffer)
    (h : clearBuf.length ≤ intMax - cbcIvLength) (hdvd : ¬cbcIvLength ∣ clearBuf.length) :
    ∃ cphr, encryptTextAES C (some bytes) clearBuf sessionKey cphrBuf =
        some (cphr, fit cbcIvLength bytes) ∧
      decryptTextAES C cphr sessionKey (fit cbcIvLength bytes) clearBuf' = none := by
  refine ⟨_, encryptTextAES_eq bytes cphrBuf h, ?_⟩
  have hmod : clearBuf.length % cbcIvLength ≠ 0 := fun heq => hdvd (Nat.dvd_of_mod_eq_zero heq)
  rw [decryptTextAES_eq]
  refine open_eq_none ?_
  rw [List.length_append, length_seal (length_fit _ _), length_rest, Nat.mul_add_mod_self_right,
    Nat.mod_mod]
  exact hmod

/-- **Decryption undoes encryption exactly for plaintexts of full blocks.** -/
theorem cbc_round_trips_iff (C : Aes) (sessionKey clearBuf : Buffer)
    (h : clearBuf.length ≤ intMax - cbcIvLength) :
    CbcRoundTrips C sessionKey clearBuf ↔ cbcIvLength ∣ clearBuf.length := by
  refine ⟨fun hround => ?_, round_trip_of_dvd C sessionKey⟩
  by_contra hdvd
  obtain ⟨cphr, henc, hdec⟩ := decrypts_to_none C sessionKey [] [] [] h hdvd
  have hback := (hround (some []) [] [] cphr _ henc).2
  rw [hdec] at hback
  cases hback

/-- A signature of 256 bytes. -/
theorem cbc_round_trips_signature :
    CbcRoundTrips .plain (List.replicate 16 1) (List.replicate 256 7) :=
  (cbc_round_trips_iff .plain (List.replicate 16 1) (List.replicate 256 7)
    (List.length_replicate.trans_le (by decide))).2 (by rw [List.length_replicate]; decide)

/-- A plaintext of one byte is encrypted and does not come back. -/
theorem one_byte_does_not_decrypt :
    ¬∀ (C : Aes) (sessionKey clearBuf : Buffer), sessionKey.length = 16 →
      clearBuf.length ≤ intMax - cbcIvLength → CbcRoundTrips C sessionKey clearBuf := by
  intro hall
  have hround := hall .plain (List.replicate 16 1) [7] rfl (by decide)
  obtain ⟨cphr, henc, hdec⟩ := decrypts_to_none .plain (List.replicate 16 1) [] [] []
    (show ([7] : Buffer).length ≤ _ by decide) (by decide)
  have hback := (hround (some []) [] [] cphr _ henc).2
  rw [hdec] at hback
  cases hback

/-! ## The calls of the login -/

/-- The answers that these functions give to the calls of the login. -/
def AnsweredBy (C : Aes) : (c : CryptoCall) → c.Ans → Prop
  | .encryptTextAES clear key, a => ∃ random, a = encryptTextAES C random clear key []
  | .decryptTextAES cipher key iv, a => a = decryptTextAES C cipher key iv []
  | _, _ => True

/-- The signature of a 2048-bit key fills its slot in the message and comes back from it. -/
theorem signature_arrives {signature key cipherText iv : Buffer} (hsig : signature.length = 256)
    (henc : AnsweredBy C (.encryptTextAES signature key) (some (cipherText, iv) : Option (Buffer × Buffer))) :
    cipherText.length = encryptedSignatureSize ∧ iv.length = cbcIvLength ∧
      ∀ a : Option Buffer, AnsweredBy C (.decryptTextAES cipherText key iv) a → a = some signature := by
  obtain ⟨random, hrandom⟩ := henc
  have hdvd : cbcIvLength ∣ signature.length := by
    rw [hsig]
    decide
  obtain ⟨hlen, hdec⟩ := round_trip_of_dvd C key hdvd random [] [] cipherText iv
    hrandom.symm
  refine ⟨by rw [hlen, hsig]; decide, ?_, fun a ha => ha.trans hdec⟩
  cases random with
  | none => cases hrandom
  | some bytes =>
      unfold encryptTextAES at hrandom
      split_ifs at hrandom
      cases hrandom
      exact length_fit _ _

end CloudStorage
