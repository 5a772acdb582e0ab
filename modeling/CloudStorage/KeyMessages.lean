import CloudStorage.Login
import CloudStorage.Memory.Reads

set_option autoImplicit false

/-! # The messages of the key exchange

`serializeM3`, `deserializeM3` and their counterparts for M4 as readers of the vectors that they copy
from. The key and the certificate are vectors of their own length and travel in slots of a fixed one;
both directions copy by lengths that nobody compares with the vectors. The calls of `Login` are these
readers, with the memory behind the vectors as the machine happens to have it. -/

namespace CloudStorage

open Interaction Login Memory Memory.Reader

/-! ## The readers -/

/-- The vectors that a message is copied from: the parts of a message to send, a received buffer, and
    the two temporary vectors of `deserializeM3`. -/
inductive Vector
  | serverKey
  | cipherText
  | iv
  | certificate
  | receivedBuffer
  | maxServerKey
  | maxCertificate
  deriving DecidableEq, Repr

/-- A function that copies from these vectors. -/
abbrev Copies (α : Type) : Type := Reader Vector UInt8 α

/-- `serializeM3`. The buffer to send is filled from its start to its end. -/
def serializeM3 (order : ByteOrder) (m : M3) : Copies Buffer := do
  let key ← read .serverKey m.serverKey 0 maxEphemeralPublicKeySize
  let cipherText ← read .cipherText m.cipherText 0 encryptedSignatureSize
  let iv ← read .iv m.iv 0 cbcIvLength
  let certificate ← read .certificate m.certificate 0 maxCertificateSize
  return key ++ M3.sizeField order m.serverKey.length ++ cipherText ++ iv ++
    M3.sizeField order m.certificate.length ++ certificate

/-- `deserializeM3` into empty vectors, as the client calls it. The key and the certificate are
    inserted at the announced lengths; the function always returns true. -/
def deserializeM3 (order : ByteOrder) (receivedBuffer : Buffer) : Copies (Bool × M3) := do
  let maxServerKey ← read .receivedBuffer receivedBuffer 0 maxEphemeralPublicKeySize
  let position := maxEphemeralPublicKeySize
  let networkKeySize ← read .receivedBuffer receivedBuffer position sizeLength
  let keySize := M3.ofSizeField order networkKeySize
  let position := position + sizeLength
  let cipherText ← read .receivedBuffer receivedBuffer position encryptedSignatureSize
  let position := position + encryptedSignatureSize
  let iv ← read .receivedBuffer receivedBuffer position cbcIvLength
  let position := position + cbcIvLength
  let networkCertSize ← read .receivedBuffer receivedBuffer position sizeLength
  let certSize := M3.ofSizeField order networkCertSize
  let position := position + sizeLength
  let maxCertificate ← read .receivedBuffer receivedBuffer position maxCertificateSize
  let serverKey ← read .maxServerKey maxServerKey 0 keySize
  let certificate ← read .maxCertificate maxCertificate 0 certSize
  return (true, ⟨serverKey, cipherText, iv, certificate⟩)

/-- `serializeM4`. -/
def serializeM4 (cipherText iv : Buffer) : Copies Buffer := do
  let cipherText ← read .cipherText cipherText 0 encryptedSignatureSize
  let iv ← read .iv iv 0 cbcIvLength
  return cipherText ++ iv

/-- `deserializeM4`. -/
def deserializeM4 (receivedBuffer : Buffer) : Copies (Buffer × Buffer) := do
  let cipherText ← read .receivedBuffer receivedBuffer 0 encryptedSignatureSize
  let iv ← read .receivedBuffer receivedBuffer encryptedSignatureSize cbcIvLength
  return (cipherText, iv)

/-! ## Where the fields lie -/

namespace M3

/-- The length that a message announces for its key. -/
def keySize (order : ByteOrder) (input : Buffer) : Nat :=
  ofSizeField order (slice maxEphemeralPublicKeySize sizeLength input)

/-- The place of the field for the length of the certificate. -/
def certSizeAt : Nat :=
  maxEphemeralPublicKeySize + sizeLength + encryptedSignatureSize + cbcIvLength

/-- The length that a message announces for its certificate. -/
def certSize (order : ByteOrder) (input : Buffer) : Nat :=
  ofSizeField order (slice certSizeAt sizeLength input)

/-- The slot of the key. -/
def keyField (input : Buffer) : Buffer := slice 0 maxEphemeralPublicKeySize input

/-- The slot of the certificate. -/
def certificateField (input : Buffer) : Buffer :=
  slice (certSizeAt + sizeLength) maxCertificateSize input

@[simp]
theorem length_sizeField (order : ByteOrder) (n : Nat) : (sizeField order n).length = sizeLength :=
  length_sizeImage _ _

/-- A length of 32 bits comes back: through `htonl`, a `size_t` and `ntohl`. -/
theorem ofSizeField_sizeField (order : ByteOrder) {n : Nat} (h : n < 4294967296) :
    ofSizeField order (sizeField order n) = n := by
  have hnet : htonl order (wordOfSize n) < 4294967296 := ofImage_lt order _
  have hword : wordOfSize n = n := Nat.mod_eq_of_lt h
  rw [ofSizeField, sizeField, ofSizeImage_sizeImage order (by omega), wordOfSize,
    Nat.mod_eq_of_lt hnet, hword, htonl, ntohl_ofImage _ (length_be32 n), ofBe32_be32 h]

end M3

theorem length_keyField {input : Buffer} (h : input.length = lengthM3) :
    (M3.keyField input).length = maxEphemeralPublicKeySize :=
  length_slice (by rw [h]; decide)

theorem length_certificateField {input : Buffer} (h : input.length = lengthM3) :
    (M3.certificateField input).length = maxCertificateSize :=
  length_slice (by rw [h]; decide)

section

variable (order : ByteOrder) {input : Buffer} (m : Behind Vector UInt8)

/-- What decoding a message of the right length yields. -/
theorem run_deserializeM3 (h : input.length = lengthM3) :
    (deserializeM3 order input).run m = (true,
      { serverKey := stretch (M3.keyField input) (m .maxServerKey) 0 (M3.keySize order input)
        cipherText := slice (maxEphemeralPublicKeySize + sizeLength) encryptedSignatureSize input
        iv := slice (maxEphemeralPublicKeySize + sizeLength + encryptedSignatureSize) cbcIvLength input
        certificate := stretch (M3.certificateField input) (m .maxCertificate) 0
          (M3.certSize order input) }) := by
  have hin : ∀ off n, off + n ≤ lengthM3 →
      stretch input (m .receivedBuffer) off n = slice off n input :=
    fun off n hle => stretch_of_le _ (by rw [h]; exact hle)
  simp only [deserializeM3, run_bind, run_read, run_pure]
  rw [hin 0 _ (by decide), hin _ _ (by decide), hin _ _ (by decide), hin _ _ (by decide),
    hin _ _ (by decide), hin _ _ (by decide)]
  rfl

/-- The ranges that it reads. -/
theorem reads_deserializeM3 (h : input.length = lengthM3) :
    (deserializeM3 order input).reads m =
      [⟨lengthM3, 0, 2048⟩, ⟨lengthM3, 2048, 2056⟩, ⟨lengthM3, 2056, 2328⟩, ⟨lengthM3, 2328, 2344⟩,
        ⟨lengthM3, 2344, 2352⟩, ⟨lengthM3, 2352, 7472⟩, ⟨2048, 0, M3.keySize order input⟩,
        ⟨5120, 0, M3.certSize order input⟩] := by
  have hin : ∀ off n, off + n ≤ lengthM3 →
      stretch input (m .receivedBuffer) off n = slice off n input :=
    fun off n hle => stretch_of_le _ (by rw [h]; exact hle)
  simp only [deserializeM3, reads_bind, reads_read, reads_pure, run_read, length_stretch, h]
  rw [hin _ sizeLength (by decide), hin _ sizeLength (by decide)]
  simp only [Nat.zero_add]
  rfl

/-! ## Round trips -/

theorem length_serializeM3 (m3 : M3) : ((serializeM3 order m3).run m).length = lengthM3 := by
  simp only [serializeM3, run_bind, run_read, run_pure, List.length_append, length_stretch,
    M3.length_sizeField]
  rfl

/-- A part of a message lies where the parts before it end. -/
theorem slice_parts {off n : Nat} {a b c message : Buffer} (hmessage : message = a ++ (b ++ c))
    (ha : a.length = off) (hb : b.length = n) : slice off n message = b := by
  rw [hmessage, ← List.append_assoc]
  exact slice_append ha hb

/-- The six parts of a message come back from their places. -/
theorem slice_serializeM3 (m3 : M3) {message : Buffer}
    (hmessage : message = (serializeM3 order m3).run m) :
    M3.keyField message = stretch m3.serverKey (m .serverKey) 0 maxEphemeralPublicKeySize ∧
      slice maxEphemeralPublicKeySize sizeLength message =
        M3.sizeField order m3.serverKey.length ∧
      slice (maxEphemeralPublicKeySize + sizeLength) encryptedSignatureSize message =
        stretch m3.cipherText (m .cipherText) 0 encryptedSignatureSize ∧
      slice (maxEphemeralPublicKeySize + sizeLength + encryptedSignatureSize) cbcIvLength message =
        stretch m3.iv (m .iv) 0 cbcIvLength ∧
      slice M3.certSizeAt sizeLength message = M3.sizeField order m3.certificate.length ∧
      M3.certificateField message =
        stretch m3.certificate (m .certificate) 0 maxCertificateSize := by
  replace hmessage : message = stretch m3.serverKey (m .serverKey) 0 maxEphemeralPublicKeySize ++
      (M3.sizeField order m3.serverKey.length ++
        (stretch m3.cipherText (m .cipherText) 0 encryptedSignatureSize ++
          (stretch m3.iv (m .iv) 0 cbcIvLength ++ (M3.sizeField order m3.certificate.length ++
            (stretch m3.certificate (m .certificate) 0 maxCertificateSize ++ []))))) := by
    simp [hmessage, serializeM3]
  have hkey := length_stretch m3.serverKey (m .serverKey) 0 maxEphemeralPublicKeySize
  have hcipher := length_stretch m3.cipherText (m .cipherText) 0 encryptedSignatureSize
  have hiv := length_stretch m3.iv (m .iv) 0 cbcIvLength
  have hcert := length_stretch m3.certificate (m .certificate) 0 maxCertificateSize
  have hkeySize := M3.length_sizeField order m3.serverKey.length
  have hcertSize := M3.length_sizeField order m3.certificate.length
  generalize stretch m3.serverKey (m .serverKey) 0 maxEphemeralPublicKeySize = key at *
  generalize stretch m3.cipherText (m .cipherText) 0 encryptedSignatureSize = cipherText at *
  generalize stretch m3.iv (m .iv) 0 cbcIvLength = iv at *
  generalize stretch m3.certificate (m .certificate) 0 maxCertificateSize = certificate at *
  generalize M3.sizeField order m3.serverKey.length = keySize at *
  generalize M3.sizeField order m3.certificate.length = certSize at *
  refine ⟨?_, ?_, ?_, ?_, ?_, ?_⟩
  · exact slice_parts (a := []) (by rw [hmessage, List.nil_append]) rfl hkey
  · exact slice_parts hmessage hkey hkeySize
  · rw [← List.append_assoc] at hmessage
    exact slice_parts hmessage (by rw [List.length_append, hkey, hkeySize]) hcipher
  · rw [← List.append_assoc, ← List.append_assoc] at hmessage
    exact slice_parts hmessage (by rw [List.length_append, List.length_append, hkey, hkeySize, hcipher])
      hiv
  · rw [← List.append_assoc, ← List.append_assoc, ← List.append_assoc] at hmessage
    refine slice_parts hmessage ?_ hcertSize
    rw [List.length_append, List.length_append, List.length_append, hkey, hkeySize, hcipher, hiv]
    rfl
  · rw [← List.append_assoc, ← List.append_assoc, ← List.append_assoc, ← List.append_assoc]
      at hmessage
    refine slice_parts hmessage ?_ hcert
    rw [List.length_append, List.length_append, List.length_append, List.length_append, hkey, hkeySize,
      hcipher, hiv, hcertSize]
    rfl

/-- The two announced lengths are those of the key and of the certificate. -/
theorem sizes_serializeM3 (m3 : M3) (hkey : m3.serverKey.length ≤ maxEphemeralPublicKeySize)
    (hcert : m3.certificate.length ≤ maxCertificateSize) :
    M3.keySize order ((serializeM3 order m3).run m) = m3.serverKey.length ∧
      M3.certSize order ((serializeM3 order m3).run m) = m3.certificate.length := by
  obtain ⟨-, hkeySize, -, -, hcertSize, -⟩ := slice_serializeM3 order m m3 rfl
  have hkeyLt : m3.serverKey.length < 4294967296 := Nat.lt_of_le_of_lt hkey (by decide)
  have hcertLt : m3.certificate.length < 4294967296 := Nat.lt_of_le_of_lt hcert (by decide)
  rw [M3.keySize, hkeySize, M3.certSize, hcertSize, M3.ofSizeField_sizeField order hkeyLt,
    M3.ofSizeField_sizeField order hcertLt]
  exact ⟨rfl, rfl⟩

/-- A message is decoded to what it was made of. -/
theorem run_deserializeM3_serializeM3 (m3 : M3) (m' : Behind Vector UInt8)
    (hkey : m3.serverKey.length ≤ maxEphemeralPublicKeySize)
    (hcipher : m3.cipherText.length = encryptedSignatureSize) (hiv : m3.iv.length = cbcIvLength)
    (hcert : m3.certificate.length ≤ maxCertificateSize) :
    (deserializeM3 order ((serializeM3 order m3).run m)).run m' = (true, m3) := by
  obtain ⟨hkeyField, -, hcipherField, hivField, -, hcertField⟩ := slice_serializeM3 order m m3 rfl
  obtain ⟨hkeySize, hcertSize⟩ := sizes_serializeM3 order m m3 hkey hcert
  rw [run_deserializeM3 order m' (length_serializeM3 order m m3), hkeyField, hkeySize, hcipherField,
    hivField, hcertSize, hcertField, stretch_stretch _ _ hkey, stretch_stretch _ _ hcert,
    stretch_self _ hcipher, stretch_self _ hiv]

/-- **M3 and M4 round-trip**, whatever lies behind the vectors on either side. -/
theorem key_messages_round_trip (m3 : M3) (m' : Behind Vector UInt8)
    (hkey : m3.serverKey.length ≤ maxEphemeralPublicKeySize)
    (hcipher : m3.cipherText.length = encryptedSignatureSize) (hiv : m3.iv.length = cbcIvLength)
    (hcert : m3.certificate.length ≤ maxCertificateSize) :
    ((serializeM3 order m3).run m).length = lengthM3 ∧
      (deserializeM3 order ((serializeM3 order m3).run m)).run m' = (true, m3) ∧
      ((serializeM4 m3.cipherText m3.iv).run m).length = encryptedSignatureSize + cbcIvLength ∧
      (deserializeM4 ((serializeM4 m3.cipherText m3.iv).run m)).run m' = (m3.cipherText, m3.iv) := by
  refine ⟨length_serializeM3 order m m3,
    run_deserializeM3_serializeM3 order m m3 m' hkey hcipher hiv hcert, ?_, ?_⟩
  · simp [serializeM4]
  · have hmessage : (serializeM4 m3.cipherText m3.iv).run m = [] ++ m3.cipherText ++ m3.iv := by
      simp [serializeM4, stretch_self _ hcipher, stretch_self _ hiv]
    simp only [deserializeM4, run_bind, run_read, run_pure, hmessage]
    rw [stretch_of_le _ (by simp [hcipher]), stretch_of_le _ (by simp [hcipher, hiv])]
    simp [← hcipher, ← hiv]

/-- A message with a key and a certificate of these lengths. -/
def M3.ofLengths (keyLength certLength : Nat) : M3 :=
  ⟨List.replicate keyLength 7, List.replicate encryptedSignatureSize 1, List.replicate cbcIvLength 2,
    List.replicate certLength 8⟩

/-- A key of one byte and a certificate of two, in the longest padding. -/
theorem key_messages_round_trip_short :
    (deserializeM3 .little ((serializeM3 .little (.ofLengths 1 2)).run fun _ _ => 255)).run
      (fun _ _ => 0) = (true, .ofLengths 1 2) :=
  (key_messages_round_trip .little _ (.ofLengths 1 2) _ (by decide) List.length_replicate
    List.length_replicate (by decide)).2.1

/-! ## Decoding -/

/-- What a decoder of messages from an unknown peer must guarantee of this input: it reads nothing
    outside its vectors, and unless it fails, the key and the certificate are beginnings of their slots
    of at most the greatest lengths. -/
structure DecodesSafely (input : Buffer) : Prop where
  safe : (deserializeM3 order input).Safe
  parts : ∀ m, ((deserializeM3 order input).run m).1 = false ∨
    (((deserializeM3 order input).run m).2.serverKey.length ≤ maxEphemeralPublicKeySize ∧
      ((deserializeM3 order input).run m).2.certificate.length ≤ maxCertificateSize ∧
      ((deserializeM3 order input).run m).2.serverKey <+: M3.keyField input ∧
      ((deserializeM3 order input).run m).2.certificate <+: M3.certificateField input)

theorem safe_deserializeM3_iff (h : input.length = lengthM3) :
    (deserializeM3 order input).Safe ↔ M3.keySize order input ≤ maxEphemeralPublicKeySize ∧
      M3.certSize order input ≤ maxCertificateSize := by
  constructor
  · intro hsafe
    have hreads := hsafe fun _ _ => 0
    rw [reads_deserializeM3 order _ h] at hreads
    exact ⟨hreads ⟨2048, 0, M3.keySize order input⟩ (by simp),
      hreads ⟨5120, 0, M3.certSize order input⟩ (by simp)⟩
  · rintro ⟨hkey, hcert⟩ m r hr
    rw [reads_deserializeM3 order m h] at hr
    simp only [List.mem_cons, List.not_mem_nil, or_false] at hr
    rcases hr with rfl | rfl | rfl | rfl | rfl | rfl | rfl | rfl
    · exact (by decide : 2048 ≤ lengthM3)
    · exact (by decide : 2056 ≤ lengthM3)
    · exact (by decide : 2328 ≤ lengthM3)
    · exact (by decide : 2344 ≤ lengthM3)
    · exact (by decide : 2352 ≤ lengthM3)
    · exact (by decide : 7472 ≤ lengthM3)
    · exact hkey
    · exact hcert

/-- **Decoding M3 is safe exactly where both announced lengths are within their slots.** -/
theorem decodes_safely_iff (h : input.length = lengthM3) :
    DecodesSafely order input ↔ M3.keySize order input ≤ maxEphemeralPublicKeySize ∧
      M3.certSize order input ≤ maxCertificateSize := by
  refine ⟨fun hsafe => (safe_deserializeM3_iff order h).1 hsafe.safe, fun hsizes =>
    ⟨(safe_deserializeM3_iff order h).2 hsizes, fun m => Or.inr ?_⟩⟩
  obtain ⟨hkey, hcert⟩ := hsizes
  have hkeyIn : 0 + M3.keySize order input ≤ (M3.keyField input).length := by
    rw [length_keyField h, Nat.zero_add]
    exact hkey
  have hcertIn : 0 + M3.certSize order input ≤ (M3.certificateField input).length := by
    rw [length_certificateField h, Nat.zero_add]
    exact hcert
  rw [run_deserializeM3 order m h, stretch_of_le _ hkeyIn, stretch_of_le _ hcertIn]
  refine ⟨?_, ?_, List.take_prefix .., List.take_prefix ..⟩
  · exact Nat.le_trans (List.length_take_le ..) hkey
  · exact Nat.le_trans (List.length_take_le ..) hcert

/-- A message that announces a length for its key, and none for its certificate. -/
def announcing (keySize : Nat) : Buffer :=
  List.replicate maxEphemeralPublicKeySize 0 ++ M3.sizeField .little keySize ++
    List.replicate 5416 0

theorem length_announcing (keySize : Nat) : (announcing keySize).length = lengthM3 := by
  simp only [announcing, List.length_append, List.length_replicate, M3.length_sizeField]
  rfl

theorem keySize_announcing {keySize : Nat} (h : keySize < 4294967296) :
    M3.keySize .little (announcing keySize) = keySize := by
  rw [M3.keySize, announcing, slice_append List.length_replicate (M3.length_sizeField ..),
    M3.ofSizeField_sizeField .little h]

/-- A message with a key of 178 bytes and a certificate of 1000 gives these two back. -/
theorem decodes_safely_honest :
    let message := (serializeM3 .little (.ofLengths 178 1000)).run fun _ _ => 0
    let decoded := ((deserializeM3 .little message).run fun _ _ => 255).2
    DecodesSafely .little message ∧ decoded.serverKey = List.replicate 178 7 ∧
      decoded.certificate = List.replicate 1000 8 := by
  intro message decoded
  have hkey : (M3.ofLengths 178 1000).serverKey.length ≤ maxEphemeralPublicKeySize :=
    List.length_replicate.trans_le (by decide)
  have hcert : (M3.ofLengths 178 1000).certificate.length ≤ maxCertificateSize :=
    List.length_replicate.trans_le (by decide)
  obtain ⟨hkeySize, hcertSize⟩ := sizes_serializeM3 .little (fun _ _ => 0) _ hkey hcert
  have hdecoded : decoded = .ofLengths 178 1000 := congrArg Prod.snd
    (run_deserializeM3_serializeM3 .little (fun _ _ => 0) (.ofLengths 178 1000) (fun _ _ => 255) hkey
      List.length_replicate List.length_replicate hcert)
  rw [hdecoded]
  exact ⟨(decodes_safely_iff .little (length_serializeM3 ..)).2
    ⟨hkeySize.trans_le hkey, hcertSize.trans_le hcert⟩, rfl, rfl⟩

/-- One byte more, and it is read from behind the temporary vector. -/
theorem decoding_reads_past_key :
    ¬∀ order input, input.length = lengthM3 → DecodesSafely order input := by
  intro hall
  have hsafe := (hall .little (announcing 2049) (length_announcing 2049)).safe
  have hkey := ((safe_deserializeM3_iff .little (length_announcing 2049)).1 hsafe).1
  rw [keySize_announcing (by decide)] at hkey
  exact absurd hkey (by decide)

/-! ## Disclosure -/

theorem safe_serializeM3_iff (m3 : M3) :
    (serializeM3 order m3).Safe ↔ maxEphemeralPublicKeySize ≤ m3.serverKey.length ∧
      encryptedSignatureSize ≤ m3.cipherText.length ∧ cbcIvLength ≤ m3.iv.length ∧
      maxCertificateSize ≤ m3.certificate.length := by
  simp [Safe, serializeM3, Range.Inside]

instance nontrivial_uint8 : Nontrivial UInt8 := ⟨0, 1, by decide⟩

/-- Two messages that agree agree in the slots of the key and of the certificate. -/
theorem stretch_eq_of_run_eq {m3 : M3} {m m' : Behind Vector UInt8}
    (h : (serializeM3 order m3).run m = (serializeM3 order m3).run m') :
    stretch m3.serverKey (m .serverKey) 0 maxEphemeralPublicKeySize =
        stretch m3.serverKey (m' .serverKey) 0 maxEphemeralPublicKeySize ∧
      stretch m3.certificate (m .certificate) 0 maxCertificateSize =
        stretch m3.certificate (m' .certificate) 0 maxCertificateSize := by
  obtain ⟨hkey, -, -, -, -, hcert⟩ := slice_serializeM3 order m m3 rfl
  obtain ⟨hkey', -, -, -, -, hcert'⟩ := slice_serializeM3 order m' m3 rfl
  exact ⟨by rw [← hkey, ← hkey', h], by rw [← hcert, ← hcert', h]⟩

/-- **M3 shows its arguments alone exactly where the key and the certificate fill their slots.** -/
theorem discloses_arguments_iff (m3 : M3)
    (hkey : m3.serverKey.length ≤ maxEphemeralPublicKeySize)
    (hcipher : m3.cipherText.length = encryptedSignatureSize) (hiv : m3.iv.length = cbcIvLength)
    (hcert : m3.certificate.length ≤ maxCertificateSize) :
    ((serializeM3 order m3).Safe ↔ m3.serverKey.length = maxEphemeralPublicKeySize ∧
        m3.certificate.length = maxCertificateSize) ∧
      ((serializeM3 order m3).Discreet ↔ m3.serverKey.length = maxEphemeralPublicKeySize ∧
        m3.certificate.length = maxCertificateSize) := by
  have hsafe : (serializeM3 order m3).Safe ↔ m3.serverKey.length = maxEphemeralPublicKeySize ∧
      m3.certificate.length = maxCertificateSize := by
    rw [safe_serializeM3_iff]
    constructor
    · rintro ⟨hk, -, -, hc⟩
      exact ⟨Nat.le_antisymm hkey hk, Nat.le_antisymm hcert hc⟩
    · rintro ⟨hk, hc⟩
      exact ⟨Nat.le_of_eq hk.symm, Nat.le_of_eq hcipher.symm, Nat.le_of_eq hiv.symm,
        Nat.le_of_eq hc.symm⟩
  refine ⟨hsafe, fun hdiscreet => ⟨?_, ?_⟩, fun hfull => (hsafe.2 hfull).discreet⟩
  · by_contra hne
    obtain ⟨a, b, hab⟩ := stretch_ne m3.serverKey 0 maxEphemeralPublicKeySize
      (by omega) (by decide)
    exact hab (stretch_eq_of_run_eq order (hdiscreet (fun _ => a) fun _ => b)).1
  · by_contra hne
    obtain ⟨a, b, hab⟩ := stretch_ne m3.certificate 0 maxCertificateSize
      (by omega) (by decide)
    exact hab (stretch_eq_of_run_eq order (hdiscreet (fun _ => a) fun _ => b)).2

/-- A key and a certificate that fill their slots. -/
theorem discloses_arguments_full : (serializeM3 .little (.ofLengths 2048 5120)).Discreet :=
  (discloses_arguments_iff .little (.ofLengths 2048 5120) (Nat.le_of_eq List.length_replicate)
    List.length_replicate List.length_replicate (Nat.le_of_eq List.length_replicate)).2.2
    ⟨List.length_replicate, List.length_replicate⟩

/-- A key of 178 bytes and a certificate of 1000: what lies behind the key goes to the peer. -/
theorem m3_discloses_memory :
    ¬∀ order (m3 : M3), 1 ≤ m3.serverKey.length → m3.serverKey.length ≤ maxEphemeralPublicKeySize →
      m3.cipherText.length = encryptedSignatureSize → m3.iv.length = cbcIvLength →
      1 ≤ m3.certificate.length → m3.certificate.length ≤ maxCertificateSize →
      (serializeM3 order m3).Discreet := by
  intro hall
  have hkey : (M3.ofLengths 178 1000).serverKey.length = 178 := List.length_replicate
  have hcert : (M3.ofLengths 178 1000).certificate.length = 1000 := List.length_replicate
  have hdiscreet := hall .little (.ofLengths 178 1000) (by omega)
    (hkey.trans_le (by decide)) List.length_replicate List.length_replicate (by omega)
    (hcert.trans_le (by decide))
  obtain ⟨a, b, hab⟩ := stretch_ne (M3.ofLengths 178 1000).serverKey 0
    maxEphemeralPublicKeySize (hkey.trans_lt (by decide)) (by decide)
  exact hab (stretch_eq_of_run_eq .little (hdiscreet (fun _ => a) fun _ => b)).1

/-! ## The calls of the login -/

theorem getElem_fit {n : Nat} {b : Buffer} {k : Nat} (h : k < (fit n b).length) :
    (fit n b)[k] = b.getD k 0 := by
  have hn : k < n := by simpa using h
  by_cases hb : k < b.length
  · simp [fit, hb, hn]
  · rw [List.getD_eq_default _ _ (by omega)]
    simp [fit, List.getElem_append, hb]

/-- A vector copied at another length, with what lies behind it. -/
theorem fit_append_eq_stretch (n : Nat) (v beyond : Buffer) :
    fit n (v ++ beyond) = stretch v (fun k => beyond.getD k 0) 0 n := by
  apply List.ext_getElem
  · simp
  · intro k hk _
    rw [getElem_fit, getElem_stretch, Nat.zero_add]
    by_cases hv : k < v.length
    · rw [List.getD_append _ _ _ _ hv]
      simp [hv]
    · rw [List.getD_append_right _ _ _ _ (by omega)]
      exact (List.getD_eq_default _ _ (by omega)).symm

/-- The memory behind the parts of a message to send. -/
def behindSent (behindKey behindCipher behindCertificate : Buffer) : Behind Vector UInt8
  | .serverKey => fun k => behindKey.getD k 0
  | .cipherText => fun k => behindCipher.getD k 0
  | .certificate => fun k => behindCertificate.getD k 0
  | _ => fun _ => 0

/-- The memory behind the temporary vectors of `deserializeM3`. -/
def behindReceived (behindKey behindCertificate : Buffer) : Behind Vector UInt8
  | .maxServerKey => fun k => behindKey.getD k 0
  | .maxCertificate => fun k => behindCertificate.getD k 0
  | _ => fun _ => 0

/-- What the worker sends is what the reader yields. -/
theorem M3.serialize_eq {m3 : M3} (hiv : m3.iv.length = cbcIvLength) :
    M3.serialize order m3 = do
      let behindKey ← Member.overrun
      let behindCipher ← Member.overrun
      let behindCertificate ← Member.overrun
      return (serializeM3 order m3).run (behindSent behindKey behindCipher behindCertificate) := by
  simp only [M3.serialize, fit_append_eq_stretch, fit_of_length hiv]
  simp only [serializeM3, run_bind, run_read, run_pure, stretch_self _ hiv]
  rfl

/-- What the client decodes is what the reader yields. -/
theorem M3.deserialize_eq (h : input.length = lengthM3) :
    M3.deserialize order input = do
      let behindKey ← Member.overrun
      let behindCertificate ← Member.overrun
      return ((deserializeM3 order input).run (behindReceived behindKey behindCertificate)).2 := by
  simp only [M3.deserialize, fit_append_eq_stretch, List.drop_drop]
  simp only [run_deserializeM3 order _ h]
  rfl

end

end CloudStorage
