import CloudStorage.AesCcm
import CloudStorage.KeyMessages
import CloudStorage.Wrapper

set_option autoImplicit false

/-! # Hosts of different byte orders

What the wire format owes to the byte order of the host. The counter field of a frame goes through one
`htonl` and is canonical. `createAAD` applies `htonl` once more to a counter that is in network order
already, so the counter is authenticated as the host keeps it; and a length in M3 is a word in network
order that is copied as a `size_t`, whose other half comes before it or behind it. -/

namespace CloudStorage

open Interaction Memory Memory.Reader Login

/-! ## Words -/

/-- A word that is swapped once too often is written as the host keeps it. -/
theorem be32_htonl (order : ByteOrder) (w : Nat) : be32 (htonl order w) = image order w := by
  cases order with
  | little => exact be32_ofBe32 (b := (be32 w).reverse) rfl
  | big => exact be32_ofBe32 (b := be32 w) rfl

theorem little_add (n m w : Nat) : little (n + m) w = little n w ++ little m (w / 256 ^ n) := by
  induction n generalizing w with
  | zero => simp [little]
  | succ n ih =>
      have hdiv : w / 256 / 256 ^ n = w / 256 ^ (n + 1) := by
        rw [Nat.div_div_eq_div_mul, Nat.pow_succ']
      rw [Nat.add_right_comm, little, ih, hdiv]
      rfl

theorem little_zero (n : Nat) : little n 0 = List.replicate n 0 := by
  induction n with
  | zero => rfl
  | succ n ih => simp [little, ih, List.replicate_succ]

theorem little_four (w : Nat) : little 4 w = image .little w := by
  simp [little, image, be32, Nat.div_div_eq_div_mul]

/-- Four bytes in the half of a `size_t` that a host keeps the low bytes in. -/
def inLowHalf (order : ByteOrder) (word : Buffer) : Buffer :=
  match order with
  | .little => word ++ List.replicate 4 0
  | .big => List.replicate 4 0 ++ word

/-- A word in a `size_t`. -/
theorem sizeImage_word (order : ByteOrder) {w : Nat} (h : w < 4294967296) :
    sizeImage order w = inLowHalf order (image order w) := by
  have hword : little 8 w = image .little w ++ List.replicate 4 0 := by
    rw [little_add 4 4, little_four, Nat.div_eq_of_lt (by simpa using h), little_zero]
  cases order with
  | little => exact hword
  | big =>
      rw [sizeImage, hword, List.reverse_append]
      simp [image, inLowHalf]

/-- A length in M3 is in network order, in the low half of the host. -/
theorem M3.sizeField_eq (order : ByteOrder) (n : Nat) :
    M3.sizeField order n = inLowHalf order (be32 (wordOfSize n)) := by
  have hnet : htonl order (wordOfSize n) < 4294967296 := ofImage_lt order _
  rw [M3.sizeField, sizeImage_word order hnet, image_htonl]

/-! ## Frames -/

/-- The same cipher on a host of another byte order. -/
def Platform.on (P : Platform) (order : ByteOrder) : Platform := { P with order := order }

/-- The four bytes of the counter read the same from either end. -/
def Mirrored (counter : Int) : Prop :=
  wordOfInt counter / 16777216 = wordOfInt counter % 256 ∧
    wordOfInt counter / 65536 % 256 = wordOfInt counter / 256 % 256

instance (counter : Int) : Decidable (Mirrored counter) := inferInstanceAs (Decidable (_ ∧ _))

theorem mirrored_iff {counter : Int} :
    Mirrored counter ↔ image .little (wordOfInt counter) = image .big (wordOfInt counter) := by
  have hlt := wordOfInt_lt counter
  unfold Mirrored
  simp only [image, be32, List.reverse_cons, List.reverse_nil, List.nil_append, List.cons_append,
    List.cons.injEq, and_true, ← UInt8.toNat_inj, UInt8.toNat_ofNat']
  omega

namespace Wrapper

variable {P : Platform} {key iv payload wrapper : Buffer} {counter : Int}

/-- What `createAAD` makes in `serialize`: the counter is in the order of the host. -/
theorem createAAD_htonl (order : ByteOrder) (w : Nat) (iv : Buffer) :
    createAAD order (htonl order w) iv = iv ++ image order w := by
  rw [createAAD, image_htonl, be32_htonl]

/-- Only the additional data depends on the host. -/
theorem frame_on (order : ByteOrder) : frame (P.on order) key iv counter payload =
    (encryptAesCcm P key iv (iv ++ image order (wordOfInt counter)) payload).map fun parts =>
      iv ++ be32 (wordOfInt counter) ++ parts.1 ++ parts.2 := by
  have haad : createAAD (P.on order).order (htonl (P.on order).order (wordOfInt counter)) iv =
      iv ++ image order (wordOfInt counter) := createAAD_htonl order _ iv
  have hcipher : ∀ aad, encryptAesCcm (P.on order) key iv aad payload =
      encryptAesCcm P key iv aad payload := fun _ => rfl
  rw [frame]
  simp only [haad, hcipher, image_htonl]

/-- Without a frame `Wrapper::serialize` returns the empty buffer. -/
theorem run_serialize_none (hframe : frame P key iv counter payload = none) (hiv : iv.length = ivLength)
    (x : Session) (h : Host) : Host.run [.deliver iv, .calm] (serialize P key counter payload x, h) =
      (.ret (.ok [], x), h) := by
  have hrandom : (Host.answer (.deliver iv) h (.sys (.random ivLength))).1 = some iv :=
    congrArg some (fit_of_length hiv)
  show Host.run [.calm] (Program.bind _ _, h) = _
  rw [hrandom]
  simp only [Program.bind, hframe]
  rfl

/-- `Wrapper::serialize` returns a frame exactly if one is made with its IV. -/
theorem serializes_iff (hiv : iv.length = ivLength) :
    Serializes P key counter payload iv wrapper ↔ frame P key iv counter payload = some wrapper := by
  constructor
  · intro h
    let x : Session := .start [] []
    let g : Host := .start .root ⟨[], false, false⟩
    have hrun := h x g
    cases hframe : frame P key iv counter payload with
    | some wrapper' =>
        rw [serializes_of_frame hiv hframe x g] at hrun
        simp only [Prod.mk.injEq, Program.ret.injEq, Except.ok.injEq] at hrun
        rw [hrun.1.1]
    | none =>
        rw [run_serialize_none hframe hiv] at hrun
        have hnotes := congrArg (fun c => c.2.notes.length) hrun
        simp [Host.noted] at hnotes
  · exact serializes_of_frame hiv

/-- The frame of a payload with the data that it is authenticated with, on hosts of any byte order:
    all make the same one, and each opens the frames of the others. -/
structure SameFrame (P : Platform) (key iv : Buffer) (counter : Int) (payload : Buffer) : Prop where
  aad : ∀ order order' : ByteOrder, createAAD order (htonl order (wordOfInt counter)) iv =
    createAAD order' (htonl order' (wordOfInt counter)) iv
  wrapper : ∀ (order order' : ByteOrder) (w : Buffer), Serializes (P.on order) key counter payload iv w ↔
    Serializes (P.on order') key counter payload iv w
  accepted : ∀ (order order' : ByteOrder) (w : Buffer), Serializes (P.on order) key counter payload iv w →
    Deserializes (P.on order') key w counter payload

/-- **Hosts agree on a frame exactly if its counter is mirrored.** -/
theorem sameFrame_iff (hlow : -2147483648 ≤ counter) (hhigh : counter ≤ intMax)
    (hiv : iv.length = ivLength) : SameFrame P key iv counter payload ↔ Mirrored counter := by
  constructor
  · intro hsame
    have haad := hsame.aad .little .big
    rw [createAAD_htonl, createAAD_htonl] at haad
    exact mirrored_iff.2 (List.append_cancel_left haad)
  · intro hmirrored
    have himage : ∀ order order' : ByteOrder,
        image order (wordOfInt counter) = image order' (wordOfInt counter) := by
      intro order order'
      have heq := mirrored_iff.1 hmirrored
      cases order <;> cases order' <;> simp [heq]
    have hframe : ∀ order order' : ByteOrder,
        frame (P.on order) key iv counter payload = frame (P.on order') key iv counter payload := by
      intro order order'
      rw [frame_on, frame_on, himage order order']
    have hwrapper : ∀ (order order' : ByteOrder) (w : Buffer),
        Serializes (P.on order) key counter payload iv w ↔
          Serializes (P.on order') key counter payload iv w := by
      intro order order' w
      rw [serializes_iff hiv, serializes_iff hiv, hframe order order']
    refine ⟨?_, hwrapper, ?_⟩
    · intro order order'
      rw [createAAD_htonl, createAAD_htonl, himage order order']
    · intro order order' w hw
      have hframe' := (serializes_iff hiv).1 ((hwrapper order order' w).1 hw)
      have hlen := length_frame hiv hframe'
      apply (deserializes_iff (by omega)).2
      refine ⟨openFrame_frame hiv hframe', ?_⟩
      rw [counterOf, counterWord_frame hiv hframe', ntohl_ofImage _ rfl, ofBe32_be32 (wordOfInt_lt _),
        intOfWord_wordOfInt_of_le hlow hhigh]

end Wrapper

/-! ## M3 -/

/-- The fields for a length are the same exactly if there is nothing in them. -/
theorem M3.sizeField_same_iff {n : Nat} :
    M3.sizeField .little n = M3.sizeField .big n ↔ wordOfSize n = 0 := by
  have hword : wordOfSize n < 4294967296 := Nat.mod_lt _ (by decide)
  rw [M3.sizeField_eq, M3.sizeField_eq, inLowHalf, inLowHalf]
  constructor
  · intro h
    have hbytes : be32 (wordOfSize n) = List.replicate 4 0 := (List.append_inj h rfl).1
    rw [← ofBe32_be32 hword, hbytes]
    rfl
  · intro h
    rw [h]
    rfl

variable {m3 : M3}

/-- The length fields of M3 on hosts of any byte order, and what they read from each other. -/
structure SameM3 (m3 : M3) : Prop where
  keySize : ∀ (order order' : ByteOrder) (m : Behind Vector UInt8),
    slice maxEphemeralPublicKeySize sizeLength ((serializeM3 order m3).run m) =
      slice maxEphemeralPublicKeySize sizeLength ((serializeM3 order' m3).run m)
  certSize : ∀ (order order' : ByteOrder) (m : Behind Vector UInt8),
    slice M3.certSizeAt sizeLength ((serializeM3 order m3).run m) =
      slice M3.certSizeAt sizeLength ((serializeM3 order' m3).run m)
  accepted : ∀ (order order' : ByteOrder) (m m' : Behind Vector UInt8),
    (deserializeM3 order' ((serializeM3 order m3).run m)).run m' = (true, m3)

/-- **Hosts agree on M3 exactly if there is no key and no certificate in it.** -/
theorem sameM3_iff (hkey : m3.serverKey.length ≤ maxEphemeralPublicKeySize)
    (hcipher : m3.cipherText.length = encryptedSignatureSize) (hiv : m3.iv.length = cbcIvLength)
    (hcert : m3.certificate.length ≤ maxCertificateSize) :
    SameM3 m3 ↔ m3.serverKey.length = 0 ∧ m3.certificate.length = 0 := by
  constructor
  · intro hsame
    obtain ⟨-, hkeyLittle, -, -, hcertLittle, -⟩ := slice_serializeM3 .little (fun _ _ => 0) m3 rfl
    obtain ⟨-, hkeyBig, -, -, hcertBig, -⟩ := slice_serializeM3 .big (fun _ _ => 0) m3 rfl
    have hkeyWord := hsame.keySize .little .big fun _ _ => 0
    have hcertWord := hsame.certSize .little .big fun _ _ => 0
    rw [hkeyLittle, hkeyBig, M3.sizeField_same_iff, wordOfSize] at hkeyWord
    rw [hcertLittle, hcertBig, M3.sizeField_same_iff, wordOfSize] at hcertWord
    unfold maxEphemeralPublicKeySize at hkey
    unfold maxCertificateSize at hcert
    omega
  · rintro ⟨hkeyZero, hcertZero⟩
    have hfield : ∀ order order' : ByteOrder, M3.sizeField order 0 = M3.sizeField order' 0 := by
      intro order order'
      have heq := M3.sizeField_same_iff.2 (rfl : wordOfSize 0 = 0)
      cases order <;> cases order' <;> simp [heq]
    have hmessage : ∀ (order order' : ByteOrder) (m : Behind Vector UInt8),
        (serializeM3 order m3).run m = (serializeM3 order' m3).run m := by
      intro order order' m
      simp only [serializeM3, run_bind, run_read, run_pure, hkeyZero, hcertZero, hfield order order']
    refine ⟨fun order order' m => by rw [hmessage order order'],
      fun order order' m => by rw [hmessage order order'], ?_⟩
    intro order order' m m'
    rw [hmessage order order']
    exact (key_messages_round_trip order' m m3 m' hkey hcipher hiv hcert).2.1

/-! ## The whole wire -/

/-- **The wire format does not depend on the host exactly where the counter is mirrored** and M3 has
    nothing in it that has a length. -/
theorem wire_same_iff {P : Platform} {key iv : Buffer} {counter : Int} {payload : Buffer}
    (hlow : -2147483648 ≤ counter) (hhigh : counter ≤ intMax) (hiv : iv.length = Wrapper.ivLength)
    (hkey : m3.serverKey.length ≤ maxEphemeralPublicKeySize)
    (hcipher : m3.cipherText.length = encryptedSignatureSize) (hcbc : m3.iv.length = cbcIvLength)
    (hcert : m3.certificate.length ≤ maxCertificateSize) :
    Wrapper.SameFrame P key iv counter payload ∧ SameM3 m3 ↔
      Mirrored counter ∧ m3.serverKey.length = 0 ∧ m3.certificate.length = 0 :=
  and_congr (Wrapper.sameFrame_iff hlow hhigh hiv) (sameM3_iff hkey hcipher hcbc hcert)

/-- The request to log out under the counter `0x01000001`, and a message of no lengths. -/
theorem wire_same_mirrored :
    (Wrapper.frame (.aes .little) (List.replicate 16 0) (List.replicate 12 3) 16777217
      LogoutM1.serialize).isSome = true ∧
    Wrapper.SameFrame (.aes .little) (List.replicate 16 0) (List.replicate 12 3) 16777217
      LogoutM1.serialize ∧ SameM3 (.ofLengths 0 0) :=
  ⟨by decide +kernel, (wire_same_iff (by decide) (by decide) rfl (by decide) List.length_replicate
    List.length_replicate (by decide)).2 ⟨by decide, rfl, rfl⟩⟩

/-- A cipher that hides nothing, with the end of the additional data as its tag. -/
def Platform.tagging (order : ByteOrder) : Platform where
  order := order
  encrypt _ _ aad clear := some (clear, fit 14 (aad.drop 2))
  decrypt _ _ aad cipher tag := if tag = fit 14 (aad.drop 2) then some cipher else none
  length_decrypt := by
    intro _ _ aad cipher tag clear h
    split_ifs at h
    rw [← Option.some.inj h]
  decrypt_encrypt := by
    intro _ _ aad clear cipher tag h
    cases h
    simp

/-- The counter 1 under a cipher whose tag tells the additional data: the frames differ. -/
theorem wire_differs : ¬∀ (P : Platform) (key iv : Buffer) (counter : Int) (payload : Buffer) (m3 : M3),
    -2147483648 ≤ counter → counter ≤ intMax → iv.length = Wrapper.ivLength →
    m3.serverKey.length ≤ maxEphemeralPublicKeySize → m3.cipherText.length = encryptedSignatureSize →
    m3.iv.length = cbcIvLength → m3.certificate.length ≤ maxCertificateSize →
    Wrapper.SameFrame P key iv counter payload ∧ SameM3 m3 := by
  intro hall
  let iv : Buffer := List.replicate 12 0
  let wrapper : Buffer := iv ++ [0, 0, 0, 1] ++ [5] ++ (List.replicate 10 0 ++ [1, 0, 0, 0])
  have hlittle : Wrapper.frame ((Platform.tagging .little).on .little) [] iv 1 [5] = some wrapper := by
    decide +kernel
  have hbig : Wrapper.frame ((Platform.tagging .little).on .big) [] iv 1 [5] ≠ some wrapper := by
    decide +kernel
  have hsame := (hall (.tagging .little) [] iv 1 [5] (.ofLengths 178 1000) (by decide) (by decide) rfl
    (List.length_replicate.trans_le (by decide)) List.length_replicate List.length_replicate
    (List.length_replicate.trans_le (by decide))).1
  have hserializes := (hsame.wrapper .little .big wrapper).1 ((Wrapper.serializes_iff rfl).2 hlittle)
  exact hbig ((Wrapper.serializes_iff rfl).1 hserializes)

end CloudStorage
