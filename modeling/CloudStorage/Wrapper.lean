import CloudStorage.Packets
import CloudStorage.System

set_option autoImplicit false

/-! # Frames

`packets/wrapper.cpp`: a payload travels as `IV | counter | ciphertext | tag`, encrypted and
authenticated with AES-128-CCM under the session key. The cipher itself is a parameter, `Platform`,
with the byte order of the host.

The second half is the discipline that client and worker repeat at each of their sends and receives:
a frame is sent under `s_counter` and accepted under `r_counter`, and each counter is incremented,
with a check for its end, directly after its use. -/

namespace CloudStorage

open Interaction

/-! ## AES-128-CCM -/

/-- The host's byte order and its AES-128-CCM with a 14-byte tag. What was encrypted decrypts back,
    and a plaintext is as long as its ciphertext. -/
structure Platform where
  order : ByteOrder
  encrypt : (key iv aad clear : Buffer) → Option (Buffer × Buffer)
  decrypt : (key iv aad cipher tag : Buffer) → Option Buffer
  length_decrypt : ∀ key iv aad cipher tag clear,
    decrypt key iv aad cipher tag = some clear → clear.length = cipher.length
  decrypt_encrypt : ∀ key iv aad clear cipher tag, encrypt key iv aad clear = some (cipher, tag) →
    cipher.length = clear.length ∧ tag.length = 14 ∧
      decrypt key iv aad cipher tag = some clear

/-- A cipher that hides nothing, with a tag that knows the length alone: the laws hold of it. -/
def Platform.plain (order : ByteOrder) : Platform where
  order := order
  encrypt _ _ _ clear := some (clear, List.replicate 14 (UInt8.ofNat (clear.length + 1)))
  decrypt _ _ _ cipher tag :=
    if tag = List.replicate 14 (UInt8.ofNat (cipher.length + 1)) then some cipher else none
  length_decrypt := by
    intro _ _ _ cipher tag clear h
    split_ifs at h
    rw [← Option.some.inj h]
  decrypt_encrypt := by
    intro _ _ _ clear cipher tag h
    cases h
    simp

namespace Wrapper

def ivLength : Nat := 12
def tagLength : Nat := 14

/-- Everything but the ciphertext: the IV, the counter and the tag. -/
def overhead : Nat := ivLength + 4 + tagLength

/-- `Wrapper::getSize`: the length of the frame of a payload of `n` bytes. -/
def getSize (n : Nat) : Nat := (overhead + n) % 18446744073709551616

/-- `Wrapper::createAAD`, from the word that `n_counter` holds. -/
def createAAD (order : ByteOrder) (nCounter : Nat) (iv : Buffer) : Buffer :=
  iv ++ image order (htonl order nCounter)

/-- `encrypt_aes_ccm` refuses what an `int` cannot count. -/
def encryptAesCcm (P : Platform) (key iv aad clear : Buffer) : Option (Buffer × Buffer) :=
  if intMax - 1 < clear.length then none else P.encrypt key iv aad clear

/-- The frame that `Wrapper::serialize` makes with a given IV. -/
def frame (P : Platform) (key iv : Buffer) (counter : Int) (payload : Buffer) : Option Buffer :=
  let nCounter := htonl P.order (wordOfInt counter)
  (encryptAesCcm P key iv (createAAD P.order nCounter iv) payload).map fun (ct, tag) =>
    iv ++ image P.order nCounter ++ ct ++ tag

/-- The counter that a frame carries. -/
def counterOf (P : Platform) (wrapper : Buffer) : Int :=
  intOfWord (ntohl P.order (ofImage P.order (slice ivLength 4 wrapper)))

/-- The payload of a frame, if it authenticates: `Wrapper::deserialize` but for the counter. -/
def openFrame (P : Platform) (key wrapper : Buffer) : Option Buffer :=
  let iv := wrapper.take ivLength
  let nCounter := ofImage P.order (slice ivLength 4 wrapper)
  let ctSize := wrapper.length - overhead
  P.decrypt key iv (createAAD P.order nCounter iv) (slice (ivLength + 4) ctSize wrapper)
    (slice (ivLength + 4 + ctSize) tagLength wrapper)

/-- `Wrapper::serialize`: the empty buffer stands for an error. -/
def serialize (P : Platform) (key : Buffer) (counter : Int) (payload : Buffer) : Member Buffer := do
  match ← Member.random ivLength with
  | none => return []
  | some iv =>
    match frame P key iv counter payload with
    | none => return []
    | some wrapper => do
      Member.note (.sealed counter payload wrapper)
      return wrapper

/-- `Wrapper::deserialize`: the counter and the payload, or `none` where the tag does not match. A
    buffer without room for the fixed parts has none of the length that is computed for it. -/
def deserialize (P : Platform) (key wrapper : Buffer) : Member (Option (Int × Buffer)) :=
  if wrapper.length < ivLength + 4 then Routine.throw .undefined
  else if wrapper.length < overhead then Routine.throw (.thrown .lengthError)
  else pure ((openFrame P key wrapper).map fun payload => (counterOf P wrapper, payload))

end Wrapper

/-- `incrementCounter`. -/
def incrementCounter (counter : Int) : Int :=
  if counter = Max.counterMaxValue then -1 else counter + 1

namespace Member

/-! ## Sending -/

/-- Increment `s_counter`; at its end the function returns -1. -/
def advanceSend : Member Unit := do
  let s ← Routine.get
  let next := incrementCounter s.sCounter
  Routine.modify fun s => { s with sCounter := next }
  note (.counted s.sCounter next)
  if next = -1 then Routine.throw (.returned (-1)) else pure ()

/-- Send a serialized packet and increment the counter; a failed send returns 0. -/
def sendFrame (wrapper : Buffer) : Member Unit := do
  let sent ← sendData wrapper
  Routine.require sent (.returned 0)
  advanceSend

/-- Wrap a payload and send it. -/
def sendPacket (P : Platform) (payload : Buffer) : Member Unit := do
  let s ← Routine.get
  let wrapper ← Wrapper.serialize P s.sessionKey s.sCounter payload
  sendFrame wrapper

/-! ## Receiving -/

/-- Receive the frame of a payload of `n` bytes and open it; `none` where either step fails. -/
def receiveFrame (P : Platform) (n : Nat) : Member (Option (Int × Buffer × Buffer)) := do
  let size := Wrapper.getSize n
  if tooLarge size then Routine.throw (.thrown .lengthError)
  else do
    match ← receiveData size with
    | none => return none
    | some wrapper => do
      let s ← Routine.get
      let opened ← Wrapper.deserialize P s.sessionKey wrapper
      return opened.map fun (counter, payload) => (counter, payload, wrapper)

/-- Check the counter of an opened frame; a mismatch returns -1. -/
def checkCounter (counter : Int) (payload wrapper : Buffer) : Member Unit := do
  let s ← Routine.get
  if counter ≠ s.rCounter then Routine.throw (.returned (-1))
  else note (.accepted counter payload wrapper)

/-- Increment `r_counter`; at its end the function returns -1. -/
def advanceReceive : Member Unit := do
  let s ← Routine.get
  let next := incrementCounter s.rCounter
  Routine.modify fun s => { s with rCounter := next }
  note (.counted s.rCounter next)
  if next = -1 then Routine.throw (.returned (-1)) else pure ()

/-- Receive, open, check and count a frame; `none` where it was not received or did not open. -/
def receivePacket (P : Platform) (n : Nat) : Member (Option Buffer) := do
  match ← receiveFrame P n with
  | none => return none
  | some (counter, payload, wrapper) => do
    checkCounter counter payload wrapper
    advanceReceive
    return some payload

/-- Receive a packet; where that fails the function returns `result`. -/
def expectPacket (P : Platform) (n : Nat) (result : Int) : Member Buffer :=
  expect (receivePacket P n) result

end Member

/-! ## Lengths and round trips -/

namespace Wrapper

theorem getSize_of_lt {n : Nat} (h : n < 18446744073709551586) : getSize n = overhead + n := by
  unfold getSize overhead ivLength tagLength
  omega

variable {P : Platform} {key iv payload wrapper : Buffer} {counter : Int}

/-- What `frame` puts together. -/
theorem frame_eq_some (h : frame P key iv counter payload = some wrapper) :
    ∃ ct tag, P.encrypt key iv (createAAD P.order (htonl P.order (wordOfInt counter)) iv) payload =
        some (ct, tag) ∧ payload.length ≤ intMax - 1 ∧
      wrapper = iv ++ be32 (wordOfInt counter) ++ ct ++ tag := by
  simp only [frame, encryptAesCcm, Option.map_eq_some_iff, image_htonl] at h
  obtain ⟨⟨ct, tag⟩, h, rfl⟩ := h
  split_ifs at h with hlen
  exact ⟨ct, tag, h, by omega, rfl⟩

theorem length_frame (hiv : iv.length = ivLength)
    (h : frame P key iv counter payload = some wrapper) :
    wrapper.length = overhead + payload.length := by
  obtain ⟨ct, tag, henc, -, rfl⟩ := frame_eq_some h
  obtain ⟨hct, htag, -⟩ := P.decrypt_encrypt _ _ _ _ _ _ henc
  simp only [List.length_append, length_be32, hiv, hct, htag, overhead, tagLength]
  omega

theorem frame_ne_nil (hiv : iv.length = ivLength)
    (h : frame P key iv counter payload = some wrapper) : wrapper ≠ [] := by
  intro hnil
  have := length_frame hiv h
  simp only [hnil, List.length_nil, overhead, tagLength] at this
  omega

theorem counterWord_frame (hiv : iv.length = ivLength)
    (h : frame P key iv counter payload = some wrapper) :
    slice ivLength 4 wrapper = be32 (wordOfInt counter) := by
  obtain ⟨ct, tag, -, -, rfl⟩ := frame_eq_some h
  rw [List.append_assoc]
  exact slice_append hiv rfl

/-- A frame carries its counter as an `int`. -/
theorem counterOf_frame_word (hiv : iv.length = ivLength)
    (h : frame P key iv counter payload = some wrapper) :
    counterOf P wrapper = intOfWord (wordOfInt counter) := by
  rw [counterOf, counterWord_frame hiv h, ntohl_ofImage _ rfl, ofBe32_be32 (wordOfInt_lt _)]

/-- The counter comes back from a frame. -/
theorem counterOf_frame (hiv : iv.length = ivLength) (hcounter : 0 ≤ counter)
    (hmax : counter ≤ intMax) (h : frame P key iv counter payload = some wrapper) :
    counterOf P wrapper = counter := by
  rw [counterOf_frame_word hiv h, intOfWord_wordOfInt hcounter hmax]

/-- The payload comes back from a frame. -/
theorem openFrame_frame (hiv : iv.length = ivLength)
    (h : frame P key iv counter payload = some wrapper) :
    openFrame P key wrapper = some payload := by
  have hword := counterWord_frame hiv h
  have hlen := length_frame hiv h
  obtain ⟨ct, tag, henc, -, rfl⟩ := frame_eq_some h
  obtain ⟨hct, htag, hdec⟩ := P.decrypt_encrypt _ _ _ _ _ _ henc
  have htake : (iv ++ be32 (wordOfInt counter) ++ ct ++ tag).take ivLength = iv := by
    rw [List.append_assoc, List.append_assoc, ← hiv, List.take_left]
  have hcipher : slice (ivLength + 4) ct.length (iv ++ be32 (wordOfInt counter) ++ ct ++ tag) = ct :=
    slice_append (by simp [hiv]) rfl
  have htagslice : slice (ivLength + 4 + ct.length) tagLength
      (iv ++ be32 (wordOfInt counter) ++ ct ++ tag) = tag := by
    have := @slice_append (ivLength + 4 + ct.length) tagLength
      (iv ++ be32 (wordOfInt counter) ++ ct) tag [] (by simp [hiv, Nat.add_assoc]) htag
    rwa [List.append_nil] at this
  have hsize : (iv ++ be32 (wordOfInt counter) ++ ct ++ tag).length - overhead = ct.length := by
    rw [hlen, hct]
    omega
  simp only [openFrame, hsize, htake, hword, hcipher, htagslice]
  exact hdec

end Wrapper

/-- The frame of a payload under a counter, with an IV of zeros and the cipher that hides nothing. -/
def plainFrame (counter : Int) (payload : Buffer) : Buffer :=
  (Wrapper.frame (.plain .little) [] (List.replicate 12 0) counter payload).getD []

/-! ## The frame as an authenticated encoding

With an ideal AES-128-CCM, `Wrapper::serialize` and `Wrapper::deserialize` are inverse to each other:
what was serialized comes back, and what deserializes was serialized. The additional data determine
the IV and the counter, so under a cipher that binds its additional data a ciphertext with its tag
deserializes behind one IV and one counter only. -/

namespace Wrapper

/-- An ideal cipher: exactly what `encrypt_aes_ccm` produced decrypts, and to what it was. -/
def Ideal (P : Platform) : Prop :=
  ∀ key iv aad cipher tag clear, P.decrypt key iv aad cipher tag = some clear ↔
    encryptAesCcm P key iv aad clear = some (cipher, tag)

/-- A cipher that binds its additional data: a ciphertext with its tag comes from one of them only. -/
def Binds (P : Platform) : Prop :=
  ∀ key iv aad clear iv' aad' clear' cipher tag,
    encryptAesCcm P key iv aad clear = some (cipher, tag) →
    encryptAesCcm P key iv' aad' clear' = some (cipher, tag) → aad = aad'

/-- A call of `Wrapper::serialize` for which the generator yields `iv` returns `wrapper`. -/
def Serializes (P : Platform) (key : Buffer) (counter : Int) (payload iv wrapper : Buffer) : Prop :=
  ∀ x h, Host.run [.deliver iv, .calm] (serialize P key counter payload x, h) =
    (.ret (.ok wrapper, x), h.noted (.sealed counter payload wrapper))

/-- A call of `Wrapper::deserialize` returns 1, with this counter and this payload. -/
def Deserializes (P : Platform) (key wrapper : Buffer) (counter : Int) (payload : Buffer) : Prop :=
  ∀ x, deserialize P key wrapper x = .ret (.ok (some (counter, payload)), x)

variable {P : Platform} {key iv payload wrapper : Buffer} {counter : Int}

theorem serializes_of_frame (hiv : iv.length = ivLength)
    (hframe : frame P key iv counter payload = some wrapper) :
    Serializes P key counter payload iv wrapper := by
  intro x h
  have hfit : fit ivLength iv = iv := fit_of_length hiv
  have hrandom : (Host.answer (.deliver iv) h (.sys (.random ivLength))).1 = some iv :=
    congrArg some hfit
  show Host.run [.calm] (Program.bind _ _, h) = _
  rw [hrandom]
  simp only [Program.bind, hframe]
  rfl

/-- Every `int` comes back from its word. -/
theorem intOfWord_wordOfInt_of_le (hlow : -2147483648 ≤ counter) (hhigh : counter ≤ intMax) :
    intOfWord (wordOfInt counter) = counter := by
  unfold intOfWord wordOfInt intMax at *
  split <;> omega

/-- A frame that is long enough deserializes to what its parts say. -/
theorem deserializes_iff (hlen : overhead ≤ wrapper.length) :
    Deserializes P key wrapper counter payload ↔
      openFrame P key wrapper = some payload ∧ counterOf P wrapper = counter := by
  have hfixed : ivLength + 4 ≤ wrapper.length := by
    unfold overhead at hlen
    omega
  have hpure : ∀ x, deserialize P key wrapper x =
      .ret (.ok ((openFrame P key wrapper).map fun payload => (counterOf P wrapper, payload)), x) := by
    intro x
    rw [deserialize, if_neg (by omega), if_neg (by omega)]
    rfl
  constructor
  · intro hd
    have heq := hd (.start [] [])
    rw [hpure] at heq
    cases hopen : openFrame P key wrapper with
    | none =>
        rw [hopen] at heq
        cases heq
    | some p =>
        rw [hopen] at heq
        cases heq
        exact ⟨rfl, rfl⟩
  · rintro ⟨hopen, rfl⟩ x
    rw [hpure, hopen]
    rfl

/-- The word of the counter is the one in the frame. -/
theorem htonl_counterOf (hlen : overhead ≤ wrapper.length) :
    be32 (wordOfInt (counterOf P wrapper)) = slice ivLength 4 wrapper := by
  have hword : (slice ivLength 4 wrapper).length = 4 := by
    apply length_slice
    unfold overhead at hlen
    omega
  rw [counterOf, wordOfInt_intOfWord, ntohl_ofImage _ hword, be32_ofBe32 hword]
  rw [ntohl_ofImage _ hword]
  exact ofBe32_lt _

/-- A buffer of at least the fixed length is its four parts. -/
theorem eq_parts (hlen : overhead ≤ wrapper.length) :
    wrapper = wrapper.take ivLength ++ slice ivLength 4 wrapper ++
      slice (ivLength + 4) (wrapper.length - overhead) wrapper ++
      slice (ivLength + 4 + (wrapper.length - overhead)) tagLength wrapper := by
  have hsplit : ∀ (n m : Nat) (b : Buffer), b.take n ++ slice n m b = b.take (n + m) :=
    fun n m b => (List.take_add ..).symm
  rw [hsplit, hsplit, hsplit, List.take_of_length_le]
  unfold overhead at *
  omega

/-- A buffer whose ciphertext and tag come from encrypting a payload is the frame of it. -/
theorem frame_of_encrypted (hlen : overhead ≤ wrapper.length)
    (henc : encryptAesCcm P key (wrapper.take ivLength)
        (createAAD P.order (ofImage P.order (slice ivLength 4 wrapper)) (wrapper.take ivLength)) payload =
      some (slice (ivLength + 4) (wrapper.length - overhead) wrapper,
        slice (ivLength + 4 + (wrapper.length - overhead)) tagLength wrapper)) :
    frame P key (wrapper.take ivLength) (counterOf P wrapper) payload = some wrapper := by
  have hcounter := htonl_counterOf (P := P) hlen
  have hword : htonl P.order (wordOfInt (counterOf P wrapper)) =
      ofImage P.order (slice ivLength 4 wrapper) := by
    rw [htonl, hcounter]
  rw [frame]
  simp only [image_htonl]
  rw [hword, henc, hcounter]
  exact congrArg some (eq_parts hlen).symm

/-- What opens under an ideal cipher was encrypted with the IV and the counter in it. -/
theorem encrypted_of_openFrame (hP : Ideal P) (hopen : openFrame P key wrapper = some payload) :
    encryptAesCcm P key (wrapper.take ivLength)
        (createAAD P.order (ofImage P.order (slice ivLength 4 wrapper)) (wrapper.take ivLength))
        payload =
      some (slice (ivLength + 4) (wrapper.length - overhead) wrapper,
        slice (ivLength + 4 + (wrapper.length - overhead)) tagLength wrapper) :=
  (hP ..).1 hopen

/-- What deserializes is the frame of what it deserializes to. -/
theorem frame_of_openFrame (hP : Ideal P) (hlen : overhead ≤ wrapper.length)
    (hopen : openFrame P key wrapper = some payload) :
    frame P key (wrapper.take ivLength) (counterOf P wrapper) payload = some wrapper :=
  frame_of_encrypted hlen (encrypted_of_openFrame hP hopen)

/-- The additional data determine the IV and the word of the counter. -/
theorem createAAD_inj {order : ByteOrder} {iv iv' : Buffer} {w w' : Nat} (hiv : iv.length = ivLength)
    (hiv' : iv'.length = ivLength) (hw : w < 4294967296) (hw' : w' < 4294967296)
    (h : createAAD order w iv = createAAD order w' iv') : iv = iv' ∧ w = w' := by
  rw [createAAD, createAAD, image_htonl, image_htonl] at h
  obtain ⟨rfl, hword⟩ := List.append_inj h (hiv.trans hiv'.symm)
  exact ⟨rfl, by rw [← ofBe32_be32 hw, hword, ofBe32_be32 hw']⟩

theorem length_take_ivLength (hlen : overhead ≤ wrapper.length) :
    (wrapper.take ivLength).length = ivLength := by
  rw [List.length_take]
  unfold overhead at hlen
  omega

/-- Behind one ciphertext and tag, a cipher that binds its additional data opens one IV and counter. -/
theorem eq_of_openFrame (hP : Ideal P) (hbinds : Binds P) {wrapper' payload' : Buffer}
    (hlen : overhead ≤ wrapper.length) (hlen' : overhead ≤ wrapper'.length)
    (hrest : wrapper.drop (ivLength + 4) = wrapper'.drop (ivLength + 4))
    (hopen : openFrame P key wrapper = some payload)
    (hopen' : openFrame P key wrapper' = some payload') : wrapper = wrapper' := by
  have hfixed : ivLength + 4 ≤ overhead := by decide
  have hsize : wrapper'.length = wrapper.length := by
    have hlengths := congrArg List.length hrest
    rw [List.length_drop, List.length_drop] at hlengths
    omega
  have hslice : ∀ i n, slice (ivLength + 4 + i) n wrapper' = slice (ivLength + 4 + i) n wrapper := by
    intro i n
    simp only [slice, ← List.drop_drop, hrest]
  have henc := encrypted_of_openFrame hP hopen
  have henc' := encrypted_of_openFrame hP hopen'
  have hciphers := hslice 0 (wrapper.length - overhead)
  rw [Nat.add_zero] at hciphers
  rw [hsize, hciphers, hslice] at henc'
  obtain ⟨hivs, hwords⟩ := createAAD_inj (length_take_ivLength hlen) (length_take_ivLength hlen')
    (ofImage_lt ..) (ofImage_lt ..) (hbinds _ _ _ _ _ _ _ _ _ henc henc')
  have hword : ∀ {b : Buffer}, overhead ≤ b.length → (slice ivLength 4 b).length = 4 :=
    fun h => length_slice (hfixed.trans h)
  have hcounters : slice ivLength 4 wrapper = slice ivLength 4 wrapper' := by
    rw [← image_ofImage P.order (hword hlen), hwords, image_ofImage P.order (hword hlen')]
  calc wrapper
    _ = wrapper.take ivLength ++ slice ivLength 4 wrapper ++ wrapper.drop (ivLength + 4) := by
        rw [slice, ← List.take_add, List.take_append_drop]
    _ = wrapper'.take ivLength ++ slice ivLength 4 wrapper' ++ wrapper'.drop (ivLength + 4) := by
        rw [hivs, hcounters, hrest]
    _ = wrapper' := by rw [slice, ← List.take_add, List.take_append_drop]

/-- **The frame is an authenticated encoding.** A payload that can be encrypted yields a frame of the
    length that `getSize` says, and the frame deserializes to the counter and the payload; and a
    buffer that deserializes is the one that serializing its counter and its payload yields with the
    IV in its first bytes. The additional data determine the IV and the counter, and if the cipher
    binds them, two buffers that deserialize and have the same ciphertext and tag are the same. -/
theorem authenticated_encoding (hP : Ideal P) (key : Buffer) :
    (∀ (counter : Int) (iv payload : Buffer), -2147483648 ≤ counter → counter ≤ intMax →
      iv.length = ivLength →
      (encryptAesCcm P key iv (createAAD P.order (htonl P.order (wordOfInt counter)) iv)
        payload).isSome = true →
      ∃ wrapper, Serializes P key counter payload iv wrapper ∧
        wrapper.length = getSize payload.length ∧ Deserializes P key wrapper counter payload) ∧
    (∀ (wrapper : Buffer) (counter : Int) (payload : Buffer), 31 ≤ wrapper.length →
      Deserializes P key wrapper counter payload →
      Serializes P key counter payload (wrapper.take ivLength) wrapper) ∧
    (∀ (iv iv' : Buffer) (w w' : Nat), iv.length = ivLength → iv'.length = ivLength →
      w < 4294967296 → w' < 4294967296 → createAAD P.order w iv = createAAD P.order w' iv' →
      iv = iv' ∧ w = w') ∧
    (Binds P → ∀ (wrapper wrapper' : Buffer) (counter counter' : Int) (payload payload' : Buffer),
      31 ≤ wrapper.length → 31 ≤ wrapper'.length →
      Deserializes P key wrapper counter payload → Deserializes P key wrapper' counter' payload' →
      wrapper.drop (ivLength + 4) = wrapper'.drop (ivLength + 4) →
      wrapper = wrapper' ∧ counter = counter' ∧ payload = payload') := by
  have hover : ∀ b : Buffer, 31 ≤ b.length → overhead ≤ b.length := by
    intro b h
    unfold overhead ivLength tagLength
    omega
  refine ⟨?_, ?_, fun iv iv' w w' => createAAD_inj, ?_⟩
  · intro counter iv payload hlow hhigh hiv henc
    obtain ⟨⟨ct, tag⟩, henc⟩ := Option.isSome_iff_exists.1 henc
    have hframe : frame P key iv counter payload =
        some (iv ++ image P.order (htonl P.order (wordOfInt counter)) ++ ct ++ tag) := by
      rw [frame]
      simp only [henc, Option.map_some]
    obtain ⟨-, -, -, hle, -⟩ := frame_eq_some hframe
    have hlen := length_frame hiv hframe
    refine ⟨_, serializes_of_frame hiv hframe, ?_, ?_⟩
    · rw [hlen, getSize_of_lt]
      unfold intMax at hle
      omega
    · refine (deserializes_iff (by rw [hlen]; omega)).2 ⟨openFrame_frame hiv hframe, ?_⟩
      rw [counterOf, counterWord_frame hiv hframe, ntohl_ofImage _ rfl, ofBe32_be32 (wordOfInt_lt _),
        intOfWord_wordOfInt_of_le hlow hhigh]
  · intro wrapper counter payload hlen hd
    obtain ⟨hopen, rfl⟩ := (deserializes_iff (hover _ hlen)).1 hd
    exact serializes_of_frame (length_take_ivLength (hover _ hlen))
      (frame_of_openFrame hP (hover _ hlen) hopen)
  · intro hbinds wrapper wrapper' counter counter' payload payload' hlen hlen' hd hd' hrest
    obtain ⟨hopen, rfl⟩ := (deserializes_iff (hover _ hlen)).1 hd
    obtain ⟨hopen', rfl⟩ := (deserializes_iff (hover _ hlen')).1 hd'
    obtain rfl := eq_of_openFrame hP hbinds (hover _ hlen) (hover _ hlen') hrest hopen hopen'
    exact ⟨rfl, rfl, Option.some.inj (hopen.symm.trans hopen')⟩

/-- A cipher that hides nothing, for what an `int` can count and for additional data of 16 bytes that
    start with two zeros: the tag is the rest of them. -/
def bindingPlatform (order : ByteOrder) : Platform where
  order := order
  encrypt _ _ aad clear :=
    if aad.length = 16 ∧ aad.take 2 = [0, 0] ∧ clear.length ≤ intMax - 1 then
      some (clear, aad.drop 2)
    else none
  decrypt _ _ aad cipher tag :=
    if aad.length = 16 ∧ aad.take 2 = [0, 0] ∧ cipher.length ≤ intMax - 1 ∧ aad.drop 2 = tag then
      some cipher
    else none
  length_decrypt := by
    intro _ _ _ cipher tag clear h
    split_ifs at h
    rw [← Option.some.inj h]
  decrypt_encrypt := by
    intro _ _ aad clear cipher tag h
    split_ifs at h with hok
    obtain ⟨rfl, rfl⟩ := Prod.mk.inj (Option.some.inj h)
    exact ⟨rfl, by rw [List.length_drop, hok.1], if_pos ⟨hok.1, hok.2.1, hok.2.2, rfl⟩⟩

theorem ideal_bindingPlatform (order : ByteOrder) : Ideal (bindingPlatform order) := by
  intro key iv aad cipher tag clear
  simp only [bindingPlatform, encryptAesCcm]
  constructor
  · intro h
    split_ifs at h with hok
    obtain rfl := Option.some.inj h
    obtain ⟨hlen, hzeros, hle, rfl⟩ := hok
    rw [if_neg (by omega), if_pos ⟨hlen, hzeros, hle⟩]
  · intro h
    split_ifs at h with hlong hok
    obtain ⟨rfl, rfl⟩ := Prod.mk.inj (Option.some.inj h)
    exact if_pos ⟨hok.1, hok.2.1, hok.2.2, rfl⟩

theorem binds_bindingPlatform (order : ByteOrder) : Binds (bindingPlatform order) := by
  intro key iv aad clear iv' aad' clear' cipher tag h h'
  simp only [bindingPlatform, encryptAesCcm] at h h'
  split_ifs at h with hlong hok
  split_ifs at h' with hlong' hok'
  have htag := (Prod.mk.inj (Option.some.inj h)).2
  have htag' := (Prod.mk.inj (Option.some.inj h')).2
  rw [← List.take_append_drop 2 aad, ← List.take_append_drop 2 aad', hok.2.1, hok'.2.1, htag, htag']

/-- Three bytes under the counter 7, there and back, and under no other counter. -/
theorem authenticated_encoding_three_bytes :
    ∃ wrapper, Serializes (bindingPlatform .little) (List.replicate 16 1) 7 [1, 2, 3]
        (List.replicate 12 0) wrapper ∧
      wrapper.length = 33 ∧
      Deserializes (bindingPlatform .little) (List.replicate 16 1) wrapper 7 [1, 2, 3] ∧
      Serializes (bindingPlatform .little) (List.replicate 16 1) 7 [1, 2, 3] (wrapper.take ivLength)
        wrapper ∧
      ∀ wrapper' counter payload, 31 ≤ wrapper'.length →
        wrapper'.drop (ivLength + 4) = wrapper.drop (ivLength + 4) →
        Deserializes (bindingPlatform .little) (List.replicate 16 1) wrapper' counter payload →
        wrapper' = wrapper ∧ counter = 7 ∧ payload = [1, 2, 3] := by
  obtain ⟨hserial, hback, -, hone⟩ :=
    authenticated_encoding (ideal_bindingPlatform .little) (List.replicate 16 1)
  obtain ⟨wrapper, hs, hlen, hd⟩ := hserial 7 (List.replicate 12 0) [1, 2, 3] (by decide) (by decide)
    rfl (by decide)
  have hlen' : wrapper.length = 33 := hlen
  refine ⟨wrapper, hs, hlen', hd, hback wrapper 7 [1, 2, 3] (by omega) hd, ?_⟩
  intro wrapper' counter payload hlong hrest hd'
  exact hone (binds_bindingPlatform .little) wrapper' wrapper counter 7 payload [1, 2, 3] hlong
    (by omega) hd' hd hrest

end Wrapper

end CloudStorage
