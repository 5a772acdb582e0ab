import CloudStorage.Cipher.Cbc
import Mathlib.Data.List.Flatten

set_option autoImplicit false

/-! # Counter mode with CBC-MAC

A block cipher in CCM mode, over any alphabet and any layout of its blocks: a text is combined with a
keystream of encrypted counter blocks, and a chain over the lengths, the additional data and the text
gives a tag, which is encrypted with the counter block before the first. Only the forward direction of
the cipher is used.

`authOpen_iff`: exactly what was sealed opens. A ciphertext determines its text, and the text with
everything else determines the tag; no property of the cipher is needed for it. -/

namespace Cipher

variable {κ ν β : Type} {n : Nat}

/-- How the mode lays out its blocks, for nonces of type `ν`: the first block of the chain, which tells
    the lengths of the additional data and of the text; what the additional data start with; the
    counter blocks; what fills up a block; and how many symbols of the last block are the tag. -/
structure Layout (ν β : Type) where
  first : ν → (aadLength textLength : Nat) → List β
  header : (aadLength : Nat) → List β
  counter : ν → (number : Nat) → List β
  zero : β
  tagLength : Nat

namespace Layout

variable (F : Layout ν β)

/-- A text filled up to full blocks of `n`. -/
def fill (n : Nat) (xs : List β) : List β := xs ++ List.replicate ((n - xs.length % n) % n) F.zero

/-- The blocks of the chain behind the first. -/
def chained (n : Nat) (aad text : List β) : List (List β) :=
  let head := if aad.length = 0 then [] else F.fill n (F.header aad.length ++ aad)
  let xs := head ++ F.fill n text
  blocks n (xs.length / n) xs

end Layout

namespace BlockCipher

variable (C : BlockCipher κ β n) (F : Layout ν β) (k : κ) (v : ν)

/-- The last block of the chain. -/
def mac (aad text : List β) : List β :=
  let start := C.encrypt k (F.first v aad.length text.length)
  lastBlock start (C.encryptBlocks k start (F.chained n aad text))

/-- The encrypted counter blocks for a text of `m` symbols. -/
def keystream (m : Nat) : List β :=
  (List.range (m / n + 1)).flatMap fun i => C.encrypt k (F.counter v (i + 1))

/-- A text combined with the keystream. -/
def crypt (text : List β) : List β := C.xorBlock text (C.keystream F k v text.length)

/-- The tag of a text with its additional data. -/
def authTag (aad text : List β) : List β :=
  (C.xorBlock (C.mac F k v aad text) (C.encrypt k (F.counter v 0))).take F.tagLength

/-- A text encrypted, and its tag. -/
def authSeal (aad text : List β) : List β × List β := (C.crypt F k v text, C.authTag F k v aad text)

/-- A ciphertext decrypted, if the tag is that of the text. -/
def authOpen [DecidableEq β] (aad cipher tag : List β) : Option (List β) :=
  let text := C.crypt F k v cipher
  if C.authTag F k v aad text = tag then some text else none

/-- Every block of the layout is full, and a block has room for the tag. -/
structure Fits (F : Layout ν β) (n : Nat) (v : ν) : Prop where
  first : ∀ a m, (F.first v a m).length = n
  counter : ∀ i, (F.counter v i).length = n
  tag : F.tagLength ≤ n

variable {C F k v} {aad text cipher tag : List β}

theorem length_keystream (h : Fits F n v) (m : Nat) :
    (C.keystream F k v m).length = (m / n + 1) * n := by
  have hblock : ∀ i ∈ List.range (m / n + 1), (C.encrypt k (F.counter v (i + 1))).length = n :=
    fun i _ => C.length_encrypt k _ (h.counter _)
  rw [keystream, List.length_flatMap, List.map_congr_left hblock]
  simp

/-- The keystream is long enough. -/
theorem le_length_keystream (h : Fits F n v) (m : Nat) : m ≤ (C.keystream F k v m).length := by
  rw [length_keystream h]
  have hdiv := Nat.div_add_mod m n
  have hmod := Nat.mod_lt m C.pos
  rw [Nat.add_mul, Nat.one_mul, Nat.mul_comm]
  omega

@[simp]
theorem length_crypt (h : Fits F n v) (text : List β) : (C.crypt F k v text).length = text.length := by
  have hle := le_length_keystream (C := C) (k := k) h text.length
  simp [crypt, xorBlock, hle]

/-- Counter mode undoes itself. -/
theorem crypt_crypt (h : Fits F n v) (text : List β) :
    C.crypt F k v (C.crypt F k v text) = text := by
  have hle := le_length_keystream (C := C) (k := k) h text.length
  apply List.ext_getElem
  · rw [length_crypt h, length_crypt h]
  · intro i hi _
    rw [length_crypt h, length_crypt h] at hi
    simp [crypt, xorBlock, C.xor_xor, hle]

theorem full_chained (aad text : List β) : Full n (F.chained n aad text) :=
  full_blocks (Nat.div_mul_le_self ..)

theorem length_lastBlock {b : List β} {bs : List (List β)} (hb : b.length = n) (hbs : Full n bs) :
    (lastBlock b bs).length = n := by
  rw [lastBlock, List.getLastD_eq_getLast?]
  cases hget : bs.getLast? with
  | none => exact hb
  | some c => exact hbs c (List.mem_of_getLast? hget)

theorem length_mac (h : Fits F n v) (aad text : List β) : (C.mac F k v aad text).length = n := by
  have hstart := C.length_encrypt k _ (h.first aad.length text.length)
  exact length_lastBlock hstart (full_encryptBlocks hstart (full_chained aad text))

theorem length_authTag (h : Fits F n v) (aad text : List β) :
    (C.authTag F k v aad text).length = F.tagLength := by
  have hxor := length_xorBlock (C := C) (length_mac (C := C) (k := k) h aad text)
    (C.length_encrypt k _ (h.counter 0))
  rw [authTag, List.length_take, hxor]
  exact Nat.min_eq_left h.tag

/-- **Exactly what was sealed opens.** -/
theorem authOpen_iff [DecidableEq β] (h : Fits F n v) :
    C.authOpen F k v aad cipher tag = some text ↔ C.authSeal F k v aad text = (cipher, tag) := by
  unfold authOpen authSeal
  dsimp only
  constructor
  · intro hopen
    split_ifs at hopen with htag
    obtain rfl := Option.some.inj hopen
    rw [crypt_crypt h, htag]
  · intro hseal
    obtain ⟨rfl, rfl⟩ := Prod.mk.inj hseal
    rw [crypt_crypt h, if_pos rfl]

end BlockCipher

end Cipher
