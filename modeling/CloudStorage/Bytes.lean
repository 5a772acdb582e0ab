import Mathlib.Algebra.Group.Nat.Defs
import Mathlib.Data.List.Basic
import Mathlib.Data.List.TakeDrop
import Mathlib.Data.List.TakeWhile

set_option autoImplicit false

/-! # Bytes, words and C strings

The byte-level vocabulary of the model. A buffer is a list of bytes. An `int`, a `uint32_t` and a
`size_t` are numbers with the conversions between them written out; how a 32-bit word lies in
memory depends on the byte order of the host, and `htonl` is the word whose memory image is the
big-endian one. -/

namespace CloudStorage

/-- `std::vector<unsigned char>`, and the bytes of a `std::string`. -/
abbrev Buffer : Type := List UInt8

/-- The bytes of an ASCII literal. -/
def ascii (s : String) : Buffer := s.toList.map fun c => c.toNat.toUInt8

/-- The `n` bytes of `b` from offset `off` on. -/
def slice (off n : Nat) (b : Buffer) : Buffer := (b.drop off).take n

/-- `b` cut or filled with zeros to `n` bytes, as a vector resized to `n` holds it. -/
def fit (n : Nat) (b : Buffer) : Buffer := b.take n ++ List.replicate (n - b.length) 0

@[simp]
theorem length_fit (n : Nat) (b : Buffer) : (fit n b).length = n := by
  simp only [fit, List.length_append, List.length_take, List.length_replicate]
  omega

theorem fit_of_length {n : Nat} {b : Buffer} (h : b.length = n) : fit n b = b := by
  subst h
  simp [fit]

theorem fit_append_left {n : Nat} {b c : Buffer} (h : b.length = n) : fit n (b ++ c) = b := by
  subst h
  simp [fit]

theorem length_slice {off n : Nat} {b : Buffer} (h : off + n ≤ b.length) :
    (slice off n b).length = n := by
  simp only [slice, List.length_take, List.length_drop]
  omega

/-- A field that starts where the bytes before it end. -/
theorem slice_append {off n : Nat} {a b c : Buffer} (ha : a.length = off) (hb : b.length = n) :
    slice off n (a ++ b ++ c) = b := by
  subst ha hb
  simp [slice]

/-! ## Words -/

/-- The order in which a host keeps the bytes of a word. -/
inductive ByteOrder
  | little
  | big
  deriving DecidableEq, Repr

/-- The four bytes of a 32-bit word, most significant first. -/
def be32 (w : Nat) : Buffer :=
  [UInt8.ofNat (w / 16777216), UInt8.ofNat (w / 65536), UInt8.ofNat (w / 256), UInt8.ofNat w]

/-- The word that four bytes, most significant first, stand for. -/
def ofBe32 : Buffer → Nat
  | [a, b, c, d] => a.toNat * 16777216 + b.toNat * 65536 + c.toNat * 256 + d.toNat
  | _ => 0

@[simp]
theorem length_be32 (w : Nat) : (be32 w).length = 4 := rfl

theorem ofBe32_be32 {w : Nat} (h : w < 4294967296) : ofBe32 (be32 w) = w := by
  simp only [ofBe32, be32, UInt8.toNat_ofNat']
  omega

theorem ofBe32_lt (b : Buffer) : ofBe32 b < 4294967296 := by
  unfold ofBe32
  split
  · rename_i a b c d
    have := a.toNat_lt
    have := b.toNat_lt
    have := c.toNat_lt
    have := d.toNat_lt
    omega
  · omega

theorem be32_ofBe32 {b : Buffer} (h : b.length = 4) : be32 (ofBe32 b) = b := by
  match b, h with
  | [a, b, c, d], _ =>
    have := a.toNat_lt
    have := b.toNat_lt
    have := c.toNat_lt
    have := d.toNat_lt
    simp only [ofBe32, be32, List.cons.injEq, and_true, ← UInt8.toNat_inj, UInt8.toNat_ofNat']
    omega

/-- The bytes of a word as the host keeps them. -/
def image (order : ByteOrder) (w : Nat) : Buffer :=
  match order with
  | .big => be32 w
  | .little => (be32 w).reverse

/-- The word whose memory image is `b`. -/
def ofImage (order : ByteOrder) (b : Buffer) : Nat :=
  match order with
  | .big => ofBe32 b
  | .little => ofBe32 b.reverse

@[simp]
theorem length_image (order : ByteOrder) (w : Nat) : (image order w).length = 4 := by
  cases order <;> rfl

theorem image_ofImage (order : ByteOrder) {b : Buffer} (h : b.length = 4) :
    image order (ofImage order b) = b := by
  cases order with
  | big => exact be32_ofBe32 h
  | little =>
      simp only [image, ofImage]
      rw [be32_ofBe32 (by simpa using h), List.reverse_reverse]

theorem ofImage_lt (order : ByteOrder) (b : Buffer) : ofImage order b < 4294967296 := by
  cases order <;> exact ofBe32_lt _

/-- Host to network order: the word that lies in memory most significant byte first. -/
def htonl (order : ByteOrder) (w : Nat) : Nat := ofImage order (be32 w)

/-- Network to host order. -/
def ntohl (order : ByteOrder) (w : Nat) : Nat := ofBe32 (image order w)

@[simp]
theorem image_htonl (order : ByteOrder) (w : Nat) : image order (htonl order w) = be32 w :=
  image_ofImage order rfl

@[simp]
theorem ntohl_ofImage (order : ByteOrder) {b : Buffer} (h : b.length = 4) :
    ntohl order (ofImage order b) = ofBe32 b := by
  rw [ntohl, image_ofImage order h]

/-- The value of some bytes, least significant first. -/
def ofLittle : Buffer → Nat
  | [] => 0
  | b :: bs => b.toNat + 256 * ofLittle bs

/-- The `n` low bytes of a number, least significant first. -/
def little : Nat → Nat → Buffer
  | 0, _ => []
  | n + 1, w => UInt8.ofNat w :: little n (w / 256)

@[simp]
theorem length_little (n w : Nat) : (little n w).length = n := by
  induction n generalizing w with
  | zero => rfl
  | succ n ih => simp [little, ih]

theorem ofLittle_little {n w : Nat} (h : w < 256 ^ n) : ofLittle (little n w) = w := by
  induction n generalizing w with
  | zero =>
      have hw : w = 0 := by simpa using h
      simp [little, ofLittle, hw]
  | succ n ih =>
      have hdiv : w / 256 < 256 ^ n := Nat.div_lt_of_lt_mul (by rwa [Nat.pow_succ'] at h)
      rw [little, ofLittle, ih hdiv, UInt8.toNat_ofNat']
      omega

/-- The eight bytes of a `size_t` as the host keeps them. -/
def sizeImage (order : ByteOrder) (n : Nat) : Buffer :=
  match order with
  | .little => little 8 n
  | .big => (little 8 n).reverse

/-- The `size_t` whose memory image is `b`. -/
def ofSizeImage (order : ByteOrder) (b : Buffer) : Nat :=
  match order with
  | .little => ofLittle b
  | .big => ofLittle b.reverse

@[simp]
theorem length_sizeImage (order : ByteOrder) (n : Nat) : (sizeImage order n).length = 8 := by
  cases order <;> simp [sizeImage]

theorem ofSizeImage_sizeImage (order : ByteOrder) {n : Nat} (h : n < 18446744073709551616) :
    ofSizeImage order (sizeImage order n) = n := by
  have h' : ofLittle (little 8 n) = n := ofLittle_little (by simpa using h)
  cases order <;> simp [sizeImage, ofSizeImage, h']

/-! ## `int`, `uint32_t` and `size_t` -/

/-- `std::numeric_limits<int>::max()`. -/
def intMax : Nat := 2147483647

/-- The 32-bit word of an `int`. -/
def wordOfInt (i : Int) : Nat := (i % 4294967296).toNat

/-- The `int` that a 32-bit word stands for. -/
def intOfWord (w : Nat) : Int := if w < 2147483648 then w else (w : Int) - 4294967296

theorem wordOfInt_lt (i : Int) : wordOfInt i < 4294967296 := by
  unfold wordOfInt
  omega

theorem intOfWord_wordOfInt {i : Int} (h : 0 ≤ i) (h' : i ≤ intMax) :
    intOfWord (wordOfInt i) = i := by
  unfold intOfWord wordOfInt intMax at *
  split <;> omega

theorem wordOfInt_intOfWord {w : Nat} (h : w < 4294967296) : wordOfInt (intOfWord w) = w := by
  unfold intOfWord wordOfInt
  split <;> omega

/-- A `size_t` stored in an `int`. -/
def intOfSize (n : Nat) : Int := intOfWord (n % 4294967296)

/-- A `size_t` stored in a `uint32_t`. -/
def wordOfSize (n : Nat) : Nat := n % 4294967296

/-- An `int` passed as a `size_t`. -/
def sizeOfInt (i : Int) : Nat := (i % 18446744073709551616).toNat

theorem intOfSize_of_le {n : Nat} (h : n ≤ intMax) : intOfSize n = n := by
  unfold intOfSize intOfWord intMax at *
  split <;> omega

theorem sizeOfInt_of_le {n : Nat} (h : n ≤ intMax) : sizeOfInt n = n := by
  unfold sizeOfInt intMax at *
  omega

/-! ## C strings -/

/-- The bytes of a C string that starts at `b`: up to the first NUL. -/
def cstr (b : Buffer) : Buffer := b.takeWhile (· != 0)

/-- What `strncpy(dst, s, n)` leaves in the `n` bytes of `dst`. -/
def strncpy (n : Nat) (s : Buffer) : Buffer := fit n (cstr s)

@[simp]
theorem length_strncpy (n : Nat) (s : Buffer) : (strncpy n s).length = n := length_fit _ _

theorem bne_zero_of_mem {b : Buffer} (h : (0 : UInt8) ∉ b) : ∀ a ∈ b, (a != 0) = true := by
  intro a ha
  rw [bne_iff_ne]
  rintro rfl
  exact h ha

theorem cstr_of_forall_ne {b : Buffer} (h : (0 : UInt8) ∉ b) : cstr b = b := by
  rw [cstr, List.takeWhile_eq_self_iff]
  exact bne_zero_of_mem h

theorem cstr_append_zero {b c : Buffer} (h : (0 : UInt8) ∉ b) : cstr (b ++ 0 :: c) = b := by
  rw [cstr, List.takeWhile_append_of_pos (bne_zero_of_mem h)]
  simp

/-- What lies behind the terminator does not matter. -/
theorem cstr_append_of_mem {b : Buffer} (c : Buffer) (h : (0 : UInt8) ∈ b) :
    cstr (b ++ c) = cstr b := by
  induction b with
  | nil => simp at h
  | cons a b ih =>
      by_cases ha : a = 0
      · simp [cstr, ha]
      · have hb : (0 : UInt8) ∈ b := by simpa [Ne.symm ha] using h
        simpa [cstr, ha] using ih hb

/-- A name that fits with its terminator comes back from the field it was copied into. -/
theorem cstr_strncpy {n : Nat} {s : Buffer} (h : (0 : UInt8) ∉ s) (hn : s.length < n) :
    cstr (strncpy n s) = s := by
  rw [strncpy, cstr_of_forall_ne h, fit, List.take_of_length_le (by omega)]
  obtain ⟨k, hk⟩ : ∃ k, n - s.length = k + 1 := ⟨n - s.length - 1, by omega⟩
  rw [hk, List.replicate_succ, cstr_append_zero h]

theorem zero_mem_strncpy {n : Nat} {s : Buffer} (h : (0 : UInt8) ∉ s) (hn : s.length < n) :
    (0 : UInt8) ∈ strncpy n s := by
  rw [strncpy, cstr_of_forall_ne h, fit, List.take_of_length_le (by omega)]
  obtain ⟨k, hk⟩ : ∃ k, n - s.length = k + 1 := ⟨n - s.length - 1, by omega⟩
  rw [hk, List.replicate_succ]
  simp

end CloudStorage
