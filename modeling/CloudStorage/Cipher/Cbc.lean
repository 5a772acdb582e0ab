import Mathlib.Data.List.Basic
import Mathlib.Data.List.TakeDrop

set_option autoImplicit false

/-! # Cipher block chaining

A block cipher in CBC mode with PKCS#7 padding, over any alphabet: the mode on whole blocks, the
padding, and the two contexts through which a library offers them, which are given a text in pieces and
keep what does not yet fill a block.

A decrypting context holds back the last block until it is told that no more follows, since only then
can the padding be taken off. The main result is `open_seal`: what was padded and encrypted comes back.
A text whose length is no multiple of the block length never decrypts (`open_eq_none`). -/

namespace Cipher

variable {κ β : Type} {n : Nat}

/-- A block cipher on blocks of `n` symbols, with what chaining and padding need of the symbols: a
    combination that undoes itself, and a symbol for each length up to `n`. -/
structure BlockCipher (κ β : Type) (n : Nat) where
  encrypt : κ → List β → List β
  decrypt : κ → List β → List β
  xor : β → β → β
  mark : Nat → β
  count : β → Nat
  pos : 0 < n
  length_encrypt : ∀ k b, b.length = n → (encrypt k b).length = n
  length_decrypt : ∀ k b, b.length = n → (decrypt k b).length = n
  decrypt_encrypt : ∀ k b, b.length = n → decrypt k (encrypt k b) = b
  xor_xor : ∀ a b, xor (xor a b) b = a
  count_mark : ∀ p, p ≤ n → count (mark p) = p

/-! ## Blocks -/

/-- The first `k` blocks of a text. -/
def blocks (n : Nat) : Nat → List β → List (List β)
  | 0, _ => []
  | k + 1, xs => xs.take n :: blocks n k (xs.drop n)

/-- Every block is full. -/
def Full (n : Nat) (bs : List (List β)) : Prop := ∀ b ∈ bs, b.length = n

theorem length_flatten {bs : List (List β)} (h : Full n bs) : bs.flatten.length = bs.length * n := by
  induction bs with
  | nil => simp
  | cons b bs ih =>
      have hb : b.length = n := h b (List.mem_cons_self ..)
      have hbs := ih fun c hc => h c (List.mem_cons_of_mem _ hc)
      simp only [List.flatten_cons, List.length_append, List.length_cons, hb, hbs, Nat.add_mul]
      omega

@[simp]
theorem length_blocks (k : Nat) (xs : List β) : (blocks n k xs).length = k := by
  induction k generalizing xs with
  | zero => rfl
  | succ k ih => simp [blocks, ih]

theorem full_blocks {k : Nat} {xs : List β} (h : k * n ≤ xs.length) : Full n (blocks n k xs) := by
  induction k generalizing xs with
  | zero => simp [blocks, Full]
  | succ k ih =>
      rw [Nat.add_mul, Nat.one_mul] at h
      intro b hb
      rcases List.mem_cons.1 hb with rfl | hb
      · rw [List.length_take]
        omega
      · exact ih (by rw [List.length_drop]; omega) b hb

theorem flatten_blocks {k : Nat} {xs : List β} : (blocks n k xs).flatten = xs.take (k * n) := by
  induction k generalizing xs with
  | zero => simp [blocks]
  | succ k ih =>
      rw [blocks, List.flatten_cons, ih, ← List.take_add, Nat.add_mul, Nat.one_mul, Nat.add_comm]

/-- The blocks of a text are those of its beginning and those of the rest. -/
theorem blocks_add (j k : Nat) (xs : List β) :
    blocks n (j + k) xs = blocks n j xs ++ blocks n k (xs.drop (j * n)) := by
  induction j generalizing xs with
  | zero => simp [blocks]
  | succ j ih =>
      rw [Nat.succ_add, blocks, ih, blocks, List.cons_append, List.drop_drop, Nat.add_mul, Nat.one_mul,
        Nat.add_comm n]

theorem blocks_append {k : Nat} {xs ys : List β} (h : k * n ≤ xs.length) :
    blocks n k (xs ++ ys) = blocks n k xs := by
  induction k generalizing xs with
  | zero => rfl
  | succ k ih =>
      rw [Nat.add_mul, Nat.one_mul] at h
      rw [blocks, blocks, List.take_append_of_le_length (by omega),
        List.drop_append_of_le_length (by omega), ih (by rw [List.length_drop]; omega)]

/-- A text of full blocks. -/
theorem blocks_flatten {bs : List (List β)} (h : Full n bs) : blocks n bs.length bs.flatten = bs := by
  induction bs with
  | nil => rfl
  | cons b bs ih =>
      have hb : b.length = n := h b (List.mem_cons_self ..)
      rw [List.length_cons, blocks, List.flatten_cons, ← hb, List.take_left, List.drop_left, hb,
        ih fun c hc => h c (List.mem_cons_of_mem _ hc)]

/-! ## The mode -/

namespace BlockCipher

variable (C : BlockCipher κ β n) (k : κ)

/-- Two blocks combined. -/
def xorBlock (a b : List β) : List β := List.zipWith C.xor a b

/-- Encrypt blocks, each combined with the ciphertext before it; `v` is before the first. -/
def encryptBlocks : List β → List (List β) → List (List β)
  | _, [] => []
  | v, b :: bs =>
    let c := C.encrypt k (C.xorBlock b v)
    c :: encryptBlocks c bs

/-- Decrypt blocks. -/
def decryptBlocks : List β → List (List β) → List (List β)
  | _, [] => []
  | v, c :: cs => C.xorBlock (C.decrypt k c) v :: decryptBlocks c cs

/-- The block before what follows: the last one so far. -/
def lastBlock (v : List β) (bs : List (List β)) : List β := bs.getLastD v

variable {C k} {v : List β} {bs cs : List (List β)}

@[simp]
theorem length_xorBlock {a b : List β} (ha : a.length = n) (hb : b.length = n) :
    (C.xorBlock a b).length = n := by
  simp [xorBlock, ha, hb]

theorem xorBlock_xorBlock {a b : List β} (ha : a.length = n) (hb : b.length = n) :
    C.xorBlock (C.xorBlock a b) b = a := by
  apply List.ext_getElem
  · rw [length_xorBlock (length_xorBlock ha hb) hb, ha]
  · intro i hi _
    simp [xorBlock, C.xor_xor]

theorem full_encryptBlocks (hv : v.length = n) (hbs : Full n bs) :
    Full n (C.encryptBlocks k v bs) := by
  induction bs generalizing v with
  | nil => simp [encryptBlocks, Full]
  | cons b bs ih =>
      have hb : b.length = n := hbs b (List.mem_cons_self ..)
      have hc := C.length_encrypt k _ (length_xorBlock (C := C) hb hv)
      intro c hmem
      rcases List.mem_cons.1 hmem with rfl | hmem
      · exact hc
      · exact ih hc (fun d hd => hbs d (List.mem_cons_of_mem _ hd)) c hmem

@[simp]
theorem length_encryptBlocks : (C.encryptBlocks k v bs).length = bs.length := by
  induction bs generalizing v with
  | nil => rfl
  | cons b bs ih => simp [encryptBlocks, ih]

/-- **Chaining is undone.** -/
theorem decryptBlocks_encryptBlocks (hv : v.length = n) (hbs : Full n bs) :
    C.decryptBlocks k v (C.encryptBlocks k v bs) = bs := by
  induction bs generalizing v with
  | nil => rfl
  | cons b bs ih =>
      have hb : b.length = n := hbs b (List.mem_cons_self ..)
      have hx := length_xorBlock (C := C) hb hv
      have hc := C.length_encrypt k _ hx
      rw [encryptBlocks, decryptBlocks, C.decrypt_encrypt k _ hx, xorBlock_xorBlock hb hv,
        ih hc fun d hd => hbs d (List.mem_cons_of_mem _ hd)]

theorem encryptBlocks_append (bs bs' : List (List β)) :
    C.encryptBlocks k v (bs ++ bs') = C.encryptBlocks k v bs ++
      C.encryptBlocks k (lastBlock v (C.encryptBlocks k v bs)) bs' := by
  induction bs generalizing v with
  | nil => rfl
  | cons b bs ih =>
      rw [List.cons_append, encryptBlocks, ih, encryptBlocks, List.cons_append]
      congr 3
      cases C.encryptBlocks k (C.encrypt k (C.xorBlock b v)) bs <;> rfl

/-! ## Padding -/

variable (C) in
/-- The symbols that fill up a text of `m` symbols: at least one, and each says how many. -/
def padding (m : Nat) : List β := List.replicate (n - m % n) (C.mark (n - m % n))

variable (C) in
/-- A text with its padding. -/
def pad (xs : List β) : List β := xs ++ C.padding xs.length

variable (C) in
/-- A text without its padding, if it ends in one. -/
def unpad [DecidableEq β] (xs : List β) : Option (List β) :=
  match xs.getLast? with
  | none => none
  | some b =>
    let p := C.count b
    if 0 < p ∧ p ≤ n ∧ xs.drop (xs.length - p) = List.replicate p (C.mark p) then
      some (xs.take (xs.length - p))
    else none

theorem length_pad (xs : List β) : (C.pad xs).length = (xs.length / n + 1) * n := by
  have hlt := Nat.mod_lt xs.length C.pos
  have hdiv := Nat.div_add_mod xs.length n
  rw [pad, List.length_append, padding, List.length_replicate, Nat.add_mul, Nat.one_mul,
    Nat.mul_comm (xs.length / n)]
  omega

theorem unpad_pad [DecidableEq β] (xs : List β) : C.unpad (C.pad xs) = some xs := by
  have hlt := Nat.mod_lt xs.length C.pos
  obtain ⟨p, hp⟩ : ∃ p, n - xs.length % n = p + 1 := ⟨n - xs.length % n - 1, by omega⟩
  have hpad : C.pad xs = xs ++ List.replicate (p + 1) (C.mark (p + 1)) := by rw [pad, padding, hp]
  have hlast : (C.pad xs).getLast? = some (C.mark (p + 1)) := by
    rw [hpad, List.replicate_succ', ← List.append_assoc, List.getLast?_concat]
  have hcount : C.count (C.mark (p + 1)) = p + 1 := C.count_mark _ (by omega)
  have hlen : (C.pad xs).length - (p + 1) = xs.length := by
    rw [hpad, List.length_append, List.length_replicate]
    omega
  rw [unpad, hlast]
  simp only [hcount, hlen]
  rw [if_pos ⟨Nat.succ_pos p, by omega, by rw [hpad, List.drop_left]⟩, hpad, List.take_left]

/-! ## Contexts -/

/-- A context: the block before what follows, and the symbols that wait for more. -/
structure Context (β : Type) where
  previous : List β
  pending : List β

/-- A new context with an initial block. -/
def init (v : List β) : Context β := ⟨v, []⟩

variable (C k) in
/-- Encrypt a piece: its full blocks come out, the rest waits. -/
def encryptUpdate (ctx : Context β) (data : List β) : List β × Context β :=
  let text := ctx.pending ++ data
  let full := text.length / n
  let cs := C.encryptBlocks k ctx.previous (blocks n full text)
  (cs.flatten, ⟨lastBlock ctx.previous cs, text.drop (full * n)⟩)

variable (C k) in
/-- Encrypt what waits, padded to a block. -/
def encryptFinal (ctx : Context β) : List β :=
  (C.encryptBlocks k ctx.previous [C.pad ctx.pending]).flatten

variable (C k) in
/-- Decrypt a piece. Its last full block waits if nothing is behind it: it may be the padded one. -/
def decryptUpdate (ctx : Context β) (data : List β) : List β × Context β :=
  let text := ctx.pending ++ data
  let full := if text.length % n = 0 then text.length / n - 1 else text.length / n
  let cs := blocks n full text
  ((C.decryptBlocks k ctx.previous cs).flatten, ⟨lastBlock ctx.previous cs, text.drop (full * n)⟩)

variable (C k) in
/-- Decrypt the block that waits and take off its padding; it fails where no block waits. -/
def decryptFinal [DecidableEq β] (ctx : Context β) : Option (List β) :=
  if ctx.pending.length = n then C.unpad (C.decryptBlocks k ctx.previous [ctx.pending]).flatten
  else none

variable (C k) in
/-- A text padded and encrypted. -/
def «seal» (v xs : List β) : List β :=
  (C.encryptBlocks k v (blocks n (xs.length / n + 1) (C.pad xs))).flatten

variable (C k) in
/-- A text decrypted in one piece. -/
def «open» [DecidableEq β] (v cs : List β) : Option (List β) :=
  let r := C.decryptUpdate k (init v) cs
  (C.decryptFinal k r.2).map fun last => r.1 ++ last

/-- The blocks of a padded text: those of the text, and the rest with the padding. -/
theorem blocks_pad (xs : List β) :
    blocks n (xs.length / n + 1) (C.pad xs) =
      blocks n (xs.length / n) xs ++ [C.pad (xs.drop (xs.length / n * n))] := by
  have hle : xs.length / n * n ≤ xs.length := Nat.div_mul_le_self ..
  have hrest : (xs.drop (xs.length / n * n)).length % n = xs.length % n := by
    rw [List.length_drop, Nat.mul_comm, ← Nat.mod_eq_sub_mul_div, Nat.mod_mod]
  have hpad : (C.pad xs).drop (xs.length / n * n) = C.pad (xs.drop (xs.length / n * n)) := by
    rw [pad, pad, List.drop_append_of_le_length hle, padding, padding, hrest]
  have hlast : ((C.pad xs).drop (xs.length / n * n)).length = n := by
    rw [List.length_drop, length_pad, Nat.add_mul, Nat.one_mul]
    omega
  rw [blocks_add, blocks, blocks, hpad, pad, blocks_append hle]
  rw [hpad] at hlast
  rw [List.take_of_length_le (Nat.le_of_eq hlast)]

theorem full_blocks_pad (xs : List β) : Full n (blocks n (xs.length / n + 1) (C.pad xs)) :=
  full_blocks (Nat.le_of_eq (length_pad xs).symm)

theorem length_seal (hv : v.length = n) (xs : List β) :
    (C.seal k v xs).length = (xs.length / n + 1) * n := by
  rw [«seal», length_flatten (full_encryptBlocks hv (full_blocks_pad xs)), length_encryptBlocks,
    length_blocks]

/-- What the two calls give is the padded text encrypted. -/
theorem encryptUpdate_append_final (xs : List β) :
    (C.encryptUpdate k (init v) xs).1 ++ C.encryptFinal k (C.encryptUpdate k (init v) xs).2 =
      C.seal k v xs := by
  rw [«seal», blocks_pad, encryptBlocks_append, List.flatten_append]
  rfl

/-- A text that is not made of full blocks does not decrypt. -/
theorem open_eq_none [DecidableEq β] {c : List β} (hc : c.length % n ≠ 0) : C.open k v c = none := by
  have hlt := Nat.mod_lt c.length C.pos
  have hpending : (C.decryptUpdate k (init v) c).2.pending = c.drop (c.length / n * n) := by
    simp [decryptUpdate, init, hc]
  have hlen : (c.drop (c.length / n * n)).length = c.length % n := by
    rw [List.length_drop, Nat.mul_comm, ← Nat.mod_eq_sub_mul_div]
  have hfinal : C.decryptFinal k (C.decryptUpdate k (init v) c).2 = none := by
    rw [decryptFinal, hpending, hlen, if_neg (by omega)]
  simp [«open», hfinal]

/-- Of a text of full blocks the last one is held back. -/
theorem open_concat [DecidableEq β] {cs : List (List β)} {c : List β} (hcs : Full n cs)
    (hc : c.length = n) :
    C.open k v (cs ++ [c]).flatten =
      (C.unpad (C.decryptBlocks k (lastBlock v cs) [c]).flatten).map
        ((C.decryptBlocks k v cs).flatten ++ ·) := by
  have hflat : (cs ++ [c]).flatten = cs.flatten ++ c := by simp
  have hlen : (cs.flatten ++ c).length = (cs.length + 1) * n := by
    rw [List.length_append, length_flatten hcs, hc, Nat.add_mul, Nat.one_mul]
  have hmod : (cs.flatten ++ c).length % n = 0 := by rw [hlen, Nat.mul_mod_left]
  have hdiv : (cs.flatten ++ c).length / n - 1 = cs.length := by
    rw [hlen, Nat.mul_div_cancel _ C.pos, Nat.add_sub_cancel]
  have hdrop : (cs.flatten ++ c).drop (cs.length * n) = c := by
    rw [← length_flatten hcs, List.drop_left]
  have htake : blocks n cs.length (cs.flatten ++ c) = cs := by
    rw [blocks_append (Nat.le_of_eq (length_flatten hcs).symm), blocks_flatten hcs]
  simp only [«open», decryptUpdate, decryptFinal, init, List.nil_append, hflat, hmod, if_true, hdiv,
    hdrop, htake, hc]

/-- **What was sealed opens.** -/
theorem open_seal [DecidableEq β] (hv : v.length = n) (xs : List β) :
    C.open k v (C.seal k v xs) = some xs := by
  have hfull : Full n (blocks n (xs.length / n) xs) := full_blocks (Nat.div_mul_le_self ..)
  have hlast : Full n [C.pad (xs.drop (xs.length / n * n))] := by
    intro b hb
    refine full_blocks_pad (C := C) xs b ?_
    rw [blocks_pad]
    exact List.mem_append_right _ hb
  have hcs := full_encryptBlocks (C := C) (k := k) hv hfull
  -- the last block was combined with the ciphertext before it, which is a full block too
  have hprevious : (lastBlock v (C.encryptBlocks k v (blocks n (xs.length / n) xs))).length = n := by
    rw [lastBlock, List.getLastD_eq_getLast?]
    cases hget : (C.encryptBlocks k v (blocks n (xs.length / n) xs)).getLast? with
    | none => exact hv
    | some c => exact hcs c (List.mem_of_getLast? hget)
  have hundone := decryptBlocks_encryptBlocks (C := C) (k := k) hprevious hlast
  have hc := full_encryptBlocks (C := C) (k := k) hprevious hlast
  rw [«seal», blocks_pad, encryptBlocks_append]
  obtain ⟨c, hsingle⟩ : ∃ c, C.encryptBlocks k
      (lastBlock v (C.encryptBlocks k v (blocks n (xs.length / n) xs)))
      [C.pad (xs.drop (xs.length / n * n))] = [c] := ⟨_, rfl⟩
  rw [hsingle] at hundone hc ⊢
  rw [open_concat hcs (hc c (List.mem_singleton_self c)), hundone,
    decryptBlocks_encryptBlocks hv hfull]
  simp [unpad_pad, flatten_blocks]

end BlockCipher

end Cipher
