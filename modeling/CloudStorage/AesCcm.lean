import CloudStorage.TextAes
import CloudStorage.Cipher.Ccm

set_option autoImplicit false

/-! # AES-CCM

`encrypt_aes_ccm` and `decrypt_aes_ccm` of `crypto.cpp`, call by call over a context of the cipher
library. The library is a parameter, `Evp`; what its documentation promises is `Evp.Documented`. What a
call does depends on which of its arguments are null: a null input with a null output tells the length of
the text, a null input alone does nothing. The data of an empty vector are null, so an empty text is never
encrypted, and an empty ciphertext is never checked.

`Platform.ccm` is the cipher of the frames made of these two functions. -/

namespace CloudStorage

open Interaction Cipher Cipher.BlockCipher Login

namespace Crypto

def ivLength : Nat := 12
def tagLength : Nat := 14
def blockSize : Nat := 1
def keyLen : Nat := 16

/-! ## The layout of the blocks -/

/-- The last `m` bytes of a number, most significant first. -/
def bigEndian : (m : Nat) → Nat → Buffer
  | 0, _ => []
  | m + 1, w => UInt8.ofNat (w / 256 ^ m) :: bigEndian m w

@[simp]
theorem length_bigEndian (m w : Nat) : (bigEndian m w).length = m := by
  induction m with
  | zero => rfl
  | succ m ih => rw [bigEndian, List.length_cons, ih]

/-- The blocks of CCM with a length field of `l` bytes and a tag of `m` bytes: one byte of flags, the
    nonce, and the length or the number of the block. -/
def ccmLayout (l m : Nat) : Layout Buffer UInt8 where
  first nonce aadLength textLength :=
    UInt8.ofNat ((if aadLength = 0 then 0 else 64) + (m - 2) / 2 * 8 + (l - 1)) ::
      (nonce ++ bigEndian l textLength)
  header aadLength :=
    if aadLength < 65280 then bigEndian 2 aadLength
    else if aadLength < 4294967296 then 0xff :: 0xfe :: bigEndian 4 aadLength
    else 0xff :: 0xff :: bigEndian 8 aadLength
  counter nonce number := UInt8.ofNat (l - 1) :: (nonce ++ bigEndian l number)
  zero := 0
  tagLength := m

/-! ## The interface -/

/-- The functions of the cipher library that are called on an `EVP_CIPHER_CTX` with `EVP_aes_128_ccm`. A
    call that does not return 1 gives nothing; a null pointer is `none`, and of an output only whether it
    is null. What the calls of `EVP_CIPHER_CTX_ctrl` that set a length return is not looked at. -/
structure Evp where
  Ctx : Type
  /-- `EVP_CIPHER_CTX_new`. -/
  new : Option Ctx
  /-- `EVP_CIPHER_CTX_init`. -/
  reset : Ctx → Option Ctx
  /-- `EVP_EncryptInit` or `EVP_DecryptInit` with the cipher alone. -/
  initCipher : (encrypting : Bool) → Ctx → Option Ctx
  /-- `EVP_CTRL_CCM_SET_IVLEN`. -/
  setIvLength : Ctx → Nat → Ctx
  /-- `EVP_CTRL_CCM_SET_TAG`. -/
  setTag : Ctx → Nat → Option Buffer → Ctx
  /-- `EVP_EncryptInit` or `EVP_DecryptInit` with a key and an IV. -/
  initKey : (encrypting : Bool) → Ctx → (key iv : Option Buffer) → Option Ctx
  /-- `EVP_EncryptUpdate` or `EVP_DecryptUpdate`: what is written to the output, and `out_len`. -/
  update : (encrypting : Bool) → Ctx → (out : Bool) → (inp : Option Buffer) → (inl : Nat) →
    Option (Buffer × Nat × Ctx)
  /-- `EVP_EncryptFinal` or `EVP_DecryptFinal`. -/
  final : (encrypting : Bool) → Ctx → (out : Bool) → Option (Buffer × Nat × Ctx)
  /-- `EVP_CTRL_CCM_GET_TAG`. -/
  getTag : Ctx → Nat → Option Buffer

/-- What was set in a context. -/
structure Settings where
  encrypting : Bool
  ivLength : Nat
  tagLength : Nat
  key : Option Buffer
  iv : Option Buffer
  tag : Option Buffer
  /-- The length of the text, told beforehand. -/
  textLength : Option Nat
  aad : Buffer

namespace Settings

/-- The cipher is chosen: a nonce of 7 bytes, a tag of 12. -/
def chosen (encrypting : Bool) : Settings :=
  { encrypting := encrypting, ivLength := 7, tagLength := 12, key := none, iv := none, tag := none,
    textLength := none, aad := [] }

/-- The nonce and the length field share a block. -/
def layout (s : Settings) : Layout Buffer UInt8 := ccmLayout (15 - s.ivLength) s.tagLength

/-- The lengths that the length field can tell. -/
def limit (s : Settings) : Nat := 256 ^ (15 - s.ivLength)

end Settings

/-- What the documentation of the library says of these functions, for the block cipher `C` and contexts
    whose settings `S` tells: the mode is that of `authSeal` and `authOpen`. The length of the text is told
    first, with a null input and output; additional data have a null output; the text is processed by one
    call, which fails if the length field cannot tell its length, and when decrypting also if the tag is
    not the one that was set; a null input is no text. Nothing is said of calls in another order. -/
structure Evp.Documented (E : Evp) (S : E.Ctx → Settings) (C : Aes) : Prop where
  reset (ctx) : ∃ ctx', E.reset ctx = some ctx'
  initCipher (encrypting ctx) :
    ∃ ctx', E.initCipher encrypting ctx = some ctx' ∧ S ctx' = .chosen encrypting
  setIvLength (ctx n) : 7 ≤ n → n ≤ 13 → S (E.setIvLength ctx n) = { S ctx with ivLength := n }
  /-- A tag to compare with is set when decrypting only. -/
  setTag (ctx n tag) : n % 2 = 0 → 4 ≤ n → n ≤ 16 → tag.isNone = (S ctx).encrypting →
    (∀ t ∈ tag, t.length = n) → S (E.setTag ctx n tag) = { S ctx with tagLength := n, tag := tag }
  initKey (ctx key iv) : key.length = keyLen → iv.length = (S ctx).ivLength →
    ∃ ctx', E.initKey (S ctx).encrypting ctx (some key) (some iv) = some ctx' ∧
      S ctx' = { S ctx with key := some key, iv := some iv }
  update_length (ctx n) : (S ctx).key.isSome → (S ctx).iv.isSome →
    ∃ m ctx', E.update (S ctx).encrypting ctx false none n = some ([], m, ctx') ∧
      S ctx' = { S ctx with textLength := some n }
  update_aad (ctx aad) : (S ctx).key.isSome → (S ctx).iv.isSome → (S ctx).textLength.isSome →
    aad.length ≤ intMax →
    ∃ m ctx', E.update (S ctx).encrypting ctx false (some aad) aad.length = some ([], m, ctx') ∧
      S ctx' = { S ctx with aad := aad }
  update_none (ctx out) : (S ctx).key.isSome → (S ctx).iv.isSome → (S ctx).textLength = some 0 →
    ∃ ctx', E.update (S ctx).encrypting ctx out none 0 = some ([], 0, ctx') ∧ S ctx' = S ctx
  update_long (ctx key iv text) : (S ctx).key = some key → (S ctx).iv = some iv →
    (S ctx).textLength = some text.length → (S ctx).limit ≤ text.length →
    E.update (S ctx).encrypting ctx true (some text) text.length = none
  encrypt (ctx key iv text) : (S ctx).encrypting = true → (S ctx).key = some key →
    (S ctx).iv = some iv → (S ctx).textLength = some text.length → text.length < (S ctx).limit →
    ∃ ctx', E.update true ctx true (some text) text.length =
        some (C.crypt (S ctx).layout key iv text, text.length, ctx') ∧
      S ctx' = { S ctx with tag := some (C.authTag (S ctx).layout key iv (S ctx).aad text) }
  decrypt (ctx key iv tag text) : (S ctx).encrypting = false → (S ctx).key = some key →
    (S ctx).iv = some iv → (S ctx).tag = some tag → (S ctx).textLength = some text.length →
    text.length < (S ctx).limit →
    match C.authOpen (S ctx).layout key iv (S ctx).aad text tag with
    | none => E.update false ctx true (some text) text.length = none
    | some clear => ∃ ctx', E.update false ctx true (some text) text.length =
        some (clear, clear.length, ctx') ∧ (S ctx').key.isSome ∧ (S ctx').encrypting = false
  /-- There is nothing left to write; a context whose text was decrypted may have lost its IV. -/
  final (ctx out) : (S ctx).key.isSome → out = true ∨ (S ctx).iv.isSome →
    ∃ ctx', E.final (S ctx).encrypting ctx out = some ([], 0, ctx') ∧
      (S ctx').encrypting = (S ctx).encrypting ∧ (S ctx').tagLength = (S ctx).tagLength ∧
      (S ctx').tag = (S ctx).tag
  /-- Without a text there is no tag. -/
  getTag (ctx) : (S ctx).encrypting = true → E.getTag ctx (S ctx).tagLength = (S ctx).tag

/-- The data of a vector: an empty vector has none. -/
def dataOf (v : Buffer) : Option Buffer := if v.isEmpty then none else some v

/-! ## The two functions -/

/-- `encrypt_aes_ccm`: the ciphertext in a buffer that held `cphrBuf` before, and the tag in one that held
    `tag`. -/
def encryptAesCcm (E : Evp) (clearBuf cphrBuf sessionKey iv aad tag : Buffer) :
    Option (Buffer × Buffer) :=
  if intMax - blockSize < clearBuf.length then none
  else do
    -- a vector that held something keeps its memory
    let out := !(cphrBuf.isEmpty && clearBuf.isEmpty)
    let cphrBuf := fit clearBuf.length cphrBuf
    let ctx ← E.new
    let ctx ← E.reset ctx
    let ctx ← E.initCipher true ctx
    let ctx := E.setIvLength ctx ivLength
    let ctx := E.setTag ctx tagLength none
    let ctx ← E.initKey true ctx (dataOf sessionKey) (dataOf iv)
    let (_, _, ctx) ← E.update true ctx false none clearBuf.length
    let (_, _, ctx) ← E.update true ctx false (dataOf aad) aad.length
    let (cphr, outLen, ctx) ← E.update true ctx out (dataOf clearBuf) clearBuf.length
    let cphrBuf := overwrite 0 cphr cphrBuf
    let (rest, _, ctx) ← E.final true ctx out
    let cphrBuf := overwrite outLen rest cphrBuf
    let tag := fit tagLength tag
    let extracted ← E.getTag ctx tagLength
    return (cphrBuf, overwrite 0 extracted tag)

/-- `decrypt_aes_ccm`: the plaintext in a buffer that held `clearBuf` before. The length of the
    ciphertext is an `int`; no vector has a negative one. -/
def decryptAesCcm (E : Evp) (cphrBuf clearBuf sessionKey iv aad tag : Buffer) :
    Except Exception (Option Buffer) :=
  let cphrSize := intOfWord (wordOfSize cphrBuf.length)
  if cphrSize < 0 then throw .lengthError
  else return do
    let cphrSize := cphrSize.toNat
    let out := !(clearBuf.isEmpty && cphrSize == 0)
    let clearBuf := fit cphrSize clearBuf
    let ctx ← E.new
    let ctx ← E.reset ctx
    let ctx ← E.initCipher false ctx
    let ctx := E.setIvLength ctx ivLength
    let ctx := E.setTag ctx tagLength (dataOf tag)
    let ctx ← E.initKey false ctx (dataOf sessionKey) (dataOf iv)
    let (_, _, ctx) ← E.update false ctx false none cphrSize
    let (_, _, ctx) ← E.update false ctx false (dataOf aad) aad.length
    let (clear, outLen, ctx) ← E.update false ctx out ((dataOf cphrBuf).map (·.take cphrSize)) cphrSize
    let clearBuf := overwrite 0 clear clearBuf
    let totalLen := outLen
    let (rest, finalLen, _) ← E.final false ctx out
    let clearBuf := overwrite totalLen rest clearBuf
    let totalLen := totalLen + finalLen
    return clearBuf.take totalLen

/-! ## What they compute -/

/-- The layout that the two functions choose: a nonce of 12 bytes leaves three for the length. -/
abbrev layout : Layout Buffer UInt8 := ccmLayout 3 tagLength

/-- How long a text must be for its length not to fit. -/
def lengthLimit : Nat := 16777216

variable {E : Evp} {S : E.Ctx → Settings} {C : Aes}
  {clear cphrBuf clearBuf cphr sessionKey iv aad tag tagBuf : Buffer}

theorem fits_layout (hiv : iv.length = ivLength) : Fits layout cbcIvLength iv where
  first a m := by simp [layout, ccmLayout, hiv, ivLength, cbcIvLength]
  counter i := by simp [layout, ccmLayout, hiv, ivLength, cbcIvLength]
  tag := by decide

/-- A buffer that is overwritten from its beginning to its end. -/
theorem overwrite_fit {n : Nat} {data : Buffer} (buf : Buffer) (h : data.length = n) :
    overwrite 0 data (fit n buf) = data := by
  simp [overwrite, h]

@[simp]
theorem overwrite_nil (n : Nat) (buf : Buffer) : overwrite n [] buf = buf := by simp [overwrite]

theorem dataOf_of_ne {v : Buffer} (h : v ≠ []) : dataOf v = some v := by
  rw [dataOf, if_neg (by simpa using h)]

theorem dataOf_of_length {v : Buffer} {n : Nat} (h : v.length = n) (hn : 0 < n) : dataOf v = some v :=
  dataOf_of_ne (List.ne_nil_of_length_pos (by omega))

/-- The settings when the context was told of a text of `n` bytes and of the additional data. -/
def told (encrypting : Bool) (sessionKey iv : Buffer) (tag : Option Buffer) (n : Nat) (aad : Buffer) :
    Settings :=
  { encrypting := encrypting, ivLength := ivLength, tagLength := tagLength, key := some sessionKey,
    iv := some iv, tag := tag, textLength := some n, aad := aad }

section

variable (hE : E.Documented S C) (hmemory : E.new.isSome = true) (hkey : sessionKey.length = keyLen)
  (hiv : iv.length = ivLength) (haad : aad ≠ []) (hcount : aad.length ≤ intMax)

include hE hmemory hkey hiv haad hcount

/-- The calls before the text. -/
theorem exists_told (encrypting : Bool) (stored : Option Buffer) (hstored : stored.isNone = encrypting)
    (hlength : ∀ t ∈ stored, t.length = tagLength) (n : Nat) :
    ∃ made fresh chosen keyed counted ready m m', E.new = some made ∧ E.reset made = some fresh ∧
      E.initCipher encrypting fresh = some chosen ∧
      E.initKey encrypting (E.setTag (E.setIvLength chosen ivLength) tagLength stored)
        (dataOf sessionKey) (dataOf iv) = some keyed ∧
      E.update encrypting keyed false none n = some ([], m, counted) ∧
      E.update encrypting counted false (dataOf aad) aad.length = some ([], m', ready) ∧
      S ready = told encrypting sessionKey iv stored n aad := by
  obtain ⟨made, hmade⟩ := Option.isSome_iff_exists.1 hmemory
  obtain ⟨fresh, hfresh⟩ := hE.reset made
  obtain ⟨chosen, hchosen, hset⟩ := hE.initCipher encrypting fresh
  have hset := (hE.setIvLength chosen ivLength (by decide) (by decide)).trans (by rw [hset])
  have hset := (hE.setTag (E.setIvLength chosen ivLength) tagLength stored (by decide) (by decide)
    (by decide) (by rw [hset]; exact hstored) hlength).trans (by rw [hset])
  obtain ⟨keyed, hkeyed, hset'⟩ := hE.initKey _ sessionKey iv hkey (by rw [hset]; exact hiv)
  rw [hset] at hkeyed hset'
  obtain ⟨m, counted, hcounted, hset⟩ :=
    hE.update_length keyed n (by rw [hset']; rfl) (by rw [hset']; rfl)
  rw [hset'] at hcounted hset
  obtain ⟨m', ready, hready, hset'⟩ := hE.update_aad counted aad (by rw [hset]; rfl) (by rw [hset]; rfl)
    (by rw [hset]; rfl) hcount
  rw [hset] at hready hset'
  refine ⟨made, fresh, chosen, keyed, counted, ready, m, m', hmade, hfresh, hchosen, ?_, hcounted, ?_,
    hset'⟩
  · rw [dataOf_of_length hkey (by decide), dataOf_of_length hiv (by decide)]
    exact hkeyed
  · rw [dataOf_of_ne haad]
    exact hready

/-- **What `encrypt_aes_ccm` computes**: the sealed text, unless the text is empty or its length does not
    fit. -/
theorem encryptAesCcm_eq :
    encryptAesCcm E clear cphrBuf sessionKey iv aad tagBuf =
      if clear ≠ [] ∧ clear.length < lengthLimit then some (C.authSeal layout sessionKey iv aad clear)
      else none := by
  by_cases hlong : intMax - blockSize < clear.length
  · have hover : ¬clear.length < lengthLimit := by
      unfold intMax blockSize lengthLimit at *
      omega
    rw [encryptAesCcm, if_pos hlong, if_neg fun h => hover h.2]
  obtain ⟨made, fresh, chosen, keyed, counted, ready, m, m', hmade, hfresh, hchosen, hkeyed, hcounted,
    hready, hset⟩ := exists_told hE hmemory hkey hiv haad hcount true none rfl (by simp) clear.length
  rw [encryptAesCcm, if_neg hlong]
  simp only [hmade, hfresh, hchosen, hkeyed, hcounted, hready, Option.bind_eq_bind, Option.bind_some]
  have hnone := hE.update_none ready
  have hlimit := hE.update_long ready sessionKey iv clear
  have hencrypt := hE.encrypt ready sessionKey iv clear
  rw [hset] at hnone hlimit hencrypt
  by_cases hclear : clear = []
  · -- the text is null: no tag is ever computed
    subst hclear
    rw [if_neg fun h => h.1 rfl]
    obtain ⟨same, hsame, hset'⟩ := hnone (!(cphrBuf.isEmpty && ([] : Buffer).isEmpty)) rfl rfl rfl
    obtain ⟨last, hlast, henc, hlen, htag⟩ := hE.final same
      (!(cphrBuf.isEmpty && ([] : Buffer).isEmpty)) (by rw [hset']; rfl) (.inr (by rw [hset']; rfl))
    rw [hset'] at hlast henc hlen htag
    have hget := hE.getTag last henc
    rw [hlen, htag] at hget
    have hdata : dataOf [] = none := rfl
    change E.getTag last tagLength = none at hget
    change E.update true ready _ none 0 = _ at hsame
    change E.final true same _ = _ at hlast
    simp only [hdata, List.length_nil, hsame, hlast, hget, Option.bind_some, Option.bind_none]
  · have hout : (!(cphrBuf.isEmpty && clear.isEmpty)) = true := by simp [hclear]
    rw [hout, dataOf_of_ne hclear]
    by_cases hfits : clear.length < lengthLimit
    · obtain ⟨sealed, hsealed, hset'⟩ := hencrypt rfl rfl rfl rfl hfits
      obtain ⟨last, hlast, henc, hlen, htag⟩ := hE.final sealed true (by rw [hset']; rfl) (.inl rfl)
      rw [hset'] at hlast henc hlen htag
      have hget := hE.getTag last henc
      rw [hlen, htag] at hget
      change E.getTag last tagLength = some (C.authTag layout sessionKey iv aad clear) at hget
      change E.final true sealed true = _ at hlast
      have htaglen : (C.authTag layout sessionKey iv aad clear).length = tagLength :=
        length_authTag (fits_layout hiv) aad clear
      have hcrypt : (C.crypt layout sessionKey iv clear).length = clear.length :=
        length_crypt (fits_layout hiv) clear
      rw [if_pos ⟨hclear, hfits⟩]
      change _ = some (C.crypt layout sessionKey iv clear, clear.length, sealed) at hsealed
      simp only [hsealed, hlast, hget, Option.bind_some, overwrite_nil, overwrite_fit _ hcrypt,
        overwrite_fit _ htaglen]
      rfl
    · rw [if_neg fun h => hfits h.2]
      have hrefused : E.update true ready true (some clear) clear.length = none :=
        hlimit rfl rfl rfl (Nat.le_of_not_lt hfits)
      rw [hrefused, Option.bind_none]

/-- **What `decrypt_aes_ccm` computes**: the opened ciphertext, unless its length does not fit; nothing is
    checked for an empty ciphertext. -/
theorem decryptAesCcm_eq (htag : tag.length = tagLength) (hlen : cphr.length ≤ intMax) :
    decryptAesCcm E cphr clearBuf sessionKey iv aad tag =
      .ok (if cphr = [] then some []
        else if cphr.length < lengthLimit then C.authOpen layout sessionKey iv aad cphr tag
        else none) := by
  have hsize : intOfWord (wordOfSize cphr.length) = cphr.length := by
    unfold intOfWord wordOfSize intMax at *
    split <;> omega
  obtain ⟨made, fresh, chosen, keyed, counted, ready, m, m', hmade, hfresh, hchosen, hkeyed, hcounted,
    hready, hset⟩ := exists_told hE hmemory hkey hiv haad hcount false (some tag) rfl
      (by simpa using htag) cphr.length
  rw [decryptAesCcm]
  simp only [hsize, Int.toNat_natCast]
  rw [if_neg (by omega), dataOf_of_length htag (by decide)]
  simp only [hmade, hfresh, hchosen, hkeyed, hcounted, hready, Option.bind_eq_bind, Option.bind_some]
  have hnone := hE.update_none ready
  have hlimit := hE.update_long ready sessionKey iv cphr
  have hdecrypt := hE.decrypt ready sessionKey iv tag cphr
  rw [hset] at hnone hlimit hdecrypt
  by_cases hcphr : cphr = []
  · subst hcphr
    have hdata : (dataOf []).map (·.take ([] : Buffer).length) = none := rfl
    rw [if_pos rfl, hdata, List.length_nil]
    generalize (!(clearBuf.isEmpty && (0 : Nat) == 0)) = out
    obtain ⟨same, hsame, hset'⟩ := hnone out rfl rfl rfl
    obtain ⟨last, hlast, -⟩ := hE.final same out (by rw [hset']; rfl) (.inr (by rw [hset']; rfl))
    rw [hset'] at hlast
    change E.update false ready out none 0 = _ at hsame
    change E.final false same out = _ at hlast
    rw [hsame]
    change Except.ok ((E.final false same _).bind _) = _
    rw [hlast]
    rfl
  · have hout : (!(clearBuf.isEmpty && cphr.length == 0)) = true := by simp [hcphr]
    have htake : (dataOf cphr).map (·.take cphr.length) = some cphr := by
      rw [dataOf_of_ne hcphr, Option.map_some, List.take_length]
    rw [if_neg hcphr, hout, htake]
    by_cases hfits : cphr.length < lengthLimit
    · rw [if_pos hfits]
      have hopened := hdecrypt rfl rfl rfl rfl rfl hfits
      change match C.authOpen layout sessionKey iv aad cphr tag with
        | none => _
        | some clear => _ at hopened
      cases hopen : C.authOpen layout sessionKey iv aad cphr tag with
      | none =>
          rw [hopen] at hopened
          rw [hopened]
          rfl
      | some clear =>
          rw [hopen] at hopened
          obtain ⟨last, hupdate, hkeys, henc⟩ := hopened
          obtain ⟨done, hfinal, -⟩ := hE.final last true hkeys (.inl rfl)
          rw [henc] at hfinal
          have hseal := (authOpen_iff (fits_layout hiv)).1 hopen
          have hclear : clear.length = cphr.length := by
            rw [← (Prod.mk.inj hseal).1, length_crypt (fits_layout hiv)]
          rw [hupdate]
          change Except.ok ((E.final false last true).bind _) = _
          rw [hfinal]
          change Except.ok (some ((overwrite clear.length [] (overwrite 0 clear
            (fit cphr.length clearBuf))).take (clear.length + 0))) = _
          rw [overwrite_nil, overwrite_fit _ hclear, Nat.add_zero, List.take_length]
    · rw [if_neg hfits]
      have hrefused : E.update false ready true (some cphr) cphr.length = none :=
        hlimit rfl rfl rfl (Nat.le_of_not_lt hfits)
      rw [hrefused]
      rfl

/-- What is encrypted is not empty, and its length fits. -/
theorem length_encrypted
    (h : encryptAesCcm E clear cphrBuf sessionKey iv aad tagBuf = some (cphr, tag)) :
    cphr.length = clear.length ∧ tag.length = tagLength ∧ clear ≠ [] ∧ clear.length < lengthLimit := by
  rw [encryptAesCcm_eq hE hmemory hkey hiv haad hcount] at h
  split_ifs at h with hclear
  obtain ⟨rfl, rfl⟩ := Prod.mk.inj (Option.some.inj h)
  exact ⟨length_crypt (fits_layout hiv) _, length_authTag (fits_layout hiv) _ _, hclear⟩

/-- What was encrypted decrypts. -/
theorem decrypts_of_encrypted
    (h : encryptAesCcm E clear cphrBuf sessionKey iv aad tagBuf = some (cphr, tag)) :
    decryptAesCcm E cphr clearBuf sessionKey iv aad tag = .ok (some clear) := by
  obtain ⟨hlength, htag, hne, hlimit⟩ := length_encrypted hE hmemory hkey hiv haad hcount h
  have hcphr : cphr ≠ [] := by
    intro hnil
    rw [hnil] at hlength
    exact hne (List.eq_nil_of_length_eq_zero hlength.symm)
  have hlen : cphr.length ≤ intMax := by
    unfold lengthLimit intMax at *
    omega
  rw [encryptAesCcm_eq hE hmemory hkey hiv haad hcount] at h
  split_ifs at h with hclear
  rw [decryptAesCcm_eq hE hmemory hkey hiv haad hcount htag hlen, if_neg hcphr,
    if_pos (hlength.trans_lt hlimit)]
  exact congrArg Except.ok ((authOpen_iff (fits_layout hiv)).2 (Option.some.inj h))

/-- A decrypted text is as long as the ciphertext, and unless that is empty it was encrypted. -/
theorem encrypted_of_decrypts (cphrBuf tagBuf : Buffer) (htag : tag.length = tagLength)
    (hlen : cphr.length ≤ intMax)
    (h : decryptAesCcm E cphr clearBuf sessionKey iv aad tag = .ok (some clear)) :
    clear.length = cphr.length ∧
      (encryptAesCcm E clear cphrBuf sessionKey iv aad tagBuf = some (cphr, tag) ∨ cphr = []) := by
  rw [decryptAesCcm_eq hE hmemory hkey hiv haad hcount htag hlen, Except.ok.injEq] at h
  split_ifs at h with hcphr hlimit
  · rw [← Option.some.inj h, hcphr]
    exact ⟨rfl, .inr rfl⟩
  · have hseal := (authOpen_iff (fits_layout hiv)).1 h
    have hclear : clear.length = cphr.length := by
      rw [← (Prod.mk.inj hseal).1, length_crypt (fits_layout hiv)]
    have hne : clear ≠ [] := by
      intro hnil
      rw [hnil] at hclear
      exact hcphr (List.eq_nil_of_length_eq_zero hclear.symm)
    refine ⟨hclear, .inl ?_⟩
    rw [encryptAesCcm_eq hE hmemory hkey hiv haad hcount, if_pos ⟨hne, hclear.trans_lt hlimit⟩, hseal]

end


/-! ## A library that does so -/

/-- The calls of the mode on the settings. -/
def Settings.update (C : Aes) (encrypting : Bool) (s : Settings) (out : Bool) (inp : Option Buffer)
    (inl : Nat) : Option (Buffer × Nat × Settings) :=
  match s.key, s.iv with
  | some key, some iv =>
    match out, inp with
    | false, none => some ([], inl, { s with textLength := some inl })
    | false, some data => some ([], inl, { s with aad := data })
    | true, none => some ([], 0, s)
    | true, some data =>
      if s.textLength ≠ some inl ∨ s.limit ≤ inl then none
      else if encrypting then
        let (cipher, tag) := C.authSeal s.layout key iv s.aad data
        some (cipher, inl, { s with tag := some tag })
      else
        match s.tag with
        | none => none
        | some tag => (C.authOpen s.layout key iv s.aad data tag).map fun clear =>
            (clear, clear.length, { s with iv := none })
  | _, _ => none

/-- A library that keeps the settings themselves. -/
def Evp.direct (C : Aes) : Evp where
  Ctx := Settings
  new := some (.chosen true)
  reset ctx := some ctx
  initCipher encrypting _ := some (.chosen encrypting)
  setIvLength ctx n := { ctx with ivLength := n }
  setTag ctx n tag := { ctx with tagLength := n, tag := tag }
  initKey _ ctx key iv := some { ctx with key := key, iv := iv }
  update encrypting ctx := ctx.update C encrypting
  final _ ctx _ := some ([], 0, ctx)
  getTag ctx _ := ctx.tag

theorem documented_direct (C : Aes) : (Evp.direct C).Documented id C where
  reset _ := ⟨_, rfl⟩
  initCipher _ _ := ⟨_, rfl, rfl⟩
  setIvLength _ _ _ _ := rfl
  setTag _ _ _ _ _ _ _ _ := rfl
  initKey _ _ _ _ _ := ⟨_, rfl, rfl⟩
  update_length
    | ⟨_, _, _, some _, some _, _, _, _⟩, _, _, _ => ⟨_, _, rfl, rfl⟩
  update_aad
    | ⟨_, _, _, some _, some _, _, _, _⟩, _, _, _, _, _ => ⟨_, _, rfl, rfl⟩
  update_none
    | ⟨_, _, _, some _, some _, _, some 0, _⟩, false, _, _, _ => ⟨_, rfl, rfl⟩
    | ⟨_, _, _, some _, some _, _, some 0, _⟩, true, _, _, _ => ⟨_, rfl, rfl⟩
  update_long ctx key iv text hkey hiv _ hlimit := by
    have hkey : Settings.key ctx = some key := hkey
    have hiv : Settings.iv ctx = some iv := hiv
    have hlimit : Settings.limit ctx ≤ text.length := hlimit
    change Settings.update C _ ctx true (some text) text.length = none
    simp [Settings.update, hkey, hiv, hlimit]
  encrypt ctx key iv text _ hkey hiv htext hlimit := by
    have hkey : Settings.key ctx = some key := hkey
    have hiv : Settings.iv ctx = some iv := hiv
    have htext : Settings.textLength ctx = some text.length := htext
    have hlimit : ¬Settings.limit ctx ≤ text.length := Nat.not_le.2 hlimit
    refine ⟨_, ?_, rfl⟩
    change Settings.update C true ctx true (some text) text.length = _
    simp [Settings.update, hkey, hiv, htext, hlimit, BlockCipher.authSeal]
    rfl
  decrypt ctx key iv tag text henc hkey hiv htag htext hlimit := by
    have hkey : Settings.key ctx = some key := hkey
    have hiv : Settings.iv ctx = some iv := hiv
    have htag : Settings.tag ctx = some tag := htag
    have htext : Settings.textLength ctx = some text.length := htext
    have hlimit : ¬Settings.limit ctx ≤ text.length := Nat.not_le.2 hlimit
    change match C.authOpen (Settings.layout ctx) key iv (Settings.aad ctx) text tag with
      | none => Settings.update C false ctx true (some text) text.length = none
      | some clear => ∃ ctx', Settings.update C false ctx true (some text) text.length =
          some (clear, clear.length, ctx') ∧ ctx'.key.isSome ∧ ctx'.encrypting = false
    cases hopen : C.authOpen (Settings.layout ctx) key iv (Settings.aad ctx) text tag with
    | none => simp [Settings.update, hkey, hiv, htag, hopen]
    | some clear =>
        refine ⟨{ (show Settings from ctx) with iv := none }, ?_, Option.isSome_iff_exists.2 ⟨_, hkey⟩,
          henc⟩
        simp [Settings.update, hkey, hiv, htag, htext, hlimit, hopen]
  final _ _ _ _ := ⟨_, rfl, rfl, rfl, rfl⟩
  getTag _ _ := rfl

end Crypto

/-! ## Frames -/

open Crypto

/-- A call that neither throws nor fails. -/
theorem toOption_join {d : Except Exception (Option Buffer)} {b : Buffer} :
    d.toOption.join = some b ↔ d = .ok (some b) := by
  cases d with
  | error e => simp [Except.toOption]
  | ok r => cases r <;> simp [Except.toOption]

/-- The host with AES-128-CCM as the two functions offer it over a library that does what it documents.
    Arguments of other lengths, which would be read past their end, additional data that are null and
    lengths that an `int` does not hold are not asked about. -/
def Platform.ccm (order : ByteOrder) {E : Evp} {S : E.Ctx → Settings} {C : Aes} (hE : E.Documented S C)
    (hmemory : E.new.isSome = true) : Platform where
  order := order
  encrypt key iv aad clear :=
    if key.length = keyLen ∧ iv.length = ivLength ∧ aad ≠ [] ∧ aad.length ≤ intMax then
      encryptAesCcm E clear [] key iv aad []
    else none
  decrypt key iv aad cipher tag :=
    if (key.length = keyLen ∧ iv.length = ivLength ∧ aad ≠ [] ∧ aad.length ≤ intMax) ∧
        tag.length = tagLength ∧ cipher.length ≤ intMax then
      (decryptAesCcm E cipher [] key iv aad tag).toOption.join
    else none
  length_decrypt := by
    intro key iv aad cipher tag clear h
    split_ifs at h with hargs
    obtain ⟨⟨hkey, hiv, haad, hcount⟩, htag, hlen⟩ := hargs
    exact (encrypted_of_decrypts hE hmemory hkey hiv haad hcount [] [] htag hlen
      (toOption_join.1 h)).1
  decrypt_encrypt := by
    intro key iv aad clear cipher tag h
    split_ifs at h with hargs
    obtain ⟨hkey, hiv, haad, hcount⟩ := hargs
    obtain ⟨hlength, htag, -, hlimit⟩ := length_encrypted hE hmemory hkey hiv haad hcount h
    have hlen : cipher.length ≤ intMax := by
      unfold lengthLimit intMax at *
      omega
    refine ⟨hlength, htag, ?_⟩
    rw [if_pos ⟨⟨hkey, hiv, haad, hcount⟩, htag, hlen⟩,
      decrypts_of_encrypted hE hmemory hkey hiv haad hcount h]
    rfl

/-- The host with a library that keeps the settings, and a block cipher that hides nothing. -/
def Platform.aes (order : ByteOrder) : Platform := .ccm order (documented_direct .plain) rfl

namespace Wrapper

/-- The additional data of a frame. -/
theorem length_createAAD {order : ByteOrder} {iv : Buffer} (n : Nat) (hiv : iv.length = ivLength) :
    (createAAD order n iv).length = 16 := by
  rw [createAAD, List.length_append, hiv, length_image]
  rfl

variable {order : ByteOrder} {E : Evp} {S : E.Ctx → Settings} {C : Aes} {hE : E.Documented S C}
  {hmemory : E.new.isSome = true} {key iv payload wrapper : Buffer} {counter : Int}

/-- Additional data of 16 bytes are neither null nor too long. -/
theorem ne_nil_of_length {aad : Buffer} (haad : aad.length = 16) : aad ≠ [] ∧ aad.length ≤ intMax :=
  ⟨List.ne_nil_of_length_pos (by omega), haad.trans_le (by decide)⟩

end Wrapper

/-- A frame under the key of zeros. -/
def sealedFrame (counter : Int) (payload : Buffer) : Buffer :=
  (Wrapper.frame (.aes .little) (List.replicate 16 0) (List.replicate 12 3) counter payload).getD []

end CloudStorage
