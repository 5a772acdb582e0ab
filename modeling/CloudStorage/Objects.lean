import Mathlib.Tactic.Abel
import CloudStorage.Interaction.Custody
import CloudStorage.TextAes

set_option autoImplicit false

/-! # The objects of the cryptographic functions

`Diffie-Hellman.cpp`, `crypto.cpp` and the signatures and keys of `Util.cpp` with what they allocate and
free: keys, contexts, buffers and files of OpenSSL. The calls into OpenSSL may give any answer; what is
promised of them is that a key is generated only with a positive status. -/

namespace CloudStorage

open Interaction Login

namespace Objects

/-! ## The calls into OpenSSL -/

/-- The types of the objects. -/
inductive Kind
  | pkey | pkeyCtx | mdCtx | cipherCtx | bio | x509 | crl | store | storeCtx | file
  deriving DecidableEq, Repr

/-- A pointer to an object that is not null. -/
structure Ptr (k : Kind) where
  address : Nat
  deriving DecidableEq, Repr

structure Object where
  kind : Kind
  address : Nat
  deriving DecidableEq, Repr

/-- What a pointer points to. -/
def Ptr.object {k : Kind} (p : Ptr k) : Object := ⟨k, p.address⟩

/-- What a pointer points to, if it is not null. -/
def held {k : Kind} : Option (Ptr k) → List Object
  | none => []
  | some p => [p.object]

@[simp]
theorem held_none {k : Kind} : held (none : Option (Ptr k)) = [] := rfl

@[simp]
theorem held_some {k : Kind} (p : Ptr k) : held (some p) = [p.object] := rfl

theorem coe_cons (o : Object) (os : List Object) :
    ((o :: os : List Object) : Multiset Object) = {o} + (os : Multiset Object) := rfl

/-- The functions that return a new object, or null. -/
inductive Maker : Kind → Type
  | pkeyCtxNewId : Maker .pkeyCtx
  | pkeyCtxNew (pkey : Option (Ptr .pkey)) : Maker .pkeyCtx
  | mdCtxNew : Maker .mdCtx
  | cipherCtxNew : Maker .cipherCtx
  | bioNew : Maker .bio
  | bioNewMemBuf (data : Buffer) : Maker .bio
  | fopen (path : Buffer) : Maker .file
  | pemReadBioPubkey (bio : Ptr .bio) : Maker .pkey
  | pemReadPubkey (file : Ptr .file) : Maker .pkey
  | pemReadPrivateKey (file : Ptr .file) (password : Buffer) : Maker .pkey
  | pemReadBioX509 (bio : Ptr .bio) : Maker .x509
  | pemReadX509 (file : Ptr .file) : Maker .x509
  | pemReadX509Crl (file : Ptr .file) : Maker .crl
  | x509GetPubkey (cert : Ptr .x509) : Maker .pkey
  | x509StoreNew : Maker .store
  | x509StoreCtxNew : Maker .storeCtx

/-- The objects that a function works on. -/
def Maker.uses {k : Kind} : Maker k → List Object
  | .pkeyCtxNew pkey => held pkey
  | .pemReadBioPubkey bio | .pemReadBioX509 bio => [bio.object]
  | .pemReadPubkey file | .pemReadPrivateKey file _ | .pemReadX509 file | .pemReadX509Crl file =>
    [file.object]
  | .x509GetPubkey cert => [cert.object]
  | .pkeyCtxNewId | .mdCtxNew | .cipherCtxNew | .bioNew | .bioNewMemBuf _ | .fopen _ | .x509StoreNew
  | .x509StoreCtxNew => []

/-- The functions that return a status and write a new key to a pointer that was null. -/
inductive Generator
  | paramgen (ctx : Ptr .pkeyCtx)
  | keygen (ctx : Ptr .pkeyCtx)

def Generator.uses : Generator → List Object
  | .paramgen ctx | .keygen ctx => [ctx.object]

/-- The functions that only return a status. -/
inductive Operation
  | paramgenInit (ctx : Ptr .pkeyCtx)
  | setEcParamgenCurveNid (ctx : Ptr .pkeyCtx)
  | keygenInit (ctx : Ptr .pkeyCtx)
  | deriveInit (ctx : Ptr .pkeyCtx)
  | deriveSetPeer (ctx : Ptr .pkeyCtx) (peer : Ptr .pkey)
  | pemWriteBioPubkey (bio : Ptr .bio) (pkey : Ptr .pkey)
  | pemWriteBioX509 (bio : Ptr .bio) (cert : Ptr .x509)
  | bioWrite (bio : Ptr .bio) (data : Buffer)
  | signInit (ctx : Ptr .mdCtx)
  | signUpdate (ctx : Ptr .mdCtx) (data : Buffer)
  | verifyInit (ctx : Ptr .mdCtx)
  | verifyUpdate (ctx : Ptr .mdCtx) (data : Buffer)
  | verifyFinal (ctx : Ptr .mdCtx) (signature : Buffer) (pkey : Option (Ptr .pkey))
  | digestInit (ctx : Ptr .mdCtx)
  | digestUpdate (ctx : Ptr .mdCtx) (data : Buffer)
  | cipherInit (encrypting : Bool) (ctx : Ptr .cipherCtx) (key iv : Option Buffer)
  | storeAddCert (store : Ptr .store) (cert : Ptr .x509)
  | storeAddCrl (store : Ptr .store) (crl : Ptr .crl)
  | storeSetFlags (store : Ptr .store)
  | storeCtxInit (ctx : Ptr .storeCtx) (store : Ptr .store) (cert : Ptr .x509)
  | verifyCert (ctx : Ptr .storeCtx)

def Operation.uses : Operation → List Object
  | .paramgenInit ctx | .setEcParamgenCurveNid ctx | .keygenInit ctx | .deriveInit ctx => [ctx.object]
  | .deriveSetPeer ctx peer => [ctx.object, peer.object]
  | .pemWriteBioPubkey bio pkey => [bio.object, pkey.object]
  | .pemWriteBioX509 bio cert => [bio.object, cert.object]
  | .bioWrite bio _ => [bio.object]
  | .signInit ctx | .signUpdate ctx _ | .verifyInit ctx | .verifyUpdate ctx _ | .digestInit ctx
  | .digestUpdate ctx _ => [ctx.object]
  | .verifyFinal ctx _ pkey => ctx.object :: held pkey
  | .cipherInit _ ctx _ _ => [ctx.object]
  | .storeAddCert store cert => [store.object, cert.object]
  | .storeAddCrl store crl => [store.object, crl.object]
  | .storeSetFlags store => [store.object]
  | .storeCtxInit ctx store cert => [ctx.object, store.object, cert.object]
  | .verifyCert ctx => [ctx.object]

/-- The functions that return a status and write bytes. -/
inductive Filler
  | randBytes (n : Nat)
  | derive (ctx : Ptr .pkeyCtx)
  | bioRead (bio : Ptr .bio) (n : Nat)
  | signFinal (ctx : Ptr .mdCtx) (pkey : Ptr .pkey)
  | digestFinal (ctx : Ptr .mdCtx)
  | cipherUpdate (encrypting : Bool) (ctx : Ptr .cipherCtx) (out : Bool) (data : Option Buffer) (n : Nat)
  | cipherFinal (encrypting : Bool) (ctx : Ptr .cipherCtx)

def Filler.uses : Filler → List Object
  | .randBytes _ => []
  | .derive ctx => [ctx.object]
  | .bioRead bio _ => [bio.object]
  | .signFinal ctx pkey => [ctx.object, pkey.object]
  | .digestFinal ctx => [ctx.object]
  | .cipherUpdate _ ctx _ _ _ | .cipherFinal _ ctx => [ctx.object]

/-- The calls. `deriveLength` is the derivation into a null buffer, which tells the length. -/
inductive LibCall
  | make {k : Kind} (f : Maker k)
  | generate (f : Generator)
  | status (f : Operation)
  | fill (f : Filler)
  | deriveLength (ctx : Ptr .pkeyCtx)
  | pkeySize (pkey : Ptr .pkey)
  | bioPending (bio : Ptr .bio)
  | bioMemData (bio : Ptr .bio)
  | free (o : Object)

def OpenSsl : Interface where
  Op := LibCall
  Ans
    | @LibCall.make k _ => Option (Ptr k)
    | .generate _ => Int × Option (Ptr .pkey)
    | .status _ => Int
    | .fill _ => Int × Buffer
    | .deriveLength _ => Int × Nat
    | .pkeySize _ | .bioPending _ => Nat
    | .bioMemData _ => Buffer
    | .free _ => Unit

/-- What the calls do with objects. -/
def custody : Custody OpenSsl Object where
  uses
    | .make f => f.uses
    | .generate f => f.uses
    | .status f => f.uses
    | .fill f => f.uses
    | .deriveLength ctx => [ctx.object]
    | .pkeySize pkey => [pkey.object]
    | .bioPending bio | .bioMemData bio => [bio.object]
    | .free _ => []
  frees
    | .free o => {o}
    | _ => 0
  makes
    | .make _, (p : Option _) => held p
    | .generate _, (a : Int × Option _) => held a.2
    | .status _, _ | .fill _, _ | .deriveLength _, _ | .pkeySize _, _ | .bioPending _, _
    | .bioMemData _, _ | .free _, _ => 0
  Answers
    | .generate _, (a : Int × Option _) => a.2.isSome → a.1 = 1
    | _, _ => True

/-- A function of the program with its calls into OpenSSL. -/
abbrev Obj (α : Type) : Type := Routine (Sys.plus OpenSsl) Session Exit α

section

variable {α : Type}

def lib (o : LibCall) : Obj (OpenSsl.Ans o) := Routine.call (I := Sys.plus OpenSsl) (.inr o)

def make {k : Kind} (f : Maker k) : Obj (Option (Ptr k)) := lib (.make f)

def generate (f : Generator) : Obj (Int × Option (Ptr .pkey)) := lib (.generate f)

def status (f : Operation) : Obj Int := lib (.status f)

def fill (f : Filler) : Obj (Int × Buffer) := lib (.fill f)

/-- Free objects, one after the other. Nothing is done for a pointer that is null. -/
def release : List Object → Obj Unit
  | [] => pure ()
  | o :: os => do
    lib (.free o)
    release os

/-- Free objects and return `a`. -/
def leaving (os : List Object) (a : α) : Obj α := do
  release os
  return a

end

/-! ## The rules for these calls -/

section

variable {α β : Type} {k : Kind} {A B : Multiset Object} {Q : β → Multiset Object → Prop}
  {E : Exit → Multiset Object → Prop}

theorem owns_make {f : Maker k} {g : Option (Ptr k) → Obj β} (hu : ∀ o ∈ f.uses, o ∈ A)
    (hnull : Owns custody A (g none) Q E)
    (hmade : ∀ p : Ptr k, Owns custody ({p.object} + A) (g (some p)) Q E) :
    Owns custody A (make f >>= g) Q E := by
  have hcall : Owns custody A (make f) (fun a B => B = (held a : Multiset Object) + A) E := by
    refine Owns.call ⟨hu, Multiset.zero_le A⟩ fun a _ => ?_
    show A - 0 + (held a : Multiset Object) = _
    rw [tsub_zero, add_comm]
  refine hcall.bind ?_
  rintro a B rfl
  cases a with
  | none => simpa only [held, Multiset.coe_nil, zero_add] using hnull
  | some p => exact hmade p

/-- A call that leaves the objects as they are. -/
theorem owns_lib {o : LibCall} {g : OpenSsl.Ans o → Obj β} (hu : ∀ x ∈ custody.uses o, x ∈ A)
    (hfrees : custody.frees o = 0) (hmakes : ∀ a, custody.makes o a = 0)
    (hg : ∀ a, Owns custody A (g a) Q E) : Owns custody A (lib o >>= g) Q E := by
  have hcall : Owns custody A (lib o) (fun _ B => B = A) E := by
    refine Owns.call ⟨hu, hfrees.trans_le (Multiset.zero_le A)⟩ fun a _ => ?_
    show A - custody.frees o + custody.makes o a = A
    rw [hfrees, hmakes a, tsub_zero, add_zero]
  refine hcall.bind ?_
  rintro a B rfl
  exact hg a

theorem owns_status {f : Operation} {g : Int → Obj β} (hu : ∀ o ∈ f.uses, o ∈ A)
    (hg : ∀ i, Owns custody A (g i) Q E) : Owns custody A (status f >>= g) Q E :=
  owns_lib hu rfl (fun _ => rfl) hg

theorem owns_fill {f : Filler} {g : Int × Buffer → Obj β} (hu : ∀ o ∈ f.uses, o ∈ A)
    (hg : ∀ a, Owns custody A (g a) Q E) : Owns custody A (fill f >>= g) Q E :=
  owns_lib hu rfl (fun _ => rfl) hg

theorem owns_generate {f : Generator} {g : Int × Option (Ptr .pkey) → Obj β} (hu : ∀ o ∈ f.uses, o ∈ A)
    (hg : ∀ i (p : Option (Ptr .pkey)), (p.isSome → i = 1) →
      Owns custody ((held p : Multiset Object) + A) (g (i, p)) Q E) :
    Owns custody A (generate f >>= g) Q E := by
  have hcall : Owns custody A (generate f)
      (fun a B => B = (held a.2 : Multiset Object) + A ∧ (a.2.isSome → a.1 = 1)) E := by
    refine Owns.call ⟨hu, Multiset.zero_le A⟩ fun a ha => ⟨?_, ha⟩
    show A - 0 + (held a.2 : Multiset Object) = _
    rw [tsub_zero, add_comm]
  refine hcall.bind ?_
  rintro ⟨i, p⟩ B ⟨rfl, hmade⟩
  exact hg i p hmade

/-- What is released has to be out. -/
theorem owns_release (os : List Object) :
    Owns custody ((os : Multiset Object) + B) (release os) (fun _ B' => B' = B) E := by
  induction os with
  | nil => exact .pure (zero_add B)
  | cons o os ih =>
      have hmem : ({o} : Multiset Object) ≤ ((o :: os : List Object) : Multiset Object) + B := by
        rw [coe_cons, add_assoc]
        exact Multiset.le_add_right _ _
      refine (Owns.call (P := fun _ B' => B' = (os : Multiset Object) + B) ⟨by simp [custody], hmem⟩
        fun a _ => ?_).bind ?_
      · show ((o :: os : List Object) : Multiset Object) + B - {o} + 0 = _
        rw [coe_cons, add_assoc, add_zero, add_tsub_cancel_left]
      · rintro _ B' rfl
        exact ih

theorem owns_ite {c : Prop} [Decidable c] {r r' : Obj β} (h : c → Owns custody A r Q E)
    (h' : ¬c → Owns custody A r' Q E) : Owns custody A (if c then r else r') Q E := by
  split_ifs with hc
  · exact h hc
  · exact h' hc

theorem owns_leaving (os : List Object) {a : β} (h : A = (os : Multiset Object) + B) (hq : Q a B) :
    Owns custody A (leaving os a) Q E := by
  rw [h]
  refine (owns_release os).bind ?_
  rintro _ B' rfl
  exact .pure hq

end

/-! ## Diffie-Hellman.cpp -/

/-- `ECDHKeyGeneration`. -/
def ecdhKeyGeneration : Obj (Option (Ptr .pkey)) := do
  match ← make .pkeyCtxNewId with
  | none => return none
  | some paramsCtx => do
    if (← status (.paramgenInit paramsCtx)) ≠ 1 then leaving [paramsCtx.object] none
    else if (← status (.setEcParamgenCurveNid paramsCtx)) ≠ 1 then leaving [paramsCtx.object] none
    else do
      let (ret, ecdhParams) ← generate (.paramgen paramsCtx)
      if ret = 0 then leaving (paramsCtx.object :: held ecdhParams) none
      else do
        match ← make (.pkeyCtxNew ecdhParams) with
        | none => leaving (paramsCtx.object :: held ecdhParams) none
        | some keyCtx => do
          if (← status (.keygenInit keyCtx)) ≠ 1 then
            leaving (paramsCtx.object :: keyCtx.object :: held ecdhParams) none
          else do
            let (ret, pKey) ← generate (.keygen keyCtx)
            if ret ≠ 1 then leaving (paramsCtx.object :: keyCtx.object :: held ecdhParams) none
            else leaving (paramsCtx.object :: keyCtx.object :: held ecdhParams) pKey

theorem owns_ecdhKeyGeneration {E : Exit → Multiset Object → Prop} :
    Owns custody 0 ecdhKeyGeneration (fun a B => B = (held a : Multiset Object)) E := by
  unfold ecdhKeyGeneration
  refine owns_make (by simp [Maker.uses]) (.pure rfl) fun paramsCtx => ?_
  have hfail : Owns custody ({paramsCtx.object} + 0) (leaving [paramsCtx.object] none)
      (fun (a : Option (Ptr .pkey)) B => B = (held a : Multiset Object)) E :=
    owns_leaving _ (by simp [held]) rfl
  refine owns_status (by simp [Operation.uses]) fun i => owns_ite (fun _ => hfail) fun _ => ?_
  refine owns_status (by simp [Operation.uses]) fun i => owns_ite (fun _ => hfail) fun _ => ?_
  refine owns_generate (by simp [Generator.uses]) fun ret ecdhParams _ => ?_
  have hfail : Owns custody ((held ecdhParams : Multiset Object) + ({paramsCtx.object} + 0))
      (leaving (paramsCtx.object :: held ecdhParams) none)
      (fun (a : Option (Ptr .pkey)) B => B = (held a : Multiset Object)) E :=
    owns_leaving _ (by simp only [coe_cons, held_none, Multiset.coe_nil]; abel) rfl
  refine owns_ite (fun _ => hfail) fun _ => ?_
  refine owns_make (fun o ho => Multiset.mem_add.2 (.inl ho)) hfail fun keyCtx => ?_
  have hleave : ∀ p, Owns custody ((held p : Multiset Object) +
      ({keyCtx.object} + ((held ecdhParams : Multiset Object) + ({paramsCtx.object} + 0))))
      (leaving (paramsCtx.object :: keyCtx.object :: held ecdhParams) p)
      (fun (a : Option (Ptr .pkey)) B => B = (held a : Multiset Object)) E :=
    fun p => owns_leaving _ (by simp only [coe_cons]; abel) rfl
  refine owns_status (by simp [Operation.uses]) fun i => owns_ite (fun _ => ?_) fun _ => ?_
  · simpa using hleave none
  · refine owns_generate (by simp [Generator.uses]) fun ret pKey hmade => ?_
    refine owns_ite (fun hret => ?_) fun _ => hleave pKey
    cases pKey with
    | none => exact hleave none
    | some p => exact absurd (hmade rfl) hret

/-- `serializePubKey`, before what the buffer holds. -/
def serializePubKey (publicKey : Ptr .pkey) (sKeyBuffer : Buffer) : Obj (Option Buffer) := do
  match ← make .bioNew with
  | none => return none
  | some bio => do
    if (← status (.pemWriteBioPubkey bio publicKey)) ≠ 1 then leaving [bio.object] none
    else do
      let data : Buffer ← lib (.bioMemData bio)
      leaving [bio.object] (some (data ++ sKeyBuffer))

/-- `deserializePublicKey`. -/
def deserializePublicKey (sKeyBuffer : Buffer) : Obj (Option (Ptr .pkey)) := do
  match ← make .bioNew with
  | none => return none
  | some bio => do
    if (← status (.bioWrite bio sKeyBuffer)) ≤ 0 then leaving [bio.object] none
    else do
      match ← make (.pemReadBioPubkey bio) with
      | none => leaving [bio.object] none
      | some pubKey => leaving [bio.object] (some pubKey)

/-- `deriveSharedSecret`: its status, and what it leaves in the buffer. -/
def deriveSharedSecret (hostKey peerKey : Ptr .pkey) (sharedKey : Buffer) : Obj (Int × Buffer) := do
  match ← make (.pkeyCtxNew (some hostKey)) with
  | none => return (0, sharedKey)
  | some deriveCtx => do
    if (← status (.deriveInit deriveCtx)) ≠ 1 then leaving [deriveCtx.object] (0, sharedKey)
    else if (← status (.deriveSetPeer deriveCtx peerKey)) ≠ 1 then
      leaving [deriveCtx.object] (0, sharedKey)
    else do
      let (ret, sharedKeyLength) ← lib (.deriveLength deriveCtx)
      if ret ≠ 1 then leaving [deriveCtx.object] (0, sharedKey)
      else do
        let sharedKey := fit sharedKeyLength sharedKey
        let (ret, secret) ← fill (.derive deriveCtx)
        let sharedKey := overwrite 0 secret sharedKey
        if ret ≠ 1 then leaving [deriveCtx.object] (0, sharedKey)
        else leaving [deriveCtx.object] (1, sharedKey)

section

variable {E : Exit → Multiset Object → Prop}

theorem owns_serializePubKey (key : Ptr .pkey) (b : Buffer) :
    Owns custody {key.object} (serializePubKey key b) (fun _ B => B = {key.object}) E := by
  unfold serializePubKey
  refine owns_make (by simp [Maker.uses]) (.pure rfl) fun bio => ?_
  have hleave : ∀ a : Option Buffer, Owns custody ({bio.object} + {key.object}) (leaving [bio.object] a)
      (fun _ B => B = {key.object}) E := fun a => owns_leaving _ rfl rfl
  refine owns_status (by simp [Operation.uses]) fun i => owns_ite (fun _ => hleave _) fun _ => ?_
  exact owns_lib (by simp [custody]) rfl (fun _ => rfl) fun data => hleave _

theorem owns_deserializePublicKey (b : Buffer) :
    Owns custody 0 (deserializePublicKey b) (fun a B => B = (held a : Multiset Object)) E := by
  unfold deserializePublicKey
  refine owns_make (by simp [Maker.uses]) (.pure rfl) fun bio => ?_
  have hfail : Owns custody ({bio.object} + 0) (leaving [bio.object] none)
      (fun (a : Option (Ptr .pkey)) B => B = (held a : Multiset Object)) E := owns_leaving _ rfl rfl
  refine owns_status (by simp [Operation.uses]) fun i => owns_ite (fun _ => hfail) fun _ => ?_
  refine owns_make (by simp [Maker.uses]) hfail fun pubKey => ?_
  exact owns_leaving _ (by simp only [coe_cons, held_some, Multiset.coe_nil]; abel) rfl

theorem owns_deriveSharedSecret (hostKey peerKey : Ptr .pkey) (b : Buffer) :
    Owns custody ({hostKey.object} + {peerKey.object}) (deriveSharedSecret hostKey peerKey b)
      (fun _ B => B = {hostKey.object} + {peerKey.object}) E := by
  unfold deriveSharedSecret
  refine owns_make (by simp [Maker.uses]) (.pure rfl) fun ctx => ?_
  have hleave : ∀ a : Int × Buffer, Owns custody ({ctx.object} + ({hostKey.object} + {peerKey.object}))
      (leaving [ctx.object] a) (fun _ B => B = {hostKey.object} + {peerKey.object}) E :=
    fun a => owns_leaving _ rfl rfl
  refine owns_status (by simp [Operation.uses]) fun i => owns_ite (fun _ => hleave _) fun _ => ?_
  refine owns_status (by simp [Operation.uses]) fun i => owns_ite (fun _ => hleave _) fun _ => ?_
  refine owns_lib (by simp [custody]) rfl (fun _ => rfl) fun derived => ?_
  refine owns_ite (fun _ => hleave _) fun _ => ?_
  refine owns_fill (by simp [Filler.uses]) fun filled => ?_
  exact owns_ite (fun _ => hleave _) fun _ => hleave _

end

/-! ## Util.cpp -/

/-- `generateDigitalSignature`, into a buffer that held `signature`. -/
def generateDigitalSignature (data : Buffer) (privateKey : Ptr .pkey) (signature : Buffer) :
    Obj (Option Buffer) := do
  match ← make .mdCtxNew with
  | none => return none
  | some ctx => do
    let size : Nat ← lib (.pkeySize privateKey)
    let signature := fit size signature
    if (← status (.signInit ctx)) = 0 then leaving [ctx.object] none
    else if (← status (.signUpdate ctx data)) = 0 then leaving [ctx.object] none
    else do
      let (ret, bytes) ← fill (.signFinal ctx privateKey)
      if ret = 0 then leaving [ctx.object] none
      else leaving [ctx.object] (some (overwrite 0 bytes signature))

/-- `verifyDigitalSignature`. -/
def verifyDigitalSignature (data signature : Buffer) (publicKey : Option (Ptr .pkey)) : Obj Bool := do
  match ← make .mdCtxNew with
  | none => return false
  | some ctx => do
    if (← status (.verifyInit ctx)) = 0 then leaving [ctx.object] false
    else if (← status (.verifyUpdate ctx data)) = 0 then leaving [ctx.object] false
    else if (← status (.verifyFinal ctx signature publicKey)) ≠ 1 then leaving [ctx.object] false
    else leaving [ctx.object] true

/-- `computeSHA256Digest`, into a buffer that held `digest`. -/
def computeSHA256Digest (data digest : Buffer) : Obj (Option Buffer) := do
  match ← make .mdCtxNew with
  | none => return none
  | some ctx => do
    let digest := fit 32 digest
    if (← status (.digestInit ctx)) ≠ 1 then leaving [ctx.object] none
    else if (← status (.digestUpdate ctx data)) ≠ 1 then leaving [ctx.object] none
    else do
      let (ret, bytes) ← fill (.digestFinal ctx)
      if ret ≠ 1 then leaving [ctx.object] none
      else leaving [ctx.object] (some (overwrite 0 bytes digest))

/-- Open a file and read a key from it. -/
def loadKey (path : Buffer) (read : Ptr .file → Maker .pkey) : Obj (Option (Ptr .pkey)) := do
  match ← make (.fopen path) with
  | none => return none
  | some file => do
    let key ← make (read file)
    leaving [file.object] key

/-- `loadPrivateKey`. -/
def loadPrivateKey (path password : Buffer) : Obj (Option (Ptr .pkey)) :=
  loadKey path fun file => .pemReadPrivateKey file password

/-- `loadPublicKey`. -/
def loadPublicKey (path : Buffer) : Obj (Option (Ptr .pkey)) := loadKey path .pemReadPubkey

section

variable {E : Exit → Multiset Object → Prop}

theorem owns_generateDigitalSignature (data : Buffer) (key : Ptr .pkey) (b : Buffer) :
    Owns custody {key.object} (generateDigitalSignature data key b) (fun _ B => B = {key.object}) E := by
  unfold generateDigitalSignature
  refine owns_make (by simp [Maker.uses]) (.pure rfl) fun ctx => ?_
  have hleave : ∀ a : Option Buffer, Owns custody ({ctx.object} + {key.object}) (leaving [ctx.object] a)
      (fun _ B => B = {key.object}) E := fun a => owns_leaving _ rfl rfl
  refine owns_lib (by simp [custody]) rfl (fun _ => rfl) fun size => ?_
  refine owns_status (by simp [Operation.uses]) fun i => owns_ite (fun _ => hleave _) fun _ => ?_
  refine owns_status (by simp [Operation.uses]) fun i => owns_ite (fun _ => hleave _) fun _ => ?_
  exact owns_fill (by simp [Filler.uses]) fun filled => owns_ite (fun _ => hleave _) fun _ => hleave _

theorem owns_verifyDigitalSignature (data signature : Buffer) (key : Option (Ptr .pkey)) :
    Owns custody (held key : Multiset Object) (verifyDigitalSignature data signature key)
      (fun _ B => B = (held key : Multiset Object)) E := by
  unfold verifyDigitalSignature
  refine owns_make (by simp [Maker.uses]) (.pure rfl) fun ctx => ?_
  have hleave : ∀ b : Bool, Owns custody ({ctx.object} + (held key : Multiset Object))
      (leaving [ctx.object] b) (fun _ B => B = (held key : Multiset Object)) E :=
    fun b => owns_leaving _ rfl rfl
  refine owns_status (by simp [Operation.uses]) fun i => owns_ite (fun _ => hleave _) fun _ => ?_
  refine owns_status (by simp [Operation.uses]) fun i => owns_ite (fun _ => hleave _) fun _ => ?_
  refine owns_status (by simp [Operation.uses]) fun i => owns_ite (fun _ => hleave _) fun _ => ?_
  exact hleave true

theorem owns_computeSHA256Digest (data b : Buffer) :
    Owns custody 0 (computeSHA256Digest data b) (fun _ B => B = 0) E := by
  unfold computeSHA256Digest
  refine owns_make (by simp [Maker.uses]) (.pure rfl) fun ctx => ?_
  have hleave : ∀ a : Option Buffer, Owns custody ({ctx.object} + 0) (leaving [ctx.object] a)
      (fun _ B => B = 0) E := fun a => owns_leaving _ rfl rfl
  refine owns_status (by simp [Operation.uses]) fun i => owns_ite (fun _ => hleave _) fun _ => ?_
  refine owns_status (by simp [Operation.uses]) fun i => owns_ite (fun _ => hleave _) fun _ => ?_
  exact owns_fill (by simp [Filler.uses]) fun filled => owns_ite (fun _ => hleave _) fun _ => hleave _

/-- The file is closed once the key is read. -/
theorem owns_loadKey {read : Ptr .file → Maker .pkey} (hread : ∀ file, (read file).uses = [file.object])
    (path : Buffer) :
    Owns custody 0 (loadKey path read) (fun a B => B = (held a : Multiset Object)) E := by
  refine owns_make (by simp [Maker.uses]) (.pure rfl) fun file => ?_
  refine owns_make (by simp [hread]) (owns_leaving _ rfl rfl) fun key => ?_
  exact owns_leaving _ (by simp only [coe_cons, held_some, Multiset.coe_nil]; abel) rfl

theorem owns_loadPrivateKey (path password : Buffer) :
    Owns custody 0 (loadPrivateKey path password) (fun a B => B = (held a : Multiset Object)) E :=
  owns_loadKey (fun _ => rfl) path

theorem owns_loadPublicKey (path : Buffer) :
    Owns custody 0 (loadPublicKey path) (fun a B => B = (held a : Multiset Object)) E :=
  owns_loadKey (fun _ => rfl) path

end

/-! ## crypto.cpp -/

/-- `encryptTextAES`: the ciphertext, in a buffer that held `cphrBuf`, and the IV. The result of
    `RAND_poll` is not looked at. -/
def encryptTextAES (clearBuf sessionKey cphrBuf : Buffer) : Obj (Option (Buffer × Buffer)) := do
  let (ret, iv) ← fill (.randBytes cbcIvLength)
  let iv := fit cbcIvLength iv
  if ret ≠ 1 then return none
  else if intMax - cbcIvLength < clearBuf.length then return none
  else do
    let cphrBuf := fit (clearBuf.length + cbcIvLength) cphrBuf
    match ← make .cipherCtxNew with
    | none => return none
    | some ctx => do
      if (← status (.cipherInit true ctx (some sessionKey) (some iv))) ≠ 1 then leaving [ctx.object] none
      else do
        let (ret, out) ← fill (.cipherUpdate true ctx true (some clearBuf) clearBuf.length)
        let cphrBuf := overwrite 0 out cphrBuf
        if ret ≠ 1 then leaving [ctx.object] none
        else do
          let (ret, last) ← fill (.cipherFinal true ctx)
          if ret ≠ 1 then leaving [ctx.object] none
          else leaving [ctx.object] (some (overwrite out.length last cphrBuf, iv))

/-- `decryptTextAES`, into a buffer that held `clearBuf`. The length of the ciphertext is an `int`; no
    vector has a negative one. -/
def decryptTextAES (cphrBuf sessionKey iv clearBuf : Buffer) : Obj (Option Buffer) := do
  let cphrSize := intOfWord (wordOfSize cphrBuf.length)
  if cphrSize < 0 then Routine.throw (.thrown .lengthError)
  else do
    let clearBuf := fit cphrSize.toNat clearBuf
    match ← make .cipherCtxNew with
    | none => return none
    | some ctx => do
      if (← status (.cipherInit false ctx (some sessionKey) (some iv))) ≠ 1 then leaving [ctx.object] none
      else do
        let (ret, out) ← fill (.cipherUpdate false ctx true (some cphrBuf) cphrSize.toNat)
        let clearBuf := overwrite 0 out clearBuf
        if ret ≠ 1 then leaving [ctx.object] none
        else do
          let (ret, last) ← fill (.cipherFinal false ctx)
          let clearBuf := overwrite out.length last clearBuf
          if ret ≠ 1 then leaving [ctx.object] none
          else leaving [ctx.object] (some (clearBuf.take (out.length + last.length)))

section

variable {E : Exit → Multiset Object → Prop}

theorem owns_encryptTextAES (clear key b : Buffer) :
    Owns custody 0 (encryptTextAES clear key b) (fun _ B => B = 0) E := by
  unfold encryptTextAES
  refine owns_fill (by simp [Filler.uses]) fun random => owns_ite (fun _ => .pure rfl) fun _ => ?_
  refine owns_ite (fun _ => .pure rfl) fun _ => ?_
  refine owns_make (by simp [Maker.uses]) (.pure rfl) fun ctx => ?_
  have hleave : ∀ a : Option (Buffer × Buffer), Owns custody ({ctx.object} + 0) (leaving [ctx.object] a)
      (fun _ B => B = 0) E := fun a => owns_leaving _ rfl rfl
  refine owns_status (by simp [Operation.uses]) fun i => owns_ite (fun _ => hleave _) fun _ => ?_
  refine owns_fill (by simp [Filler.uses]) fun filled => owns_ite (fun _ => hleave _) fun _ => ?_
  exact owns_fill (by simp [Filler.uses]) fun filled => owns_ite (fun _ => hleave _) fun _ => hleave _

theorem intOfWord_wordOfSize_nonneg {n : Nat} (h : n ≤ intMax) : ¬intOfWord (wordOfSize n) < 0 := by
  unfold intOfWord wordOfSize intMax at *
  split <;> omega

theorem owns_decryptTextAES (cphr key iv b : Buffer) (hlen : cphr.length ≤ intMax) :
    Owns custody 0 (decryptTextAES cphr key iv b) (fun _ B => B = 0) E := by
  unfold decryptTextAES
  rw [if_neg (intOfWord_wordOfSize_nonneg hlen)]
  refine owns_make (by simp [Maker.uses]) (.pure rfl) fun ctx => ?_
  have hleave : ∀ a : Option Buffer, Owns custody ({ctx.object} + 0) (leaving [ctx.object] a)
      (fun _ B => B = 0) E := fun a => owns_leaving _ rfl rfl
  refine owns_status (by simp [Operation.uses]) fun i => owns_ite (fun _ => hleave _) fun _ => ?_
  refine owns_fill (by simp [Filler.uses]) fun filled => owns_ite (fun _ => hleave _) fun _ => ?_
  exact owns_fill (by simp [Filler.uses]) fun filled => owns_ite (fun _ => hleave _) fun _ => hleave _

end

end Objects

end CloudStorage
