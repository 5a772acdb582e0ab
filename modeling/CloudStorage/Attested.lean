import CloudStorage.IdealLogin

set_option autoImplicit false

/-! # What the signatures show

Any number of programs with ideal primitives, and an attacker who carries all messages. Nothing is used of
a program but what it guarantees of its calls (`IdealCrypto.Guards`), and a run may restrict the answers
further, so this holds of logins and of whole sessions (`Attested`).

The data that is signed is the server's serialized key with the client's behind it, and either buffer may
carry further keys, but the first key in it is the server's for everyone who reads it. The client's session
key is then a secret of two keys that only it and one worker have, so that the encrypted signature of the
server tells the client that this worker has derived it. -/

namespace CloudStorage

open Interaction Interaction.Routine Handshake

namespace Agreement

open IdealCrypto

variable {ι α : Type} {I : IdealCrypto ι}

theorem op_of_signs {data : Buffer} {key : Pkey} {e : Event} (h : signs data key e) :
    e.1 = .sys (.crypto (.generateDigitalSignature data key)) := by
  unfold signs at h
  split at h
  · simp only [Bool.and_eq_true, beq_iff_eq] at h
    rw [h.1.1, h.1.2]
  · cases h

theorem op_of_derives {sessionKey : Buffer} {e : Event} (h : derives sessionKey e) :
    e.1 = .sys (.note (.derived sessionKey)) := by
  unfold derives at h
  split at h
  · rw [beq_iff_eq.1 h]
  · cases h

/-- The user's key as the worker knows it. -/
def userKey (I : IdealCrypto ι) (username : Buffer) : Pkey := I.privateKey (privateKeyFile username)

/-- Programs before their first calls that guarantee these as the logins do, where `allowed` asks at least
    for ideal answers. -/
structure Attested (I : IdealCrypto ι) (role : ι → Endpoint)
    (allowed : ι → (ι → List Event) → (o : Sys.Op) → Sys.Ans o → Prop)
    (c₀ : ι → Program Sys α × List Event) : Prop where
  ideal : ∀ i s o a, allowed i s o a → I.Allowed i s o a
  new : ∀ i, (c₀ i).2 = []
  guards : ∀ i, (c₀ i).1.Sat (Journal.Own (I.Own i)) (fun t o _ _ => I.Guards i (role i) t o)
    (fun _ _ => True) []

/-- A client that can sign the data for a user, with a session key it has accepted. -/
structure Signer (I : IdealCrypto ι) (i : ι) (t : List Event) (username data sessionKey : Buffer)
    (own peer : Pkey) : Prop where
  loads : ∃ e ∈ t, loads (userKey I username) e
  accepted : I.Accepted i t sessionKey data own peer

namespace Attested

variable [DecidableEq ι] {role : ι → Endpoint}
  {allowed : ι → (ι → List Event) → (o : Sys.Op) → Sys.Ans o → Prop}
  {c₀ c : ι → Program Sys α × List Event} {i w : ι}

/-- At its moment, a call was allowed, and what is guaranteed of it was so. -/
theorem guaranteed (h : Attested I role allowed c₀) (hrun : Parallel.Reaches (Journal allowed) c₀ c)
    {e : Event} (he : e ∈ (c i).2) : ∃ d, I.Guards i (role i) (d i).2 e.1 ∧
      allowed i (fun j => (d j).2) e.1 e.2 ∧ (∀ j, (d j).2 ⊆ (c j).2) ∧
      Parallel.Reaches (Journal allowed) c₀ d := by
  have hnew : e ∉ (c₀ i).2 := by
    rw [h.new i]
    exact List.not_mem_nil
  have hsat := h.guards i
  rw [← h.new i] at hsat
  obtain ⟨d, hd, hguard, hallowed, hrest⟩ := Journal.guaranteed hrun he hnew
    (fun s o a hstep => (h.ideal i s o a hstep).own) hsat
  exact ⟨d, hguard, hallowed, Journal.subset_of_reaches hrest, hd⟩

/-- Who derived a session key has it from a key of its own. -/
theorem keyed_of_derives (h : Attested I role allowed c₀) (hrun : Parallel.Reaches (Journal allowed) c₀ c)
    {e : Event} (he : e ∈ (c i).2) {sessionKey : Buffer} (hderives : derives sessionKey e) :
    ∃ own peer, I.Keyed i sessionKey own peer := by
  obtain ⟨d, hguard, -, -, -⟩ := h.guaranteed hrun he
  rw [op_of_derives hderives] at hguard
  cases hrole : role i with
  | client =>
      rw [hrole] at hguard
      exact hguard
  | worker =>
      rw [hrole] at hguard
      exact hguard

/-- **The server's signature comes from a worker**, and the data begins with the worker's own key. -/
theorem owner_of_verified (h : Attested I role allowed c₀) (hrun : Parallel.Reaches (Journal allowed) c₀ c)
    {data signature : Buffer} (hverify :
      cryptoEvent (.verifyDigitalSignature data signature (I.privateKey serverKeyFile)) true ∈ (c i).2) :
    I.IsSignature signature ∧
      ∃ w key rest, role w = .worker ∧ I.owner key = some w ∧ data = I.pem key ++ rest := by
  obtain ⟨d, -, hallowed, -, hd⟩ := h.guaranteed hrun hverify
  obtain ⟨hsignature, w, e, he, hsigns⟩ := (h.ideal _ _ _ _ hallowed).2 rfl
  refine ⟨hsignature, ?_⟩
  obtain ⟨d', hguard, -⟩ := h.guaranteed hd he
  rw [op_of_signs hsigns] at hguard
  cases hrole : role w with
  | client =>
      rw [hrole] at hguard
      exact absurd rfl hguard.2.1
  | worker =>
      rw [hrole] at hguard
      obtain ⟨-, key, rest, howner, hdata⟩ := hguard
      exact ⟨w, key, rest, hrole, howner, hdata⟩

/-- A session key of two instances' keys is derived only by the instances that have them. -/
theorem owner_of_derives (h : Attested I role allowed c₀) (hrun : Parallel.Reaches (Journal allowed) c₀ c)
    {p : Sym2 Pkey} (hp : I.Private p) {e : Event} (he : e ∈ (c i).2)
    (hderives : derives (I.sessionKey (I.secret p)) e) : ∃ own ∈ p, I.owner own = some i := by
  obtain ⟨own, peer, howner, derived, hderived, hkey⟩ := h.keyed_of_derives hrun he hderives
  obtain rfl : s(own, peer) = p := I.eq_of_derives hp hderived hkey
  exact ⟨own, Sym2.mem_mk_left own peer, howner⟩

/-- **A client's session key is that of the worker** whose key it has read: a secret of their two keys, which
    both have derived. -/
theorem derived_of_accepted (h : Attested I role allowed c₀)
    (hrun : Parallel.Reaches (Journal allowed) c₀ c) {t : List Event} {sessionKey data : Buffer}
    {own peer : Pkey} (hi : role i = .client) (haccepted : I.Accepted i t sessionKey data own peer)
    (ht : t ⊆ (c i).2) : ∃ w, role w = .worker ∧ I.owner peer = some w ∧
      sessionKey = I.sessionKey (I.secret s(own, peer)) ∧ ∃ e ∈ (c w).2, derives sessionKey e := by
  obtain ⟨howner, derived, hderives, hkey⟩ := haccepted.keyed
  obtain ⟨sServerKey, hfirst, hdata⟩ := haccepted.peer
  obtain ⟨cipherText, iv, signature, hdecrypt, hverify⟩ := haccepted.verified
  obtain ⟨hsignature, w, key, rest, hw, hkeyOwner, hsplit⟩ := h.owner_of_verified hrun (ht hverify)
  -- however the client cut the signed data, the first key is the worker's
  have hcut : sServerKey <+: I.pem key ++ rest := by
    rw [← hsplit, hdata]
    exact List.prefix_append _ _
  obtain rfl : peer = key := I.firstKey_cut hcut hfirst
  have hprivate : I.Private s(own, peer) := I.private_pair howner hkeyOwner
  have hsecret : sessionKey = I.sessionKey (I.secret s(own, peer)) := by
    rw [hkey, hderives.1 hprivate]
  refine ⟨w, hw, hkeyOwner, hsecret, ?_⟩
  obtain ⟨d, hguard, hallowed, hd, hbefore⟩ := h.guaranteed hrun (ht hdecrypt)
  rw [hi] at hguard
  rcases (h.ideal _ _ _ _ hallowed).2 signature rfl hsignature with
    hpublic | ⟨j, hj, e, he, hmark⟩ | ⟨e, he, hencrypts⟩
  · rw [hsecret] at hpublic
    exact absurd hpublic (I.not_public hprivate)
  · rw [hsecret] at hmark
    obtain ⟨own', hmem, howner'⟩ := h.owner_of_derives hbefore hprivate he hmark
    rcases Sym2.mem_iff.1 hmem with rfl | rfl
    · exact absurd (Option.some.inj (howner'.symm.trans howner)) hj
    · obtain rfl : j = w := Option.some.inj (howner'.symm.trans hkeyOwner)
      exact ⟨e, hd j he, hsecret ▸ hmark⟩
  · -- the client decrypts before it encrypts
    exact absurd hencrypts (hguard e he sessionKey)

/-- **The user's signature comes from a client** that has accepted the data and loaded the user's key. -/
theorem signer_of_verified (h : Attested I role allowed c₀)
    (hrun : Parallel.Reaches (Journal allowed) c₀ c) {username data signature : Buffer}
    (hverify : cryptoEvent (.verifyDigitalSignature data signature (userKey I username)) true ∈ (c w).2) :
    ∃ i sessionKey own peer, role i = .client ∧
      Signer I i (c i).2 username data sessionKey own peer := by
  obtain ⟨d, -, hallowed, hd, hbefore⟩ := h.guaranteed hrun hverify
  obtain ⟨-, i, e, he, hsigns⟩ := (h.ideal _ _ _ _ hallowed).2 rfl
  obtain ⟨d', hguard, -, hd', -⟩ := h.guaranteed hbefore he
  rw [op_of_signs hsigns] at hguard
  cases hrole : role i with
  | worker =>
      -- a worker signs with the server's key only
      rw [hrole] at hguard
      exact absurd hguard.1 (I.privateKey_ne username)
  | client =>
      rw [hrole] at hguard
      obtain ⟨⟨e', he', hloads⟩, -, sessionKey, own, peer, haccepted⟩ := hguard
      have hsub : (d' i).2 ⊆ (c i).2 := fun _ hmem => hd i (hd' i hmem)
      exact ⟨i, sessionKey, own, peer, hrole, ⟨e', hsub he', hloads⟩, haccepted.mono hsub⟩

/-- **The peer of a worker** that has verified a user's signature of data that begins with its own key. -/
theorem peer_of_verified (h : Attested I role allowed c₀)
    (hrun : Parallel.Reaches (Journal allowed) c₀ c) {own : Pkey} {rest username signature : Buffer}
    (howner : I.owner own = some w) (hverify : cryptoEvent (.verifyDigitalSignature (I.pem own ++ rest)
      signature (userKey I username)) true ∈ (c w).2) :
    ∃ i key sessionKey, role i = .client ∧ I.owner key = some i ∧
      sessionKey = I.sessionKey (I.secret s(key, own)) ∧
      (∃ e ∈ (c i).2, loads (userKey I username) e) ∧ (∃ e ∈ (c i).2, derives sessionKey e) ∧
      ∃ e ∈ (c w).2, derives sessionKey e := by
  obtain ⟨i, sessionKey, key, peer, hi, hsigner⟩ := h.signer_of_verified hrun hverify
  obtain ⟨w', -, hpeer, hkey, hderived⟩ :=
    h.derived_of_accepted hrun hi hsigner.accepted (List.Subset.refl _)
  -- the worker that derived the client's key is `w`, whose key comes first in what it verified
  obtain ⟨sServerKey, hfirst, hdata⟩ := hsigner.accepted.peer
  have hcut : sServerKey <+: I.pem own ++ rest := by
    rw [hdata]
    exact List.prefix_append _ _
  obtain rfl : peer = own := I.firstKey_cut hcut hfirst
  obtain rfl : w' = w := Option.some.inj (hpeer.symm.trans howner)
  exact ⟨i, key, sessionKey, hi, hsigner.accepted.keyed.1, hkey, hsigner.loads, hsigner.accepted.derived,
    hderived⟩

end Attested

end Agreement

end CloudStorage
