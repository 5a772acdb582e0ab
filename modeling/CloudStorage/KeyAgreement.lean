import CloudStorage.Attested

set_option autoImplicit false

/-! # Agreement on the session key

Any number of instances of `Client::login` and `Worker::login`, and an attacker who carries all
messages. A client that ends its login knows from the server's signature that a worker has derived its
session key. A worker relies on the client's signature of the same data: the client has accepted it, and
the first key in it is the worker's. -/

namespace CloudStorage

open Interaction Interaction.Routine Handshake

namespace Agreement

open IdealCrypto

variable {ι : Type} {I : IdealCrypto ι} {i : ι}

/-- The instances of `login` before their first calls. -/
def logins (P : Platform) (role : ι → Endpoint) (x : ι → Session) :
    ι → Program Sys (Except Exit Int × Session) × List Event := fun i => ((role i).login P (x i), [])

variable {P : Platform} {role : ι → Endpoint} {x : ι → Session}

theorem attested_logins : Attested I role I.Allowed (logins P role x) where
  ideal _ _ _ _ := id
  new _ := rfl
  guards i := (sat_instance P (role i) (x i)).imp fun _ _ _ => trivial

variable [DecidableEq ι] {c : ι → Program Sys (Except Exit Int × Session) × List Event}

/-- At its moment, a call was allowed, and what the login guarantees of it was so. -/
theorem guaranteed (hrun : Parallel.Reaches (Journal I.Allowed) (logins P role x) c) {i : ι} {e : Event}
    (he : e ∈ (c i).2) : ∃ d, I.Guards i (role i) (d i).2 e.1 ∧
      I.Allowed i (fun j => (d j).2) e.1 e.2 ∧ (∀ j, (d j).2 ⊆ (c j).2) ∧
      Parallel.Reaches (Journal I.Allowed) (logins P role x) d := attested_logins.guaranteed hrun he

/-- **A client's session key is that of the worker** whose key it has read. -/
theorem derived_of_accepted (hrun : Parallel.Reaches (Journal I.Allowed) (logins P role x) c) {i : ι}
    {t : List Event} {sessionKey data : Buffer} {own peer : Pkey} (hi : role i = .client)
    (haccepted : I.Accepted i t sessionKey data own peer) (ht : t ⊆ (c i).2) :
    ∃ w, role w = .worker ∧ I.owner peer = some w ∧ ∃ e ∈ (c w).2, derives sessionKey e := by
  obtain ⟨w, hw, howner, -, hderived⟩ := attested_logins.derived_of_accepted hrun hi haccepted ht
  exact ⟨w, hw, howner, hderived⟩

/-- An instance that has ended with 1 knows what it should. -/
theorem ended_of_result (hrun : Parallel.Reaches (Journal I.Allowed) (logins P role x) c) {i : ι}
    {y : Session} (hend : (c i).1.result = some (.ok 1, y)) : Ended I i (role i) y (c i).2 := by
  have hleft := (sat_instance P (role i) (x i)).reaches
    (Journal.own i (fun _ _ _ => Allowed.own) hrun)
  rw [Program.eq_ret_of_result hend] at hleft
  exact hleft rfl

/-- Each instance that has ended its login with 1 has a peer with its session key: a worker one that
    holds the private key of its user. -/
structure Agreed (I : IdealCrypto ι) (role : ι → Endpoint)
    (c : ι → Program Sys (Except Exit Int × Session) × List Event) : Prop where
  worker : ∀ w y, role w = .worker → (c w).1.result = some (.ok 1, y) → ∃ i, role i = .client ∧
    (∃ e ∈ (c i).2, loads (userKey I y.username) e) ∧ ∃ e ∈ (c i).2, derives y.sessionKey e
  client : ∀ i y, role i = .client → (c i).1.result = some (.ok 1, y) →
    ∃ w, role w = .worker ∧ ∃ e ∈ (c w).2, derives y.sessionKey e

/-- **Key agreement.** In every run of any number of logins of clients and workers, over a network that
    delivers anything, whoever ends with 1 shares its session key. -/
theorem key_agreement (hrun : Parallel.Reaches (Journal I.Allowed) (logins P role x) c) :
    Agreed I role c := by
  constructor
  · intro w y hw hend
    have hended := ended_of_result hrun hend
    rw [hw] at hended
    obtain ⟨honly, own, rest, signature, howner, hverify⟩ := hended
    obtain ⟨d, -, hallowed, hd, hbefore⟩ := guaranteed hrun hverify
    obtain ⟨-, i, e, he, hsigns⟩ := hallowed.2 rfl
    obtain ⟨d', hguard, -, hd', -⟩ := guaranteed hbefore he
    rw [op_of_signs hsigns] at hguard
    cases hrole : role i with
    | worker =>
        -- a worker signs with the server's key only
        rw [hrole] at hguard
        exact absurd hguard.1 (I.privateKey_ne y.username)
    | client =>
        rw [hrole] at hguard
        obtain ⟨⟨e', he', hloads⟩, -, sessionKey, own', peer, haccepted⟩ := hguard
        have hsub : (d' i).2 ⊆ (c i).2 := fun _ h => hd i (hd' i h)
        obtain ⟨w', -, hpeer, e'', he'', hderives⟩ := derived_of_accepted hrun hrole haccepted hsub
        -- the worker that derived the client's key is `w`, whose key comes first in what it verified
        obtain ⟨sServerKey, hfirst, hdata⟩ := haccepted.peer
        have hcut : sServerKey <+: I.pem own ++ rest := by
          rw [hdata]
          exact List.prefix_append _ _
        obtain rfl : peer = own := I.firstKey_cut hcut hfirst
        obtain rfl : w' = w := Option.some.inj (hpeer.symm.trans howner)
        obtain rfl : sessionKey = y.sessionKey := honly e'' he'' sessionKey hderives
        obtain ⟨e₀, he₀, hderived⟩ := haccepted.derived
        exact ⟨i, hrole, ⟨e', hsub he', hloads⟩, e₀, hsub he₀, hderived⟩
  · intro i y hi hend
    have hended := ended_of_result hrun hend
    rw [hi] at hended
    obtain ⟨data, own, peer, haccepted⟩ := hended
    obtain ⟨w, hw, -, hderived⟩ := derived_of_accepted hrun hi haccepted (List.Subset.refl _)
    exact ⟨w, hw, hderived⟩

/-! ## A client and a worker -/

/-- A key as that many dashes and a line feed. -/
def dashes (key : Pkey) : Buffer := List.replicate key 45 ++ [10]

/-- The first key of a buffer of such keys. -/
def readDashes : Buffer → Option Pkey
  | [] => none
  | b :: rest => if b = 45 then (readDashes rest).map (· + 1) else if b = 10 then some 0 else none

theorem readDashes_cut {key key' : Pkey} {b rest : Buffer} (hcut : b <+: dashes key ++ rest)
    (hread : readDashes b = some key') : key' = key := by
  induction key generalizing b key' with
  | zero =>
      cases b with
      | nil => cases hread
      | cons c b =>
          obtain rfl : c = 10 := (List.cons_prefix_cons.1 hcut).1
          exact (Option.some.inj hread).symm
  | succ key ih =>
      cases b with
      | nil => cases hread
      | cons c b =>
          obtain ⟨hc, hrest⟩ := List.cons_prefix_cons.1 hcut
          obtain rfl : c = 45 := hc
          rw [readDashes, if_pos rfl, Option.map_eq_some_iff] at hread
          obtain ⟨key'', hread, rfl⟩ := hread
          rw [ih hrest hread]

/-- The keys of the two instances: 1 is the client's and 2 the worker's. -/
def keyOwner (key : Pkey) : Option Bool :=
  if key = 1 then some false else if key = 2 then some true else none

theorem keyOwner_isSome {key : Pkey} (h : (keyOwner key).isSome) : key = 1 ∨ key = 2 := by
  unfold keyOwner at h
  split_ifs at h with hone htwo
  · exact Or.inl hone
  · exact Or.inr htwo
  · cases h

/-- The secret of the instances' keys: both, the smaller one first. -/
def bothKeys (p : Sym2 Pkey) : Buffer :=
  if p = s(1, 1) then [1, 1] else if p = s(1, 2) then [1, 2] else if p = s(2, 2) then [2, 2] else []

theorem pair_of_owned {p : Sym2 Pkey} (h : ∀ key ∈ p, (keyOwner key).isSome) :
    p = s(1, 1) ∨ p = s(1, 2) ∨ p = s(2, 2) := by
  induction p with
  | h x y =>
      rcases keyOwner_isSome (h x (Sym2.mem_mk_left x y)) with rfl | rfl
      · rcases keyOwner_isSome (h y (Sym2.mem_mk_right 1 y)) with rfl | rfl
        · exact Or.inl rfl
        · exact Or.inr (Or.inl rfl)
      · rcases keyOwner_isSome (h y (Sym2.mem_mk_right 2 y)) with rfl | rfl
        · exact Or.inr (Or.inl Sym2.eq_swap)
        · exact Or.inr (Or.inr rfl)

/-- A digest of 32 bytes in which these secrets are still seen. -/
def smallDigest (s : Buffer) : Buffer :=
  if s = [1, 1] ∨ s = [1, 2] ∨ s = [2, 2] then s ++ List.replicate 30 0 else List.replicate 32 0

theorem smallDigest_inj {s s' : Buffer} (hs : s = [1, 1] ∨ s = [1, 2] ∨ s = [2, 2])
    (heq : fit 16 (smallDigest s) = fit 16 (smallDigest s')) : s' = s := by
  by_cases hs' : s' = [1, 1] ∨ s' = [1, 2] ∨ s' = [2, 2]
  · rcases hs with rfl | rfl | rfl <;> rcases hs' with rfl | rfl | rfl <;>
      first | rfl | exact absurd heq (by decide)
  · have hother : smallDigest s' = List.replicate 32 0 := if_neg hs'
    rw [hother] at heq
    rcases hs with rfl | rfl | rfl <;> exact absurd heq (by decide)

theorem bothKeys_of_owned {p : Sym2 Pkey} (h : ∀ key ∈ p, (keyOwner key).isSome) :
    bothKeys p = [1, 1] ∨ bothKeys p = [1, 2] ∨ bothKeys p = [2, 2] := by
  rcases pair_of_owned h with rfl | rfl | rfl <;> decide

theorem privateKeyFile_ne (username : Buffer) : privateKeyFile username ≠ serverKeyFile := by
  intro h
  have hsuffix : ascii "/key.pem" <:+ serverKeyFile := by
    rw [← h]
    exact List.suffix_append _ _
  exact absurd hsuffix (by decide +kernel)

/-- Primitives for two instances, the client `false` and the worker `true`. -/
def twoInstances : IdealCrypto Bool where
  owner := keyOwner
  pem := dashes
  firstKey := readDashes
  secret := bothKeys
  digest := smallDigest
  privateKey path := if path = serverKeyFile then 100 else 101
  publicKey _ := 101
  certified b := if b = ascii "certificate" then some 100 else none
  IsSignature b := b.length = 256
  firstKey_cut := readDashes_cut
  secret_inj := by
    intro p q hp heq
    unfold bothKeys at heq
    rcases pair_of_owned hp with rfl | rfl | rfl
    all_goals split_ifs at heq <;> first | exact absurd heq (by decide) | simp_all
  digest_inj hp heq := smallDigest_inj (bothKeys_of_owned hp) heq
  publicKey_eq username := (if_neg (privateKeyFile_ne username)).symm
  privateKey_ne username := by
    rw [if_neg (privateKeyFile_ne username)]
    decide

/-- A signature: the data behind the key. -/
def signature (data : Buffer) (key : Pkey) : Buffer := fit 256 (UInt8.ofNat key :: data)

/-- The primitives at work: a signature verifies if it was made, and a cipher text is decrypted if it
    ends with the session key and was made by one who knows the key. -/
def answer (i : Bool) (s : Bool → List Event) : (c : CryptoCall) → c.Ans
  | .ecdhKeyGeneration => some (if i then 2 else 1 : Pkey)
  | .serializePubKey key => some (dashes key)
  | .deserializePublicKey b => readDashes b
  | .deriveSharedSecret hostKey peerKey => ((1, bothKeys s(hostKey, peerKey)) : Int × Buffer)
  | .computeSHA256Digest b => some (smallDigest b)
  | .loadPrivateKey path _ => some (if path = serverKeyFile then 100 else 101 : Pkey)
  | .loadPublicKey _ => some (101 : Pkey)
  | .generateDigitalSignature data key => some (signature data key)
  | .verifyDigitalSignature data b key => b == signature data key &&
      ((s false).any (signs data key) || (s true).any (signs data key))
  | .encryptTextAES clear sessionKey => some (clear ++ sessionKey, List.replicate 16 0)
  | .decryptTextAES cipher sessionKey _ =>
    if cipher.drop 256 = sessionKey ∧ (s !i).any (derives sessionKey) then some (cipher.take 256) else none
  | .serverCertificate => some (ascii "certificate")
  | .readCertificate b => if b = ascii "certificate" then some (100 : Pkey) else none
  | .verifyServerCertificate b => b == ascii "certificate"

/-- All calls of the run; a receive and the console deliver `b`. -/
def reply (i : Bool) (s : Bool → List Event) (b : Buffer) : (o : Sys.Op) → Sys.Ans o
  | .send _ => true
  | .recv n => some (fit n b)
  | .sys (.random n) => some (fit n b)
  | .sys (.file c) => (c.answer true .root).1
  | .sys (.crypto c) => answer i s c
  | .sys .getline => ((some b, true) : Option Buffer × Bool)
  | .sys .clearAndIgnore => ()
  | .sys (.garbage _) => (0 : Nat)
  | .sys .overrun => ([] : Buffer)
  | .sys (.print _) => ()
  | .sys (.note _) => ()

theorem answers_answer (i : Bool) (s : Bool → List Event) (c : CryptoCall) :
    twoInstances.Answers i c (answer i s c) := by
  cases c with
  | ecdhKeyGeneration =>
      intro key hkey
      obtain rfl := Option.some.inj hkey
      cases i <;> rfl
  | serializePubKey key => exact fun b hb => (Option.some.inj hb).symm
  | deserializePublicKey b => exact fun key hkey => hkey
  | deriveSharedSecret hostKey peerKey =>
      refine ⟨fun _ => rfl, fun hnot q hq heq => hnot ?_⟩
      obtain rfl : q = s(hostKey, peerKey) := twoInstances.secret_inj hq heq.symm
      exact hq
  | computeSHA256Digest b => exact fun d hd => (Option.some.inj hd).symm
  | loadPrivateKey path password => exact fun key hkey => (Option.some.inj hkey).symm
  | loadPublicKey path => exact fun key hkey => (Option.some.inj hkey).symm
  | readCertificate b => exact fun key hkey => hkey
  | verifyServerCertificate b =>
      intro htrue
      exact if_pos (beq_iff_eq.1 htrue)
  | _ => trivial

theorem vouched_answer (i : Bool) (s : Bool → List Event) (c : CryptoCall) :
    twoInstances.Vouched i s c (answer i s c) := by
  cases c with
  | verifyDigitalSignature data b key =>
      intro htrue
      obtain ⟨hb, hsigned⟩ := (Bool.and_eq_true _ _).mp htrue
      obtain rfl := beq_iff_eq.1 hb
      refine ⟨length_fit _ _, ?_⟩
      rcases (Bool.or_eq_true _ _).mp hsigned with hclient | hworker
      · exact ⟨false, List.any_eq_true.1 hclient⟩
      · exact ⟨true, List.any_eq_true.1 hworker⟩
  | decryptTextAES cipher sessionKey iv =>
      intro b hb _
      have hmade : cipher.drop 256 = sessionKey ∧ (s !i).any (derives sessionKey) := by
        by_contra hnot
        have hnone : answer i s (.decryptTextAES cipher sessionKey iv) = (none : Option Buffer) := if_neg hnot
        rw [hnone] at hb
        cases hb
      exact Or.inr (Or.inl ⟨!i, Bool.not_ne_self i, List.any_eq_true.1 hmade.2⟩)
  | _ => trivial

theorem allowed_reply (i : Bool) (s : Bool → List Event) (b : Buffer) (o : Sys.Op) :
    twoInstances.Allowed i s o (reply i s b o) := by
  cases o with
  | send => trivial
  | recv => trivial
  | sys o =>
      cases o with
      | crypto c => exact ⟨answers_answer i s c, vouched_answer i s c⟩
      | _ => trivial

/-- The session key of the two instances. -/
def commonKey : Buffer := fit 16 (smallDigest [1, 2])

/-- The turns of the instances, with what they receive. -/
def turns : List (Bool × Buffer) :=
  [(false, ascii "user1"), (false, []), (false, []), (false, [1]), (false, ascii "secret")] ++
  List.replicate 5 (false, []) ++
  [(true, [5]), (true, ascii "user1"), (true, []), (true, [2]), (true, []), (true, dashes 1)] ++
  List.replicate 14 (true, []) ++
  [(false, fit 2048 (dashes 2) ++ M3.sizeField .little 3 ++
    (signature (dashes 2 ++ dashes 1) 100 ++ commonKey) ++ List.replicate 16 0 ++ M3.sizeField .little 11 ++
    fit 5120 (ascii "certificate"))] ++
  List.replicate 14 (false, []) ++
  [(true, signature (dashes 2 ++ dashes 1) 101 ++ commonKey ++ List.replicate 16 0)] ++
  List.replicate 3 (true, [])

def twoRoles (i : Bool) : Endpoint := if i then .worker else .client

/-- The two instances before their first calls, and when both have ended. -/
def beforeTurns : Bool → Program Sys (Except Exit Int × Session) × List Event :=
  logins (.plain .little) twoRoles fun _ => .start [] []

def afterTurns : Bool → Program Sys (Except Exit Int × Session) × List Event :=
  Journal.play reply turns beforeTurns

set_option maxRecDepth 20000 in
/-- A client and a worker log in. -/
theorem key_agreement_turns :
    (afterTurns false).1.result = some (.ok 1, .start (ascii "user1") commonKey) ∧
      (afterTurns true).1.result = some (.ok 1, .start (ascii "user1") commonKey) ∧
      Agreed twoInstances twoRoles afterTurns :=
  ⟨by decide +kernel, by decide +kernel, key_agreement (Journal.reaches_play allowed_reply turns beforeTurns)⟩

end Agreement

end CloudStorage
