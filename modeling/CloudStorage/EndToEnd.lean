import CloudStorage.Attentive
import CloudStorage.KeyAgreement
import CloudStorage.Addresses

set_option autoImplicit false

/-! # From the file back to the user

Any number of whole sessions, `Client::start` and `Worker::start`, with ideal primitives, and an attacker
who owns the network. A call of a worker into the file system is traced back: to a request that it has
accepted, to the frame in which it came, to the one client that shares the session key and has sealed the
frame, and to the user whose private key that client has loaded.

Two sessions that share a key are those that derived it, and nothing says which of the two has sealed a
frame: the worker may have been sent a frame of its own. A frame without a payload shows nothing, since the
cipher accepts every tag for it. -/

namespace CloudStorage

open Interaction Interaction.Program Interaction.Routine Handshake IdealCrypto Agreement Attentive

open Wrapper (openFrame counterOf)

/-- `Client::start` or `Worker::start`. -/
def Endpoint.start (P : Platform) : Endpoint → Nat → Member Int
  | .client, n => Client.start P n
  | .worker, _ => Worker.start P

/-- The notes that a frame was sealed and that it was accepted. -/
def sealedEvent (counter : Int) (payload frame : Buffer) : Event :=
  ⟨.sys (.note (.sealed counter payload frame)), ()⟩

def acceptedEvent (counter : Int) (payload frame : Buffer) : Event :=
  ⟨.sys (.note (.accepted counter payload frame)), ()⟩

namespace EndToEnd

variable {ι : Type} {I : IdealCrypto ι} {P : Platform} {i w : ι} {end_ : Endpoint}

theorem mem_of_derives {key : Buffer} {t : List Event} (h : ∃ e ∈ t, derives key e) :
    derivedEvent key ∈ t := by
  obtain ⟨⟨o, a⟩, he, hderives⟩ := h
  obtain rfl : o = .sys (.note (.derived key)) := op_of_derives hderives
  exact he

theorem derives_derivedEvent (key : Buffer) : derives key (derivedEvent key) := beq_self_eq_true key

/-! ## One session -/

/-- What is known in a session of instance `i` with the session key `key` and, on the worker's side, of the
    user `u`. -/
def Peered (I : IdealCrypto ι) (i : ι) (key u : Buffer) : Endpoint → List Event → Prop
  | .client, t => ∃ data own peer, I.Accepted i t key data own peer
  | .worker, t => u ∈ usernameList ∧ derivedEvent key ∈ t ∧ (∀ key', derivedEvent key' ∈ t → key' = key) ∧
    ∃ own rest signature, I.owner own = some i ∧
      cryptoEvent (.verifyDigitalSignature (I.pem own ++ rest) signature (userKey I u)) true ∈ t

theorem abides_peered (key u : Buffer) (end_ : Endpoint) : Abides (Peered I i key u end_) := by
  intro t o a ho h
  cases end_ with
  | client =>
      obtain ⟨data, own, peer, haccepted⟩ := h
      exact ⟨data, own, peer, haccepted.mono (List.subset_append_left _ _)⟩
  | worker =>
      obtain ⟨hu, hkey, honly, own, rest, signature, howner, hverify⟩ := h
      refine ⟨hu, List.mem_append_left _ hkey, fun key' hkey' => ?_, own, rest, signature, howner,
        List.mem_append_left _ hverify⟩
      rcases List.mem_append.1 hkey' with hkey' | hkey'
      · exact honly key' hkey'
      · cases List.mem_singleton.1 hkey'
        exact ho.elim

/-- What is guaranteed of a call once the login is done. -/
structure InSession (P : Platform) (I : IdealCrypto ι) (i : ι) (end_ : Endpoint) (key u : Buffer)
    (t : List Event) (o : Sys.Op) : Prop where
  attends : Attends P key (Peered I i key u end_) t o
  addresses : end_ = .worker → Guarded (Addresses u) t o

/-- What a session guarantees of its calls. -/
def Guarantee (P : Platform) (I : IdealCrypto ι) (i : ι) (end_ : Endpoint) (t : List Event)
    (o : Sys.Op) : Prop :=
  I.Guards i end_ t o ∧ (OffDisk o ∨ ∃ key u, InSession P I i end_ key u t o)

theorem Later.guards {o : Sys.Op} (ho : Later o) (t : List Event) : I.Guards i end_ t o := by
  cases end_ <;> cases o with
  | send => trivial
  | recv => trivial
  | sys o =>
      cases o with
      | crypto c => exact ho.elim
      | note e =>
          cases e with
          | derived => exact ho.elim
          | _ => trivial
      | _ => trivial

theorem own_traced (ok : (o : Sys.Op) → Sys.Ans o → Prop) (t : List Event) (o : Sys.Op) (a : Sys.Ans o)
    (t' : List Event) (h : Journal.Own ok t o a t') : Traced t o a t' := h.1

/-- The triples of this section. -/
abbrev Guarantees {α : Type} (P : Platform) (I : IdealCrypto ι) (i : ι) (end_ : Endpoint)
    (K : Session → List Event → Prop) (r : Member α) (Q : α → Session → List Event → Prop)
    (E : Exit → Session → List Event → Prop) : Prop :=
  Triple (Journal.Own (I.Own i)) (fun t o _ _ => Guarantee P I i end_ t o) K r Q E

/-- What a session has after its login. -/
def Started (I : IdealCrypto ι) (i : ι) (end_ : Endpoint) (x : Session) (t : List Event) : Prop :=
  Peered I i x.sessionKey x.username end_ t

theorem guarantees_clientLogin :
    Guarantees P I i .client (fun _ t => t = []) (Client.login P) (fun _ => Started I i .client)
      fun e _ _ => Refuses e := by
  have hproves := (Client.proves_login (P := P)).under (own_traced (I.Own i))
  intro x t ht
  refine ((login_client P).both hproves x t ⟨?_, trivial, by simp⟩).mono (fun _ _ _ _ => id)
    (fun t o _ _ h => ⟨h.1, Or.inl h.2⟩) (fun _ _ _ h => h.1) fun _ _ _ h => h.2
  subst ht
  exact fun e he => absurd he List.not_mem_nil

theorem guarantees_workerLogin :
    Guarantees P I i .worker (fun _ t => t = []) (Worker.login P) (fun _ => Started I i .worker)
      fun e _ _ => Refuses e := by
  have hproves := (Worker.proves_login (P := P)).under (own_traced (I.Own i))
  intro x t ht
  refine ((login_worker P).both hproves x t ⟨?_, trivial, by simp⟩).mono (fun _ _ _ _ => id)
    (fun t o _ _ h => ⟨h.1, Or.inl h.2⟩) ?_ fun _ _ _ h => h.2
  · subst ht
    exact fun e he => absurd he List.not_mem_nil
  · rintro n x t ⟨⟨honly, hverified⟩, hkey, u, rfl, hu, -⟩
    exact ⟨hu, hkey, fun key' hkey' => honly _ hkey' key' (derives_derivedEvent key'), hverified⟩

/-- The commands of a session. -/
theorem guarantees_program (n : Nat) :
    Guarantees P I i end_ (Started I i end_) (end_.program P n) (fun _ _ _ => True) fun _ _ _ => True := by
  intro x t ht
  have hattends := (attends_program (P := P) x.sessionKey
    (abides_peered (I := I) (i := i) x.sessionKey x.username end_) end_ n).under (own_traced (I.Own i))
  cases end_ with
  | client =>
      refine (hattends x t ⟨rfl, ht⟩).mono (fun _ _ _ _ => id) (fun t o _ _ h => ?_)
        (fun _ _ _ => id) fun _ _ _ => id
      exact ⟨Later.guards h.later t, Or.inr ⟨_, _, h, fun heq => by cases heq⟩⟩
  | worker =>
      have hcalls := (Worker.calls_commandLoop (P := P) (u := x.username) n).under (own_traced (I.Own i))
      refine (hattends.both hcalls x t ⟨⟨rfl, ht⟩, rfl⟩).mono (fun _ _ _ _ => id) (fun t o _ _ h => ?_)
        (fun _ _ _ _ => trivial) fun _ _ _ _ => trivial
      exact ⟨Later.guards h.1.later t, Or.inr ⟨_, _, h.1, fun _ => h.2⟩⟩

/-- **What a whole session guarantees** of its calls, whatever it is answered. -/
theorem sat_start (P : Platform) (end_ : Endpoint) (n : Nat) (x : Session) :
    ((end_.start P n) x).Sat (Journal.Own (I.Own i)) (fun t o _ _ => Guarantee P I i end_ t o)
      (fun _ _ => True) [] := by
  have hstart : Guarantees P I i end_ (fun _ t => t = []) (end_.start P n) (fun _ _ _ => True)
      fun _ _ _ => True := by
    cases end_ with
    | client => exact triple_start guarantees_clientLogin (guarantees_program n)
    | worker => exact triple_start guarantees_workerLogin (guarantees_program (intMax + 2))
  apply (hstart.program (x := x) rfl).imp
  intro y t _
  trivial

/-! ## Many sessions -/

/-- A frame that opens under the session key of two instances to a payload was sealed, as it came and with
    this payload, by one who has derived the key. -/
def Unforged (P : Platform) (I : IdealCrypto ι) (s : ι → List Event) : (o : Sys.Op) → Sys.Ans o → Prop
  | .recv _ => fun (a : Option Buffer) => ∀ frame p payload, a = some frame → I.Private p →
    payload ≠ [] → openFrame P (I.sessionKey (I.secret p)) frame = some payload →
    ∃ j counter, derivedEvent (I.sessionKey (I.secret p)) ∈ s j ∧ sealedEvent counter payload frame ∈ s j
  | _ => fun _ => True

/-- Who asks for random bytes gets as many. -/
def Sized : (o : Sys.Op) → Sys.Ans o → Prop
  | .sys (.random n) => fun (a : Option Buffer) => ∀ b, a = some b → b.length = n
  | _ => fun _ => True

/-- Ideal primitives, the cipher of the frames among them. -/
structure Ideal (P : Platform) (I : IdealCrypto ι) (i : ι) (s : ι → List Event) (o : Sys.Op)
    (a : Sys.Ans o) : Prop where
  allowed : I.Allowed i s o a
  unforged : Unforged P I s o a
  sized : Sized o a

/-- The sessions before their first calls. -/
def starts (P : Platform) (role : ι → Endpoint) (bound : ι → Nat) (x : ι → Session) :
    ι → Program Sys (Except Exit Int × Session) × List Event :=
  fun i => (((role i).start P (bound i)) (x i), [])

variable {role : ι → Endpoint} {bound : ι → Nat} {x : ι → Session}

theorem attested_starts : Attested I role (Ideal P I) (starts P role bound x) where
  ideal _ _ _ _ h := h.allowed
  new _ := rfl
  guards i := (sat_start P (role i) (bound i) (x i)).mono (fun _ _ _ _ => id) (fun _ _ _ _ h => h.1)
    fun _ _ => id

variable [DecidableEq ι] {c : ι → Program Sys (Except Exit Int × Session) × List Event}

/-- The moment of a call: what comes before it in the journal, and what the session guarantees of it. -/
theorem moment (hrun : Parallel.Reaches (Journal (Ideal P I)) (starts P role bound x) c)
    {front rest : List Event} {e : Event} (hsplit : (c i).2 = front ++ e :: rest) :
    ∃ d, Parallel.Reaches (Journal (Ideal P I)) (starts P role bound x) d ∧ (d i).2 = front ∧
      Guarantee P I i (role i) front e.1 ∧ Ideal P I i (fun j => (d j).2) e.1 e.2 ∧
      ∀ j, (d j).2 ⊆ (c j).2 := by
  have hsplit' : (c i).2 = (starts P role bound x i).2 ++ front ++ e :: rest := hsplit
  obtain ⟨d, hd, hfront, hguard, hallowed, hrest⟩ := Journal.guaranteed_at hrun hsplit'
    (fun s o a h => h.allowed.own) (sat_start P (role i) (bound i) (x i))
  have hfront : (d i).2 = front := hfront
  rw [hfront] at hguard
  exact ⟨d, hd, hfront, hguard, hallowed, Journal.subset_of_reaches hrest⟩

/-- A call that no login makes is one of a session whose login is done. -/
theorem in_session (hrun : Parallel.Reaches (Journal (Ideal P I)) (starts P role bound x) c)
    {front rest : List Event} {e : Event} (hsplit : (c i).2 = front ++ e :: rest) (he : ¬OffDisk e.1) :
    ∃ d key u, Parallel.Reaches (Journal (Ideal P I)) (starts P role bound x) d ∧ (d i).2 = front ∧
      InSession P I i (role i) key u front e.1 ∧ ∀ j, (d j).2 ⊆ (c j).2 := by
  obtain ⟨d, hd, hfront, ⟨-, hguard⟩, -, hsub⟩ := moment hrun hsplit
  obtain ⟨key, u, hsession⟩ := hguard.resolve_left he
  exact ⟨d, key, u, hd, hfront, hsession, hsub⟩

/-- The two sessions have derived the session key, and no other has. -/
structure SharedBy (key : Buffer) (s : ι → List Event) (i w : ι) : Prop where
  first : derivedEvent key ∈ s i
  second : derivedEvent key ∈ s w
  alone : ∀ j, derivedEvent key ∈ s j → j = i ∨ j = w

/-- Who derives the session key of two instances is one of them. -/
theorem eq_of_derived (hrun : Parallel.Reaches (Journal (Ideal P I)) (starts P role bound x) c)
    {own peer : Pkey} (howner : I.owner own = some i) (hpeer : I.owner peer = some w) {j : ι}
    (hderived : derivedEvent (I.sessionKey (I.secret s(own, peer))) ∈ (c j).2) : j = i ∨ j = w := by
  obtain ⟨key, hkey, hj⟩ := attested_starts.owner_of_derives hrun (I.private_pair howner hpeer)
    hderived (derives_derivedEvent _)
  rcases Sym2.mem_iff.1 hkey with rfl | rfl
  · exact Or.inl (Option.some.inj (hj.symm.trans howner))
  · exact Or.inr (Option.some.inj (hj.symm.trans hpeer))

/-- A frame that was sealed carries the counter it was sealed with, as an `int`. -/
theorem counterOf_sealed (hrun : Parallel.Reaches (Journal (Ideal P I)) (starts P role bound x) c)
    {counter : Int} {payload frame : Buffer} (hsealed : sealedEvent counter payload frame ∈ (c i).2) :
    counterOf P frame = intOfWord (wordOfInt counter) := by
  obtain ⟨front, rest, hsplit⟩ := List.append_of_mem hsealed
  obtain ⟨d, key, u, hd, hfront, hsession, -⟩ := in_session hrun hsplit id
  obtain ⟨key', iv, hdrawn, hframe⟩ := hsession.attends.made counter payload frame rfl
  rw [← hfront] at hdrawn
  obtain ⟨front', rest', hsplit'⟩ := List.append_of_mem hdrawn
  obtain ⟨d', -, -, -, hideal, -⟩ := moment hd hsplit'
  exact Wrapper.counterOf_frame_word (hideal.sized iv rfl) hframe

/-- A frame that has opened under the session key of two instances was sealed by one of them. -/
theorem sealed_of_opened (hrun : Parallel.Reaches (Journal (Ideal P I)) (starts P role bound x) c)
    {own peer : Pkey} (howner : I.owner own = some i) (hpeer : I.owner peer = some w)
    {counter : Int} {payload frame : Buffer} (hpayload : payload ≠ []) {v : ι}
    (hopened : Attentive.Opened P (I.sessionKey (I.secret s(own, peer))) counter payload frame (c v).2) :
    ∃ m, counter = intOfWord (wordOfInt m) ∧
      (sealedEvent m payload frame ∈ (c i).2 ∨ sealedEvent m payload frame ∈ (c w).2) := by
  obtain ⟨n, hreceived⟩ := hopened.received
  obtain ⟨front, rest, hsplit⟩ := List.append_of_mem hreceived
  obtain ⟨d, hd, -, -, hideal, hsub⟩ := moment hrun hsplit
  obtain ⟨j, m, hderived, hsealed⟩ :=
    hideal.unforged frame _ payload rfl (I.private_pair howner hpeer) hpayload hopened.opens
  refine ⟨m, hopened.carries.symm.trans (counterOf_sealed hd hsealed), ?_⟩
  rcases eq_of_derived hd howner hpeer hderived with rfl | rfl
  · exact Or.inl (hsub j hsealed)
  · exact Or.inr (hsub j hsealed)

/-! ## A client that asks for its list -/

/-- A cipher that hides nothing, with a tag that knows the key alone. -/
def tagged : Platform where
  order := .little
  encrypt key _ _ clear := some (clear, fit 14 key)
  decrypt key _ _ cipher tag := if tag = fit 14 key then some cipher else none
  length_decrypt := by
    intro _ _ _ cipher tag clear h
    split_ifs at h
    rw [← Option.some.inj h]
  decrypt_encrypt := by
    intro _ _ _ clear cipher tag h
    cases h
    simp

/-- The note that the frame was sealed with this payload. -/
def sealing (payload frame : Buffer) : Event → Bool
  | ⟨.sys (.note (.sealed _ payload' frame')), _⟩ => payload' == payload && frame' == frame
  | _ => false

/-- The note that a frame was accepted, and a question for the type of a path. -/
def accepting : Event → Bool
  | ⟨.sys (.note (.accepted _ _ _)), _⟩ => true
  | _ => false

def statting (path : Buffer) : Event → Bool
  | ⟨.sys (.file (.stat path')), _⟩ => path' == path
  | _ => false

theorem eq_of_sealing {payload frame : Buffer} {e : Event} (h : sealing payload frame e) :
    ∃ counter, e = sealedEvent counter payload frame := by
  unfold sealing at h
  split at h
  · rename_i counter payload' frame' a
    obtain ⟨hpayload, hframe⟩ := (Bool.and_eq_true _ _).mp h
    obtain rfl := beq_iff_eq.1 hpayload
    obtain rfl := beq_iff_eq.1 hframe
    exact ⟨counter, rfl⟩
  · cases h

theorem eq_of_accepting {e : Event} (h : accepting e) :
    ∃ counter payload frame, e = acceptedEvent counter payload frame := by
  unfold accepting at h
  split at h
  · exact ⟨_, _, _, rfl⟩
  · cases h

theorem eq_of_statting {path : Buffer} {e : Event} (h : statting path e) :
    ∃ a, e = ⟨.sys (.file (.stat path)), a⟩ := by
  unfold statting at h
  split at h
  · rename_i path' a
    obtain rfl := beq_iff_eq.1 h
    exact ⟨a, rfl⟩
  · cases h

/-- An entry with what is before and behind it. -/
theorem split_at {t : List Event} {n : Nat} {p : Event → Bool} (h : (t[n]?).any p) :
    ∃ e rest, p e ∧ t = t.take n ++ e :: rest := by
  cases he : t[n]? with
  | none =>
      rw [he] at h
      cases h
  | some e =>
      rw [he] at h
      obtain ⟨hn, hget⟩ := List.getElem?_eq_some_iff.1 he
      refine ⟨e, t.drop (n + 1), h, ?_⟩
      rw [← hget, List.getElem_cons_drop, List.take_append_drop]

/-- A frame is none, or was sealed by one who knows the key. -/
def genuine (s : Bool → List Event) (frame key : Buffer) : Bool :=
  match openFrame tagged key frame with
  | none => true
  | some payload => payload == [] || [false, true].any fun j =>
    (s j).any (derives key) && (s j).any (sealing payload frame)

/-- The frame is no forgery under a key of the instances. -/
def genuineForAll (s : Bool → List Event) (frame : Buffer) : Bool :=
  [[1, 1], [1, 2], [2, 2]].all fun secret => genuine s frame (fit 16 (smallDigest secret))

/-- All calls of the run: the network delivers no forgery, and no file system fails. -/
def honestReply (i : Bool) (s : Bool → List Event) (b : Buffer) : (o : Sys.Op) → Sys.Ans o
  | .recv n => (some (fit n b)).filter (genuineForAll s)
  | .sys (.file c) => (c.answer false .root).1
  | o => reply i s b o

theorem unforged_of_genuine {s : Bool → List Event} {frame payload : Buffer} {p : Sym2 Pkey}
    (hpayload : payload ≠ [])
    (hopen : openFrame tagged (twoInstances.sessionKey (twoInstances.secret p)) frame = some payload)
    (h : genuine s frame (twoInstances.sessionKey (twoInstances.secret p))) :
    ∃ j counter, derivedEvent (twoInstances.sessionKey (twoInstances.secret p)) ∈ s j ∧
      sealedEvent counter payload frame ∈ s j := by
  unfold genuine at h
  rw [hopen] at h
  have hany := ((Bool.or_eq_true _ _).mp h).resolve_left fun hnil => hpayload (beq_iff_eq.1 hnil)
  obtain ⟨j, -, hj⟩ := List.any_eq_true.1 hany
  obtain ⟨hderived, hsealed⟩ := (Bool.and_eq_true _ _).mp hj
  obtain ⟨e, he, hsealing⟩ := List.any_eq_true.1 hsealed
  obtain ⟨counter, rfl⟩ := eq_of_sealing hsealing
  exact ⟨j, counter, mem_of_derives (List.any_eq_true.1 hderived), he⟩

theorem ideal_honestReply (i : Bool) (s : Bool → List Event) (b : Buffer) (o : Sys.Op) :
    Ideal tagged twoInstances i s o (honestReply i s b o) := by
  cases o with
  | send data => exact ⟨trivial, trivial, trivial⟩
  | recv n =>
      refine ⟨trivial, fun frame p payload hframe hp hpayload hopen => ?_, trivial⟩
      have hfilter : (some (fit n b)).filter (genuineForAll s) = some frame := hframe
      obtain ⟨-, hgenuine⟩ := Option.filter_eq_some_iff.1 hfilter
      refine unforged_of_genuine hpayload hopen (List.all_eq_true.1 hgenuine (bothKeys p) ?_)
      rcases bothKeys_of_owned hp with heq | heq | heq <;> rw [heq] <;> decide
  | sys o =>
      cases o with
      | random n =>
          refine ⟨trivial, trivial, fun iv hiv => ?_⟩
          obtain rfl := Option.some.inj hiv
          exact length_fit n b
      | file c => exact ⟨trivial, trivial, trivial⟩
      | _ => exact ⟨allowed_reply i s b _, trivial, trivial⟩

/-- A frame with the counter 0 and this IV under the key of the two instances. -/
def firstFrame (iv payload : Buffer) : Buffer :=
  iv ++ List.replicate 4 0 ++ payload ++ fit 14 commonKey

/-- After the login, the turns in which the client asks for the list, and the worker has no folder for it. -/
def listTurns : List (Bool × Buffer) :=
  (false, ascii "3") :: List.replicate 4 (false, List.replicate 12 7) ++
  List.replicate 4 (true, firstFrame (List.replicate 12 7) ListM1.serialize) ++
  List.replicate 4 (true, List.replicate 12 9) ++
  List.replicate 2 (false, firstFrame (List.replicate 12 9) ((ListM2 1 0).serialize .little))

/-- The two sessions when the client has accepted the answer. -/
def listed : Bool → Program Sys (Except Exit Int × Session) × List Event :=
  Journal.play honestReply (Agreement.turns ++ listTurns)
    (starts tagged twoRoles (fun _ => 2) fun _ => .start [] [])

/-! ## Behind an accepted frame -/

/-- What an accepted frame shows in a session with the key `key`: it opens to what was accepted, and was
    sealed with this counter, as an `int`, in this session, with the calls `t`, or in that of the peer, with
    the calls `t'`. -/
structure Shown (P : Platform) (key : Buffer) (counter : Int) (payload frame : Buffer)
    (t t' : List Event) : Prop where
  opens : openFrame P key frame = some payload
  origin : payload ≠ [] → ∃ m, counter = intOfWord (wordOfInt m) ∧
    (sealedEvent m payload frame ∈ t' ∨ sealedEvent m payload frame ∈ t)

/-- The client `i` that a call of the worker `w` into the file system is traced back to, after the calls
    `front`: it has loaded the private key of the worker's user, only it and the worker have derived the
    session key, and it seals what the worker accepts. -/
structure OnBehalf (P : Platform) (I : IdealCrypto ι) (s : ι → List Event) (i w : ι) (u key : Buffer)
    (front : List Event) (call : FileCall) : Prop where
  user : u ∈ usernameList
  loads : ∃ e ∈ s i, loads (userKey I u) e
  shared : SharedBy key s i w
  derived : derivedEvent key ∈ front
  addressed : Addressed u (reading front).names front call
  accepted : ∀ counter payload frame, acceptedEvent counter payload frame ∈ front →
    Shown P key counter payload frame front (s i)

/-- **From the file back to the user.** In every run of any number of sessions, over a network that delivers
    anything, a worker makes each call into the file system on behalf of one client, which holds the private
    key of the user whose folder it is. -/
theorem Worker.acts_on_behalf
    (hrun : Parallel.Reaches (Journal (Ideal P I)) (starts P role bound x) c) (hw : role w = .worker)
    {front rest : List Event} {call : FileCall} {a : Sys.Ans (.sys (.file call))}
    (hsplit : (c w).2 = front ++ ⟨.sys (.file call), a⟩ :: rest) :
    ∃ i u key, role i = .client ∧ OnBehalf P I (fun j => (c j).2) i w u key front call := by
  obtain ⟨d, key, u, hd, hfront, hsession, hsub⟩ := in_session hrun hsplit id
  rw [hw] at hsession
  obtain ⟨hu, hkey, honly, own, signed, signature, howner, hverify⟩ := hsession.attends.abides
  rw [← hfront] at hverify
  obtain ⟨i, peer, sessionKey, hi, hpeer, hsecret, ⟨e, he, hloads⟩, hshares, hderived⟩ :=
    attested_starts.peer_of_verified hd howner hverify
  -- the worker has derived one key, so this is the peer's
  obtain rfl : sessionKey = key := honly _ (hfront ▸ mem_of_derives hderived)
  have hshared : SharedBy sessionKey (fun j => (c j).2) i w := by
    refine ⟨hsub i (mem_of_derives hshares), hsub w (mem_of_derives hderived), fun j hj => ?_⟩
    exact eq_of_derived hrun hpeer howner (hsecret ▸ hj)
  refine ⟨i, u, sessionKey, hi, hu, ⟨e, hsub i he, hloads⟩, hshared, hkey,
    hsession.addresses rfl call rfl, ?_⟩
  intro counter payload frame haccepted
  obtain ⟨before, after, hbefore⟩ := List.append_of_mem haccepted
  obtain ⟨d', key', u', hd', hfront', hsession', hsub'⟩ := in_session hd (hfront.trans hbefore) id
  rw [hw] at hsession'
  have hkey' : derivedEvent key' ∈ before := hsession'.attends.abides.2.1
  obtain rfl : key' = sessionKey := honly _ (hbefore ▸ List.mem_append_left _ hkey')
  have hopened := hsession'.attends.accepted counter payload frame rfl
  refine ⟨hopened.opens, fun hpayload => ?_⟩
  rw [← hfront', hsecret] at hopened
  obtain ⟨m, hcounter, hsealed⟩ := sealed_of_opened hd' hpeer howner hpayload hopened
  exact ⟨m, hcounter, hsealed.imp (fun h => hsub i (hsub' i h)) fun h => hfront ▸ hsub' w h⟩

set_option maxRecDepth 20000 in
/-- The worker looks for the folder of the user for whom the client has signed. -/
theorem Worker.acts_on_behalf_list : ((listed true).2.take 27).any accepting ∧
    ∃ i u key, twoRoles i = .client ∧ OnBehalf tagged twoInstances (fun j => (listed j).2) i true u key
      ((listed true).2.take 27) (.stat (Worker.folderPath (ascii "user1"))) := by
  refine ⟨by decide +kernel, ?_⟩
  obtain ⟨e, rest, hstat, hsplit⟩ := split_at (t := (listed true).2) (n := 27)
    (p := statting (Worker.folderPath (ascii "user1"))) (by decide +kernel)
  obtain ⟨a, rfl⟩ := eq_of_statting hstat
  exact Worker.acts_on_behalf (Journal.reaches_play ideal_honestReply _ _) rfl hsplit

/-- The same for a client: it shares its session key with one worker, and each frame that it accepts was
    sealed by one of the two. -/
theorem Client.accepts_from_worker
    (hrun : Parallel.Reaches (Journal (Ideal P I)) (starts P role bound x) c) (hi : role i = .client)
    {front rest : List Event} {counter : Int} {payload frame : Buffer}
    (hsplit : (c i).2 = front ++ acceptedEvent counter payload frame :: rest) :
    ∃ w key, role w = .worker ∧ derivedEvent key ∈ front ∧ SharedBy key (fun j => (c j).2) i w ∧
      Shown P key counter payload frame front (c w).2 := by
  obtain ⟨d, key, u, hd, hfront, hsession, hsub⟩ := in_session hrun hsplit id
  rw [hi] at hsession
  obtain ⟨data, own, peer, haccepted⟩ := hsession.attends.abides
  have hkey : derivedEvent key ∈ front := mem_of_derives haccepted.derived
  obtain ⟨w, hw, hpeer, hsecret, hderived⟩ := attested_starts.derived_of_accepted hd hi haccepted
    (hfront ▸ List.Subset.refl _)
  have hshared : SharedBy key (fun j => (c j).2) i w := by
    refine ⟨hsub i (hfront ▸ hkey), hsub w (mem_of_derives hderived), fun j hj => ?_⟩
    exact eq_of_derived hrun haccepted.keyed.1 hpeer (hsecret ▸ hj)
  have hopened := hsession.attends.accepted counter payload frame rfl
  refine ⟨w, key, hw, hkey, hshared, hopened.opens, fun hpayload => ?_⟩
  rw [← hfront, hsecret] at hopened
  obtain ⟨m, hcounter, hsealed⟩ := sealed_of_opened hd haccepted.keyed.1 hpeer hpayload hopened
  exact ⟨m, hcounter, hsealed.symm.imp (fun h => hsub w h) fun h => hfront ▸ h⟩

set_option maxRecDepth 20000 in
/-- The client accepts the answer of this worker. -/
theorem Client.accepts_from_worker_list :
    ∃ (counter : Int) (payload frame : Buffer) (w : Bool) (key : Buffer), twoRoles w = .worker ∧
      derivedEvent key ∈ (listed false).2.take 31 ∧ SharedBy key (fun j => (listed j).2) false w ∧
      Shown tagged key counter payload frame ((listed false).2.take 31) (listed w).2 := by
  obtain ⟨e, rest, haccepted, hsplit⟩ := split_at (t := (listed false).2) (n := 31) (p := accepting)
    (by decide +kernel)
  obtain ⟨counter, payload, frame, rfl⟩ := eq_of_accepting haccepted
  exact ⟨counter, payload, frame,
    Client.accepts_from_worker (Journal.reaches_play ideal_honestReply _ _) rfl hsplit⟩

end EndToEnd

end CloudStorage
