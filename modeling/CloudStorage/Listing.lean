import CloudStorage.Exchange
import CloudStorage.Memory.TextStream

set_option autoImplicit false

/-! # Listing a directory

`File::getFileNames` joins the names with commas, `ListM3` carries the joined string without a
terminator, and `Client::list_files` reads it back as a C string from an array that nothing
terminates, and splits it at the commas. What the client prints therefore depends on the memory
behind the array: it is the list exactly if that memory ends the string. -/

namespace CloudStorage

open Interaction Memory

/-! ## Joining and splitting -/

/-- A string that `std::getline` with a comma keeps in one piece, and that is not lost at the end. -/
def IsToken (name : Name) : Prop := name ≠ [] ∧ (44 : UInt8) ∉ name

variable {names : List Name} {t : Buffer}

theorem foldl_join (acc : Buffer) (hacc : acc ≠ []) (names : List Name) :
    names.foldl (fun a b => a ++ (if 0 < a.length then ascii "," else []) ++ b) acc =
      [(44 : UInt8)].intercalate (acc :: names) := by
  induction names generalizing acc with
  | nil => rw [List.foldl_nil, List.intercalate_singleton]
  | cons name names ih =>
      have hpos : 0 < acc.length := List.length_pos_of_ne_nil hacc
      rw [List.foldl_cons, if_pos hpos, ih _ (by simp [hacc]), List.intercalate_cons_cons]
      cases names with
      | nil => rw [List.intercalate_singleton, List.intercalate_singleton]; rfl
      | cons next names =>
          rw [List.intercalate_cons_cons, List.intercalate_cons_cons]
          simp [ascii]

/-- `File::getFileNames` joins with commas. -/
theorem joinNames_eq (hnames : ∀ name ∈ names, IsToken name) :
    File.joinNames names = [(44 : UInt8)].intercalate names := by
  cases names with
  | nil => rfl
  | cons name names =>
      have hne : name ≠ [] := (hnames name (List.mem_cons_self ..)).1
      have hfirst : ([] : Buffer) ++ (if 0 < ([] : Buffer).length then ascii "," else []) ++ name =
          name := rfl
      rw [File.joinNames, List.foldl_cons, hfirst]
      exact foldl_join name hne names

theorem splitOn_joinNames (hnames : ∀ name ∈ names, IsToken name) (hne : names ≠ []) :
    (File.joinNames names).splitOn 44 = names := by
  rw [joinNames_eq hnames]
  exact List.splitOn_intercalate 44 (fun name hname => (hnames name hname).2) hne

/-- The tokens of a string are its parts, but for an empty part at the end. -/
theorem tokens_eq (t : Buffer) : tokens t =
    if (t.splitOn 44).getLast? = some [] then (t.splitOn 44).dropLast else t.splitOn 44 := by
  unfold tokens
  split
  · rename_i h
    rw [h]
    rfl
  · rfl

/-- A string is made of its parts. -/
theorem eq_of_splitOn_eq {t' : Buffer} (h : t.splitOn 44 = t'.splitOn 44) : t = t' := by
  have hjoin : List.intercalate [44] (t.splitOn 44) = t := List.intercalate_splitOn 44
  rw [← hjoin, h, List.intercalate_splitOn]

/-- One more comma makes one more part, which is empty. -/
theorem splitOn_joinNames_comma (hnames : ∀ name ∈ names, IsToken name) (hne : names ≠ []) :
    (File.joinNames names ++ ascii ",").splitOn 44 = names ++ [[]] := by
  have hcomma : ascii "," = 44 :: [] := rfl
  rw [hcomma, List.splitOn_append_cons_self, splitOn_joinNames hnames hne, List.splitOn_nil]

/-- **The strings that split into given names** are the joined names and, if there are any, these
    with one more comma. -/
theorem tokens_eq_iff (hnames : ∀ name ∈ names, IsToken name) :
    tokens t = names ↔
      t = File.joinNames names ∨ (names ≠ [] ∧ t = File.joinNames names ++ ascii ",") := by
  rw [tokens_eq]
  by_cases hne : names = []
  · subst hne
    constructor
    · intro h
      left
      apply eq_of_splitOn_eq
      split_ifs at h with hlast
      · rw [← List.dropLast_append_getLast? [] hlast, h]
        rfl
      · exact absurd h (List.splitOn_ne_nil _ _)
    · rintro (rfl | ⟨hne, -⟩)
      · rfl
      · exact absurd rfl hne
  have hlast : ∀ name, names.getLast? = some name → name ≠ [] :=
    fun name hname => (hnames name (List.mem_of_getLast? hname)).1
  constructor
  · intro h
    split_ifs at h with hempty
    · refine Or.inr ⟨hne, eq_of_splitOn_eq ?_⟩
      rw [splitOn_joinNames_comma hnames hne, ← h]
      exact (List.dropLast_append_getLast? [] hempty).symm
    · refine Or.inl (eq_of_splitOn_eq ?_)
      rw [splitOn_joinNames hnames hne, h]
  · rintro (rfl | ⟨-, rfl⟩)
    · rw [splitOn_joinNames hnames hne, if_neg]
      exact fun h => hlast [] h rfl
    · rw [splitOn_joinNames_comma hnames hne, if_pos (List.getLast?_concat ..),
        List.dropLast_concat]

/-! ## Names -/

/-- A valid name is made of the characters for names. -/
theorem not_mem_of_valid {name : Name} (h : File.isValidFileName name = true) {c : UInt8}
    (hc : isNameChar c = false) : c ∉ name := by
  cases name with
  | nil => cases h
  | cons b bs =>
      simp only [File.isValidFileName, Bool.and_eq_true, decide_eq_true_eq, List.all_eq_true] at h
      obtain ⟨⟨hb, -⟩, hbs⟩ := h
      have hfirst : isNameChar b = true := by
        unfold isNameChar
        rw [hb]
        rfl
      intro hmem
      rcases List.mem_cons.1 hmem with rfl | hmem
      · rw [hfirst] at hc
        cases hc
      · rw [hbs c hmem] at hc
        cases hc

theorem isToken_of_valid {name : Name} (h : File.isValidFileName name = true) :
    IsToken name ∧ (0 : UInt8) ∉ name := by
  refine ⟨⟨?_, not_mem_of_valid h (by decide)⟩, not_mem_of_valid h (by decide)⟩
  rintro rfl
  cases h

/-- The joined names have no NUL in them. -/
theorem nul_not_mem_joinNames (hvalid : ∀ name ∈ names, File.isValidFileName name = true) :
    (0 : UInt8) ∉ File.joinNames names := by
  rw [joinNames_eq fun name hname => (isToken_of_valid (hvalid name hname)).1]
  induction names with
  | nil => simp
  | cons name names ih =>
      have hname := (isToken_of_valid (hvalid name (List.mem_cons_self ..))).2
      have hrest := ih fun name hname => hvalid name (List.mem_cons_of_mem _ hname)
      cases names with
      | nil =>
          rw [List.intercalate_singleton]
          exact hname
      | cons next names =>
          rw [List.intercalate_cons_cons]
          simp [hname, hrest]

theorem cstr_append {b c : Buffer} (h : (0 : UInt8) ∉ b) : cstr (b ++ c) = b ++ cstr c := by
  unfold cstr
  rw [List.takeWhile_append_of_pos]
  intro a ha
  rw [bne_iff_ne]
  rintro rfl
  exact h ha

/-- The length of a packet that is too long for an `int` is not computed right. -/
theorem ListM3.getSize_ne {n : Nat} (h : intMax ≤ n) (hlt : n < 4294967296) :
    ListM3.getSize n ≠ 1 + n := by
  unfold ListM3.getSize sizeOfInt intOfSize intOfWord intMax at *
  split <;> omega

/-! ## The loop of the client -/

/-- Up to a comma there is one token. -/
theorem tokens_append_comma {a : Buffer} (h : (44 : UInt8) ∉ a) (rest : Buffer) :
    tokens (a ++ 44 :: rest) = a :: tokens rest := by
  have hne : rest.splitOn 44 ≠ [] := List.splitOn_ne_nil _ _
  have hlast : (a :: rest.splitOn 44).getLast? = (rest.splitOn 44).getLast? :=
    List.getLast?_cons_of_ne_nil hne
  have hdrop : (a :: rest.splitOn 44).dropLast = a :: (rest.splitOn 44).dropLast :=
    List.dropLast_cons_of_ne_nil hne
  rw [tokens_eq, tokens_eq, List.splitOn_append_cons_self_of_not_mem h, hlast, hdrop]
  split_ifs <;> rfl

theorem tokens_of_not_mem {a : Buffer} (h : (44 : UInt8) ∉ a) (hne : a ≠ []) : tokens a = [a] := by
  rw [tokens_eq, List.splitOn_eq_singleton h]
  simp [hne]

/-- The tokens are what the loop reads from a `std::istringstream`, by induction on what is left of it. -/
theorem tokens_eq_loop (t : Buffer) : tokens t = (TextStream.start t).tokens 44 := by
  induction hn : t.length using Nat.strong_induction_on generalizing t with
  | _ n ih =>
      by_cases hcomma : (44 : UInt8) ∈ t
      · obtain ⟨a, rest, rfl, hnot⟩ := List.eq_append_cons_of_mem hcomma
        have hlt : rest.length < n := by
          rw [← hn]
          simp
          omega
        rw [tokens_append_comma hnot, TextStream.tokens_append hnot, ih rest.length hlt rest rfl]
      · by_cases hne : t = []
        · rw [hne, TextStream.tokens_nil]
          rfl
        · rw [tokens_of_not_mem hcomma hne, TextStream.tokens_last hcomma hne]

/-- A name that a list of files can hold. -/
def Joinable (name : Name) : Prop := name ≠ [] ∧ (44 : UInt8) ∉ name ∧ (0 : UInt8) ∉ name

instance (name : Name) : Decidable (Joinable name) := inferInstanceAs (Decidable (_ ∧ _))

theorem Joinable.isToken {name : Name} (h : Joinable name) : IsToken name := ⟨h.1, h.2.1⟩

/-- The loop of the client takes apart what `File::getFileNames` joined. -/
theorem loop_joinNames (h : ∀ name ∈ names, Joinable name) :
    (TextStream.start (File.joinNames names)).tokens 44 = names := by
  rw [joinNames_eq fun name hname => (h name hname).isToken]
  exact TextStream.tokens_intercalate fun name hname => (h name hname).isToken

/-- **Joining and splitting are inverse** for names that a list can hold, as all valid ones are. -/
theorem join_split_inverse :
    (∀ names : List Name, (∀ name ∈ names, Joinable name) →
      (TextStream.start (File.joinNames names)).tokens 44 = names) ∧
    (∀ name : Name, File.isValidFileName name = true → Joinable name) ∧
    ∀ names names' : List Name, (∀ name ∈ names, Joinable name) → (∀ name ∈ names', Joinable name) →
      names ≠ names' → File.joinNames names ≠ File.joinNames names' := by
  refine ⟨fun names h => loop_joinNames h, ?_, ?_⟩
  · intro name hvalid
    obtain ⟨⟨hne, hcomma⟩, hnul⟩ := isToken_of_valid hvalid
    exact ⟨hne, hcomma, hnul⟩
  · intro names names' h h' hne heq
    apply hne
    rw [← loop_joinNames h, ← loop_joinNames h', heq]

/-- Two names, there and back; and the list of the one is not the list of both. -/
theorem join_split_two_names :
    (TextStream.start (File.joinNames [ascii "a", ascii "b.c"])).tokens 44 = [ascii "a", ascii "b.c"] ∧
      Joinable (ascii "b.c") ∧ File.joinNames [ascii "a"] ≠ File.joinNames [ascii "a", ascii "b.c"] :=
  ⟨join_split_inverse.1 _ (by decide), join_split_inverse.2.1 _ (by decide),
    join_split_inverse.2.2 _ _ (by decide) (by decide) (by decide)⟩

/-! ## The worker -/

section

open Member

variable {P : Platform} {key : Buffer} {heap : Host → Buffer} {x y : Session} {h g : Host}

theorem plays_isDirectory {path : Buffer} (hdir : h.fs.fileType path = some .directory)
    {Q : Except Exit Bool → Session → Host → Prop} (hq : Q (.ok true) x h) :
    Plays P key heap (isDirectory path) x h [] Q := by
  apply Plays.bind_quiet (plays_stat _)
  rw [hdir]
  apply Plays.bind_quiet (plays_stat _)
  rw [hdir]
  exact plays_pure hq

theorem plays_getFileNames {path : Buffer} {names : List Name} (hlist : h.fs.list path = some names)
    {Q : Except Exit Buffer → Session → Host → Prop} (hq : Q (.ok (File.joinNames names)) x h) :
    Plays P key heap (File.getFileNames path) x h [] Q := by
  apply Plays.bind_quiet (plays_list _)
  rw [hlist]
  exact plays_pure hq

end

/-- What can be listed is a directory. -/
theorem Fs.fileType_of_list {fs : Fs} {path : Buffer} (h : fs.list path = some names) :
    fs.fileType path = some .directory := by
  unfold Fs.list at h
  split at h
  · cases h
  · rename_i p hp
    split_ifs at h with hdir
    unfold Fs.fileType
    rw [hp]
    dsimp only
    rw [hdir]

namespace Worker

open Member

variable {P : Platform} {key : Buffer} {heap : Host → Buffer} {y : Session} {g : Host}

/-- One round of the loop of `Worker::start`: a request and its handler. -/
def serve (P : Platform) : Member Int := do
  let payload ← expectPacket P Max.initialRequestLength 0
  command P (commandCode payload) payload

/-- The answer to a listing: the length of the joined names, as an `uint32_t`. -/
def listAck (P : Platform) (names : List Name) : Buffer :=
  (ListM2 0 (File.joinNames names).length).serialize P.order

/-- The part of the joined names that the length counts. -/
def listData (names : List Name) : Buffer :=
  (File.joinNames names).take (wordOfSize (File.joinNames names).length)

theorem length_listData (names : List Name) :
    (listData names).length = wordOfSize (File.joinNames names).length := by
  rw [listData, List.length_take]
  exact Nat.min_eq_left (Nat.mod_le _ _)

/-- The list fits into a frame, as far as its length is announced. -/
def Framed (names : List Name) : Prop :=
  wordOfSize (File.joinNames names).length + 1 < Crypto.lengthLimit

instance (names : List Name) : Decidable (Framed names) := inferInstanceAs (Decidable (_ < _))

/-- The names, if they fit into a frame. -/
def listRest (d : Int) (names : List Name) : List (Turn Message) :=
  if Crypto.lengthLimit ≤ wordOfSize (File.joinNames names).length + 1 then []
  else [.say (d, RequestCodes.listReq :: listData names)]

/-- The answer to a listing, as far as the counters of the request and of the answer go. -/
def listAnswer (P : Platform) (c d : Int) (names : List Name) : List (Turn Message) :=
  if c = intMax then []
  else .say (d, listAck P names) :: if d = intMax then [] else listRest (d + 1) names

variable {names : List Name}

/-- The worker sends the list, if it can be put into a frame. -/
theorem plays_sendList (henc : Encrypts P key) (hkey : y.sessionKey = key)
    (hs : 0 ≤ y.sCounter ∧ y.sCounter ≤ intMax) :
    Plays P key heap (sendList P (File.joinNames names)) y g (listRest y.sCounter names)
      fun _ _ _ => True := by
  have hdata : (File.joinNames names).take (wordOfSize (File.joinNames names).length) =
      listData names := rfl
  have hlen := length_listData names
  unfold sendList
  rw [hdata]
  by_cases hfit : wordOfSize (File.joinNames names).length < intMax
  · rw [ListM3.serialize_of_lt (by rw [hlen]; exact hfit)]
    dsimp only
    have hpayload : (RequestCodes.listReq :: listData names).length =
        wordOfSize (File.joinNames names).length + 1 := by
      rw [List.length_cons, hlen]
    by_cases hlong : Crypto.lengthLimit ≤ wordOfSize (File.joinNames names).length + 1
    · rw [listRest, if_pos hlong]
      apply Plays.bind_quiet (plays_sendPacket_too_long henc hkey hs (by rw [hpayload]; exact hlong) _)
      intro result _ _ _
      cases result with
      | ok => exact plays_pure trivial
      | error e => exact ⟨rfl, trivial⟩
    · rw [listRest, if_neg hlong]
      apply Plays.bind (s := [.say (y.sCounter, RequestCodes.listReq :: listData names)]) (t := [])
      apply plays_sendPacket_or_end henc hkey hs (sealable_of_length hpayload (by omega) (by omega))
      · exact fun _ _ _ => plays_pure trivial
      · exact fun _ _ _ _ => ⟨rfl, trivial⟩
  · have hlong : Crypto.lengthLimit ≤ wordOfSize (File.joinNames names).length + 1 := by
      unfold Crypto.lengthLimit intMax at *
      omega
    rw [listRest, if_pos hlong]
    cases hserialize : ListM3.serialize (listData names) with
    | none =>
        apply plays_throw
        trivial
    | some payload =>
        rw [ListM3.serialize, hlen] at hserialize
        split_ifs at hserialize with hsize
        exact absurd hsize (ListM3.getSize_ne (by omega) (Nat.mod_lt _ (by decide)))

theorem plays_serve_list (henc : Encrypts P key) (hkey : y.sessionKey = key)
    (hr : 0 ≤ y.rCounter ∧ y.rCounter ≤ intMax) (hs : 0 ≤ y.sCounter ∧ y.sCounter ≤ intMax)
    (hlist : g.fs.list (folderPath y.username) = some names) :
    Plays P key heap (serve P) y g
      (.hear (y.rCounter, ListM1.serialize) :: listAnswer P y.rCounter y.sCounter names)
      fun _ _ _ => True := by
  apply Plays.bind (s := [.hear (y.rCounter, ListM1.serialize)])
    (t := listAnswer P y.rCounter y.sCounter names)
  apply plays_expectPacket_or_end hkey hr (CodeM1.length_serialize _) (by decide)
  · intro hcount g₁ hsame
    have hfs : g₁.fs.list (folderPath y.username) = some names := by rw [hsame.fs, hlist]
    rw [listAnswer, if_neg (Int.ne_of_lt hcount.2)]
    show Plays P key heap (returning (listFiles P)) _ _ _ _
    apply Plays.returning
    apply Plays.bind_quiet (plays_get _)
    apply Plays.bind_quiet (plays_isDirectory (Fs.fileType_of_list hfs) _)
    dsimp only
    rw [if_pos rfl]
    apply Plays.bind_quiet (plays_getFileNames hfs _)
    apply Plays.bind (s := [.say (y.sCounter, listAck P names)])
      (t := if y.sCounter = intMax then [] else listRest (y.sCounter + 1) names)
    apply plays_sendPacket_or_end (x := { y with rCounter := y.rCounter + 1 }) henc hkey hs
      (sealable_of_length (SizedAck.length_serialize ..) (by decide) (by decide))
    · intro hsend g₂ _
      rw [if_neg (Int.ne_of_lt hsend.2)]
      have hrange : 0 ≤ y.sCounter + 1 ∧ y.sCounter + 1 ≤ intMax := by
        have hlt : y.sCounter < intMax := hsend.2
        omega
      have hrest : Plays P key heap (sendList P (File.joinNames names))
          { y with sCounter := y.sCounter + 1, rCounter := y.rCounter + 1 } g₂
          (listRest (y.sCounter + 1) names) fun _ _ _ => True := plays_sendList henc hkey hrange
      apply hrest.mono
      intro result _ _ _
      cases result with
      | ok => trivial
      | error => trivial
    · intro hend _ g₂ _
      exact ⟨if_pos hend, trivial⟩
  · intro hend _ g₁ _
    exact ⟨if_pos hend, trivial⟩

end Worker

/-! ## The client -/

namespace Client

open Member Worker

theorem plays_printNames {P : Platform} {key : Buffer} {heap : Host → Buffer} {x : Session} {h : Host}
    (names : List Buffer) {Q : Except Exit Unit → Session → Host → Prop}
    (hq : Q (.ok ()) x { h with printed := h.printed ++ names.map .listed }) :
    Plays P key heap (printNames names) x h [] Q := by
  induction names generalizing h with
  | nil =>
      apply plays_pure
      rwa [List.map_nil, List.append_nil] at hq
  | cons name names ih =>
      apply Plays.bind_quiet (plays_print _)
      apply ih
      rwa [List.append_assoc]

variable {P : Platform} {key heap : Buffer} {x : Session} {h : Host} {names : List Name}

theorem sealable_request : Sealable ListM1.serialize :=
  sealable_of_length (CodeM1.length_serialize _) (by decide) (by decide)

theorem deserialize_listM2 (order : ByteOrder) (code : UInt8) (n : Nat) :
    SizedAck.deserialize order ((ListM2 code n).serialize order) = ListM2 code n :=
  SizedAck.deserialize_serialize _ (Nat.mod_lt _ (by decide))

theorem ackCode_listM2 (code : UInt8) (n : Nat) : (ListM2 code n).ackCode = code := rfl

/-- The list is read as it was sent. -/
theorem readList_listData (hfit : Framed names) : readList (wordOfSize (File.joinNames names).length)
    (RequestCodes.listReq :: listData names) = pure (listData names) := by
  have hlen := length_listData names
  have hslice : (listData names).take (wordOfSize (File.joinNames names).length) = listData names := by
    rw [← hlen, List.take_length]
  unfold readList
  unfold Framed Crypto.lengthLimit at hfit
  rw [if_neg]
  · exact congrArg pure hslice
  · rw [List.length_cons, hlen]
    omega

/-- The client prints what it finds in the array and behind it. -/
theorem plays_receiveList (hkey : x.sessionKey = key) (hr : 0 ≤ x.rCounter ∧ x.rCounter ≤ intMax)
    (hfit : Framed names) :
    Plays P key (fun _ => heap) (receiveList P (wordOfSize (File.joinNames names).length)) x h
      [.hear (x.rCounter, RequestCodes.listReq :: listData names)] fun _ _ h' =>
        h'.printed = h.printed ++ (tokens (cstr (listData names ++ heap))).map .listed := by
  have hlen := length_listData names
  unfold Framed Crypto.lengthLimit at hfit
  have hpayload : (RequestCodes.listReq :: listData names).length =
      1 + wordOfSize (File.joinNames names).length := by
    rw [List.length_cons, hlen, Nat.add_comm]
  have hsize : ListM3.getSize (wordOfSize (File.joinNames names).length) =
      1 + wordOfSize (File.joinNames names).length := ChunkM2.getSize_of_lt (by unfold intMax; omega)
  unfold receiveList
  rw [hsize]
  apply Plays.bind (s := [.hear (x.rCounter, RequestCodes.listReq :: listData names)]) (t := [])
  apply plays_receiveFrame hkey hr hpayload (by omega)
  intro w
  apply Plays.bind_quiet (plays_checkCounter _)
  intro h₁ hsame
  rw [readList_listData hfit]
  apply Plays.bind_quiet (plays_pure _)
  apply Plays.bind_quiet (plays_overrun _)
  apply Plays.bind_quiet (plays_printNames _ _)
  apply Plays.bind_quiet (plays_advanceReceive_or_end hr _ _)
  · intro _ h₂ hsame'
    apply plays_pure
    rw [hsame'.printed, hsame.printed]
  · intro _ _ h₂ hsame'
    refine ⟨rfl, ?_⟩
    rw [hsame'.printed, hsame.printed]

/-- With counters that go on and a list that fits into a frame, the list is printed. -/
theorem plays_listFiles (henc : Encrypts P key) (hkey : x.sessionKey = key)
    (hs : Counting x.sCounter) (hr : Counting x.rCounter)
    (hfit : Framed names) :
    Plays P key (fun _ => heap) (listFiles P) x h
      (.say (x.sCounter, ListM1.serialize) ::
        (listAnswer P x.sCounter x.rCounter names).map .mirror) fun _ _ h' =>
        h'.printed = h.printed ++ (tokens (cstr (listData names ++ heap))).map .listed := by
  rw [listAnswer, if_neg (Int.ne_of_lt hs.2), if_neg (Int.ne_of_lt hr.2), listRest,
    if_neg (Nat.not_le.2 hfit)]
  apply Plays.bind (s := [.say (x.sCounter, ListM1.serialize)])
  apply plays_sendPacket henc hkey hs sealable_request
  intro h₁ hsame₁
  apply Plays.bind (s := [.hear (x.rCounter, listAck P names)])
  apply plays_expectPacket (x := { x with sCounter := x.sCounter + 1 }) hkey hr
    (SizedAck.length_serialize _ _) (by decide)
  intro h₂ hsame₂
  dsimp only
  rw [deserialize_listM2, ackCode_listM2, if_neg (by decide)]
  have hrange : 0 ≤ x.rCounter + 1 ∧ x.rCounter + 1 ≤ intMax := by
    unfold Counting at hr
    omega
  have hlist : Plays P key (fun _ => heap) (receiveList P (wordOfSize (File.joinNames names).length))
      { x with sCounter := x.sCounter + 1, rCounter := x.rCounter + 1 } h₂
      [.hear (x.rCounter + 1, RequestCodes.listReq :: listData names)] fun _ _ h' =>
        h'.printed = h₂.printed ++ (tokens (cstr (listData names ++ heap))).map .listed :=
    plays_receiveList hkey hrange hfit
  apply hlist.mono
  intro result x' h' hprinted
  rw [hprinted, hsame₂.printed, hsame₁.printed]

/-- Otherwise nothing is printed. -/
theorem stops_listFiles (henc : Encrypts P key) (hkey : x.sessionKey = key)
    (hs : 0 ≤ x.sCounter ∧ x.sCounter ≤ intMax) (hr : 0 ≤ x.rCounter ∧ x.rCounter ≤ intMax)
    (hnot : ¬(Counting x.sCounter ∧ Counting x.rCounter ∧
      Framed names)) :
    Stops P key (fun _ => heap) (listFiles P) x h
      (.say (x.sCounter, ListM1.serialize) ::
        (listAnswer P x.sCounter x.rCounter names).map .mirror) fun h' => h'.printed = h.printed := by
  apply Plays.bind_stops (s := [.say (x.sCounter, ListM1.serialize)])
    (t := (listAnswer P x.sCounter x.rCounter names).map .mirror)
  apply plays_sendPacket_or_end henc hkey hs sealable_request
  · intro hsend h₁ hsame₁
    rw [listAnswer, if_neg (Int.ne_of_lt hsend.2)]
    apply Plays.bind_stops (s := [.hear (x.rCounter, listAck P names)])
      (t := (if x.rCounter = intMax then [] else listRest (x.rCounter + 1) names).map .mirror)
    apply plays_expectPacket_or_end (x := { x with sCounter := x.sCounter + 1 }) hkey hr
      (SizedAck.length_serialize _ _) (by decide)
    · intro hcount h₂ hsame₂
      have hcount : Counting x.rCounter := hcount
      have hlong : Crypto.lengthLimit ≤ wordOfSize (File.joinNames names).length + 1 := by
        by_contra hfit
        exact hnot ⟨hsend, hcount, Nat.lt_of_not_le hfit⟩
      rw [if_neg (Int.ne_of_lt hcount.2), listRest, if_pos hlong]
      dsimp only
      rw [deserialize_listM2, ackCode_listM2, if_neg (by decide)]
      apply stops_receiveFrame
      rw [hsame₂.printed, hsame₁.printed]
    · intro hend _ h₂ hsame₂
      have hend : x.rCounter = intMax := hend
      rw [if_pos hend]
      exact ⟨rfl, by rw [hsame₂.printed, hsame₁.printed]⟩
  · intro hend _ h₁ hsame₁
    rw [listAnswer, if_pos hend]
    exact ⟨rfl, hsame₁.printed⟩

end Client

/-! ## Both ends -/

section

open Client Worker Member

variable {P : Platform} {key : Buffer} {x y : Session} {h g : Host} {names : List Name}

/-- A client that asks for the list and a worker that waits for a request, with what the memory
    behind the arrays holds on either side. -/
def listing (P : Platform) (x y : Session) (h g : Host) (choices choices' : Nat → Choice) :
    Link UInt8 SysCalls SysCalls (Except Exit Int × Session) (Except Exit Int × Session)
      (Host × (Nat → Choice)) (Host × (Nat → Choice)) :=
  ⟨(Client.listFiles P x, (h, choices)), (serve P y, (g, choices')), [], []⟩

/-- Every schedule leads to an end where the client has printed just the names. -/
def Lists (P : Platform) (x y : Session) (h g : Host) (heap : Buffer) (heap' : Host → Buffer)
    (names : List Name) (choices choices' : Nat → Choice) : Prop :=
  Link.LeadsTo (Host.onHeap fun _ => heap) (Host.onHeap heap')
    (fun c => c.2.1.printed = h.printed ++ names.map .listed) (fun _ => True)
    (listing P x y h g choices choices')

/-- The memory behind the array goes on as the list does, and ends it. -/
def Completes (heap : Buffer) (names : List Name) : Prop :=
  let rest := (File.joinNames names).drop (wordOfSize (File.joinNames names).length)
  cstr heap = rest ∨ (names ≠ [] ∧ cstr heap = rest ++ ascii ",")

instance (heap : Buffer) (names : List Name) : Decidable (Completes heap names) :=
  inferInstanceAs (Decidable (_ ∨ _))

/-- What is printed is the list. -/
theorem tokens_listData_iff (hvalid : ∀ name ∈ names, File.isValidFileName name = true)
    {heap : Buffer} : tokens (cstr (listData names ++ heap)) = names ↔ Completes heap names := by
  have hjoin : listData names ++
      (File.joinNames names).drop (wordOfSize (File.joinNames names).length) =
      File.joinNames names := List.take_append_drop ..
  have hnul : (0 : UInt8) ∉ listData names :=
    fun hmem => nul_not_mem_joinNames hvalid (List.mem_of_mem_take hmem)
  rw [cstr_append hnul, tokens_eq_iff fun name hname => (isToken_of_valid (hvalid name hname)).1]
  unfold Completes
  dsimp only
  constructor
  · rintro (heq | ⟨hne, heq⟩)
    · rw [← hjoin] at heq
      exact Or.inl (List.append_cancel_left heq)
    · rw [← hjoin, List.append_assoc] at heq
      exact Or.inr ⟨hne, List.append_cancel_left heq⟩
  · rintro (heq | ⟨hne, heq⟩)
    · rw [heq]
      exact Or.inl hjoin
    · rw [heq, ← List.append_assoc, hjoin]
      exact Or.inr ⟨hne, rfl⟩

/-- The session of a listing: one key, matching counters, the folder of the user. -/
structure Listable (P : Platform) (key : Buffer) (x y : Session) (g : Host) (names : List Name) :
    Prop where
  encrypts : Encrypts P key
  client_key : x.sessionKey = key
  worker_key : y.sessionKey = key
  sent : x.sCounter = y.rCounter
  received : x.rCounter = y.sCounter
  sent_range : 0 ≤ x.sCounter ∧ x.sCounter ≤ intMax
  received_range : 0 ≤ x.rCounter ∧ x.rCounter ≤ intMax
  folder : g.fs.list (folderPath y.username) = some names
  valid : ∀ name ∈ names, File.isValidFileName name = true

variable {heap : Buffer} {heap' : Host → Buffer} {choices choices' : Nat → Choice}

/-- The worker answers what the client waits for. -/
theorem Listable.plays_worker (hl : Listable P key x y g names) :
    Member.Plays P key heap' (serve P) y g ((Turn.say (x.sCounter, ListM1.serialize) ::
      (listAnswer P x.sCounter x.rCounter names).map .mirror).map .mirror) fun _ _ _ => True := by
  have hserve : Member.Plays P key heap' (serve P) y g
      (.hear (y.rCounter, ListM1.serialize) :: listAnswer P y.rCounter y.sCounter names)
      fun _ _ _ => True :=
    plays_serve_list hl.encrypts hl.worker_key (hl.sent ▸ hl.sent_range)
      (hl.received ▸ hl.received_range) hl.folder
  rw [← hl.sent, ← hl.received] at hserve
  rw [List.map_cons, List.map_map, Turn.mirror_say]
  simpa [Function.comp_def] using hserve

/-- Where the session goes on and the list fits, the client prints what it reads. -/
theorem Listable.printed (hl : Listable P key x y g names) (hs : Counting x.sCounter)
    (hr : Counting x.rCounter) (hfit : Framed names) :
    Link.LeadsTo (Host.onHeap fun _ => heap) (Host.onHeap heap')
      (fun c => c.2.1.printed = h.printed ++ (tokens (cstr (listData names ++ heap))).map .listed)
      (fun _ => True) (listing P x y h g choices choices') :=
  (plays_listFiles hl.encrypts hl.client_key hs hr hfit).stops.leadsTo hl.plays_worker.stops _ _

/-- Where it does not, the client prints nothing. -/
theorem Listable.unprinted (hl : Listable P key x y g names)
    (hnot : ¬(Counting x.sCounter ∧ Counting x.rCounter ∧ Framed names)) :
    Link.LeadsTo (Host.onHeap fun _ => heap) (Host.onHeap heap')
      (fun c => c.2.1.printed = h.printed) (fun _ => True) (listing P x y h g choices choices') :=
  (stops_listFiles hl.encrypts hl.client_key hl.sent_range hl.received_range hnot).leadsTo
    hl.plays_worker.stops _ _

theorem map_listed_inj {names names' : List Name} :
    names.map Report.listed = names'.map Report.listed ↔ names = names' :=
  (List.map_injective_iff.2 fun _ _ heq => Report.listed.inj heq).eq_iff

theorem framed_nil : Framed [] := by decide

/-- **What a listing shows**: with a client and a worker that hold one key and matching counters, and a
    directory whose files have valid names, the client prints exactly these names, in their order, if
    the memory behind the array of the list ends the list there, the announced length is that of a
    frame and no counter is at its end; in any other case it does so only if it has nothing to print
    and prints nothing. -/
theorem lists_iff (hl : Listable P key x y g names) :
    Lists P x y h g heap heap' names choices choices' ↔
      if Counting x.sCounter ∧ Counting x.rCounter then Framed names ∧ Completes heap names
      else names = [] := by
  by_cases hcounts : Counting x.sCounter ∧ Counting x.rCounter
  · rw [if_pos hcounts]
    by_cases hfit : Framed names
    · unfold Lists
      rw [(hl.printed hcounts.1 hcounts.2 hfit).value_iff, List.append_cancel_left_eq, map_listed_inj,
        tokens_listData_iff hl.valid]
      exact (and_iff_right hfit).symm
    · have hnot : ¬(Counting x.sCounter ∧ Counting x.rCounter ∧ Framed names) :=
        fun hall => hfit hall.2.2
      unfold Lists
      rw [(hl.unprinted hnot).value_iff]
      constructor
      · intro heq
        have hnil : names = [] := by simpa using heq
        exact absurd framed_nil (hnil ▸ hfit)
      · exact fun hboth => absurd hboth.1 hfit
  · have hnot : ¬(Counting x.sCounter ∧ Counting x.rCounter ∧ Framed names) :=
      fun hall => hcounts ⟨hall.1, hall.2.1⟩
    rw [if_neg hcounts]
    unfold Lists
    rw [(hl.unprinted hnot).value_iff]
    simp

/-! ## A directory of three files -/

/-- The directory of a user with the files `a`, `b_2` and `notes.txt`. -/
def threeFiles : Host := .start
  ([ascii "notes.txt", ascii "b_2", ascii "a"].foldl
    (fun fs name => (fs.openWrite (ascii "/data/user1/" ++ name)).2)
    (Fs.ofFolders [ascii "/data", ascii "/data/user1"])) ⟨[], false, false⟩

theorem listable_threeFiles : Listable (.aes .little) sampleKey (.start (ascii "user1") sampleKey)
    (.start (ascii "user1") sampleKey) threeFiles [ascii "a", ascii "b_2", ascii "notes.txt"] where
  encrypts := encrypts_sampleKey .little
  client_key := rfl
  worker_key := rfl
  sent := rfl
  received := rfl
  sent_range := by decide
  received_range := by decide
  folder := by decide +kernel
  valid := by decide

/-- Fresh memory that starts with a NUL ends the list. -/
theorem lists_iff_threeFiles :
    Lists (.aes .little) (.start (ascii "user1") sampleKey) (.start (ascii "user1") sampleKey) threeFiles
      threeFiles [0] (fun _ => []) [ascii "a", ascii "b_2", ascii "notes.txt"] (fun _ => .calm)
      fun _ => .calm :=
  (lists_iff listable_threeFiles).2 (by decide +kernel)

/-- Fresh memory that starts with a letter puts it behind the last name. -/
theorem lists_what_is_not_there : ¬∀ (P : Platform) (key : Buffer) (x y : Session) (h g : Host)
    (heap : Buffer) (heap' : Host → Buffer) (names : List Name) (choices choices' : Nat → Choice),
    Listable P key x y g names → Counting x.sCounter → Counting x.rCounter →
      Lists P x y h g heap heap' names choices choices' := by
  intro hall
  have hlists := hall (.aes .little) sampleKey (.start (ascii "user1") sampleKey)
    (.start (ascii "user1") sampleKey) threeFiles threeFiles (ascii "b") (fun _ => [])
    [ascii "a", ascii "b_2", ascii "notes.txt"] (fun _ => .calm) (fun _ => .calm) listable_threeFiles
    (by decide) (by decide)
  -- the last name that the client has read is `notes.txtb`
  have hsame := (listable_threeFiles.printed (by decide) (by decide) (by decide)).value_iff.1 hlists
  rw [List.append_cancel_left_eq, map_listed_inj] at hsame
  exact absurd hsame (by decide)

end

end CloudStorage
