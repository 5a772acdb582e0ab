import CloudStorage.Rounds

set_option autoImplicit false

/-! # Client and worker in step

Both ends of a session over a reliable link, from the menu of the client and the command loop of the
worker on. `lockstep` is about any number of choices, whatever is typed: under every schedule each
receive asks for the frame that was sent, and in the end nothing is unread, the counters agree and the
worker waits for a command, or both have left after a logout. This takes that every list fits into a
frame and that every download has a size that fits into a word; a file of 2^32 bytes leaves its chunks
unread. -/

namespace CloudStorage

open Interaction Member Memory

/-- The menu for `n` choices and the command loop for `m` commands, over one link. -/
abbrev session (P : Platform) (n m : Nat) (choice : Buffer) (x y : Session) (h g : Host)
    (choices choices' : Nat → Choice) : Link UInt8 SysCalls SysCalls (Except Exit Int × Session)
      (Except Exit Int × Session) (Host × (Nat → Choice)) (Host × (Nat → Choice)) :=
  ⟨(Client.menuLoop P n choice x, (h, choices)), (Worker.commandLoop P m y, (g, choices')), [], []⟩

/-- The client has made its choices, or has left; with its counters. -/
def ClientAt (left : Bool) (sCounter rCounter : Int)
    (c : Program.Config UInt8 SysCalls (Except Exit Int × Session) (Host × (Nat → Choice))) : Prop :=
  ∃ x l, c = (.ret (if left then .ok 0 else .error .unfinished, x), l) ∧
    x.sCounter = sCounter ∧ x.rCounter = rCounter

/-- The worker waits for a command, or has left; with its counters. -/
def WorkerAt (P : Platform) (left : Bool) (sCounter rCounter : Int)
    (c : Program.Config UInt8 SysCalls (Except Exit Int × Session) (Host × (Nat → Choice))) : Prop :=
  ∃ y l, (if left then c = (.ret (.ok 0, y), l) else ∃ k, c = (Worker.commandLoop P (k + 1) y, l)) ∧
    y.sCounter = sCounter ∧ y.rCounter = rCounter

/-- The two ends stay in step: under every schedule each receive asks for what was sent, and they come
    to an end with nothing unread, where what one has counted as sent the other has as received. -/
def Lockstep (P : Platform) (heap heap' : Host → Buffer) (left : Bool) (n m : Nat) (choice : Buffer)
    (x y : Session) (h g : Host) (choices choices' : Nat → Choice) : Prop :=
  ∃ s r, Link.LeadsTo (Host.onHeap heap) (Host.onHeap heap') (ClientAt left s r) (WorkerAt P left r s)
    (session P n m choice x y h g choices choices')

/-- A session that is under way at the stage `s`, with counters that last for `n` choices. -/
structure Underway (P : Platform) (key : Buffer) (D D' : Path) (n : Nat) (s : Stage) (x y : Session)
    (h g : Host) : Prop where
  encrypts : Encrypts P key
  client_key : x.sessionKey = key
  sent : x.sCounter = y.rCounter
  received : x.rCounter = y.sCounter
  home : Host.At s.home s.console h
  store : g.fs = s.store
  folder : s.store.IsFolder (Worker.folderPath y.username) D
  downloads : s.home.HasRoom Client.downloadsPath D'
  ready : Ready key y (s.scripts P y.username D n)

namespace Underway

variable {P : Platform} {key : Buffer} {D D' : Path} {n m : Nat} {s : Stage} {x y : Session} {h g : Host}

/-- The counters of the client last as well. -/
theorem client_ready (hu : Underway P key D D' n s x y h g) :
    Ready key x ((s.scripts P y.username D n).map .mirror) where
  key := hu.client_key
  sent := by
    rw [hu.sent]
    exact hu.ready.received
  send_room := by
    rw [hu.sent, Turn.spoken_mirror]
    exact hu.ready.receive_room
  received := by
    rw [hu.received]
    exact hu.ready.sent
  receive_room := by
    rw [hu.received, Turn.heard_mirror]
    exact hu.ready.send_room

/-- The client at the end of its choices, with its files as the stages have them. -/
def ClientEnd (P : Platform) (u : Buffer) (D : Path) (n : Nat) (s : Stage) (x : Session)
    (c : Program.Config UInt8 SysCalls (Except Exit Int × Session) (Host × (Nat → Choice))) : Prop :=
  ∃ h choices, h.fs = (s.after u D n).home ∧ c = (.ret (s.menuEnd P u D n x), (h, choices))

/-- The worker then, with the files of the store as the stages have them. -/
def WorkerEnd (P : Platform) (u : Buffer) (D : Path) (n : Nat) (s : Stage) (y : Session)
    (c : Program.Config UInt8 SysCalls (Except Exit Int × Session) (Host × (Nat → Choice))) : Prop :=
  ∃ g choices, g.fs = (s.after u D n).store ∧ if s.leaves u D n then
      c = (.ret (.ok 0, (y.advance (s.scripts P u D n)).closed), (g, choices))
    else ∃ k, c = (Worker.commandLoop P (k + 1) (y.advance (s.scripts P u D n)), (g, choices))

/-- **The rounds of both sides, over the link.** -/
theorem leadsTo (hu : Underway P key D D' n s x y h g) (hm : n < m) (heap heap' : Host → Buffer)
    (choices choices' : Nat → Choice) (hallowed : ∀ k < n, (s.after y.username D k).Allowed D)
    (hfits : ∀ k < n, (s.after y.username D k).Fits D) :
    Link.LeadsTo (Host.onHeap heap) (Host.onHeap heap') (ClientEnd P y.username D n s x)
      (WorkerEnd P y.username D n s y) (session P n m s.choice x y h g choices choices') := by
  have hclient : ConversesTo P key heap (Client.menuLoop P n s.choice) x h
      ((s.scripts P y.username D n).map .mirror) (ClientEnd P y.username D n s x) := by
    apply Client.converses_rounds hu.encrypts hu.home hu.downloads hallowed hfits
    intro h' choices hfs
    exact ⟨h', choices, hfs, rfl⟩
  have hworker : ConversesTo P key heap' (Worker.commandLoop P m) y g (s.scripts P y.username D n)
      (WorkerEnd P y.username D n s y) := by
    apply Worker.converses_rounds hu.encrypts hm rfl hu.store hu.folder hallowed hfits
    · intro hleft g' choices hfs
      exact ⟨g', choices, hfs, by rw [if_pos hleft]⟩
    · intro hstays k g' choices hfs
      exact ⟨g', choices, hfs, by rw [if_neg (by rw [hstays]; decide)]; exact ⟨k, rfl⟩⟩
  have hsaid := hclient hu.client_ready
  rw [Turn.number_mirror, hu.sent, hu.received] at hsaid
  apply hsaid.leadsTo
  rw [List.map_map, Turn.mirror_comp_mirror, List.map_id]
  exact hworker hu.ready

end Underway

/-- **Client and worker stay in step** whatever is typed, as long as it fits. -/
theorem lockstep {P : Platform} {key : Buffer} {D D' : Path} {n m : Nat} {s : Stage} {x y : Session}
    {h g : Host} (hu : Underway P key D D' n s x y h g) (hm : n < m) (heap heap' : Host → Buffer)
    (choices choices' : Nat → Choice) (hallowed : ∀ k < n, (s.after y.username D k).Allowed D)
    (hfits : ∀ k < n, (s.after y.username D k).Fits D) :
    Lockstep P heap heap' (s.leaves y.username D n) n m s.choice x y h g choices choices' := by
  refine ⟨x.sCounter + Turn.heard (s.scripts P y.username D n),
    x.rCounter + Turn.spoken (s.scripts P y.username D n), ?_⟩
  apply (hu.leadsTo hm heap heap' choices choices' hallowed hfits).mono
  · rintro c ⟨h', choices, -, rfl⟩
    rw [Stage.menuEnd]
    cases s.leaves y.username D n <;>
      exact ⟨_, _, rfl, by simp [Session.advance, Session.closed], by simp [Session.advance, Session.closed]⟩
  · rintro c ⟨g', choices, -, hc⟩
    rw [hu.sent, hu.received]
    cases hleaves : s.leaves y.username D n with
    | true =>
        rw [hleaves, if_pos rfl] at hc
        exact ⟨_, _, by rwa [if_pos rfl], rfl, rfl⟩
    | false =>
        rw [hleaves, if_neg (by decide)] at hc
        obtain ⟨k, hk⟩ := hc
        exact ⟨_, _, by rw [if_neg (by decide)]; exact ⟨k, hk⟩, rfl, rfl⟩

/-! ## A size that is cut -/

/-- One side of a conversation is done when the other has more to say. -/
theorem ConversesTo.not_leadsTo {P : Platform} {key : Buffer} {heap heap' : Host → Buffer}
    {r r' : Member Int} {x y : Session} {h g : Host} {t t' : List (Turn Buffer)} {payload : Buffer}
    {R' Q Q' : Program.Config UInt8 SysCalls (Except Exit Int × Session) (Host × (Nat → Choice)) → Prop}
    (hr : ConversesTo P key heap r x h (t.map .mirror) Ended) (hx : Ready key x (t.map .mirror))
    (hr' : ConversesTo P key heap' r' y g (t ++ .say payload :: t') R')
    (hy : Ready key y (t ++ .say payload :: t')) (hsent : x.sCounter = y.rCounter)
    (hreceived : x.rCounter = y.sCounter) (choices choices' : Nat → Choice) :
    ¬Link.LeadsTo (Host.onHeap heap) (Host.onHeap heap') Q Q'
      ⟨(r x, (h, choices)), (r' y, (g, choices')), [], []⟩ := by
  have hdone := hr hx
  have hmore := hr' hy
  rw [Turn.number_mirror, hsent, hreceived] at hdone
  rw [Turn.number_append] at hmore
  apply PlaysTo.not_leadsTo hdone (fun _ hended => hended)
  rw [List.map_map, Turn.mirror_comp_mirror, List.map_id]
  exact hmore

/-- For a size that is cut to nothing the client receives no chunks. -/
theorem Client.converses_cut {P : Platform} {key : Buffer} {heap : Host → Buffer} {x : Session} {h : Host}
    {D' : Path} {s : Stage} {name : Buffer} {size n : Nat} {t : List (Turn Buffer)}
    {R : Program.Config UInt8 SysCalls (Except Exit Int × Session) (Host × (Nat → Choice)) → Prop}
    (henc : Encrypts P key) (hat : Host.At s.home s.console h) (hroom : s.home.HasRoom downloadsPath D')
    (hchosen : stoi s.chosen = some 2) (hname : (enteredName s.console.getline.2).1 = some name)
    (hcut : wordOfSize size = 0)
    (hnext : ∀ h', h'.console = (enteredName s.console.getline.2).2 →
      ConversesTo P key heap (menuLoop P n s.chosen) (x.advance [.say (Request.payload P (.download name)),
        .hear ((DownloadAck 0 size).serialize P.order)]) h' t R) :
    ConversesTo P key heap (menuLoop P (n + 1) s.choice) x h
      ([.say (Request.payload P (.download name)), .hear ((DownloadAck 0 size).serialize P.order)] ++ t)
      R := by
  have hsame : SameChunks (wordOfSize size) ([] : Buffer).length := by
    rw [hcut]
    exact ⟨rfl, rfl⟩
  have hmenu : handleMenuChoice P s.chosen = returning (downloadFile P) := by
    rw [handleMenuChoice, hchosen]
    rfl
  have hstay : ¬((1 : Int) ≠ -2 ∧ stoi s.chosen = some logoutOption) := by
    rw [hchosen]
    decide
  obtain ⟨hfs, hconsole⟩ := hat
  apply ConversesTo.bind_quiet (plays_getline _)
  refine ⟨rfl, ?_⟩
  dsimp only
  rw [hconsole]
  show ConversesTo P key heap (handleMenuChoice P s.chosen >>= _) _ _ _ _
  rw [hmenu]
  apply Converses.bind_to
  apply converses_served henc hname (hfs ▸ hroom) hsame
  intro h' hat'
  dsimp only
  rw [if_neg (by decide)]
  show ConversesTo P key heap (if (1 : Int) ≠ -2 ∧ stoi s.chosen = some logoutOption then _ else _) _ _ _ _
  rw [if_neg hstay]
  exact hnext h' hat'.console

/-- The number of chunks of a file. -/
theorem length_pieces (b : Buffer) : (pieces b).length =
    numFileChunks b.length + if lastChunkSize b.length ≠ 0 then 1 else 0 := by
  rw [pieces, List.length_append, Cipher.length_blocks, lastPiece]
  split_ifs <;> rfl

/-- A file of 2^32 bytes has chunks, and not too many. -/
theorem length_pieces_large {b : Buffer} (hlen : b.length = 4294967296) :
    (pieces b).length = 286331154 := by
  have hchunks : numFileChunks 4294967296 = 286331153 := by decide +kernel
  have hlast : lastChunkSize 4294967296 = 1 := by decide +kernel
  rw [length_pieces, hlen, hchunks, hlast, if_pos (by decide)]

/-- The first of them is a full one. -/
theorem exists_pieces {b : Buffer} (hlen : b.length = 4294967296) :
    ∃ cs, pieces b = b.take Max.maxFileChunk :: cs := by
  have hchunks : numFileChunks b.length = 286331152 + 1 := by
    rw [hlen]
    decide +kernel
  refine ⟨Cipher.blocks Max.maxFileChunk 286331152 (b.drop Max.maxFileChunk) ++ lastPiece b, ?_⟩
  rw [pieces, hchunks, Cipher.blocks, List.cons_append]

/-- The conversation about one request. -/
theorem Stage.scripts_one {P : Platform} {u : Buffer} {D : Path} {s : Stage} {r : Request}
    (hdeed : s.deed = .request r) :
    s.scripts P u D 1 = r.script P (s.store.files D) (s.store.fileNames D) := by
  simp [Stage.scripts, Stage.script, hdeed, Deed.script]

/-- The conversation about a download, but for the chunks. -/
theorem script_download {P : Platform} {m : FileMap} {names : List Name} {name b : Buffer}
    (hb : m name = some b) (hne : b ≠ []) : Request.script P m names (.download name) =
      [.hear (Request.payload P (.download name)), .say ((DownloadAck 0 b.length).serialize P.order)] ++
        sayPieces RequestCodes.downloadChunk (pieces b) := by
  simp [Request.script, Request.turns, hb, hne]

/-- **A download of a file of 2^32 bytes** leaves its chunks unread. -/
theorem Underway.not_leadsTo {P : Platform} {key : Buffer} {D D' : Path} {m : Nat} {s : Stage}
    {x y : Session} {h g : Host} {name b : Buffer} (hu : Underway P key D D' 1 s x y h g)
    (hchosen : stoi s.chosen = some 2) (hname : (Client.enteredName s.console.getline.2).1 = some name)
    (hb : s.store.files D name = some b) (hlen : b.length = 4294967296)
    (heap heap' : Host → Buffer) (choices choices' : Nat → Choice)
    {Q Q' : Program.Config UInt8 SysCalls (Except Exit Int × Session) (Host × (Nat → Choice)) → Prop} :
    ¬Link.LeadsTo (Host.onHeap heap) (Host.onHeap heap') Q Q'
      (session P 1 (m + 1 + 1) s.choice x y h g choices choices') := by
  have hne : b ≠ [] := by
    rintro rfl
    cases hlen
  have hdeed : s.deed = .request (.download name) := by
    rw [Stage.deed, Client.deed, hchosen]
    simp [hname, Deed.ofName]
  obtain ⟨cs, hpieces⟩ := exists_pieces hlen
  have hscript := @script_download P _ (s.store.fileNames D) _ _ hb hne
  rw [hpieces] at hscript
  have hworker : ConversesTo P key heap' (Worker.commandLoop P (m + 1 + 1)) y g
      (Request.script P (s.store.files D) (s.store.fileNames D) (.download name) ++ [])
      fun _ => True := by
    have hallowed : Request.Allowed (s.store.files D) (.download name) :=
      Client.allowed_of_deed hdeed (by rw [← Stage.deed, hdeed]; exact Option.isSome_iff_exists.2 ⟨b, hb⟩)
    have hfolder := hu.folder
    have hlist : Request.download name ≠ .list := by simp
    rw [← hu.store] at hallowed hfolder ⊢
    apply Worker.converses_round hu.encrypts hfolder hallowed (fun heq => absurd heq hlist)
    intro g' _
    obtain ⟨k, hk⟩ := Worker.waits_commandLoop P m
      (y.advance (Request.script P (g.fs.files D) (g.fs.fileNames D) (.download name)))
    exact conversesTo_waiting hk fun _ => trivial
  have hready := hu.ready
  have hready' := hu.client_ready
  rw [List.append_nil, hscript] at hworker
  rw [Stage.scripts_one hdeed, hscript] at hready hready'
  rw [List.map_append] at hready'
  apply ConversesTo.not_leadsTo _ hready'.left hworker hready hu.sent hu.received
  have hcut : wordOfSize b.length = 0 := by
    rw [hlen]
    rfl
  rw [← List.append_nil (List.map _ _)]
  apply Client.converses_cut (n := 0) hu.encrypts hu.home hu.downloads hchosen hname hcut
  intro h' _ _
  exact playsTo_throw fun choices => ⟨_, _, rfl⟩

/-! ## Two sessions -/

/-- The files of a client that has a file `a`. -/
def homeWithFile : Fs := Fs.root.after [.openWrite (ascii "a"), .write 0 sampleFile]

theorem hasRoom_homeWithFile : homeWithFile.HasRoom Client.downloadsPath [ascii "downloads"] :=
  Or.inr (by decide +kernel)

/-- Lines that are typed by a client with a file `a`. -/
def Stage.typing (store : Fs) (lines : Buffer) : Stage := ⟨[], ⟨lines, false, false⟩, homeWithFile, store⟩

/-- A session of `user1`. -/
abbrev user1 : Session := .start (ascii "user1") sampleKey

/-- At the start of a session the counters last for what fits into an `int`. -/
theorem ready_user1 {t : List (Turn Buffer)} (hspoken : (Turn.spoken t : Int) ≤ intMax)
    (hheard : (Turn.heard t : Int) ≤ intMax) : Ready sampleKey user1 t := by
  constructor
  · rfl
  · decide
  · show (0 : Int) + _ ≤ intMax
    rwa [Int.zero_add]
  · decide
  · show (0 : Int) + _ ≤ intMax
    rwa [Int.zero_add]

/-- A session of `user1`, from its first choice on. -/
theorem underway_typing {store : Fs} {lines : Buffer} {n : Nat}
    (hfolder : store.IsFolder (Worker.folderPath (ascii "user1")) [ascii "data", ascii "user1"])
    (hready : Ready sampleKey user1 ((Stage.typing store lines).scripts (.aes .little) (ascii "user1")
      [ascii "data", ascii "user1"] n)) :
    Underway (.aes .little) sampleKey [ascii "data", ascii "user1"] [ascii "downloads"] n
      (.typing store lines) user1 user1 (.start homeWithFile ⟨lines, false, false⟩)
      (.start store ⟨[], false, false⟩) where
  encrypts := encrypts_sampleKey .little
  client_key := rfl
  sent := rfl
  received := rfl
  home := ⟨rfl, rfl⟩
  store := rfl
  folder := hfolder
  downloads := hasRoom_homeWithFile
  ready := hready

/-- The file `a` is uploaded, listed, downloaded, renamed and deleted; and a logout. -/
def wholeMenu : Stage := .typing Worker.emptyFolder.fs (ascii "1\na\n3\n2\na\n4\na\nb\n5\nb\n6\n")

set_option maxRecDepth 20000 in
theorem underway_wholeMenu : Underway (.aes .little) sampleKey [ascii "data", ascii "user1"]
    [ascii "downloads"] 6 wholeMenu user1 user1 (.start wholeMenu.home wholeMenu.console)
    (.start wholeMenu.store ⟨[], false, false⟩) :=
  underway_typing Worker.isFolder_emptyFolder (ready_user1 (by decide +kernel) (by decide +kernel))

theorem lockstep_wholeMenu : Lockstep (.aes .little) (fun _ => []) (fun _ => [])
    (wholeMenu.leaves (ascii "user1") [ascii "data", ascii "user1"] 6) 6 7 wholeMenu.choice user1 user1
    (.start wholeMenu.home wholeMenu.console) (.start wholeMenu.store ⟨[], false, false⟩)
    (fun _ => .calm) (fun _ => .calm) :=
  lockstep underway_wholeMenu (by decide) _ _ _ _ (by decide +kernel) (by decide +kernel)

/-- The folder of `user1` with a file `b`. -/
def folderWith (b : Buffer) : Fs :=
  Worker.emptyFolder.fs.after (Worker.emptyFolder.fs.stores (Worker.filePath (ascii "user1") (ascii "b")) [b])

theorem isFolder_folderWith (b : Buffer) :
    (folderWith b).IsFolder (Worker.folderPath (ascii "user1")) [ascii "data", ascii "user1"] :=
  Worker.isFolder_emptyFolder.sameDirs (Fs.after_stores_sameDirs ..)

theorem files_folderWith_eq (b : Buffer) : (folderWith b).files [ascii "data", ascii "user1"] =
    Function.update (Worker.emptyFolder.fs.files [ascii "data", ascii "user1"]) (ascii "b") (some b) := by
  have hfree : Worker.emptyFolder.fs.files [ascii "data", ascii "user1"] (ascii "b") = none := by
    decide +kernel
  have hfiles := Worker.isFolder_emptyFolder.files_stores (by decide +kernel) hfree [b]
  rw [folderWith, Worker.filePath, hfiles, Shelf.change_put_free hfree]
  simp

theorem files_folderWith (b : Buffer) :
    (folderWith b).files [ascii "data", ascii "user1"] (ascii "b") = some b := by
  rw [files_folderWith_eq, Function.update_self]

/-- The file `b` is downloaded. -/
def oneDownload (b : Buffer) : Stage := .typing (folderWith b) (ascii "2\nb\n")

theorem deed_oneDownload (b : Buffer) : (oneDownload b).deed = .request (.download (ascii "b")) := by
  have hread : (Client.deed homeWithFile (ascii "2") ⟨ascii "b\n", false, false⟩).1 =
      .request (.download (ascii "b")) := by decide +kernel
  exact hread

theorem allowed_oneDownload (b : Buffer) : (oneDownload b).Allowed [ascii "data", ascii "user1"] := by
  rw [Stage.Allowed, deed_oneDownload]
  exact Option.isSome_iff_exists.2 ⟨b, files_folderWith b⟩

theorem underway_oneDownload {b : Buffer} (hlen : b.length = 4294967296) : Underway (.aes .little) sampleKey
    [ascii "data", ascii "user1"] [ascii "downloads"] 1 (oneDownload b) user1 user1
    (.start (oneDownload b).home (oneDownload b).console)
    (.start (oneDownload b).store ⟨[], false, false⟩) := by
  let D : Path := [ascii "data", ascii "user1"]
  have hfile := files_folderWith b
  have hdeed := deed_oneDownload b
  have hne : b ≠ [] := by
    rintro rfl
    cases hlen
  have hscripts : (oneDownload b).scripts (.aes .little) (ascii "user1") D 1 = _ :=
    (Stage.scripts_one hdeed).trans (script_download hfile hne)
  have hspoken : Turn.spoken ((oneDownload b).scripts (.aes .little) (ascii "user1") D 1) = 286331155 := by
    rw [hscripts, Turn.spoken_append, sayPieces, Turn.spoken_map_say, length_pieces_large hlen]
    simp
  have hheard : Turn.heard ((oneDownload b).scripts (.aes .little) (ascii "user1") D 1) = 1 := by
    rw [hscripts, Turn.heard_append, sayPieces, Turn.heard_map_say]
    simp
  apply underway_typing (isFolder_folderWith b)
  apply ready_user1
  · rw [oneDownload] at hspoken
    rw [hspoken]
    decide
  · rw [oneDownload] at hheard
    rw [hheard]
    decide

/-- A file of 2^32 bytes is downloaded: its size is cut to 0, and its chunks are left unread. -/
theorem lockstep_lost : ¬∀ (P : Platform) (key : Buffer) (D D' : Path) (n m : Nat) (s : Stage)
    (x y : Session) (h g : Host) (heap heap' : Host → Buffer) (choices choices' : Nat → Choice),
    Underway P key D D' n s x y h g → n < m → (∀ k < n, (s.after y.username D k).Allowed D) →
      Lockstep P heap heap' (s.leaves y.username D n) n m s.choice x y h g choices choices' := by
  intro hall
  have hlen : (List.replicate 4294967296 (0 : UInt8)).length = 4294967296 := List.length_replicate
  generalize List.replicate 4294967296 (0 : UInt8) = b at hlen
  have hu := underway_oneDownload hlen
  have hallowed : ∀ k < 1, ((oneDownload b).after user1.username [ascii "data", ascii "user1"] k).Allowed
      [ascii "data", ascii "user1"] := by
    intro k hk
    obtain rfl : k = 0 := by omega
    exact allowed_oneDownload b
  obtain ⟨_, _, hleads⟩ := hall _ _ _ _ 1 2 _ _ _ _ _ (fun _ => []) (fun _ => []) (fun _ => .calm)
    (fun _ => .calm) hu (by decide) hallowed
  have hname : (Client.enteredName (oneDownload b).console.getline.2).1 = some (ascii "b") := by
    have hread : (Client.enteredName ⟨ascii "b\n", false, false⟩).1 = some (ascii "b") := by decide +kernel
    exact hread
  have hchosen : stoi (oneDownload b).chosen = some 2 := by
    have hread : stoi (ascii "2") = some 2 := by decide +kernel
    exact hread
  exact hu.not_leadsTo (m := 0) hchosen hname (files_folderWith b) hlen _ _ _ _ hleads

end CloudStorage
