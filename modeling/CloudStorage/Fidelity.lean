import CloudStorage.Lockstep

set_option autoImplicit false

/-! # A file there and back

A file that is uploaded is in the folder of the user as it was, and stays there as long as nobody deletes
or renames it; a download puts it into the downloads folder. `Stage.Holds` is what every choice in between
keeps. The link only carries this as long as the two ends stay in step, so a file in between whose size
is cut is the one thing that can come in the way. -/

namespace CloudStorage

open Interaction Member Memory

/-! ## What a choice does to the folders -/

/-- The change of the folder of the user. -/
def Deed.change : Deed → Change Name Buffer
  | .request r => r.change
  | .logout | .nothing => .look

namespace Stage

variable {u : Buffer} {D D' : Path} {s : Stage} {f : Name} {c : Buffer}

theorem store_next (hf : s.store.IsFolder (Worker.folderPath u) D) (hallowed : s.Allowed D) :
    (s.next u D).store.IsFolder (Worker.folderPath u) D ∧
      (s.next u D).store.files D = (s.store.files D).change s.deed.change := by
  cases hdeed : s.deed with
  | logout =>
      have hstore : (s.next u D).store = s.store := by rw [next, hdeed]
      rw [hstore]
      exact ⟨hf, rfl⟩
  | nothing =>
      have hstore : (s.next u D).store = s.store := by rw [next, hdeed]
      rw [hstore]
      exact ⟨hf, rfl⟩
  | request r =>
      have hstore : (s.next u D).store = s.store.after (r.calls u s.store (s.store.files D)) := by
        rw [next, hdeed]
      have hr : r.Allowed (s.store.files D) := Client.allowed_of_deed hdeed hallowed
      rw [hstore]
      exact ⟨hf.sameDirs (Request.calls_sameDirs ..), Request.files_calls hf hr⟩

theorem home_next (hroom : s.home.HasRoom Client.downloadsPath D') :
    (s.next u D).home.HasRoom Client.downloadsPath D' ∧
      (s.next u D).home.files D' = (s.home.files D').change (s.deed.arrival (s.store.files D)) :=
  Client.files_deedCalls hroom _

/-- The choice neither ends the session nor deletes or renames the file. -/
structure Spares (f : Name) (s : Stage) : Prop where
  stays : s.deed ≠ .logout
  not_deleted : s.deed ≠ .request (.delete f)
  not_renamed : ∀ newName, s.deed ≠ .request (.rename f newName)

/-- The file is in the folder of the user, and what is under its name in the downloads folder, if
    anything, is the same. -/
structure Holds (u : Buffer) (D D' : Path) (f : Name) (c : Buffer) (s : Stage) : Prop where
  folder : s.store.IsFolder (Worker.folderPath u) D
  room : s.home.HasRoom Client.downloadsPath D'
  stored : s.store.files D f = some c
  fetched : s.home.files D' f = none ∨ s.home.files D' f = some c

/-- What a download of the file brings. -/
theorem arrival_eq {m : FileMap} (hm : m f = some c) (hne : c ≠ []) (hlt : c.length < 4294967296) :
    (Deed.request (.download f)).arrival m = .put f c := by
  simp [Deed.arrival, hm, hne, flatten_pieces hlt]

/-- What arrives under another name leaves a file alone. -/
theorem arrival_other {m : FileMap} {d : Deed} (hd : d ≠ .request (.download f)) (k : FileMap) :
    k.change (d.arrival m) f = k f := by
  cases d with
  | logout => rfl
  | nothing => rfl
  | request r =>
      cases r with
      | download name =>
          have hne : f ≠ name := by
            rintro rfl
            exact hd rfl
          simp only [Deed.arrival]
          split_ifs
          · rfl
          · cases hk : k name with
            | some b => rw [Shelf.change_put_taken hk]
            | none => rw [Shelf.change_put_free hk, Function.update_of_ne hne]
      | upload name contents => rfl
      | list => rfl
      | rename name newName => rfl
      | delete name => rfl

section

variable (hne : c ≠ []) (hlt : c.length < 4294967296)
include hne hlt

/-- **A choice keeps the file.** -/
theorem Holds.next (h : Holds u D D' f c s) (hallowed : s.Allowed D) (hspares : s.Spares f) :
    Holds u D D' f c (s.next u D) := by
  obtain ⟨hfolder, hstore⟩ := store_next h.folder hallowed
  obtain ⟨hroom, hhome⟩ := home_next (u := u) (D := D) h.room
  refine ⟨hfolder, hroom, ?_, ?_⟩
  · have hkept : ∀ change ∈ [s.deed.change], change ≠ .take f ∧ ∀ newName, change ≠ .move f newName := by
      intro change hchange
      rw [List.mem_singleton] at hchange
      subst hchange
      have hdeleted := hspares.not_deleted
      have hrenamed := hspares.not_renamed
      cases hdeed : s.deed with
      | logout => simp [Deed.change]
      | nothing => simp [Deed.change]
      | request r =>
          rw [hdeed] at hdeleted hrenamed
          cases r <;> simp_all [Deed.change, Request.change]
    rw [hstore]
    exact Shelf.changes_eq_some h.stored hkept
  · rw [hhome]
    by_cases hdownload : s.deed = .request (.download f)
    · rw [hdownload, arrival_eq h.stored hne hlt]
      right
      rcases h.fetched with hnone | hsome
      · rw [Shelf.change_put_free hnone, Function.update_self]
      · rw [Shelf.change_put_taken hsome, hsome]
    · rw [arrival_other hdownload]
      exact h.fetched

/-- And so do any number of them. -/
theorem Holds.after {n : Nat} (h : Holds u D D' f c s) (hallowed : ∀ k < n, (s.after u D k).Allowed D)
    (hspares : ∀ k < n, (s.after u D k).Spares f) : Holds u D D' f c (s.after u D n) := by
  induction n generalizing s with
  | zero => exact h
  | succ n ih =>
      have hstays : s.deed ≠ .logout := (hspares 0 (Nat.succ_pos n)).stays
      rw [after_next hstays]
      apply ih
      · exact h.next hne hlt (hallowed 0 (Nat.succ_pos n)) (hspares 0 (Nat.succ_pos n))
      · exact forall_next hstays hallowed
      · exact forall_next hstays hspares

/-- A download brings the file. -/
theorem Holds.fetched_next (h : Holds u D D' f c s) (hdeed : s.deed = .request (.download f)) :
    (s.next u D).home.HasRoom Client.downloadsPath D' ∧ (s.next u D).home.files D' f = some c := by
  obtain ⟨hroom, hhome⟩ := home_next (u := u) (D := D) h.room
  refine ⟨hroom, ?_⟩
  rw [hhome, hdeed, arrival_eq h.stored hne hlt]
  rcases h.fetched with hnone | hsome
  · rw [Shelf.change_put_free hnone, Function.update_self]
  · rw [Shelf.change_put_taken hsome, hsome]

end

/-- An upload under a free name brings the file into the folder. -/
theorem holds_upload (hf : s.store.IsFolder (Worker.folderPath u) D)
    (hroom : s.home.HasRoom Client.downloadsPath D') (hdeed : s.deed = .request (.upload f c))
    (hfree : s.store.files D f = none) (hfree' : s.home.files D' f = none) :
    Holds u D D' f c (s.next u D) := by
  have hallowed : s.Allowed D := by
    rw [Allowed, hdeed]
    trivial
  obtain ⟨hfolder, hstore⟩ := store_next hf hallowed
  obtain ⟨hroom', hhome⟩ := home_next (u := u) (D := D) hroom
  refine ⟨hfolder, hroom', ?_, ?_⟩
  · rw [hstore, hdeed, Deed.change, Request.change, Shelf.change_put_free hfree, Function.update_self]
  · left
    rw [hhome, hdeed]
    exact hfree'

/-- The choice uploads the file `f` with the contents `c`. -/
structure Uploads (f : Name) (c : Buffer) (s : Stage) : Prop where
  chosen : stoi s.chosen = some 1
  name : filename (Client.enteredPath s.console.getline.2).1 = f
  file : s.home.fileAt (Client.enteredPath s.console.getline.2).1 = some c

/-- The choice downloads the file `f`. -/
structure Downloads (f : Name) (s : Stage) : Prop where
  chosen : stoi s.chosen = some 2
  name : (Client.enteredName s.console.getline.2).1 = some f

theorem Uploads.deed (h : Uploads f c s) (hvalid : File.isValidFileName f = true) (hne : c ≠ [])
    (hlt : c.length < 4294967296) : s.deed = .request (.upload f c) := by
  have hmax : c.length < Max.maxFileSize := hlt
  rw [Stage.deed, Client.deed, h.chosen]
  simp [Client.uploadOf, h.file, h.name, nameAccepted_of_valid hvalid, hne, hmax]

theorem Downloads.deed (h : Downloads f s) : s.deed = .request (.download f) := by
  rw [Stage.deed, Client.deed, h.chosen]
  simp [h.name, Deed.ofName]

/-- One more choice, if the last one was no logout. -/
theorem after_succ {n : Nat} (h : (s.after u D n).deed ≠ .logout) :
    s.after u D (n + 1) = (s.after u D n).next u D := by
  induction n generalizing s with
  | zero => exact after_next h 0
  | succ n ih =>
      by_cases hleave : s.deed = .logout
      · rw [Stage.after, if_pos hleave] at h
        exact absurd hleave h
      · rw [after_next hleave] at h ⊢
        rw [after_next hleave]
        exact ih h

end Stage

/-- A path in a folder leads to what is on the shelf. -/
theorem Fs.IsFolder.fileAt {fs : Fs} {path : Buffer} {D : Path} {name : Name} {b : Buffer}
    (hf : fs.IsFolder path D) (hb : fs.files D name = some b) : fs.fileAt (path ++ 47 :: name) = some b := by
  have hname := Fs.valid_of_files hb
  rw [Fs.files_valid hname] at hb
  obtain ⟨i, hi, hdata⟩ := Fs.contents_eq_some.1 hb
  exact Fs.fileAt_eq_some.2 ⟨_, i, hf.resolve_name hname, hi, hdata⟩

/-- A file in the downloads folder is found there: the folder is not merely free to be made. -/
theorem Fs.HasRoom.fileAt {fs : Fs} {path : Buffer} {D : Path} {name : Name} {b : Buffer}
    (hroom : fs.HasRoom path D) (hb : fs.files D name = some b) :
    fs.fileAt (path ++ 47 :: name) = some b := by
  rcases hroom with hf | ⟨-, hfree, -⟩
  · exact hf.fileAt hb
  · rw [Fs.files_valid (Fs.valid_of_files hb), FsState.contents, Fs.node_below hfree] at hb
    cases hb

/-! ## There and back -/

/-- The client uploads the file `f` with the contents `c`, makes `k` other choices, and downloads it:
    the first choice stores it, and the last one brings it. -/
structure Faithful (P : Platform) (heap heap' : Host → Buffer) (f : Name) (c : Buffer) (k m : Nat)
    (choice : Buffer) (x y : Session) (h g : Host) (choices choices' : Nat → Choice) : Prop where
  stored : Link.LeadsTo (Host.onHeap heap) (Host.onHeap heap') (fun _ => True)
    (fun e => e.2.1.fs.fileAt (Worker.filePath y.username f) = some c)
    (session P 1 m choice x y h g choices choices')
  fetched : Link.LeadsTo (Host.onHeap heap) (Host.onHeap heap')
    (fun e => e.2.1.fs.fileAt (Client.downloadsPath ++ 47 :: f) = some c) (fun _ => True)
    (session P (k + 2) m choice x y h g choices choices')

/-- A session that lasts for some choices lasts for the first one. -/
theorem Underway.first {P : Platform} {key : Buffer} {D D' : Path} {n : Nat} {s : Stage} {x y : Session}
    {h g : Host} (hu : Underway P key D D' (n + 1) s x y h g) : Underway P key D D' 1 s x y h g := by
  have hready := hu.ready
  rw [Stage.scripts] at hready
  refine ⟨hu.encrypts, hu.client_key, hu.sent, hu.received, hu.home, hu.store, hu.folder, hu.downloads, ?_⟩
  have hscripts : s.scripts P y.username D 1 = s.script P D := by
    rw [Stage.scripts, Stage.scripts]
    simp
  rw [hscripts]
  exact hready.left

/-- **A file comes back as it was**, whatever is done in between that neither deletes nor renames it,
    as long as it fits. -/
theorem file_fidelity {P : Platform} {key : Buffer} {D D' : Path} {k m : Nat} {s : Stage} {x y : Session}
    {h g : Host} {f : Name} {c : Buffer} (hu : Underway P key D D' (k + 2) s x y h g) (hm : k + 2 < m)
    (hvalid : File.isValidFileName f = true) (hne : 1 ≤ c.length) (hlt : c.length < 4294967296)
    (hfree : s.store.files D f = none) (hfree' : s.home.files D' f = none) (hupload : s.Uploads f c)
    (hspares : ∀ i, 1 ≤ i → i ≤ k → (s.after y.username D i).Spares f)
    (hallowed : ∀ i, 1 ≤ i → i ≤ k → (s.after y.username D i).Allowed D)
    (hdownload : (s.after y.username D (k + 1)).Downloads f)
    (hfits : ∀ i, 1 ≤ i → i ≤ k → (s.after y.username D i).Fits D)
    (heap heap' : Host → Buffer) (choices choices' : Nat → Choice) :
    Faithful P heap heap' f c k m s.choice x y h g choices choices' := by
  have hnonempty : c ≠ [] := List.ne_nil_of_length_pos hne
  have hdeed := hupload.deed hvalid hnonempty hlt
  have hstays : s.deed ≠ .logout := by
    rw [hdeed]
    simp
  have hafter : ∀ i, s.after y.username D (i + 1) = (s.next y.username D).after y.username D i :=
    Stage.after_next hstays
  -- the file is in both places from the upload on, and no deed in between touches it
  have hfirst := Stage.holds_upload hu.folder hu.downloads hdeed hfree hfree'
  have hlast : Stage.Holds y.username D D' f c (s.after y.username D (k + 1)) := by
    rw [hafter]
    apply hfirst.after hnonempty hlt
    · intro i hi
      rw [← hafter]
      exact hallowed (i + 1) (Nat.le_add_left ..) hi
    · intro i hi
      rw [← hafter]
      exact hspares (i + 1) (Nat.le_add_left ..) hi
  have hend : (s.after y.username D (k + 2)) = (s.after y.username D (k + 1)).next y.username D := by
    apply Stage.after_succ
    rw [hdownload.deed]
    simp
  obtain ⟨hroom, hfetched⟩ := hlast.fetched_next hnonempty hlt hdownload.deed
  -- the first deed is the upload, the last one the download, and the hypotheses are about the rest
  have hcases : ∀ i < k + 2, i = 0 ∨ 1 ≤ i ∧ i ≤ k ∨ i = k + 1 := by omega
  have hallowed' : ∀ i < k + 2, (s.after y.username D i).Allowed D := by
    intro i hi
    rcases hcases i hi with rfl | ⟨hlow, hhigh⟩ | rfl
    · rw [Stage.after, Stage.Allowed, hdeed]
      trivial
    · exact hallowed i hlow hhigh
    · rw [Stage.Allowed, hdownload.deed]
      exact Option.isSome_iff_exists.2 ⟨c, hlast.stored⟩
  have hfits' : ∀ i < k + 2, (s.after y.username D i).Fits D := by
    intro i hi
    rcases hcases i hi with rfl | ⟨hlow, hhigh⟩ | rfl
    · rw [Stage.after, Stage.Fits, hdeed]
      trivial
    · exact hfits i hlow hhigh
    · have hword : wordOfSize c.length = c.length := Nat.mod_eq_of_lt hlt
      rw [Stage.Fits, hdownload.deed, Deed.Fits, hlast.stored, Option.getD_some, hword]
      exact ⟨rfl, rfl⟩
  constructor
  · apply (hu.first.leadsTo (by omega) heap heap' choices choices' (fun i hi => hallowed' i (by omega))
      fun i hi => hfits' i (by omega)).mono
    · exact fun _ _ => trivial
    · rintro e ⟨g', choices, hfs, hend⟩
      have hstore : g'.fs = (s.next y.username D).store := by rw [hfs, hafter]; rfl
      have hat : e.2.1 = g' := by
        split_ifs at hend
        · rw [hend]
        · obtain ⟨_, hend⟩ := hend
          rw [hend]
      rw [hat, hstore]
      exact hfirst.folder.fileAt hfirst.stored
  · apply (hu.leadsTo hm heap heap' choices choices' hallowed' hfits').mono
    · rintro e ⟨h', choices, hfs, rfl⟩
      dsimp only
      rw [hfs, hend]
      exact hroom.fileAt hfetched
    · exact fun _ _ => trivial

/-- A file is uploaded; after a look at the list it is downloaded. -/
def thereAndBack : Stage := .typing Worker.emptyFolder.fs (ascii "1\na\n3\n2\na\n")

set_option maxRecDepth 20000 in
theorem underway_thereAndBack : Underway (.aes .little) sampleKey [ascii "data", ascii "user1"]
    [ascii "downloads"] 3 thereAndBack user1 user1 (.start thereAndBack.home thereAndBack.console)
    (.start thereAndBack.store ⟨[], false, false⟩) :=
  underway_typing Worker.isFolder_emptyFolder (ready_user1 (by decide +kernel) (by decide +kernel))

set_option maxRecDepth 20000 in
theorem file_fidelity_thereAndBack : Faithful (.aes .little) (fun _ => []) (fun _ => []) (ascii "a")
    sampleFile 1 4 thereAndBack.choice user1 user1 (.start thereAndBack.home thereAndBack.console)
    (.start thereAndBack.store ⟨[], false, false⟩) (fun _ => .calm) (fun _ => .calm) := by
  have hlist : (thereAndBack.after user1.username [ascii "data", ascii "user1"] 1).deed =
      .request .list := by decide +kernel
  have hone : ∀ i, 1 ≤ i → i ≤ 1 → i = 1 := fun i h h' => Nat.le_antisymm h' h
  apply file_fidelity underway_thereAndBack (by decide) (by decide) (by decide) (by decide)
  · decide +kernel
  · decide +kernel
  · exact ⟨by decide +kernel, by decide +kernel, by decide +kernel⟩
  · intro i hi hi'
    obtain rfl := hone i hi hi'
    exact ⟨by rw [hlist]; simp, by rw [hlist]; simp, by rw [hlist]; simp⟩
  · intro i hi hi'
    obtain rfl := hone i hi hi'
    decide +kernel
  · exact ⟨by decide +kernel, by decide +kernel⟩
  · intro i hi hi'
    obtain rfl := hone i hi hi'
    decide +kernel

/-! ## A file whose size is cut -/

/-- A download up to the answer. -/
theorem Client.converses_ask {P : Platform} {key : Buffer} {heap : Host → Buffer} {x : Session} {h : Host}
    {choice name : Buffer} (henc : Encrypts P key)
    (hchosen : stoi (h.console.getline.1.1.getD choice) = some 2)
    (hname : (enteredName h.console.getline.2).1 = some name) :
    ConversesTo P key heap (menuLoop P 1 choice) x h [.say (Request.payload P (.download name))]
      (Program.Waits (Wrapper.getSize SizedAck.getSize)) := by
  have hmenu : handleMenuChoice P (h.console.getline.1.1.getD choice) = returning (downloadFile P) := by
    rw [handleMenuChoice, hchosen]
    rfl
  apply ConversesTo.bind_quiet (plays_getline _)
  refine ⟨rfl, ?_⟩
  dsimp only
  intro hready
  show PlaysTo P key heap (handleMenuChoice P (h.console.getline.1.1.getD choice) >>= _) _ _ _ _
  rw [hmenu]
  apply PlaysTo.bind_waits
  apply PlaysTo.returning_waits
  have hasks : ConversesTo P key heap (downloadFile P) x { h with console := h.console.getline.2 }
      [.say (Request.payload P (.download name))] (Program.Waits (Wrapper.getSize SizedAck.getSize)) := by
    apply ConversesTo.bind_quiet (plays_readFileName _)
    intro h₁ hat
    rw [hname]
    refine ⟨rfl, ?_⟩
    dsimp only
    rw [← List.append_nil [Turn.say _]]
    apply Converses.bind_to
    apply converses_sendPacket henc (Worker.sealable_payload P (.download name))
    intro h₂ hsame
    exact conversesTo_waiting rfl fun choices => ⟨_, rfl⟩
  exact hasks hready

/-- One side waits for something else than what the other says. -/
theorem ConversesTo.not_leadsTo_of_misfit {P : Platform} {key : Buffer} {heap heap' : Host → Buffer}
    {r r' : Member Int} {x y : Session} {h g : Host} {t t' : List (Turn Buffer)} {request payload : Buffer}
    {n : Nat}
    {R' Q Q' : Program.Config UInt8 SysCalls (Except Exit Int × Session) (Host × (Nat → Choice)) → Prop}
    (hr : ConversesTo P key heap r x h (t.map .mirror ++ [.say request]) (Program.Waits n))
    (hx : Ready key x (t.map .mirror ++ [.say request]))
    (hr' : ConversesTo P key heap' r' y g (t ++ .say payload :: t') R')
    (hy : Ready key y (t ++ .say payload :: t')) (hsent : x.sCounter = y.rCounter)
    (hreceived : x.rCounter = y.sCounter)
    (hlen : ∀ counter w, Carries P key (counter, payload) w → w.length ≠ n)
    (choices choices' : Nat → Choice) :
    ¬Link.LeadsTo (Host.onHeap heap) (Host.onHeap heap') Q Q'
      ⟨(r x, (h, choices)), (r' y, (g, choices')), [], []⟩ := by
  have hasks := hr hx
  have hmore := hr' hy
  rw [Turn.number_append, Turn.number_mirror, hsent, hreceived] at hasks
  rw [Turn.number_append] at hmore
  apply PlaysTo.not_leadsTo_of_misfit hasks
  · rw [List.map_map, Turn.mirror_comp_mirror, List.map_id]
    exact hmore
  · exact hlen _

namespace Stage

variable {u : Buffer} {D : Path} {s : Stage} {f : Name} {c : Buffer}

theorem Uploads.console_next (h : Uploads f c s) :
    (s.next u D).console = (Client.enteredPath s.console.getline.2).2 := by
  simp [next, Client.deed, h.chosen]

theorem Downloads.console_next (h : Downloads f s) :
    (s.next u D).console = (Client.enteredName s.console.getline.2).2 := by
  simp [next, Client.deed, h.chosen]

end Stage

/-- The file `a` is uploaded, the file `b` is downloaded, and then the file `a`. -/
def largeBetween (b : Buffer) : Stage := .typing (folderWith b) (ascii "1\na\n2\nb\n2\na\n")

theorem uploads_largeBetween (b : Buffer) : (largeBetween b).Uploads (ascii "a") sampleFile := by
  have huploads : (Stage.typing .root (ascii "1\na\n2\nb\n2\na\n")).Uploads (ascii "a") sampleFile :=
    ⟨by decide +kernel, by decide +kernel, by decide +kernel⟩
  exact ⟨huploads.chosen, huploads.name, huploads.file⟩

variable {b : Buffer}

theorem console_largeBetween (u : Buffer) (D : Path) :
    ((largeBetween b).next u D).console = ⟨ascii "2\nb\n2\na\n", false, false⟩ := by
  have hconsole : (Client.enteredPath (Console.getline ⟨ascii "1\na\n2\nb\n2\na\n", false, false⟩).2).2 =
      ⟨ascii "2\nb\n2\na\n", false, false⟩ := by decide +kernel
  rw [(uploads_largeBetween b).console_next]
  exact hconsole

theorem downloads_largeBetween (u : Buffer) (D : Path) :
    ((largeBetween b).next u D).Downloads (ascii "b") := by
  have hname : (Client.enteredName (Console.getline ⟨ascii "2\nb\n2\na\n", false, false⟩).2).1 =
      some (ascii "b") := by decide +kernel
  have hchosen : stoi (ascii "2") = some 2 := by decide +kernel
  constructor
  · rw [Stage.chosen, console_largeBetween]
    exact hchosen
  · rw [console_largeBetween]
    exact hname

theorem last_largeBetween (u : Buffer) (D : Path) :
    (((largeBetween b).next u D).next u D).Downloads (ascii "a") := by
  have hconsole : (((largeBetween b).next u D).next u D).console = ⟨ascii "2\na\n", false, false⟩ := by
    have hread : (Client.enteredName (Console.getline ⟨ascii "2\nb\n2\na\n", false, false⟩).2).2 =
        ⟨ascii "2\na\n", false, false⟩ := by decide +kernel
    rw [(downloads_largeBetween u D).console_next, console_largeBetween]
    exact hread
  have hname : (Client.enteredName (Console.getline ⟨ascii "2\na\n", false, false⟩).2).1 =
      some (ascii "a") := by decide +kernel
  have hchosen : stoi (ascii "2") = some 2 := by decide +kernel
  constructor
  · rw [Stage.chosen, hconsole]
    exact hchosen
  · rw [hconsole]
    exact hname

/-- The folder of `user1`. -/
abbrev userFolder : Path := [ascii "data", ascii "user1"]

/-- The next stages of `largeBetween`. -/
abbrev afterUpload (b : Buffer) : Stage := (largeBetween b).next (ascii "user1") userFolder

theorem free_largeBetween : (largeBetween b).store.files userFolder (ascii "a") = none := by
  have hempty : Worker.emptyFolder.fs.files userFolder (ascii "a") = none := by decide +kernel
  have hne : ascii "a" ≠ ascii "b" := by decide
  show (folderWith b).files userFolder (ascii "a") = none
  rw [files_folderWith_eq, Function.update_of_ne hne, hempty]

theorem absent_largeBetween : (largeBetween b).home.files [ascii "downloads"] (ascii "a") = none := by
  show homeWithFile.files [ascii "downloads"] (ascii "a") = none
  decide +kernel

theorem deed_largeBetween : (largeBetween b).deed = .request (.upload (ascii "a") sampleFile) :=
  (uploads_largeBetween b).deed (by decide) (by decide) (by decide)

theorem holds_afterUpload : (afterUpload b).Holds (ascii "user1") userFolder [ascii "downloads"]
    (ascii "a") sampleFile := by
  exact Stage.holds_upload (isFolder_folderWith b) hasRoom_homeWithFile deed_largeBetween free_largeBetween
    absent_largeBetween

theorem file_afterUpload : (afterUpload b).store.files userFolder (ascii "b") = some b := by
  have hallowed : (largeBetween b).Allowed userFolder := by
    rw [Stage.Allowed, deed_largeBetween]
    trivial
  have hne : ascii "b" ≠ ascii "a" := by decide
  have hstore := (Stage.store_next (u := ascii "user1") (isFolder_folderWith b) hallowed).2
  rw [hstore, deed_largeBetween, Deed.change, Request.change, Shelf.change_put_free free_largeBetween,
    Function.update_of_ne hne]
  exact files_folderWith b

theorem allowed_afterUpload : (afterUpload b).Allowed userFolder := by
  rw [Stage.Allowed, (downloads_largeBetween _ _).deed]
  exact Option.isSome_iff_exists.2 ⟨b, file_afterUpload⟩

theorem spares_afterUpload : (afterUpload b).Spares (ascii "a") := by
  have hdeed := (downloads_largeBetween (b := b) (ascii "user1") userFolder).deed
  constructor
  · rw [hdeed]
    simp
  · rw [hdeed]
    simp
  · rw [hdeed]
    simp

/-- The conversation about the upload. -/
theorem script_largeBetween (P : Platform) : (largeBetween b).script P userFolder =
    [.hear (Request.payload P (.upload (ascii "a") sampleFile)), .say (UploadAck 1).serialize,
      .hear (RequestCodes.uploadChunk :: ascii "twenty bytes of"),
      .hear (RequestCodes.uploadChunk :: ascii " text"), .say (UploadAck 1).serialize] := by
  have hpieces : pieces sampleFile = [ascii "twenty bytes of", ascii " text"] := by decide +kernel
  rw [Stage.script, deed_largeBetween]
  simp [Deed.script, Request.script, Request.turns, free_largeBetween, hpieces, hearPieces]

theorem script_afterUpload (P : Platform) (hlen : b.length = 4294967296) :
    ∃ cs, (pieces b).length = 286331154 ∧ pieces b = b.take Max.maxFileChunk :: cs ∧
      (afterUpload b).script P userFolder = [.hear (Request.payload P (.download (ascii "b"))),
        .say ((DownloadAck 0 b.length).serialize P.order)] ++
        .say (RequestCodes.downloadChunk :: b.take Max.maxFileChunk) ::
          sayPieces RequestCodes.downloadChunk cs := by
  obtain ⟨cs, hpieces⟩ := exists_pieces hlen
  have hne : b ≠ [] := by
    rintro rfl
    cases hlen
  refine ⟨cs, length_pieces_large hlen, hpieces, ?_⟩
  rw [Stage.script, (downloads_largeBetween _ _).deed, Deed.script, script_download file_afterUpload hne,
    hpieces]
  rfl

/-- The conversation about the last download. -/
theorem script_last (P : Platform) : ((afterUpload b).next (ascii "user1") userFolder).script P userFolder =
    [.hear (Request.payload P (.download (ascii "a"))), .say ((DownloadAck 0 20).serialize P.order),
      .say (RequestCodes.downloadChunk :: ascii "twenty bytes of"),
      .say (RequestCodes.downloadChunk :: ascii " text")] := by
  have hpieces : pieces sampleFile = [ascii "twenty bytes of", ascii " text"] := by decide +kernel
  have hholds := holds_afterUpload.next (by decide) (by decide) (allowed_afterUpload (b := b))
    spares_afterUpload
  rw [Stage.script, (last_largeBetween _ _).deed, Deed.script, script_download hholds.stored (by decide),
    hpieces]
  rfl

theorem underway_largeBetween (hlen : b.length = 4294967296) : Underway (.aes .little) sampleKey userFolder
    [ascii "downloads"] 3 (largeBetween b) user1 user1
    (.start (largeBetween b).home (largeBetween b).console)
    (.start (largeBetween b).store ⟨[], false, false⟩) := by
  obtain ⟨cs, hcount, hpieces, hscript⟩ := script_afterUpload (.aes .little) hlen
  have hrest : cs.length = 286331153 := by
    rw [hpieces, List.length_cons] at hcount
    omega
  have hstays : (largeBetween b).deed ≠ .logout := by
    rw [deed_largeBetween]
    simp
  have hstays' : (afterUpload b).deed ≠ .logout := spares_afterUpload.stays
  have hscripts : (largeBetween b).scripts (.aes .little) (ascii "user1") userFolder 3 =
      (largeBetween b).script (.aes .little) userFolder ++
        ((afterUpload b).script (.aes .little) userFolder ++
        ((afterUpload b).next (ascii "user1") userFolder).script (.aes .little) userFolder) := by
    rw [Stage.scripts_next hstays, Stage.scripts_next hstays', Stage.scripts, Stage.scripts]
    simp
  rw [script_largeBetween, hscript, script_last] at hscripts
  have hspoken : Turn.spoken ((largeBetween b).scripts (.aes .little) (ascii "user1") userFolder 3) =
      286331160 := by
    rw [hscripts]
    simp [sayPieces, Turn.spoken_map_say, hrest]
  have hheard : Turn.heard ((largeBetween b).scripts (.aes .little) (ascii "user1") userFolder 3) = 5 := by
    rw [hscripts]
    simp [sayPieces, Turn.heard_map_say]
  apply underway_typing (isFolder_folderWith b)
  apply ready_user1
  · rw [largeBetween] at hspoken
    rw [hspoken]
    decide
  · rw [largeBetween] at hheard
    rw [hheard]
    decide

/-- What the client says and hears up to the chunks that it leaves unread. -/
def cutShort (b : Buffer) : List (Turn Buffer) :=
  [.hear (Request.payload (.aes .little) (.upload (ascii "a") sampleFile)), .say (UploadAck 1).serialize,
    .hear (RequestCodes.uploadChunk :: ascii "twenty bytes of"),
    .hear (RequestCodes.uploadChunk :: ascii " text"), .say (UploadAck 1).serialize,
    .hear (Request.payload (.aes .little) (.download (ascii "b"))),
    .say ((DownloadAck 0 b.length).serialize ByteOrder.little)]

/-- The client takes the download to be complete and asks for the next file. -/
theorem client_largeBetween (hlen : b.length = 4294967296) (heap : Host → Buffer) :
    ConversesTo (.aes .little) sampleKey heap (Client.menuLoop (.aes .little) 3 (largeBetween b).choice) user1
      (.start (largeBetween b).home (largeBetween b).console)
      ((cutShort b).map .mirror ++ [.say (Request.payload (.aes .little) (.download (ascii "a")))])
      (Program.Waits (Wrapper.getSize SizedAck.getSize)) := by
  have hu := underway_largeBetween hlen
  have hroom := (Stage.home_next (u := ascii "user1") (D := userFolder) (s := largeBetween b)
    hasRoom_homeWithFile).1
  have hrounds : ConversesTo (.aes .little) sampleKey heap
      (Client.menuLoop (.aes .little) 3 (largeBetween b).choice) user1
      (.start (largeBetween b).home (largeBetween b).console)
      (((largeBetween b).script (.aes .little) userFolder).map .mirror ++
        ([.say (Request.payload (.aes .little) (.download (ascii "b"))),
          .hear ((DownloadAck 0 b.length).serialize ByteOrder.little)] ++
          [.say (Request.payload (.aes .little) (.download (ascii "a")))]))
      (Program.Waits (Wrapper.getSize SizedAck.getSize)) := by
    apply Client.converses_round (u := ascii "user1") hu.encrypts hu.home hasRoom_homeWithFile
    · rw [Stage.Allowed, deed_largeBetween]
      trivial
    · rw [Stage.Fits, deed_largeBetween]
      trivial
    · rw [deed_largeBetween]
      simp
    · -- the second choice: the size in the acknowledgement is 0
      intro h' hat
      apply Client.converses_cut (s := afterUpload b) hu.encrypts hat hroom
        (downloads_largeBetween _ _).chosen (downloads_largeBetween _ _).name
      · rw [hlen]
        rfl
      · -- the third choice: the client waits for an acknowledgement
        intro h'' hconsole
        rw [← (downloads_largeBetween (ascii "user1") userFolder).console_next] at hconsole
        apply Client.converses_ask hu.encrypts
        · rw [hconsole]
          exact (last_largeBetween (ascii "user1") userFolder).chosen
        · rw [hconsole]
          exact (last_largeBetween (ascii "user1") userFolder).name
  rw [script_largeBetween] at hrounds
  exact hrounds

/-- The worker sends all chunks. -/
theorem worker_largeBetween (hlen : b.length = 4294967296) (heap' : Host → Buffer) :
    ConversesTo (.aes .little) sampleKey heap' (Worker.commandLoop (.aes .little) 4) user1
      (.start (largeBetween b).store ⟨[], false, false⟩)
      ((largeBetween b).script (.aes .little) userFolder ++
        ((afterUpload b).script (.aes .little) userFolder ++ [])) fun _ => True := by
  have hu := underway_largeBetween hlen
  have hupload : (largeBetween b).script (.aes .little) userFolder = Request.script (.aes .little)
      ((largeBetween b).store.files userFolder) ((largeBetween b).store.fileNames userFolder)
      (.upload (ascii "a") sampleFile) := by
    rw [Stage.script, deed_largeBetween, Deed.script]
  have hdownload : (afterUpload b).script (.aes .little) userFolder = Request.script (.aes .little)
      ((afterUpload b).store.files userFolder) ((afterUpload b).store.fileNames userFolder)
      (.download (ascii "b")) := by
    rw [Stage.script, (downloads_largeBetween _ _).deed, Deed.script]
  have hstore : (afterUpload b).store = (largeBetween b).store.after (Request.calls (ascii "user1")
      (largeBetween b).store ((largeBetween b).store.files userFolder) (.upload (ascii "a") sampleFile)) := by
    simp only [afterUpload, Stage.next, deed_largeBetween]
  have hallowed : Request.Allowed ((afterUpload b).store.files userFolder) (.download (ascii "b")) :=
    ⟨by decide +kernel, Option.isSome_iff_exists.2 ⟨b, file_afterUpload⟩⟩
  have hfolder := (holds_afterUpload (b := b)).folder
  rw [hupload]
  apply Worker.converses_round hu.encrypts (isFolder_folderWith b)
  · exact ⟨by decide +kernel, by decide, by decide⟩
  · simp
  · intro g' hsame
    have hfs : g'.fs = (afterUpload b).store := hsame.fs.trans hstore.symm
    rw [hdownload]
    rw [← hfs] at hallowed hfolder ⊢
    apply Worker.converses_round hu.encrypts hfolder hallowed
    · simp
    · intro g'' _
      exact conversesTo_waiting rfl fun _ => trivial

/-- After the download of a file of 2^32 bytes the next answer is not understood. -/
theorem not_leadsTo_largeBetween (hlen : b.length = 4294967296) (heap heap' : Host → Buffer)
    (choices choices' : Nat → Choice)
    {Q Q' : Program.Config UInt8 SysCalls (Except Exit Int × Session) (Host × (Nat → Choice)) → Prop} :
    ¬Link.LeadsTo (Host.onHeap heap) (Host.onHeap heap') Q Q'
      (session (.aes .little) 3 4 (largeBetween b).choice user1 user1
        (.start (largeBetween b).home (largeBetween b).console)
        (.start (largeBetween b).store ⟨[], false, false⟩) choices choices') := by
  obtain ⟨cs, hcount, hpieces, hscript⟩ := script_afterUpload (.aes .little) hlen
  have hworker := worker_largeBetween hlen heap'
  have hscripts : (largeBetween b).script (.aes .little) userFolder ++
      ((afterUpload b).script (.aes .little) userFolder ++ []) = cutShort b ++
        .say (RequestCodes.downloadChunk :: b.take Max.maxFileChunk) ::
          sayPieces RequestCodes.downloadChunk cs := by
    rw [hscript, script_largeBetween, cutShort, List.append_nil]
    rfl
  rw [hscripts] at hworker
  have hrest : cs.length = 286331153 := by
    rw [hpieces, List.length_cons] at hcount
    omega
  have hchunk : (b.take Max.maxFileChunk).length = 15 := by
    rw [List.length_take, hlen]
    rfl
  apply ConversesTo.not_leadsTo_of_misfit (client_largeBetween hlen heap) _ hworker _ rfl rfl
  · -- the frame of a chunk is not as long as that of an acknowledgement
    intro counter w hcarries
    obtain ⟨iv, hiv, hframe⟩ := hcarries
    rw [Wrapper.length_frame hiv hframe, List.length_cons, hchunk]
    decide
  · apply ready_user1
    · simp [cutShort]
      decide
    · simp [cutShort]
      decide
  · apply ready_user1
    · simp [cutShort, sayPieces, Turn.spoken_map_say, hrest]
      decide
    · simp [cutShort, sayPieces, Turn.heard_map_say]
      decide

/-- In between, a file of 2^32 bytes is downloaded: the file that was uploaded does not come back. -/
theorem file_lost : ¬∀ (P : Platform) (key : Buffer) (D D' : Path) (k m : Nat) (s : Stage) (x y : Session)
    (h g : Host) (f : Name) (c : Buffer) (heap heap' : Host → Buffer) (choices choices' : Nat → Choice),
    Underway P key D D' (k + 2) s x y h g → k + 2 < m → File.isValidFileName f = true → 1 ≤ c.length →
    c.length < 4294967296 → s.store.files D f = none → s.home.files D' f = none → s.Uploads f c →
    (∀ i, 1 ≤ i → i ≤ k → (s.after y.username D i).Spares f) →
    (∀ i, 1 ≤ i → i ≤ k → (s.after y.username D i).Allowed D) →
    (s.after y.username D (k + 1)).Downloads f →
    Faithful P heap heap' f c k m s.choice x y h g choices choices' := by
  intro hall
  have hlen : (List.replicate 4294967296 (0 : UInt8)).length = 4294967296 := List.length_replicate
  generalize List.replicate 4294967296 (0 : UInt8) = b at hlen
  have hstays : (largeBetween b).deed ≠ .logout := by
    rw [deed_largeBetween]
    simp
  have hone : ∀ i, 1 ≤ i → i ≤ 1 → (largeBetween b).after user1.username userFolder i = afterUpload b := by
    intro i hi hi'
    obtain rfl : i = 1 := Nat.le_antisymm hi' hi
    exact Stage.after_next hstays 0
  have htwo : (largeBetween b).after user1.username userFolder 2 =
      (afterUpload b).next (ascii "user1") userFolder := by
    rw [Stage.after_next hstays]
    exact Stage.after_next (spares_afterUpload (b := b)).stays 0
  have hfaithful := hall _ _ _ [ascii "downloads"] 1 4 (largeBetween b) _ _ _ _ (ascii "a") sampleFile
    (fun _ => []) (fun _ => []) (fun _ => .calm) (fun _ => .calm) (underway_largeBetween hlen) (by decide)
    (by decide) (by decide) (by decide) free_largeBetween absent_largeBetween (uploads_largeBetween b)
    (fun i hi hi' => by rw [hone i hi hi']; exact spares_afterUpload)
    (fun i hi hi' => by rw [hone i hi hi']; exact allowed_afterUpload)
    (by rw [htwo]; exact last_largeBetween _ _)
  exact not_leadsTo_largeBetween hlen _ _ _ _ hfaithful.fetched

end CloudStorage
