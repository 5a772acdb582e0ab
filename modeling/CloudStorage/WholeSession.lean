import CloudStorage.Fidelity
import CloudStorage.HonestLogin

set_option autoImplicit false

/-! # A whole session

From the login to the logout, over a link that loses nothing, with what is typed known from the start. A
`Cloud` is what the two programs are for: the folder of the user and the downloads folder, and what each
choice of the menu does to them. `whole_session` says that the two programs compute it, whatever the IVs
are and however their calls are interleaved. -/

namespace CloudStorage

open Interaction Interaction.Routine Memory

/-! ## The cloud of one user -/

/-- The files of the user on the server, and those that have been downloaded. -/
structure Cloud where
  folder : FileMap
  downloads : FileMap

namespace Cloud

/-- What is there when a file of this name has been downloaded. An empty file is not written. -/
def fetched (c : Cloud) (name : Name) : FileMap :=
  match c.folder name with
  | none | some [] => c.downloads
  | some contents => c.downloads.change (.put name contents)

/-- What a choice does. A name that is taken is left alone, on either side. -/
def step (c : Cloud) : Deed → Cloud
  | .request (.upload name contents) => { c with folder := c.folder.change (.put name contents) }
  | .request (.download name) => { c with downloads := c.fetched name }
  | .request (.rename name newName) => { c with folder := c.folder.change (.move name newName) }
  | .request (.delete name) => { c with folder := c.folder.change (.take name) }
  | .request .list | .logout | .nothing => c

/-- What some choices do. -/
def run (c : Cloud) (deeds : List Deed) : Cloud := deeds.foldl step c

/-- Every file of the user is smaller than the client would refuse to upload. -/
def Small (c : Cloud) : Prop :=
  ∀ name contents, c.folder name = some contents → contents.length < Max.maxFileSize

variable {c : Cloud} {d : Deed}

/-- No choice makes a file too large. -/
theorem Small.step (h : c.Small) (hupload : ∀ name contents, d = .request (.upload name contents) →
    contents.length < Max.maxFileSize) : (c.step d).Small := by
  have hchange : ∀ change : Change Name Buffer, (∀ name contents, change = .put name contents →
      contents.length < Max.maxFileSize) → ∀ name contents, c.folder.change change name = some contents →
        contents.length < Max.maxFileSize := by
    intro change hput name contents hfile
    rcases Shelf.of_change hfile with ⟨name', hthere⟩ | ⟨name', rfl⟩
    · exact h name' contents hthere
    · exact hput name' contents rfl
  cases d with
  | logout => exact h
  | nothing => exact h
  | request r =>
      cases r with
      | list => exact h
      | download name => exact h
      | upload name contents =>
          apply hchange (.put name contents)
          rintro name' contents' ⟨⟩
          exact hupload _ _ rfl
      | rename name newName => exact hchange (.move name newName) (by simp)
      | delete name => exact hchange (.take name) (by simp)

end Cloud

/-! ## The stages compute it -/

namespace Stage

variable {u : Buffer} {D D' : Path} {s : Stage} {n : Nat}

/-- The two folders at a stage. -/
def cloud (D D' : Path) (s : Stage) : Cloud := ⟨s.store.files D, s.home.files D'⟩

/-- What is done in some choices. -/
def deeds (u : Buffer) (D : Path) : Nat → Stage → List Deed
  | 0, _ => []
  | n + 1, s => s.deed :: if s.deed = .logout then [] else deeds u D n (s.next u D)

/-- A file of the user that is small is downloaded as it is. -/
theorem change_arrival {c : Cloud} (hsmall : c.Small) (d : Deed) :
    c.downloads.change (d.arrival c.folder) = (c.step d).downloads := by
  cases d with
  | logout => rfl
  | nothing => rfl
  | request r =>
      cases r with
      | upload name contents => rfl
      | list => rfl
      | rename name newName => rfl
      | delete name => rfl
      | download name =>
          cases hfile : c.folder name with
          | none => simp [Deed.arrival, Cloud.step, Cloud.fetched, hfile, Shelf.change]
          | some contents =>
              have hflat := flatten_pieces (hsmall name contents hfile)
              cases contents <;> simp [Deed.arrival, Cloud.step, Cloud.fetched, hfile, Shelf.change, hflat]

/-- What the folder of the user becomes. -/
theorem change_change (c : Cloud) (d : Deed) : c.folder.change d.change = (c.step d).folder := by
  cases d with
  | logout => rfl
  | nothing => rfl
  | request r => cases r <;> rfl

/-- A choice does to the two folders what it does to the cloud. -/
theorem cloud_next (hf : s.store.IsFolder (Worker.folderPath u) D)
    (hroom : s.home.HasRoom Client.downloadsPath D') (hallowed : s.Allowed D)
    (hsmall : (s.cloud D D').Small) : (s.next u D).cloud D D' = (s.cloud D D').step s.deed := by
  have hfolder := (store_next hf hallowed).2
  have hdownloads := (home_next (u := u) (D := D) hroom).2
  rw [cloud, hfolder, hdownloads]
  exact congrArg₂ Cloud.mk (change_change (s.cloud D D') s.deed)
    (change_arrival (c := s.cloud D D') hsmall s.deed)

/-- What is uploaded is small. -/
theorem small_upload {name contents : Buffer} (hdeed : s.deed = .request (.upload name contents)) :
    contents.length < Max.maxFileSize := by
  have hallowed : (Client.deed s.home s.chosen s.console.getline.2).1.Allowed (fun _ => none) := by
    rw [← deed, hdeed]
    trivial
  exact (Client.allowed_of_deed hdeed hallowed).2.2

/-- The files of the user stay small. -/
theorem small_next (hf : s.store.IsFolder (Worker.folderPath u) D)
    (hroom : s.home.HasRoom Client.downloadsPath D') (hallowed : s.Allowed D)
    (hsmall : (s.cloud D D').Small) : ((s.next u D).cloud D D').Small := by
  rw [cloud_next hf hroom hallowed hsmall]
  exact hsmall.step fun _ _ hdeed => small_upload hdeed

/-- Any number of choices do to the two folders what they do to the cloud. -/
theorem cloud_after (hf : s.store.IsFolder (Worker.folderPath u) D)
    (hroom : s.home.HasRoom Client.downloadsPath D') (hallowed : ∀ k < n, (s.after u D k).Allowed D)
    (hsmall : (s.cloud D D').Small) :
    (s.after u D n).cloud D D' = (s.cloud D D').run (s.deeds u D n) ∧
      ((s.after u D n).cloud D D').Small := by
  induction n generalizing s with
  | zero => exact ⟨rfl, hsmall⟩
  | succ n ih =>
      by_cases hleave : s.deed = .logout
      · rw [after, deeds, if_pos hleave, if_pos hleave, hleave]
        exact ⟨rfl, hsmall⟩
      · have hallowed₀ : s.Allowed D := hallowed 0 (Nat.succ_pos n)
        rw [after_next hleave, deeds, if_neg hleave, Cloud.run, List.foldl_cons,
          ← cloud_next hf hroom hallowed₀ hsmall]
        apply ih
        · exact (store_next hf hallowed₀).1
        · exact (home_next hroom).1
        · exact forall_next hleave hallowed
        · exact small_next hf hroom hallowed₀ hsmall

/-- The list of the files, if it is asked for, is one that fits into a frame. -/
def Lists (D : Path) (s : Stage) : Prop :=
  s.deed = .request .list → Worker.Framed (s.store.fileNames D)

instance (D : Path) (s : Stage) : Decidable (s.Lists D) := inferInstanceAs (Decidable (_ → _))

/-- A file that is small fits. -/
theorem fits_of_lists (hsmall : (s.cloud D D').Small) (hlists : s.Lists D) (hallowed : s.Allowed D) :
    s.Fits D := by
  unfold Fits
  cases hdeed : s.deed with
  | logout => trivial
  | nothing => trivial
  | request r =>
      cases r with
      | list => exact hlists hdeed
      | download name =>
          rw [Allowed, hdeed] at hallowed
          obtain ⟨contents, hfile⟩ := Option.isSome_iff_exists.1 hallowed
          have hword : wordOfSize contents.length = contents.length :=
            Nat.mod_eq_of_lt (hsmall name contents hfile)
          rw [Deed.Fits, hfile, Option.getD_some, hword]
          exact ⟨rfl, rfl⟩
      | upload name contents => trivial
      | rename name newName => trivial
      | delete name => trivial

end Stage

/-! ## From the login on -/

namespace Member

variable {H : HonestCrypto} {e : Endpoint} {heap : Host → Buffer} {x : Session} {h : Host}
  {s : List (Turn (Set Buffer))}

theorem Follows.returning {r : Member Int} {Q : Except Exit Int → Session → Host → Prop}
    (hr : Follows H e heap r x h s fun result x' h' => ∃ n, result = .ok n ∧ Q (.ok n) x' h') :
    Follows H e heap (returning r) x h s Q := by
  intro choices hserves
  apply Recites.catchExit
  apply (hr choices hserves).mono
  rintro result x' l' ⟨hserves', n, rfl, hq⟩
  exact ⟨n, rfl, hserves', hq⟩

/-- The blocks that carry a message. -/
def frames (P : Platform) (key : Buffer) (message : Message) : Set Buffer := {w | Carries P key message w}

/-- A login, and then a conversation with the key. -/
theorem Follows.bind_converses {P : Platform} {key : Buffer} {r : Member Int} {f : Int → Member Int}
    {t : List (Turn Buffer)}
    {R : Program.Config UInt8 SysCalls (Except Exit Int × Session) (Host × (Nat → Choice)) → Prop}
    (hr : Follows H e heap r x h s fun result x' h' => ∃ n, result = .ok n ∧ Ready key x' t ∧
      x'.sCounter = 0 ∧ x'.rCounter = 0 ∧ ConversesTo P key heap (f n) x' h' t R)
    {choices : Nat → Choice} (hserves : H.Serves e choices) :
    ((r >>= f) x).Plays (Host.onHeap heap) (fun message d => d ∈ message) R (h, choices)
      (s ++ (Turn.number 0 0 t).map (Turn.map (frames P key))) := by
  apply Recites.bind_plays
  apply (hr choices hserves).mono
  rintro result x' ⟨h', choices'⟩ ⟨-, n, rfl, hready, hsent, hreceived, hf⟩
  have hplays := hf hready
  unfold PlaysTo at hplays
  rw [hsent, hreceived] at hplays
  exact (hplays choices').map_message fun _ _ => Iff.rfl

end Member

open Member

/-- The client has made its choices, or has left; with the files that it has downloaded. -/
def ClientLeft (D' : Path) (left : Bool) (downloads : FileMap)
    (c : Program.Config UInt8 SysCalls (Except Exit Int × Session) (Host × (Nat → Choice))) : Prop :=
  ∃ x h choices, c = (.ret (if left then .ok 0 else .error .unfinished, x), (h, choices)) ∧
    h.fs.files D' = downloads

/-- The worker waits for a command, or has left; with the files of the user. -/
def WorkerLeft (P : Platform) (D : Path) (left : Bool) (folder : FileMap)
    (c : Program.Config UInt8 SysCalls (Except Exit Int × Session) (Host × (Nat → Choice))) : Prop :=
  ∃ y g choices, (if left then c = (.ret (.ok 0, y), (g, choices))
    else ∃ k, c = (Worker.commandLoop P (k + 1) y, (g, choices))) ∧ g.fs.files D = folder

/-- Both sides before the login of the user `u`: what is typed, the files of both sides, and counters that
    last for `n` choices. -/
structure Opening (H : HonestCrypto) (P : Platform) (u : Buffer) (D D' : Path) (n : Nat) (s : Stage)
    (h g : Host) : Prop where
  typed : Client.Typed H u h.console s.console
  choice : s.choice = []
  home : h.fs = s.home
  store : g.fs = s.store
  encrypts : Encrypts P H.sessionKey
  folder : s.store.IsFolder (Worker.folderPath u) D
  downloads : s.home.HasRoom Client.downloadsPath D'
  small : (s.cloud D D').Small
  spoken : (Turn.spoken (s.scripts P u D n) : Int) ≤ intMax
  heard : (Turn.heard (s.scripts P u D n) : Int) ≤ intMax

namespace Opening

variable {H : HonestCrypto} {P : Platform} {u : Buffer} {D D' : Path} {n : Nat} {s : Stage} {h g : Host}
  {choices : Nat → Choice} {heap : Host → Buffer}

/-- What is said and heard, as the worker has it. -/
def script (H : HonestCrypto) (P : Platform) (u : Buffer) (D : Path) (n : Nat) (s : Stage) :
    List (Turn (Set Buffer)) :=
  (H.loginScript P.order u).map .mirror ++
    (Turn.number 0 0 (s.scripts P u D n)).map (Turn.map (frames P H.sessionKey))

/-- A session is ready after the login. -/
theorem ready {t : List (Turn Buffer)} {key : Buffer} (hspoken : (Turn.spoken t : Int) ≤ intMax)
    (hheard : (Turn.heard t : Int) ≤ intMax) : Ready key (.start u key) t where
  key := rfl
  sent := Int.le_refl 0
  send_room := by
    show (0 : Int) + _ ≤ intMax
    rwa [Int.zero_add]
  received := Int.le_refl 0
  receive_room := by
    show (0 : Int) + _ ≤ intMax
    rwa [Int.zero_add]

theorem plays_client (ho : Opening H P u D D' n s h g) (heap : Host → Buffer)
    (hallowed : ∀ k < n, (s.after u D k).Allowed D)
    (hfits : ∀ k < n, (s.after u D k).Fits D) (hserves : H.Serves .client choices) :
    (Client.start P n (.start [] [])).Plays (Host.onHeap heap) (fun message d => d ∈ message)
      (ClientLeft D' (s.leaves u D n) ((s.after u D n).home.files D')) (h, choices)
      ((script H P u D n s).map .mirror) := by
  have hscript : (script H P u D n s).map .mirror = H.loginScript P.order u ++
      (Turn.number 0 0 ((s.scripts P u D n).map .mirror)).map (Turn.map (frames P H.sessionKey)) := by
    rw [script, List.map_append, List.map_map, Turn.mirror_comp_mirror, List.map_id, Turn.map_mirror,
      Turn.number_mirror]
  rw [hscript]
  apply Follows.bind_converses _ hserves
  apply Follows.returning
  apply Client.follows_login ho.typed
  intro h' hfs hconsole _
  refine ⟨1, rfl, 1, rfl, ready ?_ ?_, rfl, rfl, ?_⟩
  · rw [Turn.spoken_mirror]
    exact ho.heard
  · rw [Turn.heard_mirror]
    exact ho.spoken
  · rw [if_neg (by decide), ← ho.choice]
    apply Client.converses_rounds ho.encrypts ⟨hfs.trans ho.home, hconsole⟩ ho.downloads hallowed hfits
    intro h'' choices' hend
    rw [Stage.menuEnd, ← hend]
    cases s.leaves u D n <;> exact ⟨_, h'', choices', rfl, rfl⟩

theorem plays_worker (ho : Opening H P u D D' n s h g) (heap : Host → Buffer) (hn : n < intMax + 2)
    (hallowed : ∀ k < n, (s.after u D k).Allowed D) (hfits : ∀ k < n, (s.after u D k).Fits D)
    (hserves : H.Serves .worker choices) :
    (Worker.start P (.start [] [])).Plays (Host.onHeap heap) (fun message d => d ∈ message)
      (WorkerLeft P D (s.leaves u D n) ((s.after u D n).store.files D)) (g, choices)
      (script H P u D n s) := by
  apply Follows.bind_converses _ hserves
  apply Follows.returning
  apply Worker.follows_login ho.typed.user
  intro g' hsame
  refine ⟨1, rfl, 1, rfl, ready ho.spoken ho.heard, rfl, rfl, ?_⟩
  rw [if_neg (by decide)]
  apply Worker.converses_rounds (u := u) (y := .start u H.sessionKey) ho.encrypts hn rfl
    (hsame.fs.trans ho.store) ho.folder hallowed hfits
  · intro hleft g'' choices' hend
    rw [hleft, ← hend]
    exact ⟨_, g'', choices', rfl, rfl⟩
  · intro hstays k g'' choices' hend
    rw [hstays, ← hend]
    exact ⟨_, g'', choices', ⟨k, rfl⟩, rfl⟩

end Opening

/-- **A whole session.** Client and worker run from the start, over a reliable link, with what is typed
    known: the name and the password of a user, and then `n` choices. Under every schedule each receive asks
    for exactly the block that was sent, and in the end nothing is unread: the client has left after a
    logout, and the worker with it, or the client has made its choices and the worker waits for a command.
    The two folders are then as the cloud has them. What is downloaded has to be there, and what is listed
    has to fit into a frame. -/
theorem whole_session {H : HonestCrypto} {P : Platform} {u : Buffer} {D D' : Path} {n : Nat} {s : Stage}
    {h g : Host} (ho : Opening H P u D D' n s h g) (hn : n < intMax + 2)
    (hallowed : ∀ k < n, (s.after u D k).Allowed D) (hlists : ∀ k < n, (s.after u D k).Lists D)
    (heap heap' : Host → Buffer) {choices choices' : Nat → Choice} (hserves : H.Serves .client choices)
    (hserves' : H.Serves .worker choices') :
    Link.LeadsTo (Host.onHeap heap) (Host.onHeap heap')
      (ClientLeft D' (s.leaves u D n) ((s.cloud D D').run (s.deeds u D n)).downloads)
      (WorkerLeft P D (s.leaves u D n) ((s.cloud D D').run (s.deeds u D n)).folder)
      ⟨(Client.start P n (.start [] []), (h, choices)), (Worker.start P (.start [] []), (g, choices')),
        [], []⟩ := by
  have hfits : ∀ k < n, (s.after u D k).Fits D := by
    intro k hk
    have hafter := Stage.cloud_after ho.folder ho.downloads
      (fun i hi => hallowed i (Nat.lt_trans hi hk)) ho.small
    exact Stage.fits_of_lists hafter.2 (hlists k hk) (hallowed k hk)
  have hclient := ho.plays_client heap hallowed hfits hserves
  have hworker := ho.plays_worker heap' hn hallowed hfits hserves'
  rw [← (Stage.cloud_after ho.folder ho.downloads hallowed ho.small).1]
  apply Link.leadsTo_of_plays hclient
  rwa [List.map_map, Turn.mirror_comp_mirror, List.map_id]

/-! ## A session of `user1` -/

/-- Folders alone hold no file. -/
theorem Fs.files_of_folders {fs : Fs} (hdir : ∀ e ∈ fs.entries.entries, e.2 = .dir) (D : Path)
    (name : Name) : fs.files D name = none := by
  have hnode : ∀ p i, fs.node p ≠ some (.file i) := by
    intro p i hfile
    unfold FsState.node at hfile
    split_ifs at hfile
    · cases hfile
    · cases hdir _ (AList.mem_lookup_iff.1 hfile)
  unfold Fs.files
  split_ifs
  · cases hcontents : fs.contents (D ++ [name]) with
    | none => rfl
    | some b =>
        obtain ⟨i, hi, -⟩ := contents_eq_some.1 hcontents
        exact absurd hi (hnode _ i)
  · rfl

/-- `user1` logs in, makes the choices of `wholeMenu` and leaves. -/
def wholeConsole : Console := ⟨ascii "user1\nsecret\n1\na\n3\n2\na\n4\na\nb\n5\nb\n6\n", false, false⟩

set_option maxRecDepth 20000 in
theorem opening_wholeConsole : Opening .plain (.aes .little) (ascii "user1") [ascii "data", ascii "user1"]
    [ascii "downloads"] 6 wholeMenu (.start homeWithFile wholeConsole)
    (.start Worker.emptyFolder.fs ⟨[], true, false⟩) where
  typed := ⟨by decide, by decide, by decide, by decide, by decide, by decide⟩
  choice := rfl
  home := rfl
  store := rfl
  encrypts := encrypts_ccm (length_fit ..)
  folder := Worker.isFolder_emptyFolder
  downloads := hasRoom_homeWithFile
  small := by
    intro name contents hfile
    have hnone : (wholeMenu.cloud [ascii "data", ascii "user1"] [ascii "downloads"]).folder name = none :=
      Fs.files_of_folders (by decide +kernel) _ _
    rw [hnone] at hfile
    cases hfile
  spoken := by decide +kernel
  heard := by decide +kernel

theorem whole_session_user1 : Link.LeadsTo (Host.onHeap fun _ => [1]) (Host.onHeap fun _ => [2])
    (ClientLeft [ascii "downloads"] (wholeMenu.leaves (ascii "user1") [ascii "data", ascii "user1"] 6)
      ((wholeMenu.cloud [ascii "data", ascii "user1"] [ascii "downloads"]).run
        (wholeMenu.deeds (ascii "user1") [ascii "data", ascii "user1"] 6)).downloads)
    (WorkerLeft (.aes .little) [ascii "data", ascii "user1"]
      (wholeMenu.leaves (ascii "user1") [ascii "data", ascii "user1"] 6)
      ((wholeMenu.cloud [ascii "data", ascii "user1"] [ascii "downloads"]).run
        (wholeMenu.deeds (ascii "user1") [ascii "data", ascii "user1"] 6)).folder)
    ⟨(Client.start (.aes .little) 6 (.start [] []),
        (.start homeWithFile wholeConsole, HonestCrypto.plainChoices .client)),
      (Worker.start (.aes .little) (.start [] []),
        (.start Worker.emptyFolder.fs ⟨[], true, false⟩, HonestCrypto.plainChoices .worker)), [], []⟩ :=
  whole_session opening_wholeConsole (by decide) (by decide +kernel) (by decide +kernel) _ _
    (HonestCrypto.serves_plain .client) (HonestCrypto.serves_plain .worker)

end CloudStorage
