import CloudStorage.Downloads
import CloudStorage.Requests

set_option autoImplicit false

/-! # What the client is told to do

The next choice of the menu, as far as it can be told from the console and the files of the client: a
request, a logout, or nothing that the worker would hear of. `converses_handleMenuChoice` shows that the
menu does this, whatever is typed. -/

namespace CloudStorage

open Interaction Memory

/-- What a choice of the menu leads to. -/
inductive Deed
  | request (r : Request)
  | logout
  | nothing
  deriving DecidableEq

/-- A request with a name, if a valid one is typed. -/
def Deed.ofName (f : Buffer → Request) : Option Buffer → Deed
  | none => .nothing
  | some name => .request (f name)

namespace Fs

/-- The contents of the regular file that a path leads to. -/
def fileAt (fs : Fs) (path : Buffer) : Option Buffer := (fs.inodeAt path).map fun i => fs.data i

variable {fs : Fs} {path contents : Buffer}

theorem fileAt_eq_some : fs.fileAt path = some contents ↔
    ∃ p i, fs.resolve path = .ok p ∧ fs.node p = some (.file i) ∧ fs.data i = contents := by
  constructor
  · intro h
    by_cases hfile : ∃ p i, fs.resolve path = .ok p ∧ fs.node p = some (.file i)
    · obtain ⟨p, i, hr, hp⟩ := hfile
      obtain ⟨hi, hinode⟩ := inodeAt_of_file hr hp
      rw [fileAt, hinode] at h
      exact ⟨p, i, hr, hp, Option.some.inj h⟩
    · rw [fileAt, inodeAt_of_not_file fun p i hr hp => hfile ⟨p, i, hr, hp⟩] at h
      cases h
  · rintro ⟨p, i, hr, hp, rfl⟩
    obtain ⟨hi, hinode⟩ := inodeAt_of_file hr hp
    rw [fileAt, hinode]
    rfl

theorem fileType_of_fileAt (h : fs.fileAt path = none) : fs.fileType path ≠ some .regular := by
  intro htype
  obtain ⟨p, i, hr, hp⟩ := fileType_regular.1 htype
  rw [fileAt_eq_some.2 ⟨p, i, hr, hp, rfl⟩] at h
  cases h

end Fs

namespace File

open Member

variable {P : Platform} {key : Buffer} {heap : Host → Buffer} {x : Session} {h : Host} {path : Buffer}

/-- What is no regular file, or has a name that is not accepted, is not opened. -/
theorem plays_read_refused (f : File)
    (hnot : h.fs.fileAt path = none ∨ nameAccepted (filename path) = false)
    {Q : Except Exit (File × Option Exception) → Session → Host → Prop}
    (hq : ∀ f' e, Q (.ok (f', some e)) x h) : Plays P key heap (f.read path) x h [] Q := by
  unfold read
  apply Plays.bind_quiet
  cases htype : h.fs.fileType path with
  | none =>
      apply plays_attempt_thrown
      apply Plays.bind_quiet (plays_stat _)
      rw [htype]
      exact plays_throw ⟨_, rfl, plays_pure (hq _ _)⟩
  | some t =>
      apply plays_attempt
      apply plays_exists htype
      refine ⟨_, rfl, ?_⟩
      by_cases hregular : t = .regular
      · subst hregular
        obtain ⟨p, i, hr, hp⟩ := Fs.fileType_regular.1 htype
        have hname : nameAccepted (filename path) = false := by
          rcases hnot with hnone | hname
          · exact absurd htype (Fs.fileType_of_fileAt hnone)
          · exact hname
        apply Plays.bind_quiet
        apply plays_fileSize
        rw [Fs.fileSize_file hr hp]
        dsimp only
        rw [hname]
        exact plays_pure (hq _ _)
      · rw [decide_eq_false hregular]
        exact plays_pure (hq _ _)

end File

namespace Client

/-- The path that is typed for an upload, and the console after it. Invalid input is skipped, and used
    nevertheless. -/
def enteredPath (c : Console) : Buffer × Console :=
  let ((line, good), rest) := c.getline
  let path := line.getD []
  (path, if !good || path.isEmpty then rest.clearAndIgnore else rest)

/-- The name that is typed, if it is valid, and the console after it. -/
def enteredName (c : Console) : Option Buffer × Console :=
  let ((line, good), rest) := c.getline
  let name := line.getD []
  if nameInvalid good name then (none, rest.clearAndIgnore) else (some name, rest)

/-- The upload of the file at a path, if the client goes on with it. -/
def uploadOf (home : Fs) (path : Buffer) : Deed :=
  match home.fileAt path with
  | none => .nothing
  | some contents =>
    if File.nameAccepted (filename path) ∧ contents ≠ [] ∧ contents.length < Max.maxFileSize then
      .request (.upload (filename path) contents)
    else .nothing

/-- What a choice of the menu leads to, and the console after it. -/
def deed (home : Fs) (choice : Buffer) (c : Console) : Deed × Console :=
  match stoi choice with
  | some 1 => (uploadOf home (enteredPath c).1, (enteredPath c).2)
  | some 2 => (.ofName .download (enteredName c).1, (enteredName c).2)
  | some 3 => (.request .list, c)
  | some 4 =>
    match (enteredName c).1 with
    | none => (.nothing, (enteredName c).2)
    | some name => (.ofName (.rename name) (enteredName (enteredName c).2).1, (enteredName (enteredName c).2).2)
  | some 5 => (.ofName .delete (enteredName c).1, (enteredName c).2)
  | some 6 => (.logout, c)
  | _ => (.nothing, c)

/-- The calls of an upload into the files of the client, where the folder has the files `m`. -/
def uploadCalls (home : Fs) (m : FileMap) (path : Buffer) : List FileCall :=
  match home.fileAt path with
  | none => []
  | some contents =>
    if File.nameAccepted (filename path) then
      .openRead path :: (if contents ≠ [] ∧ contents.length < Max.maxFileSize ∧ m (filename path) = none
        then Fs.reads home.handles.length (pieceSizes contents.length) else [])
    else []

/-- The calls of a download that change the files of the client or open one. An empty file is refused. -/
def downloadCalls (home : Fs) (m : FileMap) (name : Buffer) : List FileCall :=
  if (m name).getD [] = [] then [] else home.receives downloadsPath name (pieces ((m name).getD []))

/-- The calls that a choice of the menu leads to. -/
def deedCalls (home : Fs) (m : FileMap) (choice : Buffer) (c : Console) : List FileCall :=
  match stoi choice with
  | some 1 => uploadCalls home m (enteredPath c).1
  | some 2 =>
    match (enteredName c).1 with
    | none => []
    | some name => downloadCalls home m name
  | _ => []

end Client

namespace Deed

/-- The whole conversation about a choice, as the worker has it. -/
def script (P : Platform) (m : FileMap) (names : List Name) : Deed → List (Turn Buffer)
  | request r => r.script P m names
  | logout => [.hear LogoutM1.serialize, .say (LogoutAck 0).serialize]
  | nothing => []

/-- What is downloaded is there. -/
def Allowed (m : FileMap) : Deed → Prop
  | request (.download name) => (m name).isSome = true
  | _ => True

/-- What is listed fits into a frame, and what is downloaded has a size that fits into a word, as far as
    its chunks go. -/
def Fits (m : FileMap) (names : List Name) : Deed → Prop
  | request .list => Worker.Framed names
  | request (.download name) =>
    Client.SameChunks (wordOfSize ((m name).getD []).length) ((m name).getD []).length
  | _ => True

instance decidableAllowed (m : FileMap) : ∀ d : Deed, Decidable (d.Allowed m)
  | request (.download name) => inferInstanceAs (Decidable ((m name).isSome = true))
  | request (.upload _ _) | request .list | request (.rename _ _) | request (.delete _) | logout
  | nothing => inferInstanceAs (Decidable True)

instance decidableFits (m : FileMap) (names : List Name) : ∀ d : Deed, Decidable (d.Fits m names)
  | request .list => inferInstanceAs (Decidable (Worker.Framed names))
  | request (.download _) => inferInstanceAs (Decidable (Client.SameChunks _ _))
  | request (.upload _ _) | request (.rename _ _) | request (.delete _) | logout
  | nothing => inferInstanceAs (Decidable True)

/-- What a download puts into the downloads folder. -/
def arrival (m : FileMap) : Deed → Change Name Buffer
  | request (.download name) =>
    if (m name).getD [] = [] then .look else .put name (pieces ((m name).getD [])).flatten
  | _ => .look

end Deed

/-! ## The files of the client -/

namespace Client

variable {home : Fs} {m : FileMap} {c : Console} {D : Path}

/-- A name that was typed is valid. -/
theorem valid_of_enteredName {name : Buffer} (h : (enteredName c).1 = some name) :
    File.isValidFileName name = true := by
  unfold enteredName at h
  dsimp only at h
  split_ifs at h with hinvalid
  cases h
  simp only [nameInvalid, Bool.or_eq_true, Bool.not_eq_true', not_or, Bool.not_eq_false] at hinvalid
  exact hinvalid.1.2

/-- An upload only reads. -/
theorem untouched_uploadCalls (home : Fs) (m : FileMap) (path : Buffer) :
    Fs.Untouched home (home.after (uploadCalls home m path)) := by
  unfold uploadCalls
  cases hfile : home.fileAt path with
  | none => exact .refl home
  | some contents =>
      obtain ⟨p, i, hr, hp, -⟩ := Fs.fileAt_eq_some.1 hfile
      have hopened := (Fs.openRead_file hr hp).2.2
      dsimp only
      split_ifs
      · exact hopened.trans (Fs.after_reads ..)
      · exact hopened
      · exact .refl home

theorem eq_of_ofName {f : Buffer → Request} {name : Option Buffer} {r : Request}
    (h : Deed.ofName f name = .request r) : ∃ name', name = some name' ∧ r = f name' := by
  cases name with
  | none => cases h
  | some name' =>
      cases h
      exact ⟨name', rfl, rfl⟩

theorem eq_of_uploadOf {path : Buffer} {r : Request} (h : uploadOf home path = .request r) :
    ∃ contents, r = .upload (filename path) contents ∧ home.fileAt path = some contents ∧
      File.nameAccepted (filename path) = true ∧ contents ≠ [] ∧ contents.length < Max.maxFileSize := by
  unfold uploadOf at h
  cases hfile : home.fileAt path with
  | none =>
      rw [hfile] at h
      cases h
  | some contents =>
      rw [hfile] at h
      dsimp only at h
      split_ifs at h with hgoes
      cases h
      exact ⟨contents, rfl, rfl, hgoes⟩

theorem valid_of_accepted {name : Buffer} (h : File.nameAccepted name = true) :
    File.isValidFileName name = true := by
  simp only [File.nameAccepted, Bool.and_eq_true] at h
  exact h.1

/-- **What the client asks for is allowed**, as long as what it downloads is there. -/
theorem allowed_of_deed {choice : Buffer} {r : Request} (hr : (deed home choice c).1 = .request r)
    (hallowed : (deed home choice c).1.Allowed m) : r.Allowed m := by
  rw [hr] at hallowed
  unfold deed at hr
  split at hr
  · obtain ⟨contents, rfl, -, hname, hgoes⟩ := eq_of_uploadOf hr
    exact ⟨valid_of_accepted hname, hgoes⟩
  · obtain ⟨name, hname, rfl⟩ := eq_of_ofName hr
    exact ⟨valid_of_enteredName hname, hallowed⟩
  · cases hr
    trivial
  · cases hname : (enteredName c).1 with
    | none =>
        rw [hname] at hr
        cases hr
    | some name =>
        rw [hname] at hr
        obtain ⟨newName, hnew, rfl⟩ := eq_of_ofName hr
        exact ⟨valid_of_enteredName hname, valid_of_enteredName hnew⟩
  · obtain ⟨name, hname, rfl⟩ := eq_of_ofName hr
    exact valid_of_enteredName hname
  · cases hr
  · cases hr

theorem arrival_uploadOf (home : Fs) (m : FileMap) (path : Buffer) :
    (uploadOf home path).arrival m = .look := by
  unfold uploadOf
  cases home.fileAt path with
  | none => rfl
  | some contents =>
      dsimp only
      split_ifs <;> rfl

/-- Only a download puts something into the folder. -/
theorem arrival_deed {choice : Buffer} (hnot : stoi choice ≠ some 2) :
    (deed home choice c).1.arrival m = .look := by
  unfold deed
  split
  all_goals rename_i hchoice
  · exact arrival_uploadOf ..
  · exact absurd hchoice hnot
  · rfl
  · cases (enteredName c).1 with
    | none => rfl
    | some name => cases (enteredName (enteredName c).2).1 <;> rfl
  · cases (enteredName c).1 <;> rfl
  · rfl
  · rfl

/-- **The downloads folder changes as a shelf**, by what arrives. -/
theorem files_deedCalls (hroom : home.HasRoom downloadsPath D) (choice : Buffer) :
    (home.after (deedCalls home m choice c)).HasRoom downloadsPath D ∧
      (home.after (deedCalls home m choice c)).files D =
        (home.files D).change ((deed home choice c).1.arrival m) := by
  have hquiet : ∀ calls, Fs.Untouched home (home.after calls) → ∀ d : Deed, d.arrival m = .look →
      (home.after calls).HasRoom downloadsPath D ∧
        (home.after calls).files D = (home.files D).change (d.arrival m) := by
    intro calls hu d hd
    rw [hd]
    exact ⟨hroom.untouched hu, hu.files D⟩
  by_cases hupload : stoi choice = some 1
  · simp only [deedCalls, deed, hupload]
    exact hquiet _ (untouched_uploadCalls ..) _ (arrival_uploadOf ..)
  · by_cases hdownload : stoi choice = some 2
    · simp only [deedCalls, deed, hdownload]
      cases hname : (enteredName c).1 with
      | none => exact hquiet [] (.refl home) .nothing rfl
      | some name =>
          simp only [Deed.ofName, Deed.arrival, downloadCalls]
          split_ifs
          · exact ⟨hroom, rfl⟩
          · have harrived := hroom.receives (valid_of_enteredName hname) (pieces ((m name).getD []))
            exact ⟨Or.inl harrived.1, harrived.2⟩
    · have hcalls : deedCalls home m choice c = [] := by
        unfold deedCalls
        split <;> simp_all
      rw [hcalls]
      exact hquiet [] (.refl home) _ (arrival_deed hdownload)

end Client

/-! ## The operations -/

namespace Client

open Member Worker

variable {P : Platform} {key : Buffer} {heap : Host → Buffer} {x : Session} {h : Host} {m : FileMap}
  {names : List Name} {Q : Except Exit Int → Host → Prop}

/-- A name is read from the console. -/
theorem plays_readFileName {Q : Except Exit Buffer → Session → Host → Prop}
    (hq : ∀ h', Host.At h.fs (enteredName h.console).2 h' → Q (match (enteredName h.console).1 with
      | some name => .ok name
      | none => .error (.returned 0)) x h') : Plays P key heap readFileName x h [] Q := by
  apply Plays.bind_quiet (plays_getline _)
  unfold enteredName at hq
  dsimp only
  cases hinvalid : nameInvalid h.console.getline.1.2 (h.console.getline.1.1.getD []) with
  | true =>
      rw [if_pos rfl]
      apply Plays.bind_quiet (plays_print _)
      apply Plays.bind_quiet (plays_clearAndIgnore _)
      apply plays_throw
      simp only [hinvalid, if_true] at hq
      exact hq _ ⟨rfl, rfl⟩
  | false =>
      simp only [hinvalid, Bool.false_eq_true, if_false] at hq ⊢
      exact plays_pure (hq _ ⟨rfl, rfl⟩)

theorem plays_warnInvalid (invalid : Bool) {Q : Except Exit Unit → Session → Host → Prop}
    (hq : ∀ h', Host.At h.fs (if invalid then h.console.clearAndIgnore else h.console) h' →
      Q (.ok ()) x h') : Plays P key heap (warnInvalid invalid) x h [] Q := by
  cases invalid with
  | true =>
      apply Plays.bind_quiet (plays_print _)
      apply plays_clearAndIgnore
      exact hq _ ⟨rfl, rfl⟩
  | false => exact plays_pure (hq _ ⟨rfl, rfl⟩)

section

variable (henc : Encrypts P key)
include henc

/-- After the first acknowledgement of an upload. -/
theorem converses_uploadChunks {file : File} {handle : Nat} {name contents : Buffer}
    (hinput : file.input = .opened handle) (hsize : file.fileSize = contents.length)
    (hopen : h.fs.ReadsFrom handle contents)
    (hq : ∀ n h', n ≠ -1 → Host.At (h.fs.after (if m name = none then
      Fs.reads handle (pieceSizes contents.length) else [])) h.console h' → Q (.ok n) h') :
    Converses P key heap (uploadChunks P file) x h
      ((Request.turns P m names (.upload name contents)).map .mirror) Q := by
  cases hm : m name with
  | some b =>
      have hturns : (Request.turns P m names (.upload name contents)).map Turn.mirror =
          [.hear (UploadAck 0).serialize] := by simp [Request.turns, hm]
      rw [if_neg (by simp [hm])] at hq
      rw [hturns]
      apply Converses.bind_last
      apply converses_expectPacket rfl (by decide)
      intro h₁ hsame
      apply Converses.bind_quiet (plays_print _)
      refine ⟨rfl, ?_⟩
      exact converses_pure (hq 0 _ (by decide) ⟨hsame.fs, hsame.console⟩)
  | none =>
      have hturns : (Request.turns P m names (.upload name contents)).map Turn.mirror =
          [.hear (UploadAck 1).serialize] ++
            (sayPieces RequestCodes.uploadChunk (pieces contents) ++ [.hear (UploadAck 1).serialize]) := by
        simp [Request.turns, hm, mirror_hearPieces]
      rw [if_pos hm] at hq
      rw [hturns]
      apply Converses.bind
      apply converses_expectPacket rfl (by decide)
      intro h₁ hsame
      dsimp only
      rw [if_neg (by decide), hsize]
      apply converses_sendFile henc hinput
      · rwa [hsame.fs]
      · intro x₂ h₂ hsame₂
        apply Converses.bind_last (t := [.hear (UploadAck 1).serialize])
        apply converses_expectPacket rfl (by decide)
        intro h₃ hsame₃
        dsimp only
        rw [if_neg (by decide)]
        apply Converses.bind_quiet (plays_print _)
        refine ⟨rfl, ?_⟩
        have hat := (hsame.trans_after (hsame₂.trans hsame₃)).at
        exact converses_pure (hq 1 _ (by decide) ⟨hat.fs, hat.console⟩)

omit henc in
/-- What cannot be read is not uploaded. -/
theorem uploadOf_refused {home : Fs} {path : Buffer}
    (hnot : home.fileAt path = none ∨ File.nameAccepted (filename path) = false) :
    uploadOf home path = .nothing ∧ uploadCalls home m path = [] := by
  unfold uploadOf uploadCalls
  cases hfile : home.fileAt path with
  | none => exact ⟨rfl, rfl⟩
  | some contents =>
      have hname : File.nameAccepted (filename path) = false := by
        rcases hnot with hnone | hname
        · rw [hfile] at hnone
          cases hnone
        · exact hname
      simp [hname]

/-- From the look at the file on, an upload depends on what is at the path. -/
theorem converses_readAndUpload (unset : Nat) (path : Buffer)
    (hq : ∀ n h', n ≠ -1 → Host.At (h.fs.after (uploadCalls h.fs m path)) h.console h' → Q (.ok n) h') :
    Converses P key heap (do
      let (file, error) ← (File.new unset).read path
      if error.isSome || file.fileSize == 0 || decide (Max.maxFileSize ≤ file.fileSize) then return 0
      else do
        sendPacket P ((UploadM1.new file.fileName file.fileSize).serialize P.order)
        uploadChunks P file) x h (((uploadOf h.fs path).script P m names).map .mirror) Q := by
  by_cases hnot : h.fs.fileAt path = none ∨ File.nameAccepted (filename path) = false
  -- there is no file, or one with a name that the program does not take
  · obtain ⟨hnothing, hcalls⟩ := uploadOf_refused (m := m) hnot
    rw [hnothing]
    rw [hcalls] at hq
    apply Converses.bind_quiet
    apply File.plays_read_refused _ hnot
    intro f' e
    refine ⟨rfl, ?_⟩
    exact converses_pure (hq 0 h (by decide) ⟨rfl, rfl⟩)
  · obtain ⟨hsome, hname⟩ := not_or.1 hnot
    obtain ⟨contents, hfile⟩ := Option.ne_none_iff_exists'.1 hsome
    rw [Bool.not_eq_false] at hname
    obtain ⟨p, i, hr, hp, rfl⟩ := Fs.fileAt_eq_some.1 hfile
    have hopen := (Fs.openRead_file hr hp).2.1
    apply Converses.bind_quiet
    apply File.plays_read _ hr hp hname
    refine ⟨rfl, ?_⟩
    dsimp only [Option.isSome_none]
    by_cases hgoes : h.fs.data i ≠ [] ∧ (h.fs.data i).length < Max.maxFileSize
    -- the file has a size that an upload can carry
    · obtain ⟨hne, hlt⟩ := hgoes
      have hdeed : uploadOf h.fs path = .request (.upload (filename path) (h.fs.data i)) := by
        simp [uploadOf, hfile, hname, hne, hlt]
      have hcalls : uploadCalls h.fs m path = .openRead path :: if m (filename path) = none then
          Fs.reads h.fs.handles.length (pieceSizes (h.fs.data i).length) else [] := by
        simp [uploadCalls, hfile, hname, hne, hlt]
      have hchecks : (false || (h.fs.data i).length == 0 ||
          decide (Max.maxFileSize ≤ (h.fs.data i).length)) = false := by
        simp [hne, hlt]
      rw [hdeed, if_neg (ne_true_of_eq_false hchecks)]
      rw [hcalls] at hq
      apply Converses.bind (t := [.say _])
      apply converses_sendPacket henc (sealable_of_length (length_fit ..) (by decide) (by decide))
      intro h₁ hsame
      apply converses_uploadChunks henc rfl rfl
      · rw [hsame.fs]
        exact hopen
      · intro n h' hn hat
        apply hq n h' hn
        rw [hsame.fs, hsame.console] at hat
        exact hat
    -- the file is empty or too large, and the client stays silent
    · have hdeed : uploadOf h.fs path = .nothing := by
        simp only [uploadOf, hfile]
        rw [if_neg fun hall => hgoes hall.2]
      have hcalls : uploadCalls h.fs m path = [.openRead path] := by
        simp only [uploadCalls, hfile, hname, if_true]
        rw [if_neg fun hall => hgoes ⟨hall.1, hall.2.1⟩]
      have hchecks : (false || (h.fs.data i).length == 0 ||
          decide (Max.maxFileSize ≤ (h.fs.data i).length)) = true := by
        rw [not_and_or] at hgoes
        rcases hgoes with hempty | hlarge
        · simp [not_not.1 hempty]
        · simp [Nat.not_lt.1 hlarge]
      rw [hdeed, if_pos hchecks]
      rw [hcalls] at hq
      exact converses_pure (hq 0 _ (by decide) ⟨rfl, rfl⟩)

/-- An upload, of whatever is at the path. -/
theorem converses_uploadFile
    (hq : ∀ n h', n ≠ -1 → Host.At (h.fs.after (uploadCalls h.fs m (enteredPath h.console).1))
      (enteredPath h.console).2 h' → Q (.ok n) h') :
    Converses P key heap (returning (uploadFile P)) x h
      (((uploadOf h.fs (enteredPath h.console).1).script P m names).map .mirror) Q := by
  have hpath : (enteredPath h.console).1 = h.console.getline.1.1.getD [] := rfl
  apply Converses.returning
  unfold uploadFile
  apply Converses.bind_quiet (plays_getline _)
  refine ⟨rfl, ?_⟩
  apply Converses.bind_quiet (plays_warnInvalid _ _)
  intro h₁ hat₁
  refine ⟨rfl, ?_⟩
  apply Converses.bind_quiet (plays_garbage _)
  intro unset
  refine ⟨rfl, ?_⟩
  have hfs : h₁.fs = h.fs := hat₁.fs
  rw [← hfs] at hq ⊢
  apply converses_readAndUpload henc
  intro n h' hn hat
  rw [hat₁.console] at hat
  exact hq n h' hn hat

omit henc in
theorem deserialize_downloadAck (order : ByteOrder) (code : UInt8) (n : Nat) :
    SizedAck.deserialize order ((DownloadAck code n).serialize order) = DownloadAck code n :=
  SizedAck.deserialize_serialize _ (Nat.mod_lt _ (by decide))

/-- A download that is not refused: the chunks are those of a file that has as many of them as the size
    in the acknowledgement. -/
theorem converses_served {D : Path} {name b : Buffer} {size : Nat}
    (hname : (enteredName h.console).1 = some name) (hroom : h.fs.HasRoom downloadsPath D)
    (hsize : SameChunks (wordOfSize size) b.length)
    (hq : ∀ h', Host.At (h.fs.after (h.fs.receives downloadsPath name (pieces b)))
      (enteredName h.console).2 h' → Q (.ok 1) h') :
    Converses P key heap (returning (downloadFile P)) x h
      (.say (Request.payload P (.download name)) :: .hear ((DownloadAck 0 size).serialize P.order) ::
        hearPieces RequestCodes.downloadChunk (pieces b)) Q := by
  have hserved : ¬(DownloadAck 0 size).ackCode ≠ 0 := not_not.2 rfl
  apply Converses.returning
  apply Converses.bind_quiet (plays_readFileName _)
  intro h₁ hat₁
  rw [hname]
  refine ⟨rfl, ?_⟩
  apply Converses.bind (t := [.say (Request.payload P (.download name))])
  apply converses_sendPacket henc (sealable_payload P (.download name))
  intro h₂ hsame₂
  apply Converses.bind (t := [.hear ((DownloadAck 0 size).serialize P.order)])
  apply converses_expectPacket (SizedAck.length_serialize _ _) (by decide)
  intro h₃ hsame₃
  have hat₃ := hat₁.same (hsame₂.trans hsame₃)
  have hroom₃ : h₃.fs.HasRoom downloadsPath D := by
    rw [hat₃.fs]
    exact hroom
  dsimp only
  rw [deserialize_downloadAck, if_neg hserved]
  apply converses_receiveFile hroom₃ (valid_of_enteredName hname) hsize
  intro h₄ hat
  rw [hat₃.fs, hat₃.console] at hat
  exact hq h₄ hat

/-- A download that is refused. -/
theorem converses_refused {name : Buffer} {size : Nat} (hname : (enteredName h.console).1 = some name)
    (hq : ∀ h', Host.At h.fs (enteredName h.console).2 h' → Q (.ok 0) h') :
    Converses P key heap (returning (downloadFile P)) x h
      [.say (Request.payload P (.download name)), .hear ((DownloadAck 1 size).serialize P.order)] Q := by
  have hcode : (DownloadAck 1 size).ackCode ≠ 0 := by
    show (1 : UInt8) ≠ 0
    decide
  apply Converses.returning
  apply Converses.bind_quiet (plays_readFileName _)
  intro h₁ hat₁
  rw [hname]
  refine ⟨rfl, ?_⟩
  apply Converses.bind (t := [.say (Request.payload P (.download name))])
  apply converses_sendPacket henc (sealable_payload P (.download name))
  intro h₂ hsame₂
  apply Converses.bind_last (t := [.hear ((DownloadAck 1 size).serialize P.order)])
  apply converses_expectPacket (SizedAck.length_serialize _ _) (by decide)
  intro h₃ hsame₃
  have hat₃ := hat₁.same (hsame₂.trans hsame₃)
  dsimp only
  rw [deserialize_downloadAck, if_pos hcode]
  apply Converses.bind_quiet (plays_print _)
  refine ⟨rfl, ?_⟩
  exact converses_pure (hq _ ⟨hat₃.fs, hat₃.console⟩)

/-- A download of a file that is there. -/
theorem converses_downloadFile {D : Path} {name b : Buffer}
    (hname : (enteredName h.console).1 = some name) (hm : m name = some b)
    (hroom : h.fs.HasRoom downloadsPath D) (hsize : SameChunks (wordOfSize b.length) b.length)
    (hq : ∀ n h', n ≠ -1 → Host.At (h.fs.after (downloadCalls h.fs m name)) (enteredName h.console).2 h' →
      Q (.ok n) h') :
    Converses P key heap (returning (downloadFile P)) x h
      ((Request.script P m names (.download name)).map .mirror) Q := by
  rw [Request.script, Request.turns]
  rw [downloadCalls] at hq
  simp only [hm, Option.getD_some] at hq ⊢
  by_cases hempty : b = []
  · rw [if_pos hempty] at hq ⊢
    exact converses_refused henc hname fun h' hat => hq 0 h' (by decide) hat
  · rw [if_neg hempty] at hq ⊢
    simp only [List.map_cons, Turn.mirror_hear, Turn.mirror_say, mirror_sayPieces]
    exact converses_served henc hname hroom hsize fun h' hat => hq 1 h' (by decide) hat

omit henc in
/-- The second packet of a list, if it fits into a frame. -/
theorem converses_receiveList (hfit : Framed names)
    (hq : ∀ h', Host.At h.fs h.console h' → Q (.ok 1) h') :
    Converses P key heap (receiveList P (wordOfSize (File.joinNames names).length)) x h
      [.hear (RequestCodes.listReq :: listData names)] Q := by
  have hlen := length_listData names
  have hpayload : (RequestCodes.listReq :: listData names).length =
      1 + wordOfSize (File.joinNames names).length := by
    rw [List.length_cons, hlen, Nat.add_comm]
  have hframed := hfit
  unfold Framed Crypto.lengthLimit at hfit
  have hsize : ListM3.getSize (wordOfSize (File.joinNames names).length) =
      1 + wordOfSize (File.joinNames names).length := ChunkM2.getSize_of_lt (by unfold intMax; omega)
  intro hready
  have hcount := hready.counting_hear
  have hrange : 0 ≤ x.rCounter ∧ x.rCounter ≤ intMax := ⟨hcount.1, Int.le_of_lt hcount.2⟩
  unfold receiveList
  rw [hsize]
  apply Plays.bind (s := [.hear (x.rCounter, RequestCodes.listReq :: listData names)]) (t := [])
  apply plays_receiveFrame hready.key hrange hpayload (by omega)
  intro w
  apply Plays.bind_quiet (plays_checkCounter _)
  intro h₁ hsame
  rw [readList_listData hframed]
  apply Plays.bind_quiet (plays_pure _)
  apply Plays.bind_quiet (plays_overrun _)
  apply Plays.bind_quiet (plays_printNames _ _)
  apply Plays.bind_quiet (plays_advanceReceive_or_end hrange _ _)
  · intro _ h₂ hsame'
    apply plays_pure
    have hat := hsame'.at
    rw [hsame.fs, hsame.console] at hat
    exact ⟨by simp [Session.advance], hq _ hat⟩
  · exact fun hmax => absurd hmax (Int.ne_of_lt hcount.2)

/-- A list that fits into a frame is received and printed. -/
theorem converses_listFiles (hfit : Framed names)
    (hq : ∀ n h', n ≠ -1 → Host.At h.fs h.console h' → Q (.ok n) h') :
    Converses P key heap (returning (listFiles P)) x h
      ((Request.script P m names .list).map .mirror) Q := by
  apply Converses.returning
  apply Converses.bind (t := [.say ListM1.serialize])
  apply converses_sendPacket henc sealable_request
  intro h₁ hsame₁
  apply Converses.bind (t := [.hear (listAck P names)])
  apply converses_expectPacket (SizedAck.length_serialize _ _) (by decide)
  intro h₂ hsame₂
  dsimp only
  rw [listAck, deserialize_listM2, ackCode_listM2, if_neg (by decide)]
  apply converses_receiveList hfit
  intro h₃ hat
  rw [hsame₂.fs, hsame₂.console, hsame₁.fs, hsame₁.console] at hat
  exact hq 1 h₃ (by decide) hat

omit henc in
/-- The end of a rename or a delete. -/
theorem converses_reportCode {code : UInt8} {done failed : Report}
    (hq : ∀ n h', n ≠ -1 → Host.At h.fs h.console h' → Q (.ok n) h') :
    Converses P key heap (reportCode done failed code) x h [] Q := by
  unfold reportCode
  split_ifs
  · apply Converses.bind_quiet (plays_print _)
    exact ⟨rfl, converses_pure (hq 1 _ (by decide) ⟨rfl, rfl⟩)⟩
  · apply Converses.bind_quiet (plays_print _)
    exact ⟨rfl, converses_pure (hq 0 _ (by decide) ⟨rfl, rfl⟩)⟩
  · apply Converses.bind_quiet (plays_print _)
    exact ⟨rfl, converses_pure (hq 0 _ (by decide) ⟨rfl, rfl⟩)⟩
  · exact converses_pure (hq 1 _ (by decide) ⟨rfl, rfl⟩)

/-- A request that is answered with a code, from the sending on. -/
theorem converses_askCode {r : Request} {a : Ack} {done failed : Report}
    (hq : ∀ n h', n ≠ -1 → Host.At h.fs h.console h' → Q (.ok n) h') :
    Converses P key heap (do
      sendPacket P (r.payload P)
      let payload ← expectPacket P Ack.getSize 0
      reportCode done failed (Ack.deserialize payload).ackCode) x h
      [.say (r.payload P), .hear a.serialize] Q := by
  apply Converses.bind (t := [.say (r.payload P)])
  apply converses_sendPacket henc (sealable_payload P r)
  intro h₁ hsame₁
  apply Converses.bind_last (t := [.hear a.serialize])
  apply converses_expectPacket (Ack.length_serialize _) (by decide)
  intro h₂ hsame₂
  apply converses_reportCode
  intro n h₃ hn hat
  rw [hsame₂.fs, hsame₂.console, hsame₁.fs, hsame₁.console] at hat
  exact hq n h₃ hn hat

theorem converses_renameFile {name newName : Buffer} (hname : (enteredName h.console).1 = some name)
    (hnew : (enteredName (enteredName h.console).2).1 = some newName)
    (hq : ∀ n h', n ≠ -1 → Host.At h.fs (enteredName (enteredName h.console).2).2 h' → Q (.ok n) h') :
    Converses P key heap (returning (renameFile P)) x h
      ((Request.script P m names (.rename name newName)).map .mirror) Q := by
  apply Converses.returning
  apply Converses.bind_quiet (plays_readFileName _)
  intro h₁ hat₁
  rw [hname]
  refine ⟨rfl, ?_⟩
  apply Converses.bind_quiet (plays_readFileName _)
  intro h₂ hat₂
  rw [hat₁.fs, hat₁.console] at hat₂
  rw [hat₁.console, hnew]
  refine ⟨rfl, ?_⟩
  apply converses_askCode henc (r := .rename name newName) (a := RenameAck (Request.renameCode m name newName))
  intro n h' hn hat
  rw [hat₂.fs, hat₂.console] at hat
  exact hq n h' hn hat

theorem converses_deleteFile {name : Buffer} (hname : (enteredName h.console).1 = some name)
    (hq : ∀ n h', n ≠ -1 → Host.At h.fs (enteredName h.console).2 h' → Q (.ok n) h') :
    Converses P key heap (returning (deleteFile P)) x h
      ((Request.script P m names (.delete name)).map .mirror) Q := by
  apply Converses.returning
  apply Converses.bind_quiet (plays_readFileName _)
  intro h₁ hat₁
  rw [hname]
  refine ⟨rfl, ?_⟩
  apply converses_askCode henc (r := .delete name) (a := DeleteAck (Request.deleteCode m name))
  intro n h' hn hat
  rw [hat₁.fs, hat₁.console] at hat
  exact hq n h' hn hat

omit henc in
/-- A name that is not valid ends the operation. -/
theorem converses_badName {f : Buffer → Member Int} (hname : (enteredName h.console).1 = none)
    (hq : ∀ h', Host.At h.fs (enteredName h.console).2 h' → Q (.error (.returned 0)) h') :
    Converses P key heap (readFileName >>= f) x h [] Q := by
  apply Converses.bind_quiet (plays_readFileName _)
  intro h₁ hat
  rw [hname]
  exact ⟨rfl, rfl, hq h₁ hat⟩

/-- **The menu does what it is told**: all but a logout. -/
theorem converses_handleMenuChoice {choice : Buffer} {D : Path}
    (hroom : h.fs.HasRoom downloadsPath D) (hallowed : (deed h.fs choice h.console).1.Allowed m)
    (hfits : (deed h.fs choice h.console).1.Fits m names)
    (hstay : (deed h.fs choice h.console).1 ≠ .logout)
    (hq : ∀ n h', n ≠ -1 → Host.At (h.fs.after (deedCalls h.fs m choice h.console))
      (deed h.fs choice h.console).2 h' → Q (.ok n) h') :
    Converses P key heap (handleMenuChoice P choice) x h
      (((deed h.fs choice h.console).1.script P m names).map .mirror) Q := by
  unfold handleMenuChoice
  split
  -- a number that is no choice
  case h_8 k hk1 hk2 hk3 hk4 hk5 hk6 hchoice =>
    have hnothing : deed h.fs choice h.console = (.nothing, h.console) := by
      unfold deed
      rw [hchoice]
      split <;> simp_all
    have hcalls : deedCalls h.fs m choice h.console = [] := by
      unfold deedCalls
      rw [hchoice]
      split <;> simp_all
    rw [hnothing]
    rw [hnothing, hcalls] at hq
    exact converses_pure (hq (-3) h (by decide) ⟨rfl, rfl⟩)
  all_goals
    rename_i hchoice
    simp only [deed, deedCalls, hchoice] at *
  -- the choice is no number
  · exact converses_pure (hq (-2) h (by decide) ⟨rfl, rfl⟩)
  · exact converses_uploadFile henc hq
  · cases hname : (enteredName h.console).1 with
    | none =>
        simp only [hname] at hallowed hfits hstay hq ⊢
        exact .returning (converses_badName hname fun h' hat => hq 0 h' (by decide) hat)
    | some name =>
        simp only [hname] at hallowed hfits hstay hq ⊢
        obtain ⟨b, hb⟩ := Option.isSome_iff_exists.1 hallowed
        simp only [Deed.Fits, Deed.ofName, hb, Option.getD_some] at hfits
        exact converses_downloadFile henc hname hb hroom hfits hq
  · exact converses_listFiles henc hfits hq
  · cases hname : (enteredName h.console).1 with
    | none =>
        simp only [hname] at hallowed hfits hstay hq ⊢
        exact .returning (converses_badName hname fun h' hat => hq 0 h' (by decide) hat)
    | some name =>
        simp only [hname] at hallowed hfits hstay hq ⊢
        -- the first name is valid, and a second one is asked for
        cases hnew : (enteredName (enteredName h.console).2).1 with
        | none =>
            simp only [hnew] at hallowed hfits hstay hq ⊢
            apply Converses.returning
            apply Converses.bind_quiet (plays_readFileName _)
            intro h₁ hat₁
            rw [hname]
            refine ⟨rfl, ?_⟩
            apply converses_badName
            · rw [hat₁.console]
              exact hnew
            · intro h₂ hat₂
              rw [hat₁.fs, hat₁.console] at hat₂
              exact hq 0 h₂ (by decide) hat₂
        | some newName =>
            simp only [hnew] at hallowed hfits hstay hq ⊢
            exact converses_renameFile henc hname hnew hq
  · cases hname : (enteredName h.console).1 with
    | none =>
        simp only [hname] at hallowed hfits hstay hq ⊢
        exact .returning (converses_badName hname fun h' hat => hq 0 h' (by decide) hat)
    | some name =>
        simp only [hname] at hallowed hfits hstay hq ⊢
        exact converses_deleteFile henc hname hq
  -- the logout, which the hypothesis leaves out
  · exact absurd rfl hstay

end

end Client

end CloudStorage
