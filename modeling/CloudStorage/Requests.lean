import CloudStorage.Chunks
import CloudStorage.Filing

set_option autoImplicit false

/-! # Requests and their answers

The five requests on the files of a user, with what the worker says and hears about each of them and
what it does to the folder. The answer depends on the folder as a map alone; `Worker.converses_command`
shows that the handlers give this answer, and that they change the folder as a shelf is changed. -/

namespace CloudStorage

open Interaction Memory

/-- A request with the names in it, and with the contents of the file where one is uploaded. -/
inductive Request
  | upload (name contents : Buffer)
  | download (name : Buffer)
  | list
  | rename (name newName : Buffer)
  | delete (name : Buffer)
  deriving DecidableEq

namespace Request

/-- What the client sends first. -/
def payload (P : Platform) : Request → Buffer
  | upload name contents => (UploadM1.new name contents.length).serialize P.order
  | download name => (DownloadM1 name).serialize
  | list => ListM1.serialize
  | rename name newName => (RenameM1.new name newName).serialize
  | delete name => (DeleteM1 name).serialize

/-- What is asked of the folder. -/
def change : Request → Change Name Buffer
  | upload name contents => .put name contents
  | rename name newName => .move name newName
  | delete name => .take name
  | _ => .look

/-- A request as a client makes it: the names pass its checks, what is uploaded is neither empty nor
    larger than it allows. What is downloaded is there. -/
def Allowed (m : FileMap) : Request → Prop
  | upload name contents => File.isValidFileName name = true ∧ contents ≠ [] ∧
      contents.length < Max.maxFileSize
  | download name => File.isValidFileName name = true ∧ (m name).isSome = true
  | list => True
  | rename name newName => File.isValidFileName name = true ∧ File.isValidFileName newName = true
  | delete name => File.isValidFileName name = true

instance decidableAllowed (m : FileMap) : ∀ r : Request, Decidable (r.Allowed m)
  | upload _ _ => inferInstanceAs (Decidable (_ ∧ _ ∧ _))
  | download _ => inferInstanceAs (Decidable (_ ∧ _))
  | list => inferInstanceAs (Decidable True)
  | rename _ _ => inferInstanceAs (Decidable (_ ∧ _))
  | delete _ => inferInstanceAs (Decidable (_ = true))

/-- The code of the answer to a rename: 2 for no such file, 1 for a name that is taken. -/
def renameCode (m : FileMap) (name newName : Buffer) : UInt8 :=
  if (m name).isSome then if (m newName).isSome then 1 else 0 else 2

/-- The code of the answer to a delete: 2 for no such file. -/
def deleteCode (m : FileMap) (name : Buffer) : UInt8 := if (m name).isSome then 0 else 2

/-- What the worker says and hears about a request after it has received it, in a folder with the files
    `m`, which are enumerated as `names`. -/
def turns (P : Platform) (m : FileMap) (names : List Name) : Request → List (Turn Buffer)
  | upload name contents =>
    if (m name).isSome then [.say (UploadAck 0).serialize]
    else .say (UploadAck 1).serialize ::
      (hearPieces RequestCodes.uploadChunk (pieces contents) ++ [.say (UploadAck 1).serialize])
  | download name =>
    let contents := (m name).getD []
    if contents = [] then [.say ((DownloadAck 1 0).serialize P.order)]
    else .say ((DownloadAck 0 contents.length).serialize P.order) ::
      sayPieces RequestCodes.downloadChunk (pieces contents)
  | list => [.say (Worker.listAck P names), .say (RequestCodes.listReq :: Worker.listData names)]
  | rename name newName => [.say (RenameAck (renameCode m name newName)).serialize]
  | delete name => [.say (DeleteAck (deleteCode m name)).serialize]

/-- The whole conversation about a request, as the worker has it. -/
def script (P : Platform) (m : FileMap) (names : List Name) (r : Request) : List (Turn Buffer) :=
  .hear (r.payload P) :: r.turns P m names

/-- The calls for a request that change the files of the user `u` or open one. -/
def calls (u : Buffer) (fs : Fs) (m : FileMap) : Request → List FileCall
  | upload name contents =>
    if (m name).isSome then [] else fs.stores (Worker.filePath u name) (pieces contents)
  | download name =>
    .openRead (Worker.filePath u name) ::
      Fs.reads fs.handles.length (pieceSizes ((m name).getD []).length)
  | list => []
  | rename name newName =>
    if renameCode m name newName = 0 then
      [.rename (Worker.filePath u name) (Worker.filePath u newName)]
    else []
  | delete name => if (m name).isSome then [.remove (Worker.filePath u name)] else []

/-! ## The folder -/

variable {u : Buffer} {fs : Fs} {D : Path} {r : Request}

theorem renameCode_eq_zero {m : FileMap} {name newName : Buffer} :
    renameCode m name newName = 0 ↔ (m name).isSome = true ∧ m newName = none := by
  unfold renameCode
  cases m name with
  | none => simp
  | some b => cases m newName <;> simp

/-- No request makes or removes a directory. -/
theorem calls_sameDirs (u : Buffer) (fs : Fs) (m : FileMap) (r : Request) :
    fs.SameDirs (fs.after (r.calls u fs m)) := by
  apply Fs.after_sameDirs
  intro c hc path heq
  subst heq
  cases r with
  | upload name contents =>
      rw [calls] at hc
      split_ifs at hc
      · cases hc
      · simp [Fs.stores, Fs.writes] at hc
  | download name => simp [calls, Fs.reads] at hc
  | list => cases hc
  | rename name newName =>
      rw [calls] at hc
      split_ifs at hc
      · simp at hc
      · cases hc
  | delete name =>
      rw [calls] at hc
      split_ifs at hc
      · simp at hc
      · cases hc

/-- **A request changes the folder as a shelf is changed.** -/
theorem files_calls (hf : fs.IsFolder (Worker.folderPath u) D) (hr : r.Allowed (fs.files D)) :
    (fs.after (r.calls u fs (fs.files D))).files D = (fs.files D).change r.change := by
  cases r with
  | upload name contents =>
      obtain ⟨hname, -, hsize⟩ := hr
      rw [calls, change]
      cases hm : fs.files D name with
      | some b =>
          rw [Shelf.change_put_taken hm]
          rfl
      | none =>
          have hstored := hf.files_stores hname hm (pieces contents)
          rw [flatten_pieces hsize] at hstored
          exact hstored
  | download name =>
      obtain ⟨hname, hsome⟩ := hr
      obtain ⟨b, hb⟩ := Option.isSome_iff_exists.1 hsome
      rw [Fs.files_valid hname] at hb
      obtain ⟨i, hi, hdata⟩ := Fs.contents_eq_some.1 hb
      have hopen := (Fs.openRead_file (hf.resolve_name hname) hi).2.2
      exact (hopen.trans (Fs.after_reads _ _ _)).files D
  | list => rfl
  | rename name newName =>
      obtain ⟨-, hnew⟩ := hr
      rw [calls, change]
      cases hm : fs.files D name with
      | none =>
          rw [Shelf.change_move_missing hm]
          simp [renameCode, hm]
      | some b =>
          cases hm' : fs.files D newName with
          | some b' =>
              rw [Shelf.change_move_taken hm']
              simp [renameCode, hm, hm']
          | none =>
              rw [if_pos (renameCode_eq_zero.2 ⟨by rw [hm]; rfl, hm'⟩)]
              exact (hf.files_rename hm hnew hm').2
  | delete name =>
      rw [calls, change]
      cases hm : fs.files D name with
      | none =>
          rw [Shelf.change_take_missing hm]
          rfl
      | some b => exact (hf.files_remove hm).2

end Request

/-! ## The handlers -/

namespace Worker

open Member

variable {P : Platform} {key : Buffer} {heap : Host → Buffer} {y : Session} {g : Host} {D : Path}
  {name newName contents : Buffer} {Q : Except Exit Int → Host → Prop}

theorem length_payload (P : Platform) (r : Request) : (r.payload P).length = Max.initialRequestLength := by
  cases r with
  | list => exact CodeM1.length_serialize _
  | _ => exact length_fit _ _

theorem sealable_payload (P : Platform) (r : Request) : Sealable (r.payload P) :=
  sealable_of_length (length_payload P r) (by decide) (by decide)

/-- None of the requests ends the loop. -/
theorem commandCode_payload (P : Platform) (r : Request) :
    commandCode (r.payload P) ≠ RequestCodes.logoutReq := by
  cases r with
  | upload name contents =>
      rw [Request.payload, UploadM1.serialize, commandCode_fit]
      show RequestCodes.uploadReq ≠ _
      decide
  | download name =>
      rw [Request.payload, NameM1.serialize, commandCode_fit]
      show RequestCodes.downloadReq ≠ _
      decide
  | list =>
      rw [Request.payload, ListM1.serialize, CodeM1.commandCode_serialize]
      decide
  | rename name newName =>
      rw [Request.payload, RenameM1.serialize, commandCode_fit]
      show RequestCodes.renameReq ≠ _
      decide
  | delete name =>
      rw [Request.payload, NameM1.serialize, commandCode_fit]
      show RequestCodes.deleteReq ≠ _
      decide

/-- Looking for a file in the folder. -/
theorem plays_found (hf : g.fs.IsFolder (folderPath y.username) D)
    (hname : File.isValidFileName name = true) {x : Session}
    {Q : Except Exit Bool → Session → Host → Prop} (hq : Q (.ok (g.fs.files D name).isSome) x g) :
    Plays P key heap (File.exists (filePath y.username name)) x g [] Q := by
  apply File.plays_exists (hf.fileType hname)
  cases hm : g.fs.files D name with
  | none =>
      rw [hm] at hq
      exact hq
  | some b =>
      rw [hm] at hq
      exact hq

theorem sealable_ack (ack : Ack) : Sealable ack.serialize :=
  sealable_of_length (Ack.length_serialize ack) (by decide) (by decide)

theorem sealable_sizedAck (order : ByteOrder) (ack : SizedAck) : Sealable (ack.serialize order) :=
  sealable_of_length (SizedAck.length_serialize ..) (by decide) (by decide)

/-- A size of 0 has no chunks. -/
theorem sendFile_empty {file : File} (hsize : file.fileSize = 0) : sendFile P file = pure 1 := by
  unfold sendFile
  rw [hsize]
  rfl

/-- A file that is open is sent in its chunks. -/
theorem sendFile_converses (henc : Encrypts P key) {file : File} {handle : Nat} {b : Buffer}
    (hinput : file.input = .opened handle) (hsize : file.fileSize = b.length)
    (hopen : g.fs.ReadsFrom handle b)
    (hq : ∀ g', (g.after (Fs.reads handle (pieceSizes b.length))).Same g' → Q (.ok 1) g') :
    Converses P key heap (sendFile P file) y g (sayPieces RequestCodes.downloadChunk (pieces b)) Q := by
  unfold sendFile
  rw [hsize, ← List.append_nil (sayPieces _ _)]
  apply converses_sendFile henc hinput hopen
  intro y' g' hsame
  exact converses_pure (hq g' hsame)

/-- The worker writes each chunk. -/
theorem takes_write {file : File} {handle : Nat} (hfile : file.output = .opened handle) (p : Path)
    (e : Bool) : Absorbs P key heap (writeChunk file e) (fun chunk => [.write handle chunk])
      fun fs => ∃ data, fs.OpenAt handle p data :=
  takes_writeChunk hfile p

section

variable (henc : Encrypts P key) (hf : g.fs.IsFolder (folderPath y.username) D)
include henc hf

/-- A file that is there is refused; one that is not is received and stored. -/
theorem converses_uploadFile (hname : File.isValidFileName name = true)
    (hsize : contents.length < Max.maxFileSize)
    (hq : ∀ n g', n ≠ -1 → (g.after (Request.calls y.username g.fs (g.fs.files D)
      (.upload name contents))).Same g' → Q (.ok n) g') :
    Converses P key heap (returning (uploadFile P ((UploadM1.new name contents.length).serialize P.order)))
      y g (Request.turns P (g.fs.files D) [] (.upload name contents)) Q := by
  have hword : wordOfSize contents.length = contents.length := wordOfSize_of_lt hsize
  have hm1 : UploadM1.deserialize P.order ((UploadM1.new name contents.length).serialize P.order) =
      UploadM1.new name contents.length :=
    UploadM1.deserialize_serialize P.order (by rw [UploadM1.new, hword]; exact hsize)
  apply Converses.returning
  unfold uploadFile
  rw [hm1]
  apply Converses.bind_quiet (plays_readName (named_of_valid hname) _)
  refine ⟨rfl, ?_⟩
  apply Converses.bind_quiet (plays_get _)
  refine ⟨rfl, ?_⟩
  apply Converses.bind_quiet (plays_found hf hname _)
  refine ⟨rfl, ?_⟩
  have htype := hf.fileType hname
  rw [Request.turns]
  cases hm : g.fs.files D name with
  -- the name is taken: the acknowledgement says so, and no file is opened
  | some b =>
      rw [hm] at htype
      simp only [Request.calls, hm, Option.isSome_some, if_true] at hq ⊢
      apply Converses.bind_last (t := [.say (UploadAck 0).serialize])
      apply converses_sendPacket henc (sealable_ack _)
      intro g₁ hsame
      have htype₁ : g₁.fs.fileType (filePath y.username name) = some .regular := by rw [hsame.fs]; exact htype
      apply Converses.bind_quiet
      apply File.plays_create_exists _ htype₁
      exact ⟨rfl, converses_pure (hq 0 g₁ (by decide) hsame)⟩
  -- the name is free: the chunks are written to a new file, and acknowledged at the end
  | none =>
      rw [hm] at htype
      simp only [Request.calls, hm, Option.isSome_none, Bool.false_eq_true, if_false] at hq ⊢
      apply Converses.bind (t := [.say (UploadAck 1).serialize])
      apply converses_sendPacket henc (sealable_ack _)
      intro g₁ hsame
      have hf₁ : g₁.fs.IsFolder (folderPath y.username) D := by rw [hsame.fs]; exact hf
      have htype₁ : g₁.fs.fileType (filePath y.username name) = some .notFound := by rw [hsame.fs]; exact htype
      obtain ⟨hhandle, hopen, -⟩ := hf₁.openWrite hname (by rw [hsame.fs]; exact hm)
      have haccepted : File.nameAccepted (filename (filePath y.username name)) = true := by
        rw [filePath, filename_concat hname]
        exact nameAccepted_of_valid hname
      apply Converses.bind_quiet
      apply File.plays_create _ htype₁ haccepted hhandle
      refine ⟨rfl, ?_⟩
      dsimp only [UploadM1.new]
      rw [hword]
      apply converses_receiveFile (takes_write rfl (D ++ [name]) false) contents ⟨[], hopen⟩
      intro x₂ g₂ hsame₂ _
      apply Converses.bind_last (t := [.say (UploadAck 1).serialize])
      apply converses_sendPacket henc (sealable_ack _)
      intro g₃ hsame₃
      apply converses_pure
      rw [← List.map_eq_flatMap] at hsame₂
      have hstored : (g₁.after (g₁.fs.stores (filePath y.username name) (pieces contents))).Same g₂ :=
        hsame₂
      rw [hsame.fs] at hstored
      exact hq 1 g₃ (by decide) (hsame.trans_after (hstored.trans hsame₃))

/-- A file is sent, or refused where it is empty. -/
theorem converses_downloadFile (hr : Request.Allowed (g.fs.files D) (.download name))
    (hq : ∀ n g', n ≠ -1 → (g.after (Request.calls y.username g.fs (g.fs.files D)
      (.download name))).Same g' → Q (.ok n) g') :
    Converses P key heap (returning (downloadFile P (DownloadM1 name).serialize)) y g
      (Request.turns P (g.fs.files D) [] (.download name)) Q := by
  obtain ⟨hname, hsome⟩ := hr
  obtain ⟨b, hb⟩ := Option.isSome_iff_exists.1 hsome
  have hcontents := hb
  rw [Fs.files_valid hname] at hcontents
  obtain ⟨i, hi, hdata⟩ := Fs.contents_eq_some.1 hcontents
  have hresolve := hf.resolve_name hname
  have hopen := (Fs.openRead_file hresolve hi).2.1
  have haccepted : File.nameAccepted (filename (filePath y.username name)) = true := by
    rw [filePath, filename_concat hname]
    exact nameAccepted_of_valid hname
  rw [hdata] at hopen
  simp only [Request.calls, hb, Option.getD_some] at hq
  apply Converses.returning
  unfold downloadFile
  rw [NameM1.deserialize_serialize]
  apply Converses.bind_quiet (plays_readName (named_of_valid hname) _)
  refine ⟨rfl, ?_⟩
  apply Converses.bind_quiet (plays_get _)
  refine ⟨rfl, ?_⟩
  apply Converses.bind_quiet (plays_garbage _)
  intro unset
  refine ⟨rfl, ?_⟩
  apply Converses.bind_quiet
  apply File.plays_read _ hresolve hi haccepted
  refine ⟨rfl, ?_⟩
  rw [Request.turns, hb, hdata]
  dsimp only [Option.getD_some, Option.isSome_none, Bool.false_or]
  by_cases hempty : b = []
  -- an empty file is refused, with an acknowledgement and no chunk
  · subst hempty
    rw [if_pos rfl]
    apply Converses.bind_quiet (plays_note _)
    refine ⟨rfl, ?_⟩
    apply Converses.bind_last (t := [.say ((DownloadAck 1 0).serialize P.order)])
    apply converses_sendPacket henc (sealable_sizedAck ..)
    intro g₁ hsame
    dsimp only
    rw [sendFile_empty rfl]
    exact converses_pure (hq 1 g₁ (by decide) ⟨hsame.fs, hsame.console, hsame.printed⟩)
  -- a file with contents is announced and sent
  · have hsize : (b.length == 0) = false := by simpa using hempty
    rw [if_neg hempty, hsize]
    apply Converses.bind_quiet (plays_pure _)
    refine ⟨rfl, ?_⟩
    apply Converses.bind (t := [.say ((DownloadAck 0 b.length).serialize P.order)])
    apply converses_sendPacket henc (sealable_sizedAck ..)
    intro g₁ hsame
    dsimp only
    apply sendFile_converses henc rfl rfl
    · rw [hsame.fs]
      exact hopen
    · intro g₂ hsame₂
      have hopened : (g.after [.openRead (filePath y.username name)]).Same g₁ := hsame
      exact hq 1 g₂ (by decide) (hopened.after hsame₂)

omit hf in
/-- A list that fits into a frame is sent. -/
theorem converses_listFiles {names : List Name} (hlist : g.fs.list (folderPath y.username) = some names)
    (hfit : Framed names) (hq : ∀ n g', n ≠ -1 → g.Same g' → Q (.ok n) g') :
    Converses P key heap (returning (listFiles P)) y g (Request.turns P (g.fs.files D) names .list) Q := by
  have hlen := length_listData names
  have hsent : ListM3.serialize (listData names) = some (RequestCodes.listReq :: listData names) := by
    apply ListM3.serialize_of_lt
    unfold Framed Crypto.lengthLimit at hfit
    unfold intMax
    omega
  apply Converses.returning
  apply Converses.bind_quiet (plays_get _)
  refine ⟨rfl, ?_⟩
  apply Converses.bind_quiet (plays_isDirectory (Fs.fileType_of_list hlist) _)
  refine ⟨rfl, ?_⟩
  dsimp only
  rw [if_pos rfl]
  apply Converses.bind_quiet (plays_getFileNames hlist _)
  refine ⟨rfl, ?_⟩
  apply Converses.bind (t := [.say (listAck P names)])
  apply converses_sendPacket henc (sealable_sizedAck ..)
  intro g₁ hsame
  have hdata : (File.joinNames names).take (wordOfSize (File.joinNames names).length) =
      listData names := rfl
  unfold sendList
  rw [hdata, hsent]
  apply Converses.bind_last (t := [.say (RequestCodes.listReq :: listData names)])
  apply converses_sendPacket henc (sealable_of_length (by rw [List.length_cons, hlen]) (Nat.succ_pos _) hfit)
  intro g₂ hsame₂
  exact converses_pure (hq 1 g₂ (by decide) (hsame.trans hsame₂))

omit henc in
/-- The tests and the call of a rename, with its code. -/
theorem plays_renameCode (hname : File.isValidFileName name = true)
    (hnew : File.isValidFileName newName = true) {Q : Except Exit UInt8 → Session → Host → Prop}
    (hq : Q (.ok (Request.renameCode (g.fs.files D) name newName)) y
      (g.after (Request.calls y.username g.fs (g.fs.files D) (.rename name newName)))) :
    Plays P key heap (renameCode (filePath y.username name) (filePath y.username newName)) y g [] Q := by
  apply Plays.bind_quiet (plays_found hf hname _)
  cases hm : g.fs.files D name with
  | none =>
      simp only [Request.calls, Request.renameCode, hm, Option.isSome_none] at hq
      exact plays_pure hq
  | some b =>
      apply Plays.bind_quiet (plays_found hf hnew _)
      cases hm' : g.fs.files D newName with
      | some b' =>
          simp only [Request.calls, Request.renameCode, hm, hm', Option.isSome_some, if_true] at hq
          exact plays_pure hq
      | none =>
          simp only [Request.calls, Request.renameCode, hm, hm', Option.isSome_some, Option.isSome_none,
            if_true, Bool.false_eq_true, if_false] at hq
          have hdone : (g.fs.rename (filePath y.username name) (filePath y.username newName)).1 = true :=
            (hf.files_rename hm hnew hm').1
          apply Plays.bind_quiet
          apply plays_file
          simp only [FileCall.answer, Bool.false_eq_true, if_false, hdone, if_true]
          exact plays_pure hq

omit henc in
/-- The test and the call of a delete, with its code. -/
theorem plays_deleteCode (hname : File.isValidFileName name = true)
    {Q : Except Exit UInt8 → Session → Host → Prop}
    (hq : Q (.ok (Request.deleteCode (g.fs.files D) name)) y
      (g.after (Request.calls y.username g.fs (g.fs.files D) (.delete name)))) :
    Plays P key heap (deleteCode (filePath y.username name)) y g [] Q := by
  apply Plays.bind_quiet (plays_found hf hname _)
  cases hm : g.fs.files D name with
  | none =>
      simp only [Request.calls, Request.deleteCode, hm, Option.isSome_none] at hq
      exact plays_pure hq
  | some b =>
      simp only [Request.calls, Request.deleteCode, hm, Option.isSome_some, if_true] at hq
      have hdone : (g.fs.remove (filePath y.username name)).1 = true := (hf.files_remove hm).1
      apply Plays.bind_quiet
      apply plays_file
      simp only [FileCall.answer, Bool.false_eq_true, if_false, hdone, if_true]
      exact plays_pure hq

theorem converses_renameFile (hname : File.isValidFileName name = true)
    (hnew : File.isValidFileName newName = true)
    (hq : ∀ n g', n ≠ -1 → (g.after (Request.calls y.username g.fs (g.fs.files D)
      (.rename name newName))).Same g' → Q (.ok n) g') :
    Converses P key heap (returning (renameFile P (RenameM1.new name newName).serialize)) y g
      (Request.turns P (g.fs.files D) [] (.rename name newName)) Q := by
  apply Converses.returning
  unfold renameFile
  rw [RenameM1.deserialize_serialize]
  apply Converses.bind_quiet
  apply plays_readName
  · -- the second field lies behind the first
    intro beyond
    rw [List.append_assoc]
    exact named_of_valid hname _
  refine ⟨rfl, ?_⟩
  apply Converses.bind_quiet (plays_readName (named_of_valid hnew) _)
  refine ⟨rfl, ?_⟩
  apply Converses.bind_quiet (plays_get _)
  refine ⟨rfl, ?_⟩
  apply Converses.bind_quiet (plays_renameCode hf hname hnew _)
  refine ⟨rfl, ?_⟩
  apply Converses.bind_last
  apply converses_sendPacket henc (sealable_ack _)
  intro g₁ hsame
  exact converses_pure (hq 1 g₁ (by decide) hsame)

theorem converses_deleteFile (hname : File.isValidFileName name = true)
    (hq : ∀ n g', n ≠ -1 → (g.after (Request.calls y.username g.fs (g.fs.files D)
      (.delete name))).Same g' → Q (.ok n) g') :
    Converses P key heap (returning (deleteFile P (DeleteM1 name).serialize)) y g
      (Request.turns P (g.fs.files D) [] (.delete name)) Q := by
  apply Converses.returning
  unfold deleteFile
  rw [NameM1.deserialize_serialize]
  apply Converses.bind_quiet (plays_readName (named_of_valid hname) _)
  refine ⟨rfl, ?_⟩
  apply Converses.bind_quiet (plays_get _)
  refine ⟨rfl, ?_⟩
  apply Converses.bind_quiet (plays_deleteCode hf hname _)
  refine ⟨rfl, ?_⟩
  apply Converses.bind_last
  apply converses_sendPacket henc (sealable_ack _)
  intro g₁ hsame
  exact converses_pure (hq 1 g₁ (by decide) hsame)

/-- **The handlers give the answer that the folder as a map has**, and change it as a shelf. -/
theorem converses_command {r : Request} (hr : r.Allowed (g.fs.files D))
    (hlist : r = .list → Framed (g.fs.fileNames D))
    (hq : ∀ n g', n ≠ -1 → (g.after (r.calls y.username g.fs (g.fs.files D))).Same g' → Q (.ok n) g') :
    Converses P key heap (command P (commandCode (r.payload P)) (r.payload P)) y g
      (r.turns P (g.fs.files D) (g.fs.fileNames D)) Q := by
  cases r with
  | upload name contents =>
      obtain ⟨hname, -, hsize⟩ := hr
      rw [Request.payload, UploadM1.serialize, commandCode_fit]
      exact converses_uploadFile henc hf hname hsize hq
  | download name =>
      rw [Request.payload, NameM1.serialize, commandCode_fit]
      exact converses_downloadFile henc hf hr hq
  | list => exact converses_listFiles henc hf.list (hlist rfl) hq
  | rename name newName =>
      obtain ⟨hname, hnew⟩ := hr
      rw [Request.payload, RenameM1.serialize, commandCode_fit]
      exact converses_renameFile henc hf hname hnew hq
  | delete name =>
      rw [Request.payload, NameM1.serialize, commandCode_fit]
      exact converses_deleteFile henc hf hr hq

end

end Worker

end CloudStorage
