import CloudStorage.Addresses

set_option autoImplicit false

/-! # Which files a client asks for

Whatever the server sends, a client reads only files whose paths were typed in, and makes and writes only
files in its downloads folder under names that were typed in. The lines of the console are a function of the
calls of the run (`typed`), so this holds on any machine and with any network. The key, the certificate and
the revocation list that its login opens are calls into the primitives and none of these. -/

namespace CloudStorage

open Interaction Interaction.Program Interaction.Routine Handshake

open Client (downloadsPath)

/-! ## What was typed in -/

/-- A line as it is read into a new variable. -/
def typedIn : Event → Option Buffer
  | ⟨.sys .getline, answer⟩ => some ((answer : Option Buffer × Bool).1.getD [])
  | _ => none

/-- The lines of a run. -/
def typed (t : List Event) : List Buffer := t.filterMap typedIn

/-- These lines were typed in. -/
def HasTyped (lines : List Buffer) (t : List Event) : Prop := ∀ line ∈ lines, line ∈ typed t

theorem hasTyped_nil (t : List Event) : HasTyped [] t := fun _ hline => absurd hline List.not_mem_nil

theorem typed_append (t : List Event) (e : Event) : typed (t ++ [e]) = typed t ++ (typedIn e).toList := by
  rw [typed, List.filterMap_append]
  cases h : typedIn e <;> simp [typed, h]

theorem lasts_hasTyped (lines : List Buffer) : Lasts (HasTyped lines) := by
  intro t e h line hline
  rw [typed_append]
  exact List.mem_append_left _ (h line hline)

/-- The path of a file in the downloads folder whose name is one of these lines, and one that the client
    accepts. -/
def InDownloads (lines : List Buffer) (path : Buffer) : Prop :=
  ∃ name ∈ lines, Client.nameInvalid true name = false ∧ path = downloadsPath ++ 47 :: name

/-- A call on the downloads folder or a file in it, or one that looks at a path that was typed in, opens it or
    reads from a stream that its opening has given in the calls `t`; what is written goes to a stream that the
    opening of a file in the downloads folder has given. -/
def Wanted (lines : List Buffer) (t : List Event) : FileCall → Prop
  | .stat path => path = downloadsPath ∨ InDownloads lines path ∨ path ∈ lines
  | .fileSize path | .openRead path => path ∈ lines
  | .openWrite path => InDownloads lines path
  | .createDirectory path => path = downloadsPath
  | .read handle _ => ∃ path ∈ lines, ReadStream t path handle
  | .write handle _ => ∃ path, InDownloads lines path ∧ WriteStream t path handle
  | .list _ | .remove _ | .rename _ _ => False

theorem InDownloads.mono {lines lines' : List Buffer} (hsub : lines ⊆ lines') {path : Buffer}
    (h : InDownloads lines path) : InDownloads lines' path := by
  obtain ⟨name, hname, hvalid⟩ := h
  exact ⟨name, hsub hname, hvalid⟩

theorem Wanted.mono {lines lines' : List Buffer} (hsub : lines ⊆ lines') {t : List Event} {c : FileCall}
    (h : Wanted lines t c) : Wanted lines' t c := by
  cases c with
  | stat path => exact h.imp_right (Or.imp (InDownloads.mono hsub) fun h => hsub h)
  | fileSize path => exact hsub h
  | openRead path => exact hsub h
  | openWrite path => exact InDownloads.mono hsub h
  | read handle n =>
      obtain ⟨path, hpath, hstream⟩ := h
      exact ⟨path, hsub hpath, hstream⟩
  | write handle b =>
      obtain ⟨path, hpath, hstream⟩ := h
      exact ⟨path, hpath.mono hsub, hstream⟩
  | _ => exact h

/-- The guarantee of this module. -/
abbrev Wanting : Transition Sys (List Event) :=
  fun t o _ _ => Guarded (fun t c => Wanted (typed t) t c) t o

variable {P : Platform} {α : Type} {lines : List Buffer}

/-- Where these lines were typed in, the function makes wanted calls. -/
abbrev Wants (lines : List Buffer) (r : Member α) : Prop :=
  Passes Traced Wanting (HasTyped lines) r fun _ => HasTyped lines

theorem lasting_wanting : Lasting Traced Wanting (HasTyped lines) := lasting_guarded (lasts_hasTyped lines)

theorem wants_onFile {p : FileCall → Prop} {X : Exit → Prop} {r : Member α} (hr : Only (OnFile p) X r)
    (hp : ∀ t c, p c → Wanted lines t c) : Wants lines r :=
  guarded_onFile (lasts_hasTyped lines) hr fun t c htyped hc => (hp t c hc).mono htyped

theorem wants_sys {o : SysCall} (ho : ∀ c, o ≠ .file c) : Wants lines (Member.sys o) :=
  lasting_wanting.call ho

theorem wants_sendPacket (payload : Buffer) : Wants lines (Member.sendPacket P payload) :=
  lasting_wanting.sendPacket payload

theorem wants_receiveFrame (n : Nat) : Wants lines (Member.receiveFrame P n) :=
  passes_receiveFrame (guarded_recv (lasts_hasTyped lines) _)

theorem wants_expectPacket (n : Nat) (result : Int) : Wants lines (Member.expectPacket P n result) :=
  lasting_wanting.expectPacket (guarded_recv (lasts_hasTyped lines) _)

/-- A line that is read was typed in. -/
theorem wants_getline : Passes Traced Wanting (HasTyped lines) Member.getline
    fun r => HasTyped (r.1.getD [] :: lines) := by
  rintro x t htyped r t' rfl
  have hline : HasTyped (r.1.getD [] :: lines) (t ++ [⟨.sys .getline, r⟩]) := by
    intro line hline
    rw [typed_append]
    rcases List.mem_cons.1 hline with rfl | hline
    · exact List.mem_append_right _ (List.mem_singleton_self _)
    · exact List.mem_append_left _ (htyped line hline)
  exact ⟨fun c hc => (by cases hc), hline⟩

namespace Client

open Member

/-! ## The operations -/

/-- The line was typed in, and the file reads from a stream of this path. -/
abbrev Reads (path : Buffer) (file : File) (t : List Handshake.Event) : Prop :=
  HasTyped [path] t ∧ ∀ handle, file.input = .opened handle → ReadStream t path handle

/-- The name was typed in, and the file writes to a stream of its path in the downloads folder. -/
abbrev Writes (name : Buffer) (file : File) (t : List Handshake.Event) : Prop :=
  HasTyped [name] t ∧
    ∀ handle, file.output = .opened handle → WriteStream t (downloadsPath ++ 47 :: name) handle

variable {path name : Buffer}

theorem lasts_reads (file : File) : Lasts (Reads path file) := fun t e h =>
  ⟨lasts_hasTyped [path] t e h.1, fun handle hopen => lasts_mem _ t e (h.2 handle hopen)⟩

theorem lasts_writes (file : File) : Lasts (Writes name file) := fun t e h =>
  ⟨lasts_hasTyped [name] t e h.1, fun handle hopen => lasts_mem _ t e (h.2 handle hopen)⟩

theorem wants_readChunk (file : File) (n : Nat) :
    Passes Traced Wanting (Reads path file) (file.readChunk n) fun _ => Reads path file := by
  apply guarded_onFile (lasts_reads file) (file.only_readChunk n)
  rintro t c h ⟨handle, hopen, rfl⟩
  exact ⟨path, h.1 path (List.mem_singleton_self path), h.2 handle hopen⟩

theorem wants_writeChunk (hvalid : nameInvalid true name = false) (file : File) (errorOccured : Bool)
    (chunk : Buffer) : Passes Traced Wanting (Writes name file) (writeChunk file errorOccured chunk)
      fun _ => Writes name file := by
  unfold writeChunk
  split
  · exact passes_pure _
  · apply guarded_onFile (lasts_writes file) (file.only_writeChunk chunk)
    rintro t c h ⟨handle, hopen, rfl⟩
    exact ⟨_, ⟨name, h.1 name (List.mem_singleton_self name), hvalid, rfl⟩, h.2 handle hopen⟩

theorem wants_warnInvalid (invalid : Bool) : Wants lines (warnInvalid invalid) := by
  unfold warnInvalid
  split
  · exact .bind (wants_sys (by simp)) fun _ => wants_sys (by simp)
  · exact passes_pure _

/-- A name that is read was typed in and is valid. -/
theorem wants_readFileName : Passes Traced Wanting (HasTyped lines) readFileName
    fun name t => HasTyped (name :: lines) t ∧ nameInvalid true name = false := by
  refine .bind wants_getline fun r => ?_
  obtain ⟨line, good⟩ := r
  dsimp only
  split
  · exact .bind (wants_sys (by simp)) fun _ => .bind (wants_sys (by simp)) fun _ => passes_exit _
  · rename_i hvalid
    refine .pure _ fun x t htyped => ⟨htyped, ?_⟩
    cases good with
    | true => exact Bool.not_eq_true _ ▸ hvalid
    | false => exact absurd rfl hvalid

theorem wants_uploadChunks (file : File) :
    Passes Traced Wanting (Reads path file) (uploadChunks P file) fun _ => HasTyped [path] := by
  have hlasting : Lasting Traced Wanting (Reads path file) := lasting_guarded (lasts_reads file)
  have hexpect : ∀ n result, Passes Traced Wanting (Reads path file) (Member.expectPacket P n result)
      fun _ => Reads path file := fun n result =>
    hlasting.expectPacket (guarded_recv (lasts_reads file) _)
  have hprint : ∀ (report : Report) (result : Int), Passes Traced Wanting (Reads path file)
      (Member.print report >>= fun _ => pure result) fun _ => HasTyped [path] := fun report result =>
    .bind (hlasting.call (by simp)) fun _ => .pure _ fun _ _ h => h.1
  refine .bind (hexpect _ _) fun payload => ?_
  split_ifs
  · exact hprint _ _
  · refine .bind (hlasting.sendChunks (wants_readChunk file) _ _) fun _ =>
      .bind (hlasting.sendLastChunk (wants_readChunk file) _ _) fun _ =>
      .bind (hexpect _ _) fun payload => ?_
    split_ifs
    · exact hprint _ _
    · exact hprint _ _

/-- An operation makes only wanted calls, whatever was typed in before it. -/
abbrev Uses (r : Member Int) : Prop := Passes Traced Wanting (fun _ => True) r fun _ _ => True

theorem ends_of_wants {r : Member Int} (h : Wants lines r) :
    Passes Traced Wanting (HasTyped lines) r fun _ _ => True :=
  h.conseq (fun _ _ => id) (fun _ _ _ _ => trivial) fun _ _ _ => id

/-- An operation that begins with a line. -/
theorem uses_getline {f : Option Buffer × Bool → Member Int}
    (hf : ∀ r, Wants [r.1.getD []] (f r)) : Uses (getline >>= f) :=
  .bind (wants_getline.conseq (fun _ t _ => hasTyped_nil t) (fun _ _ _ => id) fun _ _ _ => id)
    fun r => ends_of_wants (hf r)

/-- An operation that begins with a name. -/
theorem uses_readFileName {f : Buffer → Member Int}
    (hf : ∀ name, nameInvalid true name = false → Wants [name] (f name)) : Uses (readFileName >>= f) := by
  refine .bind (wants_readFileName.conseq (fun _ t _ => hasTyped_nil t) (fun _ _ _ => id)
    fun _ _ _ => id) fun name => ?_
  rintro x t ⟨htyped, hvalid⟩
  exact ends_of_wants (hf name hvalid) x t htyped

theorem uses_uploadFile : Uses (uploadFile P) := by
  refine uses_getline fun r => ?_
  obtain ⟨line, good⟩ := r
  refine .bind (wants_warnInvalid _) fun _ => .bind (wants_sys (by simp)) fun unset =>
    .bind (guarded_read (lasts_hasTyped [line.getD []]) rfl ?_) fun r => ?_
  · rintro t c htyped (rfl | rfl | rfl)
    · exact Or.inr (Or.inr (htyped _ (List.mem_singleton_self _)))
    · exact htyped _ (List.mem_singleton_self _)
    · exact htyped _ (List.mem_singleton_self _)
  · obtain ⟨file, error⟩ := r
    have hlasting : Lasting Traced Wanting (Reads (line.getD []) file) := lasting_guarded (lasts_reads file)
    dsimp only
    split
    · exact .pure _ fun _ _ h => h.1
    · exact .bind (hlasting.sendPacket _) fun _ => wants_uploadChunks file

theorem wants_makeDownloads : Wants lines makeDownloads := by
  apply wants_onFile only_makeDownloads
  rintro t c (rfl | rfl)
  · exact Or.inl rfl
  · rfl

theorem wants_receiveFile (hvalid : nameInvalid true name = false) (size : Nat) :
    Wants [name] (receiveFile P name size) := by
  refine .bind wants_makeDownloads fun _ => .bind (guarded_create (lasts_hasTyped [name]) rfl ?_) fun r => ?_
  · intro t c htyped hc
    have hpath : InDownloads (typed t) (downloadsPath ++ 47 :: name) :=
      ⟨name, htyped name (List.mem_singleton_self name), hvalid, rfl⟩
    rcases hc with rfl | rfl
    · exact Or.inr (Or.inl hpath)
    · exact hpath
  · obtain ⟨file, error⟩ := r
    have hlasting : Lasting Traced Wanting (Writes name file) := lasting_guarded (lasts_writes file)
    have hrecv : ∀ n t a t', Writes name file t → Traced (I := Sys) t (.recv n) a t' →
        Wanting t (.recv n) a t' ∧ Writes name file t' := fun n => guarded_recv (lasts_writes file) n
    exact .bind (hlasting.receiveChunks (wants_writeChunk hvalid file) (fun _ _ => hrecv _) _ _)
      fun errorOccured => .bind (hlasting.receiveLastChunk (wants_writeChunk hvalid file)
      (fun _ _ => hrecv _) _ errorOccured) fun _ => .bind (hlasting.call (by simp)) fun _ =>
      .pure _ fun _ _ h => h.1

theorem uses_downloadFile : Uses (downloadFile P) := by
  refine uses_readFileName fun name hvalid => ?_
  refine .bind (wants_sendPacket _) fun _ => .bind (wants_expectPacket _ _) fun payload => ?_
  dsimp only
  split_ifs
  · exact .bind (wants_sys (by simp)) fun _ => passes_pure _
  · exact wants_receiveFile hvalid _

theorem wants_printNames (names : List Buffer) : Wants lines (printNames names) := by
  induction names with
  | nil => exact passes_pure _
  | cons name names ih => exact .bind (wants_sys (by simp)) fun _ => ih

theorem wants_receiveList (size : Nat) : Wants lines (receiveList P size) := by
  refine .bind (wants_receiveFrame _) fun r => ?_
  cases r with
  | none => exact passes_pure _
  | some r =>
      obtain ⟨counter, payload, wrapper⟩ := r
      refine .bind (lasting_wanting.checkCounter _ _ _) fun _ => .bind (passes_of_only
        (only_readList (A := fun _ => False) _ _) fun _ _ _ _ ho => ho.elim) fun data =>
        .bind (wants_sys (by simp)) fun beyond => .bind (wants_printNames _) fun _ =>
        .bind lasting_wanting.advanceReceive fun _ => passes_pure _

theorem wants_reportCode (done failed : Report) (code : UInt8) :
    Wants lines (reportCode done failed code) := by
  unfold reportCode
  split_ifs
  · exact .bind (wants_sys (by simp)) fun _ => passes_pure _
  · exact .bind (wants_sys (by simp)) fun _ => passes_pure _
  · exact .bind (wants_sys (by simp)) fun _ => passes_pure _
  · exact passes_pure _

theorem uses_of_wants {r : Member Int} (h : Wants [] r) : Uses r :=
  (ends_of_wants h).conseq (fun _ t _ => hasTyped_nil t) (fun _ _ _ => id) fun _ _ _ => id

theorem uses_listFiles : Uses (listFiles P) := by
  apply uses_of_wants
  refine .bind (wants_sendPacket _) fun _ => .bind (wants_expectPacket _ _) fun payload => ?_
  dsimp only
  split_ifs
  · exact .bind (wants_sys (by simp)) fun _ => passes_pure _
  · exact wants_receiveList _

theorem uses_renameFile : Uses (renameFile P) := by
  refine uses_readFileName fun name _ => .bind wants_readFileName fun newName => ?_
  have hrest : Wants [name] (Member.sendPacket P (RenameM1.new name newName).serialize >>= fun _ =>
      Member.expectPacket P Ack.getSize 0 >>= fun payload =>
        reportCode .renamed .renameFailed (Ack.deserialize payload).ackCode) :=
    .bind (wants_sendPacket _) fun _ => .bind (wants_expectPacket _ _) fun payload => wants_reportCode _ _ _
  exact fun x t htyped => hrest x t fun line hline => htyped.1 line (List.mem_cons_of_mem _ hline)

theorem uses_deleteFile : Uses (deleteFile P) :=
  uses_readFileName fun _ _ => .bind (wants_sendPacket _) fun _ => .bind (wants_expectPacket _ _)
    fun _ => wants_reportCode _ _ _

theorem uses_logout : Uses (logout P) := by
  apply uses_of_wants
  refine .bind (wants_sendPacket _) fun _ => .bind (wants_expectPacket _ _) fun payload => ?_
  split_ifs
  · exact passes_pure _
  · exact .bind (passes_modify _) fun _ => .bind (wants_sys (by simp)) fun _ => passes_pure _

/-! ## The session -/

theorem uses_returning {r : Member Int} (h : Uses r) : Uses (returning r) :=
  passes_returning (fun _ => trivial) h

theorem uses_handleMenuChoice (choice : Buffer) : Uses (handleMenuChoice P choice) := by
  unfold handleMenuChoice
  split
  · exact passes_pure _
  · exact uses_returning uses_uploadFile
  · exact uses_returning uses_downloadFile
  · exact uses_returning uses_listFiles
  · exact uses_returning uses_renameFile
  · exact uses_returning uses_deleteFile
  · exact uses_returning uses_logout
  · exact passes_pure _

/-- The menu makes only wanted calls, by induction on its bound. -/
theorem uses_menuLoop (n : Nat) (choice : Buffer) : Uses (menuLoop P n choice) := by
  induction n generalizing choice with
  | zero => exact passes_exit _
  | succ n ih =>
      have hline : Passes Traced Wanting (HasTyped []) getline fun r => HasTyped [r.1.getD []] := wants_getline
      refine .bind (P := fun _ _ _ => True) (hline.conseq (fun _ t _ => hasTyped_nil t)
        (fun _ _ _ _ => trivial) fun _ _ _ => id) fun r => ?_
      obtain ⟨line, good⟩ := r
      refine .bind (uses_handleMenuChoice _) fun result => ?_
      split_ifs
      · exact passes_exit _
      · exact .pure _ fun _ _ _ => trivial
      · exact ih _

/-- **A client touches only what its user has named.** Whatever the server sends, in every run of `start`, on
    any machine and with any network, it looks at, opens and reads only files whose paths were typed in before,
    and makes and writes only files in its downloads folder, each under a valid name that was typed in
    before. -/
theorem files_typed (P : Platform) (n : Nat) (x : Session) (h h' : Host)
    (q : Program Sys (Except Exit Int × Session)) (t front rest : List Handshake.Event) (call : FileCall)
    (a : call.Ans) (hrun : Program.Reaches (Program.Logged Host.anyEnv) (start P n x, h, []) (q, h', t))
    (hcall : t = front ++ ⟨.sys (.file call), a⟩ :: rest) : Wanted (typed front) front call := by
  have hlogin : Proves (fun _ => True) [] (login P) fun _ _ _ => True :=
    proves_login.conseq (fun _ _ => id) (fun _ _ _ _ => trivial) fun _ _ _ => id
  have hrest : Gated (fun t c => Wanted (typed t) t c) (fun _ _ => True) (menuLoop P n []) :=
    (uses_menuLoop n []).conseq (fun _ _ => id) (fun _ _ _ => id) fun _ _ _ => id
  exact (gated_start hlogin hrest).before hrun hcall

/-- A client that logs in and downloads a file `a` of one byte. -/
def downloading : Program Sys (Except Exit Int × Session) × Host :=
  (start (.aes .little) 1 (.start [] []), .start .root ⟨ascii "user1\nsecret\n2\na\n", false, false⟩)

def downloadServed : List Choice :=
  List.replicate 31 { Choice.grant with bytes := [1] } ++
    .deliver (sealedFrame 0 ((DownloadAck 0 1).serialize .little)) :: List.replicate 6 .calm ++
    .deliver (sealedFrame 1 [RequestCodes.downloadChunk, 97]) :: List.replicate 4 .calm

set_option maxRecDepth 20000 in
/-- The byte is written to a stream that the opening of a file in the downloads folder has given. -/
theorem files_typed_downloading : ∃ (front : List Handshake.Event) (handle : Nat) (data : Buffer) (a : Bool)
    (rest : List Handshake.Event), Host.events downloadServed downloading =
      front ++ ⟨.sys (.file (.write handle data)), a⟩ :: rest ∧
        ∃ path, InDownloads (typed front) path ∧ WriteStream front path handle := by
  have hwrites : ∃ e ∈ Host.events downloadServed downloading, Worker.writing e := by decide +kernel
  obtain ⟨e, he, hwrite⟩ := hwrites
  obtain ⟨front, rest, hsplit⟩ := List.append_of_mem he
  unfold Worker.writing at hwrite
  split at hwrite
  · rename_i handle data a
    have hrun := Host.reaches_events downloadServed (p := downloading.1) downloading.2 []
    rw [List.nil_append] at hrun
    exact ⟨front, handle, data, a, rest, hsplit,
      files_typed _ 1 _ _ _ _ _ front rest (.write handle data) a hrun hsplit⟩
  · cases hwrite

end Client

end CloudStorage
