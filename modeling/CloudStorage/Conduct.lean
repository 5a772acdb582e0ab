import CloudStorage.Calls

set_option autoImplicit false

/-! # Conduct

Every function of client and worker is made of the same few calls: it sends packets, receives,
checks and counts frames, and for the rest makes calls that leave no trace in the log. A `Conduct` is
an invariant that these calls keep, with the assumption on the environment under which they do; this
module derives that every function, and so a whole session, keeps it. -/

namespace CloudStorage

open Interaction Interaction.Routine

/-- An early end in a state that meets `ready`, or one after which the session does not go on. -/
def LeftOver {S : Type} (ready : Session → S → Prop) (e : Exit) (x : Session) (s : S) : Prop :=
  ∀ n, e = .returned n → n = -1 ∨ ready x s

/-- The calls besides those of a frame's way keep `K`. -/
def Quiet {S : Type} (rely guar : Transition Sys S) (K : Session → S → Prop) : Prop :=
  ∀ x s o a s', Unlogged o → K x s → rely s o a s' → guar s o a s' ∧ K x s'

/-- An invariant of a session. `ready` holds while no frame is under way, `opened` of a frame that
    was received and opened, `accepting` from its acceptance until it is counted, `left` where a
    function ends early, and `closed` once the client has cleared its key. -/
structure Conduct (P : Platform) (S : Type) where
  rely : Transition Sys S
  guar : Transition Sys S
  ready : Session → S → Prop
  opened : Int × Buffer × Buffer → Session → S → Prop
  accepting : Session → S → Prop
  left : Exit → Session → S → Prop
  left_ready : ∀ e x s, ready x s → left e x s
  left_accepting : ∀ x s, accepting x s → left .undefined x s
  ready_quiet : Quiet rely guar ready
  accepting_quiet : Quiet rely guar accepting
  garbage : ∀ u, Triple rely guar ready (Member.garbage u) (fun _ => ready) left
  sendPacket : ∀ payload,
    Triple rely guar ready (Member.sendPacket P payload) (fun _ => ready) left
  receiveFrame : ∀ n, Triple rely guar ready (Member.receiveFrame P n) (fun r x s => match r with
    | none => ready x s
    | some f => opened f x s) left
  checkCounter : ∀ c p w, Triple rely guar (opened (c, p, w)) (Member.checkCounter c p w)
    (fun _ => accepting) left
  advanceReceive : Triple rely guar accepting Member.advanceReceive (fun _ => ready) left
  workerLogout : Triple rely guar ready (Worker.logout P) (fun _ _ _ => True) fun _ _ _ => True
  closed : Session → S → Prop
  close : ∀ x s, ready x s → closed { x with sessionKey := [] } s
  closed_quiet : Quiet rely guar closed

/-- A function of quiet calls keeps what they keep. -/
theorem Quiet.of_only {S α : Type} {rely guar : Transition Sys S} {K : Session → S → Prop}
    {E : Exit → Session → S → Prop} (hK : Quiet rely guar K) {X : Exit → Prop} {r : Member α}
    (hr : Only Unlogged X r) (hX : ∀ e x s, X e → K x s → E e x s) :
    Triple rely guar K r (fun _ => K) E :=
  (hr.triple hK).conseq (fun _ _ => id) (fun _ _ _ => id) fun e x s he => hX e x s he.1 he.2

theorem Quiet.sys {S : Type} {rely guar : Transition Sys S} {K : Session → S → Prop}
    {E : Exit → Session → S → Prop} (hK : Quiet rely guar K) (o : SysCall) (ho : Unlogged (.sys o)) :
    Triple rely guar K (Member.sys o) (fun _ => K) E :=
  hK.of_only (Member.only_sys (X := fun _ => False) ho) fun _ _ _ h => h.elim

variable {P : Platform} {S : Type}

namespace Conduct

variable (D : Conduct P S)

/-- The triples of this module. -/
abbrev Meets {α : Type} (Pre : Session → S → Prop) (r : Member α) (Post : α → Session → S → Prop) :
    Prop :=
  Triple D.rely D.guar Pre r Post D.left

/-- A function that keeps the invariant. -/
abbrev Keeps {α : Type} (r : Member α) : Prop := D.Meets D.ready r fun _ => D.ready

/-- A session goes on after an early end only with everything counted. -/
def GoesOn : Prop :=
  ∀ e x s, D.left e x s ↔ LeftOver D.ready e x s

variable {D}

theorem keeps_of_only {α : Type} {X : Exit → Prop} {r : Member α} (hr : Only Unlogged X r) :
    D.Keeps r :=
  D.ready_quiet.of_only hr fun e x s _ h => D.left_ready e x s h

theorem keeps_sys (o : SysCall) (ho : Unlogged (.sys o)) : D.Keeps (Member.sys o) :=
  D.ready_quiet.sys o ho

/-- A function that talks only to the file system. -/
theorem keeps_onFile {α : Type} {X : Exit → Prop} {p : FileCall → Prop} {r : Member α}
    (hr : Only (OnFile p) X r) : D.Keeps r :=
  keeps_of_only (hr.mono OnFile.unlogged fun _ => id)

/-- An early end with no frame under way. -/
theorem keeps_throw {α : Type} (e : Exit) {Post : α → Session → S → Prop} :
    D.Meets D.ready (Routine.throw e : Member α) Post :=
  .throw e (D.left_ready e)

/-- An early end of a session that goes on, other than by a `return`. -/
theorem GoesOn.exit {α : Type} (hD : D.GoesOn) {e : Exit} (he : ∀ n, e ≠ .returned n)
    {Pre : Session → S → Prop} {Post : α → Session → S → Prop} :
    D.Meets Pre (Routine.throw e : Member α) Post :=
  .throw e fun x s _ => (hD e x s).2 fun n hn => absurd hn (he n)

theorem keeps_receivePacket (n : Nat) : D.Keeps (Member.receivePacket P n) := by
  refine .bind (D.receiveFrame n) fun r => ?_
  match r with
  | none => exact .pure _ fun _ _ h => h
  | some (c, p, w) =>
      exact .bind (D.checkCounter c p w) fun _ => .bind D.advanceReceive fun _ =>
        .pure _ fun _ _ h => h

theorem keeps_expectPacket (n : Nat) (result : Int) : D.Keeps (Member.expectPacket P n result) := by
  refine .bind (keeps_receivePacket n) fun r => ?_
  match r with
  | none => exact keeps_throw _
  | some payload => exact .pure _ fun _ _ h => h

/-! ## The shared functions -/

theorem keeps_sendChunk (m2 : Buffer → ChunkM2) (file : File) (n : Nat) :
    D.Keeps (Member.sendChunk P m2 file n) := by
  refine .bind (keeps_onFile (file.only_readChunk n)) fun chunk => ?_
  split
  · exact keeps_throw _
  · exact D.sendPacket _

theorem keeps_sendChunks (m2 : Buffer → ChunkM2) (file : File) (n : Nat) :
    D.Keeps (Member.sendChunks P m2 file n) := by
  induction n with
  | zero => exact .pure _ fun _ _ h => h
  | succ n ih => exact .bind (keeps_sendChunk m2 file _) fun _ => ih

theorem keeps_sendLastChunk (m2 : Buffer → ChunkM2) (file : File) (n : Nat) :
    D.Keeps (Member.sendLastChunk P m2 file n) := by
  unfold Member.sendLastChunk
  split
  · exact keeps_sendChunk m2 file n
  · exact .pure _ fun _ _ h => h

theorem keeps_readName (field : Buffer) :
    D.Keeps (Member.readName field) :=
  keeps_of_only ((Member.only_readName (X := fun _ => False) field).mono (fun _ h => h ▸ trivial)
    fun _ => id)

theorem keeps_create (path : Buffer) (f : File) :
    D.Keeps (f.create path) :=
  keeps_onFile (f.only_create (X := fun _ => False) path)

theorem keeps_read (path : Buffer) (f : File) :
    D.Keeps (f.read path) :=
  keeps_onFile (f.only_read (X := fun _ => False) path)

/-- What a call of a member function yields: -1, or everything counted. -/
theorem keeps_returning (hD : D.GoesOn) {r : Member Int} (hr : D.Keeps r) :
    D.Meets D.ready (Member.returning r) fun n x s => n = -1 ∨ D.ready x s := by
  refine .catchExit (hr.conseq (fun _ _ => id) (fun _ _ _ => Or.inr) fun _ _ _ => id) fun e => ?_
  cases e with
  | returned n => exact fun x s he => (hD _ x s).1 he n rfl
  | _ => exact hD.exit (by simp)

theorem keeps_receiveChunks {write : Bool → Buffer → Member Unit}
    (hwrite : ∀ b chunk, D.Keeps (write b chunk)) (n : Nat)
    (b : Bool) : D.Keeps (Member.receiveChunks P write n b) := by
  induction n generalizing b with
  | zero => exact .pure _ fun _ _ h => h
  | succ n ih =>
      refine .bind (keeps_receivePacket _) fun r => ?_
      match r with
      | none => exact ih true
      | some payload => exact .bind (hwrite b _) fun _ => ih b

theorem keeps_receiveLastChunk {write : Bool → Buffer → Member Unit}
    (hwrite : ∀ b chunk, D.Keeps (write b chunk)) (n : Nat)
    (b : Bool) :
    D.Keeps (Member.receiveLastChunk P write b n) := by
  unfold Member.receiveLastChunk
  split
  · exact .bind (keeps_expectPacket _ _) fun payload => hwrite b _
  · exact .pure _ fun _ _ h => h

end Conduct

open Conduct

variable {D : Conduct P S}

namespace Worker

theorem keeps_writeChunk (file : File) (b : Bool) (chunk : Buffer) :
    D.Keeps (writeChunk file b chunk) :=
  keeps_onFile (file.only_writeChunk chunk)

theorem keeps_uploadFile (payload : Buffer) :
    D.Keeps (uploadFile P payload) := by
  refine .bind (keeps_readName _) fun name => .bind (.get fun _ _ h => h) fun s =>
    .bind (keeps_onFile (File.only_exists _)) fun found => .bind (D.sendPacket _) fun _ =>
    .bind (keeps_create _ _) fun r => ?_
  obtain ⟨file, error⟩ := r
  cases error with
  | some e => exact .pure _ fun _ _ h => h
  | none =>
      exact .bind (keeps_receiveChunks (keeps_writeChunk file) _ _) fun b =>
        .bind (keeps_receiveLastChunk (keeps_writeChunk file) _ _) fun _ =>
        .bind (D.sendPacket _) fun _ => .pure _ fun _ _ h => h

theorem keeps_sendFile (file : File) :
    D.Keeps (sendFile P file) :=
  .bind (keeps_sendChunks _ file _) fun _ => .bind (keeps_sendLastChunk _ file _) fun _ =>
    .pure _ fun _ _ h => h

theorem keeps_downloadFile (payload : Buffer) :
    D.Keeps (downloadFile P payload) := by
  refine .bind (keeps_readName _) fun name => .bind (.get fun _ _ h => h) fun s =>
    .bind (D.garbage _) fun unset => .bind (keeps_read _ _) fun r => ?_
  obtain ⟨file, error⟩ := r
  exact .bind (keeps_of_only (only_markRefused (X := fun _ => False) _ _))
    fun _ => .bind (D.sendPacket _) fun _ => keeps_sendFile file

theorem keeps_sendList (fileNames : Buffer) :
    D.Keeps (sendList P fileNames) := by
  unfold sendList
  split
  · exact keeps_throw _
  · exact .bind (D.sendPacket _) fun _ => .pure _ fun _ _ h => h

theorem keeps_listFiles : D.Keeps (listFiles P) := by
  refine .bind (.get fun _ _ h => h) fun s =>
    .bind (keeps_onFile (Member.only_isDirectory _)) fun isDir => ?_
  split
  · exact .bind (keeps_onFile (File.only_getFileNames (X := fun _ => False) _)) fun _ => .bind (D.sendPacket _)
      fun _ => keeps_sendList _
  · exact .bind (D.sendPacket _) fun _ => .pure _ fun _ _ h => h

theorem keeps_renameFile (payload : Buffer) :
    D.Keeps (renameFile P payload) :=
  .bind (keeps_readName _) fun _ => .bind (keeps_readName _) fun _ => .bind (.get fun _ _ h => h)
    fun _ => .bind (keeps_onFile (only_renameCode _ _)) fun _ => .bind (D.sendPacket _)
      fun _ => .pure _ fun _ _ h => h

theorem keeps_deleteFile (payload : Buffer) :
    D.Keeps (deleteFile P payload) :=
  .bind (keeps_readName _) fun _ => .bind (.get fun _ _ h => h)
    fun _ => .bind (keeps_onFile (only_deleteCode _)) fun _ => .bind (D.sendPacket _)
      fun _ => .pure _ fun _ _ h => h

theorem keeps_command (hD : D.GoesOn) (code : UInt8) (payload : Buffer) :
    D.Meets D.ready (command P code payload) fun n x s =>
      n = -1 ∨ code = RequestCodes.logoutReq ∨ D.ready x s := by
  have hhandler : ∀ {r : Member Int}, D.Keeps r → D.Meets D.ready (Member.returning r) fun n x s =>
      n = -1 ∨ code = RequestCodes.logoutReq ∨ D.ready x s := fun hr =>
    (keeps_returning hD hr).conseq (fun _ _ => id) (fun _ _ _ h => h.imp_right Or.inr) fun _ _ _ => id
  unfold command
  split_ifs with _ _ _ _ _ hlogout
  · exact hhandler (keeps_uploadFile payload)
  · exact hhandler (keeps_downloadFile payload)
  · exact hhandler keeps_listFiles
  · exact hhandler (keeps_renameFile payload)
  · exact hhandler (keeps_deleteFile payload)
  · refine .catchExit (D.workerLogout.conseq (fun _ _ => id) (fun _ _ _ _ => Or.inr (Or.inl hlogout))
      fun _ _ _ => id) fun e => ?_
    cases e with
    | returned n => exact fun _ _ _ => Or.inr (Or.inl hlogout)
    | _ => exact hD.exit (by simp)
  · exact .bind (D.garbage _) fun _ => .pure _ fun _ _ h => Or.inr (Or.inr h)

/-- The command loop, by induction on its bound: each round starts with everything counted. -/
theorem keeps_commandLoop (hD : D.GoesOn) (n : Nat) :
    D.Meets D.ready (commandLoop P n) fun _ _ _ => True := by
  induction n with
  | zero => exact hD.exit (by simp)
  | succ n ih =>
      refine .bind (keeps_expectPacket _ _) fun payload =>
        .bind (keeps_command hD _ payload) fun result => ?_
      split_ifs with hend hlogout
      · exact hD.exit (by simp)
      · exact .pure _ fun _ _ _ => trivial
      · exact ih.weaken fun _ _ h => (h.resolve_left hend).resolve_left hlogout

end Worker

namespace Client

theorem keeps_print (r : Report) : D.Keeps (Member.print r) := keeps_sys _ trivial

theorem keeps_uploadChunks (file : File) :
    D.Keeps (uploadChunks P file) := by
  refine .bind (keeps_expectPacket _ _) fun payload => ?_
  split
  · exact .bind (keeps_print _) fun _ => .pure _ fun _ _ h => h
  · refine .bind (keeps_sendChunks _ file _) fun _ => .bind (keeps_sendLastChunk _ file _)
      fun _ => .bind (keeps_expectPacket _ _) fun payload => ?_
    split <;> exact .bind (keeps_print _) fun _ => .pure _ fun _ _ h => h

theorem keeps_uploadFile : D.Keeps (uploadFile P) := by
  refine .bind (keeps_sys .getline trivial) fun line => ?_
  obtain ⟨line, good⟩ := line
  refine .bind (keeps_of_only (only_warnInvalid (X := fun _ => False) _))
    fun _ => .bind (D.garbage _) fun unset => .bind (keeps_read _ _) fun r => ?_
  obtain ⟨file, error⟩ := r
  dsimp only
  split
  · exact .pure _ fun _ _ h => h
  · exact .bind (D.sendPacket _) fun _ => keeps_uploadChunks file

theorem keeps_readFileName : D.Keeps readFileName :=
  keeps_of_only only_readFileName

theorem keeps_writeChunk (file : File) (b : Bool) (chunk : Buffer) :
    D.Keeps (writeChunk file b chunk) := by
  unfold writeChunk
  split
  · exact .pure _ fun _ _ h => h
  · exact keeps_onFile (file.only_writeChunk chunk)

theorem keeps_makeDownloads : D.Keeps makeDownloads :=
  keeps_onFile only_makeDownloads

theorem keeps_receiveFile (fileName : Buffer) (fileSize : Nat) :
    D.Keeps (receiveFile P fileName fileSize) := by
  refine .bind keeps_makeDownloads fun _ => .bind (keeps_create _ _) fun r => ?_
  obtain ⟨file, error⟩ := r
  exact .bind (keeps_receiveChunks (keeps_writeChunk file) _ _) fun _ =>
    .bind (keeps_receiveLastChunk (keeps_writeChunk file) _ _) fun _ =>
    .bind (keeps_print _) fun _ => .pure _ fun _ _ h => h

theorem keeps_downloadFile : D.Keeps (downloadFile P) := by
  refine .bind keeps_readFileName fun _ => .bind (D.sendPacket _) fun _ =>
    .bind (keeps_expectPacket _ _) fun payload => ?_
  dsimp only
  split
  · exact .bind (keeps_print _) fun _ => .pure _ fun _ _ h => h
  · exact keeps_receiveFile _ _

/-- The list is printed while its frame is accepted and not yet counted. -/
theorem keeps_receiveList (size : Nat) : D.Keeps (receiveList P size) := by
  refine .bind (D.receiveFrame _) fun r => ?_
  match r with
  | none => exact .pure _ fun _ _ h => h
  | some (c, p, w) =>
      refine .bind (D.checkCounter c p w) fun _ =>
        .bind (D.accepting_quiet.of_only (only_readList _ _) fun e x s he h => ?_) fun data => ?_
      · exact he ▸ D.left_accepting x s h
      · exact .bind (D.accepting_quiet.sys .overrun trivial) fun beyond =>
          .bind (D.accepting_quiet.of_only (only_printNames (X := fun _ => False) _)
            fun _ _ _ h => h.elim)
          fun _ => .bind D.advanceReceive fun _ => .pure _ fun _ _ h => h

theorem keeps_listFiles : D.Keeps (listFiles P) := by
  refine .bind (D.sendPacket _) fun _ => .bind (keeps_expectPacket _ _) fun payload => ?_
  dsimp only
  split
  · exact .bind (keeps_print _) fun _ => .pure _ fun _ _ h => h
  · exact keeps_receiveList _

theorem keeps_reportCode (done failed : Report) (code : UInt8) :
    D.Keeps (reportCode done failed code) :=
  keeps_of_only (only_reportCode (X := fun _ => False) done failed code)

theorem keeps_renameFile : D.Keeps (renameFile P) :=
  .bind keeps_readFileName fun _ => .bind keeps_readFileName fun _ => .bind (D.sendPacket _)
    fun _ => .bind (keeps_expectPacket _ _) fun _ => keeps_reportCode _ _ _

theorem keeps_deleteFile : D.Keeps (deleteFile P) :=
  .bind keeps_readFileName fun _ => .bind (D.sendPacket _)
    fun _ => .bind (keeps_expectPacket _ _) fun _ => keeps_reportCode _ _ _

/-- A function that does not return -2, which stands for a choice that was no number. -/
abbrev NeverInvalid {α : Type} (r : Member α) (Q : α → Prop) : Prop :=
  Triple (S := S) (fun _ _ _ _ => True) (fun _ _ _ _ => True) (fun _ _ => True) r (fun a _ _ => Q a)
    fun e _ _ => ∀ n, e = .returned n → n ≠ -2

theorem neverInvalid_sendPacket (payload : Buffer) :
    NeverInvalid (S := S) (Member.sendPacket P payload) fun _ => True := by
  refine .bind (P := fun _ _ _ => True) (.get fun _ _ _ => trivial) fun s =>
    .bind (P := fun _ _ _ => True) ?_ fun w => ?_
  · refine ((Wrapper.only_serialize (X := fun _ => False) P _ _ _).triple (K := fun _ _ => True)
      fun _ _ _ _ _ _ _ _ => ⟨trivial, trivial⟩).conseq (fun _ _ => id) (fun _ _ _ => id)
      fun _ _ _ he => he.1.elim
  · intro x s _
    simp only [Member.sendFrame, Member.advanceSend, sat_bind, Member.sat_sendData, sat_require,
      sat_get, sat_modify, Member.sat_note]
    refine fun _ _ _ => ⟨trivial, fun _ _ _ _ => ⟨trivial, ?_⟩, fun _ n hn => by cases hn; decide⟩
    split_ifs
    · exact fun n hn => by cases hn; decide
    · trivial

theorem neverInvalid_expectPacket (n : Nat) :
    NeverInvalid (S := S) (Member.expectPacket P n 0) fun _ => True := by
  intro x s _
  simp only [Member.expectPacket, Member.expect, Member.receivePacket, Member.receiveFrame, sat_bind]
  split
  · exact fun n hn => by cases hn
  · simp only [sat_bind, Member.sat_receiveData]
    refine fun r s' _ => ⟨trivial, ?_⟩
    cases r with
    | none => exact fun n hn => by cases hn; decide
    | some w =>
        simp only [sat_bind, sat_get, Wrapper.deserialize]
        split_ifs
        · exact fun n hn => by cases hn
        · exact fun n hn => by cases hn
        · simp only [sat_pure]
          cases Wrapper.openFrame P x.sessionKey w with
          | none => exact fun n hn => by cases hn; decide
          | some payload =>
              simp only [Option.map_some, sat_bind, Member.checkCounter, Member.advanceReceive, sat_get]
              split_ifs
              · exact fun n hn => by cases hn; decide
              · refine fun _ _ _ => ⟨trivial, ?_⟩
                refine fun _ _ _ => ⟨trivial, ?_⟩
                split_ifs
                · exact fun n hn => by cases hn; decide
                · trivial

theorem neverInvalid_logout : NeverInvalid (S := S) (logout P) fun n => n ≠ -2 := by
  refine .bind (neverInvalid_sendPacket _) fun _ => .bind (neverInvalid_expectPacket _)
    fun payload => ?_
  split
  · exact .pure _ fun _ _ _ => by decide
  · exact fun _ _ _ _ _ _ => ⟨trivial, show (1 : Int) ≠ -2 by decide⟩

theorem meets_logout :
    Triple D.rely D.guar D.ready (logout P) (fun _ _ _ => True) fun _ _ _ => True := by
  have hleft : ∀ {e : Exit} {x : Session} {s : S}, D.left e x s → True := fun _ => trivial
  refine .bind ((D.sendPacket _).conseq (fun _ _ => id) (fun _ _ _ => id) fun _ _ _ => hleft)
    fun _ => .bind ((keeps_expectPacket _ _).conseq (fun _ _ => id) (fun _ _ _ => id)
      fun _ _ _ => hleft) fun payload => ?_
  split
  · exact .pure _ fun _ _ _ => trivial
  · refine .bind (P := fun _ => D.closed) (fun x s hs => D.close x s hs) fun _ => ?_
    exact .bind ((D.closed_quiet.sys (E := D.left) (.print .sessionEnded) trivial).conseq
      (fun _ _ => id) (fun _ _ _ => id) fun _ _ _ => hleft) fun _ => .pure _ fun _ _ _ => trivial

/-- A logout, where the session key does not matter. -/
theorem keeps_logout (hclear : ∀ x s, D.ready x s → D.ready { x with sessionKey := [] } s) :
    D.Keeps (logout P) := by
  refine .bind (D.sendPacket _) fun _ => .bind (keeps_expectPacket _ _) fun payload => ?_
  split
  · exact .pure _ fun _ _ h => h
  · exact .bind (P := fun _ => D.ready) hclear fun _ => .bind (keeps_print _) fun _ =>
      .pure _ fun _ _ h => h

/-- The session goes on only where the choice is not the logout. -/
theorem keeps_handleMenuChoice (hD : D.GoesOn) (choice : Buffer) :
    D.Meets D.ready (handleMenuChoice P choice) fun n x s =>
      n = -1 ∨ (n ≠ -2 ∧ stoi choice = some logoutOption) ∨ D.ready x s := by
  have hhandler : ∀ {r : Member Int}, D.Keeps r → D.Meets D.ready (Member.returning r) fun n x s =>
      n = -1 ∨ (n ≠ -2 ∧ stoi choice = some logoutOption) ∨ D.ready x s := fun hr =>
    (keeps_returning hD hr).conseq (fun _ _ => id) (fun _ _ _ h => h.imp_right Or.inr) fun _ _ _ => id
  unfold handleMenuChoice
  split
  · exact .pure _ fun _ _ h => Or.inr (Or.inr h)
  · exact hhandler keeps_uploadFile
  · exact hhandler keeps_downloadFile
  · exact hhandler keeps_listFiles
  · exact hhandler keeps_renameFile
  · exact hhandler keeps_deleteFile
  · rename_i hlogout
    refine .catchExit ((meets_logout.and neverInvalid_logout).conseq (fun _ _ h => ⟨h, trivial⟩)
      (fun _ _ _ hn => Or.inr (Or.inl ⟨hn.2, hlogout⟩)) fun _ _ _ he => he.2) fun e => ?_
    cases e with
    | returned n => exact fun _ _ hn => Or.inr (Or.inl ⟨hn n rfl, hlogout⟩)
    | _ => exact hD.exit (by simp)
  · exact .pure _ fun _ _ h => Or.inr (Or.inr h)

theorem keeps_menuLoop (hD : D.GoesOn) (n : Nat) (choice : Buffer) :
    D.Meets D.ready (menuLoop P n choice) fun _ _ _ => True := by
  induction n generalizing choice with
  | zero => exact hD.exit (by simp)
  | succ n ih =>
      refine .bind (keeps_sys .getline trivial) fun line => ?_
      obtain ⟨line, good⟩ := line
      refine .bind (keeps_handleMenuChoice hD _) fun result => ?_
      split_ifs with hend hlogout
      · exact hD.exit (by simp)
      · exact .pure _ fun _ _ _ => trivial
      · exact (ih _).weaken fun _ _ h => (h.resolve_left hend).resolve_left hlogout

end Client

/-- A whole session keeps the invariant. -/
theorem Conduct.meets_program (hD : D.GoesOn) (side : Endpoint) (n : Nat) :
    D.Meets D.ready (side.program P n) fun _ _ _ => True := by
  cases side with
  | client => exact Client.keeps_menuLoop hD n []
  | worker => exact Worker.keeps_commandLoop hD n

end CloudStorage
