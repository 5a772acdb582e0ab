import CloudStorage.Confinement
import CloudStorage.Faults

set_option autoImplicit false

/-! # Isolation of the users

The calls of a worker are confined to its user's folder as long as the names it reads from requests
stay there: each handler reads its names first, and every path it uses afterwards is made of them
(`AtHome`). The two parts of isolation follow for whole runs, the second one by running the worker on
two stores side by side. -/

namespace CloudStorage

open Interaction Interaction.Routine

open Worker (folderPath filePath)

/-- The names that a handler reads from a request, with the memory behind its fields. -/
def requestNames (request beyond : Buffer) : List Buffer :=
  let code := commandCode request
  if code = RequestCodes.uploadReq ∨ code = RequestCodes.downloadReq ∨
      code = RequestCodes.deleteReq then
    [cstr ((NameM1.deserialize request).fileName.bytes ++ beyond)]
  else if code = RequestCodes.renameReq then
    let m1 := RenameM1.deserialize request
    [cstr (m1.fileName.bytes ++ m1.newFileName.bytes ++ beyond), cstr (m1.newFileName.bytes ++ beyond)]
  else []

/-- The names that are read from the request stay in the folder of `u`. -/
def FencedCall (u : Buffer) (h : Host) : (o : Sys.Op) → Sys.Ans o → Prop
  | .sys .overrun, (beyond : Buffer) => ∀ request, h.unanswered = some request →
      ∀ name ∈ requestNames request beyond, Fenced u h.fs name
  | _, _ => True

instance decidableFencedCall (u : Buffer) (h : Host) :
    (o : Sys.Op) → (a : Sys.Ans o) → Decidable (FencedCall u h o a)
  | .sys .overrun, (beyond : Buffer) =>
    match hr : h.unanswered with
    | none => .isTrue fun request hreq => by rw [hr] at hreq; cases hreq
    | some request => decidable_of_iff (∀ name ∈ requestNames request beyond, Fenced u h.fs name)
        ⟨fun hall _ hreq => by rw [hr] at hreq; cases hreq; exact hall, fun hall => hall request hr⟩
  | .send _, _ | .recv _, _ | .sys (.random _), _ | .sys (.file _), _ | .sys (.crypto _), _
  | .sys .getline, _ | .sys .clearAndIgnore, _ | .sys (.garbage _), _ | .sys (.print _), _
  | .sys (.note _), _ => .isTrue trivial

/-- Any machine and any network, with requests whose names stay. -/
def Fencing (u : Buffer) : Transition Sys Host := fun h o a h' =>
  Host.anyEnv h o a h' ∧ FencedCall u h o a

/-- Calls into the file system are confined. -/
def Walled (u : Buffer) : Transition Sys Host := fun h o _ _ =>
  ∀ c, o = .sys (.file c) → Confined u h.fs c

theorem walled_send {u : Buffer} {h h' : Host} {data : Buffer} {sent : Bool} :
    Walled u h (.send data) sent h' := fun _ heq => by cases heq

theorem walled_note {u : Buffer} {h h' : Host} {e : Note} {v : Unit} :
    Walled u h (.sys (.note e)) v h' := fun _ heq => by cases heq

/-- A session of `u` that has read these names. -/
def AtHome (u : Buffer) (names : List Buffer) (x : Session) (h : Host) : Prop :=
  x.username = u ∧ ∀ name ∈ names, Fenced u h.fs name

/-- The same, with the request still unanswered. -/
def Asking (u : Buffer) (names : List Buffer) (request : Buffer) (x : Session) (h : Host) : Prop :=
  AtHome u names x h ∧ h.unanswered = some request

/-- The triples of this module. -/
abbrev Walls (u : Buffer) {α : Type} (Pre : Session → Host → Prop) (r : Member α)
    (Post : α → Session → Host → Prop) : Prop :=
  Triple (Fencing u) (Walled u) Pre r Post fun _ => AtHome u []

variable {P : Platform} {u : Buffer} {names : List Buffer} {request : Buffer} {x : Session}
  {h h' : Host}

/-! ## Calls -/

theorem AtHome.nil (hK : AtHome u names x h) : AtHome u [] x h := ⟨hK.1, by simp⟩

/-- A confined call, or one that is none into the file system, leaves the session where it is. -/
theorem AtHome.step {o : Sys.Op} {a : Sys.Ans o} (hK : AtHome u names x h)
    (hstep : Host.anyEnv h o a h') (hwall : Walled u h o a h') : AtHome u names x h' := by
  obtain ⟨c, hc⟩ := hstep
  obtain rfl : (h.answer c o).2 = h' := congrArg Prod.snd hc
  refine ⟨hK.1, fun name hname => ?_⟩
  match o with
  | .sys (.file call) =>
      have hconf := hwall call rfl
      have hdirs : h.fs.SameDirs (call.answer c.fault h.fs).2 := by
        refine Fs.answer_sameDirs c.fault h.fs fun path hpath => ?_
        subst hpath
        exact hconf
      exact SameDirs.fenced hdirs (hK.2 name hname)
  | .send data =>
      have hfs : (h.answer c (.send data)).2.fs = h.fs := by
        simp only [Host.answer, Host.put]
        split_ifs <;> rfl
      rw [hfs]
      exact hK.2 name hname
  | .recv _ | .sys (.random _) | .sys (.crypto _) | .sys .getline | .sys .clearAndIgnore
  | .sys (.garbage _) | .sys .overrun | .sys (.print _) | .sys (.note _) => exact hK.2 name hname

/-- A function whose calls are confined. -/
theorem walls_of_only {α : Type} {A : Sys.Op → Prop} {X : Exit → Prop} {r : Member α}
    (hr : Only A X r)
    (hA : ∀ o, A o → ∀ x h, AtHome u names x h → ∀ c, o = .sys (.file c) → Confined u h.fs c) :
    Walls u (AtHome u names) r fun _ => AtHome u names := by
  refine (hr.triple fun x h o a h' ho hK hstep => ?_).conseq (fun _ _ => id) (fun _ _ _ => id)
    fun _ _ _ he => he.2.nil
  have hwall : Walled u h o a h' := hA o ho x h hK
  exact ⟨hwall, hK.step hstep.1 hwall⟩

/-- A function that does not call the file system. -/
theorem walls_of_quiet {α : Type} {A : Sys.Op → Prop} {X : Exit → Prop} {r : Member α}
    (hr : Only A X r) (hA : ∀ c, ¬A (.sys (.file c))) :
    Walls u (AtHome u names) r fun _ => AtHome u names :=
  walls_of_only hr fun _ ho _ _ _ c hc => absurd (hc ▸ ho) (hA c)

theorem walls_sys (o : SysCall) (ho : ∀ c, o ≠ .file c) :
    Walls u (AtHome u names) (Member.sys o) fun _ => AtHome u names :=
  walls_of_quiet (A := (· = .sys o)) (X := fun _ => False) (.call rfl)
    fun c (hc : NetOp.sys (.file c) = NetOp.sys o) => ho c (NetOp.sys.inj hc).symm

theorem walls_sendFrame (w : Buffer) :
    Walls u (AtHome u names) (Member.sendFrame w) fun _ => AtHome u names := by
  intro x h hK
  simp only [Member.sendFrame, Member.advanceSend, sat_bind, Member.sat_sendData, sat_require,
    sat_get, sat_modify, Member.sat_note]
  intro sent h₁ hsend
  have hK₁ : AtHome u names x h₁ := hK.step hsend.1 walled_send
  refine ⟨walled_send, fun _ v h₂ hnote => ⟨walled_note, ?_⟩, fun _ => hK₁.nil⟩
  have hK₂ : AtHome u names { x with sCounter := incrementCounter x.sCounter } h₂ :=
    hK₁.step hnote.1 walled_note
  split_ifs
  · exact hK₂.nil
  · exact hK₂

theorem walls_serialize (key : Buffer) (counter : Int) (payload : Buffer) :
    Walls u (AtHome u names) (Wrapper.serialize P key counter payload) fun _ => AtHome u names := by
  refine walls_of_quiet (A := fun o => ∀ c, o ≠ .sys (.file c)) (X := fun _ => False) ?_
    fun c hc => hc c rfl
  refine .bind (.call nofun) fun iv => ?_
  match iv with
  | none => exact .pure _
  | some iv =>
      dsimp only
      split
      · exact .pure _
      · exact .bind (.call nofun) fun _ => .pure _

theorem walls_sendPacket (payload : Buffer) :
    Walls u (AtHome u names) (Member.sendPacket P payload) fun _ => AtHome u names :=
  .bind (.get fun _ _ hK => hK) fun _ => .bind (walls_serialize _ _ _) walls_sendFrame

theorem walls_receiveFrame (n : Nat) :
    Walls u (AtHome u names) (Member.receiveFrame P n) fun _ => AtHome u names := by
  refine walls_of_quiet (A := fun o => ∀ c, o ≠ .sys (.file c)) (X := fun _ => True) ?_
    fun c hc => hc c rfl
  unfold Member.receiveFrame
  dsimp only
  split
  · exact .throw trivial
  · refine .bind (.call nofun) fun r => ?_
    match r with
    | none => exact .pure _
    | some w =>
        exact .bind .get fun s => .bind ((Wrapper.only_deserialize P _ _).mono (fun _ => id)
          fun _ _ => trivial) fun _ => .pure _

/-- The payload `p` was accepted last. -/
def Accepted (u p : Buffer) (x : Session) (h : Host) : Prop :=
  AtHome u [] x h ∧ ∃ c w before, h.notes = before ++ [Note.accepted c p w]

theorem walls_checkCounter (c : Int) (p w : Buffer) :
    Walls u (AtHome u []) (Member.checkCounter c p w) fun _ => Accepted u p := by
  intro x h hK
  simp only [Member.checkCounter, sat_bind, sat_get]
  split_ifs
  · exact hK
  · intro v h₁ hacc
    refine ⟨walled_note, hK.step hacc.1 walled_note, c, w, h.notes, ?_⟩
    rw [Host.anyEnv_note hacc.1]
    rfl

/-- A frame that is accepted and counted stands as the request to be answered. -/
theorem walls_advanceReceive (p : Buffer) :
    Walls u (Accepted u p) Member.advanceReceive fun _ => Asking u [] p := by
  rintro x h ⟨hK, c, w, before, hnotes⟩
  simp only [Member.advanceReceive, sat_bind, sat_get, sat_modify, Member.sat_note]
  intro v h₁ hcount
  have hK₁ : AtHome u [] { x with rCounter := incrementCounter x.rCounter } h₁ :=
    hK.step hcount.1 walled_note
  refine ⟨walled_note, ?_⟩
  split_ifs
  · exact hK₁
  · refine ⟨hK₁, ?_⟩
    rw [Host.anyEnv_note hcount.1]
    simp [Host.unanswered, Host.noted, hnotes]

theorem walls_receivePacket (n : Nat) :
    Walls u (AtHome u []) (Member.receivePacket P n) fun r x h =>
      AtHome u [] x h ∧ ∀ p, r = some p → h.unanswered = some p := by
  refine .bind (walls_receiveFrame n) fun r => ?_
  match r with
  | none => exact .pure _ fun _ _ hK => ⟨hK, nofun⟩
  | some (c, p, w) =>
      refine .bind (walls_checkCounter c p w) fun _ => .bind (walls_advanceReceive p) fun _ =>
        .pure _ fun x h hK => ⟨hK.1, fun p' hp' => ?_⟩
      cases hp'
      exact hK.2

theorem walls_expectPacket (n : Nat) (result : Int) :
    Walls u (AtHome u []) (Member.expectPacket P n result) fun p => Asking u [] p := by
  refine .bind (walls_receivePacket n) fun r => ?_
  match r with
  | none => exact .throw _ fun _ _ hK => hK.1
  | some p => exact .pure _ fun _ _ hK => ⟨hK.1, hK.2 p rfl⟩

/-- The names that are read stay. -/
theorem walls_readName {q field : Buffer}
    (hfield : ∀ beyond, cstr (field ++ beyond) ∈ requestNames q beyond) :
    Walls u (Asking u names q) (Member.readName field) fun name =>
      Asking u (name :: names) q := by
  rintro x h ⟨hK, hasked⟩ beyond h₁ ⟨henv, hfenced⟩
  have hK₁ : AtHome u names x h₁ := hK.step henv nofun
  obtain ⟨c, hc⟩ := henv
  obtain rfl : h = h₁ := congrArg Prod.snd hc
  refine ⟨nofun, ⟨hK.1, fun name hname => ?_⟩, hasked⟩
  rcases List.mem_cons.1 hname with rfl | hname
  · exact hfenced q hasked _ (hfield beyond)
  · exact hK.2 name hname

/-! ## Files -/

/-- A function on the file at a path that stays. -/
theorem walls_onPath {α : Type} {p : FileCall → Prop} {X : Exit → Prop} {r : Member α}
    (hr : Only (OnFile p) X r)
    (hp : ∀ c x h, p c → AtHome u names x h → Confined u h.fs c) :
    Walls u (AtHome u names) r fun _ => AtHome u names := by
  refine walls_of_only hr fun o ho x h hK c hc => ?_
  subst hc
  exact hp c x h ho hK

theorem walls_sendChunk (m2 : Buffer → ChunkM2) (file : File) (n : Nat) :
    Walls u (AtHome u []) (Member.sendChunk P m2 file n) fun _ => AtHome u [] := by
  refine .bind (walls_onPath (file.only_readChunk n) ?_) fun chunk => ?_
  · rintro c x h ⟨handle, -, rfl⟩ _
    trivial
  · split
    · exact .throw _ fun _ _ hK => hK
    · exact walls_sendPacket _

theorem walls_sendChunks (m2 : Buffer → ChunkM2) (file : File) (n : Nat) :
    Walls u (AtHome u []) (Member.sendChunks P m2 file n) fun _ => AtHome u [] := by
  induction n with
  | zero => exact .pure _ fun _ _ hK => hK
  | succ n ih => exact .bind (walls_sendChunk m2 file _) fun _ => ih

theorem walls_sendLastChunk (m2 : Buffer → ChunkM2) (file : File) (n : Nat) :
    Walls u (AtHome u []) (Member.sendLastChunk P m2 file n) fun _ => AtHome u [] := by
  unfold Member.sendLastChunk
  split
  · exact walls_sendChunk m2 file n
  · exact .pure _ fun _ _ hK => hK

theorem walls_writeChunk (file : File) (b : Bool) (chunk : Buffer) :
    Walls u (AtHome u []) (Worker.writeChunk file b chunk) fun _ => AtHome u [] := by
  refine walls_onPath (file.only_writeChunk chunk) ?_
  rintro c x h ⟨handle, -, rfl⟩ _
  trivial

theorem walls_receiveChunks (file : File) (n : Nat) (b : Bool) :
    Walls u (AtHome u []) (Member.receiveChunks P (Worker.writeChunk file) n b)
      fun _ => AtHome u [] := by
  induction n generalizing b with
  | zero => exact .pure _ fun _ _ hK => hK
  | succ n ih =>
      refine .bind (walls_receivePacket _) fun r => ?_
      match r with
      | none => exact (ih true).weaken fun _ _ hK => hK.1
      | some payload =>
          exact .bind ((walls_writeChunk file b _).weaken fun _ _ hK => hK.1) fun _ => ih b

theorem walls_receiveLastChunk (file : File) (n : Nat) (b : Bool) :
    Walls u (AtHome u []) (Member.receiveLastChunk P (Worker.writeChunk file) b n)
      fun _ => AtHome u [] := by
  unfold Member.receiveLastChunk
  split
  · exact .bind (walls_expectPacket _ _) fun payload =>
      (walls_writeChunk file b _).weaken fun _ _ hK => hK.1
  · exact .pure _ fun _ _ hK => hK

/-! ## The handlers -/

namespace Worker

variable (P)

/-- The file at the path of a name that stays. -/
theorem walls_exists {name : Buffer} (hname : name ∈ names) :
    Walls u (AtHome u names) (File.exists (filePath u name)) fun _ => AtHome u names := by
  refine walls_onPath (File.only_exists _) ?_
  rintro c x h rfl hK
  exact Or.inr ⟨name, rfl, hK.2 name hname⟩

theorem walls_receiveFile {name : Buffer} (hname : name ∈ names) (fileSize : Nat) :
    Walls u (AtHome u names) (receiveFile P (filePath u name) fileSize) fun _ => AtHome u [] := by
  refine .bind (P := fun _ => AtHome u names) (walls_onPath ((File.new 0).only_create
    (X := fun _ => False) _) ?_) fun r => ?_
  · rintro c x h hc hK
    have hpath : FencedPath u h.fs (filePath u name) := ⟨name, rfl, hK.2 name hname⟩
    rcases hc with rfl | rfl
    · exact Or.inr hpath
    · exact hpath
  · obtain ⟨file, error⟩ := r
    cases error with
    | some e => exact .pure _ fun _ _ hK => hK.nil
    | none =>
        exact Triple.weaken (.bind (walls_receiveChunks file _ _) fun b =>
          .bind (walls_receiveLastChunk file _ _) fun _ => .bind (walls_sendPacket _) fun _ =>
            .pure _ fun _ _ hK => hK) fun _ _ hK => hK.nil

/-- The object is read for its user. -/
theorem walls_get {α : Type} {K : Session → Host → Prop} {f : Session → Member α}
    {Q : α → Session → Host → Prop} (hK : ∀ x h, K x h → x.username = u)
    (hf : ∀ s, s.username = u → Walls u K (f s) Q) : Walls u K (Routine.get >>= f) Q := by
  intro x h hx
  rw [sat_bind, sat_get]
  exact hf x (hK x h hx) x h hx

theorem walls_uploadFile (hcode : commandCode request = RequestCodes.uploadReq) :
    Walls u (Asking u [] request) (uploadFile P request) fun _ => AtHome u [] := by
  refine .bind (walls_readName (q := request) fun beyond => ?_) fun name => ?_
  · rw [requestNames, if_pos (Or.inl hcode)]
    exact List.mem_singleton_self _
  · refine walls_get (fun _ _ hK => hK.1.1) fun s hs => ?_
    subst hs
    refine Triple.weaken (.bind (walls_exists (List.mem_singleton_self name)) fun found =>
      .bind (walls_sendPacket _) fun _ => ?_) fun _ _ hK => hK.1
    exact walls_receiveFile P (List.mem_singleton_self name) _

theorem walls_downloadFile (hcode : commandCode request = RequestCodes.downloadReq) :
    Walls u (Asking u [] request) (downloadFile P request) fun _ => AtHome u [] := by
  refine .bind (walls_readName (q := request) fun beyond => ?_) fun name => ?_
  · rw [requestNames, if_pos (Or.inr (Or.inl hcode))]
    exact List.mem_singleton_self _
  · refine walls_get (fun _ _ hK => hK.1.1) fun s hs => ?_
    subst hs
    refine Triple.weaken (.bind (walls_sys (.garbage .fileSize) nofun) fun unset =>
      .bind (P := fun _ => AtHome s.username [name])
        (walls_onPath ((File.new unset).only_read (X := fun _ => False) _) ?_) fun r => ?_)
      fun _ _ hK => hK.1
    · rintro c x h hc hK
      have hpath : FencedPath s.username h.fs (filePath s.username name) :=
        ⟨name, rfl, hK.2 name (List.mem_singleton_self name)⟩
      rcases hc with rfl | rfl | rfl
      · exact Or.inr hpath
      · exact hpath
      · exact hpath
    · obtain ⟨file, error⟩ := r
      refine Triple.weaken (.bind (P := fun _ => AtHome s.username []) ?_ fun _ =>
        .bind (walls_sendPacket _) fun _ => .bind (walls_sendChunks _ file _) fun _ =>
        .bind (walls_sendLastChunk _ file _) fun _ => .pure _ fun _ _ hK => hK) fun _ _ hK => hK.nil
      unfold markRefused
      split
      · exact walls_sys (.note _) nofun
      · exact .pure _ fun _ _ hK => hK

theorem walls_listFiles :
    Walls u (Asking u [] request) (listFiles P) fun _ => AtHome u [] := by
  refine walls_get (fun _ _ hK => hK.1.1) fun s hs => ?_
  subst hs
  refine Triple.weaken (K := AtHome s.username []) ?_ fun _ _ hK => hK.1
  have hstat : Walls s.username (AtHome s.username []) (Member.isDirectory (folderPath s.username))
      fun _ => AtHome s.username [] := by
    refine walls_onPath (Member.only_isDirectory _) ?_
    rintro c x h rfl hK
    exact Or.inl rfl
  refine .bind hstat fun isDir => ?_
  split
  · refine .bind (walls_onPath (File.only_getFileNames (X := fun _ => False) _) ?_) fun names =>
      .bind (walls_sendPacket _) fun _ => ?_
    · rintro c x h rfl hK
      rfl
    · unfold sendList
      split
      · exact .throw _ fun _ _ hK => hK
      · exact .bind (walls_sendPacket _) fun _ => .pure _ fun _ _ hK => hK
  · exact .bind (walls_sendPacket _) fun _ => .pure _ fun _ _ hK => hK

theorem walls_renameFile (hcode : commandCode request = RequestCodes.renameReq) :
    Walls u (Asking u [] request) (renameFile P request) fun _ => AtHome u [] := by
  have hnames : ∀ beyond, requestNames request beyond =
      [cstr ((RenameM1.deserialize request).fileName.bytes ++
        (RenameM1.deserialize request).newFileName.bytes ++ beyond),
        cstr ((RenameM1.deserialize request).newFileName.bytes ++ beyond)] := by
    intro beyond
    rw [requestNames, hcode]
    rfl
  refine .bind (walls_readName (q := request) fun beyond => ?_) fun name =>
    .bind (walls_readName (q := request) fun beyond => ?_) fun newName => ?_
  · rw [hnames]
    exact List.mem_cons_self ..
  · rw [hnames]
    exact List.mem_cons_of_mem _ (List.mem_singleton_self _)
  · refine walls_get (fun _ _ hK => hK.1.1) fun s hs => ?_
    subst hs
    refine Triple.weaken (K := AtHome s.username [newName, name]) ?_ fun _ _ hK => hK.1
    refine .bind (walls_onPath (only_renameCode _ _) ?_) fun code =>
      .bind (walls_sendPacket _) fun _ => .pure _ fun _ _ hK => hK.nil
    rintro c x h hc hK
    have hpath : FencedPath s.username h.fs (filePath s.username name) := ⟨name, rfl, hK.2 name (by simp)⟩
    have hnew : FencedPath s.username h.fs (filePath s.username newName) :=
      ⟨newName, rfl, hK.2 newName (by simp)⟩
    rcases hc with rfl | rfl | rfl
    · exact Or.inr hpath
    · exact Or.inr hnew
    · exact ⟨hpath, hnew⟩

theorem walls_deleteFile (hcode : commandCode request = RequestCodes.deleteReq) :
    Walls u (Asking u [] request) (deleteFile P request) fun _ => AtHome u [] := by
  refine .bind (walls_readName (q := request) fun beyond => ?_) fun name => ?_
  · rw [requestNames, if_pos (Or.inr (Or.inr hcode))]
    exact List.mem_singleton_self _
  · refine walls_get (fun _ _ hK => hK.1.1) fun s hs => ?_
    subst hs
    refine Triple.weaken (K := AtHome s.username [name]) ?_ fun _ _ hK => hK.1
    refine .bind (walls_onPath (only_deleteCode _) ?_) fun code =>
      .bind (walls_sendPacket _) fun _ => .pure _ fun _ _ hK => hK.nil
    rintro c x h hc hK
    have hpath : FencedPath s.username h.fs (filePath s.username name) := ⟨name, rfl, hK.2 name (by simp)⟩
    rcases hc with rfl | rfl
    · exact Or.inr hpath
    · exact hpath

theorem walls_logout : Walls u (AtHome u []) (logout P) fun _ => AtHome u [] := by
  refine .bind (.get fun _ _ hK => hK) fun s => .bind (walls_serialize _ _ _) fun w => ?_
  refine .bind (P := fun _ => AtHome u []) (fun x h hK => ⟨hK.1, hK.2⟩) fun _ => ?_
  exact .bind (walls_sendFrame w) fun _ => .pure _ fun _ _ hK => hK

theorem walls_returning {K : Session → Host → Prop} {r : Member Int}
    (hr : Walls u K r fun _ => AtHome u []) :
    Walls u K (Member.returning r) fun _ => AtHome u [] := by
  refine .catchExit hr fun e => ?_
  cases e with
  | returned n => exact .pure _ fun _ _ hK => hK
  | _ => exact .throw _ fun _ _ hK => hK

theorem walls_command : Walls u (Asking u [] request) (command P (commandCode request) request)
    fun _ => AtHome u [] := by
  unfold command
  split_ifs with hupload hdownload hlist hrename hdelete hlogout
  · exact walls_returning (walls_uploadFile P hupload)
  · exact walls_returning (walls_downloadFile P hdownload)
  · exact walls_returning (walls_listFiles P)
  · exact walls_returning (walls_renameFile P hrename)
  · exact walls_returning (walls_deleteFile P hdelete)
  · exact walls_returning ((walls_logout P).weaken fun _ _ hK => hK.1)
  · refine Triple.weaken (.bind (walls_sys (.garbage .result) nofun) fun _ => .pure _ fun _ _ hK => hK)
      fun _ _ hK => hK.1

/-- The command loop, by induction on its bound. -/
theorem walls_commandLoop (n : Nat) :
    Walls u (AtHome u []) (commandLoop P n) fun _ => AtHome u [] := by
  induction n with
  | zero => exact .throw _ fun _ _ hK => hK
  | succ n ih =>
      refine .bind (walls_expectPacket _ _) fun payload =>
        .bind (walls_command P) fun result => ?_
      split_ifs
      · exact .throw _ fun _ _ hK => hK
      · exact .pure _ fun _ _ hK => hK
      · exact ih

end Worker

/-! ## Whole runs -/

/-- The store at the start of a session: nothing is open. -/
def Fs.idle (fs : Fs) : Fs where
  toFsState := { fs.toFsState with handles := [] }
  wf := fs.wf.setData fs.data [] (by simp)

theorem Fs.sameDirs_idle (fs : Fs) : fs.SameDirs fs.idle := .of_node rfl fun _ => Iff.rfl

theorem Fs.walk_idle (fs : Fs) (p : Path) (cs : List Name) : fs.idle.walk p cs = fs.walk p cs := by
  induction cs generalizing p with
  | nil => rfl
  | cons c cs ih =>
      have hnode : fs.idle.node p = fs.node p := rfl
      simp only [Fs.walk, hnode, ih]

theorem Fs.resolve_idle (fs : Fs) (path : Buffer) : fs.idle.resolve path = fs.resolve path := by
  have hcwd : fs.idle.cwd = fs.cwd := rfl
  simp only [Fs.resolve, fs.walk_idle, hcwd]

/-- The paths that a call creates, opens, renames or removes. -/
def FileCall.touched : FileCall → List Buffer
  | .openRead path | .openWrite path | .remove path | .createDirectory path => [path]
  | .rename path newPath => [path, newPath]
  | .stat _ | .fileSize _ | .read _ _ | .write _ _ | .list _ => []

/-- The call has done what it is for. -/
def FileCall.Done : (c : FileCall) → c.Ans → Prop
  | .openRead _, a | .openWrite _, a => a.isSome = true
  | .remove _, a | .rename _ _, a => a = true
  | .createDirectory _, a => a = some true
  | .stat _, _ | .fileSize _, _ | .read _ _, _ | .write _ _, _ | .list _, _ => False

/-- Everything outside the folder of `u` is as it is in `fs`, and if the next call opens, makes,
    renames or removes something, its paths lead into the folder. -/
structure Isolated (u : Buffer) (fs : Fs) {α : Type} (c : Program Sys α × Host) : Prop where
  outside : ∀ q, ¬Inside u fs q → c.2.fs.node q = fs.node q ∧ c.2.fs.contents q = fs.contents q
  inside : ∀ call k, c.1 = .call (.sys (.file call)) k → ∀ fault,
    call.Done (call.answer fault c.2.fs).1 → ∀ path ∈ call.touched,
      ∃ q, c.2.fs.resolve path = .ok q ∧ Inside u fs q

theorem Confined.inside {u : Buffer} {fs : Fs} {call : FileCall} (hc : Confined u fs call)
    {fault : Bool} (hdone : call.Done (call.answer fault fs).1) {path : Buffer}
    (hpath : path ∈ call.touched) : ∃ q, fs.resolve path = .ok q ∧ Inside u fs q := by
  cases fault with
  | true => cases call <;> cases hdone
  | false =>
      cases call with
      | stat path => exact hdone.elim
      | fileSize path => exact hdone.elim
      | read handle n => exact hdone.elim
      | write handle b => exact hdone.elim
      | list path => exact hdone.elim
      | createDirectory path => exact hc.elim
      | openRead path₀ =>
          obtain rfl := List.mem_singleton.1 hpath
          by_contra hno
          have hnone : fs.inodeAt path = none := Fs.inodeAt_of_not_file fun p i hr hp =>
            hno ⟨p, hr, FencedPath.inside hc hr (by simp [hp])⟩
          simp [FileCall.Done, FileCall.answer, hnone] at hdone
      | openWrite path₀ =>
          obtain rfl := List.mem_singleton.1 hpath
          by_contra hno
          have hfail : fs.openWrite path = (none, fs) := Fs.openWrite_fail fun p hr => by
            by_contra hp
            exact hno ⟨p, hr, FencedPath.inside hc hr hp⟩
          simp [FileCall.Done, FileCall.answer, hfail] at hdone
      | remove path₀ =>
          obtain rfl := List.mem_singleton.1 hpath
          by_contra hno
          have hfail : fs.remove path = (false, fs) := Fs.remove_fail fun p i hr hp =>
            hno ⟨p, hr, FencedPath.inside hc hr (by simp [hp])⟩
          simp [FileCall.Done, FileCall.answer, hfail] at hdone
      | rename path₀ newPath =>
          by_cases h : ∃ p q i, fs.resolve path₀ = .ok p ∧ fs.resolve newPath = .ok q ∧
              fs.node p = some (.file i) ∧ fs.node q ≠ some .dir
          · obtain ⟨p, q, i, hp, hq, hpi, hqn⟩ := h
            rcases List.mem_cons.1 hpath with rfl | hpath
            · exact ⟨p, hp, hc.1.inside hp (by simp [hpi])⟩
            · obtain rfl := List.mem_singleton.1 hpath
              exact ⟨q, hq, hc.2.inside hq hqn⟩
          · have hfail : fs.rename path₀ newPath = (false, fs) := Fs.rename_fail fun p q i hp hq hpi => by
              by_contra hqn
              exact h ⟨p, q, i, hp, hq, hpi, hqn⟩
            simp [FileCall.Done, FileCall.answer, hfail] at hdone

/-- **A worker whose names stay keeps to its user's folder**, in every state it reaches. -/
theorem isolated_of_reaches {α : Type} {p : Program Sys α} {Q : α → Host → Prop} {fs : Fs}
    {console : Console} {c : Program Sys α × Host}
    (hsat : p.Sat (Fencing u) (Walled u) Q (Host.start fs.idle console))
    (hrun : Program.Reaches (Fencing u) (p, Host.start fs.idle console) c) : Isolated u fs c := by
  have hkept : Kept u fs.idle c.2.fs := by
    induction hrun with
    | refl => exact ⟨.refl _, fun _ _ => ⟨rfl, rfl⟩, nofun⟩
    | tail hbefore hstep ih =>
        have hmid := hsat.reaches hbefore
        cases hstep with
        | @call o k h a h' hstep =>
            have hwall : Walled u h o a h' := (hmid a h' hstep).1
            obtain ⟨⟨ch, hch⟩, -⟩ := hstep
            obtain rfl : (h.answer ch o).2 = h' := congrArg Prod.snd hch
            match o with
            | .sys (.file call) => exact ih.answer ch.fault (hwall call rfl)
            | .send data =>
                have hfs : (h.answer ch (.send data)).2.fs = h.fs := by
                  simp only [Host.answer, Host.put]
                  split_ifs <;> rfl
                show Kept u fs.idle (h.answer ch (.send data)).2.fs
                rw [hfs]
                exact ih
            | .recv _ | .sys (.random _) | .sys (.crypto _) | .sys .getline | .sys .clearAndIgnore
            | .sys (.garbage _) | .sys .overrun | .sys (.print _) | .sys (.note _) => exact ih
  have hinside : ∀ {q}, Inside u fs.idle q ↔ Inside u fs q := SameDirs.inside fs.sameDirs_idle
  refine ⟨fun q hq => hkept.outside q (mt hinside.1 hq), fun call k hk fault hdone path hpath => ?_⟩
  have hnext := hsat.reaches hrun
  rw [hk] at hnext
  have hconf : Confined u c.2.fs call :=
    (hnext (call.answer fault c.2.fs).1 { c.2 with fs := (call.answer fault c.2.fs).2 }
      ⟨⟨{ Choice.calm with fault := fault }, rfl⟩, trivial⟩).1 call rfl
  obtain ⟨q, hq, hin⟩ := hconf.inside hdone hpath
  exact ⟨q, hq, hinside.1 ((SameDirs.inside hkept.dirs).1 hin)⟩

/-! ## Two stores side by side -/

/-- The folder of `u` is the same in two stores: the entries, their contents and the order in which
    they are enumerated. -/
structure AgreeOn (u : Buffer) (fs fs' : Fs) : Prop where
  folder : fs'.resolve (folderPath u) = fs.resolve (folderPath u)
  dirs : ∀ q, Inside u fs q → (fs'.node q = some .dir ↔ fs.node q = some .dir)
  contents : ∀ q, Inside u fs q → fs'.contents q = fs.contents q
  order : ∀ D, fs.resolve (folderPath u) = .ok D →
    fs'.entries.keys.filter (fun q => D <+: q) = fs.entries.keys.filter fun q => D <+: q

theorem AgreeOn.sameFolder {fs fs' : Fs} (ha : AgreeOn u fs fs') :
    SameFolder u fs.idle fs'.idle := by
  cases hD : fs.resolve (folderPath u) with
  | error e =>
      exact Or.inr ⟨e, (fs.resolve_idle _).trans hD, (fs'.resolve_idle _).trans (ha.folder.trans hD),
        rfl, rfl⟩
  | ok D =>
      refine Or.inl ⟨D, fun i j => ∃ q, D <+: q ∧ fs.node q = some (.file i) ∧
        fs'.node q = some (.file j), (fs.resolve_idle _).trans hD,
        (fs'.resolve_idle _).trans (ha.folder.trans hD), ?_⟩
      have hfiles : ∀ q, D <+: q → fs'.contents q = fs.contents q :=
        fun q hq => ha.contents q ⟨D, hD, hq⟩
      refine ⟨fun q hq => ?_, ha.order D hD, ?_, ?_, ?_, ?_, .nil⟩
      · have hdir := ha.dirs q ⟨D, hD, hq⟩
        have hcontents := hfiles q hq
        show Option.Rel _ (fs.node q) (fs'.node q)
        cases hn : fs.node q with
        | none =>
            cases hn' : fs'.node q with
            | none => exact .none
            | some n =>
                cases n with
                | dir => simp [hn, hn'] at hdir
                | file j => simp [FsState.contents, hn, hn'] at hcontents
        | some n =>
            cases n with
            | dir =>
                rw [hdir.2 hn]
                exact .some .dir
            | file i =>
                obtain ⟨j, hj, -⟩ := Fs.contents_eq_some.1 (hcontents.trans
                  (Fs.contents_eq_some.2 ⟨i, hn, rfl⟩))
                rw [hj]
                exact .some (.file ⟨q, hq, hn, hj⟩)
      · rintro i j ⟨q, hq, hi, hj⟩
        have hcontents := hfiles q hq
        rw [Fs.contents_eq_some.2 ⟨i, hi, rfl⟩, Fs.contents_eq_some.2 ⟨j, hj, rfl⟩] at hcontents
        exact Option.some.inj hcontents
      · rintro i j j' ⟨q, -, hi, hj⟩ ⟨q', -, hi', hj'⟩
        obtain rfl := fs.wf.inode_inj q q' i hi hi'
        rw [hj] at hj'
        cases hj'
        rfl
      · rintro i i' j ⟨q, -, hi, hj⟩ ⟨q', -, hi', hj'⟩
        obtain rfl := fs'.wf.inode_inj q q' j hj hj'
        rw [hi] at hi'
        cases hi'
        rfl
      · rintro i j ⟨q, -, hi, hj⟩
        exact ⟨fs.wf.inode_lt q i hi, fs'.wf.inode_lt q j hj⟩

/-- Two hosts that a session of `u` cannot tell apart. -/
structure Twin (u : Buffer) (h h' : Host) : Prop where
  folder : SameFolder u h.fs h'.fs
  console : h'.console = h.console
  printed : h'.printed = h.printed
  wire : h'.wire = h.wire
  notes : h'.notes = h.notes

/-- Twins give the same answer to a call that is confined. -/
theorem Twin.answer {h h' : Host} (ht : Twin u h h') {c : Choice} {o : Sys.Op}
    (hwall : ∀ call, o = .sys (.file call) → Confined u h.fs call) :
    (h'.answer c o).1 = (h.answer c o).1 ∧ Twin u (h.answer c o).2 (h'.answer c o).2 := by
  match o with
  | .sys (.file call) =>
      obtain ⟨hsame, hfolder⟩ := ht.folder.answer (hwall call rfl) c.fault
      exact ⟨hsame, { ht with folder := hfolder }⟩
  | .send data =>
      simp only [Host.answer, Host.put]
      split_ifs
      · exact ⟨rfl, ht⟩
      · exact ⟨rfl, ht⟩
      · exact ⟨rfl, { ht with wire := congrArg (· ++ [data]) ht.wire }⟩
  | .sys (.print r) => exact ⟨rfl, { ht with printed := congrArg (· ++ [r]) ht.printed }⟩
  | .sys (.note e) => exact ⟨rfl, { ht with notes := congrArg (· ++ [e]) ht.notes }⟩
  | .sys .getline =>
      simp only [Host.answer, Host.answerSys, ht.console]
      exact ⟨rfl, { ht with console := rfl }⟩
  | .sys .clearAndIgnore =>
      exact ⟨rfl, { ht with console := congrArg Console.clearAndIgnore ht.console }⟩
  | .recv _ | .sys (.random _) | .sys (.crypto _) | .sys (.garbage _) | .sys .overrun => exact ⟨rfl, ht⟩

/-- **Two stores side by side**: with the same answers to all that is open, a program whose calls are
    confined does the same on both. -/
theorem Twin.run {α : Type} {Q : α → Host → Prop} (cs : List Choice) {p : Program Sys α} {h h' : Host}
    (hsat : p.Sat (Fencing u) (Walled u) Q h) (ht : Twin u h h')
    (hok : Host.Admits (FencedCall u) cs (p, h)) :
    (Host.run cs (p, h')).1 = (Host.run cs (p, h)).1 ∧
      Twin u (Host.run cs (p, h)).2 (Host.run cs (p, h')).2 := by
  induction cs generalizing p h h' with
  | nil => exact ⟨rfl, ht⟩
  | cons c cs ih =>
      cases p with
      | ret a => exact ⟨rfl, ht⟩
      | call o k =>
          obtain ⟨hfenced, hrest⟩ := hok
          obtain ⟨hwall, hk⟩ := hsat (h.answer c o).1 (h.answer c o).2 ⟨⟨c, rfl⟩, hfenced⟩
          obtain ⟨hsame, ht'⟩ := ht.answer (c := c) hwall
          have hboth := ih hk ht' hrest
          simp only [Host.run, hsame]
          exact hboth

/-! ## Isolation -/

/-- The worker of `u` on a store, logged in. -/
def loggedInWorker (P : Platform) (u key : Buffer) (bound : Nat) (fs : Fs) (console : Console) :
    Program Sys (Except Exit Int × Session) × Host :=
  (Worker.commandLoop P bound (.start u key), Host.start fs.idle console)

/-- **Tenant isolation.** In every run of a worker whose requests have names that stay in the folder
    of its user, nothing outside the folder is changed, opened, made, renamed or removed; and on two
    stores with the same folder the replies to the same requests are the same. -/
theorem tenant_isolation (P : Platform) (u key : Buffer) (bound : Nat) (fs : Fs) (console : Console) :
    (∀ c, Program.Reaches (Fencing u) (loggedInWorker P u key bound fs console) c →
      Isolated u fs c) ∧
    ∀ fs', AgreeOn u fs fs' → ∀ cs,
      Host.Admits (FencedCall u) cs (loggedInWorker P u key bound fs console) →
      (Host.run cs (loggedInWorker P u key bound fs' console)).2.wire =
        (Host.run cs (loggedInWorker P u key bound fs console)).2.wire := by
  have hsat := (Worker.walls_commandLoop (P := P) (u := u) bound).program
    (x := .start u key) (s := Host.start fs.idle console) ⟨rfl, by simp⟩
  refine ⟨fun c hrun => isolated_of_reaches hsat hrun, fun fs' ha cs hok => ?_⟩
  have htwin : Twin u (Host.start fs.idle console) (Host.start fs'.idle console) :=
    ⟨ha.sameFolder, rfl, rfl, rfl, rfl⟩
  exact (Twin.run cs hsat htwin hok).2.wire

/-- A file made elsewhere does not change the folder. -/
theorem agreeOn_openWrite {fs : Fs} {path : Buffer} {D p : Path}
    (hD : fs.resolve (folderPath u) = .ok D) (hp : fs.resolve path = .ok p) (hfree : fs.node p = none)
    (hout : ¬D <+: p) : AgreeOn u fs (fs.openWrite path).2 := by
  have hdirs := Fs.openWrite_sameDirs fs path
  have hstate := (Fs.openWrite_free hp hfree).2
  have hne : ∀ q, D <+: q → q ≠ p := by
    rintro q hq rfl
    exact hout hq
  have hin : ∀ {q}, Inside u fs q → D <+: q := by
    rintro q ⟨D', hD', hq⟩
    rw [hD] at hD'
    cases hD'
    exact hq
  refine ⟨?_, fun q _ => hdirs.node_dir, fun q hq => ?_, fun D' hD' => ?_⟩
  · rw [hdirs.resolve.2 hD, hD]
  · have hnode : (fs.openWrite path).2.node q = fs.node q := by
      rw [hstate]
      show (fs.newInode.enter p _).node q = _
      rw [FsState.node_enter _ (fs.resolve_makeable hp hfree).1, if_neg (hne q (hin hq))]
      rfl
    refine Fs.contents_congr hnode fun j hj => ?_
    have := fs.wf.inode_lt q j hj
    rw [hstate]
    exact Function.update_of_ne (by omega) ..
  · rw [hD] at hD'
    cases hD'
    have hnot : p ∉ fs.entries := by
      intro hmem
      have hsome := AList.lookup_isSome.2 hmem
      rw [FsState.node, if_neg (fs.resolve_makeable hp hfree).1] at hfree
      rw [hfree] at hsome
      cases hsome
    rw [hstate]
    show (List.map Sigma.fst (fs.entries.insert p _).entries).filter _ = _
    rw [AList.entries_insert_of_notMem hnot, List.map_cons,
      List.filter_cons_of_neg (by simpa using hout)]
    rfl

/-- The folders of two users; the first one has a file. -/
def sharedStore : Fs :=
  ((Fs.ofFolders [ascii "/data", ascii "/data/user1", ascii "/data/user2"]).openWrite
    (ascii "/data/user1/a")).2

/-- The first user on a store with these folders. -/
def firstUser (fs : Fs) : Program Sys (Except Exit Int × Session) × Host :=
  loggedInWorker (.plain .little) (ascii "user1") [] 1 fs ⟨[], false, false⟩

/-- A request to rename the file, after which no call fails. -/
def renameTo (newName : Buffer) : List Choice :=
  .deliver (plainFrame 0 (RenameM1.new (ascii "a") newName).serialize) :: List.replicate 15 .calm

set_option maxRecDepth 20000 in
/-- A user who renames a file, with and without a file in the folder of another user. -/
theorem tenant_isolation_rename :
    (Host.run (renameTo (ascii "b")) (firstUser sharedStore)).2.wire =
        [plainFrame 0 (RenameAck 0).serialize] ∧
      Isolated (ascii "user1") sharedStore (Host.run (renameTo (ascii "b")) (firstUser sharedStore)) ∧
      (Host.run (renameTo (ascii "b"))
          (firstUser (sharedStore.openWrite (ascii "/data/user2/b")).2)).2.wire =
        (Host.run (renameTo (ascii "b")) (firstUser sharedStore)).2.wire := by
  have hwire : (Host.run (renameTo (ascii "b")) (firstUser sharedStore)).2.wire =
      [plainFrame 0 (RenameAck 0).serialize] := by decide +kernel
  have hok : Host.Admits (FencedCall (ascii "user1")) (renameTo (ascii "b")) (firstUser sharedStore) := by
    decide +kernel
  have hagree : AgreeOn (ascii "user1") sharedStore
      (sharedStore.openWrite (ascii "/data/user2/b")).2 :=
    agreeOn_openWrite (D := [ascii "data", ascii "user1"]) (p := [ascii "data", ascii "user2", ascii "b"])
      (by decide +kernel) (by decide +kernel) (by decide +kernel) (by decide +kernel)
  have hisolated :=
    tenant_isolation (.plain .little) (ascii "user1") [] 1 sharedStore ⟨[], false, false⟩
  exact ⟨hwire, hisolated.1 _ (hok.reaches_run _), hisolated.2 _ hagree _ hok⟩

set_option maxRecDepth 20000 in
/-- A user who renames a file into the folder of another user. -/
theorem renames_into_other_folder :
    ¬∀ (P : Platform) (u key : Buffer) (bound : Nat) (fs : Fs) (console : Console), u ∈ usernameList →
      (∀ c, Program.Reaches Host.anyEnv (loggedInWorker P u key bound fs console) c →
        Isolated u fs c) ∧
      ∀ fs', AgreeOn u fs fs' → ∀ cs,
        (Host.run cs (loggedInWorker P u key bound fs' console)).2.wire =
          (Host.run cs (loggedInWorker P u key bound fs console)).2.wire := by
  intro hall
  let c := Host.run (renameTo (ascii "../user2/a")) (firstUser sharedStore)
  have hout : ¬Inside (ascii "user1") sharedStore [ascii "data", ascii "user2", ascii "a"] := by
    rintro ⟨D, hD, hprefix⟩
    have hfolder : sharedStore.resolve (folderPath (ascii "user1")) =
        .ok [ascii "data", ascii "user1"] := by decide +kernel
    rw [hfolder] at hD
    cases hD
    revert hprefix
    decide +kernel
  have hnode := ((hall (.plain .little) (ascii "user1") [] 1 sharedStore ⟨[], false, false⟩
    (by decide)).1 c (Host.reaches_run _ _)).outside _ hout
  have hmoved : c.2.fs.node [ascii "data", ascii "user2", ascii "a"] = some (.file 0) := by
    decide +kernel
  have hbefore : sharedStore.node [ascii "data", ascii "user2", ascii "a"] = none := by decide +kernel
  rw [hmoved, hbefore] at hnode
  cases hnode.1

end CloudStorage
