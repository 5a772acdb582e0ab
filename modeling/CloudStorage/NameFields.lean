import CloudStorage.Lasting

set_option autoImplicit false

/-! # The names of a request

A name travels in a field of 256 bytes. The worker copies the field into a `char` array and converts the
array to a string, which ends at the first NUL wherever that is: in the field, in the member behind it
or in the memory behind the packet object. Its handlers act on the names of the fields alone exactly
where every field has a NUL of its own. -/

namespace CloudStorage

open Interaction Interaction.Routine

/-! ## The four requests with names -/

/-- The requests that carry a name. -/
inductive NamedRequest
  | upload
  | download
  | rename
  | delete
  deriving DecidableEq, Repr

namespace NamedRequest

/-- What the worker calls for it. -/
def handler (P : Platform) : NamedRequest → Buffer → Member Int
  | .upload => Worker.uploadFile P
  | .download => Worker.downloadFile P
  | .rename => Worker.renameFile P
  | .delete => Worker.deleteFile P

/-- The bytes of each of its names in the payload. -/
def fields : NamedRequest → Buffer → List Buffer
  | .rename, payload => [slice 1 (Max.fileName + 1) payload,
      slice (1 + (Max.fileName + 1)) (Max.fileName + 1) payload]
  | _, payload => [slice 1 (Max.fileName + 1) payload]

/-- The calls into the file system that are its business, with the paths of its names. -/
def Calls : NamedRequest → List Buffer → FileCall → Prop
  | .upload, [path], c => c = .stat path ∨ c = .openWrite path ∨ ∃ handle data, c = .write handle data
  | .download, [path], c => c = .stat path ∨ c = .fileSize path ∨ c = .openRead path ∨
      ∃ handle n, c = .read handle n
  | .rename, [path, newPath], c => c = .stat path ∨ c = .stat newPath ∨ c = .rename path newPath
  | .delete, [path], c => c = .stat path ∨ c = .remove path
  | _, _, _ => False

end NamedRequest

/-- The call is no call into the file system, or one on the names in the fields, which are names of at
    most 255 bytes. -/
def OnOwnNames (k : NamedRequest) (payload username : Buffer) (o : Sys.Op) : Prop :=
  ∀ call, o = .sys (.file call) →
    (∀ field ∈ k.fields payload, (cstr field).length ≤ Max.fileName) ∧
      k.Calls ((k.fields payload).map fun field => Worker.filePath username (cstr field)) call

/-- In every run of the handler, every call into the file system is on the names in the fields. -/
def NamesInFields (P : Platform) (k : NamedRequest) (payload : Buffer) : Prop :=
  ∀ (x : Session) (h : Host) c,
    Program.Reaches (Program.Logged Host.anyEnv) (k.handler P payload x, h, []) c →
      ∀ e ∈ c.2.2, OnOwnNames k payload x.username e.1

/-! ## Terminated fields -/

theorem length_cstr_le (b : Buffer) : (cstr b).length ≤ b.length :=
  (List.takeWhile_prefix _).length_le

/-- A name ends before the end of its field exactly if the field has a NUL. -/
theorem length_cstr_iff {field : Buffer} (h : field.length = Max.fileName + 1) :
    (cstr field).length ≤ Max.fileName ↔ (0 : UInt8) ∈ field := by
  constructor
  · intro hle
    by_contra hno
    rw [cstr_of_forall_ne hno, h] at hle
    exact absurd hle (by decide)
  · intro hmem
    have hlt : (cstr field).length < field.length := by
      refine Nat.lt_of_le_of_ne (length_cstr_le field) fun heq => ?_
      have hall := (List.takeWhile_prefix (p := (· != 0)) (l := field)).eq_of_length heq
      have hzero := List.takeWhile_eq_self_iff.1 hall 0 hmem
      simp at hzero
    omega

variable {k : NamedRequest} {payload : Buffer}

theorem length_fields (h : payload.length = Max.initialRequestLength) :
    ∀ field ∈ k.fields payload, field.length = Max.fileName + 1 := by
  intro field hfield
  have hfirst : (slice 1 (Max.fileName + 1) payload).length = Max.fileName + 1 :=
    length_slice (by rw [h]; decide)
  have hsecond : (slice (1 + (Max.fileName + 1)) (Max.fileName + 1) payload).length =
      Max.fileName + 1 := length_slice (by rw [h]; decide)
  cases k <;> simp only [NamedRequest.fields, List.mem_cons, List.not_mem_nil, or_false] at hfield
  · exact hfield ▸ hfirst
  · exact hfield ▸ hfirst
  · rcases hfield with rfl | rfl
    · exact hfirst
    · exact hsecond
  · exact hfield ▸ hfirst

/-- A field that is copied from the payload. -/
theorem ofBytes_drop (h : payload.length = Max.initialRequestLength) (off : Nat)
    (hoff : off + (Max.fileName + 1) ≤ Max.initialRequestLength) :
    (NameField.ofBytes (payload.drop off)).bytes = slice off (Max.fileName + 1) payload := by
  have hlen : Max.fileName + 1 ≤ (payload.drop off).length := by
    rw [List.length_drop, h]
    omega
  simp only [NameField.ofBytes, fit, slice, Nat.sub_eq_zero_of_le hlen, List.replicate_zero,
    List.append_nil]

/-! ## The handlers -/

variable {P : Platform} {x : Session} {s : Host × List (Program.Event Sys)}

/-- So far every call into the file system was on the names in the fields. -/
def OwnSoFar (k : NamedRequest) (payload username : Buffer)
    (s : Host × List (Program.Event Sys)) : Prop :=
  ∀ e ∈ s.2, OnOwnNames k payload username e.1

/-- The triples of this section. -/
abbrev StaysOwn (k : NamedRequest) (payload username : Buffer) {α : Type} (r : Member α) : Prop :=
  Passes (Program.Logged Host.anyEnv) (fun _ _ _ s' => OwnSoFar k payload username s')
    (OwnSoFar k payload username) r fun _ => OwnSoFar k payload username

theorem OwnSoFar.step {u : Buffer} {o : Sys.Op} {a : Sys.Ans o}
    {s' : Host × List (Program.Event Sys)} (h : OwnSoFar k payload u s)
    (hstep : Program.Logged Host.anyEnv s o a s') (ho : OnOwnNames k payload u o) :
    OwnSoFar k payload u s' :=
  hstep.forall h ho

theorem lasting_own (k : NamedRequest) (payload u : Buffer) :
    Lasting (Program.Logged Host.anyEnv) (fun _ _ _ s' => OwnSoFar k payload u s')
      (OwnSoFar k payload u) where
  send data s a s' h hstep := by
    have h' := h.step hstep fun _ hc => by cases hc
    exact ⟨h', h'⟩
  sys o ho s a s' h hstep := by
    have h' := h.step hstep fun c hc => absurd (NetOp.sys.inj hc) (ho c)
    exact ⟨h', h'⟩

theorem own_recv (u : Buffer) (n : Nat) (s : Host × List (Program.Event Sys)) (a : Option Buffer)
    (s' : Host × List (Program.Event Sys)) (h : OwnSoFar k payload u s)
    (hstep : Program.Logged Host.anyEnv s (.recv n) a s') :
    OwnSoFar k payload u s' ∧ OwnSoFar k payload u s' := by
  have h' := h.step hstep fun _ hc => by cases hc
  exact ⟨h', h'⟩

/-- A function on the files at the paths of the names. -/
theorem own_onFile {u : Buffer} {α : Type} {p : FileCall → Prop} {X : Exit → Prop} {r : Member α}
    (hname : ∀ field ∈ k.fields payload, (cstr field).length ≤ Max.fileName) (hr : Only (OnFile p) X r)
    (hp : ∀ c, p c →
      k.Calls ((k.fields payload).map fun field => Worker.filePath u (cstr field)) c) :
    StaysOwn k payload u r := by
  refine passes_of_only hr fun s o a s' ho h hstep => ?_
  have h' : OwnSoFar k payload u s' := by
    refine h.step hstep fun c hc => ?_
    subst hc
    exact ⟨hname, hp c ho⟩
  exact ⟨h', h'⟩

/-- The same for a handler, which starts with the user's name in its object. -/
abbrev StartsOwn (k : NamedRequest) (payload username : Buffer) (r : Member Int) : Prop :=
  Triple (Program.Logged Host.anyEnv) (fun _ _ _ s' => OwnSoFar k payload username s')
    (fun x s => x.username = username ∧ OwnSoFar k payload username s) r (fun _ _ _ => True)
    fun _ _ _ => True

/-- The conversion of a terminated field gives the name in it, whatever lies behind. -/
theorem own_readName {u field : Buffer} (behind : Buffer) {f : Buffer → Member Int}
    (hfield : (0 : UInt8) ∈ field) (hf : StartsOwn k payload u (f (cstr field))) :
    StartsOwn k payload u (Member.readName (field ++ behind) >>= f) := by
  rintro x s ⟨hx, h⟩ (beyond : Buffer) s' hstep
  have h' := h.step hstep fun _ hc => by cases hc
  refine ⟨h', ?_⟩
  have hname : cstr (field ++ behind ++ beyond) = cstr field := by
    rw [List.append_assoc]
    exact cstr_append_of_mem _ hfield
  have hrest := hf x s' ⟨hx, h'⟩
  rw [← hname] at hrest
  exact hrest

/-- The member `username` is read. -/
theorem own_get {u : Buffer} {f : Session → Member Int}
    (hf : ∀ y : Session, y.username = u → StaysOwn k payload u (f y)) :
    StartsOwn k payload u (Routine.get >>= f) := by
  rintro x s ⟨hx, h⟩
  rw [sat_bind, sat_get]
  exact (hf x hx x s h).imp (fun _ _ _ _ => trivial) fun _ _ _ _ => trivial

section

variable {u : Buffer} (hlen : payload.length = Max.initialRequestLength)
include hlen

theorem length_names (hzero : ∀ field ∈ k.fields payload, (0 : UInt8) ∈ field) :
    ∀ field ∈ k.fields payload, (cstr field).length ≤ Max.fileName :=
  fun field hf => (length_cstr_iff (length_fields hlen field hf)).2 (hzero field hf)

theorem own_upload (hzero : ∀ field ∈ NamedRequest.fields .upload payload, (0 : UInt8) ∈ field) :
    StartsOwn .upload payload u (Worker.uploadFile P payload) := by
  have hl := lasting_own .upload payload u
  have hname := length_names hlen hzero
  unfold Worker.uploadFile UploadM1.deserialize
  dsimp only
  rw [ofBytes_drop hlen 1 (by decide), ← List.append_nil (slice 1 _ payload)]
  refine own_readName [] (hzero _ (List.mem_singleton_self _)) (own_get fun y hy => ?_)
  subst hy
  refine .bind (own_onFile hname (File.only_exists _) fun c hc => Or.inl hc) fun found =>
    .bind (hl.sendPacket _) fun _ =>
    .bind (own_onFile hname (File.only_create (X := fun _ => False) _ _) fun c hc =>
      hc.imp_right Or.inl) fun r => ?_
  obtain ⟨file, error⟩ := r
  cases error with
  | some e => exact passes_pure _
  | none =>
      have hwrite : ∀ b chunk, StaysOwn .upload payload y.username (Worker.writeChunk file b chunk) := by
        intro b chunk
        refine own_onFile hname (File.only_writeChunk _ _) fun c hc => ?_
        obtain ⟨handle, -, rfl⟩ := hc
        exact Or.inr (Or.inr ⟨handle, chunk, rfl⟩)
      exact .bind (hl.receiveChunks hwrite (fun _ _ => own_recv _ _) _ _) fun b =>
        .bind (hl.receiveLastChunk hwrite (fun _ _ => own_recv _ _) _ _) fun _ =>
        .bind (hl.sendPacket _) fun _ => passes_pure _

theorem own_download (hzero : ∀ field ∈ NamedRequest.fields .download payload, (0 : UInt8) ∈ field) :
    StartsOwn .download payload u (Worker.downloadFile P payload) := by
  have hl := lasting_own .download payload u
  have hname := length_names hlen hzero
  unfold Worker.downloadFile NameM1.deserialize
  dsimp only
  rw [ofBytes_drop hlen 1 (by decide), ← List.append_nil (slice 1 _ payload)]
  refine own_readName [] (hzero _ (List.mem_singleton_self _)) (own_get fun y hy => ?_)
  subst hy
  refine .bind (hl.call (o := .garbage .fileSize) (by simp)) fun unset =>
    .bind (own_onFile hname (File.only_read (X := fun _ => False) _ _) fun c hc => ?_) fun r => ?_
  · exact hc.imp_right fun h => h.imp_right Or.inl
  · obtain ⟨file, error⟩ := r
    have hread : ∀ n, StaysOwn .download payload y.username (file.readChunk n) := by
      intro n
      refine own_onFile hname (File.only_readChunk _ _) fun c hc => ?_
      obtain ⟨handle, -, rfl⟩ := hc
      exact Or.inr (Or.inr (Or.inr ⟨handle, n, rfl⟩))
    exact .bind (hl.markRefused _ file) fun _ => .bind (hl.sendPacket _) fun _ => hl.sendFile hread

theorem own_rename (hzero : ∀ field ∈ NamedRequest.fields .rename payload, (0 : UInt8) ∈ field) :
    StartsOwn .rename payload u (Worker.renameFile P payload) := by
  have hl := lasting_own .rename payload u
  have hname := length_names hlen hzero
  have hfirst := hzero _ (List.mem_cons_self ..)
  have hsecond := hzero _ (List.mem_cons_of_mem _ (List.mem_singleton_self _))
  unfold Worker.renameFile RenameM1.deserialize
  dsimp only
  rw [ofBytes_drop hlen 1 (by decide),
    ofBytes_drop hlen (1 + (Max.fileName + 1)) (by decide)]
  refine own_readName _ hfirst ?_
  rw [← List.append_nil (slice (1 + (Max.fileName + 1)) _ payload)]
  refine own_readName [] hsecond (own_get fun y hy => ?_)
  subst hy
  exact .bind (own_onFile hname (Worker.only_renameCode _ _) fun c hc => hc) fun code =>
    .bind (hl.sendPacket _) fun _ => passes_pure _

theorem own_delete (hzero : ∀ field ∈ NamedRequest.fields .delete payload, (0 : UInt8) ∈ field) :
    StartsOwn .delete payload u (Worker.deleteFile P payload) := by
  have hl := lasting_own .delete payload u
  have hname := length_names hlen hzero
  unfold Worker.deleteFile NameM1.deserialize
  dsimp only
  rw [ofBytes_drop hlen 1 (by decide), ← List.append_nil (slice 1 _ payload)]
  refine own_readName [] (hzero _ (List.mem_singleton_self _)) (own_get fun y hy => ?_)
  subst hy
  exact .bind (own_onFile hname (Worker.only_deleteCode _) fun c hc => hc) fun code =>
    .bind (hl.sendPacket _) fun _ => passes_pure _

theorem own_handler (hzero : ∀ field ∈ k.fields payload, (0 : UInt8) ∈ field) :
    StartsOwn k payload u (k.handler P payload) := by
  cases k with
  | upload => exact own_upload hlen hzero
  | download => exact own_download hlen hzero
  | rename => exact own_rename hlen hzero
  | delete => exact own_delete hlen hzero

end

/-! ## The names that are acted on -/

/-- A handler gets to the file system. -/
theorem exists_fileCall (P : Platform) (k : NamedRequest) (payload : Buffer) (x : Session) (h : Host) :
    ∃ call a, (⟨.sys (.file call), a⟩ : Program.Event Sys) ∈
      Host.events (List.replicate 3 .calm) (k.handler P payload x, h) := by
  cases k with
  | upload => exact ⟨.stat _, _, .tail _ (.head _)⟩
  | download => exact ⟨.stat _, _, .tail _ (.tail _ (.head _))⟩
  | rename => exact ⟨.stat _, _, .tail _ (.tail _ (.head _))⟩
  | delete => exact ⟨.stat _, _, .tail _ (.head _)⟩

/-- A handler whose names stay in their fields has terminated fields. -/
theorem zero_mem_of_namesInFields (hlen : payload.length = Max.initialRequestLength)
    (hnames : NamesInFields P k payload) : ∀ field ∈ k.fields payload, (0 : UInt8) ∈ field := by
  intro field hfield
  let x := Session.start [] []
  let h := Host.start Fs.root ⟨[], false, false⟩
  obtain ⟨call, a, hmem⟩ := exists_fileCall P k payload x h
  have hrun := Host.reaches_events (List.replicate 3 .calm) (p := k.handler P payload x) h []
  have hown := hnames x h _ hrun _ (List.mem_append_right [] hmem) call rfl
  exact (length_cstr_iff (length_fields hlen field hfield)).1 (hown.1 field hfield)

/-- **The worker acts on the names in the fields exactly where every field is terminated.** -/
theorem names_in_fields_iff (P : Platform) (k : NamedRequest) (payload : Buffer)
    (hlen : payload.length = Max.initialRequestLength) :
    NamesInFields P k payload ↔ ∀ field ∈ k.fields payload, (0 : UInt8) ∈ field := by
  refine ⟨zero_mem_of_namesInFields hlen, fun hzero x h c hrun => ?_⟩
  have hstart : OwnSoFar k payload x.username (h, []) := fun e he => by cases he
  exact Program.Sat.invariant (c := (_, _)) (OwnSoFar k payload x.username)
    (fun _ _ _ _ hg => hg) ((own_handler hlen hzero).program ⟨rfl, hstart⟩) hstart hrun

/-- A request to rename `a` to `b`. -/
theorem names_in_fields_rename :
    NamesInFields (.plain .little) .rename (RenameM1.new (ascii "a") (ascii "b")).serialize :=
  (names_in_fields_iff (.plain .little) .rename (RenameM1.new (ascii "a") (ascii "b")).serialize
    (RenameM1.length_serialize _)).2 (by decide)

/-- A request to rename whose first name is `./` as often as fits its field, and whose second is `b`: the
    worker acts on the file `b`. -/
theorem name_continues_into_next_field :
    ¬∀ (P : Platform) (k : NamedRequest) (payload : Buffer),
      payload.length = Max.initialRequestLength → NamesInFields P k payload := by
  intro hall
  let payload : Buffer := fit Max.initialRequestLength
    (RequestCodes.renameReq :: ((List.replicate 128 (ascii "./")).flatten ++ ascii "b"))
  have hlen : payload.length = Max.initialRequestLength := length_fit _ _
  have hzero := zero_mem_of_namesInFields hlen (hall (.plain .little) .rename payload hlen)
    (slice 1 256 payload) (List.mem_cons_self ..)
  exact absurd hzero (by decide)

end CloudStorage
