import CloudStorage.Gate
import CloudStorage.Store
import CloudStorage.Isolation
import CloudStorage.Serving

set_option autoImplicit false

/-! # Which files a worker asks for

Each path that a worker hands to the file system is that of its user's folder, or begins with it and goes on
with a name that was read from a request which has been accepted; and it reads and writes streams that the
opening of such a path has given. What has been read is a function of the calls of the run (`Reading`), so
this holds whatever is in the store and whoever else changes it. Where a path leads is another matter: a name
may begin with `../`. -/

namespace CloudStorage

open Interaction Interaction.Program Interaction.Routine Handshake

open Worker (folderPath filePath)

/-! ## What has been read -/

/-- The notes of a run, and the names that were read from requests. -/
structure Reading where
  notes : List Note
  names : List Buffer

/-- The request that these notes leave to be answered. -/
def asked (notes : List Note) : Option Buffer :=
  match notes.reverse with
  | .counted _ _ :: .accepted _ payload _ :: _ => some payload
  | _ => none

/-- A read past the end of a field reads the names of the request. -/
def Reading.next (r : Reading) : Event → Reading
  | ⟨.sys (.note e), _⟩ => { r with notes := r.notes ++ [e] }
  | ⟨.sys .overrun, beyond⟩ =>
    { r with names := r.names ++ (asked r.notes).elim [] fun request => requestNames request beyond }
  | _ => r

/-- What has been read in a run. -/
def reading (t : List Event) : Reading := t.foldl Reading.next ⟨[], []⟩

theorem reading_append (t : List Event) (e : Event) : reading (t ++ [e]) = (reading t).next e := by
  rw [reading, List.foldl_append]
  rfl

theorem Reading.names_next (r : Reading) (e : Event) : r.names <+: (r.next e).names := by
  unfold Reading.next
  split
  · exact List.prefix_refl _
  · exact List.prefix_append ..
  · exact List.prefix_refl _

/-- These names have been read. -/
def HasRead (names : List Buffer) (t : List Event) : Prop := ∀ name ∈ names, name ∈ (reading t).names

theorem lasts_hasRead (names : List Buffer) : Lasts (HasRead names) := by
  intro t e hnames name hname
  rw [reading_append]
  exact ((reading t).names_next e).subset (hnames name hname)

/-- The opening of this path for reading has given this stream. -/
def ReadStream (t : List Event) (path : Buffer) (handle : Nat) : Prop :=
  (⟨.sys (.file (.openRead path)), (some handle : Option Nat)⟩ : Event) ∈ t

/-- The opening of this path for writing has given this stream. -/
def WriteStream (t : List Event) (path : Buffer) (handle : Nat) : Prop :=
  (⟨.sys (.file (.openWrite path)), (some handle : Option Nat)⟩ : Event) ∈ t

/-- A call on the folder of `u`, or on the path of one of the names behind it, or on a stream that the opening
    of such a path has given in the calls `t`. -/
def Addressed (u : Buffer) (names : List Buffer) (t : List Event) : FileCall → Prop
  | .stat path => path = folderPath u ∨ ∃ name ∈ names, path = filePath u name
  | .list path => path = folderPath u
  | .fileSize path | .openRead path | .openWrite path | .remove path =>
    ∃ name ∈ names, path = filePath u name
  | .rename path newPath =>
    (∃ name ∈ names, path = filePath u name) ∧ ∃ name ∈ names, newPath = filePath u name
  | .read handle _ => ∃ name ∈ names, ReadStream t (filePath u name) handle
  | .write handle _ => ∃ name ∈ names, WriteStream t (filePath u name) handle
  | .createDirectory _ => False

/-- What a call on names that stay is confined to. -/
theorem Addressed.confined {u : Buffer} {names : List Buffer} {t : List Event} {fs : Fs} {c : FileCall}
    (h : Addressed u names t c) (hfenced : ∀ name ∈ names, Fenced u fs name) : Confined u fs c := by
  have hpath : ∀ path, (∃ name ∈ names, path = filePath u name) → FencedPath u fs path := by
    rintro path ⟨name, hname, rfl⟩
    exact ⟨name, rfl, hfenced name hname⟩
  cases c with
  | stat path => exact h.imp_right (hpath path)
  | list path => exact h
  | fileSize path => exact hpath path h
  | openRead path => exact hpath path h
  | openWrite path => exact hpath path h
  | remove path => exact hpath path h
  | rename path newPath => exact ⟨hpath path h.1, hpath newPath h.2⟩
  | read handle n => trivial
  | write handle b => trivial
  | createDirectory path => exact h

variable {P : Platform} {α : Type} {u : Buffer} {K : List Event → Prop} {names : List Buffer}
  {request : Buffer}

/-- The calls into the file system that a worker makes after the calls `t`. -/
abbrev Addresses (u : Buffer) (t : List Event) (c : FileCall) : Prop := Addressed u (reading t).names t c

/-- The guarantee of this module. -/
abbrev Addressing (u : Buffer) : Transition Sys (List Event) :=
  fun t o _ _ => Guarded (Addresses u) t o

section

variable {G : List Event → FileCall → Prop}

/-- What lasts in a run is kept by every call that is none into the file system. -/
theorem lasting_guarded (hK : Lasts K) : Lasting Traced (fun t o _ _ => Guarded G t o) K where
  send := by
    rintro data t a t' ht rfl
    refine ⟨fun c hc => ?_, hK t _ ht⟩
    cases hc
  sys := by
    rintro o ho t a t' ht rfl
    exact ⟨fun c hc => absurd (NetOp.sys.inj hc) (ho c), hK t _ ht⟩

/-- A receive keeps what lasts. -/
theorem guarded_recv (hK : Lasts K) (n : Nat) (t : List Event) (a : Option Buffer) (t' : List Event)
    (ht : K t) (hstep : Traced (I := Sys) t (.recv n) a t') : Guarded G t (.recv n) ∧ K t' := by
  obtain rfl := hstep
  refine ⟨fun c hc => ?_, hK t _ ht⟩
  cases hc

/-- A function on files keeps what lasts, if what is known allows its calls. -/
theorem guarded_onFile {p : FileCall → Prop} {X : Exit → Prop} {r : Member α} (hK : Lasts K)
    (hr : Only (OnFile p) X r) (hp : ∀ t c, K t → p c → G t c) :
    Passes Traced (fun t o _ _ => Guarded G t o) K r fun _ => K := by
  apply passes_of_only hr
  rintro t o a t' ho ht rfl
  refine ⟨fun c hc => ?_, hK t _ ht⟩
  rw [hc] at ho
  exact hp t c ht ho

theorem guarded_file {c : FileCall} (hK : Lasts K) (hp : ∀ t, K t → G t c) :
    Passes Traced (fun t o _ _ => Guarded G t o) K (Member.file c) fun a t =>
      K t ∧ (⟨.sys (.file c), a⟩ : Event) ∈ t := by
  rintro x t ht a t' rfl
  refine ⟨fun c' hc => ?_, hK t _ ht, List.mem_append_right _ (List.mem_singleton_self _)⟩
  obtain rfl : c = c' := SysCall.file.inj (NetOp.sys.inj hc)
  exact hp t ht

/-- A file that is read has the stream that the opening of its path has given. -/
theorem guarded_read {path : Buffer} (hK : Lasts K) {f : File} (hf : f.input = .closed)
    (hp : ∀ t c, K t → c = .stat path ∨ c = .fileSize path ∨ c = .openRead path → G t c) :
    Passes Traced (fun t o _ _ => Guarded G t o) K (f.read path) fun r t =>
      K t ∧ ∀ handle, r.1.input = .opened handle → ReadStream t path handle := by
  have hclosed : ∀ {f' : File} {t}, f'.input = .closed → K t →
      K t ∧ ∀ handle, f'.input = .opened handle → ReadStream t path handle := by
    refine fun hclosed ht => ⟨ht, fun handle hopen => ?_⟩
    rw [hclosed] at hopen
    cases hopen
  refine .bind (guarded_onFile hK (Member.only_attempt (X := fun _ => False) (File.only_exists path))
    fun t c ht hc => hp t c ht (Or.inl hc)) fun found => ?_
  match found with
  | .error _ | .ok false => exact .pure _ fun _ _ ht => hclosed hf ht
  | .ok true =>
      refine .bind (guarded_file hK fun t ht => hp t _ ht (Or.inr (Or.inl rfl))) fun size => ?_
      match size with
      | none => exact .pure _ fun _ _ ht => hclosed hf ht.1
      | some size =>
          dsimp only
          split
          · refine .bind ((guarded_file hK fun t ht => hp t _ ht (Or.inr (Or.inr rfl))).weaken
              fun _ _ ht => ht.1) fun handle => ?_
            match handle with
            | none => exact .pure _ fun _ _ ht => ⟨ht.1, fun _ hopen => by cases hopen⟩
            | some handle =>
                refine .pure _ fun _ _ ht => ⟨ht.1, fun handle' hopen => ?_⟩
                cases hopen
                exact ht.2
          · exact .pure _ fun _ _ ht => hclosed hf ht.1

/-- The same for a file that is created. -/
theorem guarded_create {path : Buffer} (hK : Lasts K) {f : File} (hf : f.output = .closed)
    (hp : ∀ t c, K t → c = .stat path ∨ c = .openWrite path → G t c) :
    Passes Traced (fun t o _ _ => Guarded G t o) K (f.create path) fun r t =>
      K t ∧ ∀ handle, r.1.output = .opened handle → WriteStream t path handle := by
  have hclosed : ∀ {f' : File} {t}, f'.output = .closed → K t →
      K t ∧ ∀ handle, f'.output = .opened handle → WriteStream t path handle := by
    refine fun hclosed ht => ⟨ht, fun handle hopen => ?_⟩
    rw [hclosed] at hopen
    cases hopen
  refine .bind (guarded_onFile hK (Member.only_attempt (X := fun _ => False) (File.only_exists path))
    fun t c ht hc => hp t c ht (Or.inl hc)) fun found => ?_
  match found with
  | .error _ | .ok true => exact .pure _ fun _ _ ht => hclosed hf ht
  | .ok false =>
      dsimp only
      split
      · refine .bind (guarded_file hK fun t ht => hp t _ ht (Or.inr rfl)) fun handle => ?_
        match handle with
        | none => exact .pure _ fun _ _ ht => ⟨ht.1, fun _ hopen => by cases hopen⟩
        | some handle =>
            refine .pure _ fun _ _ ht => ⟨ht.1, fun handle' hopen => ?_⟩
            cases hopen
            exact ht.2
      · exact .pure _ fun _ _ ht => hclosed hf ht

end

/-! ## The user stays -/

/-- The session stays one of `u`. -/
abbrev Stays (u : Buffer) (r : Member α) : Prop := Keeps (I := Sys) (fun x : Session => x.username = u) r

namespace Member

theorem stays_sys (o : SysCall) : Stays u (sys o) := .call (I := Sys) (.sys o)

theorem stays_sendFrame (w : Buffer) : Stays u (sendFrame w) := by
  refine .bind (.call (I := Sys) (.send w)) fun _ => .bind (.require _ _) fun _ => .bind .get fun s =>
    .bind (.modify fun _ h => h) fun _ => .bind (stays_sys _) fun _ => ?_
  split
  · exact .throw _
  · exact .pure _

theorem stays_serialize (key : Buffer) (counter : Int) (payload : Buffer) :
    Stays u (Wrapper.serialize P key counter payload) :=
  .of_only (Wrapper.only_serialize (X := fun _ => False) P key counter payload)

theorem stays_sendPacket (payload : Buffer) : Stays u (sendPacket P payload) :=
  .bind .get fun _ => .bind (stays_serialize _ _ _) stays_sendFrame

theorem stays_receiveFrame (n : Nat) : Stays u (receiveFrame P n) := by
  unfold receiveFrame
  dsimp only
  split
  · exact .throw _
  · refine .bind (.call (I := Sys) (.recv _)) fun (r : Option Buffer) => ?_
    cases r with
    | none => exact .pure _
    | some w =>
        exact .bind .get fun s =>
          .bind (.of_only (Wrapper.only_deserialize (A := fun _ => False) P _ _)) fun _ => .pure _

theorem stays_receivePacket (n : Nat) : Stays u (receivePacket P n) := by
  refine .bind (stays_receiveFrame n) fun r => ?_
  cases r with
  | none => exact .pure _
  | some r =>
      obtain ⟨c, payload, w⟩ := r
      refine .bind (.bind .get fun s => ?_) fun _ => .bind (.bind .get fun s => .bind (.modify fun _ h => h)
        fun _ => .bind (stays_sys _) fun _ => ?_) fun _ => .pure _
      · split
        · exact .throw _
        · exact stays_sys _
      · split
        · exact .throw _
        · exact .pure _

theorem stays_expectPacket (n : Nat) (result : Int) : Stays u (expectPacket P n result) := by
  refine .bind (stays_receivePacket n) fun r => ?_
  cases r with
  | none => exact .throw _
  | some payload => exact .pure _

theorem stays_returning {r : Member Int} (hr : Stays u r) : Stays u (returning r) := by
  apply hr.catchExit
  intro e
  cases e with
  | returned n => exact .pure _
  | _ => exact .throw _

theorem stays_sendChunk (m2 : Buffer → ChunkM2) (file : File) (n : Nat) :
    Stays u (sendChunk P m2 file n) := by
  refine .bind (.of_only (file.only_readChunk n)) fun chunk => ?_
  split
  · exact .throw _
  · exact stays_sendPacket _

theorem stays_sendChunks (m2 : Buffer → ChunkM2) (file : File) (n : Nat) :
    Stays u (sendChunks P m2 file n) := by
  induction n with
  | zero => exact .pure _
  | succ n ih => exact .bind (stays_sendChunk m2 file _) fun _ => ih

theorem stays_receiveChunks {write : Bool → Buffer → Member Unit}
    (hwrite : ∀ b chunk, Stays u (write b chunk)) (n : Nat) (b : Bool) :
    Stays u (receiveChunks P write n b) := by
  induction n generalizing b with
  | zero => exact .pure _
  | succ n ih =>
      refine .bind (stays_receivePacket _) fun r => ?_
      cases r with
      | none => exact ih true
      | some payload => exact .bind (hwrite b _) fun _ => ih b

end Member

open Member

namespace Worker

theorem stays_receiveFile (path : Buffer) (size : Nat) : Stays u (receiveFile P path size) := by
  refine .bind (.of_only (File.only_create (X := fun _ => False) _ path)) fun r => ?_
  obtain ⟨file, error⟩ := r
  have hwrite : ∀ b chunk, Stays u (writeChunk file b chunk) := fun b chunk =>
    .of_only (file.only_writeChunk chunk)
  cases error with
  | some e => exact .pure _
  | none =>
      refine .bind (stays_receiveChunks hwrite _ _) fun b => .bind ?_ fun _ =>
        .bind (stays_sendPacket _) fun _ => .pure _
      unfold receiveLastChunk
      split
      · exact .bind (stays_expectPacket _ _) fun payload => hwrite b _
      · exact .pure _

theorem stays_sendFile (file : File) : Stays u (sendFile P file) := by
  refine .bind (stays_sendChunks _ file _) fun _ => .bind ?_ fun _ => .pure _
  unfold sendLastChunk
  split
  · exact stays_sendChunk _ file _
  · exact .pure _

theorem stays_readName (field : Buffer) : Stays u (readName field) :=
  .of_only (only_readName (X := fun _ => False) field)

/-- No command changes the user. -/
theorem stays_command (code : UInt8) (payload : Buffer) : Stays u (command P code payload) := by
  unfold command
  split_ifs
  · exact stays_returning (.bind (stays_readName _) fun _ => .bind .get fun s =>
      .bind (.of_only (File.only_exists _)) fun _ => .bind (stays_sendPacket _) fun _ =>
      stays_receiveFile _ _)
  · refine stays_returning (.bind (stays_readName _) fun _ => .bind .get fun s =>
      .bind (stays_sys _) fun unset => .bind (.of_only (File.only_read (X := fun _ => False) _ _)) fun r => ?_)
    obtain ⟨file, error⟩ := r
    exact .bind (.of_only (only_markRefused (X := fun _ => False) _ _)) fun _ =>
      .bind (stays_sendPacket _) fun _ => stays_sendFile file
  · refine stays_returning (.bind .get fun s => .bind (.of_only (only_isDirectory _)) fun isDir => ?_)
    split
    · refine .bind (.of_only (File.only_getFileNames (X := fun _ => False) _)) fun names =>
        .bind (stays_sendPacket _) fun _ => ?_
      unfold sendList
      split
      · exact .throw _
      · exact .bind (stays_sendPacket _) fun _ => .pure _
    · exact .bind (stays_sendPacket _) fun _ => .pure _
  · exact stays_returning (.bind (stays_readName _) fun _ => .bind (stays_readName _) fun _ =>
      .bind .get fun s => .bind (.of_only (only_renameCode _ _)) fun _ =>
      .bind (stays_sendPacket _) fun _ => .pure _)
  · exact stays_returning (.bind (stays_readName _) fun _ => .bind .get fun s =>
      .bind (.of_only (only_deleteCode _)) fun _ => .bind (stays_sendPacket _) fun _ => .pure _)
  · exact stays_returning (.bind .get fun s => .bind (stays_serialize _ _ _) fun w =>
      .bind (.modify fun _ h => h) fun _ => .bind (stays_sendFrame w) fun _ => .pure _)
  · exact .bind (stays_sys _) fun _ => .pure _

end Worker

/-! ## The handlers -/

/-- A session of `u` with a request to be answered, from which these names have been read. -/
def Handling (u : Buffer) (names : List Buffer) (request : Buffer) (x : Session) (t : List Event) : Prop :=
  x.username = u ∧ asked (reading t).notes = some request ∧ HasRead names t

/-- The function calls the file system only on what it has read. -/
abbrev Calls (u : Buffer) (names : List Buffer) (r : Member α) : Prop :=
  Passes Traced (Addressing u) (HasRead names) r fun _ => HasRead names

namespace Member

theorem calls_readName {field : Buffer}
    (hfield : ∀ beyond, cstr (field ++ beyond) ∈ requestNames request beyond) :
    Triple Traced (Addressing u) (Handling u names request) (readName field)
      (fun name => Handling u (name :: names) request) fun _ _ _ => True := by
  rintro x t ⟨huser, hasked, hnames⟩ beyond t' rfl
  have hnext : reading (t ++ [⟨.sys .overrun, beyond⟩]) =
      ⟨(reading t).notes, (reading t).names ++ requestNames request beyond⟩ := by
    rw [reading_append]
    show Reading.mk _ (_ ++ (asked (reading t).notes).elim [] _) = _
    rw [hasked]
    rfl
  refine ⟨fun c hc => (by cases hc), huser, by rwa [hnext], fun name hname => ?_⟩
  rw [hnext, List.mem_append]
  rcases List.mem_cons.1 hname with rfl | hname
  · exact Or.inr (hfield beyond)
  · exact Or.inl (hnames name hname)

/-- The object is read for its user. -/
theorem calls_get {f : Session → Member α} (hf : ∀ s, s.username = u → Calls u names (f s)) :
    Triple Traced (Addressing u) (Handling u names request) (Routine.get >>= f) (fun _ _ _ => True)
      fun _ _ _ => True := by
  rintro x t ⟨huser, -, hnames⟩
  rw [Routine.sat_bind, sat_get]
  exact (hf x huser x t hnames).imp (fun _ _ _ _ => trivial) fun _ _ _ => id

/-- The paths of names that have been read are addressed. -/
theorem addressed_of_hasRead {name : Buffer} {t : List Event} (hread : HasRead names t)
    (hname : name ∈ names) {c : FileCall} (hc : c = .stat (filePath u name) ∨
      c = .fileSize (filePath u name) ∨ c = .openRead (filePath u name) ∨ c = .openWrite (filePath u name) ∨
      c = .remove (filePath u name)) : Addresses u t c := by
  rcases hc with rfl | rfl | rfl | rfl | rfl
  · exact Or.inr ⟨name, hread name hname, rfl⟩
  all_goals exact ⟨name, hread name hname, rfl⟩

theorem calls_onFile {p : FileCall → Prop} {X : Exit → Prop} {r : Member α} (hr : Only (OnFile p) X r)
    (hp : ∀ t c, HasRead names t → p c → Addresses u t c) : Calls u names r :=
  guarded_onFile (lasts_hasRead names) hr hp

theorem lasting_calls : Lasting Traced (Addressing u) (HasRead names) :=
  lasting_guarded (lasts_hasRead names)

/-- The name has been read, and the file reads from a stream of its path. -/
abbrev Reads (u name : Buffer) (file : File) (t : List Event) : Prop :=
  HasRead [name] t ∧ ∀ handle, file.input = .opened handle → ReadStream t (filePath u name) handle

/-- The name has been read, and the file writes to a stream of its path. -/
abbrev Writes (u name : Buffer) (file : File) (t : List Event) : Prop :=
  HasRead [name] t ∧ ∀ handle, file.output = .opened handle → WriteStream t (filePath u name) handle

variable {name : Buffer}

theorem lasts_reads (file : File) : Lasts (Reads u name file) := fun t e h =>
  ⟨lasts_hasRead [name] t e h.1, fun handle hopen => lasts_mem _ t e (h.2 handle hopen)⟩

theorem lasts_writes (file : File) : Lasts (Writes u name file) := fun t e h =>
  ⟨lasts_hasRead [name] t e h.1, fun handle hopen => lasts_mem _ t e (h.2 handle hopen)⟩

theorem calls_readChunk (file : File) (n : Nat) :
    Passes Traced (Addressing u) (Reads u name file) (file.readChunk n) fun _ => Reads u name file := by
  apply guarded_onFile (lasts_reads file) (file.only_readChunk n)
  rintro t c h ⟨handle, hopen, rfl⟩
  exact ⟨name, h.1 name (List.mem_singleton_self name), h.2 handle hopen⟩

theorem calls_writeChunk (file : File) (b : Bool) (chunk : Buffer) :
    Passes Traced (Addressing u) (Writes u name file) (Worker.writeChunk file b chunk)
      fun _ => Writes u name file := by
  apply guarded_onFile (lasts_writes file) (file.only_writeChunk chunk)
  rintro t c h ⟨handle, hopen, rfl⟩
  exact ⟨name, h.1 name (List.mem_singleton_self name), h.2 handle hopen⟩

theorem calls_recv (n : Nat) (t : List Event) (a : Option Buffer) (t' : List Event)
    (ht : HasRead names t) (hstep : Traced (I := Sys) t (.recv n) a t') :
    Addressing u t (.recv n) a t' ∧ HasRead names t' :=
  guarded_recv (lasts_hasRead names) n t a t' ht hstep


/-- A note is the last one. -/
theorem notes_note (t : List Event) (e : Note) (a : Unit) :
    (reading (t ++ [⟨.sys (.note e), a⟩])).notes = (reading t).notes ++ [e] := by
  rw [reading_append]
  rfl

/-- A frame that is accepted and counted stands as the request to be answered. -/
theorem calls_expectPacket (n : Nat) (result : Int) :
    Triple Traced (Addressing u) (fun x _ => x.username = u) (expectPacket P n result)
      (fun payload => Handling u [] payload) fun _ _ _ => True := by
  have hframe : Passes Traced (Addressing u) (HasRead []) (receiveFrame P n) fun _ => HasRead [] :=
    passes_receiveFrame (calls_recv _)
  have hcheck : ∀ c p w, Triple Traced (Addressing u) (fun x _ => x.username = u) (checkCounter c p w)
      (fun _ x t => x.username = u ∧ ∃ before, (reading t).notes = before ++ [.accepted c p w])
      fun _ _ _ => True := by
    intro c p w x t huser
    simp only [checkCounter, Routine.sat_bind, sat_get]
    split_ifs
    · trivial
    · rintro v t' rfl
      exact ⟨fun c hc => (by cases hc), huser, _, notes_note t _ v⟩
  have hcount : ∀ c p w, Triple Traced (Addressing u)
      (fun x t => x.username = u ∧ ∃ before, (reading t).notes = before ++ [.accepted c p w])
      advanceReceive (fun _ => Handling u [] p) fun _ _ _ => True := by
    rintro c p w x t ⟨huser, before, hnotes⟩
    simp only [advanceReceive, Routine.sat_bind, sat_get, sat_modify, sat_note]
    rintro v t' rfl
    refine ⟨fun c hc => (by cases hc), ?_⟩
    split_ifs
    · trivial
    · refine ⟨huser, ?_, by simp [HasRead]⟩
      rw [notes_note, hnotes]
      simp [asked]
  have hreceive : Triple Traced (Addressing u) (fun x _ => x.username = u) (receivePacket P n)
      (fun r x t => ∀ p, r = some p → Handling u [] p x t) fun _ _ _ => True := by
    have hstart : Triple Traced (Addressing u) (fun x _ => x.username = u) (receiveFrame P n)
        (fun _ x _ => x.username = u) fun _ _ _ => True :=
      (hframe.and (stays_receiveFrame (u := u) (P := P) n).triple).conseq
        (fun _ _ h => ⟨by simp [HasRead], h⟩) (fun _ _ _ h => h.2) fun _ _ _ _ => trivial
    apply Triple.bind hstart
    intro r
    cases r with
    | none => exact .pure _ fun _ _ _ p hp => by cases hp
    | some r =>
        obtain ⟨c, p, w⟩ := r
        refine .bind (hcheck c p w) fun _ => .bind (hcount c p w) fun _ => .pure _ ?_
        rintro x t h p' ⟨⟩
        exact h
  apply Triple.bind hreceive
  intro r
  cases r with
  | none => exact .throw _ fun _ _ _ => trivial
  | some p => exact .pure _ fun _ _ h => h p rfl

end Member

namespace Worker

variable {name newName : Buffer}

theorem calls_receiveFile (size : Nat) : Calls u [name] (receiveFile P (filePath u name) size) := by
  have hname : name ∈ [name] := List.mem_singleton_self name
  refine .bind (guarded_create (lasts_hasRead [name]) rfl ?_) fun r => ?_
  · rintro t c hread (rfl | rfl)
    · exact addressed_of_hasRead hread hname (by simp)
    · exact addressed_of_hasRead hread hname (by simp)
  · obtain ⟨file, error⟩ := r
    cases error with
    | some e => exact .pure _ fun _ _ h => h.1
    | none =>
        have hwrites : Lasting Traced (Addressing u) (Writes u name file) := lasting_guarded (lasts_writes file)
        have hrecv : ∀ n t a t', Writes u name file t → Traced (I := Sys) t (.recv n) a t' →
            Addressing u t (.recv n) a t' ∧ Writes u name file t' := fun n => guarded_recv (lasts_writes file) n
        exact .bind (hwrites.receiveChunks (calls_writeChunk file) (fun _ _ => hrecv _) _ _) fun b =>
          .bind (hwrites.receiveLastChunk (calls_writeChunk file) (fun _ _ => hrecv _) _ b) fun _ =>
          .bind (hwrites.sendPacket _) fun _ => .pure _ fun _ _ h => h.1

theorem calls_uploadFile (hcode : commandCode request = RequestCodes.uploadReq) :
    Triple Traced (Addressing u) (Handling u [] request) (uploadFile P request) (fun _ _ _ => True)
      fun _ _ _ => True := by
  refine .bind (calls_readName fun beyond => ?_) fun name => calls_get fun s hs => ?_
  · rw [requestNames, if_pos (Or.inl hcode)]
    exact List.mem_singleton_self _
  · subst hs
    refine .bind (calls_onFile (File.only_exists _) ?_) fun found => .bind (lasting_calls.sendPacket _)
      fun _ => calls_receiveFile _
    rintro t c hread rfl
    exact addressed_of_hasRead hread (List.mem_singleton_self name) (by simp)

theorem calls_downloadFile (hcode : commandCode request = RequestCodes.downloadReq) :
    Triple Traced (Addressing u) (Handling u [] request) (downloadFile P request) (fun _ _ _ => True)
      fun _ _ _ => True := by
  refine .bind (calls_readName fun beyond => ?_) fun name => calls_get fun s hs => ?_
  · rw [requestNames, if_pos (Or.inr (Or.inl hcode))]
    exact List.mem_singleton_self _
  · subst hs
    refine .bind (lasting_calls.call (by simp)) fun unset =>
      .bind (guarded_read (lasts_hasRead [name]) rfl ?_) fun r => ?_
    · rintro t c hread (rfl | rfl | rfl)
      all_goals exact addressed_of_hasRead hread (List.mem_singleton_self name) (by simp)
    · obtain ⟨file, error⟩ := r
      have hreads : Lasting Traced (Addressing s.username) (Reads s.username name file) :=
        lasting_guarded (lasts_reads file)
      exact .bind (hreads.markRefused _ _) fun _ => .bind (hreads.sendPacket _) fun _ =>
        (hreads.sendFile (calls_readChunk file)).conseq (fun _ _ => id) (fun _ _ _ h => h.1)
          fun _ _ _ => id

theorem calls_listFiles : Triple Traced (Addressing u) (Handling u [] request) (listFiles P)
    (fun _ _ _ => True) fun _ _ _ => True := by
  refine calls_get fun s hs => ?_
  subst hs
  refine .bind (calls_onFile (only_isDirectory _) ?_) fun isDir => ?_
  · rintro t c - rfl
    exact Or.inl rfl
  · split
    · refine .bind (calls_onFile (File.only_getFileNames (X := fun _ => False) _) ?_) fun fileNames =>
        .bind (lasting_calls.sendPacket _) fun _ => lasting_calls.sendList fileNames
      rintro t c - rfl
      rfl
    · exact .bind (lasting_calls.sendPacket _) fun _ => passes_pure _

theorem calls_renameFile (hcode : commandCode request = RequestCodes.renameReq) :
    Triple Traced (Addressing u) (Handling u [] request) (renameFile P request) (fun _ _ _ => True)
      fun _ _ _ => True := by
  have hnames : ∀ beyond, requestNames request beyond =
      [cstr ((RenameM1.deserialize request).fileName.bytes ++
        (RenameM1.deserialize request).newFileName.bytes ++ beyond),
        cstr ((RenameM1.deserialize request).newFileName.bytes ++ beyond)] := by
    intro beyond
    rw [requestNames, hcode]
    rfl
  refine .bind (calls_readName fun beyond => ?_) fun name => .bind (calls_readName fun beyond => ?_)
    fun newName => calls_get fun s hs => ?_
  · rw [hnames]
    exact List.mem_cons_self ..
  · rw [hnames]
    exact List.mem_cons_of_mem _ (List.mem_singleton_self _)
  · subst hs
    refine .bind (calls_onFile (only_renameCode _ _) ?_) fun code => .bind (lasting_calls.sendPacket _)
      fun _ => passes_pure _
    have hname : name ∈ [newName, name] := by simp
    have hnew : newName ∈ [newName, name] := by simp
    rintro t c hread (rfl | rfl | rfl)
    · exact addressed_of_hasRead hread hname (by simp)
    · exact addressed_of_hasRead hread hnew (by simp)
    · exact ⟨⟨name, hread name hname, rfl⟩, newName, hread newName hnew, rfl⟩

theorem calls_deleteFile (hcode : commandCode request = RequestCodes.deleteReq) :
    Triple Traced (Addressing u) (Handling u [] request) (deleteFile P request) (fun _ _ _ => True)
      fun _ _ _ => True := by
  refine .bind (calls_readName fun beyond => ?_) fun name => calls_get fun s hs => ?_
  · rw [requestNames, if_pos (Or.inr (Or.inr hcode))]
    exact List.mem_singleton_self _
  · subst hs
    refine .bind (calls_onFile (only_deleteCode _) ?_) fun code => .bind (lasting_calls.sendPacket _)
      fun _ => passes_pure _
    rintro t c hread (rfl | rfl)
    all_goals exact addressed_of_hasRead hread (List.mem_singleton_self name) (by simp)

theorem calls_returning {K : Session → List Handshake.Event → Prop} {r : Member Int}
    (hr : Triple Traced (Addressing u) K r (fun _ _ _ => True) fun _ _ _ => True) :
    Triple Traced (Addressing u) K (returning r) (fun _ _ _ => True) fun _ _ _ => True :=
  (triple_returning (Q := fun _ _ _ => True) hr).conseq (fun _ _ => id) (fun _ _ _ => id)
    fun _ _ _ => id

theorem calls_command : Triple Traced (Addressing u) (Handling u [] request)
    (command P (commandCode request) request) (fun _ _ _ => True) fun _ _ _ => True := by
  have hnone : ∀ {x : Session} {t : List Event}, Handling u [] request x t → HasRead [] t :=
    fun h => h.2.2
  have hlasting : Lasting Traced (Addressing u) (HasRead []) := lasting_calls
  unfold command
  split_ifs with hupload hdownload hlist hrename hdelete hlogout
  · exact calls_returning (calls_uploadFile hupload)
  · exact calls_returning (calls_downloadFile hdownload)
  · exact calls_returning calls_listFiles
  · exact calls_returning (calls_renameFile hrename)
  · exact calls_returning (calls_deleteFile hdelete)
  · exact calls_returning (hlasting.logout.conseq (fun _ _ => hnone)
      (fun _ _ _ _ => trivial) fun _ _ _ => id)
  · exact (Triple.bind (hlasting.call (by simp)) fun _ => passes_pure _).conseq
      (fun _ _ => hnone) (fun _ _ _ _ => trivial) fun _ _ _ => id

/-- The command loop calls the file system only on what it has read, by induction on its bound. -/
theorem calls_commandLoop (n : Nat) : Triple Traced (Addressing u) (fun x _ => x.username = u)
    (commandLoop P n) (fun _ _ _ => True) fun _ _ _ => True := by
  induction n with
  | zero => exact .throw _ fun _ _ _ => trivial
  | succ n ih =>
      refine .bind (calls_expectPacket _ _) fun payload => ?_
      have hcommand : Triple Traced (Addressing u) (Handling u [] payload)
          (command P (commandCode payload) payload) (fun _ x _ => x.username = u) fun _ _ _ => True :=
        (calls_command.and (stays_command (u := u) _ payload).triple).conseq (fun _ _ h => ⟨h, h.1⟩)
          (fun _ _ _ h => h.2) fun _ _ _ _ => trivial
      refine .bind hcommand fun result => ?_
      split_ifs
      · exact .throw _ fun _ _ _ => trivial
      · exact .pure _ fun _ _ _ => trivial
      · exact ih

/-- **A worker touches no file before it has authenticated its user, and then only under paths that begin with
    the folder of that user and go on with names that it has read from requests**, or by streams that come
    from such paths. This is so in every run of `start`, on any machine and with any network. -/
theorem files_after_login (P : Platform) (x : Session) (h h' : Host)
    (q : Program Sys (Except Exit Int × Session)) (t front rest : List Handshake.Event) (call : FileCall)
    (a : call.Ans) (hrun : Program.Reaches (Program.Logged Host.anyEnv) (start P x, h, []) (q, h', t))
    (hcall : t = front ++ ⟨.sys (.file call), a⟩ :: rest) :
    ∃ u, Authenticated u front ∧ Addressed u (reading front).names front call := by
  have hrest : Gated (fun t c => ∃ u, Authenticated u t ∧ Addresses u t c)
      (fun x t => ∃ u, x.username = u ∧ Authenticated u t) (commandLoop P (intMax + 2)) := by
    rintro x t ⟨u, huser, ht⟩
    have hlasts := sat_lasts (lasts_authenticated u) (commandLoop P (intMax + 2) x) ht
    have hcalls := (calls_commandLoop (P := P) (intMax + 2)).program (s := t) huser
    apply (hlasts.and hcalls).mono (fun _ _ _ _ => id)
    · exact fun t o _ _ hboth c hc => ⟨u, hboth.1, hboth.2 c hc⟩
    · intro y t _
      split <;> trivial
  have hlogin : Proves (fun _ => True) [] (login P) fun _ x t =>
      ∃ u, x.username = u ∧ Authenticated u t :=
    (proves_login (P := P)).conseq (fun _ _ => id) (fun _ _ _ h => h.2) fun _ _ _ => id
  exact (gated_start hlogin hrest).before hrun hcall

/-- `user1` logs in and stores a file `a` of one byte. -/
def uploadAfterLogin : List Choice :=
  [.deliver (little 8 5), .deliver (ascii "user1"), .grant, .deliver (little 8 1), .grant, .deliver [1]] ++
    List.replicate 14 .grant ++ [.deliver [0]] ++ List.replicate 3 .grant ++
    .deliver (sealedFrame 0 ((UploadM1.new (ascii "a") 1).serialize .little)) :: List.replicate 10 .grant ++
    .deliver (sealedFrame 1 [RequestCodes.uploadChunk, 97]) :: List.replicate 7 .grant

/-- A file is written. -/
def writing : Handshake.Event → Bool
  | ⟨.sys (.file (.write _ _)), _⟩ => true
  | _ => false

set_option maxRecDepth 20000 in
/-- The byte is written to a stream that the opening of a path in the folder has given. -/
theorem files_after_login_uploadAfterLogin : ∃ (front : List Handshake.Event) (handle : Nat) (data : Buffer)
    (a : Bool) (rest : List Handshake.Event),
    Host.events uploadAfterLogin (start (.aes .little) .new, emptyFolder) =
      front ++ ⟨.sys (.file (.write handle data)), a⟩ :: rest ∧
        ∃ u, Authenticated u front ∧
          ∃ name ∈ (reading front).names, WriteStream front (filePath u name) handle := by
  have hwrites : ∃ e ∈ Host.events uploadAfterLogin (start (.aes .little) .new, emptyFolder), writing e := by
    decide +kernel
  obtain ⟨e, he, hwrite⟩ := hwrites
  obtain ⟨front, rest, hsplit⟩ := List.append_of_mem he
  unfold writing at hwrite
  split at hwrite
  · rename_i handle data a
    have hrun := Host.reaches_events uploadAfterLogin (p := start (.aes .little) .new) emptyFolder []
    rw [List.nil_append] at hrun
    exact ⟨front, handle, data, a, rest, hsplit,
      files_after_login _ _ _ _ _ _ front rest (.write handle data) a hrun hsplit⟩
  · cases hwrite

end Worker

end CloudStorage
