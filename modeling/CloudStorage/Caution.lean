import CloudStorage.Store

set_option autoImplicit false

/-! # Looking before changing

A worker changes a name only after it has looked: it creates a file or renames one to a path where it
has just found no file, and it removes one only for a request to delete. What it has seen is its `Memo`;
whether that is still so is a matter of who else uses the store. -/

namespace CloudStorage

open Interaction Interaction.Routine

/-- The path where the last look found no file, if nothing was done with files since, and the payload
    that was accepted last. -/
structure Memo where
  unused : Option Buffer
  request : Option Buffer

/-- What is known after a call. A request starts with nothing. -/
def Memo.after (m : Memo) : (o : Sys.Op) → Sys.Ans o → Memo
  | .recv n, _ => if n = requestSize then ⟨none, none⟩ else m
  | .sys (.file (.stat path)), (found : Option FileType) =>
    if found = some .notFound ∨ found = some .directory then { m with unused := some path } else m
  | .sys (.file _), _ => { m with unused := none }
  | .sys (.note (.accepted _ payload _)), _ => { m with request := some payload }
  | _, _ => m

def Memoed : Transition Sys Memo := fun m o a m' => m' = m.after o a

/-- The payload of a request to delete was accepted last. -/
def DeleteAsked (m : Memo) : Prop :=
  ∃ payload, m.request = some payload ∧ commandCode payload = RequestCodes.deleteReq

/-- What a worker calls: it has looked where it puts a file, and was asked to remove one. -/
def CautiousCall (m : Memo) : FileCall → Prop
  | .openWrite path | .rename _ path => m.unused = some path
  | .remove _ => DeleteAsked m
  | .stat _ | .fileSize _ | .openRead _ | .read _ _ | .write _ _ | .list _ | .createDirectory _ => True

def Cautious : Transition Sys Memo := fun m o _ _ => ∀ c, o = .sys (.file c) → CautiousCall m c

/-- The triples of this module. -/
abbrev Careful {α : Type} (K : Memo → Prop) (r : Member α) (Q : α → Memo → Prop) : Prop :=
  Passes Memoed Cautious K r Q

/-- A function that changes no names, whatever is known. -/
abbrev Unfazed {α : Type} (r : Member α) : Prop := Careful (fun _ => True) r fun _ _ => True

/-- A call that changes no names. -/
def Mild : FileCall → Prop
  | .openWrite _ | .rename _ _ | .remove _ => False
  | _ => True

variable {P : Platform} {K : Memo → Prop} {m : Memo}

theorem Mild.cautious {c : FileCall} (hc : Mild c) : CautiousCall m c := by
  cases c with
  | openWrite path => exact hc.elim
  | rename path newPath => exact hc.elim
  | remove path => exact hc.elim
  | _ => trivial

theorem lasting_unfazed : Lasting Memoed Cautious fun _ => True where
  send := fun _ _ _ _ _ _ => ⟨fun c hc => (by cases hc), trivial⟩
  sys := fun _ ho _ _ _ _ _ => ⟨fun c hc => absurd (NetOp.sys.inj hc) (ho c), trivial⟩

/-- A function on files that changes no names, where what it calls keeps `K`. -/
theorem careful_onFile {α : Type} {p : FileCall → Prop} {X : Exit → Prop} {r : Member α}
    (hr : Only (OnFile p) X r) (hp : ∀ c, p c → Mild c)
    (hK : ∀ c, p c → ∀ m a, K m → K (m.after (.sys (.file c)) a)) : Careful K r fun _ => K := by
  refine passes_of_only hr fun m o a m' ho hm hstep => ?_
  rw [hstep]
  cases o with
  | sys o =>
      cases o with
      | file c =>
          refine ⟨fun c' hc' => ?_, hK c ho m a hm⟩
          cases hc'
          exact (hp c ho).cautious
      | _ => exact ho.elim
  | _ => exact ho.elim

theorem unfazed_onFile {α : Type} {p : FileCall → Prop} {X : Exit → Prop} {r : Member α}
    (hr : Only (OnFile p) X r) (hp : ∀ c, p c → Mild c) : Unfazed r :=
  careful_onFile hr hp fun _ _ _ _ _ => trivial

/-! ## What is known -/

/-- What is known to be unused was so before a call that left the names as they were, or it is what the
    call has just looked at. -/
theorem Memo.unused_answer {h : Host} {ch : Choice} {o : Sys.Op} {path : Buffer}
    (hp : (m.after o (h.answer ch o).1).unused = some path) :
    (isRequest o = false ∧ m.unused = some path ∧ ∀ c, o = .sys (.file c) → ∃ q, c = .stat q) ∨
      o = .sys (.file (.stat path)) ∧ h.fs.fileType path ≠ some .regular := by
  cases o with
  | send data => exact Or.inl ⟨rfl, hp, fun c hc => by cases hc⟩
  | recv n =>
      simp only [after] at hp
      split_ifs at hp with hn
      exact Or.inl ⟨by simpa [isRequest] using hn, hp, fun c hc => by cases hc⟩
  | sys o =>
      cases o with
      | file c =>
          cases c with
          | stat q =>
              simp only [after] at hp
              split_ifs at hp with hfound
              · right
                obtain rfl : q = path := Option.some.inj hp
                refine ⟨rfl, fun hregular => ?_⟩
                simp only [Host.answer, Host.answerSys, FileCall.answer, hregular] at hfound
                cases ch.fault <;> simp at hfound
              · exact Or.inl ⟨rfl, hp, fun c hc => by cases hc; exact ⟨q, rfl⟩⟩
          | _ => cases hp
      | note e =>
          refine Or.inl ⟨rfl, ?_, fun c hc => by cases hc⟩
          cases e with
          | _ => exact hp
      | _ => exact Or.inl ⟨rfl, hp, fun c hc => by cases hc⟩

/-- The notes tell that a payload was accepted. -/
def HasAccepted (notes : List Note) (payload : Buffer) : Prop :=
  ∃ counter frame, Note.accepted counter payload frame ∈ notes

/-- The payload that was accepted last is in the notes. -/
theorem Memo.request_answer {h : Host} {ch : Choice} {o : Sys.Op} {payload : Buffer}
    (hm : ∀ p, m.request = some p → HasAccepted h.notes p)
    (hp : (m.after o (h.answer ch o).1).request = some payload) :
    HasAccepted (h.answer ch o).2.notes payload := by
  cases o with
  | send data =>
      have hnotes : (h.answer ch (.send data)).2.notes = h.notes := by
        simp only [Host.answer, Host.put]
        split_ifs
        · rfl
        · rfl
        · rfl
      rw [hnotes]
      exact hm payload hp
  | recv n =>
      simp only [after] at hp
      split_ifs at hp
      exact hm payload hp
  | sys o =>
      cases o with
      | file c =>
          cases c with
          | stat q =>
              simp only [after] at hp
              split_ifs at hp
              · exact hm payload hp
              · exact hm payload hp
          | _ => exact hm payload hp
      | note e =>
          cases e with
          | accepted counter p frame =>
              obtain rfl : p = payload := Option.some.inj hp
              exact ⟨counter, frame, List.mem_append_right _ (List.mem_singleton.2 rfl)⟩
          | _ =>
              obtain ⟨counter, frame, hmem⟩ := hm payload hp
              exact ⟨counter, frame, List.mem_append_left _ hmem⟩
      | _ => exact hm payload hp

/-- Notes are only added. -/
theorem HasAccepted.answer {h : Host} {payload : Buffer} (hp : HasAccepted h.notes payload)
    (ch : Choice) (o : Sys.Op) : HasAccepted (h.answer ch o).2.notes payload := by
  cases o with
  | send data =>
      simp only [Host.answer, Host.put]
      split_ifs
      · exact hp
      · exact hp
      · exact hp
  | recv n => exact hp
  | sys o =>
      cases o with
      | note e =>
          obtain ⟨counter, frame, hmem⟩ := hp
          exact ⟨counter, frame, List.mem_append_left _ hmem⟩
      | _ => exact hp

/-! ## Looking -/

/-- Where `exists` finds no file, the path is known to be unused. -/
theorem careful_exists (path : Buffer) : Careful (fun _ => True) (File.exists path)
    fun found m => found = false → m.unused = some path := by
  have hstat : ∀ Q : Option FileType → Memo → Prop,
      (∀ m a, Q a (Memo.after m (.sys (.file (.stat path))) a)) →
        Careful (fun _ => True) (Member.file (.stat path)) Q := by
    intro Q hQ x m _ a m' hstep
    rw [hstep]
    exact ⟨fun c hc => (by cases hc; trivial), hQ m a⟩
  -- a first look at anything that is there, and a second one at its kind
  refine .bind (hstat (fun a m => a = some .notFound → m.unused = some path) ?_) fun found => ?_
  · rintro m a rfl
    simp [Memo.after]
  · cases found with
    | none => exact passes_exit _
    | some found =>
        have hsecond : Careful (fun _ => True) (File.isRegularFile path)
            fun found m => found = false → m.unused = some path := by
          refine .bind (hstat (fun a m => a = some .notFound ∨ a = some .directory →
            m.unused = some path) ?_) fun found => ?_
          · intro m a ha
            simp [Memo.after, ha]
          · cases found with
            | none => exact passes_exit _
            | some found =>
                cases found with
                | notFound => exact .pure _ fun _ _ h _ => h (Or.inl rfl)
                | regular => exact .pure _ fun _ _ _ h => by cases h
                | directory => exact .pure _ fun _ _ h _ => h (Or.inr rfl)
        cases found with
        | notFound => exact .pure _ fun _ _ h _ => h rfl
        | regular => exact hsecond.weaken fun _ _ _ => trivial
        | directory => exact hsecond.weaken fun _ _ _ => trivial

/-- Creating a file, where nothing was found. -/
theorem careful_create (f : File) (path : Buffer) : Unfazed (f.create path) := by
  have hexists : Careful (fun _ => True) (Member.attempt (File.exists path))
      fun found m => found = .ok false → m.unused = some path := by
    apply Triple.catchExit (E := fun _ _ _ => True)
    · refine .bind (careful_exists path) fun found => .pure _ fun _ _ h heq => h ?_
      exact Except.ok.inj heq
    · intro e
      cases e with
      | thrown e => exact .pure _ fun _ _ _ heq => by cases heq
      | _ => exact .throw _ fun _ _ _ => trivial
  refine .bind hexists fun found => ?_
  cases found with
  | error e => exact .pure _ fun _ _ _ => trivial
  | ok found =>
      cases found with
      | true => exact .pure _ fun _ _ _ => trivial
      | false =>
          dsimp only
          split
          · apply Triple.bind (P := fun _ _ _ => True)
            · intro x m hm a m' _
              exact ⟨fun c hc => (by cases hc; exact hm rfl), trivial⟩
            · intro handle
              cases handle with
              | none => exact .pure _ fun _ _ _ => trivial
              | some handle => exact .pure _ fun _ _ _ => trivial
          · exact .pure _ fun _ _ _ => trivial

/-! ## The worker -/

/-- A received request is the payload accepted last. -/
theorem careful_expectPacket (n : Nat) (result : Int) :
    Careful (fun _ => True) (Member.expectPacket P n result) fun p m => m.request = some p := by
  apply passes_expect
  refine .bind (passes_receiveFrame (L := fun _ => True) fun _ _ _ _ _ =>
    ⟨fun c hc => (by cases hc), trivial⟩) fun r => ?_
  cases r with
  | none => exact .pure _ fun _ _ _ b hb => by cases hb
  | some f =>
      obtain ⟨c, p, w⟩ := f
      have hcheck : Careful (fun _ => True) (Member.checkCounter c p w) fun _ m => m.request = some p := by
        refine .bind passes_get fun x => ?_
        dsimp only
        split
        · exact passes_exit _
        · refine passes_call fun m a m' _ hstep => ⟨fun c hc => (by cases hc), ?_⟩
          rw [hstep]
          rfl
      have hcounted : ∀ c next, Careful (fun m => m.request = some p) (Member.note (.counted c next))
          fun _ m => m.request = some p := by
        refine fun c next => passes_call fun m a m' hm hstep => ⟨fun c hc => (by cases hc), ?_⟩
        rw [hstep]
        exact hm
      have hadvance : Careful (fun m => m.request = some p) Member.advanceReceive
          fun _ m => m.request = some p :=
        .bind passes_get fun _ => .bind (passes_modify _) fun _ => .bind (hcounted _ _) fun _ =>
          passes_unless _ _
      refine .bind hcheck fun _ => .bind hadvance fun _ => .pure _ fun _ _ h b hb => ?_
      rw [← Option.some.inj hb]
      exact h

namespace Worker

theorem unfazed_readChunk (file : File) (n : Nat) : Unfazed (file.readChunk n) := by
  refine unfazed_onFile (file.only_readChunk n) ?_
  rintro c ⟨handle, -, rfl⟩
  trivial

theorem unfazed_writeChunk (file : File) (b : Bool) (chunk : Buffer) :
    Unfazed (writeChunk file b chunk) := by
  refine unfazed_onFile (file.only_writeChunk chunk) ?_
  rintro c ⟨handle, -, rfl⟩
  trivial

theorem unfazed_uploadFile (payload : Buffer) : Unfazed (uploadFile P payload) := by
  have hrecv : ∀ n, n ≤ Max.maxFileChunk → ∀ m a m', True →
      Memoed m (.recv (Wrapper.getSize (ChunkM2.getSize n))) a m' →
        Cautious m (.recv (Wrapper.getSize (ChunkM2.getSize n))) a m' ∧ True :=
    fun _ _ _ _ _ _ _ => ⟨fun c hc => (by cases hc), trivial⟩
  refine .bind (lasting_unfazed.readName _) fun name => .bind passes_get fun x =>
    .bind ((careful_exists _).conseq (fun _ _ => id) (fun _ _ _ _ => trivial) fun _ _ _ => id)
    fun found => .bind (lasting_unfazed.sendPacket _) fun _ => .bind (careful_create _ _) fun r => ?_
  obtain ⟨file, error⟩ := r
  cases error with
  | some e => exact .pure _ fun _ _ _ => trivial
  | none =>
      exact .bind (lasting_unfazed.receiveChunks (unfazed_writeChunk file) hrecv _ _) fun b =>
        .bind (lasting_unfazed.receiveLastChunk (unfazed_writeChunk file) hrecv _ b) fun _ =>
        .bind (lasting_unfazed.sendPacket _) fun _ => .pure _ fun _ _ _ => trivial

theorem unfazed_downloadFile (payload : Buffer) : Unfazed (downloadFile P payload) := by
  have hread : ∀ (f : File) path, Unfazed (f.read path) := by
    intro f path
    refine unfazed_onFile (f.only_read (X := fun _ => False) path) ?_
    rintro c (rfl | rfl | rfl)
    · trivial
    · trivial
    · trivial
  refine .bind (lasting_unfazed.readName _) fun name => .bind passes_get fun x =>
    .bind (lasting_unfazed.call (by simp)) fun unset => .bind (hread _ _) fun r => ?_
  obtain ⟨file, error⟩ := r
  exact .bind (lasting_unfazed.markRefused _ _) fun _ => .bind (lasting_unfazed.sendPacket _) fun _ =>
    lasting_unfazed.sendFile (unfazed_readChunk file)

theorem unfazed_listFiles : Unfazed (listFiles P) := by
  refine .bind passes_get fun x => .bind (unfazed_onFile (Member.only_isDirectory _) ?_)
    fun isDir => ?_
  · rintro c rfl
    trivial
  · split
    · refine .bind (unfazed_onFile (File.only_getFileNames (X := fun _ => False) _) ?_)
        fun names => .bind (lasting_unfazed.sendPacket _) fun _ => lasting_unfazed.sendList names
      rintro c rfl
      trivial
    · exact .bind (lasting_unfazed.sendPacket _) fun _ => passes_pure _

theorem unfazed_renameFile (payload : Buffer) : Unfazed (renameFile P payload) := by
  have hcode : ∀ path newPath, Unfazed (renameCode path newPath) := by
    intro path newPath
    refine .bind (careful_exists path) fun found => ?_
    split
    · refine .bind ((careful_exists newPath).weaken fun _ _ _ => trivial) fun found => ?_
      cases found with
      | true => exact .pure _ fun _ _ _ => trivial
      | false =>
          refine .bind (P := fun _ _ _ => True) ?_ fun done => ?_
          · exact passes_call fun m a m' hm _ => ⟨fun c hc => (by cases hc; exact hm rfl), trivial⟩
          · split
            · exact passes_pure _
            · exact passes_pure _
    · exact .pure _ fun _ _ _ => trivial
  exact .bind (lasting_unfazed.readName _) fun _ => .bind (lasting_unfazed.readName _) fun _ =>
    .bind passes_get fun _ => .bind (hcode _ _) fun _ => .bind (lasting_unfazed.sendPacket _)
    fun _ => passes_pure _

/-- A file is removed only where a request to delete was accepted last. -/
theorem careful_deleteFile (payload : Buffer) :
    Careful DeleteAsked (deleteFile P payload) fun _ _ => True := by
  have hname : ∀ field, Careful DeleteAsked (Member.readName field) fun _ => DeleteAsked := by
    refine fun field => passes_of_only (Member.only_readName (X := fun _ => False) field) ?_
    rintro m o a m' rfl hm hstep
    rw [hstep]
    exact ⟨fun c hc => (by cases hc), hm⟩
  have hlook : ∀ path, Careful DeleteAsked (File.exists path) fun _ => DeleteAsked := by
    refine fun path => careful_onFile (File.only_exists path) ?_ ?_
    · rintro c rfl
      trivial
    · rintro c rfl m a ⟨payload, hrequest, hcode⟩
      refine ⟨payload, ?_, hcode⟩
      simp only [Memo.after]
      split_ifs
      · exact hrequest
      · exact hrequest
  have hcode : ∀ path, Careful DeleteAsked (deleteCode path) fun _ _ => True := by
    refine fun path => .bind (hlook path) fun found => ?_
    split
    · refine .bind (P := fun _ _ _ => True) ?_ fun done => ?_
      · exact passes_call fun m a m' hm _ => ⟨fun c hc => (by cases hc; exact hm), trivial⟩
      · split
        · exact passes_pure _
        · exact passes_pure _
    · exact .pure _ fun _ _ _ => trivial
  exact .bind (hname _) fun _ => .bind passes_get fun _ => .bind (hcode _) fun _ =>
    .bind (lasting_unfazed.sendPacket _) fun _ => passes_pure _

theorem careful_command (payload : Buffer) :
    Careful (fun m => m.request = some payload) (command P (commandCode payload) payload)
      fun _ _ => True := by
  have hhandler : ∀ {r : Member Int}, Unfazed r →
      Careful (fun m => m.request = some payload) (Member.returning r) fun _ _ => True :=
    fun hr => passes_returning (fun _ => trivial) (hr.weaken fun _ _ _ => trivial)
  unfold command
  split_ifs with _ _ _ _ hdelete
  · exact hhandler (unfazed_uploadFile payload)
  · exact hhandler (unfazed_downloadFile payload)
  · exact hhandler unfazed_listFiles
  · exact hhandler (unfazed_renameFile payload)
  · exact passes_returning (fun _ => trivial)
      ((careful_deleteFile payload).weaken fun _ m hm => ⟨payload, hm, hdelete⟩)
  · exact hhandler lasting_unfazed.logout
  · exact .bind ((lasting_unfazed.call (by simp)).weaken fun _ _ _ => trivial) fun _ =>
      .pure _ fun _ _ _ => trivial

/-- **A worker is cautious**, by induction on the bound of its loop. -/
theorem careful_commandLoop (n : Nat) : Unfazed (commandLoop P n) := by
  induction n with
  | zero => exact passes_exit _
  | succ n ih =>
      refine .bind (careful_expectPacket _ _) fun payload => .bind (careful_command payload)
        fun result => ?_
      split_ifs
      · exact passes_exit _
      · exact passes_pure _
      · exact ih

end Worker

end CloudStorage
