import CloudStorage.Calls

set_option autoImplicit false

/-! # What the shared functions keep

A property of the state of a run that no call but those into the file system, and no receive, takes
away is `Lasting`. A function that only sends keeps it, and so does one that receives, reads or writes,
where the receive or the call on its file does. -/

namespace CloudStorage

open Interaction Interaction.Routine

variable {S : Type} {rely guar : Transition Sys S} {P : Platform} {K K' : S → Prop} {α : Type}

/-- Started where `K` holds, the function ends with `Q` unless it ends early. -/
abbrev Passes (rely guar : Transition Sys S) (K : S → Prop) (r : Member α) (Q : α → S → Prop) : Prop :=
  Triple rely guar (fun _ => K) r (fun a _ => Q a) fun _ _ _ => True

/-- The calls besides receives and those into the file system are allowed and keep `K`. -/
structure Lasting (rely guar : Transition Sys S) (K : S → Prop) : Prop where
  send : ∀ data s a s', K s → rely s (.send data) a s' → guar s (.send data) a s' ∧ K s'
  sys : ∀ o, (∀ c, o ≠ .file c) → ∀ s a s', K s → rely s (.sys o) a s' →
    guar s (.sys o) a s' ∧ K s'

theorem passes_pure (a : α) : Passes rely guar K (pure a : Member α) fun _ => K := .pure _ fun _ _ h => h

theorem passes_exit (e : Exit) {Q : α → S → Prop} :
    Passes rely guar K (Routine.throw e : Member α) Q := .throw _ fun _ _ _ => trivial

theorem passes_get : Passes rely guar K (Routine.get : Member Session) fun _ => K := .get fun _ _ h => h

theorem passes_modify (f : Session → Session) :
    Passes rely guar K (Routine.modify f : Member Unit) fun _ => K := fun _ _ h => h

theorem passes_require (b : Bool) (e : Exit) :
    Passes rely guar K (Routine.require b e : Member Unit) fun _ => K :=
  (Triple.require b e fun _ _ _ => trivial).conseq (fun _ _ => id) (fun _ _ _ h => h.2) fun _ _ _ => id

theorem passes_unless (result n : Int) :
    Passes rely guar K (if n = -1 then Routine.throw (.returned result) else pure () : Member Unit)
      fun _ => K := by
  by_cases hend : n = -1
  · rw [if_pos hend]
    exact passes_exit _
  · rw [if_neg hend]
    exact passes_pure _

theorem passes_call {o : Sys.Op}
    (h : ∀ s a s', K s → rely s o a s' → guar s o a s' ∧ K' s') :
    Passes rely guar K (Routine.call o : Member (Sys.Ans o)) fun _ => K' :=
  fun _ s hK a s' => h s a s' hK

/-- A function whose calls are allowed and keep `K`. -/
theorem passes_of_only {A : Sys.Op → Prop} {X : Exit → Prop} {r : Member α} (hr : Only A X r)
    (hA : ∀ s o a s', A o → K s → rely s o a s' → guar s o a s' ∧ K s') :
    Passes rely guar K r fun _ => K :=
  (hr.triple fun _ => hA).conseq (fun _ _ => id) (fun _ _ _ => id) fun _ _ _ _ => trivial

/-- The way of a received frame from its opening on. -/
theorem passes_opened (key w : Buffer) :
    Passes rely guar K (Wrapper.deserialize P key w) fun _ => K :=
  passes_of_only (Wrapper.only_deserialize (A := fun _ => False) P key w) fun _ _ _ _ ho => ho.elim

/-- What a call of a member function yields. -/
theorem passes_returning {Q : S → Prop} {r : Member Int} (hQ : ∀ s, Q s)
    (hr : Passes rely guar K r fun _ => Q) : Passes rely guar K (Member.returning r) fun _ => Q := by
  apply Triple.catchExit hr
  intro e
  cases e with
  | returned n => exact .pure _ fun _ s _ => hQ s
  | _ => exact .throw _ fun _ _ _ => trivial

namespace Lasting

theorem call (h : Lasting rely guar K) {o : SysCall} (ho : ∀ c, o ≠ .file c) :
    Passes rely guar K (Member.sys o) fun _ => K := passes_call (h.sys o ho)

theorem sendFrame (h : Lasting rely guar K) (w : Buffer) :
    Passes rely guar K (Member.sendFrame w) fun _ => K :=
  .bind (passes_call (h.send w)) fun _ => .bind (passes_require _ _) fun _ =>
    .bind passes_get fun _ => .bind (passes_modify _) fun _ => .bind (h.call (by simp)) fun _ =>
    passes_unless _ _

theorem serialize (h : Lasting rely guar K) (key : Buffer) (counter : Int) (payload : Buffer) :
    Passes rely guar K (Wrapper.serialize P key counter payload) fun _ => K := by
  apply Triple.bind (h.call (by simp))
  intro iv
  cases iv with
  | none => exact passes_pure _
  | some iv =>
      dsimp only
      split
      · exact passes_pure _
      · exact .bind (h.call (by simp)) fun _ => passes_pure _

theorem sendPacket (h : Lasting rely guar K) (payload : Buffer) :
    Passes rely guar K (Member.sendPacket P payload) fun _ => K :=
  .bind passes_get fun _ => .bind (h.serialize _ _ _) h.sendFrame

theorem advanceReceive (h : Lasting rely guar K) :
    Passes rely guar K Member.advanceReceive fun _ => K :=
  .bind passes_get fun _ => .bind (passes_modify _) fun _ => .bind (h.call (by simp)) fun _ =>
    passes_unless _ _

theorem checkCounter (h : Lasting rely guar K) (c : Int) (p w : Buffer) :
    Passes rely guar K (Member.checkCounter c p w) fun _ => K := by
  apply Triple.bind passes_get
  intro x
  dsimp only
  split
  · exact passes_exit _
  · exact h.call (by simp)

end Lasting

/-- A receive of a frame, which may change what is known. -/
theorem passes_receiveFrame {L : S → Prop} {n : Nat} (hrecv : ∀ s a s', K s →
      rely s (.recv (Wrapper.getSize n)) a s' → guar s (.recv (Wrapper.getSize n)) a s' ∧ L s') :
    Passes rely guar K (Member.receiveFrame P n) fun _ => L := by
  unfold Member.receiveFrame
  dsimp only
  split
  · exact passes_exit _
  · apply Triple.bind (passes_call hrecv)
    intro r
    cases r with
    | none => exact passes_pure _
    | some w =>
        exact .bind passes_get fun _ => .bind (passes_opened _ _) fun _ => passes_pure _

theorem passes_expect {r : Member (Option α)} {Q : α → S → Prop} {result : Int}
    (hr : Passes rely guar K r fun a s => ∀ b, a = some b → Q b s) :
    Passes rely guar K (Member.expect r result) Q := by
  apply Triple.bind hr
  intro a
  cases a with
  | none => exact .throw _ fun _ _ _ => trivial
  | some b => exact .pure _ fun _ _ h => h b rfl

namespace Lasting

theorem receivePacket {n : Nat} (h : Lasting rely guar K') (hrecv : ∀ s a s', K s →
      rely s (.recv (Wrapper.getSize n)) a s' → guar s (.recv (Wrapper.getSize n)) a s' ∧ K' s') :
    Passes rely guar K (Member.receivePacket P n) fun _ => K' := by
  apply Triple.bind (passes_receiveFrame hrecv)
  intro r
  cases r with
  | none => exact passes_pure _
  | some f =>
      obtain ⟨c, p, w⟩ := f
      exact .bind (h.checkCounter c p w) fun _ => .bind h.advanceReceive fun _ => passes_pure _

theorem expectPacket {n : Nat} {result : Int} (h : Lasting rely guar K') (hrecv : ∀ s a s', K s →
      rely s (.recv (Wrapper.getSize n)) a s' → guar s (.recv (Wrapper.getSize n)) a s' ∧ K' s') :
    Passes rely guar K (Member.expectPacket P n result) fun _ => K' :=
  passes_expect ((h.receivePacket hrecv).conseq (fun _ _ => id) (fun _ _ _ hK _ _ => hK)
    fun _ _ _ => id)

theorem readName (h : Lasting rely guar K) (field : Buffer) :
    Passes rely guar K (Member.readName field) fun _ => K :=
  .bind (h.call (by simp)) fun _ => passes_pure _

/-! ## Chunks -/

theorem sendChunk (h : Lasting rely guar K) {file : File} {n : Nat}
    (hread : Passes rely guar K (file.readChunk n) fun _ => K) (m2 : Buffer → ChunkM2) :
    Passes rely guar K (Member.sendChunk P m2 file n) fun _ => K := by
  apply Triple.bind hread
  intro chunk
  split
  · exact passes_exit _
  · exact h.sendPacket _

theorem sendChunks (h : Lasting rely guar K) {file : File}
    (hread : ∀ n, Passes rely guar K (file.readChunk n) fun _ => K) (m2 : Buffer → ChunkM2) (n : Nat) :
    Passes rely guar K (Member.sendChunks P m2 file n) fun _ => K := by
  induction n with
  | zero => exact passes_pure _
  | succ n ih => exact .bind (h.sendChunk (hread _) m2) fun _ => ih

theorem sendLastChunk (h : Lasting rely guar K) {file : File}
    (hread : ∀ n, Passes rely guar K (file.readChunk n) fun _ => K) (m2 : Buffer → ChunkM2) (n : Nat) :
    Passes rely guar K (Member.sendLastChunk P m2 file n) fun _ => K := by
  unfold Member.sendLastChunk
  split
  · exact h.sendChunk (hread n) m2
  · exact passes_pure _

theorem receiveChunks (h : Lasting rely guar K) {write : Bool → Buffer → Member Unit}
    (hwrite : ∀ b chunk, Passes rely guar K (write b chunk) fun _ => K)
    (hrecv : ∀ n, n ≤ Max.maxFileChunk → ∀ s a s', K s →
      rely s (.recv (Wrapper.getSize (ChunkM2.getSize n))) a s' →
        guar s (.recv (Wrapper.getSize (ChunkM2.getSize n))) a s' ∧ K s') (n : Nat) (b : Bool) :
    Passes rely guar K (Member.receiveChunks P write n b) fun _ => K := by
  induction n generalizing b with
  | zero => exact passes_pure _
  | succ n ih =>
      apply Triple.bind (h.receivePacket (hrecv _ (Nat.le_refl _)))
      intro r
      cases r with
      | none => exact ih true
      | some payload => exact .bind (hwrite b _) fun _ => ih b

theorem receiveLastChunk (h : Lasting rely guar K) {write : Bool → Buffer → Member Unit}
    (hwrite : ∀ b chunk, Passes rely guar K (write b chunk) fun _ => K)
    (hrecv : ∀ n, n ≤ Max.maxFileChunk → ∀ s a s', K s →
      rely s (.recv (Wrapper.getSize (ChunkM2.getSize n))) a s' →
        guar s (.recv (Wrapper.getSize (ChunkM2.getSize n))) a s' ∧ K s') (size : Nat) (b : Bool) :
    Passes rely guar K (Member.receiveLastChunk P write b (lastChunkSize size)) fun _ => K := by
  have hsize : lastChunkSize size ≤ Max.maxFileChunk := Nat.le_of_lt (Nat.mod_lt _ (by decide))
  unfold Member.receiveLastChunk
  split
  · exact .bind (h.expectPacket (hrecv _ hsize)) fun _ => hwrite b _
  · exact passes_pure _

/-! ## The ends of the worker's functions -/

theorem sendFile (h : Lasting rely guar K) {file : File}
    (hread : ∀ n, Passes rely guar K (file.readChunk n) fun _ => K) :
    Passes rely guar K (Worker.sendFile P file) fun _ => K :=
  .bind (h.sendChunks hread _ _) fun _ => .bind (h.sendLastChunk hread _ _) fun _ => passes_pure _

theorem sendList (h : Lasting rely guar K) (fileNames : Buffer) :
    Passes rely guar K (Worker.sendList P fileNames) fun _ => K := by
  unfold Worker.sendList
  split
  · exact passes_exit _
  · exact .bind (h.sendPacket _) fun _ => passes_pure _

theorem markRefused (h : Lasting rely guar K) (b : Bool) (file : File) :
    Passes rely guar K (Worker.markRefused b file) fun _ => K := by
  unfold Worker.markRefused
  split
  · exact h.call (by simp)
  · exact passes_pure _

theorem logout (h : Lasting rely guar K) : Passes rely guar K (Worker.logout P) fun _ => K :=
  .bind passes_get fun _ => .bind (h.serialize _ _ _) fun w => .bind (passes_modify _) fun _ =>
    .bind (h.sendFrame w) fun _ => passes_pure _

end Lasting

end CloudStorage
