import CloudStorage.Conduct
import CloudStorage.Gate

set_option autoImplicit false

/-! # A session and its key

What a session does with the key of its login, as a `Conduct` over the calls that have been made: it derives
no other key, calls none of the primitives of the key exchange, and accepts a frame only if it has received
it and it opens under the key to the payload that is accepted. A frame that it seals is made with an IV
that it has drawn. -/

namespace CloudStorage

open Interaction Interaction.Program Interaction.Routine Handshake IdealCrypto

open Wrapper (openFrame counterOf)

namespace Attentive

/-- A call that is none into the key exchange and marks no derivation. -/
def Later : Sys.Op → Prop
  | .sys (.crypto _) => False
  | .sys (.note (.derived _)) => False
  | _ => True

/-- What such calls leave as it is. -/
def Abides (M : List Event → Prop) : Prop := ∀ t o a, Later o → M t → M (t ++ [⟨o, a⟩])

/-- The frame was received, opens to the payload and carries the counter. -/
structure Opened (P : Platform) (key : Buffer) (counter : Int) (payload frame : Buffer)
    (t : List Event) : Prop where
  received : ∃ n, (⟨.recv n, some frame⟩ : Event) ∈ t
  opens : openFrame P key frame = some payload
  carries : counterOf P frame = counter

/-- The frame was made of these under some key, with an IV that was drawn for it. -/
def Made (P : Platform) (counter : Int) (payload frame : Buffer) (t : List Event) : Prop :=
  ∃ key iv, (⟨.sys (.random Wrapper.ivLength), some iv⟩ : Event) ∈ t ∧
    Wrapper.frame P key iv counter payload = some frame

/-- What a session with this key guarantees of its calls. -/
structure Attends (P : Platform) (key : Buffer) (M : List Event → Prop) (t : List Event) (o : Sys.Op) :
    Prop where
  later : Later o
  abides : M t
  accepted : ∀ c p f, o = .sys (.note (.accepted c p f)) → Opened P key c p f t
  made : ∀ c p f, o = .sys (.note (.sealed c p f)) → Made P c p f t

/-- A later call that is not the note of a frame either. -/
def Plain : Sys.Op → Prop
  | .sys (.note (.accepted _ _ _)) => False
  | .sys (.note (.sealed _ _ _)) => False
  | o => Later o

theorem Plain.later : ∀ {o : Sys.Op}, Plain o → Later o
  | .send _, _ | .recv _, _ | .sys (.note (.announced _)), _ | .sys (.note (.refused _)), _
  | .sys (.note (.counted _ _)), _ | .sys (.random _), _ | .sys (.file _), _ | .sys .getline, _
  | .sys .clearAndIgnore, _ | .sys (.garbage _), _ | .sys .overrun, _ | .sys (.print _), _ => trivial

theorem plain_of_unlogged : ∀ {o : Sys.Op}, Unlogged o → Plain o
  | .recv _, _ | .sys (.note (.announced _)), _ | .sys (.note (.refused _)), _
  | .sys (.random _), _ | .sys (.file _), _ | .sys .getline, _ | .sys .clearAndIgnore, _
  | .sys (.garbage _), _ | .sys .overrun, _ | .sys (.print _), _ => trivial

section

variable {P : Platform} {key : Buffer} {M : List Event → Prop} {K : Session → Prop} {α : Type}

/-- The object is as `K` says, and `M` holds. -/
def Holds (K : Session → Prop) (M : List Event → Prop) (x : Session) (t : List Event) : Prop := K x ∧ M t

/-- The triples of this section. -/
abbrev Attending (P : Platform) (key : Buffer) (M : List Event → Prop) (K : Session → Prop)
    (Pre : Session → List Event → Prop) (r : Member α)
    (Post : α → Session → List Event → Prop) : Prop :=
  Triple Traced (fun t o _ _ => Attends P key M t o) Pre r Post (LeftOver (Holds K M))

theorem Plain.attends {o : Sys.Op} {a : Sys.Ans o} {t : List Event} (ho : Plain o) (hM : Abides M)
    (ht : M t) : Attends P key M t o ∧ M (t ++ [⟨o, a⟩]) := by
  refine ⟨⟨ho.later, ht, ?_, ?_⟩, hM t o a ho.later ht⟩
  · rintro c p f rfl
    exact ho.elim
  · rintro c p f rfl
    exact ho.elim

theorem quiet_holds (hM : Abides M) :
    Quiet Traced (fun t o _ _ => Attends P key M t o) (Holds K M) := by
  rintro x t o a t' ho ⟨hx, ht⟩ rfl
  obtain ⟨hattends, ht'⟩ := (plain_of_unlogged ho).attends hM ht
  exact ⟨hattends, hx, ht'⟩

theorem attending_call {o : Sys.Op} (hM : Abides M) (ho : Plain o) {K' : Session → Prop} :
    Attending P key M K (Holds K' M) (Routine.call o : Member (Sys.Ans o)) fun _ => Holds K' M := by
  rintro x t ⟨hx, ht⟩ a t' rfl
  obtain ⟨hattends, ht'⟩ := ho.attends hM ht
  exact ⟨hattends, hx, ht'⟩

/-- The end of a counter ends the function with -1. -/
theorem attending_end {n : Int} :
    Attending P key M K (Holds K M)
      (if n = -1 then Routine.throw (.returned (-1)) else pure () : Member Unit) fun _ => Holds K M := by
  split_ifs
  · exact .throw _ fun x t _ n hn => Or.inl (Exit.returned.inj hn).symm
  · exact .pure _ fun _ _ h => h

theorem attending_sendFrame (hM : Abides M) (hK : ∀ x n, K x → K { x with sCounter := n }) (w : Buffer) :
    Attending P key M K (Holds K M) (Member.sendFrame w) fun _ => Holds K M := by
  refine .bind (attending_call hM (o := .send w) trivial) fun sent => ?_
  refine .bind ((Triple.require sent _ fun x t h n _ => Or.inr h).conseq (fun _ _ => id)
    (fun _ _ _ h => h.2) fun _ _ _ => id) fun _ => ?_
  refine .bind (.get fun _ _ h => h) fun s => ?_
  refine .bind (P := fun _ => Holds K M) (fun x t h => ⟨hK x _ h.1, h.2⟩) fun _ => ?_
  exact .bind (attending_call hM (o := .sys (.note (.counted _ _))) trivial) fun _ => attending_end

/-- What is sealed was made with the IV that was drawn. -/
theorem attending_serialize (hM : Abides M) (key' : Buffer) (counter : Int) (payload : Buffer) :
    Attending P key M K (Holds K M) (Wrapper.serialize P key' counter payload) fun _ => Holds K M := by
  rintro x t ⟨hx, ht⟩
  simp only [Wrapper.serialize, Routine.sat_bind, Member.sat_random]
  rintro iv t' rfl
  obtain ⟨hattends, ht'⟩ := Plain.attends (P := P) (o := .sys (.random Wrapper.ivLength)) (a := iv)
    trivial hM ht
  refine ⟨hattends, ?_⟩
  cases iv with
  | none => exact ⟨hx, ht'⟩
  | some iv =>
      dsimp only
      split
      · exact ⟨hx, ht'⟩
      · rename_i wrapper hframe
        simp only [Routine.sat_bind, Member.sat_note, sat_pure]
        rintro u t'' rfl
        refine ⟨⟨trivial, ht', ?_, ?_⟩, hx, hM _ (.sys (.note _)) u trivial ht'⟩
        · rintro c p f heq
          cases heq
        · rintro c p f heq
          cases heq
          exact ⟨key', iv, List.mem_append_right _ (List.mem_singleton_self _), hframe⟩

theorem attending_sendPacket (hM : Abides M) (hK : ∀ x n, K x → K { x with sCounter := n })
    (payload : Buffer) :
    Attending P key M K (Holds K M) (Member.sendPacket P payload) fun _ => Holds K M := by
  refine .bind (.get fun _ _ h => h) fun s => ?_
  exact .bind (attending_serialize hM _ _ _) fun w => attending_sendFrame hM hK w

variable (P key) in
/-- The session has this key. -/
abbrev Ready (M : List Event → Prop) : Session → List Event → Prop :=
  Holds (fun x => x.sessionKey = key) M

/-- What opens was received. -/
theorem attending_receiveFrame (hM : Abides M) (n : Nat) :
    Attending P key M (fun x => x.sessionKey = key) (Ready key M) (Member.receiveFrame P n) fun r x t =>
      match r with
      | none => Ready key M x t
      | some f => Ready key M x t ∧ Opened P key f.1 f.2.1 f.2.2 t := by
  rintro x t ⟨hx, ht⟩
  unfold Member.receiveFrame
  dsimp only
  split
  · exact fun n hn => by cases hn
  · simp only [Routine.sat_bind, Member.sat_receiveData]
    rintro r t' rfl
    obtain ⟨hattends, ht'⟩ := Plain.attends (P := P) (o := .recv (Wrapper.getSize n)) (a := r)
      trivial hM ht
    refine ⟨hattends, ?_⟩
    cases r with
    | none => exact ⟨hx, ht'⟩
    | some w =>
        simp only [Routine.sat_bind, sat_get, Wrapper.deserialize]
        split_ifs
        · exact fun n hn => by cases hn
        · exact fun n hn => by cases hn
        · rw [sat_pure, hx]
          cases hopen : openFrame P key w with
          | none => exact ⟨hx, ht'⟩
          | some p =>
              exact ⟨⟨hx, ht'⟩, ⟨_, List.mem_append_right _ (List.mem_singleton_self _)⟩, hopen, rfl⟩

theorem attending_checkCounter (hM : Abides M) (c : Int) (p w : Buffer) :
    Attending P key M (fun x => x.sessionKey = key) (fun x t => Ready key M x t ∧ Opened P key c p w t)
      (Member.checkCounter c p w) fun _ => Ready key M := by
  rintro x t ⟨⟨hx, ht⟩, hopened⟩
  rw [Member.checkCounter, Routine.sat_bind, sat_get]
  split_ifs
  · exact fun n hn => Or.inl (Exit.returned.inj hn).symm
  · rintro u t' rfl
    refine ⟨⟨trivial, ht, fun c' p' w' heq => ?_, fun c' p' w' heq => by cases heq⟩, hx,
      hM t _ u trivial ht⟩
    cases heq
    exact hopened

theorem attending_advanceReceive (hM : Abides M) :
    Attending P key M (fun x => x.sessionKey = key) (Ready key M) Member.advanceReceive
      fun _ => Ready key M := by
  refine .bind (.get fun _ _ h => h) fun s => ?_
  refine .bind (P := fun _ => Ready key M) (fun x t h => h) fun _ => ?_
  exact .bind (attending_call hM (o := .sys (.note (.counted _ _))) trivial) fun _ => attending_end

theorem attending_workerLogout (hM : Abides M) :
    Triple Traced (fun t o _ _ => Attends P key M t o) (Ready key M) (Worker.logout P)
      (fun _ _ _ => True) fun _ _ _ => True := by
  have hlogout : Attending P key M (fun _ => True) (Ready key M) (Worker.logout P)
      fun _ => Holds (fun _ => True) M := by
    refine .bind (.get (P := fun _ => Holds (fun _ => True) M) fun _ _ h => ⟨trivial, h.2⟩) fun s => ?_
    refine .bind (attending_serialize hM _ _ _) fun w => ?_
    refine .bind (P := fun _ => Holds (fun _ => True) M) (fun x t h => h) fun _ => ?_
    exact .bind (attending_sendFrame hM (fun _ _ h => h) w) fun _ => .pure _ fun _ _ h => h
  exact hlogout.conseq (fun _ _ => id) (fun _ _ _ _ => trivial) fun _ _ _ _ => trivial

variable (P key) in
/-- The conduct of a session with this key. -/
def attentive (hM : Abides M) : Conduct P (List Event) where
  rely := Traced
  guar := fun t o _ _ => Attends P key M t o
  ready := Ready key M
  opened f x t := Ready key M x t ∧ Opened P key f.1 f.2.1 f.2.2 t
  accepting := Ready key M
  left := LeftOver (Ready key M)
  left_ready _ _ _ h := fun _ _ => Or.inr h
  left_accepting _ _ _ := fun _ hn => by cases hn
  ready_quiet := quiet_holds hM
  accepting_quiet := quiet_holds hM
  garbage u := attending_call hM (o := .sys (.garbage u)) trivial
  sendPacket := attending_sendPacket hM fun _ _ h => h
  receiveFrame := attending_receiveFrame hM
  checkCounter := attending_checkCounter hM
  advanceReceive := attending_advanceReceive hM
  workerLogout := attending_workerLogout hM
  closed := Holds (fun _ => True) M
  close _ _ h := ⟨trivial, h.2⟩
  closed_quiet := quiet_holds hM

/-- **A session attends to its key**, in any environment. -/
theorem attends_program (key : Buffer) (hM : Abides M) (side : Endpoint) (n : Nat) :
    Triple Traced (fun t o _ _ => Attends P key M t o) (Ready key M) (side.program P n)
      (fun _ _ _ => True) fun _ _ _ => True :=
  (Conduct.meets_program (D := attentive P key hM) (fun _ _ _ => Iff.rfl) side n).conseq (fun _ _ => id)
    (fun _ _ _ _ => trivial) fun _ _ _ _ => trivial

end

end Attentive

end CloudStorage
