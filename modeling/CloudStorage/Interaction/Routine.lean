import CloudStorage.Interaction.Program

set_option autoImplicit false

/-! # Member functions

A `Routine` is a program with an object it may read and write, and with early exits: a C++ member
function that can `return` or throw from the middle. `Routine.Sat` is the safety judgement of
`Program` with a second postcondition, for the early exits, and each way to build a routine has
one rule. The rules are equivalences, so `simp` walks a routine from its first call to its end. -/

namespace Interaction

/-- A member function of an object in `σ`, which ends with a value of `α` or leaves early with one
    of `ε`. -/
def Routine (I : Interface) (σ ε α : Type) : Type := σ → Program I (Except ε α × σ)

namespace Routine

variable {I : Interface} {σ ε ε' α β S : Type}

/-- End with `a`. -/
protected def pure (a : α) : Routine I σ ε α := fun x => .ret (.ok a, x)

/-- Run `r`, then what `f` gives for its value; an early exit of `r` skips `f`. -/
protected def bind (r : Routine I σ ε α) (f : α → Routine I σ ε β) : Routine I σ ε β := fun x =>
  (r x).bind fun
    | (.ok a, x') => f a x'
    | (.error e, x') => .ret (.error e, x')

instance : Monad (Routine I σ ε) where
  pure := Routine.pure
  bind := Routine.bind

/-- Leave early. -/
def throw (e : ε) : Routine I σ ε α := fun x => .ret (.error e, x)

/-- Call the environment. -/
def call (o : I.Op) : Routine I σ ε (I.Ans o) := fun x => .call o fun a => .ret (.ok a, x)

/-- Read the object. -/
def get : Routine I σ ε σ := fun x => .ret (.ok x, x)

/-- Write the object. -/
def modify (f : σ → σ) : Routine I σ ε Unit := fun x => .ret (.ok (), f x)

/-- Run `r` and hand an early exit to `handler`. -/
def catchExit (r : Routine I σ ε α) (handler : ε → Routine I σ ε' α) : Routine I σ ε' α := fun x =>
  (r x).bind fun
    | (.ok a, x') => .ret (.ok a, x')
    | (.error e, x') => handler e x'

/-- Leave early with `e` unless `b`. -/
def require (b : Bool) (e : ε) : Routine I σ ε Unit :=
  if b then pure () else throw e

/-! ## The judgement -/

variable {rely guar rely' guar' : Transition I S}

/-- `Program.Sat` with the ends told apart: `Q` for values, `E` for early exits. -/
def Sat (rely guar : Transition I S) (Q : α → σ → S → Prop) (E : ε → σ → S → Prop)
    (r : Routine I σ ε α) (x : σ) (s : S) : Prop :=
  (r x).Sat rely guar (fun y s' => match y.1 with
    | .ok a => Q a y.2 s'
    | .error e => E e y.2 s') s

variable {Q : β → σ → S → Prop} {P : α → σ → S → Prop} {E : ε → σ → S → Prop} {x : σ} {s : S}

@[simp]
theorem sat_pure (a : α) : (pure a : Routine I σ ε α).Sat rely guar P E x s ↔ P a x s := Iff.rfl

@[simp]
theorem sat_bind (r : Routine I σ ε α) (f : α → Routine I σ ε β) :
    (r >>= f).Sat rely guar Q E x s ↔
      r.Sat rely guar (fun a x' s' => (f a).Sat rely guar Q E x' s') E x s := by
  show ((r x).bind _).Sat rely guar _ s ↔ _
  rw [Program.sat_bind]
  constructor
  · intro h
    refine h.imp fun y s' hy => ?_
    obtain ⟨a | e, x'⟩ := y <;> exact hy
  · intro h
    refine h.imp fun y s' hy => ?_
    obtain ⟨a | e, x'⟩ := y <;> exact hy

@[simp]
theorem sat_throw (e : ε) : (throw e : Routine I σ ε α).Sat rely guar P E x s ↔ E e x s := Iff.rfl

@[simp]
theorem sat_call (o : I.Op) (P : I.Ans o → σ → S → Prop) :
    (call o : Routine I σ ε (I.Ans o)).Sat rely guar P E x s ↔
      ∀ a s', rely s o a s' → guar s o a s' ∧ P a x s' := Iff.rfl

@[simp]
theorem sat_get (P : σ → σ → S → Prop) :
    (get : Routine I σ ε σ).Sat rely guar P E x s ↔ P x x s := Iff.rfl

@[simp]
theorem sat_modify (f : σ → σ) (P : Unit → σ → S → Prop) :
    (modify f : Routine I σ ε Unit).Sat rely guar P E x s ↔ P () (f x) s := Iff.rfl

@[simp]
theorem sat_catchExit (r : Routine I σ ε α) (handler : ε → Routine I σ ε' α)
    (E' : ε' → σ → S → Prop) :
    (r.catchExit handler).Sat rely guar P E' x s ↔
      r.Sat rely guar P (fun e x' s' => (handler e).Sat rely guar P E' x' s') x s := by
  show ((r x).bind _).Sat rely guar _ s ↔ _
  rw [Program.sat_bind]
  constructor
  · intro h
    refine h.imp fun y s' hy => ?_
    obtain ⟨a | e, x'⟩ := y <;> exact hy
  · intro h
    refine h.imp fun y s' hy => ?_
    obtain ⟨a | e, x'⟩ := y <;> exact hy

@[simp]
theorem sat_require (b : Bool) (e : ε) (P : Unit → σ → S → Prop) :
    (require b e : Routine I σ ε Unit).Sat rely guar P E x s ↔
      (b = true → P () x s) ∧ (b = false → E e x s) := by
  cases b <;> simp [require]

/-- Consequence. -/
theorem Sat.mono {P' : α → σ → S → Prop} {E' : ε → σ → S → Prop} {r : Routine I σ ε α}
    (h : r.Sat rely guar P E x s) (hrely : ∀ s o a s', rely' s o a s' → rely s o a s')
    (hguar : ∀ s o a s', guar s o a s' → guar' s o a s') (hP : ∀ a x' s', P a x' s' → P' a x' s')
    (hE : ∀ e x' s', E e x' s' → E' e x' s') : r.Sat rely' guar' P' E' x s := by
  refine Program.Sat.mono h hrely hguar fun y s' hy => ?_
  obtain ⟨a | e, x'⟩ := y
  · exact hE _ _ _ hy
  · exact hP _ _ _ hy

/-- Consequence for the ends alone. -/
theorem Sat.imp {P' : α → σ → S → Prop} {E' : ε → σ → S → Prop} {r : Routine I σ ε α}
    (h : r.Sat rely guar P E x s) (hP : ∀ a x' s', P a x' s' → P' a x' s')
    (hE : ∀ e x' s', E e x' s' → E' e x' s') : r.Sat rely guar P' E' x s :=
  h.mono (fun _ _ _ _ => id) (fun _ _ _ _ => id) hP hE

/-! ## Triples

A triple is the judgement for every start that meets a precondition. Its rules compose the
specifications of the routines that a routine is made of. -/

/-- Wherever `Pre` holds, `r` is safe and ends in `P` or leaves in `E`. -/
def Triple (rely guar : Transition I S) (Pre : σ → S → Prop) (r : Routine I σ ε α)
    (P : α → σ → S → Prop) (E : ε → σ → S → Prop) : Prop :=
  ∀ x s, Pre x s → r.Sat rely guar P E x s

namespace Triple

variable {K L : σ → S → Prop} {r : Routine I σ ε α} {f : α → Routine I σ ε β}

theorem pure (a : α) (h : ∀ x s, K x s → P a x s) :
    Triple rely guar K (pure a : Routine I σ ε α) P E := h

theorem throw (e : ε) (h : ∀ x s, K x s → E e x s) :
    Triple rely guar K (throw e : Routine I σ ε α) P E := h

theorem bind (hr : Triple rely guar K r P E) (hf : ∀ a, Triple rely guar (P a) (f a) Q E) :
    Triple rely guar K (r >>= f) Q E := fun x s h =>
  (sat_bind r f).2 ((hr x s h).imp (fun a x' s' ha => hf a x' s' ha) fun _ _ _ => id)

theorem conseq {P' : α → σ → S → Prop} {E' : ε → σ → S → Prop}
    (hr : Triple rely guar K r P E) (hpre : ∀ x s, L x s → K x s)
    (hP : ∀ a x s, P a x s → P' a x s) (hE : ∀ e x s, E e x s → E' e x s) :
    Triple rely guar L r P' E' := fun x s h => (hr x s (hpre x s h)).imp hP hE

theorem weaken (hr : Triple rely guar K r P E) (hpre : ∀ x s, L x s → K x s) :
    Triple rely guar L r P E := fun x s h => hr x s (hpre x s h)

theorem catchExit {ε' : Type} {handler : ε → Routine I σ ε' α} {E' : ε' → σ → S → Prop}
    (hr : Triple rely guar K r P E) (hh : ∀ e, Triple rely guar (E e) (handler e) P E') :
    Triple rely guar K (r.catchExit handler) P E' := fun x s h =>
  (sat_catchExit r handler E').2 ((hr x s h).imp (fun _ _ _ => id) fun e x' s' he => hh e x' s' he)

theorem require (b : Bool) (e : ε) (he : ∀ x s, K x s → E e x s) :
    Triple rely guar K (require b e : Routine I σ ε Unit) (fun _ x s => b = true ∧ K x s) E :=
  fun x s h => (sat_require b e _).2 ⟨fun hb => ⟨hb, h⟩, fun _ => he x s h⟩

theorem get {P : σ → σ → S → Prop} (h : ∀ x s, K x s → P x x s) :
    Triple rely guar K (get : Routine I σ ε σ) P E := h

/-- Every routine meets the triple that asks for nothing. -/
theorem unconstrained (r : Routine I σ ε α) :
    Triple rely (fun _ _ _ _ => True) K r (fun _ _ _ => True) fun _ _ _ => True := by
  intro x s hpre
  clear hpre
  unfold Sat
  generalize r x = p
  induction p generalizing s with
  | ret y =>
      obtain ⟨e | a, x'⟩ := y
      · trivial
      · trivial
  | call o k ih => exact fun a s' _ => ⟨trivial, ih a s'⟩

/-- A triple in an environment that promises more. -/
theorem under (hr : Triple rely guar K r P E) (hrely : ∀ s o a s', rely' s o a s' → rely s o a s') :
    Triple rely' guar K r P E := fun x s h =>
  (hr x s h).mono hrely (fun _ _ _ _ => id) (fun _ _ _ => id) fun _ _ _ => id

/-- Two triples of one routine hold together, guarantees included. -/
theorem both {M : σ → S → Prop} {P' : α → σ → S → Prop} {E' : ε → σ → S → Prop}
    (hr : Triple rely guar K r P E) (hr' : Triple rely guar' M r P' E') :
    Triple rely (fun s o a s' => guar s o a s' ∧ guar' s o a s') (fun x s => K x s ∧ M x s) r
      (fun a x s => P a x s ∧ P' a x s) fun e x s => E e x s ∧ E' e x s := by
  intro x s h
  refine Program.Sat.imp (Program.Sat.and (hr x s h.1) (hr' x s h.2)) fun y s' hy => ?_
  obtain ⟨e | a, x'⟩ := y
  · exact hy
  · exact hy

/-- Two triples about one routine hold together, the second one in any environment. -/
theorem and {M : σ → S → Prop} {P' : α → σ → S → Prop} {E' : ε → σ → S → Prop}
    (hr : Triple rely guar K r P E)
    (hr' : Triple (fun _ _ _ _ => True) (fun _ _ _ _ => True) M r P' E') :
    Triple rely guar (fun x s => K x s ∧ M x s) r (fun a x s => P a x s ∧ P' a x s)
      fun e x s => E e x s ∧ E' e x s := fun x s h =>
  ((hr.both (hr'.under fun _ _ _ _ _ => trivial)) x s h).mono (fun _ _ _ _ => id)
    (fun _ _ _ _ hg => hg.1) (fun _ _ _ => id) fun _ _ _ => id

/-- The judgement about the program that a triple gives. -/
theorem program (hr : Triple rely guar K r P E) (h : K x s) :
    (r x).Sat rely guar (fun y s' => match y.1 with
      | .ok a => P a y.2 s'
      | .error e => E e y.2 s') s := hr x s h

end Triple

/-! ## Calls of one kind

Many routines only make calls of a harmless kind and leave their object alone. `Only` says so once,
and `Only.triple` turns it into a triple for every invariant that calls of that kind keep. -/

/-- `r` calls only operations in `A`, leaves the object as it is, and exits early only in `X`. -/
def Only (A : I.Op → Prop) (X : ε → Prop) (r : Routine I σ ε α) : Prop :=
  ∀ x, r.Sat (fun (_ : Unit) _ _ _ => True) (fun _ o _ _ => A o) (fun _ y _ => y = x)
    (fun e y _ => y = x ∧ X e) x ()

namespace Only

variable {A B : I.Op → Prop} {X X' : ε → Prop} {r : Routine I σ ε α} {f : α → Routine I σ ε β}

theorem pure (a : α) : Only A X (pure a : Routine I σ ε α) := fun _ => rfl

theorem throw {e : ε} (he : X e) : Only A X (throw e : Routine I σ ε α) := fun _ => ⟨rfl, he⟩

theorem get : Only A X (get : Routine I σ ε σ) := fun _ => rfl

theorem call {o : I.Op} (ho : A o) : Only A X (call o : Routine I σ ε (I.Ans o)) :=
  fun _ => (sat_call o _).2 fun _ _ _ => ⟨ho, rfl⟩

theorem bind (hr : Only A X r) (hf : ∀ a, Only A X (f a)) : Only A X (r >>= f) := fun x =>
  (sat_bind r f).2 ((hr x).imp (fun a y _ hy => hy ▸ hf a y) fun _ _ _ => id)

theorem require {b : Bool} {e : ε} (he : X e) : Only A X (require b e : Routine I σ ε Unit) := by
  cases b
  · exact throw he
  · exact pure _

theorem catchExit {ε' : Type} {handler : ε → Routine I σ ε' α} {Y : ε' → Prop} (hr : Only A X r)
    (hh : ∀ e, X e → Only A Y (handler e)) : Only A Y (r.catchExit handler) := fun x =>
  (sat_catchExit r handler _).2 ((hr x).imp (fun _ _ _ => id) fun e y _ he => he.1 ▸ hh e he.2 y)

theorem mono (hr : Only A X r) (hA : ∀ o, A o → B o) (hX : ∀ e, X e → X' e) : Only B X' r :=
  fun x => (hr x).mono (fun _ _ _ _ => id) (fun _ o _ _ => hA o) (fun _ _ _ => id)
    fun e _ _ he => ⟨he.1, hX e he.2⟩

/-- What calls of the kind keep, the routine keeps. -/
theorem triple (hr : Only A X r) {K : σ → S → Prop}
    (hK : ∀ x s o a s', A o → K x s → rely s o a s' → guar s o a s' ∧ K x s') :
    Triple rely guar K r (fun _ => K) fun e x s => X e ∧ K x s := by
  intro x s hs
  have hx := hr x
  unfold Sat at hx ⊢
  generalize r x = p at hx
  induction p generalizing s with
  | ret y =>
      obtain ⟨e | a, x'⟩ := y
      · obtain ⟨rfl, he⟩ := hx
        exact ⟨he, hs⟩
      · obtain rfl : x' = x := hx
        exact hs
  | call o k ih =>
      intro a s' hstep
      obtain ⟨ho, hk⟩ := hx a () trivial
      obtain ⟨hg, hs'⟩ := hK x s o a s' ho hs hstep
      exact ⟨hg, ih a s' hs' hk⟩

end Only

/-- `r` calls only operations in `A` and exits early only in `X`. It may write its object. -/
def Within (A : I.Op → Prop) (X : ε → Prop) (r : Routine I σ ε α) : Prop :=
  ∀ x, r.Sat (fun (_ : Unit) _ _ _ => True) (fun _ o _ _ => A o) (fun _ _ _ => True)
    (fun e _ _ => X e) x ()

namespace Within

variable {A B : I.Op → Prop} {X X' : ε → Prop} {r : Routine I σ ε α} {f : α → Routine I σ ε β}

theorem pure (a : α) : Within A X (pure a : Routine I σ ε α) := fun _ => trivial

theorem throw {e : ε} (he : X e) : Within A X (throw e : Routine I σ ε α) := fun _ => he

theorem get : Within A X (get : Routine I σ ε σ) := fun _ => trivial

theorem modify (f : σ → σ) : Within A X (modify f : Routine I σ ε Unit) := fun _ => trivial

theorem call {o : I.Op} (ho : A o) : Within A X (call o : Routine I σ ε (I.Ans o)) :=
  fun _ => (sat_call o _).2 fun _ _ _ => ⟨ho, trivial⟩

theorem bind (hr : Within A X r) (hf : ∀ a, Within A X (f a)) : Within A X (r >>= f) := fun x =>
  (sat_bind r f).2 ((hr x).imp (fun a y _ _ => hf a y) fun _ _ _ => id)

theorem require {b : Bool} {e : ε} (he : X e) : Within A X (require b e : Routine I σ ε Unit) := by
  cases b
  · exact throw he
  · exact pure _

theorem catchExit {ε' : Type} {handler : ε → Routine I σ ε' α} {Y : ε' → Prop} (hr : Within A X r)
    (hh : ∀ e, X e → Within A Y (handler e)) : Within A Y (r.catchExit handler) := fun x =>
  (sat_catchExit r handler _).2 ((hr x).imp (fun _ _ _ => id) fun e y _ he => hh e he y)

theorem mono (hr : Within A X r) (hA : ∀ o, A o → B o) (hX : ∀ e, X e → X' e) : Within B X' r :=
  fun x => (hr x).mono (fun _ _ _ _ => id) (fun _ o _ _ => hA o) (fun _ _ _ => id)
    fun e _ _ => hX e

theorem of_only (hr : Only A X r) : Within A X r := fun x =>
  (hr x).imp (fun _ _ _ _ => trivial) fun _ _ _ he => he.2

/-- What calls of the kind keep, the routine keeps, if it does not depend on the object. -/
theorem triple (hr : Within A X r) {K : S → Prop}
    (hK : ∀ s o a s', A o → K s → rely s o a s' → guar s o a s' ∧ K s') :
    Triple rely guar (fun _ => K) r (fun _ _ => K) fun e _ s => X e ∧ K s := by
  intro x s hs
  have hx := hr x
  unfold Sat at hx ⊢
  generalize r x = p at hx
  induction p generalizing s with
  | ret y =>
      obtain ⟨e | a, x'⟩ := y
      · exact ⟨hx, hs⟩
      · exact hs
  | call o k ih =>
      intro a s' hstep
      obtain ⟨ho, hk⟩ := hx a () trivial
      obtain ⟨hg, hs'⟩ := hK s o a s' ho hs hstep
      exact ⟨hg, ih a s' hs' hk⟩

end Within

end Routine

end Interaction
