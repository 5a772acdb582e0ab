import CloudStorage.Interaction.Routine

set_option autoImplicit false

/-! # Runs and what went before

A safety judgement over the calls that have been made. In the environment `Traced` the state is the list
of these calls with their answers, so a guarantee can ask for calls that went before, and `Sat.before`
reads it off a run in any environment. What a run has shown once stays shown (`Lasts`), which is why a
program keeps it whatever it calls (`sat_lasts`).

`Gathers` is for functions that collect evidence: `Known` says which calls are on the list. -/

namespace Interaction

namespace Program

variable {I : Interface} {S α : Type}

/-- The calls with their answers are kept, and any answer may come. -/
def Traced : Transition I (List (Event I)) := fun t o a t' => t' = t ++ [⟨o, a⟩]

/-- What stays true of a run as it goes on. -/
def Lasts (M : List (Event I) → Prop) : Prop := ∀ t e, M t → M (t ++ [e])

theorem lasts_mem (e : Event I) : Lasts (e ∈ ·) := fun _ _ he => List.mem_append_left _ he

/-- What a run has shown holds at every later call. -/
theorem sat_lasts {M : List (Event I) → Prop} (hM : Lasts M) (p : Program I α) {t : List (Event I)}
    (ht : M t) : p.Sat Traced (fun t _ _ _ => M t) (fun _ t => M t) t := by
  induction p generalizing t with
  | ret a => exact ht
  | call o k ih =>
      rintro a t' rfl
      exact ⟨ht, ih a (hM t _ ht)⟩

/-- **The calls before a call.** What is guaranteed of the calls of a program is true of each call in any
    run, of the calls that went before it. -/
theorem Sat.before {rely : Transition I S} {guar : List (Event I) → I.Op → Prop}
    {Q : α → List (Event I) → Prop} {p p' : Program I α} {s s' : S} {t t' : List (Event I)}
    (h : p.Sat Traced (fun t o _ _ => guar t o) Q t)
    (hrun : Reaches (Logged rely) (p, s, t) (p', s', t')) :
    ∃ added, t' = t ++ added ∧
      ∀ front o a rest, added = front ++ ⟨o, a⟩ :: rest → guar (t ++ front) o := by
  have hall : ∀ c : Program I α × S × List (Event I), Reaches (Logged rely) (p, s, t) c →
      c.1.Sat Traced (fun t o _ _ => guar t o) Q c.2.2 ∧ ∃ added, c.2.2 = t ++ added ∧
        ∀ front o a rest, added = front ++ ⟨o, a⟩ :: rest → guar (t ++ front) o := by
    intro c hc
    induction hc with
    | refl => exact ⟨h, [], (List.append_nil t).symm, fun front o a rest heq => by simp at heq⟩
    | tail _ hstep ih =>
        obtain ⟨hsat, added, hadded, hbefore⟩ := ih
        cases hstep with
        | @call o k s a s' hanswer =>
            obtain ⟨hguar, hk⟩ := hsat a s'.2 hanswer.2
            refine ⟨hk, added ++ [⟨o, a⟩], ?_, ?_⟩
            · show s'.2 = _
              rw [hanswer.2, ← List.append_assoc]
              exact congrArg (· ++ [⟨o, a⟩]) hadded
            · intro front o' a' rest heq
              rcases List.eq_nil_or_concat rest with rfl | ⟨rest', e, rfl⟩
              · -- the last call, of which the guarantee speaks
                obtain ⟨rfl, hlast⟩ := List.append_inj' heq rfl
                cases hlast
                exact hadded ▸ hguar
              · rw [List.concat_eq_append, ← List.cons_append, ← List.append_assoc] at heq
                exact hbefore front o' a' rest' (List.append_inj' heq rfl).1
  exact (hall _ hrun).2

end Program

namespace Routine

open Program

variable {I : Interface} {σ ε ε' α β : Type} {A : I.Op → Prop} {X : ε → Prop} {p q : σ → Prop}
  {evs evs' : List (Event I)}

/-- The object is as `p` says, and these calls have been made. -/
def Known (p : σ → Prop) (evs : List (Event I)) (x : σ) (t : List (Event I)) : Prop :=
  p x ∧ ∀ e ∈ evs, e ∈ t

/-- Started with what is known, `r` calls only operations in `A`, ends in `Q` and exits early only in
    `X`. -/
abbrev Gathers (A : I.Op → Prop) (X : ε → Prop) (p : σ → Prop) (evs : List (Event I))
    (r : Routine I σ ε α) (Q : α → σ → List (Event I) → Prop) : Prop :=
  Triple Traced (fun _ o _ _ => A o) (Known p evs) r Q fun e _ _ => X e

theorem Known.mono {x : σ} {t : List (Event I)} (h : Known p evs x t) (hp : p x → q x)
    (hevs : ∀ e ∈ evs', e ∈ evs) : Known q evs' x t := ⟨hp h.1, fun e he => h.2 e (hevs e he)⟩

theorem gathers_get : Gathers A X p evs (get : Routine I σ ε σ) fun x x' t =>
    x = x' ∧ Known p evs x' t := .get fun _ _ h => ⟨rfl, h⟩

theorem gathers_modify {f : σ → σ} (hf : ∀ x, p x → q (f x)) :
    Gathers A X p evs (modify f : Routine I σ ε Unit) fun _ => Known q evs :=
  fun _ _ h => ⟨hf _ h.1, h.2⟩

theorem gathers_require {b : Bool} {e : ε} (he : X e) :
    Gathers A X p evs (require b e : Routine I σ ε Unit) fun _ x t => b = true ∧ Known p evs x t :=
  .require b e fun _ _ _ => he

/-- A call is known once it is made. -/
theorem gathers_call {o : I.Op} (ho : A o) :
    Gathers A X p evs (call o : Routine I σ ε (I.Ans o)) fun a => Known p (⟨o, a⟩ :: evs) := by
  rintro x t ⟨hp, hevs⟩ a t' rfl
  refine ⟨ho, hp, fun e he => ?_⟩
  rcases List.mem_cons.1 he with rfl | he
  · exact List.mem_append_right _ (List.mem_singleton_self _)
  · exact List.mem_append_left _ (hevs e he)

/-- What leaves the object alone leaves what is known. -/
theorem gathers_only {r : Routine I σ ε α} (hr : Only A X r) :
    Gathers A X p evs r fun _ => Known p evs := by
  refine (hr.triple (K := Known p evs) ?_).conseq (fun _ _ => id) (fun _ _ _ => id) fun _ _ _ he => he.1
  rintro x t o a t' ho ⟨hp, hevs⟩ rfl
  exact ⟨ho, hp, fun e he => List.mem_append_left _ (hevs e he)⟩

/-! ## What a routine does to its object -/

/-- The routine keeps `p` of its object, in any environment and at any end. -/
def Keeps (p : σ → Prop) (r : Routine I σ ε α) : Prop :=
  ∀ x, p x → r.Sat (fun (_ : Unit) _ _ _ => True) (fun _ _ _ _ => True) (fun _ y _ => p y)
    (fun _ y _ => p y) x ()

namespace Keeps

variable {r : Routine I σ ε α} {f : α → Routine I σ ε β}

theorem pure (a : α) : Keeps p (pure a : Routine I σ ε α) := fun _ h => h

theorem throw (e : ε) : Keeps p (throw e : Routine I σ ε α) := fun _ h => h

theorem get : Keeps p (get : Routine I σ ε σ) := fun _ h => h

theorem modify {f : σ → σ} (hf : ∀ x, p x → p (f x)) : Keeps p (modify f : Routine I σ ε Unit) := hf

theorem call (o : I.Op) : Keeps p (call o : Routine I σ ε (I.Ans o)) :=
  fun _ h => (sat_call o _).2 fun _ _ _ => ⟨trivial, h⟩

theorem bind (hr : Keeps p r) (hf : ∀ a, Keeps p (f a)) : Keeps p (r >>= f) := fun x h =>
  (sat_bind r f).2 ((hr x h).imp (fun a y _ hy => hf a y hy) fun _ _ _ => id)

theorem require (b : Bool) (e : ε) : Keeps p (require b e : Routine I σ ε Unit) := by
  cases b
  · exact throw e
  · exact pure ()

theorem catchExit {handler : ε → Routine I σ ε' α} (hr : Keeps p r) (hh : ∀ e, Keeps p (handler e)) :
    Keeps p (r.catchExit handler) := fun x h =>
  (sat_catchExit r handler _).2 ((hr x h).imp (fun _ _ _ => id) fun e y _ hy => hh e y hy)

/-- What leaves the object alone keeps everything. -/
theorem of_only (hr : Only A X r) : Keeps p r := fun x h =>
  (hr x).mono (fun _ _ _ _ => id) (fun _ _ _ _ _ => trivial) (fun _ _ _ hy => hy ▸ h)
    fun _ _ _ hy => hy.1 ▸ h

/-- The triple of what a routine keeps, in any environment. -/
theorem triple {S : Type} (hr : Keeps p r) : Triple (fun (_ : S) _ _ _ => True) (fun _ _ _ _ => True)
    (fun x _ => p x) r (fun _ x _ => p x) fun _ x _ => p x := by
  intro x s h
  have hx := hr x h
  unfold Sat at hx ⊢
  generalize r x = q at hx
  induction q generalizing s with
  | ret y => exact hx
  | call o k ih => exact fun a s' _ => ⟨trivial, ih a s' (hx a () trivial).2⟩

end Keeps

end Routine

end Interaction
