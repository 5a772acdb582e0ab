import CloudStorage.Interaction.Routine

set_option autoImplicit false

/-! # What an environment may do

`Program.May` is the other judgement about a program: the environment has answers under which it
comes to an end that meets `Q`, or on its way to a state that meets `G`. It is read along the program
like `Program.Sat`, has the same rules, and stands for one run (`May.reaches`). -/

namespace Interaction

namespace Program

variable {I : Interface} {S α β : Type}

/-- From `s`, with answers that `rely` allows, the program gets to a state in `G` or ends in `Q`. -/
def May (rely : Transition I S) (G : S → Prop) (Q : α → S → Prop) : Program I α → S → Prop
  | .ret a, s => G s ∨ Q a s
  | .call o k, s => G s ∨ ∃ a s', rely s o a s' ∧ (k a).May rely G Q s'

variable {rely : Transition I S} {G : S → Prop}

theorem May.of_goal {Q : α → S → Prop} {p : Program I α} {s : S} (h : G s) : p.May rely G Q s := by
  cases p with
  | ret a => exact Or.inl h
  | call o k => exact Or.inl h

theorem May.imp {Q Q' : α → S → Prop} {p : Program I α} {s : S} (h : p.May rely G Q s)
    (hQ : ∀ a s', Q a s' → Q' a s') : p.May rely G Q' s := by
  induction p generalizing s with
  | ret a => exact h.imp_right (hQ a s)
  | call o k ih =>
      rcases h with hgoal | ⟨a, s', hstep, hk⟩
      · exact Or.inl hgoal
      · exact Or.inr ⟨a, s', hstep, ih a hk⟩

/-- The rule of sequencing. -/
theorem May.bind {Q : β → S → Prop} {p : Program I α} {f : α → Program I β} {s : S}
    (h : p.May rely G (fun a s' => (f a).May rely G Q s') s) : (p.bind f).May rely G Q s := by
  induction p generalizing s with
  | ret a =>
      rcases h with hgoal | hf
      · exact .of_goal hgoal
      · exact hf
  | call o k ih =>
      rcases h with hgoal | ⟨a, s', hstep, hk⟩
      · exact Or.inl hgoal
      · exact Or.inr ⟨a, s', hstep, ih a hk⟩

/-- The run. -/
theorem May.reaches {Q : α → S → Prop} {p : Program I α} {s : S} (h : p.May rely G Q s) :
    ∃ p' s', Reaches rely (p, s) (p', s') ∧ (G s' ∨ ∃ a, p' = .ret a ∧ Q a s') := by
  induction p generalizing s with
  | ret a => exact ⟨_, s, .refl, h.imp_right fun hq => ⟨a, rfl, hq⟩⟩
  | call o k ih =>
      rcases h with hgoal | ⟨a, s', hstep, hk⟩
      · exact ⟨_, s, .refl, Or.inl hgoal⟩
      · obtain ⟨p', s'', hrun, hend⟩ := ih a hk
        exact ⟨p', s'', .head (.call hstep) hrun, hend⟩

end Program

namespace Routine

variable {I : Interface} {σ ε ε' α β S : Type}

/-- `Program.May` with the ends told apart. -/
def May (rely : Transition I S) (G : S → Prop) (Q : α → σ → S → Prop) (E : ε → σ → S → Prop)
    (r : Routine I σ ε α) (x : σ) (s : S) : Prop :=
  (r x).May rely G (fun y s' => match y.1 with
    | .ok a => Q a y.2 s'
    | .error e => E e y.2 s') s

variable {rely : Transition I S} {G : S → Prop} {Q : β → σ → S → Prop} {P : α → σ → S → Prop}
  {E : ε → σ → S → Prop} {x : σ} {s : S}

theorem may_pure {a : α} (h : P a x s) : (pure a : Routine I σ ε α).May rely G P E x s := Or.inr h

theorem may_throw {e : ε} (h : E e x s) : (throw e : Routine I σ ε α).May rely G P E x s := Or.inr h

theorem may_call {o : I.Op} {P : I.Ans o → σ → S → Prop} {a : I.Ans o} {s' : S}
    (hstep : rely s o a s') (h : P a x s') :
    (call o : Routine I σ ε (I.Ans o)).May rely G P E x s := Or.inr ⟨a, s', hstep, Or.inr h⟩

theorem may_get {P : σ → σ → S → Prop} (h : P x x s) :
    (get : Routine I σ ε σ).May rely G P E x s := Or.inr h

theorem may_modify {f : σ → σ} {P : Unit → σ → S → Prop} (h : P () (f x) s) :
    (modify f : Routine I σ ε Unit).May rely G P E x s := Or.inr h

theorem may_require {b : Bool} {e : ε} {P : Unit → σ → S → Prop} (h : P () x s) (hb : b = true) :
    (require b e : Routine I σ ε Unit).May rely G P E x s := by
  rw [hb]
  exact may_pure h

theorem May.of_goal {r : Routine I σ ε α} (h : G s) : r.May rely G P E x s := Program.May.of_goal h

theorem May.imp {P' : α → σ → S → Prop} {E' : ε → σ → S → Prop} {r : Routine I σ ε α}
    (h : r.May rely G P E x s) (hP : ∀ a x' s', P a x' s' → P' a x' s')
    (hE : ∀ e x' s', E e x' s' → E' e x' s') : r.May rely G P' E' x s := by
  refine Program.May.imp h fun y s' hy => ?_
  obtain ⟨e | a, x'⟩ := y
  · exact hE _ _ _ hy
  · exact hP _ _ _ hy

theorem May.bind {r : Routine I σ ε α} {f : α → Routine I σ ε β}
    (h : r.May rely G (fun a x' s' => (f a).May rely G Q E x' s') E x s) :
    (r >>= f).May rely G Q E x s := by
  refine Program.May.bind (Program.May.imp h fun y s' hy => ?_)
  obtain ⟨e | a, x'⟩ := y
  · exact Or.inr hy
  · exact hy

theorem May.catchExit {r : Routine I σ ε α} {handler : ε → Routine I σ ε' α}
    {E' : ε' → σ → S → Prop}
    (h : r.May rely G P (fun e x' s' => (handler e).May rely G P E' x' s') x s) :
    (r.catchExit handler).May rely G P E' x s := by
  refine Program.May.bind (Program.May.imp h fun y s' hy => ?_)
  obtain ⟨e | a, x'⟩ := y
  · exact hy
  · exact Or.inr hy

end Routine

end Interaction
