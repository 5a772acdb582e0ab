import CloudStorage.Interaction.Script

set_option autoImplicit false

/-! # Member functions along a script

`Routine.Recites` is `Program.Plays` for a member function that is known to end: from its object and the
state of its machine it says and hears what the script tells it, and ends with a value or an early exit.
There is one rule for each way to build a member function.

The messages of a script are what both sides agree on; `Plays.map_message` changes them for others that
the same blocks carry, so that two parts of a conversation may be described in different terms. -/

namespace Interaction

namespace Turn

variable {μ ν : Type}

/-- The same turn with another message. -/
def map (f : μ → ν) : Turn μ → Turn ν
  | say message => say (f message)
  | hear message => hear (f message)

theorem mirror_map (f : μ → ν) (turn : Turn μ) : (turn.map f).mirror = turn.mirror.map f := by
  cases turn <;> rfl

theorem map_mirror (f : μ → ν) (s : List (Turn μ)) :
    (s.map (map f)).map mirror = (s.map mirror).map (map f) := by
  rw [List.map_map, List.map_map]
  exact List.map_congr_left fun turn _ => mirror_map f turn

end Turn

namespace Program

variable {μ ν β : Type} {J : Interface} {L α : Type} {m : Machine J L} {carries : μ → List β → Prop}
  {carries' : ν → List β → Prop} {Q : Config β J α L → Prop} {p : Program (J.net β) α} {l : L}
  {s : List (Turn μ)}

/-- The messages of a script in other terms. -/
theorem Plays.map_message {f : μ → ν} (h : p.Plays m carries Q l s)
    (hf : ∀ message d, carries' (f message) d ↔ carries message d) :
    p.Plays m carries' Q l (s.map (Turn.map f)) := by
  induction p generalizing l s with
  | ret a =>
      obtain ⟨rfl, hq⟩ := h
      exact ⟨rfl, hq⟩
  | call o k ih =>
      cases o with
      | sys o => exact ih _ h
      | send d =>
          rcases h with ⟨hd, hk⟩ | ⟨message, s', rfl, hd, hne, hk⟩
          · exact Or.inl ⟨hd, ih _ hk⟩
          · exact Or.inr ⟨f message, s'.map (Turn.map f), rfl, (hf message d).2 hd, hne, ih _ hk⟩
      | recv n =>
          rcases h with ⟨rfl, hq⟩ | ⟨message, s', rfl, hk⟩
          · exact Or.inl ⟨rfl, hq⟩
          · refine Or.inr ⟨f message, s'.map (Turn.map f), rfl, fun d hd => ?_⟩
            obtain ⟨hlen, hk⟩ := hk d ((hf message d).1 hd)
            exact ⟨hlen, ih _ hk⟩

end Program

namespace Routine

variable {μ β : Type} {J : Interface} {L σ ε ε' α γ : Type}

/-- From `x` and `l` the function says and hears what the script tells it, and ends in `Q`. -/
def Recites (m : Machine J L) (carries : μ → List β → Prop) (r : Routine (J.net β) σ ε α) (x : σ) (l : L)
    (s : List (Turn μ)) (Q : Except ε α → σ → L → Prop) : Prop :=
  (r x).Plays m carries (fun c => ∃ result x' l', c = (.ret (result, x'), l') ∧ Q result x' l') l s

variable {m : Machine J L} {carries : μ → List β → Prop} {x : σ} {l : L} {s t : List (Turn μ)}
  {Q Q' : Except ε α → σ → L → Prop} {R : Except ε γ → σ → L → Prop}

theorem Recites.mono {r : Routine (J.net β) σ ε α} (h : r.Recites m carries x l s Q)
    (hQ : ∀ result x' l', Q result x' l' → Q' result x' l') : r.Recites m carries x l s Q' := by
  apply Program.Plays.mono h
  rintro c ⟨result, x', l', rfl, hq⟩
  exact ⟨result, x', l', rfl, hQ _ _ _ hq⟩

theorem recites_pure {a : α} (hq : Q (.ok a) x l) :
    (pure a : Routine (J.net β) σ ε α).Recites m carries x l [] Q :=
  ⟨rfl, .ok a, x, l, rfl, hq⟩

/-- What comes after a function that has ended; an early exit leaves nothing of the script. -/
theorem Recites.bind_plays {r : Routine (J.net β) σ ε α} {f : α → Routine (J.net β) σ ε γ}
    {E : Program.Config β J (Except ε γ × σ) L → Prop}
    (h : r.Recites m carries x l s fun result x' l' => match result with
      | .ok a => (f a x').Plays m carries E l' t
      | .error e => t = [] ∧ E (.ret (.error e, x'), l')) :
    ((r >>= f) x).Plays m carries E l (s ++ t) := by
  apply Program.Plays.bind
  apply Program.Plays.mono h
  rintro c ⟨result, x', l', rfl, hq⟩
  refine ⟨_, _, rfl, ?_⟩
  cases result with
  | ok a => exact hq
  | error e => exact hq

/-- The rule of sequencing. -/
theorem Recites.bind {r : Routine (J.net β) σ ε α} {f : α → Routine (J.net β) σ ε γ}
    (h : r.Recites m carries x l s fun result x' l' => match result with
      | .ok a => (f a).Recites m carries x' l' t R
      | .error e => t = [] ∧ R (.error e) x' l') :
    (r >>= f).Recites m carries x l (s ++ t) R := by
  apply Recites.bind_plays
  apply h.mono
  intro result x' l' hq
  cases result with
  | ok a => exact hq
  | error e => exact ⟨hq.1, .error e, x', l', rfl, hq.2⟩

/-- Sequencing after a function that says nothing. -/
theorem Recites.bind_quiet {r : Routine (J.net β) σ ε α} {f : α → Routine (J.net β) σ ε γ}
    (h : r.Recites m carries x l [] fun result x' l' => match result with
      | .ok a => (f a).Recites m carries x' l' t R
      | .error e => t = [] ∧ R (.error e) x' l') :
    (r >>= f).Recites m carries x l t R := h.bind

/-- The rule of a handler that is not needed. -/
theorem Recites.catchExit {r : Routine (J.net β) σ ε α} {handler : ε → Routine (J.net β) σ ε' α}
    {Q : Except ε' α → σ → L → Prop}
    (h : r.Recites m carries x l s fun result x' l' => ∃ a, result = .ok a ∧ Q (.ok a) x' l') :
    (r.catchExit handler).Recites m carries x l s Q := by
  rw [← List.append_nil s]
  apply Program.Plays.bind
  apply Program.Plays.mono h
  rintro c ⟨result, x', l', rfl, a, rfl, hq⟩
  exact ⟨_, _, rfl, rfl, .ok a, x', l', rfl, hq⟩

theorem recites_get {Q : Except ε σ → σ → L → Prop} (hq : Q (.ok x) x l) :
    (get : Routine (J.net β) σ ε σ).Recites m carries x l [] Q :=
  ⟨rfl, .ok x, x, l, rfl, hq⟩

theorem recites_modify {f : σ → σ} {Q : Except ε Unit → σ → L → Prop} (hq : Q (.ok ()) (f x) l) :
    (modify f : Routine (J.net β) σ ε Unit).Recites m carries x l [] Q :=
  ⟨rfl, .ok (), f x, l, rfl, hq⟩

/-- A check that succeeds. -/
theorem recites_require {b : Bool} {e : ε} {Q : Except ε Unit → σ → L → Prop} (hb : b = true)
    (hq : Q (.ok ()) x l) : (require b e : Routine (J.net β) σ ε Unit).Recites m carries x l [] Q := by
  subst hb
  exact recites_pure hq

theorem recites_sys {o : J.Op} {Q : Except ε (J.Ans o) → σ → L → Prop}
    (hq : Q (.ok (m l o).1) x (m l o).2) :
    (call (I := J.net β) (.sys o) : Routine (J.net β) σ ε (J.Ans o)).Recites m carries x l [] Q :=
  ⟨rfl, _, x, _, rfl, hq⟩

theorem recites_send {d : List β} {message : μ} {Q : Except ε Bool → σ → L → Prop}
    (hd : carries message d) (hne : d ≠ []) (hq : Q (.ok true) x l) :
    (call (I := J.net β) (.send d) : Routine (J.net β) σ ε Bool).Recites m carries x l [.say message] Q :=
  Or.inr ⟨message, [], rfl, hd, hne, rfl, _, x, l, rfl, hq⟩

theorem recites_recv {n : Nat} {message : μ} {Q : Except ε (Option (List β)) → σ → L → Prop}
    (hq : ∀ d, carries message d → d.length = n ∧ Q (.ok (some d)) x l) :
    (call (I := J.net β) (.recv n) : Routine (J.net β) σ ε (Option (List β))).Recites m carries x l
      [.hear message] Q :=
  Or.inr ⟨message, [], rfl, fun d hd => ⟨(hq d hd).1, rfl, _, x, l, rfl, (hq d hd).2⟩⟩

end Routine

end Interaction
