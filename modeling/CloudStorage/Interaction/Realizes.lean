import CloudStorage.Interaction.Custody
import CloudStorage.Interaction.Trace

set_option autoImplicit false

/-! # One program carried out by another

A program `q` over `I` makes some calls, the hidden ones, that stand for a function. A program `p` carries
`q` out if it makes the other calls itself and calls a library in the place of the hidden ones.

`Realizes` is the judgement, by recursion on `p`: each call of `p` to `I` is the next call of `q` that is
not hidden, and each call to the library is careful. `Realizes.reaches` is what it says of runs: a run of
`p` is a run of `q` on the same machine, with some answers to the hidden calls. `Performs` is the judgement
for routines, with one rule for each way in which the two go on. -/

namespace Interaction

open Program

/-- A program over more operations. -/
def Program.lift (J : Interface) {I : Interface} {α : Type} : Program I α → Program (I.plus J) α
  | .ret a => .ret a
  | .call o k => .call (.inl o) fun a => (k a).lift J

/-- A routine over more operations. -/
def Routine.lift (J : Interface) {I : Interface} {σ ε α : Type} (r : Routine I σ ε α) :
    Routine (I.plus J) σ ε α := fun x => (r x).lift J

theorem Routine.bind_assoc {I : Interface} {σ ε α β γ : Type} (r : Routine I σ ε α)
    (f : α → Routine I σ ε β) (g : β → Routine I σ ε γ) :
    (r >>= f) >>= g = r >>= fun a => f a >>= g := by
  funext x
  show ((r x).bind _).bind _ = (r x).bind _
  rw [Program.bind_assoc]
  congr 1
  funext y
  obtain ⟨e | a, y⟩ := y
  · rfl
  · rfl

theorem Routine.bind_pure {I : Interface} {σ ε α : Type} (r : Routine I σ ε α) : r >>= pure = r := by
  funext x
  show (r x).bind _ = r x
  conv_rhs => rw [← Program.bind_ret_right (r x)]
  congr 1
  funext y
  obtain ⟨e | a, y⟩ := y
  · rfl
  · rfl

/-- Only hidden calls are made, and any answer may come. -/
def Silent {I : Interface} (hidden : I.Op → Prop) : Transition I (List (Event I)) := fun t o a t' =>
  hidden o ∧ t' = t ++ [⟨o, a⟩]

section

variable {I J : Interface} {H S α β γ : Type} [DecidableEq H] {C : Custody J H} {hidden : I.Op → Prop}

/-- A run goes on below a `bind`. -/
theorem reaches_bind {rely : Transition I S} {q q' : Program I β} {s s' : S} (g : β → Program I γ)
    (h : Reaches rely (q, s) (q', s')) : Reaches rely (q.bind g, s) (q'.bind g, s') := by
  have hall : ∀ c : Program I β × S, Reaches rely (q, s) c →
      Reaches rely (q.bind g, s) (c.1.bind g, c.2) := by
    intro c hc
    induction hc with
    | refl => exact .refl
    | tail _ hstep ih =>
        cases hstep with
        | call ha => exact ih.tail (.call ha)
  exact hall _ h

/-- `p` carries out `q`, of which the calls in `t` have been made, and ends as `End` says. -/
def Realizes (C : Custody J H) (hidden : I.Op → Prop)
    (End : α → Multiset H → Program I β → List (Event I) → Prop) :
    Program (I.plus J) α → Multiset H → Program I β → List (Event I) → Prop
  | .ret a, live, q, t => ∃ q' t', Reaches (Silent hidden) (q, t) (q', t') ∧ End a live q' t'
  | .call (.inl o) k, live, q, t => ∃ k' t', Reaches (Silent hidden) (q, t) (.call o k', t') ∧
    ∀ a, Realizes C hidden End (k a) live (k' a) (t' ++ [⟨o, a⟩])
  | .call (.inr o) k, live, q, t => C.Careful live o ∧
    ∀ a, C.Answers o a → Realizes C hidden End (k a) (C.after live o a) q t

namespace Realizes

variable {End End' : α → Multiset H → Program I β → List (Event I) → Prop} {p : Program (I.plus J) α}
  {q q' : Program I β} {live live' : Multiset H} {t t' : List (Event I)}

theorem mono (h : Realizes C hidden End p live q t)
    (hEnd : ∀ a live q t, End a live q t → End' a live q t) : Realizes C hidden End' p live q t := by
  induction p generalizing live q t with
  | ret a =>
      obtain ⟨q', t', hsilent, hend⟩ := h
      exact ⟨q', t', hsilent, hEnd _ _ _ _ hend⟩
  | call o k ih =>
      cases o with
      | inl o =>
          obtain ⟨k', t', hsilent, hk⟩ := h
          exact ⟨k', t', hsilent, fun a => ih a (hk a)⟩
      | inr o => exact ⟨h.1, fun a ha => ih a (h.2 a ha)⟩

/-- `q` may make hidden calls at any time. -/
theorem silent (hsilent : Reaches (Silent hidden) (q, t) (q', t'))
    (h : Realizes C hidden End p live q' t') : Realizes C hidden End p live q t := by
  induction p generalizing live with
  | ret a =>
      obtain ⟨q'', t'', hmore, hend⟩ := h
      exact ⟨q'', t'', hsilent.trans hmore, hend⟩
  | call o k ih =>
      cases o with
      | inl o =>
          obtain ⟨k', t'', hmore, hk⟩ := h
          exact ⟨k', t'', hsilent.trans hmore, hk⟩
      | inr o => exact ⟨h.1, fun a ha => ih a (h.2 a ha)⟩

/-- What comes after `p` goes on where `p` ends. -/
theorem bind {δ : Type} {End : δ → Multiset H → Program I β → List (Event I) → Prop}
    {f : α → Program (I.plus J) δ}
    (h : Realizes C hidden (fun a live q t => Realizes C hidden End (f a) live q t) p live q t) :
    Realizes C hidden End (p.bind f) live q t := by
  induction p generalizing live q t with
  | ret a =>
      obtain ⟨q', t', hsilent, hend⟩ := h
      exact silent hsilent hend
  | call o k ih =>
      cases o with
      | inl o =>
          obtain ⟨k', t', hsilent, hk⟩ := h
          exact ⟨k', t', hsilent, fun a => ih a (hk a)⟩
      | inr o => exact ⟨h.1, fun a ha => ih a (h.2 a ha)⟩

/-- What comes after `q` waits until `p` ends. -/
theorem before (g : β → Program I γ) (h : Realizes C hidden End p live q t) :
    Realizes C hidden (fun a live q' t' => ∃ q'', q' = q''.bind g ∧ End a live q'' t') p live
      (q.bind g) t := by
  induction p generalizing live q t with
  | ret a =>
      obtain ⟨q', t', hsilent, hend⟩ := h
      exact ⟨q'.bind g, t', reaches_bind g hsilent, q', rfl, hend⟩
  | call o k ih =>
      cases o with
      | inl o =>
          obtain ⟨k', t', hsilent, hk⟩ := h
          exact ⟨fun a => (k' a).bind g, t', reaches_bind g hsilent, fun a => ih a (hk a)⟩
      | inr o => exact ⟨h.1, fun a ha => ih a (h.2 a ha)⟩

/-- A function of the library is carried out while `q` waits. -/
theorem of_minds {Q : α → Multiset H → Prop} (h : Minds C Q p live) :
    Realizes C hidden (fun a live q' t' => q' = q ∧ t' = t ∧ Q a live) p live q t := by
  induction p generalizing live with
  | ret a => exact ⟨q, t, .refl, rfl, rfl, h⟩
  | call o k ih =>
      cases o with
      | inl o => exact h.elim
      | inr o => exact ⟨h.1, fun a ha => ih a (h.2 a ha)⟩

/-- A program carries out itself. -/
theorem lift {A : I.Op → Prop} {V : β → Prop}
    (hq : q.Sat (fun (_ : Unit) _ _ _ => True) (fun _ o _ _ => A o) (fun b _ => V b) ())
    (live : Multiset H) (t : List (Event I)) :
    Realizes C hidden (fun b live' q' t' => live' = live ∧ q' = .ret b ∧ V b ∧
      ∃ s, t' = t ++ s ∧ ∀ e ∈ s, A e.1) (q.lift J) live q t := by
  induction q generalizing t with
  | ret b => exact ⟨.ret b, t, .refl, rfl, rfl, hq, [], (List.append_nil t).symm, by simp⟩
  | call o k ih =>
      refine ⟨k, t, .refl, fun (a : I.Ans o) => ?_⟩
      obtain ⟨ho, hk⟩ := hq a () trivial
      refine (ih a hk (t ++ [⟨o, a⟩])).mono ?_
      rintro b live' q' t' ⟨hlive, hq', hb, s, rfl, hs⟩
      refine ⟨hlive, hq', hb, ⟨o, a⟩ :: s, List.append_assoc t _ s, fun e he => ?_⟩
      rcases List.mem_cons.1 he with rfl | he
      · exact ho
      · exact hs e he

end Realizes

/-! ## Runs -/

/-- A machine with the library: its calls do not touch the machine. -/
def Custody.beside (C : Custody J H) (env : Transition I S) : Transition (I.plus J) (S × Multiset H)
  | s, .inl o, a, s' => env s.1 o a s'.1 ∧ s'.2 = s.2
  | s, .inr o, a, s' => C.Answers o a ∧ s' = (s.1, C.after s.2 o a)

variable {env : Transition I S}

/-- Hidden calls are answered anyhow, and do not touch the machine. -/
theorem reaches_of_silent {q q' : Program I β} {t t' : List (Event I)} (s : S)
    (henv : ∀ s o a, hidden o → env s o a s) (h : Reaches (Silent hidden) (q, t) (q', t')) :
    Reaches (Logged env) (q, s, t) (q', s, t') := by
  have hall : ∀ c : Program I β × List (Event I), Reaches (Silent hidden) (q, t) c →
      Reaches (Logged env) (q, s, t) (c.1, s, c.2) := by
    intro c hc
    induction hc with
    | refl => exact .refl
    | tail _ hstep ih =>
        cases hstep with
        | @call o k t a t' ha => exact ih.tail (.call ⟨henv s o a ha.1, ha.2⟩)
  exact hall _ h

/-- **Runs are carried over**: what `p` has done on a machine, `q` may have done. -/
theorem Realizes.reaches {End : α → Multiset H → Program I β → List (Event I) → Prop}
    {p p' : Program (I.plus J) α} {q : Program I β} {live live' : Multiset H} {t : List (Event I)}
    {s s' : S} (henv : ∀ s o a, hidden o → env s o a s) (h : Realizes C hidden End p live q t)
    (hrun : Reaches (C.beside env) (p, s, live) (p', s', live')) :
    ∃ q' t', Reaches (Logged env) (q, s, t) (q', s', t') ∧ Realizes C hidden End p' live' q' t' := by
  have hall : ∀ c : Program (I.plus J) α × S × Multiset H, Reaches (C.beside env) (p, s, live) c →
      ∃ q' t', Reaches (Logged env) (q, s, t) (q', c.2.1, t') ∧
        Realizes C hidden End c.1 c.2.2 q' t' := by
    intro c hc
    induction hc with
    | refl => exact ⟨q, t, .refl, h⟩
    | tail _ hstep ih =>
        obtain ⟨q', t', hq, hp⟩ := ih
        cases hstep with
        | @call o k s a s' ha =>
            obtain ⟨h₁, live₁⟩ := s
            obtain ⟨h₂, live₂⟩ := s'
            cases o with
            | inl o =>
                obtain ⟨hanswer, rfl⟩ := ha
                obtain ⟨k', t'', hsilent, hk⟩ := hp
                refine ⟨k' a, t'' ++ [⟨o, a⟩], ?_, hk a⟩
                exact (hq.trans (reaches_of_silent h₁ henv hsilent)).tail (.call ⟨hanswer, rfl⟩)
            | inr o =>
                obtain ⟨hanswer, hafter⟩ := ha
                cases hafter
                exact ⟨q', t', hq, hp.2 a hanswer⟩
  exact hall _ hrun

end

/-! ## Routines -/

section

variable {I J : Interface} {H σ ε α β γ δ : Type} [DecidableEq H] {C : Custody J H} {hidden : I.Op → Prop}
  {U : ε → Prop} {K L : Multiset H → List (Event I) → Prop}

/-- How the two routines end: with values as in `Q`, or early in the same way, as in `E`. Nothing is said
    of the exits in `U`. -/
def Ends (U : ε → Prop) (Q : α → β → Multiset H → List (Event I) → Prop)
    (E : ε → Multiset H → List (Event I) → Prop) :
    Except ε α × σ → Multiset H → Program I (Except ε β × σ) → List (Event I) → Prop
  | (.ok a, x), live, q, t => ∃ b, q = .ret (.ok b, x) ∧ Q a b live t
  | (.error e, x), live, q, t => U e ∨ q = .ret (.error e, x) ∧ E e live t

/-- Wherever `K` holds, `r` carries out `r'` and they end in `Q` or leave in `E`. -/
def Performs (C : Custody J H) (hidden : I.Op → Prop) (U : ε → Prop)
    (K : Multiset H → List (Event I) → Prop) (r : Routine (I.plus J) σ ε α) (r' : Routine I σ ε β)
    (Q : α → β → Multiset H → List (Event I) → Prop) (E : ε → Multiset H → List (Event I) → Prop) :
    Prop :=
  ∀ x live t, K live t → Realizes C hidden (Ends U Q E) (r x) live (r' x) t

/-- Besides the objects `F`, those in `A` are out, and `T` holds of the calls. -/
def Holding (F A : Multiset H) (T : List (Event I) → Prop) (live : Multiset H) (t : List (Event I)) :
    Prop := live = F + A ∧ T t

namespace Performs

variable {r : Routine (I.plus J) σ ε α} {r' : Routine I σ ε β} {f : α → Routine (I.plus J) σ ε γ}
  {f' : β → Routine I σ ε δ} {P P' : α → β → Multiset H → List (Event I) → Prop}
  {Q : γ → δ → Multiset H → List (Event I) → Prop} {E E' : ε → Multiset H → List (Event I) → Prop}

theorem conseq (hr : Performs C hidden U K r r' P E) (hpre : ∀ live t, L live t → K live t)
    (hP : ∀ a b live t, P a b live t → P' a b live t) (hE : ∀ e live t, E e live t → E' e live t) :
    Performs C hidden U L r r' P' E' := by
  intro x live t h
  apply (hr x live t (hpre live t h)).mono
  rintro ⟨e | a, y⟩ live q t hend
  · exact hend.imp id fun h => ⟨h.1, hE e live t h.2⟩
  · obtain ⟨b, hq, hb⟩ := hend
    exact ⟨b, hq, hP a b live t hb⟩

theorem bind (hr : Performs C hidden U K r r' P E)
    (hf : ∀ a b, Performs C hidden U (P a b) (f a) (f' b) Q E) :
    Performs C hidden U K (r >>= f) (r' >>= f') Q E := by
  intro x live t h
  apply Realizes.bind
  apply ((hr x live t h).before _).mono
  rintro ⟨e | a, y⟩ live q t ⟨q'', rfl, hend⟩
  · refine ⟨_, t, .refl, hend.imp id fun h => ⟨?_, h.2⟩⟩
    rw [h.1]
    rfl
  · obtain ⟨b, rfl, hb⟩ := hend
    exact hf a b y live t hb

theorem pure {a : α} {b : β} (h : ∀ live t, K live t → P a b live t) :
    Performs C hidden U K (pure a : Routine (I.plus J) σ ε α) (pure b : Routine I σ ε β) P E :=
  fun _ live t hk => ⟨_, t, .refl, b, rfl, h live t hk⟩

theorem throw {e : ε} (h : ∀ live t, K live t → E e live t) :
    Performs C hidden U K (Routine.throw e : Routine (I.plus J) σ ε α)
      (Routine.throw e : Routine I σ ε β) P E :=
  fun _ live t hk => ⟨_, t, .refl, .inr ⟨rfl, h live t hk⟩⟩

/-- Nothing is said of this exit. -/
theorem undefined {e : ε} (he : U e) :
    Performs C hidden U K (Routine.throw e : Routine (I.plus J) σ ε α) r' P E :=
  fun _ _ t _ => ⟨_, t, .refl, .inl he⟩

theorem get : Performs C hidden U K (Routine.get : Routine (I.plus J) σ ε σ) (Routine.get : Routine I σ ε σ)
    (fun a b live t => b = a ∧ K live t) E :=
  fun x _ t hk => ⟨_, t, .refl, x, rfl, rfl, hk⟩

/-- Both do the same. -/
theorem lift {A : I.Op → Prop} {V : β → Prop} {X : ε → Prop}
    (hr : ∀ x, r'.Sat (fun (_ : Unit) _ _ _ => True) (fun _ o _ _ => A o) (fun b _ _ => V b)
      (fun e _ _ => X e) x ())
    (hK : ∀ live t s, (∀ e ∈ s, A e.1) → K live t → K live (t ++ s)) :
    Performs C hidden U K (r'.lift J) r' (fun a b live t => b = a ∧ V b ∧ K live t)
      fun e live t => X e ∧ K live t := by
  intro x live t h
  have hq : (r' x).Sat (fun (_ : Unit) _ _ _ => True) (fun _ o _ _ => A o)
      (fun y _ => Outcome (H := H) (fun b _ => V b) (fun e _ => X e) y.1 0) () := by
    apply Program.Sat.imp (hr x)
    rintro ⟨e | b, y⟩ _ hy
    · exact hy
    · exact hy
  apply (Realizes.lift hq live t).mono
  rintro ⟨e | b, y⟩ live' q t' ⟨rfl, rfl, hy, s, rfl, hs⟩
  · exact .inr ⟨rfl, hy, hK _ _ _ hs h⟩
  · exact ⟨b, rfl, rfl, hy, hK _ _ _ hs h⟩

variable {F G A A₀ : Multiset H} {T : List (Event I) → Prop}

/-- `r` calls the library where `r'` does nothing. -/
theorem left {g : α → Routine (I.plus J) σ ε γ} {P : α → Multiset H → Prop} {X : ε → Multiset H → Prop}
    {Q : γ → β → Multiset H → List (Event I) → Prop} (hr : Owns C A r P X) (hX : ∀ e B, X e B → U e)
    (hA : A₀ = G + A)
    (hg : ∀ a B, P a B → Performs C hidden U (Holding F (G + B) T) (g a) r' Q E) :
    Performs C hidden U (Holding F A₀ T) (r >>= g) r' Q E := by
  rintro x live t ⟨rfl, ht⟩
  apply Realizes.bind
  rw [hA, ← add_assoc]
  apply (Realizes.of_minds (hr x (F + G))).mono
  rintro ⟨e | a, y⟩ live q t' ⟨rfl, rfl, rfl, B, rfl, hB⟩
  · exact ⟨_, _, .refl, .inl (hX e B hB)⟩
  · exact hg a B hB _ _ _ ⟨add_assoc F G B, ht⟩

/-- `r` calls the library where `r'` makes a hidden call. -/
theorem instead {o : I.Op} {out : α → Multiset H} {answer : α → I.Ans o}
    {T' : α → List (Event I) → Prop} {X : ε → Multiset H → Prop}
    (hr : Owns C A r (fun a B => B = out a) X) (hX : ∀ e B, X e B → U e) (ho : hidden o)
    (hA : A₀ = G + A) (hT : ∀ a t, T t → T' a (t ++ [⟨o, answer a⟩])) :
    Performs C hidden U (Holding F A₀ T) r (Routine.call o : Routine I σ ε (I.Ans o))
      (fun a b live t => b = answer a ∧ Holding F (G + out a) (T' a) live t) E := by
  rintro x live t ⟨rfl, ht⟩
  rw [← Program.bind_ret_right (r x)]
  apply Realizes.bind
  rw [hA, ← add_assoc]
  apply (Realizes.of_minds (hr x (F + G))).mono
  rintro ⟨e | a, y⟩ live q t' ⟨rfl, rfl, rfl, B, rfl, hB⟩
  · exact ⟨_, _, .refl, .inl (hX e B hB)⟩
  obtain rfl : B = out a := hB
  exact ⟨_, _, .single (.call ⟨ho, rfl⟩), answer a, rfl, rfl, add_assoc F G _, hT a _ ht⟩

end Performs

end

end Interaction
