import CloudStorage.Interaction.Parallel

set_option autoImplicit false

/-! # Programs that keep a journal

Programs side by side, each with the list of its calls and their answers. How a call may be answered
can depend on the journals of all. Journals only grow, and each entry had its moment: a point of the
run at which its call was due and its answer was allowed (`Journal.moment_at`). What a program
guarantees of its calls is known of each entry at its moment, and what holds of a moment and only
needs more entries holds from then on. -/

namespace Interaction

open Program

variable {ι : Type} [DecidableEq ι] {I : Interface} {α : Type}

/-- The environment that keeps the journals and answers as `allowed` says. -/
def Journal (allowed : ι → (ι → List (Event I)) → (o : I.Op) → I.Ans o → Prop) (i : ι)
    (s : ι → List (Event I)) (o : I.Op) (a : I.Ans o) (t : List (Event I)) : Prop :=
  t = s i ++ [⟨o, a⟩] ∧ allowed i s o a

/-- The environment of one program, as far as it does not depend on the others. -/
def Journal.Own (ok : (o : I.Op) → I.Ans o → Prop) : Transition I (List (Event I)) := fun t o a t' =>
  t' = t ++ [⟨o, a⟩] ∧ ok o a

namespace Journal

variable {allowed : ι → (ι → List (Event I)) → (o : I.Op) → I.Ans o → Prop}
  {c c' : ι → Program I α × List (Event I)}

/-- Journals only get longer. -/
theorem prefix_of_reaches (hrun : Parallel.Reaches (Journal allowed) c c') (i : ι) :
    (c i).2 <+: (c' i).2 := by
  induction hrun with
  | refl => exact List.prefix_refl _
  | @tail d d' _ hstep ih =>
      cases hstep with
      | @call j o k a t hc h =>
          by_cases hij : i = j
          · subst hij
            rw [Function.update_self, h.1]
            exact ih.trans (List.prefix_append _ _)
          · rw [Function.update_of_ne hij]
            exact ih

theorem subset_of_reaches (hrun : Parallel.Reaches (Journal allowed) c c') (i : ι) :
    (c i).2 ⊆ (c' i).2 := (prefix_of_reaches hrun i).subset

/-- The run of one program, with its journal. -/
theorem own (i : ι) {ok : (o : I.Op) → I.Ans o → Prop} (hok : ∀ s o a, allowed i s o a → ok o a)
    (hrun : Parallel.Reaches (Journal allowed) c c') :
    Program.Reaches (Journal.Own ok) (c i) (c' i) :=
  Parallel.reaches_of i (fun s o a _ h => ⟨h.1, hok s o a h.2⟩) hrun

/-- **Each entry had its moment**, when the journal was what comes before the entry. -/
theorem moment_at (hrun : Parallel.Reaches (Journal allowed) c c') {i : ι} {front rest : List (Event I)}
    {e : Event I} (hsplit : (c' i).2 = (c i).2 ++ front ++ e :: rest) :
    ∃ d k, Parallel.Reaches (Journal allowed) c d ∧ d i = (.call e.1 k, (c i).2 ++ front) ∧
      allowed i (fun j => (d j).2) e.1 e.2 ∧ Parallel.Reaches (Journal allowed) d c' := by
  induction hrun generalizing rest with
  | refl => simp at hsplit
  | @tail d d' hbefore hstep ih =>
      have hlast := hstep
      cases hstep with
      | @call j o k a t hc h =>
          by_cases hij : i = j
          · subst hij
            rw [Function.update_self, h.1] at hsplit
            rcases List.eq_nil_or_concat rest with rfl | ⟨rest', e', rfl⟩
            · -- the entry is the last one, so the step is its moment
              obtain ⟨hfront, he⟩ := List.append_inj' hsplit rfl
              obtain rfl := (List.singleton_inj.1 he).symm
              exact ⟨d, k, hbefore, Prod.ext hc hfront, h.2, Relation.ReflTransGen.single hlast⟩
            · rw [List.concat_eq_append, ← List.cons_append, ← List.append_assoc] at hsplit
              obtain ⟨m, k', hm, hcall, hallowed, hrest⟩ := ih (List.append_inj' hsplit rfl).1
              exact ⟨m, k', hm, hcall, hallowed, hrest.tail hlast⟩
          · rw [Function.update_of_ne hij] at hsplit
            obtain ⟨m, k', hm, hcall, hallowed, hrest⟩ := ih hsplit
            exact ⟨m, k', hm, hcall, hallowed, hrest.tail hlast⟩

/-- What the program guarantees of its calls, it guarantees at the moment of each entry. -/
theorem guaranteed_at (hrun : Parallel.Reaches (Journal allowed) c c') {i : ι} {front rest : List (Event I)}
    {e : Event I} (hsplit : (c' i).2 = (c i).2 ++ front ++ e :: rest) {ok : (o : I.Op) → I.Ans o → Prop}
    (hok : ∀ s o a, allowed i s o a → ok o a) {guar : List (Event I) → I.Op → Prop}
    {Q : α → List (Event I) → Prop}
    (hsat : (c i).1.Sat (Journal.Own ok) (fun t o _ _ => guar t o) Q (c i).2) :
    ∃ d, Parallel.Reaches (Journal allowed) c d ∧ (d i).2 = (c i).2 ++ front ∧ guar (d i).2 e.1 ∧
      allowed i (fun j => (d j).2) e.1 e.2 ∧ Parallel.Reaches (Journal allowed) d c' := by
  obtain ⟨d, k, hbefore, hcall, hallowed, hrest⟩ := moment_at hrun hsplit
  have hleft := hsat.reaches (own i hok hbefore)
  rw [congrArg Prod.fst hcall] at hleft
  exact ⟨d, hbefore, congrArg Prod.snd hcall, (hleft e.2 _ ⟨rfl, hok _ _ _ hallowed⟩).1, hallowed, hrest⟩

/-- The same of an entry that is new. -/
theorem guaranteed (hrun : Parallel.Reaches (Journal allowed) c c') {i : ι} {e : Event I}
    (he : e ∈ (c' i).2) (hnew : e ∉ (c i).2) {ok : (o : I.Op) → I.Ans o → Prop}
    (hok : ∀ s o a, allowed i s o a → ok o a) {guar : List (Event I) → I.Op → Prop}
    {Q : α → List (Event I) → Prop}
    (hsat : (c i).1.Sat (Journal.Own ok) (fun t o _ _ => guar t o) Q (c i).2) :
    ∃ d, Parallel.Reaches (Journal allowed) c d ∧ guar (d i).2 e.1 ∧
      allowed i (fun j => (d j).2) e.1 e.2 ∧ Parallel.Reaches (Journal allowed) d c' := by
  obtain ⟨added, hadded⟩ := prefix_of_reaches hrun i
  rw [← hadded] at he
  obtain ⟨front, rest, rfl⟩ := List.append_of_mem ((List.mem_append.1 he).resolve_left hnew)
  obtain ⟨d, hd, -, hguard, hallowed, hrest⟩ := guaranteed_at hrun
    (hadded.symm.trans (List.append_assoc _ _ _).symm) hok hsat
  exact ⟨d, hd, hguard, hallowed, hrest⟩

/-! ## Runs of a schedule -/

/-- The run in which the programs of the schedule call in turn, each answered by `reply`. -/
def play {β : Type} (reply : ι → (ι → List (Event I)) → β → (o : I.Op) → I.Ans o) :
    List (ι × β) → (ι → Program I α × List (Event I)) → ι → Program I α × List (Event I)
  | [], c => c
  | (i, b) :: schedule, c =>
    match (c i).1 with
    | .ret _ => play reply schedule c
    | .call o k =>
      let a := reply i (fun j => (c j).2) b o
      play reply schedule (Function.update c i (k a, (c i).2 ++ [⟨o, a⟩]))

theorem reaches_play {β : Type} {reply : ι → (ι → List (Event I)) → β → (o : I.Op) → I.Ans o}
    (hreply : ∀ i s b o, allowed i s o (reply i s b o)) (schedule : List (ι × β))
    (c : ι → Program I α × List (Event I)) :
    Parallel.Reaches (Journal allowed) c (play reply schedule c) := by
  induction schedule generalizing c with
  | nil => exact .refl
  | cons turn schedule ih =>
      obtain ⟨i, b⟩ := turn
      rw [play]
      split
      · exact ih c
      · rename_i o k hcall
        exact .head (.call i hcall ⟨rfl, hreply i _ b o⟩) (ih _)

end Journal

end Interaction
