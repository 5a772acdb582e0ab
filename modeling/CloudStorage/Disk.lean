import CloudStorage.Interaction.Serial
import CloudStorage.Store

set_option autoImplicit false

/-! # Files by their names

The store as a session uses it that only uploads, renames, deletes and downloads: the contents of the
files by their paths (`Disk`), where the directories are those of a fixed tree. Here an open file is
known by its name and not by its inode, so this says of a call which files it reads and which it writes
(`FileCall.footprint`), and the calls are those of a store with keys (`onDisk`).

A tree of files answers alike (`Matches.answer`), as long as a file keeps its name while it is open. -/

namespace CloudStorage

open Interaction Interaction.Routine

/-! ## Footprints -/

/-- Where a path leads, if not to a directory. -/
def Fs.place (fs : Fs) (path : Buffer) : Option Path :=
  match fs.resolve path with
  | .error _ => none
  | .ok p => if fs.node p = some .dir then none else some p

/-- The files that a call reads and writes, by where paths lead and by the names of open files. -/
def FileCall.footprint (place : Buffer → Option Path) (names : Nat → List Path) :
    FileCall → Footprint Path
  | .stat path | .fileSize path | .openRead path => ⟨(place path).toList, []⟩
  | .openWrite path | .remove path => ⟨[], (place path).toList⟩
  | .rename path newPath => ⟨[], (place path).toList ++ (place newPath).toList⟩
  | .read handle _ => ⟨names handle, []⟩
  | .write handle _ => ⟨[], names handle⟩
  | .list _ | .createDirectory _ => .none

/-! ## The calls -/

/-- The contents of the files by their paths. -/
abbrev Disk : Type := Path → Option Buffer

/-- The open files, by name and offset. -/
abbrev OpenNames : Type := List (Path × Nat)

/-- The names of an open file. -/
def OpenNames.names (opened : OpenNames) (handle : Nat) : List Path :=
  (opened[handle]?.map Prod.fst).toList

/-- The answer to a call where the directories are those of `root`, and what it does to the files and
    to those that are open. Directories are neither listed nor made. -/
def FileCall.onDisk (root : Fs) (fault : Bool) (σ : Disk) (opened : OpenNames) :
    (c : FileCall) → c.Ans × Disk × OpenNames
  | .stat path =>
    (if fault then none
      else match root.place path with
        | none => root.fileType path
        | some p => some (if (σ p).isSome then .regular else .notFound), σ, opened)
  | .fileSize path =>
    (if fault then none else ((root.place path).bind σ).map List.length, σ, opened)
  | .openRead path =>
    match if fault then none else root.place path with
    | none => (none, σ, opened)
    | some p =>
      if (σ p).isSome then (some opened.length, σ, opened ++ [(p, 0)]) else (none, σ, opened)
  | .read handle n =>
    match if fault then none else opened[handle]? with
    | none => ([], σ, opened)
    | some (p, off) =>
      let b := slice off n ((σ p).getD [])
      (b, σ, opened.set handle (p, off + b.length))
  | .openWrite path =>
    match if fault then none else root.place path with
    | none => (none, σ, opened)
    | some p => (some opened.length, Function.update σ p (some []), opened ++ [(p, 0)])
  | .write handle b =>
    match if fault then none else opened[handle]? with
    | none => (false, σ, opened)
    | some (p, off) =>
      (true, Function.update σ p ((σ p).map fun old => Fs.writeAt old off b),
        opened.set handle (p, off + b.length))
  | .rename path newPath =>
    match if fault then none else root.place path, root.place newPath with
    | some p, some q =>
      match σ p with
      | none => (false, σ, opened)
      | some b => (true, Function.update (Function.update σ p none) q (some b), opened)
    | _, _ => (false, σ, opened)
  | .remove path =>
    match if fault then none else root.place path with
    | none => (false, σ, opened)
    | some p => ((σ p).isSome, Function.update σ p none, opened)
  | .list _ => (none, σ, opened)
  | .createDirectory _ => (none, σ, opened)

section

variable {root : Fs} {fault : Bool} {σ τ : Disk} {opened : OpenNames} {c : FileCall} {p : Path}

/-- A call changes no file but those that it writes. -/
theorem FileCall.frame_onDisk (hp : p ∉ (c.footprint root.place opened.names).writes) :
    (c.onDisk root fault σ opened).2.1 p = σ p := by
  cases fault with
  | true => cases c <;> rfl
  | false =>
      cases c with
      | stat path => rfl
      | fileSize path => rfl
      | list path => rfl
      | createDirectory path => rfl
      | openRead path =>
          simp only [onDisk, Bool.false_eq_true, if_false]
          split
          · rfl
          · split
            · rfl
            · rfl
      | read handle n =>
          simp only [onDisk, Bool.false_eq_true, if_false]
          split
          · rfl
          · rfl
      | openWrite path =>
          simp only [onDisk, footprint, Bool.false_eq_true, if_false] at hp ⊢
          cases hq : root.place path with
          | none => rfl
          | some q =>
              rw [hq] at hp
              exact Function.update_of_ne (fun h => hp (by simp [h])) ..
      | remove path =>
          simp only [onDisk, footprint, Bool.false_eq_true, if_false] at hp ⊢
          cases hq : root.place path with
          | none => rfl
          | some q =>
              rw [hq] at hp
              exact Function.update_of_ne (fun h => hp (by simp [h])) ..
      | write handle b =>
          simp only [onDisk, footprint, OpenNames.names, Bool.false_eq_true, if_false] at hp ⊢
          cases hq : opened[handle]? with
          | none => rfl
          | some e =>
              rw [hq] at hp
              exact Function.update_of_ne (fun h => hp (by simp [h])) ..
      | rename path newPath =>
          simp only [onDisk, footprint, Bool.false_eq_true, if_false] at hp ⊢
          cases hq : root.place path with
          | none => rfl
          | some q =>
              cases hr : root.place newPath with
              | none => rfl
              | some r =>
                  rw [hq, hr] at hp
                  dsimp only
                  cases σ q with
                  | none => rfl
                  | some b =>
                      dsimp only
                      rw [Function.update_of_ne (fun h => hp (by simp [h])),
                        Function.update_of_ne (fun h => hp (by simp [h]))]

/-- Where the files that a call touches are the same, it is answered alike and leaves the same there. -/
theorem FileCall.agree_onDisk (fault : Bool)
    (hτ : ∀ p, (c.footprint root.place opened.names).Touches p → τ p = σ p) :
    (c.onDisk root fault τ opened).1 = (c.onDisk root fault σ opened).1 ∧
      (c.onDisk root fault τ opened).2.2 = (c.onDisk root fault σ opened).2.2 ∧
      ∀ p ∈ (c.footprint root.place opened.names).writes,
        (c.onDisk root fault τ opened).2.1 p = (c.onDisk root fault σ opened).2.1 p := by
  cases fault with
  | true => cases c <;> exact ⟨rfl, rfl, fun p hp => hτ p (Or.inr hp)⟩
  | false =>
      cases c with
      -- what a lookup reads is in its footprint
      | stat path =>
          simp only [onDisk, footprint, Footprint.Touches, Bool.false_eq_true, if_false] at hτ ⊢
          cases hq : root.place path with
          | none => simp
          | some q => simp [hτ q (by simp [hq])]
      | fileSize path =>
          simp only [onDisk, footprint, Footprint.Touches, Bool.false_eq_true, if_false] at hτ ⊢
          cases hq : root.place path with
          | none => simp
          | some q => simp [hτ q (by simp [hq])]
      | openRead path =>
          simp only [onDisk, footprint, Footprint.Touches, Bool.false_eq_true, if_false] at hτ ⊢
          cases hq : root.place path with
          | none => simp
          | some q =>
              simp only [hτ q (by simp [hq])]
              split <;> simp
      -- the file of a handle is in the footprint by its name
      | read handle n =>
          simp only [onDisk, footprint, Footprint.Touches, OpenNames.names, Bool.false_eq_true,
            if_false] at hτ ⊢
          cases hq : opened[handle]? with
          | none => simp
          | some e => simp [hτ e.1 (by simp [hq])]
      | openWrite path =>
          simp only [onDisk, footprint, Footprint.Touches, Bool.false_eq_true, if_false] at hτ ⊢
          cases hq : root.place path with
          | none => simp
          | some q => simp
      | remove path =>
          simp only [onDisk, footprint, Footprint.Touches, Bool.false_eq_true, if_false] at hτ ⊢
          cases hq : root.place path with
          | none => simp
          | some q => simp [hτ q (by simp [hq])]
      | write handle b =>
          simp only [onDisk, footprint, Footprint.Touches, OpenNames.names, Bool.false_eq_true,
            if_false] at hτ ⊢
          cases hq : opened[handle]? with
          | none => simp
          | some e => simp [hτ e.1 (by simp [hq])]
      -- both places are written, so both are known
      | rename path newPath =>
          simp only [onDisk, footprint, Footprint.Touches, Bool.false_eq_true, if_false] at hτ ⊢
          have hsame : ∀ p, p ∈ (root.place path).toList ++ (root.place newPath).toList → τ p = σ p :=
            fun p hp => hτ p (Or.inr hp)
          cases hq : root.place path with
          | none => exact ⟨rfl, rfl, fun p hp => hsame p (by rw [hq]; exact hp)⟩
          | some q =>
              cases hr : root.place newPath with
              | none => exact ⟨rfl, rfl, fun p hp => hsame p (by rw [hq, hr]; exact hp)⟩
              | some r =>
                  rw [hq, hr] at hsame
                  dsimp only
                  rw [hsame q (by simp)]
                  cases σ q with
                  | none => exact ⟨rfl, rfl, hsame⟩
                  | some b =>
                      refine ⟨rfl, rfl, fun p hp => ?_⟩
                      simp only [Function.update_apply, hsame p hp]
      | list path => simp [onDisk, footprint, Footprint.none]
      | createDirectory path => simp [onDisk, footprint, Footprint.none]

/-- A file that is open after a call was open before under that name, or is touched by the call. -/
theorem FileCall.opened_onDisk {handle : Nat} {e : Path × Nat}
    (he : (c.onDisk root fault σ opened).2.2[handle]? = some e) :
    (∃ e₀, opened[handle]? = some e₀ ∧ e₀.1 = e.1) ∨
      (c.footprint root.place opened.names).Touches e.1 := by
  -- a handle is new, or moved, or as it was
  have hadded : ∀ {p : Path}, (opened ++ [(p, 0)])[handle]? = some e →
      (∃ e₀, opened[handle]? = some e₀ ∧ e₀.1 = e.1) ∨ e.1 = p := by
    intro p he
    by_cases hlt : handle < opened.length
    · rw [List.getElem?_append_left hlt] at he
      exact Or.inl ⟨e, he, rfl⟩
    · rw [List.getElem?_append_right (Nat.le_of_not_lt hlt), List.getElem?_singleton] at he
      split_ifs at he
      exact Or.inr (congrArg Prod.fst (Option.some.inj he)).symm
  have hmoved : ∀ {handle' off' : Nat} {p : Path} {off : Nat}, opened[handle']? = some (p, off) →
      (opened.set handle' (p, off'))[handle]? = some e →
      ∃ e₀, opened[handle]? = some e₀ ∧ e₀.1 = e.1 := by
    intro handle' off' p off hopen hset
    rw [List.getElem?_set] at hset
    split_ifs at hset with heq
    · have hname : p = e.1 := congrArg Prod.fst (Option.some.inj hset)
      exact ⟨(p, off), heq ▸ hopen, hname⟩
    · exact ⟨e, hset, rfl⟩
  cases fault with
  | true => cases c <;> exact Or.inl ⟨e, he, rfl⟩
  | false =>
      cases c with
      | openRead path =>
          simp only [onDisk, Bool.false_eq_true, if_false] at he
          cases hq : root.place path with
          | none =>
              rw [hq] at he
              exact Or.inl ⟨e, he, rfl⟩
          | some q =>
              rw [hq] at he
              dsimp only at he
              split_ifs at he
              · refine (hadded he).imp_right fun heq => Or.inl ?_
                simp [footprint, hq, heq]
              · exact Or.inl ⟨e, he, rfl⟩
      | openWrite path =>
          simp only [onDisk, Bool.false_eq_true, if_false] at he
          cases hq : root.place path with
          | none =>
              rw [hq] at he
              exact Or.inl ⟨e, he, rfl⟩
          | some q =>
              rw [hq] at he
              refine (hadded he).imp_right fun heq => Or.inr ?_
              simp [footprint, hq, heq]
      -- reading and writing keep the name of the handle
      | read handle' n =>
          simp only [onDisk, Bool.false_eq_true, if_false] at he
          cases hq : opened[handle']? with
          | none =>
              rw [hq] at he
              exact Or.inl ⟨e, he, rfl⟩
          | some e' =>
              rw [hq] at he
              exact Or.inl (hmoved hq he)
      | write handle' b =>
          simp only [onDisk, Bool.false_eq_true, if_false] at he
          cases hq : opened[handle']? with
          | none =>
              rw [hq] at he
              exact Or.inl ⟨e, he, rfl⟩
          | some e' =>
              rw [hq] at he
              exact Or.inl (hmoved hq he)
      | rename path newPath =>
          simp only [onDisk, Bool.false_eq_true, if_false] at he
          left
          split at he
          · split at he
            · exact ⟨e, he, rfl⟩
            · exact ⟨e, he, rfl⟩
          · exact ⟨e, he, rfl⟩
      | remove path =>
          simp only [onDisk, Bool.false_eq_true, if_false] at he
          left
          split at he
          · exact ⟨e, he, rfl⟩
          · exact ⟨e, he, rfl⟩
      | _ => exact Or.inl ⟨e, he, rfl⟩

end

/-! ## The machine -/

/-- What a session has beside the store: its seat with the open files by their names, and how many it
    had opened before the request that it handles. -/
structure Desk where
  opened : OpenNames
  before : Nat
  seat : Seat

/-- The seat without its open files. -/
def Seat.closed (seat : Seat) : Seat := { seat with handles := [] }

/-- The answer to a call of a session, with the files and the desk after it. -/
def Desk.answer (root : Fs) (ch : Choice) (σ : Disk) (d : Desk) : (o : Sys.Op) → Sys.Ans o × Disk × Desk
  | .sys (.file c) =>
    let r := c.onDisk root ch.fault σ d.opened
    (r.1, r.2.1, { d with opened := r.2.2 })
  | o =>
    let r := (d.seat.host root).answer ch o
    (r.1, σ, ⟨d.opened, if isRequest o then d.opened.length else d.before, r.2.seat.closed⟩)

/-- What a call touches. -/
def touched (place : Buffer → Option Path) (names : Nat → List Path) : Sys.Op → Footprint Path
  | .sys (.file c) => c.footprint place names
  | _ => .none

section

variable {root : Fs} {σ τ : Disk} {d : Desk} {o : Sys.Op} {p : Path}

theorem Desk.frame_answer (ch : Choice) (hp : p ∉ (touched root.place d.opened.names o).writes) :
    (d.answer root ch σ o).2.1 p = σ p := by
  cases o with
  | sys o =>
      cases o with
      | file c => exact c.frame_onDisk hp
      | _ => rfl
  | _ => rfl

theorem Desk.congr_answer (ch : Choice)
    (hτ : ∀ p, (touched root.place d.opened.names o).Touches p → τ p = σ p) :
    d.answer root ch τ o = ((d.answer root ch σ o).1,
      overlay (touched root.place d.opened.names o).writes (d.answer root ch σ o).2.1 τ,
      (d.answer root ch σ o).2.2) := by
  have hstill : ∀ σ' : Disk, overlay [] σ' τ = τ := fun _ => rfl
  cases o with
  | sys o =>
      cases o with
      | file c =>
          obtain ⟨hans, hopened, hwrites⟩ := c.agree_onDisk ch.fault hτ
          have hdisk : (c.onDisk root ch.fault τ d.opened).2.1 =
              overlay (c.footprint root.place d.opened.names).writes
                (c.onDisk root ch.fault σ d.opened).2.1 τ := by
            funext p
            by_cases hp : p ∈ (c.footprint root.place d.opened.names).writes
            · rw [overlay_of_mem hp]
              exact hwrites p hp
            · rw [overlay_of_not_mem hp]
              exact c.frame_onDisk hp
          simp only [answer, touched, hans, hopened, hdisk]
      | _ => rfl
  | _ => rfl

end

/-- The calls of sessions that list no folder. -/
def disk (ι : Type) (root : Fs) : Interaction.Keyed ι Sys Path (Option Buffer) Desk where
  starts := isRequest
  footprint d o := touched root.place d.opened.names o
  answers _ σ d o a σ' d' :=
    (∀ path, o ≠ .sys (.file (.list path))) ∧ ∃ ch, d.answer root ch σ o = (a, σ', d')
  frame := by
    rintro i σ d o a σ' d' ⟨-, ch, hanswer⟩ p hp
    have hframe := Desk.frame_answer (σ := σ) ch hp
    rw [hanswer] at hframe
    exact hframe
  congr := by
    rintro i σ d o a σ' d' τ ⟨hlist, ch, hanswer⟩ hτ
    have hcongr := Desk.congr_answer ch hτ
    rw [hanswer] at hcongr
    exact ⟨hlist, ch, hcongr⟩

/-! ## Trees of files -/

namespace Fs

variable {fs fs' : Fs} {p q : Path} {path : Buffer} {i : Nat}

theorem place_eq_some : fs.place path = some p ↔ fs.resolve path = .ok p ∧ fs.node p ≠ some .dir := by
  unfold place
  cases hr : fs.resolve path with
  | error e => simp
  | ok q =>
      dsimp only
      split_ifs with hdir
      · simp only [Except.ok.injEq, false_iff, not_and, not_not]
        rintro rfl
        exact hdir
      · simp only [Option.some.injEq, Except.ok.injEq]
        exact ⟨fun h => ⟨h, h ▸ hdir⟩, And.left⟩

theorem place_eq_none : fs.place path = none ↔
    ∀ p, fs.resolve path = .ok p → fs.node p = some .dir := by
  rw [Option.eq_none_iff_forall_ne_some]
  refine forall_congr' fun p => ?_
  rw [Ne, place_eq_some, not_and, not_not]

theorem SameDirs.place (h : SameDirs fs fs') (path : Buffer) : fs'.place path = fs.place path := by
  refine Option.ext fun p => ?_
  rw [place_eq_some, place_eq_some, h.resolve, Ne, h.node_dir]

theorem contents_of_file (hp : fs.node p = some (.file i)) : fs.contents p = some (fs.data i) :=
  contents_eq_some.2 ⟨i, hp, rfl⟩

theorem contents_of_none (hp : fs.node p = none) : fs.contents p = none := by
  unfold FsState.contents
  rw [hp]

/-- What is at a place: nothing, or a file. -/
theorem node_of_place (hp : fs.place path = some p) :
    (fs.node p = none ∧ fs.contents p = none) ∨
      ∃ i, fs.node p = some (.file i) ∧ fs.contents p = some (fs.data i) := by
  obtain ⟨-, hdir⟩ := place_eq_some.1 hp
  cases hn : fs.node p with
  | none => exact Or.inl ⟨rfl, contents_of_none hn⟩
  | some n =>
      cases n with
      | dir => exact absurd hn hdir
      | file i => exact Or.inr ⟨i, rfl, contents_of_file hn⟩

theorem fileType_of_place (hp : fs.place path = some p) :
    fs.fileType path = some (if (fs.contents p).isSome then .regular else .notFound) := by
  rw [fileType_of_ok (place_eq_some.1 hp).1]
  rcases node_of_place hp with ⟨hn, hc⟩ | ⟨i, hn, hc⟩
  · rw [hn, hc]
    rfl
  · rw [hn, hc]
    rfl

/-- Where a path leads to no place, its type is that in any tree with the same directories. -/
theorem fileType_of_no_place (h : SameDirs fs fs') (hp : fs.place path = none) :
    fs'.fileType path = fs.fileType path := by
  have hdir := place_eq_none.1 hp
  unfold fileType
  cases hr : fs.resolve path with
  | ok p =>
      rw [h.resolve.2 hr]
      dsimp only
      rw [hdir p hr, h.node_dir.2 (hdir p hr)]
  | error e =>
      cases hr' : fs'.resolve path with
      | ok p =>
          rw [h.resolve.1 hr'] at hr
          cases hr
      | error e' =>
          have hlong : fs'.resolve path = .error .nameTooLong ↔ fs.resolve path = .error .nameTooLong :=
            h.tooLong
          rw [hr, hr'] at hlong
          cases e <;> cases e' <;> simp_all

end Fs

/-- A tree has the directories of `root`, these files, and these open files under their names, where
    only those from `before` on have kept their names. -/
structure Matches (root : Fs) (before : Nat) (fs : Fs) (σ : Disk) (opened : OpenNames) : Prop where
  dirs : root.SameDirs fs
  store : ∀ p, σ p = fs.contents p
  offsets : opened.map Prod.snd = fs.handles.map Prod.snd
  held : ∀ h e e', before ≤ h → opened[h]? = some e → fs.handles[h]? = some e' →
    fs.node e.1 = some (.file e'.1)

namespace Matches

variable {root fs fs' : Fs} {before : Nat} {σ : Disk} {opened : OpenNames}

theorem length_eq (h : Matches root before fs σ opened) : opened.length = fs.handles.length := by
  have hlen := congrArg List.length h.offsets
  rwa [List.length_map, List.length_map] at hlen

theorem place (h : Matches root before fs σ opened) (path : Buffer) : fs.place path = root.place path :=
  h.dirs.place path

/-- The names that an open file has. -/
theorem getElem? (h : Matches root before fs σ opened) (handle : Nat) :
    (opened[handle]? = none ∧ fs.handles[handle]? = none) ∨
      ∃ p i off, opened[handle]? = some (p, off) ∧ fs.handles[handle]? = some (i, off) := by
  have hoff := congrArg (fun l : List Nat => l[handle]?) h.offsets
  simp only [List.getElem?_map] at hoff
  cases ho : opened[handle]? with
  | none =>
      rw [ho] at hoff
      cases hf : fs.handles[handle]? with
      | none => exact Or.inl ⟨rfl, rfl⟩
      | some e =>
          rw [hf] at hoff
          cases hoff
  | some e =>
      rw [ho] at hoff
      cases hf : fs.handles[handle]? with
      | none =>
          rw [hf] at hoff
          cases hoff
      | some e' =>
          rw [hf] at hoff
          obtain ⟨p, off⟩ := e
          obtain ⟨i, off'⟩ := e'
          obtain rfl : off = off' := Option.some.inj hoff
          exact Or.inr ⟨p, i, off, rfl, rfl⟩

/-- A call that changes nothing. -/
theorem same (h : Matches root before fs σ opened) (hstate : fs'.toFsState = fs.toFsState) :
    Matches root before fs' σ opened where
  dirs := h.dirs.trans (Fs.sameDirs_of_state hstate)
  store := by
    rw [hstate]
    exact h.store
  offsets := by
    rw [hstate]
    exact h.offsets
  held := by
    rw [hstate]
    exact h.held

/-- A call that opens the file at `p`, and leaves the names of files. -/
theorem opens (h : Matches root before fs σ opened) {σ' : Disk} {p : Path} {i : Nat}
    (hdirs : fs.SameDirs fs') (hstore : ∀ q, σ' q = fs'.contents q)
    (hhandles : fs'.handles = fs.handles ++ [(i, 0)])
    (hkept : ∀ q j, fs.node q = some (.file j) → fs'.node q = some (.file j))
    (hp : fs'.node p = some (.file i)) : Matches root before fs' σ' (opened ++ [(p, 0)]) where
  dirs := h.dirs.trans hdirs
  store := hstore
  offsets := by rw [hhandles, List.map_append, List.map_append, h.offsets]; rfl
  held := by
    intro handle e e' hbefore ho hf
    rw [hhandles] at hf
    by_cases hlt : handle < opened.length
    · rw [List.getElem?_append_left hlt] at ho
      rw [List.getElem?_append_left (h.length_eq ▸ hlt)] at hf
      exact hkept _ _ (h.held handle e e' hbefore ho hf)
    · rw [List.getElem?_append_right (Nat.le_of_not_lt hlt)] at ho
      rw [List.getElem?_append_right (h.length_eq ▸ Nat.le_of_not_lt hlt), ← h.length_eq] at hf
      rw [List.getElem?_singleton] at ho hf
      split_ifs at ho hf
      cases ho
      cases hf
      exact hp

/-- A call that moves an open file, and leaves the names of files. -/
theorem seeks (h : Matches root before fs σ opened) {σ' : Disk} {p : Path} {i handle off off' : Nat}
    (ho : opened[handle]? = some (p, off)) (hf : fs.handles[handle]? = some (i, off))
    (hcwd : fs'.cwd = fs.cwd) (hnode : ∀ q, fs'.node q = fs.node q)
    (hstore : ∀ q, σ' q = fs'.contents q) (hhandles : fs'.handles = fs.handles.set handle (i, off')) :
    Matches root before fs' σ' (opened.set handle (p, off')) where
  dirs := h.dirs.trans (.of_node hcwd fun q => by rw [hnode])
  store := hstore
  offsets := by rw [hhandles, List.map_set, List.map_set, h.offsets]
  held := by
    intro handle' e e' hbefore ho' hf'
    rw [hhandles] at hf'
    rw [hnode]
    rw [List.getElem?_set] at ho' hf'
    split_ifs at ho' hf' with heq
    · cases ho'
      cases hf'
      exact h.held handle (p, off) (i, off) (heq ▸ hbefore) ho hf
    · exact h.held handle' e e' hbefore ho' hf'

/-- A call that changes names, while nothing is open. -/
theorem renames (h : Matches root before fs σ opened) {σ' : Disk} (hopen : opened.length = before)
    (hdirs : fs.SameDirs fs') (hstore : ∀ q, σ' q = fs'.contents q)
    (hhandles : fs'.handles = fs.handles) : Matches root before fs' σ' opened where
  dirs := h.dirs.trans hdirs
  store := hstore
  offsets := by rw [hhandles, h.offsets]
  held := by
    intro handle e e' hbefore ho _
    rw [List.getElem?_eq_none (by omega)] at ho
    cases ho

end Matches

/-- A call is answered alike by a tree and by its files, and files and tree match after it; the tree
    keeps the names of the files that the call does not write. -/
structure Alike (root : Fs) (before : Nat) (fs : Fs) (fault : Bool) (σ : Disk) (opened : OpenNames)
    (c : FileCall) : Prop where
  ans : (c.onDisk root fault σ opened).1 = (c.answer fault fs).1
  after : Matches root before (c.answer fault fs).2 (c.onDisk root fault σ opened).2.1
    (c.onDisk root fault σ opened).2.2
  names : ∀ p, p ∉ (c.footprint root.place opened.names).writes →
    (c.answer fault fs).2.node p = fs.node p

namespace Matches

variable {root fs : Fs} {before : Nat} {σ : Disk} {opened : OpenNames} {path newPath : Buffer}

theorem alike_openRead (h : Matches root before fs σ opened) :
    Alike root before fs false σ opened (.openRead path) := by
  have hplace := h.place path
  cases hp : root.place path with
  | none =>
      rw [hp] at hplace
      have hno : fs.inodeAt path = none := by
        refine Fs.inodeAt_of_not_file fun p i hr hi => ?_
        rw [Fs.place_eq_none.1 hplace p hr] at hi
        cases hi
      constructor
      · simp [FileCall.onDisk, FileCall.answer, hp, hno]
      · simpa [FileCall.onDisk, FileCall.answer, hp, hno] using h
      · simp [FileCall.answer, hno]
  | some p =>
      rw [hp] at hplace
      rcases Fs.node_of_place hplace with ⟨hn, hc⟩ | ⟨i, hn, hc⟩
      · have hno : fs.inodeAt path = none := by
          refine Fs.inodeAt_of_not_file fun q i hr hi => ?_
          rw [(Fs.place_eq_some.1 hplace).1] at hr
          cases hr
          rw [hn] at hi
          cases hi
        constructor
        · simp [FileCall.onDisk, FileCall.answer, hp, hno, h.store, hc]
        · simpa [FileCall.onDisk, FileCall.answer, hp, hno, h.store, hc] using h
        · simp [FileCall.answer, hno]
      · obtain ⟨hi, hinode⟩ := Fs.inodeAt_of_file (Fs.place_eq_some.1 hplace).1 hn
        constructor
        · simp [FileCall.onDisk, FileCall.answer, hp, hinode, h.store, hc, h.length_eq]
        · simp only [FileCall.onDisk, FileCall.answer, hp, hinode, h.store, hc, Bool.false_eq_true,
            if_false, Option.isSome_some, if_true]
          exact h.opens (i := i) (.of_node rfl fun _ => Iff.rfl) (fun q => h.store q) rfl
            (fun _ _ => id) hn
        · intro q _
          simp only [FileCall.answer, hinode, Bool.false_eq_true, if_false]
          rfl

theorem alike_read {handle n : Nat} (h : Matches root before fs σ opened) (hheld : before ≤ handle) :
    Alike root before fs false σ opened (.read handle n) := by
  rcases h.getElem? handle with ⟨ho, hf⟩ | ⟨p, i, off, ho, hf⟩
  · have hread := Fs.read_none hf n
    constructor
    · simp [FileCall.onDisk, FileCall.answer, ho, hread]
    · simpa [FileCall.onDisk, FileCall.answer, ho, hread] using h
    · simp [FileCall.answer, hread]
  · obtain ⟨hans, hstate⟩ := Fs.read_some hf n
    have hdata : (σ p).getD [] = fs.data i := by
      rw [h.store, Fs.contents_of_file (h.held handle _ _ hheld ho hf)]
      rfl
    constructor
    · simp [FileCall.onDisk, FileCall.answer, ho, hans, hdata]
    · simp only [FileCall.onDisk, FileCall.answer, ho, hdata, Bool.false_eq_true, if_false]
      refine h.seeks ho hf ?_ (fun q => ?_) (fun q => ?_) ?_
      · rw [hstate]
      · rw [hstate]
        rfl
      · rw [hstate, h.store]
        rfl
      · rw [hstate]
    · intro q _
      simp only [FileCall.answer, Bool.false_eq_true, if_false]
      rw [hstate]
      rfl

theorem alike_write {handle : Nat} {b : Buffer} (h : Matches root before fs σ opened)
    (hheld : before ≤ handle) : Alike root before fs false σ opened (.write handle b) := by
  rcases h.getElem? handle with ⟨ho, hf⟩ | ⟨p, i, off, ho, hf⟩
  · have hwrite := Fs.write_none hf b
    constructor
    · simp [FileCall.onDisk, FileCall.answer, ho, hwrite]
    · simpa [FileCall.onDisk, FileCall.answer, ho, hwrite] using h
    · simp [FileCall.answer, hwrite]
  · obtain ⟨hans, hstate⟩ := Fs.write_some hf b
    have hn := h.held handle _ _ hheld ho hf
    constructor
    · simp [FileCall.onDisk, FileCall.answer, ho, hans]
    · simp only [FileCall.onDisk, FileCall.answer, ho, Bool.false_eq_true, if_false]
      refine h.seeks ho hf ?_ (fun q => ?_) (fun q => ?_) ?_
      · rw [hstate]
      · rw [hstate]
        rfl
      · have hnode : ∀ q, (fs.write handle b).2.node q = fs.node q := fun q => by rw [hstate]; rfl
        by_cases hq : q = p
        · subst hq
          rw [Function.update_self, h.store, Fs.contents_of_file hn,
            Fs.contents_of_file ((hnode q).trans hn), hstate]
          simp
        · rw [Function.update_of_ne hq, h.store]
          refine (Fs.contents_congr (hnode q) fun j hj => ?_).symm
          rw [hstate]
          refine Function.update_of_ne ?_ ..
          rintro rfl
          exact hq (fs.wf.inode_inj _ _ _ hj hn)
      · rw [hstate]
    · intro q _
      simp only [FileCall.answer, Bool.false_eq_true, if_false]
      rw [hstate]
      rfl

theorem alike_openWrite (h : Matches root before fs σ opened) :
    Alike root before fs false σ opened (.openWrite path) := by
  have hplace := h.place path
  cases hp : root.place path with
  -- the path leads nowhere, and nothing is opened
  | none =>
      rw [hp] at hplace
      have hfail := Fs.openWrite_fail (Fs.place_eq_none.1 hplace)
      constructor
      · simp [FileCall.onDisk, FileCall.answer, hp, hfail]
      · simpa [FileCall.onDisk, FileCall.answer, hp, hfail] using h
      · simp [FileCall.answer, hfail]
  | some p =>
      rw [hp] at hplace
      have hr := (Fs.place_eq_some.1 hplace).1
      rcases Fs.node_of_place hplace with ⟨hn, -⟩ | ⟨i, hn, -⟩
      · -- a new file
        obtain ⟨hans, hstate⟩ := Fs.openWrite_free hr hn
        have hne := (fs.resolve_makeable hr hn).1
        have hnode : ∀ q, (fs.openWrite path).2.node q =
            if q = p then some (.file fs.nextInode) else fs.node q := by
          intro q
          rw [hstate]
          exact FsState.node_enter fs.newInode hne _ q
        constructor
        · simp [FileCall.onDisk, FileCall.answer, hp, hans, h.length_eq]
        · simp only [FileCall.onDisk, FileCall.answer, hp, Bool.false_eq_true, if_false]
          refine h.opens (i := fs.nextInode) (Fs.openWrite_sameDirs fs path) (fun q => ?_) ?_
            (fun q j hj => ?_) ?_
          · by_cases hq : q = p
            · subst hq
              have hself := hnode q
              rw [if_pos rfl] at hself
              rw [Function.update_self, Fs.contents_of_file hself, hstate]
              simp [FsState.openInode, FsState.enter, FsState.newInode]
            · have hother := hnode q
              rw [if_neg hq] at hother
              rw [Function.update_of_ne hq, h.store]
              refine (Fs.contents_congr hother fun j hj => ?_).symm
              rw [hstate]
              exact Function.update_of_ne (Nat.ne_of_lt (fs.wf.inode_lt q j hj)) ..
          · rw [hstate]
            rfl
          · rw [hnode, if_neg, hj]
            rintro rfl
            rw [hn] at hj
            cases hj
          · rw [hnode, if_pos rfl]
        · intro q hq
          simp only [FileCall.answer, Bool.false_eq_true, if_false]
          rw [hnode, if_neg]
          rintro rfl
          exact hq (by simp [FileCall.footprint, hp])
      · -- a file that is there is emptied
        obtain ⟨hans, hstate⟩ := Fs.openWrite_file hr hn
        have hnode : ∀ q, (fs.openWrite path).2.node q = fs.node q := fun q => by rw [hstate]; rfl
        constructor
        · simp [FileCall.onDisk, FileCall.answer, hp, hans, h.length_eq]
        · simp only [FileCall.onDisk, FileCall.answer, hp, Bool.false_eq_true, if_false]
          refine h.opens (i := i) (Fs.openWrite_sameDirs fs path) (fun q => ?_) ?_
            (fun q j hj => (hnode q).trans hj) ((hnode p).trans hn)
          · by_cases hq : q = p
            · subst hq
              rw [Function.update_self, Fs.contents_of_file ((hnode q).trans hn), hstate]
              simp [FsState.openInode]
            · rw [Function.update_of_ne hq, h.store]
              refine (Fs.contents_congr (hnode q) fun j hj => ?_).symm
              rw [hstate]
              refine Function.update_of_ne ?_ ..
              rintro rfl
              exact hq (fs.wf.inode_inj _ _ _ hj hn)
          · rw [hstate]
            rfl
        · intro q _
          simp only [FileCall.answer, Bool.false_eq_true, if_false]
          exact hnode q

theorem alike_remove (h : Matches root before fs σ opened) (hopen : opened.length = before) :
    Alike root before fs false σ opened (.remove path) := by
  have hplace := h.place path
  cases hp : root.place path with
  -- the path leads nowhere, and nothing is removed
  | none =>
      rw [hp] at hplace
      have hfail : fs.remove path = (false, fs) := Fs.remove_fail fun q i hr hi => by
        rw [Fs.place_eq_none.1 hplace q hr] at hi
        cases hi
      constructor
      · simp [FileCall.onDisk, FileCall.answer, hp, hfail]
      · simpa [FileCall.onDisk, FileCall.answer, hp, hfail] using h
      · simp [FileCall.answer, hfail]
  | some p =>
      rw [hp] at hplace
      have hr := (Fs.place_eq_some.1 hplace).1
      rcases Fs.node_of_place hplace with ⟨hn, hc⟩ | ⟨i, hn, hc⟩
      -- a place without a file
      · have hfail : fs.remove path = (false, fs) := Fs.remove_fail fun q i hq hi => by
          rw [hr] at hq
          cases hq
          rw [hn] at hi
          cases hi
        have hsame : Function.update σ p none = σ := by
          rw [Function.update_eq_self_iff, h.store, hc]
        constructor
        · simp [FileCall.onDisk, FileCall.answer, hp, hfail, h.store, hc]
        · simpa [FileCall.onDisk, FileCall.answer, hp, hfail, hsame] using h
        · simp [FileCall.answer, hfail]
      -- a file, which is gone afterwards
      · obtain ⟨hans, hstate⟩ := Fs.remove_file hr hn
        have hnode : ∀ q, (fs.remove path).2.node q = if q = p then none else fs.node q := by
          intro q
          rw [hstate]
          exact FsState.node_unlink _ (Fs.ne_nil_of_file hn) q
        constructor
        · simp [FileCall.onDisk, FileCall.answer, hp, hans, h.store, hc]
        · simp only [FileCall.onDisk, FileCall.answer, hp, Bool.false_eq_true, if_false]
          refine h.renames hopen (Fs.remove_sameDirs fs path) (fun q => ?_) ?_
          · by_cases hq : q = p
            · subst hq
              have hself := hnode q
              rw [if_pos rfl] at hself
              rw [Function.update_self, Fs.contents_of_none hself]
            · have hother := hnode q
              rw [if_neg hq] at hother
              rw [Function.update_of_ne hq, h.store]
              refine (Fs.contents_congr hother fun j _ => ?_).symm
              rw [hstate]
              rfl
          · rw [hstate]
            rfl
        · intro q hq
          simp only [FileCall.answer, Bool.false_eq_true, if_false]
          rw [hnode, if_neg]
          rintro rfl
          exact hq (by simp [FileCall.footprint, hp])

/-- A file gets a new name, which was free or which another file loses. -/
theorem alike_moved {p q : Path} {i : Nat} (h : Matches root before fs σ opened)
    (hopen : opened.length = before) (hp : fs.place path = some p) (hq : fs.place newPath = some q)
    (hpi : fs.node p = some (.file i)) (hans : (fs.rename path newPath).1 = true)
    (hnode : ∀ r, (fs.rename path newPath).2.node r =
      if r = q then some (.file i) else if r = p then none else fs.node r)
    (hdata : (fs.rename path newPath).2.data = fs.data)
    (hhandles : (fs.rename path newPath).2.handles = fs.handles) :
    Alike root before fs false σ opened (.rename path newPath) := by
  have hσ : σ p = some (fs.data i) := by rw [h.store, Fs.contents_of_file hpi]
  rw [h.place] at hp hq
  constructor
  · simp [FileCall.onDisk, FileCall.answer, hp, hq, hσ, hans]
  · simp only [FileCall.onDisk, FileCall.answer, hp, hq, hσ, Bool.false_eq_true, if_false]
    refine h.renames hopen (Fs.rename_sameDirs fs path newPath) (fun r => ?_) hhandles
    -- the store is the file's at the new name, empty at the old one, and as before elsewhere
    by_cases hrq : r = q
    · subst hrq
      have hnew := hnode r
      rw [if_pos rfl] at hnew
      rw [Function.update_self, Fs.contents_of_file hnew, hdata]
    · rw [Function.update_of_ne hrq]
      by_cases hrp : r = p
      · subst hrp
        have hold := hnode r
        rw [if_neg hrq, if_pos rfl] at hold
        rw [Function.update_self, Fs.contents_of_none hold]
      · have hother := hnode r
        rw [if_neg hrq, if_neg hrp] at hother
        rw [Function.update_of_ne hrp, h.store]
        exact (Fs.contents_congr hother fun j _ => by rw [hdata]).symm
  · intro r hr
    simp only [FileCall.answer, Bool.false_eq_true, if_false]
    have hrq : r ≠ q := fun heq => hr (by simp [FileCall.footprint, hq, heq])
    have hrp : r ≠ p := fun heq => hr (by simp [FileCall.footprint, hp, heq])
    rw [hnode, if_neg hrq, if_neg hrp]

theorem alike_rename (h : Matches root before fs σ opened) (hopen : opened.length = before) :
    Alike root before fs false σ opened (.rename path newPath) := by
  have hat : ∀ {path : Buffer} {p : Path} {i : Nat}, fs.resolve path = .ok p →
      fs.node p = some (.file i) → fs.place path = some p := by
    intro path p i hr hpi
    exact Fs.place_eq_some.2 ⟨hr, fun hdir => by rw [hpi] at hdir; cases hdir⟩
  rcases Fs.rename_cases fs path newPath with ⟨hno, heq⟩ | ⟨p, i, hp, hq, hpi, heq⟩ |
    ⟨p, q, i, hp, hq, hpi, hqn, hans, hstate⟩ | ⟨p, q, i, j, hp, hq, hpi, hqj, hpq, hans, hstate⟩
  -- there is no file to rename, or no place for it
  · have hfail : FileCall.onDisk root false σ opened (.rename path newPath) = (false, σ, opened) := by
      simp only [FileCall.onDisk, Bool.false_eq_true, if_false]
      cases hp : root.place path with
      | none => rfl
      | some p =>
          cases hq : root.place newPath with
          | none => rfl
          | some q =>
              rw [← h.place] at hp hq
              have hnone : σ p = none := by
                rw [h.store]
                rcases Fs.node_of_place hp with ⟨-, hc⟩ | ⟨i, hn, -⟩
                · exact hc
                · have hq' := Fs.place_eq_some.1 hq
                  exact absurd (hno p q i (Fs.place_eq_some.1 hp).1 hq'.1 hn) hq'.2
              dsimp only
              rw [hnone]
    constructor
    · rw [hfail]
      simp [FileCall.answer, heq]
    · rw [hfail]
      simpa [FileCall.answer, heq] using h
    · simp [FileCall.answer, heq]
  -- both paths are names of the same file
  · have hσ : σ p = some (fs.data i) := by rw [h.store, Fs.contents_of_file hpi]
    have hp' := hat hp hpi
    have hq' := hat hq hpi
    rw [h.place] at hp' hq'
    have hsame : Function.update (Function.update σ p none) p (some (fs.data i)) = σ := by
      rw [Function.update_idem, Function.update_eq_self_iff, hσ]
    constructor
    · simp [FileCall.onDisk, FileCall.answer, hp', hq', hσ, heq]
    · simpa [FileCall.onDisk, FileCall.answer, hp', hq', hσ, heq, hsame] using h
    · simp [FileCall.answer, heq]
  -- the new name is free
  · have hq' : fs.place newPath = some q :=
      Fs.place_eq_some.2 ⟨hq, fun hdir => by rw [hqn] at hdir; cases hdir⟩
    refine h.alike_moved hopen (hat hp hpi) hq' hpi hans (fun r => ?_) ?_ ?_
    · rw [hstate, FsState.node_enter _ (fs.resolve_makeable hq hqn).1,
        FsState.node_unlink _ (Fs.ne_nil_of_file hpi)]
    · rw [hstate]
      rfl
    · rw [hstate]
      rfl
  -- the new name is that of another file, which is lost
  · refine h.alike_moved hopen (hat hp hpi) (hat hq hqj) hpi hans (fun r => ?_) ?_ ?_
    · have hqne := Fs.ne_nil_of_file hqj
      rw [hstate, FsState.node_enter _ hqne, FsState.node_unlink _ (Fs.ne_nil_of_file hpi),
        FsState.node_unlink _ hqne]
      split_ifs
      · rfl
      · rfl
      · rfl
    · rw [hstate]
      rfl
    · rw [hstate]
      rfl

/-- A call that only looks. -/
theorem alike_looking {c : FileCall} {fault : Bool} (h : Matches root before fs σ opened)
    (hans : (c.onDisk root fault σ opened).1 = (c.answer fault fs).1)
    (hdisk : (c.onDisk root fault σ opened).2 = (σ, opened)) (hfs : (c.answer fault fs).2 = fs) :
    Alike root before fs fault σ opened c := by
  refine ⟨hans, ?_, fun p _ => by rw [hfs]⟩
  rw [hdisk, hfs]
  exact h

/-- **A tree of files answers as its files do**, to a call that is tidy and does not list. -/
theorem alike {c : FileCall} (h : Matches root before fs σ opened)
    (htidy : TidyCall ⟨before, opened.length⟩ c) (hlist : ∀ path, c ≠ .list path) (fault : Bool) :
    Alike root before fs fault σ opened c := by
  cases fault with
  | true =>
      cases c with
      | list path => exact absurd rfl (hlist path)
      | createDirectory path => exact htidy.elim
      | _ => exact h.alike_looking rfl rfl rfl
  | false =>
      cases c with
      | list path => exact absurd rfl (hlist path)
      | createDirectory path => exact htidy.elim
      | openRead path => exact h.alike_openRead
      | openWrite path => exact h.alike_openWrite
      | read handle n => exact h.alike_read htidy.1
      | write handle b => exact h.alike_write htidy.1
      | rename path newPath => exact h.alike_rename htidy
      | remove path => exact h.alike_remove htidy
      | stat path =>
          refine h.alike_looking ?_ rfl rfl
          simp only [FileCall.onDisk, FileCall.answer, Bool.false_eq_true, if_false]
          cases hp : root.place path with
          | none => exact (Fs.fileType_of_no_place h.dirs hp).symm
          | some p =>
              rw [← h.place] at hp
              dsimp only
              rw [Fs.fileType_of_place hp, h.store]
      | fileSize path =>
          refine h.alike_looking ?_ rfl rfl
          simp only [FileCall.onDisk, FileCall.answer, Bool.false_eq_true, if_false]
          have hno : (∀ p i, fs.resolve path = .ok p → fs.node p ≠ some (.file i)) →
              (fs.inodeAt path).map (fun i => (fs.data i).length) = none := by
            intro hno
            rw [Fs.inodeAt_of_not_file hno]
            rfl
          cases hp : root.place path with
          | none =>
              rw [← h.place] at hp
              refine (hno fun p i hr hi => ?_).symm
              rw [Fs.place_eq_none.1 hp p hr] at hi
              cases hi
          | some p =>
              rw [← h.place] at hp
              have hr := (Fs.place_eq_some.1 hp).1
              show (σ p).map List.length = _
              rw [h.store]
              rcases Fs.node_of_place hp with ⟨hn, hc⟩ | ⟨i, hn, hc⟩
              · rw [hc, hno fun q i hr' hi => ?_]
                · rfl
                · rw [hr] at hr'
                  cases hr'
                  rw [hn] at hi
                  cases hi
              · obtain ⟨hi, hinode⟩ := Fs.inodeAt_of_file hr hn
                rw [hc, hinode]
                rfl

end Matches

end CloudStorage
