import CloudStorage.Store

set_option autoImplicit false

/-! # The names in the store

`File::create` and `File::read` check the names of the files that they open, `Worker::rename_file` does
not check the new name. So the names of the files in the folders of the users stay valid as long as no
file is renamed to an invalid one, whatever the sessions do otherwise. -/

namespace CloudStorage

open Interaction Interaction.Routine

open Worker (folderPath)

/-! ## Valid names -/

/-- A place right in the folder of a user. -/
def InFolder (fs : Fs) (q : Path) : Prop :=
  ∃ u ∈ usernameList, fs.resolve (folderPath u) = .ok q.dropLast

/-- The last name is one that `File::isValidFileName` accepts. -/
def ValidLast (q : Path) : Prop := ∀ name, q.getLast? = some name → File.isValidFileName name = true

/-- Every regular file in the folder of a user has a valid name. -/
def ValidNames (fs : Fs) : Prop :=
  ∀ q i, fs.node q = some (.file i) → InFolder fs q → ValidLast q

/-- The call does not rename a file to an invalid name in the folder of a user. -/
def KeepsNames (fs : Fs) : FileCall → Prop
  | .rename _ newPath => ∀ q, fs.resolve newPath = .ok q → InFolder fs q → ValidLast q
  | _ => True

instance (fs : Fs) (q : Path) : Decidable (InFolder fs q) :=
  inferInstanceAs (Decidable (∃ u ∈ usernameList, _))

instance (q : Path) : Decidable (ValidLast q) :=
  match hq : q.getLast? with
  | none => .isTrue fun name h => by rw [hq] at h; cases h
  | some name => decidable_of_iff (File.isValidFileName name = true)
      ⟨fun hv name' h => by rw [hq] at h; cases h; exact hv, fun hv => hv name hq⟩

instance (fs : Fs) : ∀ c, Decidable (KeepsNames fs c)
  | .rename _ newPath =>
    match hr : fs.resolve newPath with
    | .error _ => .isTrue fun q h => by rw [hr] at h; cases h
    | .ok q => decidable_of_iff (InFolder fs q → ValidLast q)
        ⟨fun hv q' h => by rw [hr] at h; cases h; exact hv, fun hv => hv q hr⟩
  | .stat _ | .fileSize _ | .openRead _ | .read _ _ | .openWrite _ | .write _ _ | .remove _
  | .list _ | .createDirectory _ => .isTrue trivial

/-- Only what is entered is a file. -/
theorem validNames_iff (fs : Fs) : ValidNames fs ↔
    ∀ q ∈ fs.entries.keys, fs.node q ≠ some .dir → InFolder fs q → ValidLast q := by
  constructor
  · intro hv q hq hdir
    cases hn : fs.node q with
    | none =>
        have hsome : (fs.entries.lookup q).isSome := AList.lookup_isSome.2 hq
        unfold FsState.node at hn
        split_ifs at hn
        rw [hn] at hsome
        cases hsome
    | some n =>
        cases n with
        | dir => exact absurd hn hdir
        | file i => exact hv q i hn
  · intro hv q i hq
    refine hv q ?_ (by simp [hq])
    rw [FsState.node, if_neg (Fs.ne_nil_of_file hq)] at hq
    exact AList.lookup_isSome.1 (by rw [hq]; rfl)

instance (fs : Fs) : Decidable (ValidNames fs) := decidable_of_iff _ (validNames_iff fs).symm

section

variable {fs fs' : Fs} {p q : Path} {path newPath : Buffer} {i : Nat} {c : FileCall}

theorem SameDirs.inFolder (h : fs.SameDirs fs') : InFolder fs' q ↔ InFolder fs q := by
  constructor
  · rintro ⟨u, hu, hD⟩
    exact ⟨u, hu, h.resolve.1 hD⟩
  · rintro ⟨u, hu, hD⟩
    exact ⟨u, hu, h.resolve.2 hD⟩

/-- A valid name is none of the two that do not lead down. -/
theorem descend_valid {name : Name} (h : File.isValidFileName name = true) (p : Path) :
    descend p name = p ++ [name] := by
  have hdots : name ≠ [] ∧ name ≠ ascii "." ∧ name ≠ ascii ".." := by
    refine ⟨?_, ?_, ?_⟩
    · rintro rfl
      cases h
    · rintro rfl
      exact absurd h (by decide)
    · rintro rfl
      exact absurd h (by decide)
  have hstay : ¬(name = [] ∨ name = ascii ".") := fun hor => hor.elim hdots.1 hdots.2.1
  unfold descend
  rw [if_neg hstay, if_neg hdots.2.2]

/-- A path with a valid last component leads to a place of that name. -/
theorem Fs.getLast_of_resolve (hr : fs.resolve path = .ok q)
    (hname : File.isValidFileName (filename path) = true) : q.getLast? = some (filename path) := by
  have hwalk : ∃ r, fs.walk r (path.splitOn 47) = .ok q := by
    unfold Fs.resolve at hr
    split_ifs at hr
    · exact ⟨_, hr⟩
    · exact ⟨_, hr⟩
  obtain ⟨r, hr⟩ := hwalk
  -- the components are those before the last one, and the last one
  have hcs : path.splitOn 47 = (path.splitOn 47).dropLast ++ [filename path] := by
    have hne : path.splitOn 47 ≠ [] := List.splitOn_ne_nil 47 path
    rw [filename, List.getLastD_eq_getLast?, List.getLast?_eq_some_getLast hne, Option.getD_some,
      List.dropLast_append_getLast]
  rw [hcs, Fs.walk_append] at hr
  split at hr
  · rename_i r _
    rw [Fs.walk] at hr
    split at hr
    · cases hr
    · cases hr
    · split_ifs at hr
      rw [descend_valid hname, Fs.walk] at hr
      cases hr
      exact List.getLast?_concat ..
  · cases hr

/-! ## One call -/

theorem Fs.file_of_rename (hat : fs.resolve newPath ≠ .ok q)
    (h : (fs.rename path newPath).2.node q = some (.file i)) : ∃ j, fs.node q = some (.file j) := by
  have hne : ∀ {r}, fs.resolve newPath = .ok r → q ≠ r := by
    rintro r hr rfl
    exact hat hr
  rcases Fs.rename_cases fs path newPath with ⟨-, heq⟩ | ⟨p, j, -, -, -, heq⟩ |
    ⟨p, r, j, hp, hr, hpj, hrn, -, hstate⟩ | ⟨p, r, j, k, hp, hr, hpj, hrk, -, -, hstate⟩
  · rw [heq] at h
    exact ⟨i, h⟩
  · rw [heq] at h
    exact ⟨i, h⟩
  · rw [hstate, FsState.node_enter _ (fs.resolve_makeable hr hrn).1, if_neg (hne hr),
      FsState.node_unlink _ (Fs.ne_nil_of_file hpj)] at h
    split_ifs at h
    exact ⟨i, h⟩
  · rw [hstate, FsState.node_enter _ (Fs.ne_nil_of_file hrk), if_neg (hne hr),
      FsState.node_unlink _ (Fs.ne_nil_of_file hpj)] at h
    split_ifs at h
    rw [FsState.node_unlink _ (Fs.ne_nil_of_file hrk)] at h
    split_ifs at h
    exact ⟨i, h⟩

/-- Where a file is after a call, there was one before, or the call has put it there. -/
theorem Fs.file_of_answer (fault : Bool) (hc : ∀ path, c ≠ .createDirectory path)
    (h : (c.answer fault fs).2.node q = some (.file i)) :
    (∃ j, fs.node q = some (.file j)) ∨ (∃ path, c = .openWrite path ∧ fs.resolve path = .ok q) ∨
      ∃ path newPath, c = .rename path newPath ∧ fs.resolve newPath = .ok q := by
  cases fault with
  | true =>
      -- a call that fails leaves the names as they are
      have hsame : (c.answer true fs).2 = fs := by cases c <;> rfl
      rw [hsame] at h
      exact Or.inl ⟨i, h⟩
  | false =>
      cases c with
      | stat path => exact Or.inl ⟨i, h⟩
      | fileSize path => exact Or.inl ⟨i, h⟩
      | list path => exact Or.inl ⟨i, h⟩
      | createDirectory path => exact absurd rfl (hc path)
      | openRead path =>
          simp only [FileCall.answer, Bool.false_eq_true, if_false] at h
          split at h
          · exact Or.inl ⟨i, h⟩
          · exact Or.inl ⟨i, h⟩
      | read handle n =>
          simp only [FileCall.answer, Bool.false_eq_true, if_false, Fs.read] at h
          split at h
          · exact Or.inl ⟨i, h⟩
          · exact Or.inl ⟨i, h⟩
      | write handle b =>
          simp only [FileCall.answer, Bool.false_eq_true, if_false, Fs.write] at h
          split at h
          · exact Or.inl ⟨i, h⟩
          · exact Or.inl ⟨i, h⟩
      | openWrite path =>
          simp only [FileCall.answer, Bool.false_eq_true, if_false] at h
          by_cases hat : fs.resolve path = .ok q
          · exact Or.inr (Or.inl ⟨path, rfl, hat⟩)
          -- a file opened elsewhere, or none: what is at the path is what was there
          · refine Or.inl ⟨i, ?_⟩
            cases hr : fs.resolve path with
            | error e =>
                rw [Fs.openWrite_fail fun p hp => by rw [hr] at hp; cases hp] at h
                exact h
            | ok p =>
                have hqp : q ≠ p := by
                  rintro rfl
                  exact hat hr
                cases hp : fs.node p with
                | none =>
                    rw [(Fs.openWrite_free hr hp).2] at h
                    have hnode := FsState.node_enter fs.newInode (fs.resolve_makeable hr hp).1
                      (.file fs.nextInode) q
                    rw [if_neg hqp] at hnode
                    exact hnode.symm.trans h
                | some n =>
                    cases n with
                    | dir =>
                        rw [Fs.openWrite_fail fun p' hp' => by
                          rw [hr] at hp'; cases hp'; exact hp] at h
                        exact h
                    | file j =>
                        rw [(Fs.openWrite_file hr hp).2] at h
                        exact h
      | remove path =>
          simp only [FileCall.answer, Bool.false_eq_true, if_false] at h
          -- a file that a removal leaves was there before
          by_cases hfile : ∃ p j, fs.resolve path = .ok p ∧ fs.node p = some (.file j)
          · obtain ⟨p, j, hr, hp⟩ := hfile
            rw [(Fs.remove_file hr hp).2, FsState.node_unlink _ (Fs.ne_nil_of_file hp)] at h
            split_ifs at h
            exact Or.inl ⟨i, h⟩
          · rw [Fs.remove_fail fun p j hr hp => hfile ⟨p, j, hr, hp⟩] at h
            exact Or.inl ⟨i, h⟩
      | rename path newPath =>
          simp only [FileCall.answer, Bool.false_eq_true, if_false] at h
          by_cases hat : fs.resolve newPath = .ok q
          · exact Or.inr (Or.inr ⟨path, newPath, rfl, hat⟩)
          · exact Or.inl (Fs.file_of_rename hat h)

/-- **A call keeps the names valid** if it gives a created file a valid name, makes no directory, and
    renames no file to an invalid one. -/
theorem ValidNames.answer (hv : ValidNames fs) (fault : Bool)
    (htidy : ∀ path, c = .openWrite path → File.nameAccepted (filename path) = true)
    (hdirs : ∀ path, c ≠ .createDirectory path) (hkeeps : KeepsNames fs c) :
    ValidNames (c.answer fault fs).2 := by
  intro q i hq hin
  have hin₀ : InFolder fs q := (SameDirs.inFolder (Fs.answer_sameDirs fault fs hdirs)).1 hin
  rcases Fs.file_of_answer fault hdirs hq with ⟨j, hj⟩ | ⟨path, rfl, hr⟩ | ⟨path, newPath, rfl, hr⟩
  · exact hv q j hj hin₀
  · have haccepted := htidy path rfl
    unfold File.nameAccepted at haccepted
    rw [Bool.and_eq_true] at haccepted
    intro name hname
    rw [Fs.getLast_of_resolve hr haccepted.1, Option.some.injEq] at hname
    rw [← hname]
    exact haccepted.1
  · exact hkeeps q hr hin₀

/-- A file that is renamed to an invalid name in the folder of a user breaks the invariant. -/
theorem not_validNames_rename (hv : ValidNames fs) (hkeeps : ¬KeepsNames fs (.rename path newPath))
    (hdone : (fs.rename path newPath).1 = true) : ¬ValidNames (fs.rename path newPath).2 := by
  unfold KeepsNames at hkeeps
  push Not at hkeeps
  obtain ⟨q, hq, hin, hbad⟩ := hkeeps
  have hin' : InFolder (fs.rename path newPath).2 q :=
    (SameDirs.inFolder (Fs.rename_sameDirs fs path newPath)).2 hin
  intro hv'
  rcases Fs.rename_cases fs path newPath with ⟨-, heq⟩ | ⟨p, i, -, hp, hpi, -⟩ |
    ⟨p, r, i, -, hr, hpi, hrn, -, hstate⟩ | ⟨p, r, i, j, -, hr, -, hrj, -⟩
  · rw [heq] at hdone
    cases hdone
  · rw [hq] at hp
    cases hp
    exact hbad (hv q i hpi hin)
  · rw [hq] at hr
    cases hr
    refine hbad (hv' q i ?_ hin')
    rw [hstate, FsState.node_enter _ (fs.resolve_makeable hq hrn).1, if_pos rfl]
  · rw [hq] at hr
    cases hr
    exact hbad (hv q j hrj hin)

end

/-! ## Sessions -/

/-- The call, if it is one into the file system, keeps the names valid. -/
def KeepingCall (h : Host) : Sys.Op → Prop
  | .sys (.file c) => KeepsNames h.fs c
  | _ => True

instance (h : Host) : ∀ o, Decidable (KeepingCall h o)
  | .sys (.file c) => inferInstanceAs (Decidable (KeepsNames h.fs c))
  | .send _ | .recv _ | .sys (.random _) | .sys (.crypto _) | .sys .getline | .sys .clearAndIgnore
  | .sys (.garbage _) | .sys .overrun | .sys (.print _) | .sys (.note _) => .isTrue trivial

/-- Any machine and any network, where no file is renamed to an invalid name. -/
def NameKeeping : Transition Sys Host := fun h o a h' => Host.anyEnv h o a h' ∧ KeepingCall h o

/-- A session on any store. -/
def Seated : Transition Sys Seat := fun seat o a seat' =>
  ∃ fs h', Host.anyEnv (seat.host fs) o a h' ∧ seat' = h'.seat

/-- A created file is given a valid name, and no directory is made. -/
def NamesFiles : Transition Sys Seat := fun _ o _ _ => ∀ c, o = .sys (.file c) →
  (∀ path, c = .openWrite path → File.nameAccepted (filename path) = true) ∧
    ∀ path, c ≠ .createDirectory path

/-- What a call does to the store of its host. -/
theorem Host.fs_answer (h : Host) (ch : Choice) (o : Sys.Op) :
    (h.answer ch o).2.fs = h.fs ∨
      ∃ c, o = .sys (.file c) ∧ (h.answer ch o).2.fs = (c.answer ch.fault h.fs).2 := by
  cases o with
  | send data =>
      left
      simp only [Host.answer, Host.put]
      split_ifs
      · rfl
      · rfl
      · rfl
  | recv n => exact Or.inl rfl
  | sys o =>
      cases o with
      | file c => exact Or.inr ⟨c, rfl, rfl⟩
      | _ => exact Or.inl rfl

/-- A call that opens a file adds its handle, and no other call changes their number. -/
theorem Fs.handles_answer (fs : Fs) (fault : Bool) (c : FileCall) :
    (∀ handle, openedHandle (.sys (.file c)) (c.answer fault fs).1 = some handle →
        handle = fs.handles.length) ∧
      (c.answer fault fs).2.handles.length =
        if (openedHandle (.sys (.file c)) (c.answer fault fs).1).isSome then fs.handles.length + 1
        else fs.handles.length := by
  -- the two kinds of answers: no handle, and the next one
  have hnone : ∀ {fs' : Fs}, fs'.handles.length = fs.handles.length →
      (∀ handle, (none : Option Nat) = some handle → handle = fs.handles.length) ∧
        fs'.handles.length = if (none : Option Nat).isSome then fs.handles.length + 1
          else fs.handles.length := fun hlen => ⟨fun _ h => (by cases h), hlen⟩
  have hsome : ∀ {fs' : Fs} {e : Nat × Nat}, fs'.handles = fs.handles ++ [e] →
      (∀ handle, some fs.handles.length = some handle → handle = fs.handles.length) ∧
        fs'.handles.length = if (some fs.handles.length).isSome then fs.handles.length + 1
          else fs.handles.length := by
    intro fs' e hadd
    refine ⟨fun handle h => (Option.some.inj h).symm, ?_⟩
    rw [hadd, List.length_append]
    rfl
  cases fault with
  | true => cases c <;> exact hnone rfl
  | false =>
      cases c with
      | stat path => exact hnone rfl
      | fileSize path => exact hnone rfl
      | list path => exact hnone rfl
      | remove path =>
          refine hnone ?_
          simp only [FileCall.answer, Bool.false_eq_true, if_false]
          by_cases hfile : ∃ p i, fs.resolve path = .ok p ∧ fs.node p = some (.file i)
          · obtain ⟨p, i, hr, hp⟩ := hfile
            rw [(Fs.remove_file hr hp).2]
            rfl
          · rw [Fs.remove_fail fun p i hr hp => hfile ⟨p, i, hr, hp⟩]
      | createDirectory path =>
          refine hnone ?_
          simp only [FileCall.answer, Bool.false_eq_true, if_false]
          unfold Fs.createDirectory
          split
          · rfl
          · split <;> rfl
      | rename path newPath =>
          refine hnone ?_
          simp only [FileCall.answer, Bool.false_eq_true, if_false]
          rcases Fs.rename_cases fs path newPath with ⟨-, heq⟩ | ⟨p, i, -, -, -, heq⟩ |
            ⟨p, q, i, -, -, -, -, -, hstate⟩ | ⟨p, q, i, j, -, -, -, -, -, -, hstate⟩
          · rw [heq]
          · rw [heq]
          · rw [hstate]
            rfl
          · rw [hstate]
            rfl
      -- reading and writing move the offset of a handle that is there
      | read handle n =>
          refine hnone ?_
          simp only [FileCall.answer, Bool.false_eq_true, if_false, Fs.read]
          split
          · rfl
          · exact List.length_set
      | write handle b =>
          refine hnone ?_
          simp only [FileCall.answer, Bool.false_eq_true, if_false, Fs.write]
          split
          · rfl
          · exact List.length_set
      -- only the two calls that open a file may add a handle
      | openRead path =>
          simp only [FileCall.answer, Bool.false_eq_true, if_false]
          split
          · exact hnone rfl
          · exact hsome rfl
      | openWrite path =>
          simp only [FileCall.answer, Bool.false_eq_true, if_false]
          cases hr : fs.resolve path with
          | error e =>
              rw [Fs.openWrite_fail fun p hp => by rw [hr] at hp; cases hp]
              exact hnone rfl
          | ok p =>
              cases hp : fs.node p with
              | none =>
                  obtain ⟨hans, hstate⟩ := Fs.openWrite_free hr hp
                  rw [hans]
                  exact hsome (by rw [hstate]; rfl)
              | some n =>
                  cases n with
                  | dir =>
                      rw [Fs.openWrite_fail fun p' hp' => by rw [hr] at hp'; cases hp'; exact hp]
                      exact hnone rfl
                  | file i =>
                      obtain ⟨hans, hstate⟩ := Fs.openWrite_file hr hp
                      rw [hans]
                      exact hsome (by rw [hstate]; rfl)

/-- The handles of a session are numbered in the order in which it opens them. -/
theorem numbered_seated {s : Opens} {seat seat' : Seat} {o : Sys.Op} {a : Sys.Ans o}
    (hs : s.total = seat.handles.length) (hstep : Seated seat o a seat') :
    Numbered s o a (s.after o a) ∧ (s.after o a).total = seat'.handles.length := by
  obtain ⟨fs, h', ⟨ch, hanswer⟩, rfl⟩ := hstep
  obtain rfl : ((seat.host fs).answer ch o).1 = a := congrArg Prod.fst hanswer
  obtain rfl : ((seat.host fs).answer ch o).2 = h' := congrArg Prod.snd hanswer
  have hview : (seat.host fs).fs.handles = seat.handles := rfl
  cases o with
  | send data =>
      refine ⟨⟨fun _ h => (by cases h), rfl⟩, ?_⟩
      simp only [Host.answer, Host.put]
      split_ifs
      · exact hs
      · exact hs
      · exact hs
  | recv n =>
      refine ⟨⟨fun _ h => (by cases h), rfl⟩, ?_⟩
      simp only [Opens.after]
      split_ifs
      · exact hs
      · exact hs
  | sys o =>
      cases o with
      | file c =>
          obtain ⟨hhandle, hlen⟩ := Fs.handles_answer (seat.host fs).fs ch.fault c
          rw [hview, ← hs] at hhandle hlen
          refine ⟨⟨hhandle, rfl⟩, ?_⟩
          show (if _ then _ else _ : Opens).total = (c.answer ch.fault (seat.host fs).fs).2.handles.length
          rw [hlen]
          exact apply_ite Opens.total _ _ _
      | _ => exact ⟨⟨fun _ h => (by cases h), rfl⟩, hs⟩

/-- A worker gives the files that it creates valid names, on any store. -/
theorem Worker.namesFiles (P : Platform) (n : Nat) (x : Session) (seat : Seat) :
    (commandLoop P n x).Sat Seated NamesFiles (fun _ _ => True) seat := by
  have htidy := (tidies_commandLoop (P := P) n).program (x := x)
    (s := ⟨0, seat.handles.length⟩) trivial
  have hseat := Program.Sat.simulate (E := Seated) (G := NamesFiles)
    (fun (s : Opens) (seat : Seat) => s.total = seat.handles.length) ?_ htidy rfl
  · exact hseat.imp fun _ _ _ => trivial
  · intro s seat o a seat' hs hstep
    obtain ⟨hnumbered, htotal⟩ := numbered_seated hs hstep
    refine ⟨_, hnumbered, htotal, fun hcall c hc => ?_⟩
    have hok := hcall c hc
    refine ⟨fun path hpath => ?_, fun path hpath => ?_⟩
    · rw [hpath] at hok
      exact hok
    · rw [hpath] at hok
      exact hok

/-- What a session leaves for all has the names that it has seen. -/
theorem validNames_view {fs : Fs} (handles : List (Nat × Nat)) :
    ValidNames (fs.view handles) ↔ ValidNames fs := by
  have hin : ∀ q, InFolder (fs.view handles) q ↔ InFolder fs q :=
    fun q => SameDirs.inFolder (fs.view_sameDirs handles)
  constructor
  · exact fun hv q i hq hq' => hv q i hq ((hin q).2 hq')
  · exact fun hv q i hq hq' => hv q i hq ((hin q).1 hq')

/-- **The names in the store.** Sessions of any users, in any interleaving and with any requests, which
    rename no file to an invalid name in the folder of a user, keep the names of the regular files in
    these folders valid; and one rename that does so breaks them. -/
theorem names_stay_valid {ι : Type} [DecidableEq ι] (P : Platform) (fs : Fs) (start : ι → Session)
    (bound : ι → Nat) (console : ι → Console) (hv : ValidNames fs) :
    (∀ c, Shared.Reaches (OnStore ι NameKeeping) (sessions P fs start bound console) c →
      ValidNames c.store) ∧
    ∀ path newPath, ¬KeepsNames fs (.rename path newPath) → (fs.rename path newPath).1 = true →
      ¬ValidNames (fs.rename path newPath).2 := by
  refine ⟨fun c hrun => ?_, fun path newPath => not_validNames_rename hv⟩
  refine (Shared.invariant (K := ValidNames) (E := Seated) (G := NamesFiles) ?_ ?_
    (fun i => Worker.namesFiles P (bound i) (start i) (.start (console i)))
    ((validNames_view []).2 hv) hrun).1
  · rintro c i o a fs' seat' ⟨h', hanswer, -, hseat⟩
    exact ⟨c.store, h', hanswer.1, hseat⟩
  · rintro c i o a fs' seat' ⟨h', ⟨⟨ch, hanswer⟩, hkeeps⟩, rfl, -⟩ hnames hv
    have hseen : ValidNames ((c.part i).2.host c.store).fs := (validNames_view _).2 hv
    rw [validNames_view]
    obtain rfl : (((c.part i).2.host c.store).answer ch o).2 = h' := congrArg Prod.snd hanswer
    rcases Host.fs_answer ((c.part i).2.host c.store) ch o with hsame | ⟨call, rfl, hcall⟩
    · rw [hsame]
      exact hseen
    · rw [hcall]
      exact hseen.answer ch.fault (hnames call rfl).1 (hnames call rfl).2 hkeeps

/-! ## A rename -/

/-- A session of a user who has the file `a`. -/
def oneUser : Shared Unit Sys Fs Seat (Except Exit Int × Session) :=
  sessions (.plain .little) (storeOf [ascii "a"]) (fun _ => .start (ascii "user1") []) (fun _ => 1)
    fun _ => ⟨[], false, false⟩

/-- A request to rename the file, after which no call fails. -/
def renameA (newName : Buffer) : List (Unit × Choice) :=
  (.deliver (plainFrame 0 (RenameM1.new (ascii "a") newName).serialize) ::
    List.replicate 12 .calm).map fun ch => ((), ch)

set_option maxRecDepth 20000 in
/-- A file that is renamed to a valid name. -/
theorem names_stay_valid_rename :
    (turns (renameA (ascii "b")) oneUser).store.list (ascii "../data/user1") = some [ascii "b"] ∧
      ValidNames (turns (renameA (ascii "b")) oneUser).store := by
  have hpermits : Permits KeepingCall (renameA (ascii "b")) oneUser := by decide +kernel
  have hvalid := (names_stay_valid (.plain .little) (storeOf [ascii "a"])
    (fun _ : Unit => .start (ascii "user1") []) (fun _ => 1) (fun _ => ⟨[], false, false⟩)
    (by decide +kernel)).1 _ hpermits.reaches
  exact ⟨by decide +kernel, hvalid⟩

set_option maxRecDepth 20000 in
/-- A file that is renamed to a name with a comma in it. -/
theorem renames_to_invalid_name : ¬∀ (P : Platform) (fs : Fs) (start : Unit → Session)
    (bound : Unit → Nat) (console : Unit → Console), ValidNames fs → ∀ c,
      Shared.Reaches (OnStore Unit Host.anyEnv) (sessions P fs start bound console) c →
        ValidNames c.store := by
  intro hall
  have hany : Permits (fun _ _ => True) (renameA (ascii "a,b")) oneUser := by decide +kernel
  have hvalid := hall (.plain .little) (storeOf [ascii "a"]) (fun _ => .start (ascii "user1") [])
    (fun _ => 1) (fun _ => ⟨[], false, false⟩) (by decide +kernel) _
    (hany.reaches.mono fun _ _ _ _ _ _ hstep => by
      obtain ⟨h', hanswer, hrest⟩ := hstep
      exact ⟨h', hanswer.1, hrest⟩)
  have hbad : ¬ValidNames (turns (renameA (ascii "a,b")) oneUser).store := by decide +kernel
  exact hbad hvalid

end CloudStorage
