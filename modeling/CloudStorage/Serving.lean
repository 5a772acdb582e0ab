import CloudStorage.Requests

set_option autoImplicit false

/-! # A session as a store

The command loop over a whole list of requests. Each of them is allowed in the folder as the ones before
it have left it; the loop answers them one after another, and at the end it waits for the next. -/

namespace CloudStorage

open Interaction Memory

namespace Request

/-- Each request is allowed in the folder that it finds. -/
def AllAllowed : FileMap → List Request → Prop
  | _, [] => True
  | m, r :: rs => r.Allowed m ∧ AllAllowed (m.change r.change) rs

/-- The files after the requests of the user `u`, whose folder is `D`. -/
def after (u : Buffer) (D : Path) : Fs → List Request → Fs
  | fs, [] => fs
  | fs, r :: rs => after u D (fs.after (r.calls u fs (fs.files D))) rs

/-- Each list that is asked for fits into a frame. -/
def ListsFit (u : Buffer) (D : Path) : Fs → List Request → Prop
  | _, [] => True
  | fs, r :: rs => (r = .list → Worker.Framed (fs.fileNames D)) ∧
      ListsFit u D (fs.after (r.calls u fs (fs.files D))) rs

/-- What is heard and said about the requests, as the worker has it. -/
def scripts (P : Platform) (u : Buffer) (D : Path) : Fs → List Request → List (Turn Buffer)
  | _, [] => []
  | fs, r :: rs => r.script P (fs.files D) (fs.fileNames D) ++
      scripts P u D (fs.after (r.calls u fs (fs.files D))) rs

instance decidableAllAllowed : ∀ (m : FileMap) (rs : List Request), Decidable (AllAllowed m rs)
  | _, [] => .isTrue trivial
  | m, r :: rs => by
    have := decidableAllAllowed (m.change r.change) rs
    exact inferInstanceAs (Decidable (_ ∧ _))

instance decidableListsFit (u : Buffer) (D : Path) :
    ∀ (fs : Fs) (rs : List Request), Decidable (ListsFit u D fs rs)
  | _, [] => .isTrue trivial
  | fs, r :: rs => by
    have := decidableListsFit u D (fs.after (r.calls u fs (fs.files D))) rs
    exact inferInstanceAs (Decidable (_ ∧ _))

variable {P : Platform} {u : Buffer} {D : Path} {fs : Fs} {rs : List Request}

theorem AllAllowed.left {m : FileMap} {rs' : List Request} (h : AllAllowed m (rs ++ rs')) :
    AllAllowed m rs := by
  induction rs generalizing m with
  | nil => trivial
  | cons r rs ih => exact ⟨h.1, ih h.2⟩

/-- **The requests change the folder as a shelf is changed.** -/
theorem files_after (hf : fs.IsFolder (Worker.folderPath u) D) (hrs : AllAllowed (fs.files D) rs) :
    (after u D fs rs).files D = (fs.files D).changes (rs.map change) := by
  induction rs generalizing fs with
  | nil => rfl
  | cons r rs ih =>
      obtain ⟨hr, hrs⟩ := hrs
      rw [← files_calls hf hr] at hrs
      rw [after, ih (hf.sameDirs (calls_sameDirs ..)) hrs, files_calls hf hr]
      rfl

end Request

namespace Worker

open Member

variable {P : Platform} {key : Buffer} {heap : Host → Buffer} {y : Session} {g : Host} {D : Path}
  {R : Program.Config UInt8 SysCalls (Except Exit Int × Session) (Host × (Nat → Choice)) → Prop}

/-- The loop waits for a request. -/
theorem waits_commandLoop (P : Platform) (n : Nat) (y : Session) :
    ∃ k, commandLoop P (n + 1) y = .call (.recv (Wrapper.getSize Max.initialRequestLength)) k :=
  ⟨_, rfl⟩

section

variable (henc : Encrypts P key)
include henc

/-- One round of the loop. -/
theorem converses_round (hf : g.fs.IsFolder (folderPath y.username) D) {r : Request}
    (hr : r.Allowed (g.fs.files D)) (hlist : r = .list → Framed (g.fs.fileNames D)) {n : Nat}
    {t : List (Turn Buffer)}
    (hnext : ∀ g', (g.after (r.calls y.username g.fs (g.fs.files D))).Same g' →
      ConversesTo P key heap (commandLoop P n)
        (y.advance (r.script P (g.fs.files D) (g.fs.fileNames D))) g' t R) :
    ConversesTo P key heap (commandLoop P (n + 1)) y g
      (r.script P (g.fs.files D) (g.fs.fileNames D) ++ t) R := by
  apply Converses.bind_to (t := [.hear (r.payload P)])
  apply converses_expectPacket (length_payload P r) (by decide)
  intro g₁ hsame
  have hf₁ : g₁.fs.IsFolder (folderPath (y.advance [.hear (r.payload P)]).username) D := by
    rwa [hsame.fs]
  apply Converses.bind_to
  rw [← hsame.fs] at hr hlist hnext ⊢
  apply converses_command henc hf₁ hr hlist
  intro result g₂ hresult hsame₂
  dsimp only
  rw [if_neg hresult, if_neg (commandCode_payload P r), Session.advance_advance]
  exact hnext g₂ (hsame.trans_after hsame₂)

/-- The loop over the requests, by induction on them. -/
theorem converses_requests {rs : List Request} {n : Nat} {t : List (Turn Buffer)}
    (hf : g.fs.IsFolder (folderPath y.username) D) (hrs : Request.AllAllowed (g.fs.files D) rs)
    (hlists : Request.ListsFit y.username D g.fs rs)
    (hnext : ∀ g', ({ g with fs := Request.after y.username D g.fs rs } : Host).Same g' →
      ConversesTo P key heap (commandLoop P n) (y.advance (Request.scripts P y.username D g.fs rs)) g' t R) :
    ConversesTo P key heap (commandLoop P (rs.length + n)) y g
      (Request.scripts P y.username D g.fs rs ++ t) R := by
  induction rs generalizing y g with
  | nil =>
      rw [List.length_nil, Nat.zero_add]
      have hend := hnext g (Host.Same.refl g)
      rwa [Request.scripts, Session.advance_nil] at hend
  | cons r rs ih =>
      obtain ⟨hr, hrs⟩ := hrs
      obtain ⟨hlist, hlists⟩ := hlists
      have hdirs := Request.calls_sameDirs y.username g.fs (g.fs.files D) r
      rw [← Request.files_calls hf hr] at hrs
      rw [List.length_cons, Nat.add_right_comm, Request.scripts, List.append_assoc]
      apply converses_round henc hf hr hlist
      intro g₁ hsame
      have hfs : g₁.fs = g.fs.after (r.calls y.username g.fs (g.fs.files D)) := hsame.fs
      rw [← hfs] at hrs hlists hdirs ⊢
      apply ih (y := y.advance (r.script P (g.fs.files D) (g.fs.fileNames D))) (hf.sameDirs hdirs) hrs
        hlists
      intro g₂ hsame₂
      rw [Session.advance_advance, Session.username_advance, hfs]
      apply hnext
      have hfiles : g₂.fs = Request.after y.username D g₁.fs rs := hsame₂.fs
      rw [hfs] at hfiles
      exact ⟨hfiles, hsame₂.console.trans hsame.console, hsame₂.printed.trans hsame.printed⟩

end

/-- The loop answers the requests as the folder's map has it, changes the folder as the map is changed,
    and waits for the next; and nothing in the folder is lost but what is deleted. -/
structure ServesAll (P : Platform) (key : Buffer) (heap : Host → Buffer) (y : Session) (g : Host) (D : Path)
    (rs : List Request) (n : Nat) : Prop where
  answers : PlaysTo P key heap (commandLoop P (rs.length + (n + 1))) y g
    (Turn.number y.sCounter y.rCounter (Request.scripts P y.username D g.fs rs)) fun c =>
      ∃ g' choices, g'.fs = Request.after y.username D g.fs rs ∧
        c = (commandLoop P (n + 1) (y.advance (Request.scripts P y.username D g.fs rs)), (g', choices))
  files : ∀ done rest, rs = done ++ rest → (Request.after y.username D g.fs done).files D =
    (g.fs.files D).changes (done.map Request.change)
  kept : ∀ name contents, g.fs.files D name = some contents →
    (g.fs.files D).changes (rs.map Request.change) ((g.fs.files D).carries name (rs.map Request.change)) =
        some contents ∨
      ∃ done rest, rs = done ++ .delete ((g.fs.files D).carries name (done.map Request.change)) :: rest

/-- A list of changes with a take in it comes from requests with a delete in them. -/
theorem exists_delete {rs : List Request} {pre post : List (Change Name Buffer)} {name : Name}
    (h : rs.map Request.change = pre ++ .take name :: post) :
    ∃ done rest, rs = done ++ .delete name :: rest ∧ done.map Request.change = pre := by
  obtain ⟨done, rest, rfl, rfl, hrest⟩ := List.map_eq_append_iff.1 h
  obtain ⟨r, rest', rfl, hr, -⟩ := List.map_eq_cons_iff.1 hrest
  cases r with
  | delete name' =>
      cases hr
      exact ⟨done, rest', rfl, rfl⟩
  | _ => cases hr

/-- **The handlers are a store**: while the counters last and lists fit into frames, any requests that
    the client makes are served. -/
theorem servesAll_of_ready {P : Platform} {key : Buffer} {heap : Host → Buffer} {y : Session} {g : Host}
    {D : Path} {rs : List Request} {n : Nat} (henc : Encrypts P key)
    (hf : g.fs.IsFolder (folderPath y.username) D) (hrs : Request.AllAllowed (g.fs.files D) rs)
    (hlists : Request.ListsFit y.username D g.fs rs)
    (hready : Ready key y (Request.scripts P y.username D g.fs rs)) : ServesAll P key heap y g D rs n where
  answers := by
    have hloop : ConversesTo P key heap (commandLoop P (rs.length + (n + 1))) y g
        (Request.scripts P y.username D g.fs rs ++ []) fun c => ∃ g' choices,
          g'.fs = Request.after y.username D g.fs rs ∧ c = (commandLoop P (n + 1)
            (y.advance (Request.scripts P y.username D g.fs rs)), (g', choices)) := by
      apply converses_requests henc hf hrs hlists
      intro g' hsame
      obtain ⟨k, hk⟩ := waits_commandLoop P n (y.advance (Request.scripts P y.username D g.fs rs))
      exact conversesTo_waiting hk fun choices => ⟨g', choices, hsame.fs, rfl⟩
    rw [List.append_nil] at hloop
    exact hloop hready
  files := by
    rintro done rest rfl
    exact Request.files_after hf (hrs.left)
  kept := by
    intro name contents hname
    rcases Shelf.kept_or_taken hname (rs.map Request.change) with hkept | ⟨pre, post, heq⟩
    · exact Or.inl hkept
    · obtain ⟨done, rest, hdone, rfl⟩ := exists_delete heq
      exact Or.inr ⟨done, rest, hdone⟩

/-! ## One session -/

/-- The machine of the worker, with an empty folder for `user1`. -/
def emptyFolder : Host :=
  .start (Fs.ofFolders [ascii "/data", ascii "/data/user1"]) ⟨[], false, false⟩

theorem isFolder_emptyFolder :
    emptyFolder.fs.IsFolder (folderPath (ascii "user1")) [ascii "data", ascii "user1"] where
  resolve := by decide +kernel
  dir := by decide +kernel
  room := by decide +kernel
  plain := fun name _ => Fs.plain_of_entries (by decide +kernel) name

/-- A file of 20 bytes is stored, renamed, listed, fetched and deleted. -/
def lifeOfFile : List Request :=
  [.upload (ascii "a") sampleFile, .rename (ascii "a") (ascii "b"), .list, .download (ascii "b"),
    .delete (ascii "b")]

set_option maxRecDepth 10000 in
theorem servesAll_lifeOfFile : ServesAll (.aes .little) sampleKey (fun _ => [])
    (.start (ascii "user1") sampleKey) emptyFolder [ascii "data", ascii "user1"] lifeOfFile 0 :=
  servesAll_of_ready (encrypts_sampleKey .little) isFolder_emptyFolder (by decide +kernel)
    (by decide +kernel) ⟨rfl, by decide, by decide +kernel, by decide, by decide +kernel⟩

/-- At the end of the counter a request is read and not answered. -/
theorem not_served_at_end : ¬∀ (P : Platform) (key : Buffer) (heap : Host → Buffer) (y : Session)
    (g : Host) (D : Path) (rs : List Request) (n : Nat), Encrypts P key → y.sessionKey = key →
      0 ≤ y.sCounter ∧ y.sCounter ≤ intMax → 0 ≤ y.rCounter ∧ y.rCounter ≤ intMax →
      g.fs.IsFolder (folderPath y.username) D → Request.AllAllowed (g.fs.files D) rs →
      Request.ListsFit y.username D g.fs rs → ServesAll P key heap y g D rs n := by
  intro hall
  let y : Session := { Session.start (ascii "user1") sampleKey with rCounter := intMax }
  let r : Request := .upload (ascii "a") [2]
  have henc := encrypts_sampleKey .little
  have hserves := hall (.aes .little) sampleKey (fun _ => []) y emptyFolder [ascii "data", ascii "user1"]
    [r] 0 henc rfl (by decide) (by decide) isFolder_emptyFolder (by decide +kernel) (by decide +kernel)
  have hends : Plays (.aes .little) sampleKey (fun _ => []) (commandLoop (.aes .little) 2) y emptyFolder
      [.hear (intMax, r.payload (.aes .little))] fun _ _ _ => True := by
    apply Plays.bind (s := [.hear (intMax, r.payload (.aes .little))]) (t := [])
    apply plays_expectPacket_or_end (x := y) rfl (by decide) (length_payload _ r) (by decide)
    · exact fun hcount => absurd hcount.2 (by decide)
    · exact fun _ _ _ _ => ⟨rfl, trivial⟩
  have hnothing := hends.ends_once hserves.answers <| by
    intro message hm
    obtain rfl : message = ((intMax : Int), r.payload (.aes .little)) := by simpa using hm
    exact exists_carried henc (sealable_payload _ r) _
  exact absurd hnothing (by decide +kernel)

end Worker

end CloudStorage
