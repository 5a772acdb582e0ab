import CloudStorage.Folders
import CloudStorage.Lasting
import CloudStorage.Outcomes

set_option autoImplicit false

/-! # Output streams

A `std::ofstream` has a buffer: what is written to it stays there until a chunk does not fit any more or
the stream is closed. `File::~File` closes it when a member function returns, and nothing looks at the
outcome. `Buffered.answer` puts such a stream in front of the file system of a host, where `Host.answer`
writes through. The two machines differ in what is on the disk and in nothing else: with the same
answers, a run on the one is a run on the other with everything written (`Tended.reaches`). -/

namespace CloudStorage

open Interaction Interaction.Routine

namespace Fs

variable {fs fs' : Fs} {p : Path} {handle : Nat} {data : Buffer}

theorem eq_of_state (h : fs.toFsState = fs'.toFsState) : fs = fs' := by
  cases fs
  cases fs'
  cases h
  rfl

/-- Writing nothing changes nothing. -/
theorem OpenAt.write_nil (h : fs.OpenAt handle p data) : (fs.write handle []).2 = fs := by
  obtain ⟨i, -, rfl, hhandle⟩ := h
  apply eq_of_state
  rw [(write_some hhandle []).2, writeAt_end, List.append_nil, Function.update_eq_self]
  have hset : fs.handles.set handle (i, (fs.data i).length) = fs.handles := by
    obtain ⟨hlt, hget⟩ := List.getElem?_eq_some_iff.1 hhandle
    rw [← hget, List.set_getElem_self]
  simp [hset]

/-- A handle is open at the end of one content only. -/
theorem OpenAt.length_eq {p' : Path} {data' : Buffer} (h : fs.OpenAt handle p data)
    (h' : fs.OpenAt handle p' data') : data'.length = data.length := by
  obtain ⟨i, -, -, hhandle⟩ := h
  obtain ⟨j, -, -, hhandle'⟩ := h'
  exact (Prod.mk.inj (Option.some.inj (hhandle'.symm.trans hhandle))).2

/-- Two writes are one. -/
theorem OpenAt.write_write (h : fs.OpenAt handle p data) (b b' : Buffer) :
    ((fs.write handle b).2.write handle b').2 = (fs.write handle (b ++ b')).2 := by
  obtain ⟨-, hopen, -⟩ := write_openAt h b
  obtain ⟨i, hi, rfl, hhandle⟩ := h
  have hstate := (write_some hhandle b).2
  obtain ⟨j, hj, hdata, hhandle'⟩ := hopen
  obtain rfl : i = j := by
    have hnode : (fs.write handle b).2.node p = fs.node p := by rw [hstate]; rfl
    rw [hnode, hi] at hj
    exact Node.file.inj (Option.some.inj hj)
  apply eq_of_state
  rw [(write_some hhandle' b').2, (write_some hhandle (b ++ b')).2, hdata, hstate, writeAt_end,
    writeAt_end, writeAt_end, Function.update_idem, List.set_set, List.append_assoc]
  simp [Nat.add_assoc]

/-- A write changes no name. -/
theorem node_write (fs : Fs) (handle : Nat) (b : Buffer) (q : Path) :
    (fs.write handle b).2.node q = fs.node q := by
  unfold write
  split <;> rfl

theorem resolve_write (fs : Fs) (handle : Nat) (b path : Buffer) :
    (fs.write handle b).2.resolve path = fs.resolve path := by
  apply resolve_congr (fs.node_write handle b)
  unfold write
  split <;> rfl

/-- A directory that is made is the only new name. -/
theorem node_createDirectory (fs : Fs) (path : Buffer) (q : Path) :
    (fs.createDirectory path).2.node q = fs.node q ∨
      fs.node q = none ∧ (fs.createDirectory path).2.node q = some .dir := by
  unfold createDirectory
  split
  · exact Or.inl rfl
  · rename_i p hr
    split
    · rename_i hfree
      have hnode := FsState.node_enter fs.toFsState (fs.resolve_makeable hr hfree).1 .dir q
      by_cases hq : q = p
      · subst hq
        exact Or.inr ⟨hfree, hnode.trans (if_pos rfl)⟩
      · exact Or.inl (hnode.trans (if_neg hq))
    · exact Or.inl rfl
    · exact Or.inl rfl

end Fs

/-- Besides the file calls no call sees the files. -/
theorem Host.answer_off {c : Choice} {o : Sys.Op} (ho : ∀ call, o ≠ .sys (.file call)) (h : Host) (fs : Fs) :
    (h.answer c o).2.fs = h.fs ∧ { h with fs := fs }.answer c o =
      ((h.answer c o).1, { (h.answer c o).2 with fs := fs }) := by
  cases o with
  | send data =>
      unfold Host.answer Host.put
      dsimp only
      split_ifs <;> exact ⟨rfl, rfl⟩
  | recv n => exact ⟨rfl, rfl⟩
  | sys o =>
      cases o with
      | file call => exact absurd rfl (ho call)
      | _ => exact ⟨rfl, rfl⟩

/-- An open `std::ofstream`: its file, and what it has not written yet. -/
structure OutStream where
  handle : Nat
  unwritten : Buffer

/-- `basic_filebuf::xsputn` adds a chunk to the buffer if it is shorter than 1024 bytes and than what is
    left of the 8191 bytes. -/
def OutStream.keeps (s : OutStream) (chunk : Buffer) : Bool :=
  decide (chunk.length < min 1024 (8191 - s.unwritten.length))

/-- Into the stream went `n` bytes: what its file has, and what is not written. -/
def OutStream.Given (s : OutStream) (fs : Fs) (n : Nat) : Prop :=
  ∃ p data, fs.OpenAt s.handle p data ∧ data.length + s.unwritten.length = n

/-- How many of `n` bytes that came in chunks of 15 are not written: 546 chunks stay in the buffer, the
    next one empties it, whether it is a full one or not. -/
def unwrittenOf (n : Nat) : Nat := if n % 8205 ≤ 8190 then n % 8205 else 0

/-- The last of the 15-byte chunks of `size` bytes empties the buffer, or there is none. -/
def EmptiesBuffer (size : Nat) : Prop := 547 ∣ (size + 14) / 15

instance (size : Nat) : Decidable (EmptiesBuffer size) := inferInstanceAs (Decidable (547 ∣ _))

theorem unwrittenOf_eq_zero (n : Nat) : unwrittenOf n = 0 ↔ EmptiesBuffer n := by
  unfold unwrittenOf EmptiesBuffer
  split <;> omega

theorem OutStream.Given.eq {s : OutStream} {fs : Fs} {n n' : Nat} (h : s.Given fs n) (h' : s.Given fs n') :
    n' = n := by
  obtain ⟨p, data, hat, rfl⟩ := h
  obtain ⟨p', data', hat', rfl⟩ := h'
  rw [hat.length_eq hat']

/-- A host with the output stream of the `File` object of the function that runs. -/
structure Buffered where
  host : Host
  stream : Option OutStream

/-- The function lets an exception out, or does something undefined. -/
def Escapes (result : Except Exit Int) : Prop := ∃ e, result = .error e ∧ ∀ n, e ≠ .returned n

theorem not_escapes_ok (n : Int) : ¬Escapes (.ok n) := by
  rintro ⟨e, he, -⟩
  cases he

theorem not_escapes_returned (n : Int) : ¬Escapes (.error (.returned n)) := by
  rintro ⟨e, he, hne⟩
  cases he
  exact hne n rfl

namespace Buffered

/-- A host and a function that has opened no file. -/
def start (h : Host) : Buffered := ⟨h, none⟩

/-- `std::ofstream::write`: a chunk that is not kept is written together with all that was. -/
def put (c : Choice) (h : Host) (s : OutStream) (chunk : Buffer) : Bool × Buffered :=
  if s.keeps chunk then (true, ⟨h, some { s with unwritten := s.unwritten ++ chunk }⟩)
  else
    let r : Bool × Host := h.answer c (.sys (.file (.write s.handle (s.unwritten ++ chunk))))
    (r.1, ⟨r.2, some (if r.1 then { s with unwritten := [] } else s)⟩)

/-- The answer to a call and the machine after it. -/
def answer (c : Choice) (m : Buffered) : (o : Sys.Op) → Sys.Ans o × Buffered
  | .sys (.file (.openWrite path)) =>
    let r : Option Nat × Host := m.host.answer c (.sys (.file (.openWrite path)))
    (r.1, ⟨r.2, r.1.map fun handle => ⟨handle, []⟩⟩)
  | .sys (.file (.write _ chunk)) =>
    match m.stream with
    | none => (false, m)
    | some s => put c m.host s chunk
  | o => ((m.host.answer c o).1, { m with host := (m.host.answer c o).2 })

/-- A machine and a network that may do anything. -/
def anyEnv : Transition Sys Buffered := fun m o a m' => ∃ c, m.answer c o = (a, m')

/-- Run a program with given choices, one for each call. -/
def run {α : Type} : List Choice → Program Sys α × Buffered → Program Sys α × Buffered
  | [], c => c
  | _ :: _, (.ret a, m) => (.ret a, m)
  | c :: cs, (.call o k, m) => run cs (k (m.answer c o).1, (m.answer c o).2)

theorem reaches_run {α : Type} (cs : List Choice) (c : Program Sys α × Buffered) :
    Program.Reaches anyEnv c (run cs c) := by
  induction cs generalizing c with
  | nil => exact .refl
  | cons ch cs ih =>
      obtain ⟨p, m⟩ := c
      cases p with
      | ret a => exact .refl
      | call o k => exact .head (.call ⟨ch, rfl⟩) (ih _)

/-- A run that ends with these choices. -/
theorem reaches_run_ended {α : Type} (cs : List Choice) {c : Program Sys α × Buffered} {a : α}
    (hend : (run cs c).1.result = some a) : Program.Reaches anyEnv c (.ret a, (run cs c).2) := by
  have hrun := reaches_run cs c
  rwa [show run cs c = (.ret a, (run cs c).2) from Prod.ext (Program.eq_ret_of_result hend) rfl] at hrun

/-- What the stream has not written. -/
def unwritten (m : Buffered) : Buffer :=
  match m.stream with
  | none => []
  | some s => s.unwritten

/-- `File::~File`: the stream is closed, which writes what is left; with `fault` that fails. -/
def close (fault : Bool) (m : Buffered) : Buffered :=
  match m.stream with
  | none => m
  | some s =>
    if s.unwritten = [] then start m.host
    else start { m.host with fs := ((FileCall.write s.handle s.unwritten).answer fault m.host.fs).2 }

/-- A member function that returns destroys its `File` object. An exception that it lets out is caught
    nowhere, and ends the process as it is. -/
def leave (fault : Bool) : Except Exit Int → Buffered → Buffered
  | .ok _, m | .error (.returned _), m => m.close fault
  | .error _, m => m

/-- What never reaches the disk. -/
def lost (fault : Bool) : Except Exit Int → Buffered → Buffer
  | .ok _, m | .error (.returned _), m => if fault then m.unwritten else []
  | .error _, m => m.unwritten

/-- The host with everything written. -/
def written (m : Buffered) : Host :=
  match m.stream with
  | none => m.host
  | some s => { m.host with fs := (m.host.fs.write s.handle s.unwritten).2 }

/-! ## One call -/

/-- A function that started in `fs₀` makes no file but with a stream to it, and the stream has been given
    chunks of 15 bytes and perhaps a last one. -/
structure Tended (fs₀ : Fs) (m : Buffered) : Prop where
  grows : ∀ q, m.host.fs.node q = none → fs₀.node q = none
  made : ∀ s, m.stream = some s → ∃ p data, fs₀.node p = none ∧ m.host.fs.OpenAt s.handle p data
  unopened : m.stream = none → ∀ q i, fs₀.node q = none → m.host.fs.node q ≠ some (.file i)
  filled : ∀ s n, m.stream = some s → s.Given m.host.fs n → s.unwritten.length = unwrittenOf n

/-- What a function does with files that has one to write: until it opens it, it looks for files and
    makes folders; from then on it writes chunks of 15 bytes and a last one. -/
def Permits (m : Buffered) : Sys.Op → Prop
  | .sys (.file (.stat _)) | .sys (.file (.createDirectory _)) => m.stream = none
  | .sys (.file (.openWrite path)) => m.stream = none ∧ m.host.fs.fileType path ≠ some .regular
  | .sys (.file (.write handle chunk)) => ∃ s n, m.stream = some s ∧ s.handle = handle ∧
      s.Given m.host.fs n ∧ Max.maxFileChunk ∣ n ∧ chunk.length ≤ Max.maxFileChunk
  | .sys (.file _) => False
  | _ => True

section

variable {fs₀ : Fs} {m m' : Buffered} {c : Choice} {s : OutStream}

theorem written_of_none (hs : m.stream = none) : m.written = m.host := by
  unfold written
  rw [hs]

theorem written_of_some (hs : m.stream = some s) :
    m.written = { m.host with fs := (m.host.fs.write s.handle s.unwritten).2 } := by
  unfold written
  rw [hs]

/-- What is not written is in a stream. -/
theorem exists_stream (hne : m.unwritten ≠ []) : ∃ s, m.stream = some s ∧ m.unwritten = s.unwritten := by
  unfold unwritten at *
  cases hs : m.stream with
  | none =>
      rw [hs] at hne
      exact absurd rfl hne
  | some s => exact ⟨s, rfl, rfl⟩

theorem unwritten_of_some (hs : m.stream = some s) : m.unwritten = s.unwritten := by
  unfold unwritten
  rw [hs]

/-- With nothing unwritten the files are as they will be. -/
theorem Tended.written_eq (ht : Tended fs₀ m) (hnil : m.unwritten = []) : m.written = m.host := by
  cases hs : m.stream with
  | none => exact written_of_none hs
  | some s =>
      obtain ⟨p, data, -, hat⟩ := ht.made s hs
      rw [written_of_some hs, ← unwritten_of_some hs, hnil, hat.write_nil]

/-- What is written changes the files and nothing else. -/
theorem accepted_written (m : Buffered) : m.written.accepted = m.host.accepted := by
  unfold written
  split <;> rfl

theorem sealed_written (m : Buffered) : m.written.sealed = m.host.sealed := by
  unfold written
  split <;> rfl

theorem printed_written (m : Buffered) : m.written.printed = m.host.printed := by
  unfold written
  split <;> rfl

theorem tended_start (h : Host) : Tended h.fs (start h) :=
  ⟨fun _ => id, nofun, fun _ q i hq => by simp [start, hq], nofun⟩

theorem answer_off {o : Sys.Op} (ho : ∀ call, o ≠ .sys (.file call)) :
    m.answer c o = ((m.host.answer c o).1, { m with host := (m.host.answer c o).2 }) := by
  cases o with
  | send data => rfl
  | recv n => rfl
  | sys o =>
      cases o with
      | file call => exact absurd rfl (ho call)
      | _ => rfl

theorem answer_write (hs : m.stream = some s) (handle : Nat) (chunk : Buffer) :
    m.answer c (.sys (.file (.write handle chunk))) = put c m.host s chunk := by
  unfold answer
  rw [hs]

/-- The outcomes of a write: the chunk is kept, or the disk refuses what there is, or takes it. -/
theorem put_cases {h : Host} {p : Path} {data : Buffer} (hat : h.fs.OpenAt s.handle p data) (c : Choice)
    (chunk : Buffer) :
    (s.keeps chunk = true ∧
      put c h s chunk = (true, ⟨h, some { s with unwritten := s.unwritten ++ chunk }⟩)) ∨
    put c h s chunk = (false, ⟨h, some s⟩) ∨
    (s.keeps chunk = false ∧ put c h s chunk = (true,
      ⟨{ h with fs := (h.fs.write s.handle (s.unwritten ++ chunk)).2 }, some { s with unwritten := [] }⟩)) := by
  have hdone := (Fs.write_openAt hat (s.unwritten ++ chunk)).1
  unfold put
  split_ifs with hkeeps
  · exact Or.inl ⟨hkeeps, rfl⟩
  · refine Or.inr ?_
    cases hfault : c.fault with
    | true =>
        have hans : h.answer c (.sys (.file (.write s.handle (s.unwritten ++ chunk)))) =
            ((false : Bool), h) := by
          simp only [Host.answer, Host.answerSys, FileCall.answer, hfault, if_true]
          rfl
        rw [hans]
        exact Or.inl rfl
    | false =>
        have hans : h.answer c (.sys (.file (.write s.handle (s.unwritten ++ chunk)))) =
            ((true : Bool), { h with fs := (h.fs.write s.handle (s.unwritten ++ chunk)).2 }) := by
          simp only [Host.answer, Host.answerSys, FileCall.answer, hfault, Bool.false_eq_true, if_false,
            hdone]
          rfl
        rw [hans]
        exact Or.inr ⟨Bool.not_eq_true _ ▸ hkeeps, rfl⟩

/-- A stream stays the stream of its file, and counts what it is given. -/
theorem given_put {h : Host} {n : Nat} (hg : s.Given h.fs n) (c : Choice) (chunk : Buffer) :
    ∃ s' n', (put c h s chunk).2.stream = some s' ∧ s'.handle = s.handle ∧
      s'.Given (put c h s chunk).2.host.fs n' ∧ (n' = n ∨ n' = n + chunk.length) ∧
      (s.unwritten.length = unwrittenOf n → Max.maxFileChunk ∣ n → chunk.length ≤ Max.maxFileChunk →
        s'.unwritten.length = unwrittenOf n') := by
  obtain ⟨p, data, hat, rfl⟩ := hg
  rcases put_cases hat c chunk with ⟨hkeeps, hput⟩ | hput | ⟨hkeeps, hput⟩
  · rw [hput]
    refine ⟨_, _, rfl, rfl, ⟨p, data, hat, rfl⟩, Or.inr ?_, fun hu hn hc => ?_⟩
    · simp [Nat.add_assoc]
    · have hfits : chunk.length < min 1024 (8191 - s.unwritten.length) := of_decide_eq_true hkeeps
      simp only [List.length_append]
      unfold unwrittenOf Max.maxFileChunk at *
      split at hu <;> split <;> omega
  · rw [hput]
    exact ⟨s, _, rfl, rfl, ⟨p, data, hat, rfl⟩, Or.inl rfl, fun hu _ _ => hu⟩
  · obtain ⟨-, hat', -⟩ := Fs.write_openAt hat (s.unwritten ++ chunk)
    rw [hput]
    refine ⟨_, _, rfl, rfl, ⟨p, _, hat', rfl⟩, Or.inr ?_, fun hu hn hc => ?_⟩
    · simp [Nat.add_assoc]
    · have hfull : ¬chunk.length < min 1024 (8191 - s.unwritten.length) := of_decide_eq_false hkeeps
      simp only [List.length_append, List.length_nil]
      unfold unwrittenOf Max.maxFileChunk at *
      split at hu <;> split <;> omega

/-- A call that both machines answer alike, the other one with everything written. -/
def Agrees (fs₀ : Fs) (m : Buffered) (o : Sys.Op) (a : Sys.Ans o) (m' : Buffered) : Prop :=
  Host.anyEnv m.written o a m'.written ∧ Tended fs₀ m'

/-- A call that is none on files. -/
theorem Tended.agrees_off (ht : Tended fs₀ m) {o : Sys.Op} (ho : ∀ call, o ≠ .sys (.file call)) :
    Agrees fs₀ m o (m.answer c o).1 (m.answer c o).2 := by
  rw [answer_off ho]
  have hfs : (m.host.answer c o).2.fs = m.host.fs := (Host.answer_off ho m.host m.host.fs).1
  refine ⟨⟨c, ?_⟩, fun q hq => ht.grows q (hfs ▸ hq), fun s hs => hfs ▸ ht.made s hs,
    fun hs q i hq => hfs ▸ ht.unopened hs q i hq, fun s n hs hg => ht.filled s n hs (hfs ▸ hg)⟩
  cases hs : m.stream with
  | none => rw [written_of_none hs, written_of_none rfl]
  | some s => rw [written_of_some hs, written_of_some rfl, (Host.answer_off ho m.host _).2, hfs]

/-- A look at the files, or a new folder. -/
theorem Tended.agrees_look (ht : Tended fs₀ m) (hs : m.stream = none) {call : FileCall}
    (hlooks : m.answer c (.sys (.file call)) = ((m.host.answer c (.sys (.file call))).1,
      { m with host := (m.host.answer c (.sys (.file call))).2 }))
    (hgrows : ∀ q, (call.answer c.fault m.host.fs).2.node q = m.host.fs.node q ∨
      m.host.fs.node q = none ∧ (call.answer c.fault m.host.fs).2.node q = some .dir) :
    Agrees fs₀ m (.sys (.file call)) (m.answer c (.sys (.file call))).1
      (m.answer c (.sys (.file call))).2 := by
  rw [hlooks]
  refine ⟨⟨c, ?_⟩, fun q hq => ht.grows q ?_, fun s hs' => ?_, fun _ q i hq => ?_, fun s n hs' => ?_⟩
  · rw [written_of_none hs]
    exact Prod.ext rfl (Eq.symm (written_of_none hs))
  · rcases hgrows q with heq | ⟨hfree, -⟩
    · exact heq ▸ hq
    · exact hfree
  · exact absurd (hs.symm.trans hs') (by simp)
  · rcases hgrows q with heq | ⟨-, hdir⟩
    · exact heq ▸ ht.unopened hs q i hq
    · exact fun hfile => by cases hdir.symm.trans hfile
  · exact absurd (hs.symm.trans hs') (by simp)

/-- The outcomes of an opening: nothing has changed, or the machine has an empty stream. -/
theorem open_cases (c : Choice) (m : Buffered) (path : Buffer) :
    m.answer c (.sys (.file (.openWrite path))) = (none, ⟨m.host, none⟩) ∨
    ∃ handle fs', m.host.fs.openWrite path = (some handle, fs') ∧
      m.answer c (.sys (.file (.openWrite path))) =
        (some handle, ⟨{ m.host with fs := fs' }, some ⟨handle, []⟩⟩) := by
  obtain ⟨a, fs', hopen⟩ : ∃ a fs', (FileCall.openWrite path).answer c.fault m.host.fs = (a, fs') :=
    ⟨_, _, rfl⟩
  have hans : m.answer c (.sys (.file (.openWrite path))) =
      (a, ⟨{ m.host with fs := fs' }, a.map fun handle => ⟨handle, []⟩⟩) := by
    simp only [answer, Host.answer, Host.answerSys, hopen]
    rfl
  rw [hans]
  simp only [FileCall.answer] at hopen
  split at hopen
  · cases hopen
    exact Or.inl rfl
  · cases a with
    | none =>
        obtain rfl : fs' = m.host.fs := Fs.openWrite_none hopen
        exact Or.inl rfl
    | some handle => exact Or.inr ⟨handle, fs', hopen, rfl⟩

/-- The opening of a file that is not there yet. -/
theorem Tended.agrees_open (ht : Tended fs₀ m) (hs : m.stream = none) {path : Buffer}
    (hnew : m.host.fs.fileType path ≠ some .regular) :
    Agrees fs₀ m (.sys (.file (.openWrite path))) (m.answer c (.sys (.file (.openWrite path)))).1
      (m.answer c (.sys (.file (.openWrite path)))).2 := by
  have hstep : Host.anyEnv m.host (.sys (.file (.openWrite path)))
      (m.answer c (.sys (.file (.openWrite path)))).1
      (m.answer c (.sys (.file (.openWrite path)))).2.host := ⟨c, rfl⟩
  unfold Agrees
  rw [written_of_none hs]
  rcases open_cases c m path with hans | ⟨handle, fs', hfs, hans⟩
  · rw [hans] at hstep ⊢
    exact ⟨hstep, ht.grows, nofun, fun _ => ht.unopened hs, nofun⟩
  · rw [hans] at hstep ⊢
    obtain ⟨p, hr, hat, -, hkept⟩ := Fs.openWrite_some hfs
    have hfree := Fs.openWrite_new hfs hnew hr
    refine ⟨?_, fun q hq => ht.grows q ?_, fun s hs' => ?_, nofun, fun s n hs' hg => ?_⟩
    · rw [written_of_some rfl]
      dsimp only
      rw [hat.write_nil]
      exact hstep
    · by_cases hqp : q = p
      · exact hqp ▸ hfree
      · exact (hkept q hqp).1 ▸ hq
    · cases hs'
      exact ⟨p, [], ht.grows p hfree, hat⟩
    · cases hs'
      obtain rfl : n = 0 := OutStream.Given.eq ⟨p, [], hat, rfl⟩ hg
      rfl

/-- A chunk that is kept, or written with what was kept. -/
theorem Tended.agrees_write (ht : Tended fs₀ m) (hs : m.stream = some s) {chunk : Buffer} {n : Nat}
    (hg : s.Given m.host.fs n) (hn : Max.maxFileChunk ∣ n) (hchunk : chunk.length ≤ Max.maxFileChunk) :
    Agrees fs₀ m (.sys (.file (.write s.handle chunk))) (put c m.host s chunk).1
      (put c m.host s chunk).2 := by
  obtain ⟨p, data, hfree, hat⟩ := ht.made s hs
  obtain ⟨s₁, n₁, hs₁, -, hg₁, -, hcount⟩ := given_put hg c chunk
  have hfilled : ∀ s' n', (put c m.host s chunk).2.stream = some s' →
      s'.Given (put c m.host s chunk).2.host.fs n' → s'.unwritten.length = unwrittenOf n' := by
    intro s' n' hs' hg'
    obtain rfl : s₁ = s' := Option.some.inj (hs₁.symm.trans hs')
    rw [hg₁.eq hg']
    exact hcount (ht.filled s n hs hg) hn hchunk
  have hopened : (put c m.host s chunk).2.stream = none → ∀ q i, fs₀.node q = none →
      (put c m.host s chunk).2.host.fs.node q ≠ some (.file i) := fun hnone => by
    cases hs₁.symm.trans hnone
  obtain ⟨-, hopen, -⟩ := Fs.write_openAt hat s.unwritten
  have hall := Fs.write_openAt hopen chunk
  have hmerge := hat.write_write s.unwritten chunk
  unfold Agrees
  rw [written_of_some hs]
  rcases put_cases hat c chunk with ⟨-, hput⟩ | hput | ⟨-, hput⟩
  · rw [hput] at hopened hfilled ⊢
    refine ⟨⟨.calm, ?_⟩, ht.grows, fun s' hs' => ?_, hopened, hfilled⟩
    · rw [written_of_some rfl]
      refine Prod.ext hall.1 ?_
      simp [Host.answer, Host.answerSys, FileCall.answer, Choice.calm, hmerge]
    · cases hs'
      exact ⟨p, data, hfree, hat⟩
  · rw [hput] at hopened hfilled ⊢
    refine ⟨⟨.fail, ?_⟩, ht.grows, fun s' hs' => ?_, hopened, hfilled⟩
    · rw [written_of_some rfl]
      rfl
    · cases hs'
      exact ⟨p, data, hfree, hat⟩
  · obtain ⟨-, hopen', -⟩ := Fs.write_openAt hat (s.unwritten ++ chunk)
    rw [hput] at hopened hfilled ⊢
    refine ⟨⟨.calm, ?_⟩, fun q hq => ht.grows q ?_, fun s' hs' => ?_, hopened, hfilled⟩
    · rw [written_of_some rfl]
      refine Prod.ext hall.1 ?_
      simp [Host.answer, Host.answerSys, FileCall.answer, Choice.calm, hmerge, hopen'.write_nil]
    · rwa [Fs.node_write] at hq
    · cases hs'
      exact ⟨p, _, hfree, hopen'⟩

/-- A permitted call is answered alike on the host with everything written. -/
theorem Tended.agrees (ht : Tended fs₀ m) {o : Sys.Op} {a : Sys.Ans o} (ho : m.Permits o)
    (hstep : anyEnv m o a m') : Agrees fs₀ m o a m' := by
  obtain ⟨c, hc⟩ := hstep
  obtain rfl : (m.answer c o).1 = a := congrArg Prod.fst hc
  obtain rfl : (m.answer c o).2 = m' := congrArg Prod.snd hc
  match o, ho with
  | .send _, _ | .recv _, _ | .sys (.random _), _ | .sys (.crypto _), _ | .sys .getline, _
  | .sys .clearAndIgnore, _ | .sys (.garbage _), _ | .sys .overrun, _ | .sys (.print _), _
  | .sys (.note _), _ => exact ht.agrees_off nofun
  | .sys (.file (.stat path)), hs => exact ht.agrees_look hs rfl fun _ => Or.inl rfl
  | .sys (.file (.createDirectory path)), hs =>
      refine ht.agrees_look hs rfl fun q => ?_
      simp only [FileCall.answer]
      split
      · exact Or.inl rfl
      · exact Fs.node_createDirectory m.host.fs path q
  | .sys (.file (.openWrite path)), ⟨hs, hnew⟩ => exact ht.agrees_open hs hnew
  | .sys (.file (.write handle chunk)), ⟨s, n, hs, hhandle, hg, hn, hchunk⟩ =>
      subst hhandle
      rw [answer_write hs]
      exact ht.agrees_write hs hg hn hchunk

/-- **The stream does not show.** A run of a function that keeps to `Permits` is one on the host with
    everything written: the same calls with the same answers, the same frames and notes. -/
theorem Tended.reaches {α : Type} {Q : α → Buffered → Prop} {p p' : Program Sys α}
    (hp : p.Sat anyEnv (fun m o _ _ => m.Permits o) Q m) (ht : Tended fs₀ m)
    (hrun : Program.Reaches anyEnv (p, m) (p', m')) :
    Program.Reaches Host.anyEnv (p, m.written) (p', m'.written) ∧ Tended fs₀ m' := by
  have hcall : ∀ (h : Host) m o a m', (h = m.written ∧ Tended fs₀ m) → anyEnv m o a m' → m.Permits o →
      ∃ h', Host.anyEnv h o a h' ∧ h' = m'.written ∧ Tended fs₀ m' := by
    rintro h m o a m' ⟨rfl, htended⟩ hstep hpermits
    obtain ⟨hhost, htended'⟩ := htended.agrees hpermits hstep
    exact ⟨m'.written, hhost, rfl, htended'⟩
  obtain ⟨h, hrun', rfl, ht'⟩ := hp.reaches_simulated _ hcall hrun ⟨rfl, ht⟩
  exact ⟨hrun', ht'⟩

end

/-! ## The end of a function -/

section

variable {fs₀ : Fs} {m : Buffered} {fault : Bool} {result : Except Exit Int}

/-- A function that escapes leaves things as they are, any other closes its stream. -/
theorem leave_cases (fault : Bool) (result : Except Exit Int) (m : Buffered) :
    Escapes result ∧ m.leave fault result = m ∧ m.lost fault result = m.unwritten ∨
      ¬Escapes result ∧ m.leave fault result = m.close fault ∧
        m.lost fault result = if fault then m.unwritten else [] := by
  cases result with
  | ok n => exact Or.inr ⟨not_escapes_ok n, rfl, rfl⟩
  | error e =>
      cases e with
      | returned n => exact Or.inr ⟨not_escapes_returned n, rfl, rfl⟩
      | _ => exact Or.inl ⟨⟨_, rfl, by simp⟩, rfl, rfl⟩

theorem lost_of_returns (hreturns : ¬Escapes result) :
    m.lost fault result = if fault then m.unwritten else [] := by
  rcases leave_cases fault result m with ⟨hescapes, -⟩ | ⟨-, -, h⟩
  · exact absurd hescapes hreturns
  · exact h

/-- The files when a stream was closed. -/
theorem Tended.close_written (ht : Tended fs₀ m) (hkept : fault = false ∨ m.unwritten = []) :
    (m.close fault).host = m.written := by
  unfold close
  cases hs : m.stream with
  | none => exact (written_of_none hs).symm
  | some s =>
      rw [unwritten_of_some hs] at hkept
      dsimp only
      split_ifs with hnil
      · exact (ht.written_eq ((unwritten_of_some hs).trans hnil)).symm
      · obtain rfl : fault = false := hkept.resolve_right hnil
        exact (written_of_some hs).symm

/-- With nothing lost everything is written. -/
theorem Tended.leave_written (ht : Tended fs₀ m) (hkept : m.lost fault result = []) :
    (m.leave fault result).host = m.written := by
  rcases leave_cases fault result m with ⟨-, hleave, hlost⟩ | ⟨-, hleave, hlost⟩
  · rw [hleave]
    exact (ht.written_eq (hlost ▸ hkept)).symm
  · rw [hleave]
    apply ht.close_written
    rw [hlost] at hkept
    cases fault with
    | false => exact Or.inl rfl
    | true => exact Or.inr hkept

/-- What is lost is what was not written. -/
theorem leave_lost (hne : m.lost fault result ≠ []) :
    (m.leave fault result).host = m.host ∧ m.lost fault result = m.unwritten := by
  rcases leave_cases fault result m with ⟨-, hleave, hlost⟩ | ⟨-, hleave, hlost⟩
  · exact ⟨by rw [hleave], hlost⟩
  · cases fault with
    | false => exact absurd hlost hne
    | true =>
        refine ⟨?_, hlost⟩
        rw [hleave, close]
        cases hs : m.stream with
        | none => rfl
        | some s =>
            dsimp only
            split
            · rfl
            · rfl

end

/-! ## The two functions that write a file -/

section

variable {α : Type} {P : Platform} {M N : Option OutStream → Fs → Prop} {file : File}

/-- Started where the stream and the files are as `M` says, a function keeps to `Permits`. -/
abbrev Tends (M : Option OutStream → Fs → Prop) (r : Member α) (N : α → Option OutStream → Fs → Prop) :
    Prop :=
  Passes anyEnv (fun m o _ _ => m.Permits o) (fun m => M m.stream m.host.fs) r
    fun a m => N a m.stream m.host.fs

/-- No file was opened yet. -/
def Unopened (stream : Option OutStream) (_ : Fs) : Prop := stream = none

/-- If the file is open, the stream is that of the file, and was given full chunks only. -/
def Filling (file : File) (stream : Option OutStream) (fs : Fs) : Prop :=
  ∀ handle, file.output = .opened handle →
    ∃ s n, stream = some s ∧ s.handle = handle ∧ s.Given fs n ∧ Max.maxFileChunk ∣ n

/-- A call that is none on files. -/
theorem anyEnv_off {m m' : Buffered} {o : Sys.Op} {a : Sys.Ans o} (ho : ∀ call, o ≠ .sys (.file call))
    (hstep : anyEnv m o a m') :
    Host.anyEnv m.host o a m'.host ∧ m'.stream = m.stream ∧ m'.host.fs = m.host.fs := by
  obtain ⟨c, hc⟩ := hstep
  rw [answer_off ho] at hc
  obtain rfl : (m.host.answer c o).1 = a := congrArg Prod.fst hc
  obtain rfl : { m with host := (m.host.answer c o).2 } = m' := congrArg Prod.snd hc
  exact ⟨⟨c, rfl⟩, rfl, (Host.answer_off ho m.host m.host.fs).1⟩

theorem lasting_stream (M : Option OutStream → Fs → Prop) :
    Lasting anyEnv (fun m o _ _ => m.Permits o) fun m => M m.stream m.host.fs where
  send data m a m' hm hstep := by
    obtain ⟨-, hs, hfs⟩ := anyEnv_off (fun _ heq => by cases heq) hstep
    exact ⟨trivial, hs ▸ hfs ▸ hm⟩
  sys o ho m a m' hm hstep := by
    obtain ⟨-, hs, hfs⟩ := anyEnv_off (fun call heq => by cases heq; exact ho call rfl) hstep
    refine ⟨?_, hs ▸ hfs ▸ hm⟩
    cases o with
    | file call => exact absurd rfl (ho call)
    | _ => trivial

/-- A packet that is received has the length that was asked for. -/
theorem tends_receivePacket {n : Nat} (hn : n < 4294967296) :
    Tends M (Member.receivePacket P n) fun r stream fs =>
      M stream fs ∧ ∀ payload, r = some payload → payload.length = n := by
  have hsize : Wrapper.getSize n = Wrapper.overhead + n := Wrapper.getSize_of_lt (by omega)
  have hfit : tooLarge (Wrapper.overhead + n) = false := by
    unfold tooLarge Wrapper.overhead Wrapper.ivLength Wrapper.tagLength
    exact decide_eq_false (by omega)
  have hframe : Tends M (Member.receiveFrame P n) fun r stream fs =>
      M stream fs ∧ ∀ f, r = some f → f.2.1.length = n := by
    intro x m hm
    simp only [Member.receiveFrame, hsize, hfit, Bool.false_eq_true, if_false, sat_bind,
      Member.sat_receiveData]
    intro r m₁ hstep
    obtain ⟨hrecv, hs, hfs⟩ := anyEnv_off (fun _ heq => by cases heq) hstep
    obtain ⟨-, hlen⟩ := Host.anyEnv_recv hrecv
    have hm₁ : M m₁.stream m₁.host.fs := hs ▸ hfs ▸ hm
    refine ⟨trivial, ?_⟩
    cases r with
    | none => exact ⟨hm₁, fun _ hf => by cases hf⟩
    | some w =>
        have hw : w.length = Wrapper.overhead + n := hlen w rfl
        simp only [sat_bind, sat_get, Wrapper.deserialize]
        rw [if_neg (by rw [hw]; unfold Wrapper.overhead; omega), if_neg (by omega), sat_pure]
        refine ⟨hm₁, fun f hf => ?_⟩
        cases hopen : Wrapper.openFrame P x.sessionKey w with
        | none =>
            rw [hopen] at hf
            cases hf
        | some payload =>
            rw [hopen] at hf
            cases hf
            dsimp only
            rw [length_openFrame (by omega) hopen, hw]
            omega
  have hlasting := lasting_stream M
  apply Triple.bind hframe
  intro r x m hm
  obtain ⟨hm, hlen⟩ := hm
  cases r with
  | none => exact ⟨hm, fun _ hr => by cases hr⟩
  | some f =>
      have hrest : Tends M (do
          Member.checkCounter f.1 f.2.1 f.2.2
          Member.advanceReceive
          return some f.2.1) fun r stream fs =>
            M stream fs ∧ ∀ payload, r = some payload → payload.length = n :=
        .bind (hlasting.checkCounter _ _ _) fun _ => .bind hlasting.advanceReceive fun _ =>
          .pure _ fun _ _ hm' => ⟨hm', fun payload hp => by
            cases hp
            exact hlen f rfl⟩
      exact hrest x m hm

theorem tends_receiveChunks {write : Bool → Buffer → Member Unit}
    (hwrite : ∀ b chunk, chunk.length = Max.maxFileChunk → Tends M (write b chunk) fun _ => M) (n : Nat)
    (b : Bool) : Tends M (Member.receiveChunks P write n b) fun _ => M := by
  have hsize : ChunkM2.getSize Max.maxFileChunk = 1 + Max.maxFileChunk := ChunkM2.getSize_of_lt (by decide)
  induction n generalizing b with
  | zero => exact passes_pure _
  | succ n ih =>
      apply Triple.bind (tends_receivePacket (by decide))
      intro r x m hm
      obtain ⟨hm, hlen⟩ := hm
      cases r with
      | none => exact ih true x m hm
      | some payload =>
          have hchunk : (ChunkM2.deserialize payload).fileChunk.length = Max.maxFileChunk := by
            simp only [ChunkM2.deserialize, List.length_drop, hlen payload rfl, hsize]
            omega
          exact Triple.bind (hwrite b _ hchunk) (fun _ => ih b) x m hm

theorem tends_receiveLastChunk {write : Bool → Buffer → Member Unit}
    (hwrite : ∀ b chunk, chunk.length ≤ Max.maxFileChunk → Tends M (write b chunk) fun _ _ _ => True)
    (size : Nat) (b : Bool) :
    Tends M (Member.receiveLastChunk P write b (lastChunkSize size)) fun _ _ _ => True := by
  have hlt : lastChunkSize size < Max.maxFileChunk := Nat.mod_lt _ (by decide)
  have hsize : ChunkM2.getSize (lastChunkSize size) = 1 + lastChunkSize size :=
    ChunkM2.getSize_of_lt (lastChunkSize_lt size)
  unfold Member.receiveLastChunk
  split
  · apply Triple.bind (passes_expect ((tends_receivePacket ?_).conseq (fun _ _ => id)
      (fun a _ m hm payload hp => (⟨hm.1, hm.2 payload hp⟩ : M m.stream m.host.fs ∧ _)) fun _ _ _ => id))
    · intro payload x m hm
      refine hwrite b _ ?_ x m hm.1
      simp only [ChunkM2.deserialize, List.length_drop, hm.2, hsize]
      omega
    · rw [hsize]
      unfold Max.maxFileChunk at hlt
      omega
  · exact .pure _ fun _ _ _ => trivial

/-- A function that only looks for files, or makes a folder. -/
theorem tends_look {p : FileCall → Prop} {X : Exit → Prop} {r : Member α} (hr : Only (OnFile p) X r)
    (hp : ∀ c, p c → (∃ path, c = .stat path) ∨ ∃ path, c = .createDirectory path) :
    Tends Unopened r fun _ => Unopened := by
  refine passes_of_only hr fun m o a m' ho hm hstep => ?_
  obtain ⟨call, rfl, hcall⟩ := ho.file
  obtain ⟨c, hc⟩ := hstep
  have hstream : (m.answer c (.sys (.file call))).2.stream = m'.stream := congrArg (fun r => r.2.stream) hc
  rcases hp call hcall with ⟨path, rfl⟩ | ⟨path, rfl⟩
  · exact ⟨hm, hstream.symm.trans hm⟩
  · exact ⟨hm, hstream.symm.trans hm⟩

theorem tends_writeChunk (file : File) {chunk : Buffer} (hchunk : chunk.length ≤ Max.maxFileChunk) :
    Tends (Filling file) (file.writeChunk chunk) fun _ stream fs =>
      chunk.length = Max.maxFileChunk → Filling file stream fs := by
  unfold File.writeChunk
  cases hopen : file.output with
  | failed => exact passes_exit _
  | closed => exact passes_exit _
  | opened handle =>
      have hwrite : Tends (Filling file) (Member.file (.write handle chunk)) fun _ stream fs =>
          chunk.length = Max.maxFileChunk → Filling file stream fs := by
        rintro x m hm a m' ⟨c, hc⟩
        obtain ⟨s, n, hs, rfl, hg, hn⟩ := hm handle hopen
        refine ⟨⟨s, n, hs, rfl, hg, hn, hchunk⟩, fun hfull handle' hopen' => ?_⟩
        rw [answer_write hs s.handle chunk] at hc
        obtain rfl : (put c m.host s chunk).2 = m' := congrArg Prod.snd hc
        obtain rfl : s.handle = handle' := Stream.opened.inj (hopen.symm.trans hopen')
        obtain ⟨s', n', hs', hhandle, hg', hn', -⟩ := given_put hg c chunk
        refine ⟨s', n', hs', hhandle, hg', ?_⟩
        rcases hn' with rfl | rfl
        · exact hn
        · exact Nat.dvd_add hn (hfull ▸ Nat.dvd_refl _)
      exact hwrite.bind fun _ => passes_require _ _

/-- A file is created with its stream. -/
theorem tends_create (n : Nat) (path : Buffer) :
    Tends Unopened ((File.new n).create path) fun r => Filling r.1 := by
  intro x m hm
  have hclosed : ∀ {f : File} {stream : Option OutStream} {fs : Fs}, f.output = .closed →
      Filling f stream fs := fun hf handle hopen => by cases hf.symm.trans hopen
  have hstat : ∀ (a : Option FileType) m', anyEnv m (.sys (.file (.stat path))) a m' →
      m.Permits (.sys (.file (.stat path))) ∧ m' = m ∧ (a = none ∨ a = m.host.fs.fileType path) := by
    rintro a m' ⟨c, hc⟩
    obtain rfl : m = m' := congrArg Prod.snd hc
    obtain rfl : (if c.fault then none else m.host.fs.fileType path) = a := congrArg Prod.fst hc
    refine ⟨hm, rfl, ?_⟩
    split
    · exact Or.inl rfl
    · exact Or.inr rfl
  unfold File.create
  rw [sat_bind]
  refine sat_attempt (sat_exists hstat (fun b hb => ?_) (hclosed rfl))
  cases b with
  | true => exact hclosed rfl
  | false =>
      dsimp only
      split
      · simp only [sat_bind]
        rintro a m' ⟨c, hc⟩
        refine ⟨⟨hm, by simpa using hb⟩, ?_⟩
        rcases open_cases c m path with hans | ⟨handle, fs', hfs, hans⟩
        · obtain rfl : (none : Option Nat) = a := congrArg Prod.fst (hans.symm.trans hc)
          exact fun handle hopen => by cases hopen
        · obtain ⟨p, -, hat, -⟩ := Fs.openWrite_some hfs
          obtain rfl : some handle = a := congrArg Prod.fst (hans.symm.trans hc)
          obtain rfl : _ = m' := congrArg Prod.snd (hans.symm.trans hc)
          intro handle' hopen
          cases hopen
          exact ⟨_, _, rfl, rfl, ⟨p, [], hat, rfl⟩, Nat.dvd_zero _⟩
      · exact hclosed rfl

theorem tends_receive {write : Bool → Buffer → Member Unit}
    (hwrite : ∀ b chunk, chunk.length ≤ Max.maxFileChunk → Tends (Filling file) (write b chunk)
      fun _ stream fs => chunk.length = Max.maxFileChunk → Filling file stream fs)
    (n size : Nat) (b : Bool) {r : Bool → Member Int}
    (hr : ∀ b, Tends (fun _ _ => True) (r b) fun _ _ _ => True) :
    Tends (Filling file) (do
      let errorOccured ← Member.receiveChunks P write n b
      Member.receiveLastChunk P write errorOccured (lastChunkSize size)
      r errorOccured) fun _ _ _ => True :=
  .bind (tends_receiveChunks (fun b chunk hfull => (hwrite b chunk (Nat.le_of_eq hfull)).conseq
    (fun _ _ => id) (fun _ _ _ hm => hm hfull) fun _ _ _ => id) n b) fun b =>
  .bind (tends_receiveLastChunk (fun b chunk hle => (hwrite b chunk hle).conseq
    (fun _ _ => id) (fun _ _ _ _ => trivial) fun _ _ _ => id) size b) fun _ => hr b

theorem tends_uploadFile (payload : Buffer) :
    Tends Unopened (Worker.uploadFile P payload) fun _ _ _ => True := by
  have hlasting := lasting_stream Unopened
  refine .bind (hlasting.readName _) fun name => .bind passes_get fun x =>
    .bind (tends_look (File.only_exists _) fun c hc => Or.inl ⟨_, hc⟩) fun found =>
    .bind (hlasting.sendPacket _) fun _ => .bind (tends_create 0 _) fun r => ?_
  obtain ⟨file, error⟩ := r
  cases error with
  | some e => exact .pure _ fun _ _ _ => trivial
  | none =>
      exact tends_receive (fun b chunk => tends_writeChunk file) _ _ _ fun b =>
        .bind ((lasting_stream fun _ _ => True).sendPacket _) fun _ => .pure _ fun _ _ _ => trivial

theorem tends_downloadFile :
    Tends Unopened (Client.downloadFile P) fun _ _ _ => True := by
  have hlasting := lasting_stream Unopened
  have hname : Tends Unopened Client.readFileName fun _ => Unopened := by
    refine .bind (hlasting.call (by simp)) fun line => ?_
    dsimp only
    split
    · exact .bind (hlasting.call (by simp)) fun _ => .bind (hlasting.call (by simp)) fun _ => passes_exit _
    · exact passes_pure _
  refine .bind hname fun name => .bind (hlasting.sendPacket _) fun _ =>
    .bind (passes_expect ((tends_receivePacket (by decide)).conseq (fun _ _ => id)
      (fun _ _ _ hm _ _ => hm.1) fun _ _ _ => id)) fun payload => ?_
  dsimp only
  split
  · exact .bind (hlasting.call (by simp)) fun _ => .pure _ fun _ _ _ => trivial
  · refine .bind (tends_look Client.only_makeDownloads ?_) fun _ => .bind (tends_create 0 _) fun r => ?_
    · rintro c (rfl | rfl)
      · exact Or.inl ⟨_, rfl⟩
      · exact Or.inr ⟨_, rfl⟩
    · obtain ⟨file, error⟩ := r
      refine tends_receive (fun b chunk hle => ?_) _ _ _ fun b =>
        .bind ((lasting_stream fun _ _ => True).call (by simp)) fun _ => .pure _ fun _ _ _ => trivial
      unfold Client.writeChunk
      split
      · exact .pure _ fun _ _ hm _ => hm
      · exact tends_writeChunk file hle

end

end Buffered

end CloudStorage
