import CloudStorage.Login
import Mathlib.Data.List.Basic

set_option autoImplicit false

/-! # The server process

`server.cpp` accepts connections in a loop and makes a detached thread for each. The thread reads the
loop's variable, which it captured by reference, constructs a `Worker` on the number that it finds
there and runs `Worker::start`. A descriptor is a number; the operating system may hand out any
number that is not open, to an accept or to a call that opens a file. Both `Worker::start`, at its end,
and the destructor close the socket.

`Server.step` is one step of the process: of the accept loop, or of one thread. What the workers
did to descriptors is kept with the connection or the file that the number belonged to at that moment. -/

namespace CloudStorage

open Interaction

namespace Worker

/-- `Worker::start` with the information whether it gets to the `close` at its end. -/
def served (P : Platform) : Member (Int × Bool) := do
  let loggedIn ← Member.returning (login P)
  if loggedIn = 0 then return (0, false)
  else do
    let result ← commandLoop P (intMax + 2)
    return (result, true)

/-- Its value is that of `Worker::start`. -/
theorem start_eq (P : Platform) : start P = do return (← served P).1 := by
  funext x
  show Program.bind _ _ = Program.bind (Program.bind _ _) _
  rw [Program.bind_assoc]
  congr 1
  funext y
  obtain ⟨r, x'⟩ := y
  cases r with
  | error e => rfl
  | ok n =>
      by_cases hn : n = 0
      · simp only [if_pos hn]
        rfl
      · simp only [if_neg hn]
        show _ = Program.bind (Program.bind _ _) _
        rw [Program.bind_assoc, ← Program.bind_ret_right (commandLoop P (intMax + 2) x')]
        rw [Program.bind_assoc]
        congr 1
        funext y
        obtain ⟨r, x''⟩ := y
        cases r with
        | error e => rfl
        | ok n => rfl

end Worker

/-- The thread of a connection: not run yet, in `Worker::start` on a socket, between the `close` at
    the end of `start` and the destructor, or over. -/
inductive Thread
  | created
  | serving (socket : Int) (rest : Program Sys (Except Exit (Int × Bool) × Session))
  | closed (socket : Int)
  | gone

/-- The worker is done with its connection. -/
def Thread.over : Thread → Bool
  | .created | .serving _ _ => false
  | .closed _ | .gone => true

/-- The thread has not read the variable. -/
def Thread.waits : Thread → Bool
  | .created => true
  | _ => false

/-- The worker has closed this number and will close it again. -/
def Thread.closedOn (socket : Int) : Thread → Bool
  | .closed k => k == socket
  | _ => false

/-- What a number stands for: a connection, or a file that a worker has open. -/
inductive Owner
  | connection (i : Nat)
  | file (worker : Nat)
  deriving DecidableEq, Repr

/-- The worker whose it is. -/
def Owner.worker : Owner → Nat
  | .connection i => i
  | .file worker => worker

/-- A worker used or closed a number, which stood for something or for nothing. -/
structure Act where
  worker : Nat
  closes : Bool
  owner : Option Owner
  deriving DecidableEq, Repr

/-- The call may open files: streams and directories, and what the primitives read, which are PEM files and
    the random device. -/
def opensFiles : Sys.Op → Bool
  | .sys (.file _) | .sys (.crypto _) | .sys (.random _) => true
  | _ => false

/-- The process. Connections and their threads are numbered in the order of the accepts; `sockets`
    are the numbers that these returned, and `files` the numbers of the workers' open files. -/
structure Server where
  table : Int → Option Owner
  clientSocket : Int
  sockets : List Int
  files : List (Nat × Nat)
  threads : List Thread
  log : List Act
  down : Bool

/-- What happens next in the process. -/
inductive Server.Event
  /-- `accept` returns a descriptor, and a thread is created. -/
  | accept (socket : Nat)
  /-- `accept` returns -1. -/
  | acceptFails
  /-- A thread constructs its `Worker`. -/
  | construct (worker : Nat)
  /-- A worker makes a call. -/
  | call (worker : Nat) (answer : (o : Sys.Op) → Sys.Ans o)
  /-- In a call of a worker a file is opened. -/
  | opens (worker number : Nat)
  /-- A worker reads or writes a file that it has open. -/
  | uses (worker number : Nat)
  /-- A worker closes a file. -/
  | releases (worker number : Nat)
  /-- A worker that has nothing else to do makes its next `close`. -/
  | finish (worker : Nat)

namespace Server

/-- Before the first connection. -/
def init : Server := ⟨fun _ => none, 0, [], [], [], [], false⟩

def setThread (s : Server) (worker : Nat) (t : Thread) : Server :=
  { s with threads := s.threads.set worker t }

/-- A worker does something to a number. -/
def touch (s : Server) (worker : Nat) (closes : Bool) (socket : Int) : Server :=
  { s with log := s.log ++ [⟨worker, closes, s.table socket⟩] }

/-- `close`; closing a number that is not open only fails. -/
def close (s : Server) (worker : Nat) (socket : Int) : Server :=
  { s.touch worker true socket with table := Function.update s.table socket none }

/-- A call of a worker on its socket, or one that has nothing to do with the socket. -/
def use (s : Server) (worker : Nat) (socket : Int) : Sys.Op → Server
  | .send _ => s.touch worker false socket
  | .recv _ => s.touch worker false socket
  | .sys _ => s

/-- How a worker whose `start` has ended goes on: an exception that nobody catches ends the process,
    as does `exit`, which closes the socket before. -/
def finished (s : Server) (worker : Nat) (socket : Int) : Except Exit (Int × Bool) → Server
  | .ok (_, true) => (s.close worker socket).setThread worker (.closed socket)
  | .ok (_, false) => (s.close worker socket).setThread worker .gone
  | .error (.returned _) => (s.close worker socket).setThread worker .gone
  | .error .exited => { (s.close worker socket).setThread worker .gone with down := true }
  | .error (.thrown _) => { s with down := true }
  | .error .undefined => { s with down := true }
  | .error .unfinished => { s with down := true }

/-- One step of the process. -/
def step (P : Platform) (s : Server) : Event → Option Server
  | .accept socket =>
    if s.down || (s.table socket).isSome then none
    else some { s with
      table := Function.update s.table socket (some (.connection s.threads.length))
      clientSocket := socket
      sockets := s.sockets ++ [(socket : Int)]
      threads := s.threads ++ [.created] }
  | .acceptFails => if s.down then none else some { s with clientSocket := -1 }
  | .construct worker =>
    match s.down, s.threads[worker]? with
    | false, some .created =>
      some (s.setThread worker (.serving s.clientSocket (Worker.served P (.start [] []))))
    | _, _ => none
  | .call worker answer =>
    match s.down, s.threads[worker]? with
    | false, some (.serving socket (.call o k)) =>
      some ((s.use worker socket o).setThread worker (.serving socket (k (answer o))))
    | _, _ => none
  | .opens worker number =>
    match s.down, s.threads[worker]? with
    | false, some (.serving _ (.call o _)) =>
      if opensFiles o && (s.table number).isNone then some { s with
        table := Function.update s.table number (some (.file worker))
        files := (worker, number) :: s.files }
      else none
    | _, _ => none
  | .uses worker number =>
    if !s.down && (worker, number) ∈ s.files then some (s.touch worker false number) else none
  | .releases worker number =>
    if !s.down && (worker, number) ∈ s.files then some { s.close worker number with
      files := s.files.filter (· ≠ (worker, number)) }
    else none
  | .finish worker =>
    match s.down, s.threads[worker]? with
    | false, some (.serving socket (.ret (r, _))) => some (s.finished worker socket r)
    | false, some (.closed socket) => some ((s.close worker socket).setThread worker .gone)
    | _, _ => none

/-- The process after some steps. -/
def run (P : Platform) : List Event → Server → Option Server
  | [], s => some s
  | e :: es, s => (s.step P e).bind (run P es)

/-! ## What is asked of the process -/

/-- How often a connection was closed. -/
def closings (s : Server) (i : Nat) : Nat :=
  s.log.countP fun a => a.closes && a.owner == some (.connection i)

/-- A worker exists and has the number in its member. -/
def Holds (s : Server) (worker : Nat) (socket : Int) : Prop :=
  (∃ rest, s.threads[worker]? = some (.serving socket rest)) ∨
    s.threads[worker]? = some (.closed socket)

/-- No worker has used or closed a connection or a file of another one, and a connection is closed exactly
    once, when its worker is done with it. -/
structure Own (s : Server) : Prop where
  touches : ∀ a ∈ s.log, ∀ o, a.owner = some o → o.worker = a.worker
  once : ∀ (i : Nat) t, s.threads[i]? = some t → s.closings i = if t.over then 1 else 0

/-- Every worker holds the number that was accepted for it, no two hold one that is open, and an open
    connection has its worker, or its thread has not run yet. -/
structure Served (s : Server) : Prop where
  own : ∀ i socket, s.Holds i socket → s.sockets[i]? = some socket
  apart : ∀ i j socket, s.Holds i socket → s.Holds j socket → (s.table socket).isSome → i = j
  served : ∀ i socket, s.table socket = some (.connection i) → s.Holds i socket ∨
    (s.threads[i]? = some .created ∧ ∀ j, ¬s.Holds j socket)

/-- `accept` does not return while a thread has still to read the variable, and neither an accept nor the
    opening of a file gets a number that a worker has closed and will close again. -/
def Timely (s : Server) : Event → Prop
  | .accept socket => ∀ t ∈ s.threads, t.waits = false ∧ t.closedOn socket = false
  | .acceptFails => ∀ t ∈ s.threads, t.waits = false
  | .opens _ number => ∀ t ∈ s.threads, t.closedOn number = false
  | _ => True

instance (s : Server) (e : Event) : Decidable (s.Timely e) := by
  unfold Timely
  split <;> infer_instance

/-- Every step is timely. -/
def AllTimely (P : Platform) : List Event → Server → Prop
  | [], _ => True
  | e :: es, s => s.Timely e ∧ match s.step P e with
    | none => True
    | some s' => AllTimely P es s'

instance decidableAllTimely (P : Platform) :
    ∀ (es : List Event) (s : Server), Decidable (AllTimely P es s)
  | [], _ => .isTrue trivial
  | e :: es, s => by
    unfold AllTimely
    cases s.step P e with
    | none => infer_instance
    | some s' =>
        have := decidableAllTimely P es s'
        infer_instance

/-! ## The invariant -/

/-- A thread that has not run is the last one, and the variable holds its socket; a worker that is
    not done owns its socket; a file that is open is its worker's; nobody else owns anything. -/
structure Inv (s : Server) : Prop where
  lengths : s.sockets.length = s.threads.length
  created : ∀ i : Nat, s.threads[i]? = some .created → i + 1 = s.threads.length ∧
    s.sockets[i]? = some s.clientSocket ∧ s.table s.clientSocket = some (.connection i)
  serving : ∀ (i : Nat) socket rest, s.threads[i]? = some (.serving socket rest) →
    s.sockets[i]? = some socket ∧ s.table socket = some (.connection i)
  closed : ∀ (i : Nat) socket, s.threads[i]? = some (.closed socket) →
    s.sockets[i]? = some socket ∧ s.table socket = none
  owned : ∀ i socket, s.table socket = some (.connection i) → (s.threads[i]? = some .created ∧
    s.clientSocket = socket) ∨ ∃ rest, s.threads[i]? = some (.serving socket rest)
  files : ∀ f ∈ s.files, s.table f.2 = some (.file f.1) ∧ f.1 < s.threads.length
  acts : ∀ a ∈ s.log, ∀ o, a.owner = some o → o.worker = a.worker ∧ o.worker < s.threads.length
  once : ∀ (i : Nat) t, s.threads[i]? = some t → s.closings i = if t.over then 1 else 0

theorem Inv.own {s : Server} (h : s.Inv) : s.Own :=
  ⟨fun a ha o ho => (h.acts a ha o ho).1, h.once⟩

theorem Inv.holds {s : Server} (h : s.Inv) {i : Nat} {socket : Int} (hi : s.Holds i socket) :
    s.sockets[i]? = some socket ∧ ∀ o, s.table socket = some o → o = .connection i := by
  rcases hi with ⟨rest, hi⟩ | hi
  · obtain ⟨hsocket, htable⟩ := h.serving i socket rest hi
    exact ⟨hsocket, fun o ho => Option.some.inj (ho.symm.trans htable)⟩
  · obtain ⟨hsocket, htable⟩ := h.closed i socket hi
    exact ⟨hsocket, fun o ho => by rw [htable] at ho; cases ho⟩

theorem Inv.served {s : Server} (h : s.Inv) : s.Served := by
  refine ⟨fun i socket hi => (h.holds hi).1, fun i j socket hi hj hopen => ?_, fun i socket hi => ?_⟩
  · obtain ⟨o, ho⟩ := Option.isSome_iff_exists.1 hopen
    exact Owner.connection.inj (((h.holds hi).2 o ho).symm.trans ((h.holds hj).2 o ho))
  · rcases h.owned i socket hi with ⟨hcreated, -⟩ | hserving
    · refine Or.inr ⟨hcreated, fun j hj => ?_⟩
      obtain rfl : i = j := Owner.connection.inj ((h.holds hj).2 _ hi)
      rcases hj with ⟨rest, hj⟩ | hj
      · rw [hcreated] at hj
        cases hj
      · rw [hcreated] at hj
        cases hj
    · exact Or.inl (Or.inl hserving)

theorem inv_init : init.Inv := by
  constructor <;> simp [init]

variable {s : Server} {worker : Nat} {socket : Int} {t t' : Thread}

theorem threads_setThread (h : s.threads[worker]? = some t) (t' : Thread) (i : Nat) :
    (s.setThread worker t').threads[i]? = if worker = i then some t' else s.threads[i]? := by
  obtain ⟨hlt, -⟩ := List.getElem?_eq_some_iff.1 h
  simp [setThread, List.getElem?_set, hlt]

/-- Another thread of a process in which one thread went on. -/
theorem of_setThread {i : Nat} {u : Thread} (h : s.threads[worker]? = some t) (hne : t' ≠ u)
    (hi : (s.setThread worker t').threads[i]? = some u) :
    worker ≠ i ∧ s.threads[i]? = some u := by
  rw [threads_setThread h] at hi
  split_ifs at hi with heq
  · exact absurd (Option.some.inj hi) hne
  · exact ⟨heq, hi⟩

theorem closings_touch (closes : Bool) (i : Nat) : (s.touch worker closes socket).closings i =
    s.closings i + if closes ∧ s.table socket = some (.connection i) then 1 else 0 := by
  simp [closings, touch, List.countP_append, List.countP_cons]

/-- A connection of which nothing has been heard was not closed. -/
theorem Inv.closings_new (h : s.Inv) : s.closings s.threads.length = 0 := by
  rw [closings, List.countP_eq_zero]
  intro a ha hclosed
  have hconn : a.owner = some (.connection s.threads.length) := by
    simpa using (Bool.and_eq_true_iff.1 hclosed).2
  exact absurd (h.acts a ha _ hconn).2 (Nat.lt_irrefl _)

/-! ## One step -/

theorem inv_down (h : s.Inv) : ({ s with down := true } : Server).Inv :=
  ⟨h.lengths, h.created, h.serving, h.closed, h.owned, h.files, h.acts, h.once⟩

theorem of_concat {i : Nat} (hi : (s.threads ++ [Thread.created])[i]? = some t) :
    s.threads[i]? = some t ∨ (i = s.threads.length ∧ t = .created) := by
  rcases Nat.lt_trichotomy i s.threads.length with hlt | rfl | hgt
  · rw [List.getElem?_append_left hlt] at hi
    exact Or.inl hi
  · rw [List.getElem?_concat_length] at hi
    exact Or.inr ⟨rfl, (Option.some.inj hi).symm⟩
  · rw [List.getElem?_eq_none (by simpa using Nat.succ_le_of_lt hgt)] at hi
    cases hi

theorem not_created {i : Nat} (h : ∀ t ∈ s.threads, t.waits = false) :
    s.threads[i]? ≠ some .created := by
  intro hi
  cases h _ (List.mem_of_getElem? hi)

theorem inv_accept {socket : Nat} (h : s.Inv) (htimely : s.Timely (.accept socket))
    (hfree : s.table socket = none) :
    ({ s with
      table := Function.update s.table socket (some (.connection s.threads.length))
      clientSocket := socket
      sockets := s.sockets ++ [(socket : Int)]
      threads := s.threads ++ [.created] } : Server).Inv := by
  have hsocket : ∀ {i : Nat} {k : Int}, s.sockets[i]? = some k →
      (s.sockets ++ [(socket : Int)])[i]? = some k := fun hi => by
    rw [List.getElem?_append_left (List.getElem?_eq_some_iff.1 hi).1, hi]
  have hnew : (s.sockets ++ [(socket : Int)])[s.threads.length]? = some (socket : Int) := by
    rw [← h.lengths, List.getElem?_concat_length]
  refine ⟨by simp [h.lengths], fun i hi => ?_, fun i k rest hi => ?_, fun i k hi => ?_,
    fun i k hi => ?_, fun f hf => ?_, fun a ha o ho => ?_, fun i t hi => ?_⟩
  · rcases of_concat hi with hold | ⟨rfl, -⟩
    · exact absurd hold (not_created fun t ht => (htimely t ht).1)
    · exact ⟨by simp, hnew, by simp⟩
  · rcases of_concat hi with hold | ⟨-, hcreated⟩
    · obtain ⟨hk, htable⟩ := h.serving i k rest hold
      have hne : k ≠ socket := by
        rintro rfl
        rw [hfree] at htable
        cases htable
      exact ⟨hsocket hk, by simp [Function.update_of_ne hne, htable]⟩
    · cases hcreated
  · rcases of_concat hi with hold | ⟨-, hcreated⟩
    · obtain ⟨hk, htable⟩ := h.closed i k hold
      have hne : k ≠ socket := by
        rintro rfl
        have hagain := (htimely _ (List.mem_of_getElem? hold)).2
        simp [Thread.closedOn] at hagain
      exact ⟨hsocket hk, by simp [Function.update_of_ne hne, htable]⟩
    · cases hcreated
  · by_cases hk : k = socket
    · subst hk
      obtain rfl : s.threads.length = i := by simpa using hi
      exact Or.inl ⟨by simp, rfl⟩
    · have hold : s.table k = some (.connection i) := by simpa [Function.update_of_ne hk] using hi
      rcases h.owned i k hold with ⟨hcreated, -⟩ | ⟨rest, hserving⟩
      · exact absurd hcreated (not_created fun t ht => (htimely t ht).1)
      · refine Or.inr ⟨rest, ?_⟩
        rw [List.getElem?_append_left (List.getElem?_eq_some_iff.1 hserving).1, hserving]
  · obtain ⟨htable, hlt⟩ := h.files f hf
    have hne : (f.2 : Int) ≠ socket := by
      intro heq
      rw [heq, hfree] at htable
      cases htable
    exact ⟨by simp [Function.update_of_ne hne, htable],
      by simp only [List.length_append, List.length_singleton]; omega⟩
  · obtain ⟨hown, hlt⟩ := h.acts a ha o ho
    exact ⟨hown, by simp only [List.length_append, List.length_singleton]; omega⟩
  · rcases of_concat hi with hold | ⟨rfl, rfl⟩
    · exact h.once i t hold
    · exact h.closings_new

theorem inv_acceptFails (h : s.Inv) (htimely : s.Timely .acceptFails) :
    ({ s with clientSocket := -1 } : Server).Inv := by
  refine ⟨h.lengths, fun i hi => absurd hi (not_created htimely), h.serving, h.closed, fun i k hi => ?_,
    h.files, h.acts, h.once⟩
  rcases h.owned i k hi with ⟨hcreated, -⟩ | hserving
  · exact absurd hcreated (not_created htimely)
  · exact Or.inr hserving

/-- A thread that goes on with its socket, from its creation or from an earlier call. -/
theorem inv_serve (h : s.Inv) (hi : s.threads[worker]? = some t) (hover : t.over = false)
    (hsocket : s.sockets[worker]? = some socket) (htable : s.table socket = some (.connection worker))
    (hlast : t = .created → s.clientSocket = socket)
    (rest : Program Sys (Except Exit (Int × Bool) × Session)) :
    (s.setThread worker (.serving socket rest)).Inv := by
  refine ⟨by simpa [setThread] using h.lengths, fun i hj => ?_, fun i k r hj => ?_, fun i k hj => ?_,
    fun i k hj => ?_, fun f hf => ?_, fun a ha o ho => ?_, fun i u hj => ?_⟩
  · obtain ⟨-, hj⟩ := of_setThread hi (by simp) hj
    obtain ⟨hlen, hrest⟩ := h.created i hj
    exact ⟨by simpa [setThread] using hlen, hrest⟩
  · by_cases heq : worker = i
    · subst heq
      rw [threads_setThread hi, if_pos rfl] at hj
      cases hj
      exact ⟨hsocket, htable⟩
    · rw [threads_setThread hi, if_neg heq] at hj
      exact h.serving i k r hj
  · obtain ⟨-, hj⟩ := of_setThread hi (by simp) hj
    exact h.closed i k hj
  · rw [threads_setThread hi]
    by_cases heq : worker = i
    · subst heq
      rcases h.owned worker k hj with ⟨hcreated, rfl⟩ | ⟨r, hserving⟩
      · have ht : t = .created := Option.some.inj (hi.symm.trans hcreated)
        rw [hlast ht]
        exact Or.inr ⟨rest, if_pos rfl⟩
      · obtain ⟨hk, -⟩ := h.serving worker k r hserving
        obtain rfl : socket = k := Option.some.inj (hsocket.symm.trans hk)
        exact Or.inr ⟨rest, if_pos rfl⟩
    · rw [if_neg heq]
      exact h.owned i k hj
  · obtain ⟨htable, hlt⟩ := h.files f hf
    exact ⟨htable, by simpa [setThread] using hlt⟩
  · obtain ⟨hown, hlt⟩ := h.acts a ha o ho
    exact ⟨hown, by simpa [setThread] using hlt⟩
  · by_cases heq : worker = i
    · subst heq
      rw [threads_setThread hi, if_pos rfl] at hj
      cases hj
      have honce := h.once worker t hi
      rw [hover] at honce
      exact honce
    · rw [threads_setThread hi, if_neg heq] at hj
      exact h.once i u hj

/-- Using a number that is its own, a worker touches nothing of the others. -/
theorem inv_touch {o : Owner} (h : s.Inv) (htable : s.table socket = some o) (hown : o.worker = worker)
    (hlt : worker < s.threads.length) : (s.touch worker false socket).Inv := by
  refine ⟨h.lengths, h.created, h.serving, h.closed, h.owned, h.files, fun a ha o' ho => ?_,
    fun i t hit => ?_⟩
  · rcases List.mem_append.1 ha with ha | ha
    · exact h.acts a ha o' ho
    · obtain rfl := List.mem_singleton.1 ha
      obtain rfl : o = o' := Option.some.inj (htable.symm.trans ho)
      exact ⟨hown, hown ▸ hlt⟩
  · rw [closings_touch]
    simpa using h.once i t hit

theorem inv_use {rest : Program Sys (Except Exit (Int × Bool) × Session)} (h : s.Inv)
    (hi : s.threads[worker]? = some (.serving socket rest)) (o : Sys.Op) :
    (s.use worker socket o).Inv ∧
      (s.use worker socket o).threads[worker]? = some (.serving socket rest) := by
  have htouch := inv_touch h (h.serving _ _ _ hi).2 rfl (List.getElem?_eq_some_iff.1 hi).1
  cases o with
  | send => exact ⟨htouch, hi⟩
  | recv => exact ⟨htouch, hi⟩
  | sys => exact ⟨h, hi⟩

/-- A file is opened under a number that nobody has. -/
theorem inv_opens {number : Nat} (h : s.Inv) (htimely : s.Timely (.opens worker number))
    (hfree : s.table number = none) (hlt : worker < s.threads.length) :
    ({ s with
      table := Function.update s.table number (some (.file worker))
      files := (worker, number) :: s.files } : Server).Inv := by
  have hold : ∀ {k : Int} {o : Owner}, s.table k = some o →
      Function.update s.table number (some (.file worker)) k = some o := fun hk => by
    rw [Function.update_of_ne, hk]
    rintro rfl
    rw [hfree] at hk
    cases hk
  refine ⟨h.lengths, fun i hi => ?_, fun i k rest hi => ?_, fun i k hi => ?_, fun i k hi => ?_,
    fun f hf => ?_, h.acts, h.once⟩
  · obtain ⟨hlen, hlast, hopen⟩ := h.created i hi
    exact ⟨hlen, hlast, hold hopen⟩
  · obtain ⟨hk, hopen⟩ := h.serving i k rest hi
    exact ⟨hk, hold hopen⟩
  · obtain ⟨hk, hnone⟩ := h.closed i k hi
    have hne : k ≠ number := by
      rintro rfl
      have hagain := htimely _ (List.mem_of_getElem? hi)
      simp [Thread.closedOn] at hagain
    exact ⟨hk, by simp [Function.update_of_ne hne, hnone]⟩
  · by_cases hk : k = number
    · subst hk
      simp at hi
    · exact h.owned i k (by simpa [Function.update_of_ne hk] using hi)
  · rcases List.mem_cons.1 hf with rfl | hf
    · exact ⟨Function.update_self .., hlt⟩
    · exact ⟨hold (h.files f hf).1, (h.files f hf).2⟩

/-- A file that is open is closed by its worker. -/
theorem inv_releases {number : Nat} (h : s.Inv) (hfile : (worker, number) ∈ s.files) :
    ({ s.close worker number with files := s.files.filter (· ≠ (worker, number)) } : Server).Inv := by
  obtain ⟨htable, hlt⟩ := h.files _ hfile
  have hold : ∀ {k : Int} {i : Nat}, s.table k = some (.connection i) →
      Function.update s.table number none k = some (.connection i) := fun hk => by
    rw [Function.update_of_ne, hk]
    rintro rfl
    rw [htable] at hk
    cases hk
  refine ⟨h.lengths, fun i hi => ?_, fun i k rest hi => ?_, fun i k hi => ?_, fun i k hi => ?_,
    fun f hf => ?_, fun a ha o ho => ?_, fun i t hi => ?_⟩
  · obtain ⟨hlen, hlast, hopen⟩ := h.created i hi
    exact ⟨hlen, hlast, hold hopen⟩
  · obtain ⟨hk, hopen⟩ := h.serving i k rest hi
    exact ⟨hk, hold hopen⟩
  · obtain ⟨hk, hnone⟩ := h.closed i k hi
    have hne : k ≠ number := by
      rintro rfl
      rw [htable] at hnone
      cases hnone
    exact ⟨hk, (Function.update_of_ne hne _ _).trans hnone⟩
  · have hne : k ≠ number := by
      rintro rfl
      have hgone : Function.update s.table number none number = some (.connection i) := hi
      rw [Function.update_self] at hgone
      cases hgone
    exact h.owned i k ((Function.update_of_ne hne _ _).symm.trans hi)
  -- another open file has another number
  · obtain ⟨hf, hne⟩ := List.mem_filter.1 hf
    obtain ⟨hopen, hlt'⟩ := h.files f hf
    refine ⟨(Function.update_of_ne ?_ _ _).trans hopen, hlt'⟩
    intro heq
    rw [heq, htable] at hopen
    obtain ⟨i, k⟩ := f
    obtain rfl : worker = i := Owner.file.inj (Option.some.inj hopen)
    obtain rfl : k = number := Int.ofNat.inj heq
    simp at hne
  · rcases List.mem_append.1 ha with ha | ha
    · exact h.acts a ha o ho
    · obtain rfl := List.mem_singleton.1 ha
      obtain rfl : Owner.file worker = o := Option.some.inj (htable.symm.trans ho)
      exact ⟨rfl, hlt⟩
  · show (s.touch worker true number).closings i = _
    rw [closings_touch, htable]
    simpa using h.once i t hi

/-- A worker closes its connection. -/
theorem inv_close {rest : Program Sys (Except Exit (Int × Bool) × Session)} (h : s.Inv)
    (hi : s.threads[worker]? = some (.serving socket rest))
    (ht : t = .closed socket ∨ t = .gone) : ((s.close worker socket).setThread worker t).Inv := by
  obtain ⟨hsocket, htable⟩ := h.serving _ _ _ hi
  have hi' : (s.close worker socket).threads[worker]? = some (.serving socket rest) := hi
  have hthreads : ((s.close worker socket).setThread worker t).threads.length = s.threads.length := by
    simp [setThread, close, touch]
  -- the entries of the other workers stay
  have htable' : ∀ {o : Owner} {k : Int}, .connection worker ≠ o → s.table k = some o →
      Function.update s.table socket none k = some o := fun hne hk => by
    rw [Function.update_of_ne, hk]
    rintro rfl
    exact hne (Option.some.inj (htable.symm.trans hk))
  refine ⟨by simpa [setThread, close, touch] using h.lengths, fun i hj => ?_, fun i k r hj => ?_,
    fun i k hj => ?_, fun i k hj => ?_, fun f hf => ?_, fun a ha o ho => ?_, fun i u hj => ?_⟩
  · obtain ⟨hne, hj⟩ := of_setThread hi' (by rcases ht with rfl | rfl <;> simp) hj
    obtain ⟨hlen, hlast, hopen⟩ := h.created i hj
    exact ⟨by simpa [setThread, close, touch] using hlen, hlast, htable' (by simpa using hne) hopen⟩
  · obtain ⟨hne, hj⟩ := of_setThread hi' (by rcases ht with rfl | rfl <;> simp) hj
    obtain ⟨hk, hopen⟩ := h.serving i k r hj
    exact ⟨hk, htable' (by simpa using hne) hopen⟩
  · by_cases heq : worker = i
    · subst heq
      rw [threads_setThread hi', if_pos rfl] at hj
      rcases ht with rfl | rfl
      · cases hj
        exact ⟨hsocket, Function.update_self ..⟩
      · cases hj
    · rw [threads_setThread hi', if_neg heq] at hj
      obtain ⟨hk, hnone⟩ := h.closed i k hj
      refine ⟨hk, ?_⟩
      show Function.update s.table socket none k = none
      by_cases hsame : k = socket
      · rw [hsame, Function.update_self]
      · rw [Function.update_of_ne hsame, hnone]
  -- the closed number has no owner any more, and the owner of another one is another worker
  · have hne : k ≠ socket := by
      rintro rfl
      have : Function.update s.table k none k = some (.connection i) := hj
      rw [Function.update_self] at this
      cases this
    have hopen : s.table k = some (.connection i) := (Function.update_of_ne hne _ _).symm.trans hj
    rw [threads_setThread hi']
    rcases h.owned i k hopen with ⟨hcreated, hlast⟩ | ⟨r, hserving⟩
    · have hother : worker ≠ i := by
        rintro rfl
        rw [hi] at hcreated
        cases hcreated
      exact Or.inl ⟨by rw [if_neg hother]; exact hcreated, hlast⟩
    · have hother : worker ≠ i := by
        rintro rfl
        rw [hi] at hserving
        cases hserving
        exact hne rfl
      exact Or.inr ⟨r, by rw [if_neg hother]; exact hserving⟩
  · obtain ⟨hopen, hlt⟩ := h.files f hf
    exact ⟨htable' (by simp) hopen, hthreads.symm ▸ hlt⟩
  · rcases List.mem_append.1 ha with ha | ha
    · exact ⟨(h.acts a ha o ho).1, hthreads.symm ▸ (h.acts a ha o ho).2⟩
    · obtain rfl := List.mem_singleton.1 ha
      obtain rfl : Owner.connection worker = o := Option.some.inj (htable.symm.trans ho)
      exact ⟨rfl, hthreads.symm ▸ (List.getElem?_eq_some_iff.1 hi).1⟩
  -- the close is counted for the worker that does it, and its thread is over with it
  · show (s.touch worker true socket).closings i = _
    rw [closings_touch, htable]
    by_cases heq : worker = i
    · subst heq
      rw [threads_setThread hi', if_pos rfl] at hj
      obtain rfl := Option.some.inj hj
      rw [h.once worker _ hi]
      rcases ht with rfl | rfl <;> simp [Thread.over]
    · rw [threads_setThread hi', if_neg heq] at hj
      simpa [heq] using h.once i u hj

/-- Closing a number again that nobody has. -/
theorem inv_close_again (h : s.Inv) (hi : s.threads[worker]? = some (.closed socket)) :
    ((s.close worker socket).setThread worker .gone).Inv := by
  obtain ⟨-, hnone⟩ := h.closed _ _ hi
  have hi' : (s.close worker socket).threads[worker]? = some (.closed socket) := hi
  have hthreads : ((s.close worker socket).setThread worker .gone).threads.length = s.threads.length := by
    simp [setThread, close, touch]
  have htable : (s.close worker socket).table = s.table := by
    show Function.update s.table socket none = s.table
    rw [← hnone, Function.update_eq_self]
  refine ⟨by simpa [setThread, close, touch] using h.lengths, fun i hj => ?_, fun i k r hj => ?_,
    fun i k hj => ?_, fun i k hj => ?_, fun f hf => ?_, fun a ha o ho => ?_, fun i u hj => ?_⟩
  · obtain ⟨-, hj⟩ := of_setThread hi' (by simp) hj
    obtain ⟨hlen, hlast, hopen⟩ := h.created i hj
    exact ⟨by simpa [setThread, close, touch] using hlen, hlast, htable.symm ▸ hopen⟩
  · obtain ⟨-, hj⟩ := of_setThread hi' (by simp) hj
    exact htable.symm ▸ h.serving i k r hj
  · obtain ⟨-, hj⟩ := of_setThread hi' (by simp) hj
    exact htable.symm ▸ h.closed i k hj
  · have hopen : s.table k = some (.connection i) := htable ▸ hj
    have hother : worker ≠ i := by
      rintro rfl
      rcases h.owned worker k hopen with ⟨hcreated, -⟩ | ⟨r, hserving⟩
      · rw [hi] at hcreated
        cases hcreated
      · rw [hi] at hserving
        cases hserving
    rw [threads_setThread hi', if_neg hother]
    exact h.owned i k hopen
  · exact ⟨htable.symm ▸ (h.files f hf).1, hthreads.symm ▸ (h.files f hf).2⟩
  · rcases List.mem_append.1 ha with ha | ha
    · exact ⟨(h.acts a ha o ho).1, hthreads.symm ▸ (h.acts a ha o ho).2⟩
    · obtain rfl := List.mem_singleton.1 ha
      exact absurd (hnone.symm.trans ho) (by simp)
  · show (s.touch worker true socket).closings i = _
    rw [closings_touch, hnone]
    by_cases heq : worker = i
    · subst heq
      rw [threads_setThread hi', if_pos rfl] at hj
      obtain rfl := Option.some.inj hj
      simpa [Thread.over] using h.once worker _ hi
    · rw [threads_setThread hi', if_neg heq] at hj
      simpa using h.once i u hj

theorem inv_finished {r : Except Exit (Int × Bool)} {x : Session} (h : s.Inv)
    (hi : s.threads[worker]? = some (.serving socket (.ret (r, x)))) :
    (s.finished worker socket r).Inv := by
  cases r with
  | ok result =>
      obtain ⟨_, closes⟩ := result
      cases closes with
      | true => exact inv_close h hi (Or.inl rfl)
      | false => exact inv_close h hi (Or.inr rfl)
  | error exit =>
      cases exit with
      | returned => exact inv_close h hi (Or.inr rfl)
      | exited => exact inv_down (inv_close h hi (Or.inr rfl))
      | thrown => exact inv_down h
      | undefined => exact inv_down h
      | unfinished => exact inv_down h

variable {P : Platform}

/-- **One timely step keeps the invariant.** -/
theorem inv_step {s' : Server} {e : Event} (h : s.Inv) (htimely : s.Timely e)
    (hstep : s.step P e = some s') : s'.Inv := by
  cases e with
  | accept socket =>
      simp only [step] at hstep
      split_ifs at hstep with hbusy
      obtain rfl := Option.some.inj hstep
      apply inv_accept h htimely
      cases hopen : s.table socket with
      | none => rfl
      | some i => exact absurd (by simp [hopen]) hbusy
  | acceptFails =>
      simp only [step] at hstep
      split_ifs at hstep
      obtain rfl := Option.some.inj hstep
      exact inv_acceptFails h htimely
  | construct worker =>
      simp only [step] at hstep
      split at hstep
      · rename_i hi
        obtain rfl := Option.some.inj hstep
        obtain ⟨-, hsocket, htable⟩ := h.created worker hi
        exact inv_serve h hi rfl hsocket htable (fun _ => rfl) _
      · cases hstep
  | call worker answer =>
      simp only [step] at hstep
      split at hstep
      · rename_i socket o k _ hi
        obtain rfl := Option.some.inj hstep
        obtain ⟨huse, hi'⟩ := inv_use h hi o
        obtain ⟨hsocket, htable⟩ := huse.serving _ _ _ hi'
        exact inv_serve huse hi' rfl hsocket htable (fun ht => by cases ht) _
      · cases hstep
  | opens worker number =>
      simp only [step] at hstep
      split at hstep
      · rename_i hi
        split_ifs at hstep with hfree
        obtain rfl := Option.some.inj hstep
        apply inv_opens h htimely _ (List.getElem?_eq_some_iff.1 hi).1
        simpa using (Bool.and_eq_true_iff.1 hfree).2
      · cases hstep
  | uses worker number =>
      simp only [step] at hstep
      split_ifs at hstep with hfile
      obtain rfl := Option.some.inj hstep
      obtain ⟨htable, hlt⟩ := h.files _ (by simpa using (Bool.and_eq_true_iff.1 hfile).2)
      exact inv_touch h htable rfl hlt
  | releases worker number =>
      simp only [step] at hstep
      split_ifs at hstep with hfile
      obtain rfl := Option.some.inj hstep
      exact inv_releases h (by simpa using (Bool.and_eq_true_iff.1 hfile).2)
  | finish worker =>
      simp only [step] at hstep
      split at hstep
      · rename_i hi
        obtain rfl := Option.some.inj hstep
        exact inv_finished h hi
      · rename_i hi
        obtain rfl := Option.some.inj hstep
        exact inv_close_again h hi
      · cases hstep

theorem inv_run {s' : Server} (es : List Event) (h : s.Inv) (htimely : AllTimely P es s)
    (hrun : run P es s = some s') : s'.Inv := by
  induction es generalizing s with
  | nil =>
      obtain rfl := Option.some.inj hrun
      exact h
  | cons e es ih =>
      rw [run, Option.bind_eq_some_iff] at hrun
      obtain ⟨s₁, hstep, hrest⟩ := hrun
      have hlater := htimely.2
      rw [hstep] at hlater
      exact ih (inv_step h htimely.1 hstep) hlater hrest

/-! ## Whose connection -/

/-- **A worker uses and closes only its own connection and files**, and closes its connection once, in every
    run in which accepts and openings are timely. -/
theorem closes_own_connection (P : Platform) (es : List Event) (s : Server)
    (htimely : AllTimely P es init) (hrun : run P es init = some s) : s.Own :=
  (inv_run es inv_init htimely hrun).own

/-- **Every connection gets its own worker**, in every run in which accepts and openings are timely. -/
theorem serves_every_connection (P : Platform) (es : List Event) (s : Server)
    (htimely : AllTimely P es init) (hrun : run P es init = some s) : s.Served :=
  (inv_run es inv_init htimely hrun).served

/-! ## Untimely runs -/

/-- Two connections are accepted before the threads run. -/
def acceptTwice : List Event := [.accept 4, .accept 5, .construct 0, .construct 1]

/-- Both threads read the number of the second connection. -/
theorem two_workers_on_one_connection :
    ∃ s, run (.plain .little) acceptTwice init = some s ∧ s.Holds 0 5 ∧ s.Holds 1 5 ∧
      s.table 4 = some (.connection 0) ∧ s.table 5 = some (.connection 1) ∧ ¬s.Served := by
  refine ⟨_, rfl, Or.inl ⟨_, rfl⟩, Or.inl ⟨_, rfl⟩, by decide, by decide, fun h => ?_⟩
  exact absurd (h.apart 0 1 5 (Or.inl ⟨_, rfl⟩) (Or.inl ⟨_, rfl⟩) (by decide)) (by decide)

/-- A machine on which nothing fails but, if `fault` says so, the calls to the network. -/
def machineAnswer (fault : Bool) (o : Sys.Op) : Sys.Ans o :=
  (Host.answer { Choice.grant with fault := fault } (.start .root ⟨[], false, false⟩) o).1

/-- A peer that logs in as the first user, and then out. -/
def peerAnswer : (o : Sys.Op) → Sys.Ans o
  | .recv 8 => some (sizeImage .little 5)
  | .recv 5 => some (ascii "user1")
  | .recv n => some (fit n (plainFrame 0 LogoutM1.serialize))
  | o => machineAnswer false o

/-- A connection whose first receive fails, and one that gets its number afterwards. -/
def acceptAgain : List Event :=
  [.accept 4, .construct 0, .call 0 (machineAnswer true), .finish 0, .accept 4, .construct 1]

/-- A session that ends by logout, with `between` before the destructor runs. -/
def logoutThen (between : Event) : List Event :=
  [.accept 4, .construct 0] ++ List.replicate 31 (.call 0 peerAnswer) ++
    [.finish 0, between, .finish 0]

set_option maxRecDepth 20000 in
/-- The destructor closes the connection that got the number after `start` had closed it. -/
theorem destructor_closes_next_connection :
    ∃ s, run (.plain .little) (logoutThen (.accept 4)) init = some s ∧
      ⟨0, true, some (.connection 1)⟩ ∈ s.log ∧ ¬s.Own := by
  obtain ⟨s, hs⟩ : ∃ s, run (.plain .little) (logoutThen (.accept 4)) init = some s :=
    Option.isSome_iff_exists.1 (by decide +kernel)
  have hmem : ⟨0, true, some (.connection 1)⟩ ∈ s.log := by
    have hlog : ⟨0, true, some (.connection 1)⟩ ∈ (((run (.plain .little) (logoutThen (.accept 4)) init).map
      (·.log)).getD []) := by decide +kernel
    rw [hs] at hlog
    exact hlog
  exact ⟨s, hs, hmem, fun h => absurd (h.touches _ hmem _ rfl) (by decide)⟩

/-- Two connections at once. Between the two closes of the first worker, the second one opens a file under
    another number; then the number of the first connection is used again, for a third one. -/
def acceptInBetween : List Event :=
  [.accept 4, .construct 0, .accept 5, .construct 1] ++ List.replicate 31 (.call 0 peerAnswer) ++
    List.replicate 6 (.call 1 peerAnswer) ++
    [.finish 0, .opens 1 6, .uses 1 6, .releases 1 6, .finish 0, .accept 4, .construct 2] ++
    List.replicate 25 (.call 1 peerAnswer) ++ List.replicate 31 (.call 2 peerAnswer) ++
    [.finish 2, .finish 1, .finish 1, .finish 2]

set_option maxRecDepth 20000 in
/-- All three end by logout, and each is closed once, by its own worker. -/
theorem closes_own_connection_in_between :
    ∃ s, run (.plain .little) acceptInBetween init = some s ∧ s.Own ∧
      s.threads.all (· matches .gone) ∧ s.closings 0 = 1 ∧ s.closings 1 = 1 ∧ s.closings 2 = 1 := by
  obtain ⟨s, hs⟩ : ∃ s, run (.plain .little) acceptInBetween init = some s :=
    Option.isSome_iff_exists.1 (by decide +kernel)
  have hend : ∀ s ∈ run (.plain .little) acceptInBetween init, s.threads.all (· matches .gone) ∧
      s.closings 0 = 1 ∧ s.closings 1 = 1 ∧ s.closings 2 = 1 := by decide +kernel
  exact ⟨s, hs, closes_own_connection (.plain .little) acceptInBetween s (by decide +kernel) hs,
    hend s hs⟩

/-- Two connections one after the other on the same number. -/
theorem serves_every_connection_again :
    (run (.plain .little) acceptAgain init).isSome ∧
      ∀ s, run (.plain .little) acceptAgain init = some s → s.Served :=
  ⟨by decide, fun s hs => serves_every_connection (.plain .little) acceptAgain s (by decide) hs⟩

end Server

end CloudStorage
