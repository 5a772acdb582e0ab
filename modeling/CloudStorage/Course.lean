import CloudStorage.Conduct
import CloudStorage.Prompts

set_option autoImplicit false

/-! # The course of a session's input

Which lines a session of the client reads for which purpose, in every run and in some run. The
functions of the client touch the console before anything else, so each is its prompts followed by a
part that is `Quietly` done. -/

namespace CloudStorage

open Interaction Interaction.Routine

/-! ## Functions that leave the console alone -/

/-- A call that leaves the console alone. -/
def OffConsole : Sys.Op → Prop
  | .sys .getline => False
  | .sys .clearAndIgnore => False
  | _ => True

/-- The function leaves the console alone and is not stopped by a bound. -/
abbrev Quietly {α : Type} (r : Member α) : Prop := Within OffConsole (· ≠ .unfinished) r

/-- The function leaves the console alone, and returns 0 where it ends early. -/
abbrev Checked {α : Type} (r : Member α) : Prop := Within OffConsole (· = .returned 0) r

theorem OnFile.offConsole {p : FileCall → Prop} : ∀ o, OnFile p o → OffConsole o
  | .sys (.file _), _ => trivial

/-- A step of the login. -/
theorem Checked.expect {α : Type} {r : Member (Option α)} (hr : Checked r) :
    Checked (Member.expect r 0) := by
  refine .bind hr fun a => ?_
  cases a with
  | none => exact .throw rfl
  | some a => exact .pure a

theorem Checked.sent {r : Member Bool} (hr : Checked r) : Checked (Member.sent r) :=
  .bind hr fun _ => .require rfl

namespace Member

variable {α : Type} {P : Platform}

theorem quietly_onFile {p : FileCall → Prop} {X : Exit → Prop} {r : Member α}
    (hr : Only (OnFile p) X r) (hX : ∀ e, X e → e ≠ .unfinished) : Quietly r :=
  (Within.of_only hr).mono OnFile.offConsole hX

theorem quietly_thrown : ∀ e : Exit, e.IsThrown → e ≠ .unfinished
  | .thrown _, _ => by simp

theorem quietly_sys {o : SysCall} (ho : OffConsole (.sys o)) : Quietly (sys o) := Within.call ho

theorem quietly_return (n : Int) : Quietly (Routine.throw (.returned n) : Member α) :=
  .throw (by simp)

theorem quietly_print (r : Report) : Quietly (print r) := quietly_sys (o := .print r) trivial

theorem quietly_sendFrame (w : Buffer) : Quietly (sendFrame w) := by
  refine .bind (.call trivial) fun sent => .bind (.require (by simp)) fun _ => .bind .get fun s => ?_
  refine .bind (.modify _) fun _ => .bind (quietly_sys (o := .note _) trivial) fun _ => ?_
  split
  · exact quietly_return _
  · exact .pure _

theorem quietly_sendPacket (payload : Buffer) : Quietly (sendPacket P payload) := by
  refine .bind .get fun s => .bind (.bind (quietly_sys (o := .random _) trivial) fun iv => ?_)
    quietly_sendFrame
  cases iv with
  | none => exact .pure _
  | some iv =>
      dsimp only
      split
      · exact .pure _
      · exact .bind (quietly_sys (o := .note _) trivial) fun _ => .pure _

theorem quietly_receiveFrame (n : Nat) : Quietly (receiveFrame P n) := by
  unfold receiveFrame
  dsimp only
  split
  · exact .throw (by simp)
  · refine .bind (.call trivial) fun (received : Option Buffer) => ?_
    cases received with
    | none => exact .pure _
    | some wrapper =>
        refine .bind .get fun s => .bind ?_ fun _ => .pure _
        refine (Within.of_only (Wrapper.only_deserialize P _ wrapper)).mono (fun _ => id) ?_
        rintro e (rfl | he)
        · simp
        · exact quietly_thrown e he

theorem quietly_checkCounter (counter : Int) (payload wrapper : Buffer) :
    Quietly (checkCounter counter payload wrapper) := by
  refine .bind .get fun s => ?_
  split
  · exact quietly_return _
  · exact quietly_sys (o := .note _) trivial

theorem quietly_advanceReceive : Quietly advanceReceive := by
  refine .bind .get fun s => .bind (.modify _) fun _ =>
    .bind (quietly_sys (o := .note _) trivial) fun _ => ?_
  split
  · exact quietly_return _
  · exact .pure _

theorem quietly_receivePacket (n : Nat) : Quietly (receivePacket P n) := by
  refine .bind (quietly_receiveFrame n) fun received => ?_
  cases received with
  | none => exact .pure _
  | some f =>
      exact .bind (quietly_checkCounter _ _ _) fun _ => .bind quietly_advanceReceive fun _ => .pure _

theorem quietly_expectPacket (n : Nat) (result : Int) : Quietly (expectPacket P n result) := by
  refine .bind (quietly_receivePacket n) fun received => ?_
  cases received with
  | none => exact quietly_return _
  | some payload => exact .pure _

theorem quietly_sendChunk (m2 : Buffer → ChunkM2) (file : File) (n : Nat) :
    Quietly (sendChunk P m2 file n) := by
  refine .bind (quietly_onFile (file.only_readChunk n) quietly_thrown) fun chunk => ?_
  split
  · exact .throw (by simp)
  · exact quietly_sendPacket _

theorem quietly_sendChunks (m2 : Buffer → ChunkM2) (file : File) (n : Nat) :
    Quietly (sendChunks P m2 file n) := by
  induction n with
  | zero => exact .pure _
  | succ n ih => exact .bind (quietly_sendChunk m2 file _) fun _ => ih

theorem quietly_sendLastChunk (m2 : Buffer → ChunkM2) (file : File) (n : Nat) :
    Quietly (sendLastChunk P m2 file n) := by
  unfold sendLastChunk
  split
  · exact quietly_sendChunk m2 file n
  · exact .pure _

theorem quietly_receiveChunks {write : Bool → Buffer → Member Unit}
    (hwrite : ∀ e chunk, Quietly (write e chunk)) (n : Nat) (errorOccured : Bool) :
    Quietly (receiveChunks P write n errorOccured) := by
  induction n generalizing errorOccured with
  | zero => exact .pure _
  | succ n ih =>
      refine .bind (quietly_receivePacket _) fun received => ?_
      cases received with
      | none => exact ih true
      | some payload => exact .bind (hwrite _ _) fun _ => ih _

theorem quietly_receiveLastChunk {write : Bool → Buffer → Member Unit}
    (hwrite : ∀ e chunk, Quietly (write e chunk)) (n : Nat) (errorOccured : Bool) :
    Quietly (receiveLastChunk P write errorOccured n) := by
  unfold receiveLastChunk
  split
  · exact .bind (quietly_expectPacket _ _) fun payload => hwrite _ _
  · exact .pure _

theorem checked_crypto (c : CryptoCall) : Checked (crypto c) := Within.call trivial

theorem checked_send (data : Buffer) : Checked (sendData data) := Within.call trivial

theorem checked_receiveSize : Checked (receiveSize P) :=
  .bind (.call trivial) fun _ => .pure _

theorem checked_overrun : Checked overrun := Within.call trivial

end Member

namespace Client

open Member

variable {P : Platform}

/-- `Client::upload_file` once the file is open. -/
theorem quietly_uploadChunks (file : File) : Quietly (uploadChunks P file) := by
  refine .bind (quietly_expectPacket _ _) fun payload => ?_
  split
  · exact .bind (quietly_print _) fun _ => .pure _
  · refine .bind (quietly_sendChunks _ file _) fun _ => .bind (quietly_sendLastChunk _ file _)
      fun _ => .bind (quietly_expectPacket _ _) fun payload => ?_
    split
    · exact .bind (quietly_print _) fun _ => .pure _
    · exact .bind (quietly_print _) fun _ => .pure _

/-- `Client::upload_file` once it has a path. -/
def uploadFrom (P : Platform) (path : Buffer) : Member Int := do
  let unset ← garbage .fileSize
  let (file, error) ← (File.new unset).read path
  if error.isSome || file.fileSize == 0 || decide (Max.maxFileSize ≤ file.fileSize) then return 0
  else do
    sendPacket P ((UploadM1.new file.fileName file.fileSize).serialize P.order)
    uploadChunks P file

theorem uploadFile_eq : uploadFile P = (do
    let (line, good) ← getline
    warnInvalid (!good || (line.getD []).isEmpty)
    uploadFrom P (line.getD [])) := rfl

theorem quietly_uploadFrom (path : Buffer) : Quietly (uploadFrom P path) := by
  refine .bind (quietly_sys (o := .garbage .fileSize) trivial) fun (unset : Nat) =>
    .bind (quietly_onFile (X := fun _ => False) (File.only_read _ _) fun _ h => h.elim) fun opened => ?_
  obtain ⟨file, error⟩ := opened
  dsimp only
  split
  · exact .pure _
  · exact .bind (quietly_sendPacket _) fun _ => quietly_uploadChunks file

theorem quietly_receiveFile (fileName : Buffer) (fileSize : Nat) :
    Quietly (receiveFile P fileName fileSize) := by
  have hfolder : Quietly makeDownloads := by
    apply quietly_onFile only_makeDownloads
    rintro e (he | rfl)
    · exact quietly_thrown e he
    · simp
  have hcreate : ∀ f path, Quietly (File.create f path) := fun f path =>
    quietly_onFile (X := fun _ => False) (f.only_create path) fun _ h => h.elim
  have hwrite : ∀ (file : File) e chunk, Quietly (writeChunk file e chunk) := by
    intro file e chunk
    unfold writeChunk
    split
    · exact .pure _
    · exact quietly_onFile (file.only_writeChunk chunk) quietly_thrown
  refine .bind hfolder fun _ => .bind (hcreate _ _) fun opened => ?_
  obtain ⟨file, error⟩ := opened
  exact .bind (quietly_receiveChunks (hwrite file) _ _) fun _ =>
    .bind (quietly_receiveLastChunk (hwrite file) _ _) fun _ => .bind (quietly_print _) fun _ => .pure _

theorem quietly_receiveList (size : Nat) : Quietly (receiveList P size) := by
  have hnames : ∀ names, Quietly (printNames names) := by
    intro names
    induction names with
    | nil => exact .pure _
    | cons name names ih => exact .bind (quietly_print _) fun _ => ih
  refine .bind (quietly_receiveFrame _) fun received => ?_
  cases received with
  | none => exact .pure _
  | some f =>
      refine .bind (quietly_checkCounter _ _ _) fun _ => .bind ?_ fun data =>
        .bind (quietly_sys (o := .overrun) trivial) fun _ => .bind (hnames _) fun _ =>
          .bind quietly_advanceReceive fun _ => .pure _
      exact (Within.of_only (only_readList _ _)).mono (fun _ => id) fun e he => by simp [he]

theorem quietly_listFiles : Quietly (listFiles P) := by
  refine .bind (quietly_sendPacket _) fun _ => .bind (quietly_expectPacket _ _) fun payload => ?_
  dsimp only
  split
  · exact .bind (quietly_print _) fun _ => .pure _
  · exact quietly_receiveList _

theorem quietly_reportCode (done failed : Report) (code : UInt8) :
    Quietly (reportCode done failed code) := by
  unfold reportCode
  split_ifs
  · exact .bind (quietly_print _) fun _ => .pure _
  · exact .bind (quietly_print _) fun _ => .pure _
  · exact .bind (quietly_print _) fun _ => .pure _
  · exact .pure _

/-- `Client::download_file` once it has its name. -/
theorem quietly_download (fileName : Buffer) : Quietly (do
    sendPacket P (DownloadM1 fileName).serialize
    let payload ← expectPacket P SizedAck.getSize 0
    let ack := SizedAck.deserialize P.order payload
    if ack.ackCode ≠ 0 then do
      print .notOnCloud
      return 0
    else receiveFile P fileName ack.size : Member Int) := by
  refine .bind (quietly_sendPacket _) fun _ => .bind (quietly_expectPacket _ _) fun payload => ?_
  dsimp only
  split
  · exact .bind (quietly_print _) fun _ => .pure _
  · exact quietly_receiveFile _ _

/-- A request that is answered with a code. -/
theorem quietly_request (packet : Buffer) (done failed : Report) : Quietly (do
    sendPacket P packet
    let payload ← expectPacket P Ack.getSize 0
    reportCode done failed (Ack.deserialize payload).ackCode : Member Int) :=
  .bind (quietly_sendPacket _) fun _ => .bind (quietly_expectPacket _ _) fun _ =>
    quietly_reportCode _ _ _

theorem quietly_logout : Quietly (logout P) := by
  refine .bind (quietly_sendPacket _) fun _ => .bind (quietly_expectPacket _ _) fun payload => ?_
  split
  · exact .pure _
  · exact .bind (.modify _) fun _ => .bind (quietly_print _) fun _ => .pure _

/-! The parts of the login that follow its prompts. -/

/-- The username is sent and the server knows it. -/
theorem checked_username (username : Buffer) : Checked (do
    Routine.modify fun s => { s with username := username }
    sent (sendSize P username.length)
    sent (sendData username)
    let response ← expect (receiveSize P) 0
    Routine.require (response != 0) (.returned 0) : Member Unit) :=
  .bind (.modify _) fun _ => .bind (checked_send _).sent fun _ => .bind (checked_send _).sent fun _ =>
    .bind checked_receiveSize.expect fun _ => .require rfl

theorem checked_sendClientKey : Checked (sendClientKey P) :=
  .bind (checked_crypto .ecdhKeyGeneration).expect fun clientKey =>
    .bind (checked_crypto (.serializePubKey clientKey)).expect fun _ =>
      .bind (checked_send _).sent fun _ => .bind (checked_send _).sent fun _ => .pure _

theorem checked_receiveM3 : Checked (receiveM3 P) := by
  refine .bind (Checked.expect (.call trivial)) fun message => .bind ?_ fun m => ?_
  · exact .bind checked_overrun fun _ => .bind checked_overrun fun _ => .pure _
  · exact .bind (checked_crypto (.readCertificate m.certificate)).expect fun key =>
      .bind (checked_crypto (.verifyServerCertificate m.certificate)) fun (trusted : Bool) =>
        .bind (.require rfl) fun _ => .bind (.require rfl) fun _ => .pure _

theorem checked_deriveKey (clientKey : Pkey) (sServerKey : Buffer) :
    Checked (deriveKey clientKey sServerKey) :=
  .bind (checked_crypto (.deserializePublicKey sServerKey)).expect fun serverKey =>
    .bind (checked_crypto (.deriveSharedSecret clientKey serverKey)) fun (derived : Int × Buffer) =>
      .bind (.require rfl) fun _ => .bind (checked_crypto (.computeSHA256Digest derived.2)).expect
        fun _ => .bind (.modify _) fun _ => .call trivial

theorem checked_checkM3 (m : M3) (serverPublicKey : Pkey) (concatenatedKeys : Buffer) :
    Checked (checkM3 m serverPublicKey concatenatedKeys) :=
  .bind .get fun s => .bind (checked_crypto (.decryptTextAES _ s.sessionKey _)).expect
    fun plaintext => .bind (checked_crypto (.verifyDigitalSignature _ plaintext _))
      fun (_ : Bool) => .require rfl

theorem checked_sendM4 (privateKey : Pkey) (concatenatedKeys : Buffer) :
    Checked (sendM4 privateKey concatenatedKeys) := by
  refine .bind (checked_crypto (.generateDigitalSignature _ privateKey)).expect fun signature => ?_
  refine .bind .get fun s => .bind (checked_crypto (.encryptTextAES signature s.sessionKey)).expect
    fun cipher => .bind (.bind checked_overrun fun _ => .pure _) fun _ => (checked_send _).sent

/-- `Client::login` from the private key on. -/
theorem checked_exchange (username password : Buffer) : Checked (do
    let privateKey ← expect
      (crypto (.loadPrivateKey (ascii "../commons/" ++ username ++ ascii "/key.pem") password)) 0
    let (clientKey, sClientKey) ← sendClientKey P
    let (m, serverPublicKey) ← receiveM3 P
    deriveKey clientKey m.serverKey
    let concatenatedKeys := m.serverKey ++ sClientKey
    checkM3 m serverPublicKey concatenatedKeys
    sendM4 privateKey concatenatedKeys
    return 1 : Member Int) := by
  refine .bind (checked_crypto (.loadPrivateKey _ password)).expect fun privateKey =>
    .bind checked_sendClientKey fun keys => ?_
  obtain ⟨clientKey, sClientKey⟩ := keys
  refine .bind checked_receiveM3 fun received => ?_
  obtain ⟨m, serverPublicKey⟩ := received
  exact .bind (checked_deriveKey _ _) fun _ => .bind (checked_checkM3 _ _ _) fun _ =>
    .bind (checked_sendM4 _ _) fun _ => .pure _

end Client

/-! ## Every run -/

/-- What every call keeps: `held` of the lines that are left, and `good` of what they are for. -/
structure Course (S : Type) where
  rely : Transition Sys S
  guar : Transition Sys S
  good : Purpose → List Buffer → Prop
  held : List Buffer → S → Prop
  quiet : ∀ ls s o a s', OffConsole o → held ls s → rely s o a s' → guar s o a s' ∧ held ls s'
  getline : ∀ ls s a s', held ls s → rely s (.sys .getline) a s' →
    guar s (.sys .getline) a s' ∧ Console.Answers ls a ∧ held (ls.drop 1) s'
  ignore : ∀ ls s u s', good .ignored ls → held ls s → rely s (.sys .clearAndIgnore) u s' →
    guar s (.sys .clearAndIgnore) u s' ∧ held (ls.drop 1) s'
  next : ∀ p line ls q, good p (line :: ls) → p.next line = some q → good q ls
  dry : ∀ p q, p.atLogin = false → good p [] → good q []

namespace Course

open Member Client

variable {P : Platform} {S : Type} (D : Course S) {p q : Purpose} {m k : Nat} {s s' : S}

/-- The next line is read for `p`, and at most `m` lines are left. -/
def At (p : Purpose) (m : Nat) (s : S) : Prop := ∃ ls, ls.length ≤ m ∧ D.good p ls ∧ D.held ls s

/-- How an operation ends early. -/
def Back (m : Nat) (e : Exit) (_ : Session) (s : S) : Prop := e ≠ .unfinished ∧ D.At .choice m s

/-- This line was read for `p`. -/
def After (p : Purpose) (line : Buffer) (m : Nat) (s : S) : Prop :=
  ∃ ls, ls.length ≤ m ∧ D.held ls s ∧ ∀ q, p.next line = some q → D.good q ls

/-- The triples of this section. -/
abbrev Follows {α : Type} (Pre : S → Prop) (r : Member α) (Post : α → S → Prop)
    (Exits : Exit → S → Prop) : Prop :=
  Triple D.rely D.guar (fun _ => Pre) r (fun a _ => Post a) fun e _ => Exits e

variable {D}

theorem At.mono (h : D.At p m s) (hle : m ≤ k) : D.At p k s := by
  obtain ⟨ls, hlen, hgood, hheld⟩ := h
  exact ⟨ls, by omega, hgood, hheld⟩

theorem After.at {line : Buffer} (h : D.After p line m s) (hq : p.next line = some q) :
    D.At q m s := by
  obtain ⟨ls, hlen, hheld, hgood⟩ := h
  exact ⟨ls, hlen, hgood q hq, hheld⟩

theorem At.after (h : ∀ q, D.At q m s) (line : Buffer) : D.After p line m s := by
  cases hq : p.next line with
  | none =>
      obtain ⟨ls, hlen, -, hheld⟩ := h .choice
      exact ⟨ls, hlen, hheld, fun q hq' => by simp [hq] at hq'⟩
  | some q =>
      obtain ⟨ls, hlen, hgood, hheld⟩ := h q
      refine ⟨ls, hlen, hheld, fun q' hq' => ?_⟩
      obtain rfl : q = q' := Option.some.inj (hq.symm.trans hq')
      exact hgood

/-- One read, with a line left or at the end of the input. -/
theorem At.read {a : Option Buffer × Bool} (h : D.At p (m + 1) s)
    (hstep : D.rely s (.sys .getline) a s') :
    D.guar s (.sys .getline) a s' ∧
      ((∃ line, a = (some line, true) ∧ D.After p line m s') ∨
        (a.2 = false ∧ a.1.getD [] = [] ∧ (p.atLogin = false → ∀ q n, D.At q n s'))) := by
  obtain ⟨ls, hlen, hgood, hheld⟩ := h
  obtain ⟨hguar, hanswer, hheld'⟩ := D.getline _ _ _ _ hheld hstep
  refine ⟨hguar, ?_⟩
  cases ls with
  | nil => exact Or.inr ⟨hanswer.1, hanswer.2, fun hp q n => ⟨[], Nat.zero_le n, D.dry p q hp hgood, hheld'⟩⟩
  | cons line ls =>
      have hle : ls.length ≤ m := Nat.le_of_succ_le_succ hlen
      exact Or.inl ⟨line, hanswer, ls, hle, hheld', fun q hq => D.next _ _ _ _ hgood hq⟩

theorem At.ignored {u : Unit} (h : D.At .ignored m s)
    (hstep : D.rely s (.sys .clearAndIgnore) u s') :
    D.guar s (.sys .clearAndIgnore) u s' ∧ D.At .choice m s' := by
  obtain ⟨ls, hlen, hgood, hheld⟩ := h
  obtain ⟨hguar, hheld'⟩ := D.ignore _ _ _ _ hgood hheld hstep
  refine ⟨hguar, ls.drop 1, by rw [List.length_drop]; omega, ?_, hheld'⟩
  cases ls with
  | nil => exact D.dry .ignored .choice rfl hgood
  | cons line ls => exact D.next .ignored line ls .choice hgood rfl

theorem follows_within {α : Type} {X : Exit → Prop} {r : Member α} (hr : Within OffConsole X r) :
    D.Follows (D.At p m) r (fun _ => D.At p m) fun e s => X e ∧ D.At p m s := by
  apply hr.triple
  rintro s o a s' ho ⟨ls, hlen, hgood, hheld⟩ hstep
  obtain ⟨hguar, hheld'⟩ := D.quiet _ _ _ _ _ ho hheld hstep
  exact ⟨hguar, ls, hlen, hgood, hheld'⟩

/-- The part of an operation after its prompts. -/
theorem follows_quietly {α : Type} {r : Member α} (hr : Quietly r) :
    Triple D.rely D.guar (fun _ => D.At .choice m) r (fun _ _ => D.At .choice m) (D.Back m) :=
  follows_within hr

/-- A refusal swallows a line. -/
theorem follows_refusal {α : Type} {r : Member α} {Post : α → S → Prop}
    (hr : Triple D.rely D.guar (fun _ => D.At .choice m) r (fun a _ => Post a) (D.Back m)) :
    Triple D.rely D.guar (fun _ => D.At .ignored m) (do
      print .invalidInput
      clearAndIgnore
      r) (fun a _ => Post a) (D.Back m) := by
  refine .bind (P := fun _ _ => D.At .ignored m) ?_ fun _ => .bind (P := fun _ _ => D.At .choice m) ?_
    fun _ => hr
  · intro x s h u s' hstep
    obtain ⟨ls, hlen, hgood, hheld⟩ := h
    obtain ⟨hguar, hheld'⟩ := D.quiet _ _ (.sys (.print .invalidInput)) _ _ trivial hheld hstep
    exact ⟨hguar, ls, hlen, hgood, hheld'⟩
  · exact fun _ _ h _ _ hstep => h.ignored hstep

/-- A name that the client asks for. -/
theorem follows_readFileName (hp : p.atLogin = false)
    (hnext : ∀ line, p.next line = some (if nameInvalid true line then .ignored else q)) :
    Triple D.rely D.guar (fun _ => D.At p m) readFileName (fun _ _ => D.At q m) (D.Back m) := by
  intro x s h
  refine (sat_bind _ _).2 ((sat_call _ _).2 fun (a : Option Buffer × Bool) s' hstep => ?_)
  obtain ⟨hguar, hread⟩ := (h.mono (Nat.le_succ m)).read hstep
  have hrefuse : D.At .ignored m s' → Sat D.rely D.guar (fun _ _ => D.At q m) (D.Back m) (do
      print .invalidInput
      clearAndIgnore
      Routine.throw (.returned 0) : Member Buffer) x s' :=
    follows_refusal (Triple.throw (P := fun _ _ => D.At q m) _ fun _ _ h => ⟨by simp, h⟩) x s'
  refine ⟨hguar, ?_⟩
  rcases hread with ⟨line, rfl, hat⟩ | ⟨hbad, hline, hall⟩
  · have hat' := hat.at (hnext line)
    dsimp only [Option.getD_some]
    split
    · rename_i hinvalid
      rw [if_pos hinvalid] at hat'
      exact hrefuse hat'
    · rename_i hvalid
      rw [if_neg hvalid] at hat'
      exact hat'
  · obtain ⟨line, good⟩ := a
    dsimp only at hbad hline ⊢
    rw [hbad, hline, if_pos (by rfl)]
    exact hrefuse (hall hp _ _)

theorem follows_uploadFile :
    Triple D.rely D.guar (fun _ => D.At .path m) (uploadFile P) (fun _ _ => D.At .choice m)
      (D.Back m) := by
  rw [uploadFile_eq]
  intro x s h
  refine (sat_bind _ _).2 ((sat_call _ _).2 fun (a : Option Buffer × Bool) s' hstep => ?_)
  obtain ⟨hguar, hread⟩ := (h.mono (Nat.le_succ m)).read hstep
  have hgo := fun path => D.follows_quietly (m := m) (quietly_uploadFrom (P := P) path)
  have hrefuse := fun path => follows_refusal (hgo path)
  refine ⟨hguar, ?_⟩
  obtain ⟨line, good⟩ := a
  rcases hread with ⟨line, heq, hat⟩ | ⟨hbad, hline, hall⟩
  · cases heq
    have hat' := hat.at (q := if line.isEmpty then .ignored else .choice) rfl
    dsimp only [Option.getD_some]
    cases hempty : line.isEmpty with
    | true =>
        rw [hempty] at hat'
        exact hrefuse line x s' hat'
    | false =>
        rw [hempty] at hat'
        exact hgo line x s' hat'
  · dsimp only at hbad hline ⊢
    rw [hbad, hline]
    exact hrefuse [] x s' (hall rfl _ _)

theorem follows_downloadFile :
    Triple D.rely D.guar (fun _ => D.At .name m) (downloadFile P) (fun _ _ => D.At .choice m)
      (D.Back m) :=
  .bind (follows_readFileName rfl fun _ => rfl) fun fileName =>
    follows_quietly (quietly_download fileName)

theorem follows_renameFile :
    Triple D.rely D.guar (fun _ => D.At .oldName m) (renameFile P) (fun _ _ => D.At .choice m)
      (D.Back m) :=
  .bind (follows_readFileName rfl fun _ => rfl) fun _ =>
    .bind (follows_readFileName rfl fun _ => rfl) fun _ => follows_quietly (quietly_request _ _ _)

theorem follows_deleteFile :
    Triple D.rely D.guar (fun _ => D.At .name m) (deleteFile P) (fun _ _ => D.At .choice m)
      (D.Back m) :=
  .bind (follows_readFileName rfl fun _ => rfl) fun _ => follows_quietly (quietly_request _ _ _)

/-- A choice is handled: the session goes on, or the choice was the logout and its result is not the
    one of a choice that is no number. -/
theorem follows_handleMenuChoice (choice : Buffer) :
    D.Follows (D.After .choice choice m) (handleMenuChoice P choice)
      (fun n s => (n ≠ -2 ∧ stoi choice = some logoutOption) ∨ D.At .choice m s)
      fun e _ => e ≠ .unfinished := by
  have hreturning : ∀ {K : S → Prop} {r : Member Int},
      Triple D.rely D.guar (fun _ => K) r (fun _ _ => D.At .choice m) (D.Back m) →
      D.Follows K (returning r) (fun _ => D.At .choice m) fun e _ => e ≠ .unfinished := by
    intro K r hr
    have hvalue := triple_returning (Q := fun result _ s =>
      result ≠ .error .unfinished ∧ ((∃ n, result = .ok n) → D.At .choice m s))
      (hr.conseq (fun _ _ => id) (fun n _ s h => ⟨by simp, fun _ => h⟩) fun e _ s h => by
        obtain ⟨hne, hat⟩ := h
        refine ⟨?_, fun _ => hat⟩
        cases e with
        | unfinished => exact absurd rfl hne
        | _ => simp [value])
    exact hvalue.conseq (fun _ _ => id) (fun n _ _ h => h.2 ⟨n, rfl⟩)
      fun e _ _ h => fun heq => h.1 (heq ▸ rfl)
  -- a choice that asks for a line or sends a request, and comes back to the menu
  have hother : ∀ {r : Member Int} {p : Purpose}, Purpose.choice.next choice = some p →
      Triple D.rely D.guar (fun _ => D.At p m) r (fun _ _ => D.At .choice m) (D.Back m) →
      D.Follows (D.After .choice choice m) (returning r)
        (fun n s => (n ≠ -2 ∧ stoi choice = some logoutOption) ∨ D.At .choice m s)
        fun e _ => e ≠ .unfinished := by
    intro r p hp hr
    exact (hreturning hr).conseq (fun _ _ h => h.at hp) (fun _ _ _ => Or.inr) fun _ _ _ => id
  -- a choice that does nothing
  have hnone : ∀ n, Purpose.choice.next choice = some .choice →
      D.Follows (D.After .choice choice m) (pure n : Member Int)
        (fun n s => (n ≠ -2 ∧ stoi choice = some logoutOption) ∨ D.At .choice m s)
        fun e _ => e ≠ .unfinished := fun n hn => .pure n fun _ _ h => Or.inr (h.at hn)
  unfold handleMenuChoice
  split
  · rename_i heq
    exact hnone _ (by simp [Purpose.next, heq])
  · rename_i heq
    exact hother (p := .path) (by simp [Purpose.next, heq]) follows_uploadFile
  · rename_i heq
    exact hother (p := .name) (by simp [Purpose.next, heq]) follows_downloadFile
  · rename_i heq
    exact hother (p := .choice) (by simp [Purpose.next, heq]) (follows_quietly quietly_listFiles)
  · rename_i heq
    exact hother (p := .oldName) (by simp [Purpose.next, heq]) follows_renameFile
  · rename_i heq
    exact hother (p := .name) (by simp [Purpose.next, heq]) follows_deleteFile
  · rename_i heq
    -- the logout ends the session, with any result but the one of a choice that is no number
    have hquiet : Triple D.rely D.guar (fun _ => D.After .choice choice m) (logout P)
        (fun _ _ _ => True) fun e _ _ => e ≠ .unfinished := by
      refine (quietly_logout.triple (K := D.After .choice choice m) ?_).conseq (fun _ _ => id)
        (fun _ _ _ _ => trivial) fun _ _ _ h => h.1
      rintro s o a s' ho ⟨ls, hlen, hheld, hgood⟩ hstep
      obtain ⟨hguar, hheld'⟩ := D.quiet _ _ _ _ _ ho hheld hstep
      exact ⟨hguar, ls, hlen, hheld', hgood⟩
    refine .catchExit ((hquiet.and neverInvalid_logout).conseq (fun _ _ h => ⟨h, trivial⟩)
      (fun _ _ _ h => Or.inl ⟨h.2, heq⟩) fun _ _ _ => id) fun e => ?_
    cases e with
    | returned n => exact fun _ _ h => Or.inl ⟨h.2 n rfl, heq⟩
    | _ => exact .throw _ fun _ _ h => h.1
  · rename_i k h1 h2 h3 h4 h5 h6 heq
    exact hnone _ (by simp_all [Purpose.next])

/-- The loop, by induction on its bound: a round takes a line, or the input is at its end. -/
theorem follows_menuLoop (n : Nat) (choice : Buffer) :
    D.Follows (D.At .choice m) (menuLoop P n choice) (fun _ _ => True)
      fun e _ => e = .unfinished → m ≤ n → D.good .choice [] := by
  induction n generalizing choice m with
  | zero =>
      apply Triple.throw
      rintro x s ⟨ls, hlen, hgood, hheld⟩ - hm
      obtain rfl : ls = [] := List.eq_nil_of_length_eq_zero (by omega)
      exact hgood
  | succ n ih =>
      intro x s h
      refine (sat_bind _ _).2 ((sat_call _ _).2 fun (a : Option Buffer × Bool) s' hstep => ?_)
      obtain ⟨hguar, hread⟩ := (h.mono (k := m - 1 + 1) (by omega)).read hstep
      refine ⟨hguar, ?_⟩
      obtain ⟨line, good⟩ := a
      have hafter : D.After .choice (line.getD choice) (m - 1) s' := by
        rcases hread with ⟨line', heq, hafter⟩ | ⟨-, -, hall⟩
        · cases heq
          exact hafter
        · exact At.after (fun q => hall rfl q _) _
      refine Triple.bind (K := fun _ => D.After .choice (line.getD choice) (m - 1))
        ((follows_handleMenuChoice _).conseq (fun _ _ => id) (fun _ _ _ => id)
          fun e _ _ he hunfinished => absurd hunfinished he) (fun result => ?_) x s' hafter
      split_ifs with hend hlogout
      · exact .throw _ fun _ _ _ h => by cases h
      · exact .pure _ fun _ _ _ => trivial
      · exact (ih _).conseq (fun _ _ h => h.resolve_left hlogout) (fun _ _ _ => id)
          fun e _ _ hgood hunfinished hle => hgood hunfinished (by omega)

/-! ### The login -/

/-- How the login ends early. -/
def Turned (e : Exit) (_ : S) : Prop := e = .returned 0

/-- A login prompt; a line that is refused ends the session. -/
theorem follows_readField {limit : Nat}
    (hnext : ∀ line, p.next line = if Purpose.fieldInvalid limit line then none else some q) :
    D.Follows (D.At p m) (readField limit) (fun _ => D.At q m) Turned := by
  intro x s h
  refine (sat_bind _ _).2 ((sat_call _ _).2 fun (a : Option Buffer × Bool) s' hstep => ?_)
  obtain ⟨hguar, hread⟩ := (h.mono (Nat.le_succ m)).read hstep
  refine ⟨hguar, (sat_bind _ _).2 ((sat_require _ _ _).2 ⟨fun hvalid => ?_, fun _ => rfl⟩)⟩
  obtain ⟨line, good⟩ := a
  rcases hread with ⟨line, heq, hat⟩ | ⟨hbad, -, -⟩
  · cases heq
    refine hat.at ((hnext line).trans (if_neg ?_))
    simp only [Option.getD_some, Bool.and_eq_true, Bool.not_eq_true', decide_eq_true_eq] at hvalid
    simp only [Purpose.fieldInvalid, hvalid.1.2, Bool.false_or, decide_eq_true_eq]
    omega
  · dsimp only at hbad hvalid
    simp [hbad] at hvalid

theorem follows_checked {α : Type} {r : Member α} (hr : Checked r) :
    D.Follows (D.At p m) r (fun _ => D.At p m) Turned :=
  (follows_within hr).conseq (fun _ _ => id) (fun _ _ _ => id) fun _ _ _ h => h.1

theorem follows_login :
    D.Follows (D.At .username m) (login P) (fun _ => D.At .choice m) Turned := by
  have huser : D.Follows (D.At .username m) (sendUsername P) (fun _ => D.At .password m) Turned :=
    .bind (follows_readField fun _ => rfl) fun username =>
      follows_checked (checked_username username)
  refine .bind huser fun _ => .bind (follows_readField fun _ => rfl) fun password => ?_
  refine .bind (P := fun _ _ => D.At .choice m) (fun _ _ h => h) fun s => ?_
  exact follows_checked (checked_exchange s.username password)

/-- **A session follows its input**: what reading the lines for their purposes keeps is kept, and a
    bound that leaves a choice for every line is only met at the end of the input. -/
theorem follows_start (n : Nat) :
    D.Follows (D.At .username m) (start P n) (fun _ _ => True)
      fun e _ => e = .unfinished → m ≤ n → D.good .choice [] := by
  have hlogin := triple_returning (Q := fun result _ s =>
      result = .ok 0 ∨ ((∃ n, result = .ok n) ∧ D.At .choice m s))
    ((follows_login (P := P) (D := D) (m := m)).conseq (fun _ _ => id)
      (fun k _ _ h => Or.inr ⟨⟨k, rfl⟩, h⟩) fun e _ _ he => Or.inl (by rw [he, value]))
  refine .bind (hlogin.conseq (fun _ _ => id) (fun _ _ _ => id) fun e _ _ h => ?_) fun loggedIn => ?_
  · rcases h with heq | ⟨⟨k, heq⟩, -⟩
    · cases heq
    · cases heq
  · split
    · exact .pure _ fun _ _ _ => trivial
    · rename_i hne
      refine (follows_menuLoop n []).weaken fun _ s h => ?_
      rcases h with heq | ⟨-, hat⟩
      · exact absurd (Except.ok.inj heq) hne
      · exact hat

end Course

/-! ## Some run -/

/-- What some run keeps, with a server that lets the client in and then answers nothing: `bad` of the
    lines that are left and what they are for, until the run gets to `goal`. -/
structure Drift (S : Type) where
  rely : Transition Sys S
  goal : S → Prop
  host : S → Host
  bad : Purpose → List Buffer → S → Prop
  answer : ∀ p ls s o c, OffConsole o → bad p ls s →
    ∃ s', rely s o ((host s).answer c o).1 s' ∧ bad p ls s'
  getline : ∀ p line ls s, p ≠ .ignored → bad p (line :: ls) s →
    ∃ q s', p.next line = some q ∧ rely s (.sys .getline) (some line, true) s' ∧ bad q ls s'
  atEnd : ∀ p s, bad p [] s → p.atLogin = false ∧ ∃ a s', Console.Answers [] a ∧
    rely s (.sys .getline) a s' ∧ ∀ q : Purpose, q.atLogin = false → bad q [] s'
  ignore : ∀ ls s, bad .ignored ls s →
    ∃ s', rely s (.sys .clearAndIgnore) () s' ∧ (goal s' ∨ bad .choice (ls.drop 1) s')

namespace Drift

open Member Client

variable {P : Platform} {S : Type} (D : Drift S) {p q : Purpose} {m k : Nat} {s s' : S} {x : Session}

/-- The next line is read for `p`, and at most `m` lines are left. -/
def At (p : Purpose) (m : Nat) (s : S) : Prop := ∃ ls, ls.length ≤ m ∧ D.bad p ls s

/-- `r` may end in `Q` or leave in `E`, or get to the goal. -/
abbrev MayEnd {α : Type} (r : Member α) (Q : α → S → Prop) (E : Exit → S → Prop) (x : Session)
    (s : S) : Prop :=
  r.May D.rely D.goal (fun a _ => Q a) (fun e _ => E e) x s

/-- The operation returns 0 to the menu. -/
abbrev Returns (m : Nat) (r : Member Int) (x : Session) (s : S) : Prop :=
  D.MayEnd r (fun n s => n = 0 ∧ D.At .choice m s) (fun e s => e = .returned 0 ∧ D.At .choice m s) x s

variable {D}

theorem At.mono (h : D.At p m s) (hle : m ≤ k) : D.At p k s := by
  obtain ⟨ls, hlen, hbad⟩ := h
  exact ⟨ls, by omega, hbad⟩

/-- A call off the console, with an answer that the host may give. -/
theorem At.answer {o : Sys.Op} {Q : Sys.Ans o → Session → S → Prop} {E : Exit → Session → S → Prop}
    (h : D.At p m s) (c : Choice) (ho : OffConsole o)
    (hk : ∀ s', D.At p m s' → Q ((D.host s).answer c o).1 x s') :
    (Routine.call o : Member (Sys.Ans o)).May D.rely D.goal Q E x s := by
  obtain ⟨ls, hlen, hbad⟩ := h
  obtain ⟨s', hstep, hbad'⟩ := D.answer p ls s o c ho hbad
  exact may_call hstep (hk s' ⟨ls, hlen, hbad'⟩)

/-- One read. -/
theorem At.read (h : D.At p (m + 1) s) (hp : p ≠ .ignored) :
    ∃ a s', D.rely s (.sys .getline) a s' ∧
      ((∃ line q, a = (some line, true) ∧ p.next line = some q ∧ D.At q m s') ∨
        (a.2 = false ∧ a.1.getD [] = [] ∧ p.atLogin = false ∧
          ∀ q n, q.atLogin = false → D.At q n s')) := by
  obtain ⟨ls, hlen, hbad⟩ := h
  cases ls with
  | nil =>
      obtain ⟨hlogin, a, s', hanswer, hstep, hall⟩ := D.atEnd p s hbad
      exact ⟨a, s', hstep, Or.inr ⟨hanswer.1, hanswer.2, hlogin,
        fun q n hq => ⟨[], Nat.zero_le n, hall q hq⟩⟩⟩
  | cons line ls =>
      obtain ⟨q, s', hq, hstep, hbad'⟩ := D.getline p line ls s hp hbad
      exact ⟨_, s', hstep, Or.inl ⟨line, q, rfl, hq, ls, Nat.le_of_succ_le_succ hlen, hbad'⟩⟩

theorem At.ignored (h : D.At .ignored m s) :
    ∃ s', D.rely s (.sys .clearAndIgnore) () s' ∧ (D.goal s' ∨ D.At .choice m s') := by
  obtain ⟨ls, hlen, hbad⟩ := h
  obtain ⟨s', hstep, hend⟩ := D.ignore ls s hbad
  refine ⟨s', hstep, hend.imp_right fun hbad' => ⟨ls.drop 1, ?_, hbad'⟩⟩
  rw [List.length_drop]
  omega

/-- A refusal swallows a line. -/
theorem may_refuse {α : Type} {r : Member α} {Q : α → S → Prop} {E : Exit → S → Prop}
    (h : D.At .ignored m s) (hr : ∀ s', D.At .choice m s' → D.MayEnd r Q E x s') :
    D.MayEnd (do
      print .invalidInput
      clearAndIgnore
      r) Q E x s := by
  refine May.bind (h.answer (o := .sys (.print .invalidInput)) .calm trivial fun s₁ h₁ => ?_)
  obtain ⟨s₂, hstep, hend⟩ := h₁.ignored
  refine May.bind (may_call (I := Sys) (o := .sys .clearAndIgnore) hstep ?_)
  rcases hend with hgoal | h₂
  · exact .of_goal hgoal
  · exact hr s₂ h₂

theorem may_readFileName (h : D.At p m s) (hp : p ≠ .ignored)
    (hnext : ∀ line, p.next line = some (if nameInvalid true line then .ignored else q)) :
    D.MayEnd readFileName (fun _ => D.At q m) (fun e s => e = .returned 0 ∧ D.At .choice m s) x s := by
  obtain ⟨a, s', hstep, hread⟩ := (h.mono (Nat.le_succ m)).read hp
  have hrefuse : D.At .ignored m s' → D.MayEnd (do
      print .invalidInput
      clearAndIgnore
      Routine.throw (.returned 0) : Member Buffer) (fun _ => D.At q m)
      (fun e s => e = .returned 0 ∧ D.At .choice m s) x s' := fun h' =>
    may_refuse h' fun s'' h'' => may_throw ⟨rfl, h''⟩
  refine May.bind (may_call (I := Sys) (o := .sys .getline) hstep ?_)
  rcases hread with ⟨line, q', rfl, hq, hat⟩ | ⟨hbad, hline, hlogin, hall⟩
  · obtain rfl := Option.some.inj (hq.symm.trans (hnext line))
    dsimp only [Option.getD_some]
    split
    · rename_i hinvalid
      rw [if_pos hinvalid] at hat
      exact hrefuse hat
    · rename_i hvalid
      rw [if_neg hvalid] at hat
      exact may_pure hat
  · obtain ⟨line, good⟩ := a
    dsimp only at hbad hline ⊢
    rw [hbad, hline, if_pos (by rfl)]
    exact hrefuse (hall _ _ rfl)

/-- A send of a packet that is not even built. -/
theorem may_sendPacket {payload : Buffer} {Q : Unit → Session → S → Prop} (h : D.At p m s) :
    (sendPacket P payload).May D.rely D.goal Q (fun e _ s => e = .returned 0 ∧ D.At p m s) x s := by
  refine May.bind (may_get (May.bind (May.bind ?_)))
  refine h.answer (o := .sys (.random Wrapper.ivLength)) .fail trivial fun s₁ h₁ => ?_
  refine may_pure (May.bind (h₁.answer (o := .send []) .fail trivial fun s₂ h₂ => ?_))
  exact May.bind (may_throw ⟨rfl, h₂⟩)

/-- An operation that begins with a packet. -/
theorem returns_request {packet : Buffer} {f : Unit → Member Int} (h : D.At .choice m s) :
    D.Returns m (sendPacket P packet >>= f) x s := May.bind (may_sendPacket h)

theorem returns_downloadFile (h : D.At .name m s) : D.Returns m (downloadFile P) x s := by
  refine May.bind ((may_readFileName h (by simp) fun _ => rfl).imp (fun name x' s' h' => ?_)
    fun _ _ _ he => he)
  exact returns_request h'

theorem returns_renameFile (h : D.At .oldName m s) : D.Returns m (renameFile P) x s := by
  refine May.bind ((may_readFileName h (by simp) fun _ => rfl).imp (fun name x' s' h' => ?_)
    fun _ _ _ he => he)
  refine May.bind ((may_readFileName h' (by simp) fun _ => rfl).imp (fun name x' s' h' => ?_)
    fun _ _ _ he => he)
  exact returns_request h'

theorem returns_deleteFile (h : D.At .name m s) : D.Returns m (deleteFile P) x s := by
  refine May.bind ((may_readFileName h (by simp) fun _ => rfl).imp (fun name x' s' h' => ?_)
    fun _ _ _ he => he)
  exact returns_request h'

/-- An upload of a file that cannot be examined. -/
theorem returns_uploadFrom (path : Buffer) (h : D.At .choice m s) :
    D.Returns m (uploadFrom P path) x s := by
  refine May.bind (h.answer (o := .sys (.garbage .fileSize)) .calm trivial fun s₁ h₁ => ?_)
  refine May.bind (May.bind (May.catchExit (May.bind (May.bind ?_))))
  refine h₁.answer (o := .sys (.file (.stat path))) .fail trivial fun s₂ h₂ => ?_
  exact may_throw (may_pure (may_pure (may_pure ⟨rfl, h₂⟩)))

theorem returns_uploadFile (h : D.At .path m s) : D.Returns m (uploadFile P) x s := by
  rw [uploadFile_eq]
  obtain ⟨a, s', hstep, hread⟩ := (h.mono (Nat.le_succ m)).read (by simp)
  refine May.bind (may_call (I := Sys) (o := .sys .getline) hstep ?_)
  obtain ⟨line, good⟩ := a
  rcases hread with ⟨line, q', heq, hq, hat⟩ | ⟨hbad, hline, hlogin, hall⟩
  · cases heq
    obtain rfl := Option.some.inj hq
    dsimp only [Option.getD_some]
    cases hempty : line.isEmpty with
    | true =>
        rw [hempty] at hat
        exact may_refuse hat fun s'' h'' => returns_uploadFrom line h''
    | false =>
        rw [hempty] at hat
        exact returns_uploadFrom line hat
  · dsimp only at hbad hline ⊢
    rw [hbad, hline]
    exact may_refuse (hall _ _ rfl) fun s'' h'' => returns_uploadFrom [] h''

theorem may_handleMenuChoice {choice : Buffer} (h : D.At q m s)
    (hq : Purpose.choice.next choice = some q) :
    D.MayEnd (handleMenuChoice P choice) (fun n s => n ≠ -1 ∧ D.At .choice m s) (fun _ _ => False)
      x s := by
  have hreturning : ∀ {r : Member Int}, D.Returns m r x s →
      D.MayEnd (returning r) (fun n s => n ≠ -1 ∧ D.At .choice m s) (fun _ _ => False) x s := by
    intro r hr
    refine May.catchExit (hr.imp (fun n _ _ hn => ⟨by simp [hn.1], hn.2⟩) fun e x' s' he => ?_)
    rw [he.1]
    exact may_pure ⟨by decide, he.2⟩
  unfold handleMenuChoice
  split
  · rename_i heq
    obtain rfl : Purpose.choice = q := by simpa [Purpose.next, heq] using hq
    exact may_pure ⟨by decide, h⟩
  · rename_i heq
    obtain rfl : Purpose.path = q := by simpa [Purpose.next, heq] using hq
    exact hreturning (returns_uploadFile h)
  · rename_i heq
    obtain rfl : Purpose.name = q := by simpa [Purpose.next, heq] using hq
    exact hreturning (returns_downloadFile h)
  · rename_i heq
    obtain rfl : Purpose.choice = q := by simpa [Purpose.next, heq] using hq
    exact hreturning (returns_request h)
  · rename_i heq
    obtain rfl : Purpose.oldName = q := by simpa [Purpose.next, heq] using hq
    exact hreturning (returns_renameFile h)
  · rename_i heq
    obtain rfl : Purpose.name = q := by simpa [Purpose.next, heq] using hq
    exact hreturning (returns_deleteFile h)
  · rename_i heq
    simp [Purpose.next, heq] at hq
  · obtain rfl : Purpose.choice = q := by simp_all [Purpose.next]
    exact may_pure ⟨by decide, h⟩

/-- The loop, by induction on its bound: no choice is the logout, and the input runs out. -/
theorem may_menuLoop (n : Nat) (choice : Buffer) (h : D.At .choice n s)
    (hchoice : Purpose.choice.next choice ≠ none) :
    D.MayEnd (menuLoop P n choice) (fun _ _ => False) (fun e s => e = .unfinished ∧ D.At .choice 0 s)
      x s := by
  induction n generalizing choice x s with
  | zero => exact may_throw ⟨rfl, h⟩
  | succ n ih =>
      obtain ⟨a, s', hstep, hread⟩ := h.read (by simp)
      refine May.bind (may_call (I := Sys) (o := .sys .getline) hstep ?_)
      obtain ⟨line, good⟩ := a
      have htaken : ∃ q, Purpose.choice.next (line.getD choice) = some q ∧ D.At q n s' := by
        rcases hread with ⟨line', q, heq, hq, hat⟩ | ⟨-, hline, -, hall⟩
        · cases heq
          exact ⟨q, hq, hat⟩
        · have hnext : Purpose.choice.next (line.getD choice) ≠ none := by
            cases line with
            | none => exact hchoice
            | some line =>
                obtain rfl : line = [] := hline
                simp [Purpose.next_choice_nil]
          obtain ⟨q, hq⟩ := Option.ne_none_iff_exists'.1 hnext
          exact ⟨q, hq, hall q n (Purpose.atLogin_of_choice hq)⟩
      obtain ⟨q, hq, hat⟩ := htaken
      refine May.bind ((may_handleMenuChoice hat hq).imp (fun result x' s'' hr => ?_)
        fun _ _ _ h => h.elim)
      have hlogout : ¬(result ≠ -2 ∧ stoi (line.getD choice) = some logoutOption) := by
        rintro ⟨-, heq⟩
        simp [Purpose.next, heq, logoutOption] at hq
      dsimp only
      rw [if_neg hr.1, if_neg hlogout]
      exact ih _ hr.2 (by simp [hq])

/-! ### The login -/

/-- A step of the login that does not fail. -/
abbrev Passes {α : Type} (p : Purpose) (m : Nat) (r : Member α) (x : Session) (s : S) : Prop :=
  D.MayEnd r (fun _ => D.At p m) (fun _ _ => False) x s

/-- The server answers with a block that says it knows the user. -/
def welcome : Choice := { Choice.grant with bytes := [1] }

theorem may_readField {limit : Nat} (h : D.At p m s) (hp : p.atLogin = true)
    (hnext : ∀ line, p.next line = if Purpose.fieldInvalid limit line then none else some q) :
    D.Passes q m (readField limit) x s := by
  have hignored : p ≠ .ignored := by
    rintro rfl
    cases hp
  obtain ⟨a, s', hstep, hread⟩ := (h.mono (Nat.le_succ m)).read hignored
  refine May.bind (may_call (I := Sys) (o := .sys .getline) hstep ?_)
  rcases hread with ⟨line, q', rfl, hq, hat⟩ | ⟨-, -, hlogin, -⟩
  · rw [hnext line] at hq
    split_ifs at hq with hvalid
    obtain rfl := Option.some.inj hq
    refine May.bind (may_require (may_pure hat) ?_)
    simp only [Purpose.fieldInvalid, Bool.or_eq_true, not_or, Bool.not_eq_true,
      decide_eq_true_eq, not_lt] at hvalid
    simp [hvalid.1, hvalid.2]
  · rw [hp] at hlogin
    cases hlogin

theorem may_sent {data : Buffer} {Q : Unit → Session → S → Prop} {E : Exit → Session → S → Prop}
    (h : D.At p m s) (hk : ∀ s', D.At p m s' → Q () x s') :
    (sent (sendData data)).May D.rely D.goal Q E x s := by
  refine May.bind (h.answer (o := .send data) .grant trivial fun s₁ h₁ => ?_)
  exact may_require (hk s₁ h₁) rfl

theorem may_sendUsername (h : D.At .username m s) : D.Passes .password m (sendUsername P) x s := by
  refine May.bind ((may_readField h rfl fun _ => rfl).imp (fun username x₁ s₁ h₁ => ?_)
    fun _ _ _ he => he)
  refine May.bind (may_modify (May.bind (may_sent h₁ fun s₂ h₂ => ?_)))
  refine May.bind (may_sent h₂ fun s₃ h₃ => May.bind (May.bind (May.bind ?_)))
  refine h₃.answer (o := .recv Login.sizeLength) welcome trivial fun s₄ h₄ => ?_
  refine may_pure (may_pure (may_require h₄ ?_))
  cases P.order with
  | little => decide
  | big => decide

theorem may_sendClientKey (h : D.At p m s) : D.Passes p m (sendClientKey P) x s := by
  refine May.bind (May.bind (h.answer (o := .sys (.crypto .ecdhKeyGeneration)) .grant trivial
    fun s₁ h₁ => may_pure (May.bind (May.bind ?_))))
  refine h₁.answer (o := .sys (.crypto (.serializePubKey 0))) .grant trivial fun s₂ h₂ => ?_
  refine may_pure (May.bind (may_sent h₂ fun s₃ h₃ => May.bind (may_sent h₃ fun s₄ h₄ => ?_)))
  exact may_pure h₄

theorem may_receiveM3 (h : D.At p m s) : D.Passes p m (receiveM3 P) x s := by
  refine May.bind (May.bind (h.answer (o := .recv Login.lengthM3) .grant trivial fun s₁ h₁ => ?_))
  refine may_pure (May.bind (May.bind ?_))
  refine h₁.answer (o := .sys .overrun) .grant trivial fun s₂ h₂ => May.bind ?_
  refine h₂.answer (o := .sys .overrun) .grant trivial fun s₃ h₃ => may_pure (May.bind (May.bind ?_))
  refine h₃.answer (o := .sys (.crypto (.readCertificate _))) .grant trivial fun s₄ h₄ => ?_
  refine may_pure (May.bind ?_)
  refine h₄.answer (o := .sys (.crypto (.verifyServerCertificate _))) .grant trivial fun s₅ h₅ => ?_
  refine May.bind (may_require (May.bind (may_require (may_pure h₅) ?_)) rfl)
  -- the block is all zeros, and so is the length of the key in it
  have hfield : Login.sizeLength ≤ Login.lengthM3 - Login.maxEphemeralPublicKeySize := by decide
  have hzero : ((fit Login.lengthM3 []).drop Login.maxEphemeralPublicKeySize).take Login.sizeLength =
      List.replicate Login.sizeLength 0 := by
    simp only [fit, List.take_nil, List.length_nil, Nat.sub_zero, List.nil_append, List.drop_replicate,
      List.take_replicate, Nat.min_eq_left hfield]
  have hsize : M3.ofSizeField P.order (List.replicate Login.sizeLength 0) = 0 := by
    cases P.order with
    | little => decide
    | big => decide
  rw [decide_eq_true_eq, length_fit]
  show M3.ofSizeField P.order (((fit Login.lengthM3 []).drop _).take _) ≤ _
  rw [hzero, hsize]
  exact Nat.zero_le _

theorem may_deriveKey (clientKey : Pkey) (sServerKey : Buffer) (h : D.At p m s) :
    D.Passes p m (deriveKey clientKey sServerKey) x s := by
  refine May.bind (May.bind (h.answer (o := .sys (.crypto (.deserializePublicKey sServerKey))) .grant
    trivial fun s₁ h₁ => may_pure (May.bind ?_)))
  refine h₁.answer (o := .sys (.crypto (.deriveSharedSecret clientKey 0))) .grant trivial
    fun s₂ h₂ => May.bind (may_require (May.bind (May.bind ?_)) rfl)
  refine h₂.answer (o := .sys (.crypto (.computeSHA256Digest _))) .grant trivial fun s₃ h₃ => ?_
  refine may_pure (May.bind (may_modify ?_))
  exact h₃.answer (o := .sys (.note _)) .grant trivial fun s₄ h₄ => h₄

theorem may_checkM3 (received : M3) (serverPublicKey : Pkey) (concatenatedKeys : Buffer)
    (h : D.At p m s) : D.Passes p m (checkM3 received serverPublicKey concatenatedKeys) x s := by
  refine May.bind (may_get (May.bind (May.bind ?_)))
  refine h.answer (o := .sys (.crypto (.decryptTextAES _ _ _))) .grant trivial fun s₁ h₁ => ?_
  refine may_pure (May.bind ?_)
  refine h₁.answer (o := .sys (.crypto (.verifyDigitalSignature _ _ _))) .grant trivial
    fun s₂ h₂ => ?_
  exact may_require h₂ rfl

theorem may_sendM4 (privateKey : Pkey) (concatenatedKeys : Buffer) (h : D.At p m s) :
    D.Passes p m (sendM4 privateKey concatenatedKeys) x s := by
  refine May.bind (May.bind ?_)
  refine h.answer (o := .sys (.crypto (.generateDigitalSignature _ _))) .grant trivial fun s₁ h₁ => ?_
  refine may_pure (May.bind (may_get (May.bind (May.bind ?_))))
  refine h₁.answer (o := .sys (.crypto (.encryptTextAES _ _))) .grant trivial fun s₂ h₂ => ?_
  refine may_pure (May.bind (May.bind ?_))
  refine h₂.answer (o := .sys .overrun) .grant trivial fun s₃ h₃ => may_pure ?_
  exact may_sent h₃ fun s₄ h₄ => h₄

theorem may_login (h : D.At .username m s) :
    D.MayEnd (login P) (fun n s => n = 1 ∧ D.At .choice m s) (fun _ _ => False) x s := by
  refine May.bind ((may_sendUsername h).imp (fun _ x₁ s₁ h₁ => ?_) fun _ _ _ he => he)
  refine May.bind ((may_readField h₁ rfl fun _ => rfl).imp (fun password x₂ s₂ h₂ => ?_)
    fun _ _ _ he => he)
  refine May.bind (may_get (May.bind (May.bind ?_)))
  refine h₂.answer (o := .sys (.crypto (.loadPrivateKey _ _))) .grant trivial fun s₃ h₃ => ?_
  refine may_pure (May.bind ((may_sendClientKey h₃).imp (fun keys x₄ s₄ h₄ => ?_) fun _ _ _ he => he))
  refine May.bind ((may_receiveM3 h₄).imp (fun received x₅ s₅ h₅ => ?_) fun _ _ _ he => he)
  refine May.bind ((may_deriveKey _ _ h₅).imp (fun _ x₆ s₆ h₆ => ?_) fun _ _ _ he => he)
  refine May.bind ((may_checkM3 _ _ _ h₆).imp (fun _ x₇ s₇ h₇ => ?_) fun _ _ _ he => he)
  exact May.bind ((may_sendM4 _ _ h₇).imp (fun _ x₈ s₈ h₈ => may_pure ⟨rfl, h₈⟩) fun _ _ _ he => he)

/-- **A session that does not follow its input**: with this server it meets every bound on its choices
    that lets it read all lines. -/
theorem may_start (n : Nat) (h : D.At .username n s) :
    D.MayEnd (start P n) (fun _ _ => False) (fun e s => e = .unfinished ∧ D.At .choice 0 s) x s := by
  refine May.bind (May.catchExit ((may_login h).imp (fun loggedIn x' s' hl => ?_) fun _ _ _ he => he.elim))
  obtain ⟨rfl, h'⟩ := hl
  exact may_menuLoop n [] h' (by simp [Purpose.next_choice_nil])

end Drift

end CloudStorage
