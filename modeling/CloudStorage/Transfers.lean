import CloudStorage.AesCcm
import CloudStorage.Streams

set_option autoImplicit false

/-! # Receiving a file

`Worker::upload_file` and `Client::download_file` receive a file by the same loop. A chunk that does
not arrive or does not open is skipped without counting it, so what keeps the two from reporting a
file with a hole is the flag `error_occured`. `Receiving` relates the flag, the counter, the frames
accepted and the bytes written; one chunk moves it from one total to the next, and the loop follows by
induction. This is on a host that writes through. The last section puts the streams in between: a success
is still reported before the stream is closed, and what it then fails to write is missing from the file. -/

namespace CloudStorage

open Interaction Interaction.Routine

/-- The data of accepted chunk frames. -/
def chunkData (chunks : List (Int × Buffer × Buffer)) : Buffer :=
  chunks.flatMap fun e => (ChunkM2.deserialize e.2.1).fileChunk

/-- Frames accepted with the counters `r`, `r + 1` and so on. -/
def Consecutive (r : Int) (chunks : List (Int × Buffer × Buffer)) : Prop :=
  chunks.map (·.1) = (List.range chunks.length).map fun i => r + (i : Int)

theorem Consecutive.append {r : Int} {chunks : List (Int × Buffer × Buffer)} {p w : Buffer}
    (h : Consecutive r chunks) : Consecutive r (chunks ++ [(r + chunks.length, p, w)]) := by
  unfold Consecutive at *
  simp [h, List.range_succ]

/-- What either side does with a chunk: it writes it, but drops it after an error if it `skips`. -/
def writeUnless (skips : Bool) (file : File) (errorOccured : Bool) (chunk : Buffer) : Member Unit :=
  if skips && errorOccured then pure () else file.writeChunk chunk

theorem worker_writeChunk (file : File) : Worker.writeChunk file = writeUnless false file := rfl

theorem client_writeChunk (file : File) : Client.writeChunk file = writeUnless true file := by
  funext errorOccured chunk
  simp [Client.writeChunk, writeUnless]

/-- The reception of a file that was opened at `p` in `start`, by an object in the state `x₀`: the
    frames `chunks` were accepted from its counter on, and the data of `written` is in the file.
    Without an error the two are the same and hold `total` bytes. -/
structure Receiving (start : Host) (x₀ : Session) (skips : Bool) (file : File) (p : Path) (total : Nat)
    (errorOccured : Bool) (chunks written : List (Int × Buffer × Buffer)) (x : Session)
    (h : Host) : Prop where
  printed : h.printed = start.printed
  sealed : h.sealed = start.sealed
  accepted : h.accepted = start.accepted ++ chunks
  consecutive : Consecutive x₀.rCounter chunks
  rCounter : x.rCounter = x₀.rCounter + chunks.length
  sCounter : x.sCounter = x₀.sCounter
  written_prefix : written <+: chunks
  written_all : (skips && errorOccured) = false → written = chunks
  complete : errorOccured = false → (chunkData chunks).length = total
  opened : ∃ handle, file.output = .opened handle ∧ h.fs.OpenAt handle p (chunkData written)
  dirs : Fs.DirsKept start.fs h.fs
  kept : Fs.KeptBut p start.fs h.fs

/-- What a reception that ended leaves behind: the file at `p` holds the data of some of the first
    accepted frames, and nothing else changed. Only one that `skips` lacks more than the last. -/
structure Stopped (start : Host) (skips : Bool) (p : Path)
    (chunks written : List (Int × Buffer × Buffer)) (h : Host) : Prop where
  printed : h.printed = start.printed
  sealed : h.sealed = start.sealed
  accepted : h.accepted = start.accepted ++ chunks
  written_prefix : written <+: chunks
  missing : skips = false → chunks.length ≤ written.length + 1
  contents : h.fs.contents p = some (chunkData written)
  dirs : Fs.DirsKept start.fs h.fs
  kept : Fs.KeptBut p start.fs h.fs

section

variable {P : Platform} {start h h' : Host} {x₀ : Session} {skips e : Bool} {file : File}
  {p : Path} {total m : Nat} {chunks written : List (Int × Buffer × Buffer)} {x : Session}
  {payload : Buffer}

theorem chunkData_append (c : Int) (q w : Buffer) :
    chunkData (chunks ++ [(c, q, w)]) = chunkData chunks ++ (ChunkM2.deserialize q).fileChunk := by
  simp [chunkData]

theorem Receiving.stopped (rec : Receiving start x₀ skips file p total e chunks written x h) :
    Stopped start skips p chunks written h := by
  obtain ⟨handle, -, hopen⟩ := rec.opened
  refine ⟨rec.printed, rec.sealed, rec.accepted, rec.written_prefix, fun hs => ?_, hopen.contents, rec.dirs,
    rec.kept⟩
  rw [rec.written_all (by rw [hs]; rfl)]
  omega

/-- A frame accepted and not written. -/
theorem Receiving.stopped_received (rec : Receiving start x₀ skips file p total e chunks written x h)
    (hp : Received x h (1 + m) payload h') :
    ∃ chunks written, Stopped start skips p chunks written h' := by
  obtain ⟨handle, -, hopen⟩ := rec.opened
  obtain ⟨hunsaid, -, w, hacc⟩ := hp
  refine ⟨chunks ++ [(x.rCounter, payload, w)], written, hunsaid.printed.trans rec.printed,
    hunsaid.sealed.trans rec.sealed, ?_, ?_, fun hs => ?_, ?_, hunsaid.fs ▸ rec.dirs, hunsaid.fs ▸ rec.kept⟩
  · rw [hacc, rec.accepted, List.append_assoc]
  · exact rec.written_prefix.trans (List.prefix_append ..)
  · rw [rec.written_all (by rw [hs]; rfl), List.length_append, List.length_singleton]
  · rw [hunsaid.fs]
    exact hopen.contents

theorem Receiving.notReceived (rec : Receiving start x₀ skips file p total e chunks written x h)
    (hp : NotReceived x h (1 + m) h') : ∃ chunks written, Stopped start skips p chunks written h' := by
  rcases hp with rfl | ⟨payload, hp⟩
  · exact ⟨_, _, rec.stopped⟩
  · exact rec.stopped_received hp

/-- A frame that was not accepted sets the flag. -/
theorem Receiving.skip (rec : Receiving start x₀ skips file p total e chunks written x h) (n : Nat) :
    Receiving start x₀ skips file p n true chunks written x h where
  printed := rec.printed
  sealed := rec.sealed
  accepted := rec.accepted
  consecutive := rec.consecutive
  rCounter := rec.rCounter
  sCounter := rec.sCounter
  written_prefix := rec.written_prefix
  written_all := fun hs => rec.written_all (by cases skips <;> simp_all)
  complete := fun he => absurd he (by simp)
  opened := rec.opened
  dirs := rec.dirs
  kept := rec.kept

/-- An accepted frame of `m` bytes of data moves the reception on by `m`. -/
theorem leads_writeUnless (rec : Receiving start x₀ skips file p total e chunks written x h)
    (hp : Received x h (1 + m) payload h') :
    Leads (writeUnless skips file e (ChunkM2.deserialize payload).fileChunk)
      (fun _ x h => ∃ chunks written, Receiving start x₀ skips file p (total + m) e chunks written x h)
      (fun _ _ h => ∃ chunks written, Stopped start skips p chunks written h)
      { x with rCounter := x.rCounter + 1 } h' := by
  have hstopped := rec.stopped_received hp
  obtain ⟨handle, hfile, hopen⟩ := rec.opened
  obtain ⟨hunsaid, hlen, w, hacc⟩ := hp
  have hprinted := hunsaid.printed.trans rec.printed
  have hsealed := hunsaid.sealed.trans rec.sealed
  have haccepted : h'.accepted = start.accepted ++ (chunks ++ [(x₀.rCounter + chunks.length, payload, w)]) := by
    rw [hacc, rec.accepted, rec.rCounter, List.append_assoc]
  have hcounter : x.rCounter + 1 =
      x₀.rCounter + (chunks ++ [(x₀.rCounter + (chunks.length : Int), payload, w)]).length := by
    rw [rec.rCounter, List.length_append, List.length_singleton]
    push_cast
    omega
  have hchunk : (ChunkM2.deserialize payload).fileChunk.length = m := by
    simp only [ChunkM2.deserialize, List.length_drop, hlen]
    omega
  have hdirs : Fs.DirsKept start.fs h'.fs := hunsaid.fs ▸ rec.dirs
  have hkept : Fs.KeptBut p start.fs h'.fs := hunsaid.fs ▸ rec.kept
  rw [← hunsaid.fs] at hopen
  unfold writeUnless
  cases hdrop : skips && e with
  | true =>
      have he : e = true := by simp_all
      refine ⟨_, written, hprinted, hsealed, haccepted, rec.consecutive.append, hcounter,
        rec.sCounter, rec.written_prefix.trans (List.prefix_append ..), by simp [hdrop], by simp [he],
        ⟨handle, hfile, hopen⟩, hdirs, hkept⟩
  | false =>
      obtain rfl := rec.written_all hdrop
      obtain ⟨-, hopen', hdirs', hkept'⟩ :=
        Fs.write_openAt hopen (ChunkM2.deserialize payload).fileChunk
      refine leads_writeChunk hfile hopen ?_ fun _ => hstopped
      refine ⟨_, _, hprinted, hsealed, haccepted, rec.consecutive.append, hcounter,
        rec.sCounter, List.prefix_refl _, fun _ => rfl, fun he => ?_, ⟨handle, hfile, ?_⟩,
        hdirs.trans hdirs', hkept.trans hkept'⟩
      · rw [chunkData_append, List.length_append, rec.complete he, hchunk]
      · rw [chunkData_append]
        exact hopen'

/-- The loop over the full chunks, by induction on what is left of it. -/
theorem leads_receiveChunks (n : Nat)
    (rec : Receiving start x₀ skips file p total e chunks written x h) :
    Leads (Member.receiveChunks P (writeUnless skips file) n e)
      (fun e x h => ∃ chunks written, Receiving start x₀ skips file p
        (total + Max.maxFileChunk * n) e chunks written x h)
      (fun _ _ h => ∃ chunks written, Stopped start skips p chunks written h) x h := by
  induction n generalizing total e chunks written x h with
  | zero => exact ⟨chunks, written, rec⟩
  | succ n ih =>
      have htotal : total + Max.maxFileChunk * (n + 1) =
          total + Max.maxFileChunk + Max.maxFileChunk * n := by
        rw [Nat.mul_succ]
        omega
      have hsize : ChunkM2.getSize Max.maxFileChunk = 1 + Max.maxFileChunk :=
        ChunkM2.getSize_of_lt (by decide)
      unfold Leads Member.receiveChunks
      rw [sat_bind, hsize, htotal]
      refine leads_receivePacket (by decide) (ih (rec.skip _)) (fun payload h' hp => ?_)
        fun _ _ hp => rec.notReceived hp
      rw [sat_bind]
      refine (leads_writeUnless rec hp).imp (fun _ x' h'' hrec => ?_) fun _ _ _ => id
      obtain ⟨chunks', written', rec'⟩ := hrec
      exact ih rec'

/-- The rest of the file. -/
theorem leads_receiveLastChunk (hm : m < intMax)
    (rec : Receiving start x₀ skips file p total e chunks written x h) :
    Leads (Member.receiveLastChunk P (writeUnless skips file) e m)
      (fun _ x h => ∃ chunks written, Receiving start x₀ skips file p (total + m) e chunks written x h)
      (fun _ _ h => ∃ chunks written, Stopped start skips p chunks written h) x h := by
  unfold Leads Member.receiveLastChunk
  split_ifs with hzero
  · rw [sat_bind, ChunkM2.getSize_of_lt hm]
    exact leads_expectPacket (by unfold intMax at hm; omega) ⟨_, _, rec.stopped⟩
      (fun payload h' hp => leads_writeUnless rec hp) fun _ _ hp => rec.notReceived hp
  · obtain rfl : m = 0 := not_not.1 hzero
    exact ⟨chunks, written, rec⟩

end

/-! ## Uploads -/

/-- The file at `path` is made of the data of the frames `chunks`, accepted from the counter `r` on,
    `size` bytes in all. -/
def StoredExactly (fs : Fs) (path : Buffer) (r : Int) (size : Nat)
    (chunks : List (Int × Buffer × Buffer)) : Prop :=
  Consecutive r chunks ∧ (chunkData chunks).length = size ∧
    ∃ p, fs.resolve path = .ok p ∧ fs.contents p = some (chunkData chunks)

/-- Every name and every content is as it was. -/
def Unchanged (fs fs' : Fs) : Prop := ∀ q, fs'.node q = fs.node q ∧ fs'.contents q = fs.contents q

/-- There is a new file at `path`, which holds `data`, and everything else is as it was. -/
def NewFile (fs fs' : Fs) (path data : Buffer) : Prop :=
  ∃ p, fs.resolve path = .ok p ∧ fs'.resolve path = .ok p ∧ fs.node p = none ∧
    fs'.contents p = some data ∧ Fs.KeptBut p fs fs'

/-- How a transfer leaves the files: as they were in `fs`, or with one new file. That was given the data
    of the first frames accepted after those of `before`, of all of them or all but the last where nothing
    `skips`; it has all of it but what is `lost`. -/
def Settled (fs : Fs) (path : Buffer) (skips : Bool) (lost : Buffer) (before : List (Int × Buffer × Buffer))
    (h : Host) : Prop :=
  Unchanged fs h.fs ∨ ∃ chunks written data, h.accepted = before ++ chunks ∧ written <+: chunks ∧
    (skips = false → chunks.length ≤ written.length + 1) ∧ data ++ lost = chunkData written ∧
    NewFile fs h.fs path data

/-- A function that returns with all of a new file written. -/
def Complete (fs : Fs) (path : Buffer) (r : Int) (size : Nat) (before : List (Int × Buffer × Buffer))
    (result : Except Exit Int) (h : Host) : Prop :=
  ¬Escapes result ∧ ∃ chunks, h.accepted = before ++ chunks ∧ StoredExactly h.fs path r size chunks ∧
    NewFile fs h.fs path (chunkData chunks)

/-- `fs'` is `fs` with a file opened at `p`, where the path leads and where there was nothing. -/
structure Begun (path : Buffer) (p : Path) (fs fs' : Fs) : Prop where
  resolve : fs.resolve path = .ok p
  free : fs.node p = none
  dirs : Fs.DirsKept fs fs'
  kept : Fs.KeptBut p fs fs'

theorem Unchanged.refl (fs : Fs) : Unchanged fs fs := fun _ => ⟨rfl, rfl⟩

/-- An acknowledgement of an upload with this code was built under `counter`. -/
def UploadAcked (counter : Int) (code : UInt8) (h : Host) : Prop :=
  ∃ f, (counter, (UploadAck code).serialize, f) ∈ h.sealed

/-- The path that a request's name field leads to, given what lies behind the field. -/
def requestPath (x : Session) (field beyond : Buffer) : Buffer :=
  Worker.filePath x.username (cstr (field ++ beyond))

section

variable {P : Platform} {x x₀ : Session} {h start : Host} {file : File} {handle : Nat} {p : Path}
  {path : Buffer} {size : Nat}

/-- A file just opened, before the first chunk. -/
theorem receiving_opened {skips e : Bool}
    (hfile : file.output = .opened handle) (hopen : start.fs.OpenAt handle p []) :
    Receiving start x skips file p 0 e [] [] x start where
  printed := rfl
  sealed := rfl
  accepted := (List.append_nil _).symm
  consecutive := rfl
  rCounter := by simp
  sCounter := rfl
  written_prefix := List.prefix_refl _
  written_all := fun _ => rfl
  complete := fun _ => rfl
  opened := ⟨handle, hfile, hopen⟩
  dirs := .refl _
  kept := .refl _ _

theorem Stopped.newFile {skips : Bool} {fs : Fs} {chunks written : List (Int × Buffer × Buffer)}
    (hs : Stopped start skips p chunks written h) (hb : Begun path p fs start.fs) :
    NewFile fs h.fs path (chunkData written) :=
  ⟨p, hb.resolve, Fs.resolve_kept (hb.dirs.trans hs.dirs) hb.resolve, hb.free, hs.contents,
    hb.kept.trans hs.kept⟩

theorem Stopped.settled {skips : Bool} {fs : Fs} {chunks written : List (Int × Buffer × Buffer)}
    (hs : Stopped start skips p chunks written h) (hb : Begun path p fs start.fs) :
    Settled fs path skips [] start.accepted h :=
  Or.inr ⟨chunks, written, _, hs.accepted, hs.written_prefix, hs.missing, List.append_nil _, hs.newFile hb⟩

/-- A reception without an error, where all of the file was expected. -/
theorem Receiving.complete_of {skips : Bool} {fs : Fs} {chunks written : List (Int × Buffer × Buffer)}
    {result : Except Exit Int} (rec : Receiving start x₀ skips file p size false chunks written x h)
    (hb : Begun path p fs start.fs) (hreturns : ¬Escapes result) :
    Complete fs path x₀.rCounter size start.accepted result h := by
  obtain rfl : written = chunks := rec.written_all (Bool.and_false skips)
  obtain ⟨q, hr, hr', hfree, hcontents, hkept⟩ := rec.stopped.newFile hb
  exact ⟨hreturns, written, rec.accepted, ⟨rec.consecutive, rec.complete rfl, q, hr', hcontents⟩, q, hr, hr',
    hfree, hcontents, hkept⟩

/-- What a transfer has come to depends on the files and on the accepted frames. -/
theorem Settled.congr {skips : Bool} {lost : Buffer} {fs : Fs} {before : List (Int × Buffer × Buffer)}
    {h' : Host} (hs : Settled fs path skips lost before h) (hfs : h'.fs = h.fs)
    (hacc : h'.accepted = h.accepted) : Settled fs path skips lost before h' := by
  unfold Settled at hs ⊢
  rwa [hfs, hacc]

theorem Complete.congr {r : Int} {fs : Fs} {before : List (Int × Buffer × Buffer)}
    {result : Except Exit Int} {h' : Host} (hc : Complete fs path r size before result h) (hfs : h'.fs = h.fs)
    (hacc : h'.accepted = h.accepted) : Complete fs path r size before result h' := by
  unfold Complete at hc ⊢
  rwa [hfs, hacc]

/-- A file that was opened and was not there before. -/
theorem Opened.begun {h' : Host} (ho : Opened path h handle h')
    (hnot : h.fs.fileType path ≠ some .regular) :
    ∃ p, Begun path p h.fs h'.fs ∧ h'.fs.OpenAt handle p [] := by
  obtain ⟨fs', hfs, rfl⟩ := ho
  obtain ⟨p, hr, hopen, hdirs, hkept⟩ := Fs.openWrite_some hfs
  exact ⟨p, ⟨hr, Fs.openWrite_new hfs hnot hr, hdirs, hkept⟩, hopen⟩

/-- Opening a file leaves the logs as they are. -/
theorem Opened.logs {h' : Host} (ho : Opened path h handle h') :
    h'.accepted = h.accepted ∧ h'.sealed = h.sealed ∧ h'.printed = h.printed := by
  obtain ⟨fs', -, rfl⟩ := ho
  exact ⟨rfl, rfl, rfl⟩

end

/-! ### The worker -/

/-- How an upload ends: its last acknowledgement says that the file is complete only if it is. -/
def Uploaded (counter r : Int) (fs : Fs) (path : Buffer) (size : Nat)
    (before : List (Int × Buffer × Buffer)) (result : Except Exit Int) (h : Host) : Prop :=
  Settled fs path false [] before h ∧
    (UploadAcked counter 1 h → Complete fs path r size before result h)

section

variable {P : Platform} {x : Session} {h : Host} {path : Buffer} {size : Nat}

theorem not_uploadAcked {counter : Int} {code : UInt8} (hs : ∀ e ∈ h.sealed, e.1 ≠ counter) :
    ¬UploadAcked counter code h := by
  rintro ⟨f, hf⟩
  exact hs _ hf rfl

theorem uploadAck_zero_ne_one : (UploadAck 0).serialize ≠ (UploadAck 1).serialize := by decide

/-- The upload from the creation of the file on. Only its last packet can be a success. -/
theorem Worker.leads_receiveFile (hsize : size < 4294967296)
    (hsealed : ∀ e ∈ h.sealed, e.1 ≠ x.sCounter) :
    Leads (Worker.receiveFile P path size)
      (fun n _ => Uploaded x.sCounter x.rCounter h.fs path size h.accepted (.ok n))
      (fun e _ => Uploaded x.sCounter x.rCounter h.fs path size h.accepted (.error e)) x h := by
  unfold Leads Worker.receiveFile
  rw [sat_bind]
  refine leads_create (fun _ _ => ?_) fun file handle start hnot hfile ho => ?_
  · exact ⟨Or.inl (.refl _), fun hacked => absurd hacked (not_uploadAcked hsealed)⟩
  obtain ⟨p, hbegun, hopen⟩ := ho.begun hnot
  obtain ⟨hacc, hseal, -⟩ := ho.logs
  have hstopped : ∀ result (h' : Host), (∃ chunks written, Stopped start false p chunks written h') →
      Uploaded x.sCounter x.rCounter h.fs path size h.accepted result h' := fun result h' ⟨_, _, hs⟩ =>
    ⟨hacc ▸ hs.settled hbegun, fun hacked =>
      absurd hacked (not_uploadAcked (by rw [hs.sealed, hseal]; exact hsealed))⟩
  have hopened : Receiving start x false file p 0 false [] [] x start := receiving_opened hfile hopen
  dsimp only
  rw [worker_writeChunk, sat_bind]
  refine (leads_receiveChunks _ hopened).imp (fun e x₁ h₁ hrec => ?_) fun _ _ h' => hstopped _ h'
  obtain ⟨chunks₁, written₁, rec₁⟩ := hrec
  rw [Nat.zero_add] at rec₁
  rw [sat_bind]
  refine (leads_receiveLastChunk (lastChunkSize_lt size) rec₁).imp (fun _ x₂ h₂ hrec => ?_)
    fun _ _ h' => hstopped _ h'
  obtain ⟨chunks₂, written₂, rec₂⟩ := hrec
  rw [numFileChunks_add hsize] at rec₂
  have hsent : ∀ (result : Except Exit Int) h', ¬Escapes result →
      Sent x₂ h₂ (UploadAck (if e then 0 else 1)).serialize h' →
      Uploaded x.sCounter x.rCounter h.fs path size h.accepted result h' := by
    intro result h' hreturns hsent
    refine ⟨(hstopped result h₂ ⟨_, _, rec₂.stopped⟩).1.congr hsent.fs hsent.accepted, ?_⟩
    rintro ⟨f, hf⟩
    rcases hsent.sealed _ hf with hold | ⟨-, hpayload⟩
    · rw [rec₂.sealed, hseal] at hold
      exact absurd rfl (hsealed _ hold)
    · obtain rfl : e = false := by
        by_contra he
        rw [if_pos (by simpa using he)] at hpayload
        exact uploadAck_zero_ne_one hpayload.symm
      exact (hacc ▸ rec₂.complete_of hbegun hreturns : Complete _ _ _ _ h.accepted _ _).congr hsent.fs
        hsent.accepted
  rw [sat_bind]
  exact leads_sendPacket (fun h' => hsent _ h' (not_escapes_ok 1))
    fun n _ h' => hsent _ h' (not_escapes_returned n)

/-- The whole upload, from a host with empty logs. -/
theorem Worker.leads_uploadFile (payload : Buffer) (hnone : h.accepted = []) (hsealed : h.sealed = []) :
    let m1 := UploadM1.deserialize P.order payload
    Leads (Worker.uploadFile P payload)
      (fun n _ h' => ∃ beyond, Uploaded (x.sCounter + 1) x.rCounter h.fs
        (requestPath x m1.fileName.bytes beyond) m1.fileSize [] (.ok n) h')
      (fun e _ h' => ∃ beyond, Uploaded (x.sCounter + 1) x.rCounter h.fs
        (requestPath x m1.fileName.bytes beyond) m1.fileSize [] (.error e) h') x h := by
  intro m1
  have hsize : m1.fileSize < 4294967296 := ofBe32_lt _
  have hquiet : ∀ (result : Except Exit Int) (h' : Host), h'.fs = h.fs →
      (∀ e ∈ h'.sealed, e.1 ≠ x.sCounter + 1) → ∃ beyond, Uploaded (x.sCounter + 1) x.rCounter h.fs
        (requestPath x m1.fileName.bytes beyond) m1.fileSize [] result h' := fun result h' hfs hs =>
    ⟨[], Or.inl (hfs ▸ .refl _), fun hacked => absurd hacked (not_uploadAcked hs)⟩
  unfold Leads Worker.uploadFile
  dsimp only
  rw [sat_bind]
  refine leads_readName fun beyond => ?_
  simp only [sat_bind, sat_get]
  refine leads_exists (fun found hfound => ?_) (hquiet _ h rfl (by simp [hsealed]))
  have hbefore : ∀ h', Sent x h (UploadAck (if found then 0 else 1)).serialize h' →
      ∀ e ∈ h'.sealed, e.1 ≠ x.sCounter + 1 := fun h' hs e he => by
    rcases hs.sealed e he with hold | ⟨hc, -⟩
    · simp [hsealed] at hold
    · omega
  refine leads_sendPacket (fun h' hs => ?_) fun _ _ h' hs => hquiet _ h' hs.fs (hbefore h' hs)
  have hrest := @Worker.leads_receiveFile P { x with sCounter := x.sCounter + 1 } h'
    (requestPath x m1.fileName.bytes beyond) m1.fileSize hsize (hbefore h' hs)
  rw [hs.accepted, hs.fs, hnone] at hrest
  exact hrest.imp (fun _ _ _ hq => ⟨beyond, hq⟩) fun _ _ _ hq => ⟨beyond, hq⟩

end

/-! ### The client -/

/-- The name that the next line of the console holds. -/
def typedName (h : Host) : Buffer := h.console.getline.1.1.getD []

/-- Where a download is stored. -/
def downloadPath (fileName : Buffer) : Buffer := Client.downloadsPath ++ 47 :: fileName

/-- The downloads folder was made, or was not. -/
def Prepared (fs fs' : Fs) : Prop := fs' = fs ∨ fs' = (fs.createDirectory Client.downloadsPath).2

/-- How a download ends, the downloads folder aside. A report of success is made only of a complete file:
    the first accepted frame announced its size, the others are its chunks. -/
def Fetched (P : Platform) (r : Int) (fs : Fs) (path : Buffer) (result : Except Exit Int) (h : Host) : Prop :=
  ∃ before fs', Prepared fs fs' ∧ Settled fs' path true [] before h ∧
    (.downloadedCorrectly ∈ h.printed → ∃ ack, before = [ack] ∧ ack.1 = r ∧
      Complete fs' path (r + 1) (SizedAck.deserialize P.order ack.2.1).size before result h)

section

variable {P : Platform} {x : Session} {h : Host} {path : Buffer} {size n m : Nat}
  {file : File} {E : Exit → Session → Host → Prop}

/-- After a failed creation the loop stores nothing. -/
theorem leads_receiveChunks_dropped :
    Leads (Member.receiveChunks P (writeUnless true file) n true)
      (fun e _ h' => e = true ∧ h.Unsaid h') (fun _ _ h' => h.Unsaid h') x h := by
  suffices hgen : ∀ x h₁, h.Unsaid h₁ → Leads (Member.receiveChunks P (writeUnless true file) n true)
      (fun e _ h' => e = true ∧ h.Unsaid h') (fun _ _ h' => h.Unsaid h') x h₁ from hgen x h (.refl h)
  induction n with
  | zero => exact fun x h₁ hu => ⟨rfl, hu⟩
  | succ n ih =>
      intro x h₁ hu
      unfold Leads Member.receiveChunks
      rw [sat_bind, show ChunkM2.getSize Max.maxFileChunk = 1 + Max.maxFileChunk from
        ChunkM2.getSize_of_lt (by decide)]
      refine leads_receivePacket (by decide) (ih x h₁ hu)
        (fun payload h' hp => ?_) fun _ h' hp => ?_
      · exact ih _ _ (hu.trans hp.1)
      · rcases hp with rfl | ⟨payload, hp⟩
        · exact hu
        · exact hu.trans hp.1

theorem leads_receiveLastChunk_dropped (hm : m < intMax) :
    Leads (Member.receiveLastChunk P (writeUnless true file) true m)
      (fun _ _ h' => h.Unsaid h') (fun _ _ h' => h.Unsaid h') x h := by
  unfold Leads Member.receiveLastChunk
  split_ifs with hzero
  · rw [sat_bind, ChunkM2.getSize_of_lt hm]
    refine leads_expectPacket (by unfold intMax at hm; omega) (.refl h)
      (fun payload h' hp => hp.1) fun _ h' hp => ?_
    rcases hp with rfl | ⟨payload, hp⟩
    · exact .refl _
    · exact hp.1
  · exact .refl h

/-- A `stat` leaves the host as it is. -/
theorem leads_isDirectory {Q : Bool → Session → Host → Prop} (hQ : ∀ b, Q b x h)
    (hE : ∀ e, e.IsThrown → E e x h) : Leads (Member.isDirectory path) Q E x h := by
  have htriple : Triple Host.anyEnv (fun _ _ _ _ => True) (fun y s => y = x ∧ s = h)
      (Member.isDirectory path) (fun _ y s => y = x ∧ s = h)
      fun e y s => e.IsThrown ∧ y = x ∧ s = h := by
    refine (Member.only_isDirectory path).triple fun y s o a s' ho hk hstep => ?_
    obtain ⟨rfl, rfl⟩ := hk
    match o, ho with
    | .sys (.file _), rfl =>
        obtain ⟨fault, -, rfl⟩ := Host.anyEnv_file hstep
        exact ⟨trivial, rfl, rfl⟩
  refine (htriple x h ⟨rfl, rfl⟩).imp (fun b y s hs => ?_) fun e y s hs => ?_
  · obtain ⟨rfl, rfl⟩ := hs
    exact hQ b
  · obtain ⟨he, rfl, rfl⟩ := hs
    exact hE e he

theorem leads_makeDownloads {Q : Unit → Session → Host → Prop}
    (hQ : ∀ fs', Prepared h.fs fs' → Q () x { h with fs := fs' })
    (hE : ∀ e fs', Prepared h.fs fs' → E e x { h with fs := fs' }) :
    Leads Client.makeDownloads Q E x h := by
  unfold Leads Client.makeDownloads
  rw [sat_bind]
  refine leads_isDirectory (fun b => ?_) fun e _ => hE e h.fs (Or.inl rfl)
  cases b with
  | true => exact hQ h.fs (Or.inl rfl)
  | false =>
      simp only [Bool.false_eq_true, if_false, sat_bind]
      intro a h₁ hstep
      obtain ⟨fault, -, rfl⟩ := Host.anyEnv_file hstep
      have hprep : Prepared h.fs
          ((FileCall.createDirectory Client.downloadsPath).answer fault h.fs).2 := by
        cases fault
        · exact Or.inr rfl
        · exact Or.inl rfl
      refine ⟨trivial, ?_⟩
      rcases a with _ | _ | _
      · exact hE _ _ hprep
      · exact hE _ _ hprep
      · exact hQ _ hprep

/-- The download from the acknowledgement on. Its last report is the only one that can be a
    success. -/
theorem Client.leads_receiveFile {name : Buffer} {ack : Int × Buffer × Buffer}
    (hsize : (SizedAck.deserialize P.order ack.2.1).size = size) (hlt : size < 4294967296)
    (hack : h.accepted = [ack]) (hr : x.rCounter = ack.1 + 1)
    (hprinted : .downloadedCorrectly ∉ h.printed) :
    Leads (Client.receiveFile P name size)
      (fun n _ => Fetched P ack.1 h.fs (downloadPath name) (.ok n))
      (fun e _ => Fetched P ack.1 h.fs (downloadPath name) (.error e)) x h := by
  have hfetched : ∀ {fs'} {result : Except Exit Int} {h' : Host}, Prepared h.fs fs' →
      Settled fs' (downloadPath name) true [] [ack] h' → .downloadedCorrectly ∉ h'.printed →
      Fetched P ack.1 h.fs (downloadPath name) result h' := fun hprep hs hnot =>
    ⟨[ack], _, hprep, hs, fun hd => absurd hd hnot⟩
  unfold Leads Client.receiveFile
  rw [sat_bind]
  refine leads_makeDownloads (fun fs' hprep => ?_) fun e fs' hprep =>
    hfetched hprep (Or.inl (.refl _)) hprinted
  rw [sat_bind]
  -- without a file nothing is stored, with one the reception is as in an upload
  refine leads_create (fun file e => ?_) fun file handle start hnot hfile ho => ?_
  · have hdown : ∀ (result : Except Exit Int) (h' : Host), Host.Unsaid { h with fs := fs' } h' →
        Fetched P ack.1 h.fs (downloadPath name) result h' := fun result h' hu =>
      hfetched hprep (Or.inl (hu.fs ▸ .refl _)) (hu.printed ▸ hprinted)
    dsimp only [Option.isSome_some]
    rw [client_writeChunk, sat_bind]
    refine leads_receiveChunks_dropped.imp (fun b x₁ h₁ hb => ?_) fun _ _ h' => hdown _ h'
    obtain ⟨rfl, hu⟩ := hb
    rw [sat_bind]
    refine (leads_receiveLastChunk_dropped (lastChunkSize_lt size)).imp (fun _ x₂ h₂ hu' => ?_)
      fun _ _ h' hu' => hdown _ h' (hu.trans hu')
    have hu₂ := hu.trans hu'
    rw [sat_bind]
    refine leads_print (hfetched hprep (Or.inl (hu₂.fs ▸ .refl _)) ?_)
    simpa [hu₂.printed] using hprinted
  · obtain ⟨p, hbegun, hopen⟩ := ho.begun hnot
    obtain ⟨hacc, -, hprint⟩ := ho.logs
    have hacc' : start.accepted = [ack] := hacc.trans hack
    have hprinted' : .downloadedCorrectly ∉ start.printed := hprint ▸ hprinted
    have hstopped : ∀ (result : Except Exit Int) (h' : Host),
        (∃ chunks written, Stopped start true p chunks written h') →
        Fetched P ack.1 h.fs (downloadPath name) result h' := fun result h' ⟨_, _, hs⟩ =>
      hfetched hprep (hacc' ▸ hs.settled hbegun) (hs.printed ▸ hprinted')
    have hopened : Receiving start x true file p 0 false [] [] x start :=
      receiving_opened hfile hopen
    dsimp only [Option.isSome_none]
    rw [client_writeChunk, sat_bind]
    refine (leads_receiveChunks _ hopened).imp (fun e x₁ h₁ hrec => ?_) fun _ _ h' => hstopped _ h'
    obtain ⟨chunks₁, written₁, rec₁⟩ := hrec
    rw [Nat.zero_add] at rec₁
    rw [sat_bind]
    refine (leads_receiveLastChunk (lastChunkSize_lt size) rec₁).imp (fun _ x₂ h₂ hrec => ?_)
      fun _ _ h' => hstopped _ h'
    obtain ⟨chunks₂, written₂, rec₂⟩ := hrec
    rw [numFileChunks_add hlt] at rec₂
    rw [sat_bind]
    -- a report of success means that no chunk failed
    refine leads_print ⟨[ack], fs', hprep, ?_, fun hd => ⟨ack, rfl, rfl, ?_⟩⟩
    · exact (hacc' ▸ rec₂.stopped.settled hbegun : Settled fs' _ true [] [ack] h₂).congr rfl rfl
    · obtain rfl : e = false := by
        by_contra he
        rw [if_pos (by simpa using he)] at hd
        rw [rec₂.printed] at hd
        simp [hprinted'] at hd
      rw [hsize, ← hr]
      exact (hacc' ▸ rec₂.complete_of hbegun (not_escapes_ok 1) :
        Complete fs' _ _ _ [ack] (.ok 1) h₂).congr rfl rfl

/-- The whole download, from a host with empty logs. -/
theorem Client.leads_downloadFile (hnone : h.accepted = []) (hprinted : h.printed = []) :
    Leads (Client.downloadFile P)
      (fun n _ => Fetched P x.rCounter h.fs (downloadPath (typedName h)) (.ok n))
      (fun e _ => Fetched P x.rCounter h.fs (downloadPath (typedName h)) (.error e)) x h := by
  have hquiet : ∀ {result : Except Exit Int} {h' : Host}, h'.fs = h.fs →
      .downloadedCorrectly ∉ h'.printed →
      Fetched P x.rCounter h.fs (downloadPath (typedName h)) result h' := fun hfs hnot =>
    ⟨[], h.fs, Or.inl rfl, Or.inl (hfs ▸ .refl _), fun hd => absurd hd hnot⟩
  unfold Leads Client.downloadFile Client.readFileName
  simp only [sat_bind]
  refine leads_getline ?_
  split
  · rw [sat_bind]
    refine leads_print ?_
    rw [sat_bind]
    exact leads_clearAndIgnore (hquiet rfl (by simp [hprinted]))
  · rw [sat_pure]
    have hsent : ∀ h', Sent x { h with console := h.console.getline.2 }
        (DownloadM1 (typedName h)).serialize h' → .downloadedCorrectly ∉ h'.printed := fun h' hs => by
      rw [hs.printed]
      simp [hprinted]
    refine leads_sendPacket (fun h' hs => ?_) fun _ _ h' hs => hquiet hs.fs (hsent h' hs)
    refine leads_expectPacket (by decide) (hquiet hs.fs (hsent h' hs)) (fun payload h'' hp => ?_)
      fun _ h'' hp => ?_
    · obtain ⟨hu, -, w, hacc⟩ := hp
      have hfs : h''.fs = h.fs := hu.fs.trans hs.fs
      have hnot : .downloadedCorrectly ∉ h''.printed := hu.printed ▸ hsent h' hs
      rw [hs.accepted, show Host.accepted { h with console := h.console.getline.2 } = [] from hnone]
        at hacc
      dsimp only
      split
      · rw [sat_bind]
        exact leads_print (hquiet hfs (by simpa using hnot))
      · have hrest := @Client.leads_receiveFile P
          { x with sCounter := x.sCounter + 1, rCounter := x.rCounter + 1 } h'' _ (typedName h) _ rfl
          (ofBe32_lt _) hacc rfl hnot
        rw [hfs] at hrest
        exact hrest
    · rcases hp with rfl | ⟨payload, hp⟩
      · exact hquiet hs.fs (hsent _ hs)
      · exact hquiet (hp.1.fs.trans hs.fs) (hp.1.printed ▸ hsent h' hs)

end

/-! ## With streams -/

section

open Buffered

variable {fs₀ fs fs' : Fs} {m : Buffered} {path : Buffer} {skips fault : Bool} {result : Except Exit Int}
  {before : List (Int × Buffer × Buffer)} {r : Int} {size : Nat}

theorem NewFile.stored {data : Buffer} {chunks : List (Int × Buffer × Buffer)}
    (h : NewFile fs fs' path data) (hs : StoredExactly fs' path r size chunks) : chunkData chunks = data := by
  obtain ⟨p, -, hr, -, hcontents, -⟩ := h
  obtain ⟨-, -, q, hr', hcontents'⟩ := hs
  obtain rfl : p = q := Except.ok.inj (hr.symm.trans hr')
  exact Option.some.inj (hcontents'.symm.trans hcontents)

/-- What a client's function has made is no file of the folder that it may have prepared. -/
theorem Prepared.free (hprep : Prepared fs fs') (p : Path) (i : Nat) (hp : fs.node p = none) :
    fs'.node p ≠ some (.file i) := by
  rcases hprep with rfl | rfl
  · simp [hp]
  · rcases Fs.node_createDirectory fs Client.downloadsPath p with heq | ⟨-, hdir⟩
    · simp [heq, hp]
    · simp [hdir]

theorem Prepared.grows (hprep : Prepared fs fs') (p : Path) (hp : fs'.node p = none) : fs.node p = none := by
  rcases hprep with rfl | rfl
  · exact hp
  · rcases Fs.node_createDirectory fs Client.downloadsPath p with heq | ⟨hfree, -⟩
    · exact heq ▸ hp
    · exact hfree

namespace Buffered

/-- The new file is that of the stream: it lacks what the stream has not written. -/
theorem Tended.newFile {s : OutStream} {all : Buffer} (ht : Tended fs₀ m) (hprep : Prepared fs₀ fs)
    (hs : m.stream = some s) (hnew : NewFile fs m.written.fs path all) :
    ∃ p data, m.host.fs.OpenAt s.handle p data ∧ data ++ s.unwritten = all ∧
      NewFile fs m.host.fs path data := by
  obtain ⟨p, data, hnone, hat⟩ := ht.made s hs
  obtain ⟨-, hopen, -, hkept⟩ := Fs.write_openAt hat s.unwritten
  rw [written_of_some hs] at hnew
  obtain ⟨q, hr, hr', hq, hcontents, hkept'⟩ := hnew
  have hopened := hopen.contents
  obtain ⟨i, hi, -⟩ := hopen
  obtain rfl : p = q := by
    by_contra hpq
    exact hprep.free p i hnone ((hkept' p hpq).1.symm.trans hi)
  refine ⟨p, data, hat, Option.some.inj (hopened.symm.trans hcontents), p, hr, ?_, hq, hat.contents,
    fun q hq => ?_⟩
  · rw [← hr', Fs.resolve_write]
  · exact ⟨(hkept q hq).1.symm.trans (hkept' q hq).1, (hkept q hq).2.symm.trans (hkept' q hq).2⟩

/-- Of a new file nothing is unwritten exactly if its last chunk has emptied the buffer. -/
theorem Tended.unwritten_eq_nil {all : Buffer} (ht : Tended fs₀ m) (hprep : Prepared fs₀ fs)
    (hnew : NewFile fs m.written.fs path all) :
    m.unwritten = [] ↔ EmptiesBuffer all.length := by
  cases hs : m.stream with
  | none =>
      rw [written_of_none hs] at hnew
      obtain ⟨p, -, -, hp, hcontents, -⟩ := hnew
      obtain ⟨i, hi, -⟩ := Fs.contents_eq_some.1 hcontents
      exact absurd hi (ht.unopened hs p i (hprep.grows p hp))
  | some s =>
      obtain ⟨p, data, hat, rfl, -⟩ := ht.newFile hprep hs hnew
      have hfilled := ht.filled s _ hs ⟨p, data, hat, rfl⟩
      rw [← unwrittenOf_eq_zero, List.length_append, ← hfilled, List.length_eq_zero_iff, unwritten, hs]

/-- What is unwritten is missing from the new file. -/
theorem Tended.newFile_host {all : Buffer} (ht : Tended fs₀ m) (hprep : Prepared fs₀ fs) (hne : m.unwritten ≠ [])
    (hnew : NewFile fs m.written.fs path all) :
    ∃ data, data ++ m.unwritten = all ∧ NewFile fs m.host.fs path data := by
  obtain ⟨s, hs, hunwritten⟩ := exists_stream hne
  obtain ⟨p, data, -, hdata, hhost⟩ := ht.newFile hprep hs hnew
  exact ⟨data, hunwritten ▸ hdata, hhost⟩

/-- Where nothing changed there is nothing to write. -/
theorem Tended.not_unchanged (ht : Tended fs₀ m) (hprep : Prepared fs₀ fs) (hne : m.unwritten ≠ []) :
    ¬Unchanged fs m.written.fs := by
  intro hsame
  obtain ⟨s, hs, -⟩ := exists_stream hne
  obtain ⟨p, data, hnone, hat⟩ := ht.made s hs
  obtain ⟨-, ⟨i, hi, -⟩, -⟩ := Fs.write_openAt hat s.unwritten
  rw [written_of_some hs] at hsame
  exact hprep.free p i hnone ((hsame p).1.symm.trans hi)

/-- A transfer with a stream ends as one without, but for what is lost. -/
theorem Tended.settled (ht : Tended fs₀ m) (hprep : Prepared fs₀ fs)
    (hs : Settled fs path skips [] before m.written) :
    Settled fs path skips (m.lost fault result) before (m.leave fault result).host := by
  by_cases hlost : m.lost fault result = []
  · rw [ht.leave_written hlost, hlost]
    exact hs
  · obtain ⟨hleave, heq⟩ := leave_lost hlost
    rw [heq] at hlost ⊢
    rw [hleave]
    rcases hs with hsame | ⟨chunks, written, data, hacc, hpre, hmissing, hdata, hnew⟩
    · exact absurd hsame (ht.not_unchanged hprep hlost)
    · rw [accepted_written] at hacc
      obtain ⟨data', hdata', hnew'⟩ := ht.newFile_host hprep hlost hnew
      rw [List.append_nil] at hdata
      exact Or.inr ⟨chunks, written, data', hacc, hpre, hmissing, hdata'.trans hdata, hnew'⟩

/-- Of a complete file all is there exactly if nothing is lost. -/
theorem Tended.complete_iff (ht : Tended fs₀ m) (hprep : Prepared fs₀ fs)
    (hc : Complete fs path r size before result m.written) :
    ∃ chunks data, m.host.accepted = before ++ chunks ∧ NewFile fs (m.leave fault result).host.fs path data ∧
      (StoredExactly (m.leave fault result).host.fs path r size chunks ↔
        EmptiesBuffer size ∨ fault = false) := by
  obtain ⟨hreturns, chunks, hacc, hstored, hnew⟩ := hc
  rw [accepted_written] at hacc
  have hempties : m.unwritten = [] ↔ EmptiesBuffer size := by
    rw [ht.unwritten_eq_nil hprep hnew, hstored.2.1]
  have hnothing : m.lost fault result = [] ↔ EmptiesBuffer size ∨ fault = false := by
    rw [lost_of_returns hreturns, ← hempties]
    cases fault <;> simp
  rw [← hnothing]
  by_cases hlost : m.lost fault result = []
  · rw [ht.leave_written hlost]
    exact ⟨chunks, _, hacc, hnew, fun _ => hlost, fun _ => hstored⟩
  · obtain ⟨hleave, heq⟩ := leave_lost hlost
    rw [heq] at hlost ⊢
    obtain ⟨data, hdata, hnew'⟩ := ht.newFile_host hprep hlost hnew
    rw [hleave]
    refine ⟨chunks, data, hacc, hnew', fun hstored' => ?_, fun hnil => absurd hnil hlost⟩
    exact List.self_eq_append_right.1 (hdata.trans (hnew'.stored hstored')).symm

end Buffered

variable {P : Platform} {x x' : Session} {h : Host}

/-- How an upload ends on a machine with streams: as on the host with everything written. -/
theorem Worker.ended_uploadFile {payload : Buffer}
    (hrun : Program.Reaches Buffered.anyEnv (Worker.uploadFile P payload x, Buffered.start h.fresh)
      (.ret (result, x'), m)) :
    Tended h.fs m ∧ ∃ beyond, Uploaded (x.sCounter + 1) x.rCounter h.fs
      (requestPath x (UploadM1.deserialize P.order payload).fileName.bytes beyond)
      (UploadM1.deserialize P.order payload).fileSize [] result m.written := by
  obtain ⟨hrun', ht⟩ := (tended_start h.fresh).reaches
    ((tends_uploadFile payload).program (s := Buffered.start h.fresh) rfl) hrun
  exact ⟨ht, Leads.ended (R := fun result _ h' => ∃ beyond, Uploaded (x.sCounter + 1) x.rCounter h.fs
    (requestPath x (UploadM1.deserialize P.order payload).fileName.bytes beyond)
    (UploadM1.deserialize P.order payload).fileSize [] result h')
    (Worker.leads_uploadFile (h := h.fresh) payload rfl rfl) hrun'⟩

/-- How a download ends on a machine with streams. -/
theorem Client.ended_downloadFile
    (hrun : Program.Reaches Buffered.anyEnv (Client.downloadFile P x, Buffered.start h.fresh)
      (.ret (result, x'), m)) :
    Tended h.fs m ∧ Fetched P x.rCounter h.fs (downloadPath (typedName h)) result m.written := by
  obtain ⟨hrun', ht⟩ := (tended_start h.fresh).reaches
    (tends_downloadFile.program (s := Buffered.start h.fresh) rfl) hrun
  exact ⟨ht, Leads.ended (R := fun result _ => Fetched P x.rCounter h.fs (downloadPath (typedName h)) result)
    (Client.leads_downloadFile (h := h.fresh) rfl rfl) hrun'⟩

end

/-! ## Success and complete data -/

variable (P : Platform) (x : Session) (h : Host)

/-- **Success is reported before the last of the data is written.** Once a function has built its
    `UploadAck(1)` or reported a correct download, and has returned, the file at the path is a new one. It
    consists of the data of the frames accepted since the request, which carry consecutive counters, and
    has the announced size, exactly if `File::~File` writes what the stream still holds, or the last chunk
    has emptied its buffer. -/
theorem success_is_complete_iff :
    (∀ payload result x' m fault, Program.Reaches Buffered.anyEnv
        (Worker.uploadFile P payload x, Buffered.start h.fresh) (.ret (result, x'), m) →
      UploadAcked (x.sCounter + 1) 1 m.host →
      ∃ beyond data,
        NewFile h.fs (m.leave fault result).host.fs
          (requestPath x (UploadM1.deserialize P.order payload).fileName.bytes beyond) data ∧
        (StoredExactly (m.leave fault result).host.fs
            (requestPath x (UploadM1.deserialize P.order payload).fileName.bytes beyond) x.rCounter
            (UploadM1.deserialize P.order payload).fileSize m.host.accepted ↔
          EmptiesBuffer (UploadM1.deserialize P.order payload).fileSize ∨ fault = false)) ∧
    (∀ result x' m fault, Program.Reaches Buffered.anyEnv
        (Client.downloadFile P x, Buffered.start h.fresh) (.ret (result, x'), m) →
      .downloadedCorrectly ∈ m.host.printed →
      ∃ ack chunks, m.host.accepted = ack :: chunks ∧ ack.1 = x.rCounter ∧
        (StoredExactly (m.leave fault result).host.fs (downloadPath (typedName h)) (x.rCounter + 1)
            (SizedAck.deserialize P.order ack.2.1).size chunks ↔
          EmptiesBuffer (SizedAck.deserialize P.order ack.2.1).size ∨ fault = false)) := by
  refine ⟨fun payload result x' m fault hrun hacked => ?_, fun result x' m fault hrun hreported => ?_⟩
  · obtain ⟨ht, beyond, -, hcomplete⟩ := Worker.ended_uploadFile hrun
    obtain ⟨chunks, data, hacc, hnew, hiff⟩ := ht.complete_iff (Or.inl rfl)
      (hcomplete (by unfold UploadAcked; rwa [Buffered.sealed_written]))
    exact ⟨beyond, data, hnew, hacc ▸ hiff⟩
  · obtain ⟨ht, before, fs', hprep, -, hcomplete⟩ := Client.ended_downloadFile hrun
    obtain ⟨ack, rfl, hr, hc⟩ := hcomplete (by rwa [Buffered.printed_written])
    obtain ⟨chunks, data, hacc, -, hiff⟩ := ht.complete_iff hprep hc
    exact ⟨ack, chunks, hacc, hr, hiff⟩

/-- Behind a field that holds its terminator nothing is read. -/
theorem requestPath_of_mem {field : Buffer} (beyond : Buffer) (hz : (0 : UInt8) ∈ field) :
    requestPath x field beyond = Worker.filePath x.username (cstr field) := by
  rw [requestPath, cstr_append_of_mem beyond hz]

/-- The worker for `user1`, with an empty folder. -/
def uploadServer : Host := .start (Fs.ofFolders [ascii "/data", ascii "/data/user1"]) ⟨[], false, false⟩

/-- The upload of 20 bytes, in a full chunk and the rest. -/
def uploadTwenty : Program Sys (Except Exit Int × Session) × Buffered :=
  (Worker.uploadFile (.aes .little) ((UploadM1.new (ascii "a") 20).serialize .little)
    (.start (ascii "user1") (List.replicate 16 0)), .start uploadServer.fresh)

/-- Its frames, both as they were sent. -/
def twentyArrive : List Choice :=
  List.replicate 8 .calm ++
    .deliver (sealedFrame 0 (RequestCodes.uploadChunk :: ascii "twenty bytes of")) :: List.replicate 3 .calm ++
    .deliver (sealedFrame 1 (RequestCodes.uploadChunk :: ascii " text")) :: List.replicate 7 .calm

/-- The client that downloads such a file. -/
def downloadClient : Host := .start (Fs.ofFolders [ascii "/downloads"]) ⟨ascii "a\n", false, false⟩

def downloadTwenty : Program Sys (Except Exit Int × Session) × Buffered :=
  (Client.downloadFile (.aes .little) (.start (ascii "user1") (List.replicate 16 0)),
    .start downloadClient.fresh)

def twentyComeBack : List Choice :=
  List.replicate 5 .calm ++ .deliver (sealedFrame 0 ((DownloadAck 0 20).serialize .little)) ::
    List.replicate 6 .calm ++
    .deliver (sealedFrame 1 (RequestCodes.downloadChunk :: ascii "twenty bytes of")) ::
    List.replicate 3 .calm ++
    .deliver (sealedFrame 2 (RequestCodes.downloadChunk :: ascii " text")) :: List.replicate 4 .calm

/-- The two functions return 1. -/
theorem uploadTwenty_returns : (Buffered.run twentyArrive uploadTwenty).1.result =
    some (.ok 1, ⟨ascii "user1", List.replicate 16 0, 2, 2⟩) := by decide +kernel

theorem downloadTwenty_returns : (Buffered.run twentyComeBack downloadTwenty).1.result =
    some (.ok 1, ⟨ascii "user1", List.replicate 16 0, 1, 3⟩) := by decide +kernel

set_option maxRecDepth 20000 in
/-- With their streams closed both are complete; on a full disk the upload is not. -/
theorem success_is_complete_iff_twenty :
    let up := (Buffered.run twentyArrive uploadTwenty).2
    let down := (Buffered.run twentyComeBack downloadTwenty).2
    let path (beyond : Buffer) := requestPath (.start (ascii "user1") (List.replicate 16 0))
      (UploadM1.deserialize .little ((UploadM1.new (ascii "a") 20).serialize .little)).fileName.bytes beyond
    (∃ beyond, StoredExactly (up.leave false (.ok 1)).host.fs (path beyond) 0 20 up.host.accepted) ∧
    (∃ beyond data, NewFile uploadServer.fs (up.leave true (.ok 1)).host.fs (path beyond) data ∧
      ¬StoredExactly (up.leave true (.ok 1)).host.fs (path beyond) 0 20 up.host.accepted) ∧
    ∃ ack chunks, down.host.accepted = ack :: chunks ∧
      (StoredExactly (down.leave false (.ok 1)).host.fs (downloadPath (ascii "a")) 1
        (SizedAck.deserialize .little ack.2.1).size chunks) := by
  intro up down path
  have hup : Program.Reaches Buffered.anyEnv uploadTwenty (.ret (.ok 1, _), up) :=
    Buffered.reaches_run_ended _ uploadTwenty_returns
  have hdown : Program.Reaches Buffered.anyEnv downloadTwenty (.ret (.ok 1, _), down) :=
    Buffered.reaches_run_ended _ downloadTwenty_returns
  have hacked : UploadAcked 1 1 up.host := ⟨_, List.mem_of_getElem (i := 1) (h := by decide +kernel) rfl⟩
  have hleft : ¬EmptiesBuffer (UploadM1.deserialize .little
      ((UploadM1.new (ascii "a") 20).serialize .little)).fileSize := by decide +kernel
  have hreported : .downloadedCorrectly ∈ down.host.printed := by decide +kernel
  refine ⟨?_, ?_, ?_⟩
  · obtain ⟨beyond, data, -, hiff⟩ := (success_is_complete_iff (.aes .little) _ uploadServer).1 _ _ _ up false
      hup hacked
    exact ⟨beyond, hiff.2 (Or.inr rfl)⟩
  · obtain ⟨beyond, data, hnew, hiff⟩ := (success_is_complete_iff (.aes .little) _ uploadServer).1 _ _ _ up true
      hup hacked
    exact ⟨beyond, data, hnew, fun hs => (hiff.1 hs).elim hleft (by simp)⟩
  · obtain ⟨ack, chunks, hacc, -, hiff⟩ := (success_is_complete_iff (.aes .little) _ downloadClient).2 _ _ down
      false hdown hreported
    exact ⟨ack, chunks, hacc, hiff.2 (Or.inr rfl)⟩

set_option maxRecDepth 20000 in
/-- On a full disk the worker acknowledges an upload of which it has stored nothing. -/
theorem full_disk_is_acknowledged :
    ¬∀ (P : Platform) (x : Session) (h : Host) (payload : Buffer) (result : Except Exit Int) (x' : Session)
      (m : Buffered) (fault : Bool), Program.Reaches Buffered.anyEnv
        (Worker.uploadFile P payload x, Buffered.start h.fresh) (.ret (result, x'), m) →
      UploadAcked (x.sCounter + 1) 1 m.host → ∃ beyond, StoredExactly (m.leave fault result).host.fs
        (requestPath x (UploadM1.deserialize P.order payload).fileName.bytes beyond) x.rCounter
        (UploadM1.deserialize P.order payload).fileSize m.host.accepted := by
  intro hall
  let up := (Buffered.run twentyArrive uploadTwenty).2
  have hup : Program.Reaches Buffered.anyEnv uploadTwenty (.ret (.ok 1, _), up) :=
    Buffered.reaches_run_ended _ uploadTwenty_returns
  have hacked : UploadAcked 1 1 up.host := ⟨_, List.mem_of_getElem (i := 1) (h := by decide +kernel) rfl⟩
  obtain ⟨beyond, -, hlen, p, hr, hcontents⟩ := hall (.aes .little) _ uploadServer _ _ _ up true hup hacked
  rw [requestPath_of_mem _ beyond (by decide)] at hr
  have hpath : (up.leave true (.ok 1)).host.fs.resolve (ascii "../data/user1/a") =
      .ok [ascii "data", ascii "user1", ascii "a"] := by decide +kernel
  obtain rfl : [ascii "data", ascii "user1", ascii "a"] = p := Except.ok.inj (hpath.symm.trans hr)
  have hempty : (up.leave true (.ok 1)).host.fs.contents [ascii "data", ascii "user1", ascii "a"] =
      some [] := by decide +kernel
  rw [← Option.some.inj (hempty.symm.trans hcontents)] at hlen
  exact absurd hlen (by decide)

end CloudStorage
