import CloudStorage.Cipher.Cbc
import CloudStorage.Filing

set_option autoImplicit false

/-! # Files in chunks

A file travels in chunks of fifteen bytes and a shorter one for the rest. The loops that send and
receive it count the chunks from the size that was announced, so both sides follow the same script as
long as the size is the length of the file; then the chunks are the file again. -/

namespace CloudStorage

open Interaction Cipher

/-- The chunk for the rest of a file, if there is a rest. -/
def lastPiece (b : Buffer) : List Buffer :=
  if lastChunkSize b.length ≠ 0 then
    [(b.drop (numFileChunks b.length * Max.maxFileChunk)).take (lastChunkSize b.length)]
  else []

/-- The chunks in which a file is sent. -/
def pieces (b : Buffer) : List Buffer :=
  blocks Max.maxFileChunk (numFileChunks b.length) b ++ lastPiece b

/-- The numbers of bytes that are read from a file to send it. -/
def pieceSizes (size : Nat) : List Nat :=
  List.replicate (numFileChunks size) Max.maxFileChunk ++
    if lastChunkSize size ≠ 0 then [lastChunkSize size] else []

/-- The chunks are never more than there is in the file. -/
theorem numFileChunks_le (size : Nat) :
    numFileChunks size * Max.maxFileChunk + lastChunkSize size ≤ size := by
  have hle : numFileChunks size ≤ size / Max.maxFileChunk := by
    unfold numFileChunks intOfSize intOfWord Max.maxFileChunk
    split <;> omega
  unfold lastChunkSize
  have hmul := Nat.mul_le_mul_right Max.maxFileChunk hle
  have hdiv := Nat.div_add_mod' size Max.maxFileChunk
  omega

/-- The chunks of a file whose length is a 32-bit size make up the file. -/
theorem flatten_pieces {b : Buffer} (h : b.length < 4294967296) : (pieces b).flatten = b := by
  have hadd := numFileChunks_add h
  rw [Nat.mul_comm] at hadd
  have hrest : (lastPiece b).flatten = b.drop (numFileChunks b.length * Max.maxFileChunk) := by
    unfold lastPiece
    split_ifs with hlast
    · rw [List.flatten_singleton]
      apply List.take_of_length_le
      rw [List.length_drop]
      omega
    · rw [List.flatten_nil, List.drop_of_length_le]
      omega
  rw [pieces, List.flatten_append, flatten_blocks, hrest, List.take_append_drop]

/-- The turns of a file that is sent behind a command code. -/
def sayPieces (code : UInt8) (chunks : List Buffer) : List (Turn Buffer) :=
  chunks.map fun chunk => .say (code :: chunk)

/-- The turns of a file that is received. -/
def hearPieces (code : UInt8) (chunks : List Buffer) : List (Turn Buffer) :=
  chunks.map fun chunk => .hear (code :: chunk)

theorem mirror_sayPieces (code : UInt8) (chunks : List Buffer) :
    (sayPieces code chunks).map Turn.mirror = hearPieces code chunks := by
  simp [sayPieces, hearPieces]

theorem mirror_hearPieces (code : UInt8) (chunks : List Buffer) :
    (hearPieces code chunks).map Turn.mirror = sayPieces code chunks := by
  simp [sayPieces, hearPieces]

namespace Member

variable {P : Platform} {key : Buffer} {heap : Host → Buffer} {x : Session} {h : Host} {file : File}
  {handle : Nat} {code : UInt8} {rest : Buffer}

/-! ## Sending -/

section

variable (henc : Encrypts P key) (hfile : file.input = .opened handle)
include henc hfile

/-- A chunk is read and sent. -/
theorem converses_sendChunk {n : Nat} (hopen : h.fs.ReadsFrom handle rest) (hn : n ≤ rest.length)
    (hlt : n + 1 < Crypto.lengthLimit) {Q : Except Exit Unit → Host → Prop}
    (hq : ∀ h', (h.after [.read handle n]).Same h' → Q (.ok ()) h') :
    Converses P key heap (sendChunk P (ChunkM2.mk code) file n) x h [.say (code :: rest.take n)] Q := by
  have hlen : (rest.take n).length = n := List.length_take_of_le hn
  have hread := (hopen.read n).1
  have hmessage : (ChunkM2.mk code (rest.take n)).serialize = some (code :: rest.take n) := by
    apply ChunkM2.serialize_of_lt
    rw [hlen]
    unfold Crypto.lengthLimit intMax at *
    omega
  have hchunk : Plays P key heap (file.readChunk n) x h [] fun result x' h' =>
      x' = x ∧ result = .ok (rest.take n) ∧ h' = { h with fs := (h.fs.read handle n).2 } := by
    unfold File.readChunk
    rw [hfile]
    apply Plays.bind_quiet
    apply plays_file
    dsimp only [FileCall.answer]
    simp only [Bool.false_eq_true, if_false, hread, hlen, if_true]
    exact plays_pure ⟨rfl, rfl, rfl⟩
  apply Converses.bind_quiet
  apply hchunk.mono
  rintro result x' h' ⟨rfl, rfl, rfl⟩
  refine ⟨rfl, ?_⟩
  dsimp only
  rw [hmessage]
  exact converses_sendPacket henc (sealable_of_length (by rw [List.length_cons, hlen]) (by omega) hlt) hq

/-- The loop over the full chunks, by induction on what is left of it. -/
theorem converses_sendChunks (n : Nat) (hopen : h.fs.ReadsFrom handle rest)
    (hn : n * Max.maxFileChunk ≤ rest.length) {Q : Except Exit Unit → Host → Prop}
    (hq : ∀ h', (h.after (Fs.reads handle (List.replicate n Max.maxFileChunk))).Same h' →
      h'.fs.ReadsFrom handle (rest.drop (n * Max.maxFileChunk)) → Q (.ok ()) h') :
    Converses P key heap (sendChunks P (ChunkM2.mk code) file n) x h
      (sayPieces code (blocks Max.maxFileChunk n rest)) Q := by
  induction n generalizing x h rest with
  | zero =>
      apply converses_pure
      apply hq h (Host.Same.refl h)
      rwa [Nat.zero_mul, List.drop_zero]
  | succ n ih =>
      rw [Nat.add_mul, Nat.one_mul] at hn hq
      have hopen' := (hopen.read Max.maxFileChunk).2.1
      apply Converses.bind (t := [.say (code :: rest.take Max.maxFileChunk)])
      apply converses_sendChunk henc hfile hopen (by omega) (by decide)
      intro h₁ hsame
      apply ih
      · rw [hsame.fs]
        exact hopen'
      · rw [List.length_drop]
        omega
      · intro h' hsame' hopen''
        apply hq h' (hsame.after hsame')
        rwa [List.drop_drop, Nat.add_comm] at hopen''

/-- A whole file is sent in its chunks. -/
theorem converses_sendFile {b : Buffer} (hopen : h.fs.ReadsFrom handle b) {α : Type}
    {r : Member α} {t : List (Turn Buffer)} {Q : Except Exit α → Host → Prop}
    (hq : ∀ x h', (h.after (Fs.reads handle (pieceSizes b.length))).Same h' →
      Converses P key heap r x h' t Q) :
    Converses P key heap (do
      sendChunks P (ChunkM2.mk code) file (numFileChunks b.length)
      sendLastChunk P (ChunkM2.mk code) file (lastChunkSize b.length)
      r) x h (sayPieces code (pieces b) ++ t) Q := by
  have hle := numFileChunks_le b.length
  have hlt := lastChunkSize_lt b.length
  rw [pieces, sayPieces, List.map_append, List.append_assoc]
  apply Converses.bind
  apply converses_sendChunks henc hfile _ hopen (by omega)
  intro h₁ hsame hopen'
  dsimp only
  apply Converses.bind
  unfold sendLastChunk lastPiece
  split_ifs with hlast
  · have hsmall : lastChunkSize b.length < Max.maxFileChunk := Nat.mod_lt _ (by decide)
    apply converses_sendChunk henc hfile hopen' (by rw [List.length_drop]; omega)
      (by unfold Max.maxFileChunk Crypto.lengthLimit at *; omega)
    intro h₂ hsame'
    apply hq
    rw [pieceSizes, if_pos hlast, Fs.reads, List.map_append]
    exact hsame.after hsame'
  · apply converses_pure
    apply hq
    rwa [pieceSizes, if_neg hlast, List.append_nil]

end

/-! ## Receiving -/

/-- While `I` holds of the files, a chunk that has arrived leads to these calls, and `I` holds on. -/
def Absorbs (P : Platform) (key : Buffer) (heap : Host → Buffer) (write : Buffer → Member Unit)
    (effect : Buffer → List FileCall) (I : Fs → Prop) : Prop :=
  ∀ (x : Session) (h : Host) (chunk : Buffer), I h.fs → I (h.fs.after (effect chunk)) ∧
    Plays P key heap (write chunk) x h [] fun result x' h' =>
      x' = x ∧ result = .ok () ∧ h' = h.after (effect chunk)

/-- A chunk is written to the open file. -/
theorem takes_writeChunk (hfile : file.output = .opened handle) (p : Path) :
    Absorbs P key heap file.writeChunk (fun chunk => [.write handle chunk])
      fun fs => ∃ data, fs.OpenAt handle p data := by
  rintro x h chunk ⟨data, hopen⟩
  obtain ⟨hdone, hopen', -⟩ := Fs.write_openAt hopen chunk
  refine ⟨⟨_, hopen'⟩, ?_⟩
  unfold File.writeChunk
  rw [hfile]
  apply Plays.bind_quiet
  apply plays_file
  dsimp only [FileCall.answer]
  simp only [Bool.false_eq_true, if_false, hdone, Routine.require, if_true]
  exact plays_pure ⟨rfl, rfl, rfl⟩

/-- A chunk is dropped. -/
theorem takes_nothing : Absorbs P key heap (fun _ => pure ()) (fun _ => []) fun _ => True :=
  fun _ _ _ _ => ⟨trivial, plays_pure ⟨rfl, rfl, rfl⟩⟩

section

variable {write : Bool → Buffer → Member Unit} {effect : Buffer → List FileCall} {I : Fs → Prop}
  {e : Bool} (hwrite : Absorbs P key heap (write e) effect I)
include hwrite

/-- A chunk that has arrived is taken. -/
theorem converses_take {chunk : Buffer} (hI : I h.fs) {α : Type} {f : Unit → Member α}
    {t : List (Turn Buffer)} {Q : Except Exit α → Host → Prop}
    (hq : ∀ h', h' = h.after (effect chunk) → I h'.fs →
      Converses P key heap (f ()) x h' t Q) :
    Converses P key heap (write e chunk >>= f) x h t Q := by
  obtain ⟨hI', hplays⟩ := hwrite x h chunk hI
  apply Converses.bind_quiet
  apply hplays.mono
  rintro result x' h' ⟨rfl, rfl, rfl⟩
  exact ⟨rfl, hq _ rfl hI'⟩

/-- The loop over the full chunks, by induction on them. -/
theorem converses_receiveChunks {chunks : List Buffer} (hfull : Full Max.maxFileChunk chunks) {n : Nat}
    (hn : chunks.length = n) (hI : I h.fs) {Q : Except Exit Bool → Host → Prop}
    (hq : ∀ h', (h.after (chunks.flatMap effect)).Same h' → I h'.fs →
      Q (.ok e) h') :
    Converses P key heap (receiveChunks P write n e) x h (hearPieces code chunks) Q := by
  induction chunks generalizing n x h with
  | nil =>
      subst hn
      exact converses_pure (hq h (Host.Same.refl h) hI)
  | cons chunk chunks ih =>
      subst hn
      have hchunk : chunk.length = Max.maxFileChunk := hfull chunk (List.mem_cons_self ..)
      have hsize : ChunkM2.getSize Max.maxFileChunk = 1 + Max.maxFileChunk :=
        ChunkM2.getSize_of_lt (by decide)
      apply Converses.bind (t := [.hear (code :: chunk)])
      rw [hsize]
      apply converses_receivePacket (by rw [List.length_cons, hchunk, Nat.add_comm]) (by decide)
      intro h₁ hsame
      have hI₁ : I h₁.fs := by rwa [hsame.fs]
      dsimp only
      rw [ChunkM2.deserialize_cons]
      apply converses_take hwrite hI₁
      rintro h₂ rfl hI₂
      apply ih (fun c hc => hfull c (List.mem_cons_of_mem _ hc)) rfl hI₂
      intro h' hsame' hI'
      have hchunks : (h.after (effect chunk)).Same (h₁.after (effect chunk)) :=
        hsame.trans_after (.refl _)
      exact hq h' (hchunks.after hsame') hI'

/-- A whole file is received in its chunks. -/
theorem converses_receiveFile (b : Buffer) (hI : I h.fs) {α : Type} {f : Bool → Member α}
    {t : List (Turn Buffer)} {Q : Except Exit α → Host → Prop}
    (hq : ∀ x h', (h.after ((pieces b).flatMap effect)).Same h' → I h'.fs →
      Converses P key heap (f e) x h' t Q) :
    Converses P key heap (do
      let errorOccured ← receiveChunks P write (numFileChunks b.length) e
      receiveLastChunk P write errorOccured (lastChunkSize b.length)
      f errorOccured) x h (hearPieces code (pieces b) ++ t) Q := by
  have hle := numFileChunks_le b.length
  have hlt := lastChunkSize_lt b.length
  have hfull : Full Max.maxFileChunk (blocks Max.maxFileChunk (numFileChunks b.length) b) :=
    full_blocks (by omega)
  rw [pieces, hearPieces, List.map_append, List.append_assoc]
  apply Converses.bind
  apply converses_receiveChunks hwrite hfull (length_blocks ..) hI
  intro h₁ hsame hI₁
  dsimp only
  apply Converses.bind
  unfold receiveLastChunk lastPiece
  split_ifs with hlast
  · have hlen : ((b.drop (numFileChunks b.length * Max.maxFileChunk)).take
        (lastChunkSize b.length)).length = lastChunkSize b.length := by
      rw [List.length_take, List.length_drop]
      omega
    rw [ChunkM2.getSize_of_lt hlt]
    apply Converses.bind_last (t := [.hear (code ::
      (b.drop (numFileChunks b.length * Max.maxFileChunk)).take (lastChunkSize b.length))])
    apply converses_expectPacket (by rw [List.length_cons, hlen, Nat.add_comm])
      (by unfold intMax at hlt; omega)
    intro h₂ hsame'
    have hI₂ : I h₂.fs := by rwa [hsame'.fs]
    dsimp only
    rw [ChunkM2.deserialize_cons]
    obtain ⟨hI₃, hplays⟩ := hwrite _ h₂ _ hI₂
    apply converses_of_plays
    apply hplays.mono
    rintro result x' h' ⟨rfl, rfl, rfl⟩
    refine ⟨rfl, hq _ _ ?_ hI₃⟩
    rw [pieces, lastPiece, if_pos hlast, List.flatMap_append, List.flatMap_singleton]
    exact hsame.after (hsame'.trans_after (.refl _))
  · apply converses_pure
    apply hq _ _ _ hI₁
    rwa [pieces, lastPiece, if_neg hlast, List.append_nil]

end

end Member

end CloudStorage
