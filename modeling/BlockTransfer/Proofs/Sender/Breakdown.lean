import BlockTransfer.Proofs.Endings
import BlockTransfer.Proofs.Sender.Progress
import BlockTransfer.Proofs.Sender.Reading
import BlockTransfer.Sink.Memory

/-!
# Files that cannot be read to their end

The reading of a file may fail in the middle. By then the sender has sent the blocks that were full
before, one after the other, each of them until it was acknowledged. What it has read of the block
in hand is not sent: the sender tells the receiver to give up. It has sent no other data of the file
at any time before, and it never completes the transfer.

## Main definitions

* `Sender.dataWrites`: what a sender has written for the data of a file.
* `Sender.InTurn`: each of some messages is written at least once, one after the other.
* `Sender.Holding`: how far a sender has got with the piece in hand.
* `Sender.Cut`: what has been written of a file that is cut into pieces.
* `Sender.Underway`: where a sender stands whose reading of a file will fail.

## Main results

* `Sender.Turns.carries`: what an act means for the piece in hand.
* `Sender.Underway.of_step` and `Sender.underway_run`: every act and every run leads along this way.
* `Script.mirrors_and_breaks_off`: the readings of files do not matter but for their failures.
-/

namespace BlockTransfer

/-- Whether the reading of a file failed with an error. -/
def Event.fetchFailed (file : Nat) (e : IoError) : Event → Bool
  | .fetch file' _ (.error e') => file' = file ∧ e' = e
  | _ => false

theorem Event.fetchFailed_eq_false {file : Nat} {e : IoError} {event : Event}
    (h : ∀ most, event ≠ .fetch file most (.error e)) : event.fetchFailed file e = false := by
  unfold fetchFailed
  split
  · rw [decide_eq_false_iff_not]
    rintro ⟨rfl, rfl⟩
    exact h _ rfl
  · rfl

namespace Sender

open Script

/-! ## What is written for the data of a file -/

/-- What is written at an act for the data of a file. -/
def dataWrite? (file : Nat) (act : Act Sender) : Option Bytes :=
  match act.state.phase, act.event with
  | .doing step, .write data _ =>
    match step.item? with
    | some (.block _) => if act.state.job.index = file then some data else none
    | _ => none
  | _, _ => none

/-- What has been written for the data of a file. -/
def dataWrites (file : Nat) (past : List (Act Sender)) : List Bytes :=
  past.filterMap (dataWrite? file)

/-- Each of some messages is written at least once, one after the other. -/
inductive InTurn : List Bytes → List Bytes → Prop
  | nil : InTurn [] []
  | next {messages writes : List Bytes} (h : InTurn messages writes) (message : Bytes)
      (again : Nat) :
    InTurn (messages ++ [message]) (writes ++ List.replicate (again + 1) message)

/-- How far a sender has got with a piece: its step, the piece, and how often it has been
written. -/
inductive Holding (size : Nat) : Step → Bytes → Nat → Prop
  | nextPiece : Holding size .nextPiece [] 0
  | gather {piece : Bytes} (h : piece.length < size) : Holding size (.gather piece) piece 0
  | gathered {piece : Bytes} (h : piece.length = size) : Holding size (.gathered piece) piece 0
  | offer {piece : Bytes} (h : piece.length = size) (spare : Bool) (copies : Nat) :
    Holding size (.offer (.block piece) spare) piece copies
  | sent {piece : Bytes} (h : piece.length = size) (spare : Bool) (copies : Nat) :
    Holding size (.sent (.block piece) spare) piece (copies + 1)
  | answer {piece : Bytes} (h : piece.length = size) (spare : Bool) (task : Line.Task)
      (copies : Nat) : Holding size (.answer (.block piece) spare task) piece (copies + 1)
  | acknowledged {piece : Bytes} (h : piece.length = size) (copies : Nat) :
    Holding size (.acknowledged (.block piece)) piece (copies + 1)
  | drain {piece : Bytes} (h : piece.length = size) (copies : Nat) :
    Holding size (.drain piece) piece (copies + 1)
  | counted {piece : Bytes} (h : piece.length = size) (copies : Nat) :
    Holding size (.counted piece) piece (copies + 1)

namespace Step

/-- Whether a step does not belong to the end of the batch. -/
def withinBatch : Step → Bool
  | .await invitation | .attempt invitation | .listen invitation _ | .invited invitation =>
    invitation ≠ .endOfBatch
  | .offer item _ | .sent item _ | .answer item _ _ | .acknowledged item => item ≠ .endOfBatch
  | _ => true

/-- Whether a step comes before the data of a file. -/
def beforeData : Step → Bool
  | .start | .nextFile | .streamHeader => true
  | .await invitation | .attempt invitation | .listen invitation _ | .invited invitation =>
    invitation ≠ .endOfBatch
  | .offer item _ | .sent item _ | .answer item _ _ | .acknowledged item => item = .header
  | _ => false

end Step

variable {s s' next : Sender} {step step' : Step} {event : Event} {file size copies : Nat}
  {piece : Bytes} {files : List FileHeader}

/-- Only blocks are written for the data of a file. -/
theorem dataWrite?_eq_none (hphase : s.phase = .doing step)
    (h : ∀ piece, step.item? = some (.block piece) → s.job.index ≠ file) (event : Event) :
    dataWrite? file ⟨s, event⟩ = none := by
  simp only [dataWrite?, hphase]
  split
  · rename_i hcases
    cases hcases
    split
    · rename_i hitem
      exact if_neg (h _ hitem)
    · rfl
  · rfl

theorem dataWrite?_of_writes_eq_false (hevent : event.writes = false) :
    dataWrite? file ⟨s, event⟩ = none := by
  unfold dataWrite?
  split
  · rename_i hwrite
    cases hwrite
    cases hevent
  · rfl

theorem dataWrite?_write (hphase : s.phase = .doing step)
    (hitem : step.item? = some (.block piece)) (data : Bytes) (reply : Except IoError Nat) :
    dataWrite? s.job.index ⟨s, .write data reply⟩ = some data := by
  simp only [dataWrite?, hphase, hitem, if_true]

/-- The data of a file is still ahead of a sender. -/
def DataAhead (file : Nat) (s : Sender) (step : Step) : Prop :=
  s.job.index < file ∧ step.withinBatch = true ∨ s.job.index = file ∧ step.beforeData = true

/-- A sender whose files are those from its index on knows this after every act. -/
theorem Turns.files_eq (h : Turns s step event s' step')
    (hfiles : s.job.files = files.drop s.job.index) : s'.job.files = files.drop s'.job.index := by
  cases h with
  | fileDone =>
    change s.job.files.tail = files.drop (s.job.index + 1)
    rw [hfiles, List.tail_drop]
  | _ => exact hfiles

/-- The data of a file comes nearer, or is begun. -/
theorem Turns.dataAhead (h : Turns s step event s' step') (hahead : DataAhead file s step)
    (hfiles : s.job.files ≠ []) :
    DataAhead file s' step' ∨
      s'.job.index = file ∧ step' = .nextPiece ∧ s'.session.blockNumber = 1 := by
  cases h with
  | endBatch hnone => exact absurd hnone hfiles
  | beginData _ _ =>
    rcases hahead with ⟨hindex, -⟩ | ⟨hindex, -⟩
    · exact .inl (.inl ⟨hindex, rfl⟩)
    · exact .inr ⟨hindex, rfl, rfl⟩
  | fileDone =>
    rcases hahead with ⟨hindex, -⟩ | ⟨-, hbefore⟩
    · rcases Nat.lt_or_eq_of_le (Nat.succ_le_of_lt hindex) with hless | heq
      · exact .inl (.inl ⟨hless, rfl⟩)
      · exact .inl (.inr ⟨heq, rfl⟩)
    · cases hbefore
  | beginEndOfBatch =>
    rcases hahead with ⟨-, hwithin⟩ | ⟨-, hbefore⟩
    · cases hwithin
    · cases hbefore
  | _ => exact .inl hahead

/-- Only the current file is read. -/
theorem Course.file_eq_of_fetch {most : Nat} {reply : Except IoError Bytes}
    (h : Course s step event next) (hevent : event = .fetch file most reply) :
    file = s.job.index := by
  subst hevent
  cases h with
  | turns h => cases h <;> rfl
  | breaks h =>
    cases h
    rfl

/-- Nothing is written for the data of a file, and it is not read, as long as its data is ahead. -/
theorem Course.of_dataAhead (h : Course s step event next) (hphase : s.phase = .doing step)
    (hahead : DataAhead file s step) :
    dataWrite? file ⟨s, event⟩ = none ∧ ∀ most reply, event ≠ .fetch file most reply := by
  rcases hahead with ⟨hindex, -⟩ | ⟨-, hbefore⟩
  · -- Another file is being sent.
    refine ⟨dataWrite?_eq_none hphase (fun _ _ => hindex.ne) event, ?_⟩
    rintro most reply rfl
    exact hindex.ne (h.file_eq_of_fetch rfl).symm
  · refine ⟨dataWrite?_eq_none hphase ?_ event, ?_⟩
    · intro piece hitem
      cases step with
      | offer item =>
        cases hitem
        cases hbefore
      | gathered => cases hbefore
      | _ => cases hitem
    · intro most reply
      refine (h.of_ne_gather ?_).1 file most reply
      rintro piece rfl
      cases hbefore

/-- No transfer is complete while the data of a file is ahead. -/
theorem Completes.not_dataAhead (h : Completes s step) (hfiles : s.job.files ≠ []) :
    ¬DataAhead file s step := by
  rintro (⟨-, hwithin⟩ | ⟨-, hbefore⟩)
  · cases h with
    | single hnone => exact hfiles hnone
    | batch => cases hwithin
  · cases h with
    | single hnone => exact hfiles hnone
    | batch => cases hbefore

/-! ## The pieces of a file -/

/-- What an act means for the piece in hand. -/
inductive Carries (size : Nat) (s : Sender) (event : Event) (s' : Sender) (step' : Step)
    (piece : Bytes) (copies : Nat) : Prop
  /-- Nothing. -/
  | keeps (hwrite : dataWrite? s.job.index ⟨s, event⟩ = none)
      (hnumber : s'.session.blockNumber = s.session.blockNumber)
      (h : Holding size step' piece copies)
  /-- It is written once more. -/
  | writes (hwrite : dataWrite? s.job.index ⟨s, event⟩ = some (frame s (.block piece)))
      (hnumber : s'.session.blockNumber = s.session.blockNumber)
      (h : Holding size step' piece (copies + 1))
  /-- It has been written and is followed by the next one. -/
  | completes (hwrite : dataWrite? s.job.index ⟨s, event⟩ = none)
      (hnumber : s'.session.blockNumber = s.session.blockNumber + 1)
      (hfull : piece.length = size) (hcopies : copies ≠ 0) (h : Holding size step' [] 0)

/-- A piece that is not being gathered is sent. -/
theorem Turns.carries (h : Turns s step event s' step') (hphase : s.phase = .doing step)
    (hholding : Holding size step piece copies) (hgather : step ≠ .gather piece)
    (hsize : 0 < size) :
    s'.trailer = s.trailer ∧ s'.job.index = s.job.index ∧
      Carries size s event s' step' piece copies := by
  cases hholding with
  | gather => exact absurd rfl hgather
  | nextPiece =>
    cases h with
    | noise htask => exact absurd rfl htask
    | arrival htask => cases htask
    | nextPiece => exact ⟨rfl, rfl, .keeps (dataWrite?_of_writes_eq_false rfl) rfl (.gather hsize)⟩
  | gathered hfull =>
    cases h with
    | noise htask => exact absurd rfl htask
    | arrival htask => cases htask
    | beginEndOfFile => exact absurd hfull hsize.ne
    | beginBlock =>
      exact ⟨rfl, rfl, .keeps (dataWrite?_of_writes_eq_false rfl) rfl (.offer hfull false 0)⟩
    | streamed =>
      exact ⟨rfl, rfl, .writes (dataWrite?_write hphase rfl _ _) rfl (.drain hfull 0)⟩
  | offer hfull spare =>
    cases h with
    | noise htask => exact absurd rfl htask
    | arrival htask => cases htask
    | offer =>
      exact ⟨rfl, rfl, .writes (dataWrite?_write hphase rfl _ _) rfl (.sent hfull spare copies)⟩
  | sent hfull spare copies =>
    cases h with
    | noise htask => exact absurd rfl htask
    | arrival htask => cases htask
    | sent =>
      exact ⟨rfl, rfl, .keeps (dataWrite?_of_writes_eq_false rfl) rfl
        (.answer hfull spare _ copies)⟩
  | answer hfull spare task copies =>
    refine ⟨?_, ?_, .keeps (dataWrite?_of_writes_eq_false ?_) ?_ ?_⟩
    · cases h <;> rfl
    · cases h <;> rfl
    · cases h <;> rfl
    · cases h <;> rfl
    · cases h with
      | noise | arrival => exact .answer hfull spare task copies
      | acknowledged => exact .acknowledged hfull copies
      | spared | refused | unanswered => exact .offer hfull _ _
  | acknowledged hfull copies =>
    cases h with
    | noise htask => exact absurd rfl htask
    | arrival htask => cases htask
    | blockDone =>
      exact ⟨rfl, rfl, .keeps (dataWrite?_of_writes_eq_false rfl) rfl (.counted hfull copies)⟩
  | drain hfull copies =>
    refine ⟨?_, ?_, .keeps (dataWrite?_of_writes_eq_false ?_) ?_ ?_⟩
    · cases h <;> rfl
    · cases h <;> rfl
    · cases h <;> rfl
    · cases h <;> rfl
    · cases h with
      | noise | arrival => exact .drain hfull copies
      | drained => exact .counted hfull copies
  | counted hfull copies =>
    cases h with
    | noise htask => exact absurd rfl htask
    | arrival htask => cases htask
    | counted =>
      exact ⟨rfl, rfl, .completes (dataWrite?_of_writes_eq_false rfl) rfl hfull
        (Nat.succ_ne_zero copies) .nextPiece⟩

/-- A sender that fails while it has a piece in hand may have written the piece once more. -/
theorem Breaks.carries {e : TransferError} (h : Breaks s step event e)
    (hphase : s.phase = .doing step) (hholding : Holding size step piece copies) :
    dataWrite? s.job.index ⟨s, event⟩ = none ∨
      dataWrite? s.job.index ⟨s, event⟩ = some (frame s (.block piece)) ∧ piece.length = size := by
  cases h with
  | unwritten hitem =>
    cases hholding with
    | gathered hfull | offer hfull =>
      cases hitem
      exact .inr ⟨dataWrite?_write hphase rfl _ _, hfull⟩
    | _ => cases hitem
  | _ => exact .inl (dataWrite?_of_writes_eq_false rfl)

/-- A piece is written only when it fills a block. -/
theorem Holding.length_eq (h : Holding size step piece copies) (hcopies : copies ≠ 0) :
    piece.length = size := by
  cases h with
  | nextPiece | gather | gathered => exact absurd rfl hcopies
  | _ => assumption

/-! ## The blocks of a file -/

/-- The blocks that the given bytes fill. -/
def fullBlocks (options : Options) (whole : Bytes) : List Block :=
  let size := options.variant.blockSize.length
  blocksFrom options 1 (whole.take (whole.length / size * size))

/-- What has been written of a file that is cut into the pieces that are done, the piece in hand and
the rest. -/
structure Cut (options : Options) (trailer : Trailer) (whole done piece rest : Bytes)
    (count copies : Nat) (writes : List Bytes) : Prop where
  whole_eq : whole = done ++ piece ++ rest
  /-- The pieces that are done fill blocks. -/
  length_done : done.length = count * options.variant.blockSize.length
  writes_eq : ∃ front, InTurn ((blocksFrom options 1 done).map (·.encode trailer)) front ∧
    writes = front ++
      List.replicate copies ((pieceBlock options (count + 1) piece).encode trailer)

/-- Some of the first full blocks have been written, each at least once and in turn. -/
def Begun (options : Options) (whole : Bytes) (writes : List Bytes) : Prop :=
  ∃ trailer sent, sent <+: fullBlocks options whole ∧
    InTurn (sent.map (·.encode trailer)) writes

/-- All full blocks have been written, each at least once and in turn. -/
def Finished (options : Options) (whole : Bytes) (writes : List Bytes) : Prop :=
  ∃ trailer, InTurn ((fullBlocks options whole).map (·.encode trailer)) writes

section Cut

variable {options : Options} {trailer : Trailer} {whole done rest : Bytes} {count : Nat}
  {writes : List Bytes}

theorem begun_nil (options : Options) (whole : Bytes) : Begun options whole [] :=
  ⟨.checksum, [], List.nil_prefix, .nil⟩

/-- Pieces that fill blocks make up the first of the full blocks. -/
theorem blocksFrom_prefix_fullBlocks
    (hdone : done.length = count * options.variant.blockSize.length) (rest : Bytes) :
    blocksFrom options 1 done <+: fullBlocks options (done ++ rest) := by
  have hcount : count ≤ (done ++ rest).length / options.variant.blockSize.length := by
    rw [Nat.le_div_iff_mul_le (blockSize_pos options), ← hdone, List.length_append]
    exact Nat.le_add_right _ _
  have hle : done.length ≤ (done ++ rest).length / options.variant.blockSize.length *
      options.variant.blockSize.length := by
    rw [hdone]
    exact Nat.mul_le_mul_right _ hcount
  simp only [fullBlocks]
  rw [List.take_append, List.take_of_length_le hle, blocksFrom_append hdone]
  exact List.prefix_append _ _

/-- A rest that does not fill a block has no full block. -/
theorem fullBlocks_append (hdone : done.length = count * options.variant.blockSize.length)
    (hpiece : piece.length < options.variant.blockSize.length) :
    fullBlocks options (done ++ piece) = blocksFrom options 1 done := by
  have hcount : (done ++ piece).length / options.variant.blockSize.length = count := by
    rw [List.length_append, hdone, Nat.add_comm, Nat.add_mul_div_right _ _ (blockSize_pos options),
      Nat.div_eq_of_lt hpiece, Nat.zero_add]
  rw [fullBlocks, hcount, List.take_left' hdone]

/-- Nothing has been written before the first piece. -/
theorem cut_nil (options : Options) (trailer : Trailer) (whole : Bytes) :
    Cut options trailer whole [] [] whole 0 0 [] := by
  refine ⟨rfl, (Nat.zero_mul _).symm, [], ?_, rfl⟩
  rw [blocksFrom_nil]
  exact .nil

/-- The piece in hand is written once more. -/
theorem Cut.again (h : Cut options trailer whole done piece rest count copies writes) :
    Cut options trailer whole done piece rest count (copies + 1)
      (writes ++ [(pieceBlock options (count + 1) piece).encode trailer]) := by
  obtain ⟨front, hfront, rfl⟩ := h.writes_eq
  refine ⟨h.whole_eq, h.length_done, front, hfront, ?_⟩
  rw [List.replicate_succ', List.append_assoc]

/-- A piece that has been written is done with its block. -/
theorem Cut.inTurn (h : Cut options trailer whole done piece rest count copies writes)
    (hcopies : copies ≠ 0) (hfull : piece.length = options.variant.blockSize.length) :
    InTurn ((blocksFrom options 1 (done ++ piece)).map (·.encode trailer)) writes := by
  obtain ⟨front, hfront, rfl⟩ := h.writes_eq
  obtain ⟨again, rfl⟩ := Nat.exists_eq_succ_of_ne_zero hcopies
  have hlast : blocksFrom options (count + 1) (piece ++ []) = _ :=
    blocksFrom_append_of_length_eq hfull []
  rw [List.append_nil, blocksFrom_nil] at hlast
  rw [blocksFrom_append h.length_done, Nat.add_comm 1 count, hlast, List.map_append]
  exact hfront.next _ again

/-- The next piece is begun. -/
theorem Cut.advance (h : Cut options trailer whole done piece rest count copies writes)
    (hcopies : copies ≠ 0) (hfull : piece.length = options.variant.blockSize.length) :
    Cut options trailer whole (done ++ piece) [] rest (count + 1) 0 writes := by
  refine ⟨?_, ?_, writes, h.inTurn hcopies hfull, (List.append_nil _).symm⟩
  · rw [h.whole_eq, List.append_nil]
  · rw [List.length_append, h.length_done, hfull, Nat.succ_mul]

/-- A part of the piece in hand is read. -/
theorem Cut.read {data left : Bytes}
    (h : Cut options trailer whole done piece (data ++ left) count 0 writes) :
    Cut options trailer whole done (piece ++ data) left count 0 writes := by
  obtain ⟨front, hfront, rfl⟩ := h.writes_eq
  refine ⟨?_, h.length_done, front, hfront, rfl⟩
  rw [h.whole_eq]
  simp only [List.append_assoc]

/-- Only full blocks have been written. -/
theorem Cut.begun (h : Cut options trailer whole done piece rest count copies writes)
    (hfull : copies ≠ 0 → piece.length = options.variant.blockSize.length) :
    Begun options whole writes := by
  by_cases hcopies : copies = 0
  · obtain ⟨front, hfront, rfl⟩ := h.writes_eq
    refine ⟨trailer, blocksFrom options 1 done, ?_, ?_⟩
    · rw [h.whole_eq, List.append_assoc]
      exact blocksFrom_prefix_fullBlocks h.length_done _
    · rw [hcopies, List.replicate_zero, List.append_nil]
      exact hfront
  · have hnext := h.advance hcopies (hfull hcopies)
    refine ⟨trailer, _, ?_, h.inTurn hcopies (hfull hcopies)⟩
    rw [h.whole_eq]
    exact blocksFrom_prefix_fullBlocks hnext.length_done _

/-- All full blocks have been written when nothing is left but a piece that does not fill one. -/
theorem Cut.finished (h : Cut options trailer whole done piece [] count 0 writes)
    (hpiece : piece.length < options.variant.blockSize.length) : Finished options whole writes := by
  obtain ⟨front, hfront, rfl⟩ := h.writes_eq
  refine ⟨trailer, ?_⟩
  rw [h.whole_eq, List.append_nil, fullBlocks_append h.length_done hpiece, List.replicate_zero,
    List.append_nil]
  exact hfront

end Cut

/-! ## Runs -/

/-- A sender that has come to an ending, of which it may still tell the receiver. -/
def Ended (s : Sender) (ending : Ending) : Prop :=
  s.phase = .cancelling ending ∨ s.phase = .over ending

theorem ended_fail (s : Sender) (e : TransferError) : Ended (s.fail e) (.error e) :=
  s.phase_fail e

variable {κ : Type} {setup : Setup κ} {w w' : World κ} {options : Options} {whole : Bytes}
  {e : IoError} {past : List (Act Sender)}

/-- Where a sender stands that has to send a file whose reading fails with an error behind some
bytes. -/
inductive Underway (options : Options) (files : List FileHeader) (file : Nat) (whole : Bytes)
    (e : IoError) (past : List (Act Sender)) (s : Sender) (w : World κ) : Prop
  /-- The data of the file is still ahead. -/
  | ahead {step : Step} {source : Source} (hphase : s.phase = .doing step)
      (hplaced : s.Placed step) (hoptions : s.options = options)
      (hfiles : s.job.files = files.drop s.job.index) (hahead : DataAhead file s step)
      (hwrites : dataWrites file past = [])
      (hquiet : ∀ a ∈ past, a.event.fetchFailed file e = false)
      (hsource : w.sources[file]? = some source) (hholds : source.Holds whole (some e))
  /-- The blocks before the failure are sent. -/
  | sending {step : Step} {source : Source} {done piece rest : Bytes} {count copies : Nat}
      (hphase : s.phase = .doing step) (hplaced : s.Placed step) (hoptions : s.options = options)
      (hindex : s.job.index = file)
      (hholding : Holding options.variant.blockSize.length step piece copies)
      (hnumber : s.session.blockNumber = UInt8.ofNat (count + 1))
      (hcut : Cut options s.trailer whole done piece rest count copies (dataWrites file past))
      (hquiet : ∀ a ∈ past, a.event.fetchFailed file e = false)
      (hsource : w.sources[file]? = some source) (hholds : source.Holds rest (some e))
  /-- The reading has failed. -/
  | failed (hended : Ended s (.error (.file e)))
      (hfinished : Finished options whole (dataWrites file past))
  /-- The transfer has come to an end for another reason. -/
  | ended {ending : Ending} (hended : Ended s ending)
      (hincomplete : ∀ summary, ending ≠ .ok (.completed summary))
      (hbegun : Begun options whole (dataWrites file past))
      (hquiet : ∀ a ∈ past, a.event.fetchFailed file e = false)

theorem dataWrites_concat (file : Nat) (past : List (Act Sender)) (a : Act Sender) :
    dataWrites file (past ++ [a]) = dataWrites file past ++ (dataWrite? file a).toList := by
  rw [dataWrites, dataWrites, List.filterMap_append]
  cases h : dataWrite? file a <;> simp [h]

/-- Nothing is written for a file at an act that has nothing to do with it. -/
theorem dataWrites_concat_of_none {a : Act Sender} (h : dataWrite? file a = none)
    (past : List (Act Sender)) : dataWrites file (past ++ [a]) = dataWrites file past := by
  rw [dataWrites_concat, h, Option.toList_none, List.append_nil]

/-- A reading has not failed at an act that is no such reading. -/
theorem quiet_concat {a : Act Sender} (hquiet : ∀ a ∈ past, a.event.fetchFailed file e = false)
    (h : ∀ most, a.event ≠ .fetch file most (.error e)) :
    ∀ b ∈ past ++ [a], b.event.fetchFailed file e = false :=
  List.forall_mem_append.mpr
    ⟨hquiet, List.forall_mem_singleton.mpr (Event.fetchFailed_eq_false h)⟩

/-- A sender that has come to an end only tells the receiver. -/
theorem Ended.of_step {ending : Ending} (h : Ended s ending) {ω : Type} {env : Surroundings ω}
    {v v' : ω} (hstep : (Sender.act s).step env v = .ok (next, v')) (file : Nat) :
    Ended next ending ∧ dataWrite? file ⟨s, (Sender.act s).event env v⟩ = none ∧
      ∀ file most reply, (Sender.act s).event env v ≠ .fetch file most reply := by
  rcases h with hphase | hphase
  · have hact : Sender.act s = .write [Control.can.byte, Control.can.byte] fun _ moment =>
        { s with moment, phase := .over ending } := by
      simp only [Sender.act, Party.act, hphase]
    rw [hact] at hstep ⊢
    cases hstep
    refine ⟨.inr rfl, ?_, fun _ _ _ => Event.noConfusion⟩
    simp only [dataWrite?, hphase]
  · have hact : Sender.act s = .stop ending := by simp only [Sender.act, Party.act, hphase]
    rw [hact] at hstep
    cases hstep

/-- What an act at a step leads to. -/
theorem course_of_step (hphase : s.phase = .doing step) (hplaced : s.Placed step) {ω : Type}
    {env : Surroundings ω} {v v' : ω} (hstep : (Sender.act s).step env v = .ok (next, v')) :
    Course s step ((Sender.act s).event env v) next := by
  have hact : Sender.act s = Sender.step s step := by simp only [Sender.act, Party.act, hphase]
  rw [hact] at hstep ⊢
  exact (ensures_course hplaced).of_step hstep

/-- An act that neither goes on nor completes the transfer ends it for a reason. -/
theorem Course.ended_or_turns (h : Course s step event next) (hcompletes : ¬Completes s step) :
    (∃ s' step', next = s'.goto step' ∧ Turns s step event s' step') ∨
      ∃ ending, Ended next ending ∧ (∀ summary, ending ≠ .ok (.completed summary)) ∧
        (event = .silent ∨ ∃ e, Breaks s step event e) := by
  cases h with
  | turns h => exact .inl ⟨_, _, rfl, h⟩
  | breaks h => exact .inr ⟨_, ended_fail _ _, nofun, .inr ⟨_, h⟩⟩
  | completes h => exact absurd h hcompletes
  | aborts => exact .inr ⟨.ok .aborted, .inl rfl, nofun, .inl rfl⟩
  | rejects => exact .inr ⟨_, .inr rfl, nofun, .inl rfl⟩

section Steps

variable {source : Source} {done rest : Bytes} {count : Nat}

/-- An act before the data of the file. -/
theorem underway_of_ahead (hfile : file < files.length) (hphase : s.phase = .doing step)
    (hplaced : s.Placed step) (hoptions : s.options = options)
    (hfiles : s.job.files = files.drop s.job.index) (hahead : DataAhead file s step)
    (hwrites : dataWrites file past = []) (hquiet : ∀ a ∈ past, a.event.fetchFailed file e = false)
    (hsource : w.sources[file]? = some source) (hholds : source.Holds whole (some e))
    (hstep : (Sender.act s).step (World.surroundings setup) w = .ok (next, w')) :
    Underway options files file whole e
      (past ++ [⟨s, (Sender.act s).event (World.surroundings setup) w⟩]) next w' := by
  have hcourse := course_of_step hphase hplaced hstep
  have hreplies := Action.replies_of_step hstep
  generalize (Sender.act s).event (World.surroundings setup) w = event at hcourse hreplies
  obtain ⟨hwrite, hfetch⟩ := hcourse.of_dataAhead hphase hahead
  have hquiet' := quiet_concat (a := ⟨s, event⟩) hquiet fun most => hfetch most _
  have hsource' : w'.sources[file]? = some source :=
    (World.sources_of_replies hreplies hfetch).trans hsource
  have hne : s.job.files ≠ [] := by
    have hindex : s.job.index ≤ file := by
      rcases hahead with ⟨hindex, -⟩ | ⟨hindex, -⟩
      · exact hindex.le
      · exact hindex.le
    rw [hfiles, ne_eq, List.drop_eq_nil_iff]
    omega
  have hwrites' := (dataWrites_concat_of_none hwrite past).trans hwrites
  rcases hcourse.ended_or_turns fun h => h.not_dataAhead hne hahead with
    ⟨s', step', rfl, hturns⟩ | ⟨ending, hended, hincomplete, -⟩
  · have hplaced' := hturns.placed hplaced
    have hgoto : Placed (s'.goto step') step' := ⟨hplaced'.files_ne_nil, hplaced'.timed⟩
    rcases hturns.dataAhead hahead hne with hahead' | ⟨hindex, rfl, hnumber⟩
    · exact .ahead rfl hgoto (hturns.options_eq.trans hoptions) (hturns.files_eq hfiles) hahead'
        hwrites' hquiet' hsource' hholds
    · have hcut : Cut options s'.trailer whole [] [] whole 0 0
          (dataWrites file (past ++ [⟨s, event⟩])) := by
        rw [hwrites']
        exact cut_nil options _ whole
      exact .sending rfl hgoto (hturns.options_eq.trans hoptions) hindex .nextPiece hnumber hcut
        hquiet' hsource' hholds
  · refine .ended hended hincomplete ?_ hquiet'
    rw [hwrites']
    exact begun_nil options whole

/-- An act by which a piece is sent. -/
theorem underway_of_sending (hphase : s.phase = .doing step) (hplaced : s.Placed step)
    (hoptions : s.options = options) (hindex : s.job.index = file)
    (hholding : Holding options.variant.blockSize.length step piece copies)
    (hnumber : s.session.blockNumber = UInt8.ofNat (count + 1))
    (hcut : Cut options s.trailer whole done piece rest count copies (dataWrites file past))
    (hquiet : ∀ a ∈ past, a.event.fetchFailed file e = false)
    (hsource : w.sources[file]? = some source)
    (hholds : source.Holds rest (some e)) (hgather : ∀ piece, step ≠ .gather piece)
    (hstep : (Sender.act s).step (World.surroundings setup) w = .ok (next, w')) :
    Underway options files file whole e
      (past ++ [⟨s, (Sender.act s).event (World.surroundings setup) w⟩]) next w' := by
  subst hindex
  have hcourse := course_of_step hphase hplaced hstep
  have hreplies := Action.replies_of_step hstep
  generalize (Sender.act s).event (World.surroundings setup) w = event at hcourse hreplies
  have hfetch := (hcourse.of_ne_gather hgather).1 s.job.index
  have hquiet' := quiet_concat (a := ⟨s, event⟩) hquiet fun most => hfetch most _
  have hsource' : w'.sources[s.job.index]? = some source :=
    (World.sources_of_replies hreplies hfetch).trans hsource
  have hframe : frame s (.block piece) =
      (pieceBlock options (count + 1) piece).encode s.trailer := by
    rw [frame, dataBlock_eq hnumber, hoptions]
  have hcompletes : ¬Completes s step := by
    rintro ⟨⟩ <;> cases hholding
  rcases hcourse.ended_or_turns hcompletes with
    ⟨s', step', rfl, hturns⟩ | ⟨ending, hended, hincomplete, hwhy⟩
  · obtain ⟨htrailer, hindex, hcarries⟩ :=
      hturns.carries hphase hholding (hgather piece) (blockSize_pos options)
    have hplaced' := hturns.placed hplaced
    have hgoto : Placed (s'.goto step') step' := ⟨hplaced'.files_ne_nil, hplaced'.timed⟩
    have hoptions' := hturns.options_eq.trans hoptions
    rw [← htrailer] at hcut hframe
    cases hcarries with
    | keeps hwrite hsame hholding' =>
      rw [← dataWrites_concat_of_none hwrite past] at hcut
      exact .sending rfl hgoto hoptions' hindex hholding' (hsame.trans hnumber) hcut hquiet'
        hsource' hholds
    | writes hwrite hsame hholding' =>
      have hcut' := hcut.again
      rw [← hframe, ← Option.toList_some, ← hwrite, ← dataWrites_concat] at hcut'
      exact .sending rfl hgoto hoptions' hindex hholding' (hsame.trans hnumber) hcut' hquiet'
        hsource' hholds
    | completes hwrite hsucc hfull hcopies hholding' =>
      have hnumber' : s'.session.blockNumber = UInt8.ofNat (count + 1 + 1) := by
        rw [hsucc, hnumber]
        exact (UInt8.ofNat_add (count + 1) 1).symm
      have hcut' := hcut.advance hcopies hfull
      rw [← dataWrites_concat_of_none hwrite past] at hcut'
      exact .sending rfl hgoto hoptions' hindex hholding' hnumber' hcut' hquiet' hsource' hholds
  · have hwrite : dataWrite? s.job.index ⟨s, event⟩ = none ∨
        dataWrite? s.job.index ⟨s, event⟩ = some (frame s (.block piece)) ∧
          piece.length = options.variant.blockSize.length := by
      rcases hwhy with rfl | ⟨e, hbreaks⟩
      · exact .inl (dataWrite?_of_writes_eq_false rfl)
      · exact hbreaks.carries hphase hholding
    refine .ended hended hincomplete ?_ hquiet'
    rcases hwrite with hwrite | ⟨hwrite, hfull⟩
    · rw [dataWrites_concat_of_none hwrite]
      exact hcut.begun hholding.length_eq
    · rw [dataWrites_concat, hwrite, hframe]
      exact hcut.again.begun fun _ => hfull

/-- A reading of the file. -/
theorem underway_of_gather (hkind : e.kind ≠ .interrupted)
    (hphase : s.phase = .doing (.gather piece)) (hplaced : s.Placed (.gather piece))
    (hoptions : s.options = options) (hindex : s.job.index = file)
    (hshort : piece.length < options.variant.blockSize.length)
    (hnumber : s.session.blockNumber = UInt8.ofNat (count + 1))
    (hcut : Cut options s.trailer whole done piece rest count 0 (dataWrites file past))
    (hquiet : ∀ a ∈ past, a.event.fetchFailed file e = false)
    (hsource : w.sources[file]? = some source)
    (hholds : source.Holds rest (some e))
    (hstep : (Sender.act s).step (World.surroundings setup) w = .ok (next, w')) :
    Underway options files file whole e
      (past ++ [⟨s, (Sender.act s).event (World.surroundings setup) w⟩]) next w' := by
  subst hindex hoptions
  obtain ⟨most, hmost⟩ := Nat.exists_eq_add_of_lt hshort
  have hact : Sender.act s = .fetch s.job.index (most + 1) fun reply moment =>
      fetched { s with moment } piece (most + 1) reply := by
    have hrest : s.options.variant.blockSize.length - piece.length = most + 1 := by omega
    simp only [Sender.act, Party.act, hphase, Sender.step, hrest]
  rw [hact] at hstep ⊢
  simp only [Action.step, Action.event, World.surroundings, World.fetch_eq hsource] at hstep ⊢
  have hfetched := hholds.fetched (Nat.succ_pos most)
  generalize source.fetch (most + 1) = read at hfetched hstep
  obtain ⟨reply, after⟩ := read
  cases hstep
  have hsource' : (w.sources.set s.job.index after)[s.job.index]? = some after :=
    List.getElem?_set_self (List.getElem?_eq_some_iff.mp hsource).1
  have hwrite : dataWrite? s.job.index ⟨s, .fetch s.job.index (most + 1) reply⟩ = none :=
    dataWrite?_of_writes_eq_false rfl
  rw [← dataWrites_concat_of_none hwrite past] at hcut
  have hplaced' : ∀ (moment : Moment) (step : Step), step.awaited? = none →
      Placed (({ s with moment } : Sender).goto step) step := by
    intro moment step hstep
    refine ⟨fun _ => hplaced.files_ne_nil rfl, ?_⟩
    rw [hstep]
    rintro _ ⟨⟩
  cases hfetched with
  | ended _ hlast => cases hlast
  | @interrupted e' _ hkind' hafter =>
    have hquiet' := quiet_concat (a := ⟨s, .fetch s.job.index (most + 1) (.error e')⟩) hquiet ?_
    · dsimp only
      rw [fetched_of_interrupted _ _ _ hkind']
      exact .sending rfl (hplaced' _ _ rfl) rfl rfl (.gather hshort) hnumber hcut hquiet' hsource'
        hafter
    · rintro _ ⟨⟩
      exact hkind hkind'
  | @data data left _ hne hlength hrest hafter =>
    subst hrest
    have hquiet' := quiet_concat (a := ⟨s, .fetch s.job.index (most + 1) (.ok data)⟩) hquiet
      (by rintro _ ⟨⟩)
    have hwhole : (piece ++ data).length = piece.length + data.length := List.length_append
    rcases Nat.lt_or_eq_of_le hlength with hless | hfull
    · rw [fetched_of_length_lt _ _ hne hless]
      exact .sending rfl (hplaced' _ _ rfl) rfl rfl (.gather (by omega)) hnumber hcut.read hquiet'
        hsource' hafter
    · rw [fetched_of_length_eq _ _ hfull]
      exact .sending rfl (hplaced' _ _ rfl) rfl rfl (.gathered (by omega)) hnumber hcut.read hquiet'
        hsource' hafter
  | failed hrest hlast =>
    cases hlast
    subst hrest
    -- Nothing that is left fills a block.
    have hfailed : ∀ s : Sender, fetched s piece (most + 1) (.error e) = s.fail (.file e) :=
      fun s => if_neg hkind
    rw [hfailed]
    exact .failed (ended_fail _ _) (hcut.finished hshort)

/-- Every act keeps a sender on this way. -/
theorem Underway.of_step (hfile : file < files.length) (hkind : e.kind ≠ .interrupted)
    (h : Underway options files file whole e past s w)
    (hstep : (Sender.act s).step (World.surroundings setup) w = .ok (next, w')) :
    Underway options files file whole e
      (past ++ [⟨s, (Sender.act s).event (World.surroundings setup) w⟩]) next w' := by
  cases h with
  | ahead hphase hplaced hoptions hfiles hahead hwrites hquiet hsource hholds =>
    exact underway_of_ahead hfile hphase hplaced hoptions hfiles hahead hwrites hquiet hsource
      hholds hstep
  | @sending step _ _ piece _ _ _ hphase hplaced hoptions hindex hholding hnumber hcut hquiet
      hsource hholds =>
    by_cases hgather : ∃ piece, step = .gather piece
    · obtain ⟨piece, rfl⟩ := hgather
      cases hholding with
      | gather hshort =>
        exact underway_of_gather hkind hphase hplaced hoptions hindex hshort hnumber hcut hquiet
          hsource hholds hstep
    · exact underway_of_sending hphase hplaced hoptions hindex hholding hnumber hcut hquiet hsource
        hholds (fun piece heq => hgather ⟨piece, heq⟩) hstep
  | failed hended hfinished =>
    obtain ⟨hended', hwrite, -⟩ := hended.of_step hstep file
    refine .failed hended' ?_
    rwa [dataWrites_concat_of_none hwrite]
  | ended hended hincomplete hbegun hquiet =>
    obtain ⟨hended', hwrite, hfetch⟩ := hended.of_step hstep file
    refine .ended hended' hincomplete ?_ (quiet_concat hquiet fun most => hfetch file most _)
    rwa [dataWrites_concat_of_none hwrite]

/-- Every run of a sender leads along this way. -/
theorem underway_run (setup : Setup κ) (options : Options) (hfile : file < files.length)
    (hkind : e.kind ≠ .interrupted) (moment : Moment) (hsource : w.sources[file]? = some source)
    (hholds : source.Holds whole (some e)) (acts : Nat) :
    let start := Sender.new options files moment
    Underway options files file whole e
      (Action.trace (World.surroundings setup) Sender.act acts start w)
      (Action.run (World.surroundings setup) Sender.act acts start w).state
      (Action.run (World.surroundings setup) Sender.act acts start w).world := by
  intro start
  have hahead : DataAhead file start .start := by
    rcases Nat.eq_zero_or_pos file with rfl | hpos
    · exact .inr ⟨rfl, rfl⟩
    · exact .inl ⟨hpos, rfl⟩
  have hstart : Underway options files file whole e [] start w :=
    .ahead rfl ⟨nofun, nofun⟩ rfl rfl hahead rfl (List.forall_mem_nil _) hsource hholds
  exact Action.invariant_run (fun past s w s' w' h hstep => h.of_step hfile hkind hstep) acts hstart

end Steps

/-- Only full blocks before the failure have been written. -/
theorem Underway.begun (h : Underway options files file whole e past s w) :
    Begun options whole (dataWrites file past) := by
  cases h with
  | ahead _ _ _ _ _ hwrites =>
    rw [hwrites]
    exact begun_nil options whole
  | sending _ _ _ _ hholding _ hcut => exact hcut.begun hholding.length_eq
  | failed _ hfinished =>
    obtain ⟨trailer, hwrites⟩ := hfinished
    exact ⟨trailer, _, List.prefix_rfl, hwrites⟩
  | ended _ _ hbegun => exact hbegun

/-- All of them have been written once the reading has failed, and the transfer ends with that. -/
theorem Underway.of_fetchFailed (h : Underway options files file whole e past s w)
    (hfailed : ∃ a ∈ past, a.event.fetchFailed file e = true) :
    Ended s (.error (.file e)) ∧ Finished options whole (dataWrites file past) := by
  obtain ⟨a, hmem, hfailed⟩ := hfailed
  have hnot : ¬∀ a ∈ past, a.event.fetchFailed file e = false :=
    fun hquiet => Bool.false_ne_true ((hquiet a hmem).symm.trans hfailed)
  cases h with
  | failed hended hfinished => exact ⟨hended, hfinished⟩
  | ahead _ _ _ _ _ _ hquiet => exact absurd hquiet hnot
  | sending _ _ _ _ _ _ _ hquiet => exact absurd hquiet hnot
  | ended _ _ _ hquiet => exact absurd hquiet hnot

/-- The transfer is not complete. -/
theorem Underway.ne_over (h : Underway options files file whole e past s w) (summary : Summary) :
    s.phase ≠ .over (.ok (.completed summary)) := by
  have hended : ∀ {ending}, Ended s ending → ending ≠ .ok (.completed summary) →
      s.phase ≠ .over (.ok (.completed summary)) := by
    rintro ending (hphase | hphase) hne hover
    · cases hphase.symm.trans hover
    · cases hphase.symm.trans hover
      exact hne rfl
  cases h with
  | ahead hphase => exact fun hover => nomatch hphase.symm.trans hover
  | sending hphase => exact fun hover => nomatch hphase.symm.trans hover
  | failed h => exact hended h nofun
  | ended h hincomplete => exact hended h (hincomplete summary)

/-- A sender that has come to an ending is over after two acts. -/
theorem Ended.ending_run_add {ending : Ending} {ω : Type} {env : Surroundings ω} {acts : Nat}
    {v : ω} (h : Ended (Action.run env Sender.act acts s v).state ending) :
    (Action.run env Sender.act (acts + 2) s v).ending = some ending := by
  cases hending : (Action.run env Sender.act acts s v).ending with
  | none =>
    rw [Action.run_add hending]
    rcases h with hphase | hphase <;> simp [Action.run, Sender.act, Party.act, hphase, Action.step]
  | some ending' =>
    rw [Action.run_add_of_ending hending, hending]
    have hphase' := Party.phase_of_ending step_ne_stop hending
    rcases h with hphase | hphase <;> cases hphase.symm.trans hphase'
    rfl

/-- A sender that has ended with an error of a file has told the receiver, and its session has
failed. -/
theorem failed_and_told (options : Options) (files : List FileHeader) (moment : Moment) {ω : Type}
    (env : Surroundings ω) (acts : Nat) (v : ω)
    (h : (Action.run env Sender.act acts (Sender.new options files moment) v).ending =
      some (.error (.file e))) :
    (Action.run env Sender.act acts (Sender.new options files moment) v).state.session.state =
        .failed ∧
      ∃ before told reply, Action.trace env Sender.act acts (Sender.new options files moment) v =
        before ++ [⟨told, .write [Control.can.byte, Control.can.byte] reply⟩] := by
  have hconcludes := concludes options files moment env acts v
  constructor
  · rw [hconcludes.failed_iff _ h]
    refine ⟨?_, _, rfl⟩
    -- A transfer that is not accepted ends with another error.
    by_contra hrejected
    obtain ⟨text, htext⟩ := hconcludes.rejected _ h hrejected
    cases htext
  · obtain ⟨a, hmem, hcancels⟩ := (hconcludes.cancels_iff _ h).mpr (.file e)
    obtain ⟨before, after, htrace⟩ := List.append_of_mem hmem
    obtain rfl := hconcludes.last before a after htrace hcancels
    obtain ⟨told, event⟩ := a
    cases event with
    | write data reply =>
      obtain rfl : data = [Control.can.byte, Control.can.byte] := of_decide_eq_true hcancels
      exact ⟨before, told, reply, htrace⟩
    | _ => cases hcancels

end Sender

/-! ## Rehearsals -/

namespace Script

/-- The blocks that are full before a position in a file. -/
theorem fullBlocks_take {content : Bytes} {offset : Nat} (h : offset ≤ content.length)
    (options : Options) :
    Sender.fullBlocks options (content.take offset) = Sender.blocksFrom options 1
      (content.take (offset / options.variant.blockSize.length *
        options.variant.blockSize.length)) := by
  rw [Sender.fullBlocks, List.length_take_of_le h, List.take_take,
    Nat.min_eq_left (Nat.div_mul_le_self _ _)]

/-- How the files of a sender are read does not matter but for their failures. If every reading
brings something before the end of the file or is interrupted, then the same can be seen of the
sender as with readings that bring all that is asked for. If the reading of a file fails at some
position, then of the data of this file only the blocks that are full before that are ever written,
in turn and each at least once. Once the reading has failed, these are all written, and the transfer
ends with the error, of which the receiver is told by the last thing that is written. The transfer
is never complete, and it comes to an end if there is something in everything that arrives on the
channel. -/
theorem mirrors_and_breaks_off {κ : Type} (setup : Setup κ) (options : Options)
    (files : List FileHeader) (play : Play) (sources : List Source) (sink : κ) :
    let w := World.new setup play sources sink
    let run := fun acts => Action.run (World.surroundings setup) Sender.act acts
      (Sender.new options files w.moment) w
    let trace := fun acts => Action.trace (World.surroundings setup) Sender.act acts
      (Sender.new options files w.moment) w
    let w₀ := World.new setup play (sources.map Source.plain) sink
    ((∀ source ∈ sources, source.Steady) →
      Mirrors (fun acts => Action.run (World.surroundings setup) Sender.act acts
        (Sender.new options files w₀.moment) w₀) run) ∧
    ∀ (file : Nat) (source : Source) (offset : Nat) (e : IoError), file < files.length →
      sources[file]? = some source → source.BreaksAt offset e →
      let size := options.variant.blockSize.length
      let blocks := Sender.blocksFrom options 1 (source.remaining.take (offset / size * size))
      (w.wire.Substantial → ∃ acts, (run acts).ending ≠ none) ∧
      ∀ acts,
        (∃ trailer sent, sent <+: blocks ∧
          Sender.InTurn (sent.map (·.encode trailer)) (Sender.dataWrites file (trace acts))) ∧
        ((∃ a ∈ trace acts, a.event.fetchFailed file e = true) →
          (∃ trailer, Sender.InTurn (blocks.map (·.encode trailer))
            (Sender.dataWrites file (trace acts))) ∧
          (run (acts + 2)).ending = some (.error (.file e)) ∧
          (run (acts + 2)).state.session.state = .failed ∧
          ∃ before told reply, trace (acts + 2) =
            before ++ [⟨told, .write [Control.can.byte, Control.can.byte] reply⟩]) ∧
        ∀ summary, (run acts).ending ≠ some (.ok (.completed summary)) := by
  intro w run trace w₀
  refine ⟨mirrors_of_steady setup options files play sink, ?_⟩
  intro file source offset e hfile hsource hbreaks size blocks
  have hsource' : w.sources[file]? = some source := hsource
  have hblocks : Sender.fullBlocks options (source.remaining.take offset) = blocks :=
    fullBlocks_take hbreaks.within options
  refine ⟨fun hwire => ?_, fun acts => ?_⟩
  · exact (Sender.going_new options files w.moment).exists_ending (World.patient setup)
      (World.supplies setup _) hwire rfl
  have hunderway := Sender.underway_run setup options hfile hbreaks.kind_ne w.moment hsource'
    hbreaks.holds acts
  refine ⟨?_, ?_, ?_⟩
  · have hbegun := hunderway.begun
    rwa [Sender.Begun, hblocks] at hbegun
  · intro hfailed
    obtain ⟨hended, hfinished⟩ := hunderway.of_fetchFailed hfailed
    have hending := hended.ending_run_add
    rw [Sender.Finished, hblocks] at hfinished
    exact ⟨hfinished, hending, Sender.failed_and_told options files _ _ _ _ hending⟩
  · intro summary hending
    exact hunderway.ne_over summary (Party.phase_of_ending Sender.step_ne_stop hending)

/-- A file is read in parts of which the first ends within a block, and the reading is interrupted.
If it fails two bytes before the end of the file, one block has been written, and the transfer ends
with the error. -/
theorem mirrors_and_breaks_off_behind_block :
    let setup : Setup MemorySink := { sink := MemorySink.sink }
    let options : Options := { protocol := .xmodem, variant := .checksum }
    let play : Play :=
      { initial := [⟨0, .ok [Control.nak.byte]⟩], rest := [⟨0, .ok [Control.ack.byte]⟩] }
    let content : Bytes := List.replicate 131 97
    let e : IoError := ⟨.other, "gone"⟩
    let steady : Source :=
      { remaining := content, sizes := [100, 31], faults := [(100, ⟨.interrupted, ""⟩)] }
    let broken : Source :=
      { remaining := content, sizes := [100], faults := [(100, ⟨.interrupted, ""⟩), (129, e)] }
    let w₀ := World.new setup play [steady.plain] {}
    let w₁ := World.new setup play [steady] {}
    let w := World.new setup play [broken] {}
    let start := Sender.new options [{ name := "a" }] w.moment
    let trace := Action.trace (World.surroundings setup) Sender.act 21 start w
    let run := Action.run (World.surroundings setup) Sender.act (21 + 2) start w
    Mirrors
        (fun acts => Action.run (World.surroundings setup) Sender.act acts
          (Sender.new options [{ name := "a" }] w₀.moment) w₀)
        (fun acts => Action.run (World.surroundings setup) Sender.act acts
          (Sender.new options [{ name := "a" }] w₁.moment) w₁) ∧
      (∃ a ∈ trace, a.event.fetchFailed 0 e = true) ∧
      (∃ trailer, Sender.InTurn
        ((Sender.blocksFrom options 1 (content.take (129 / 128 * 128))).map (·.encode trailer))
        (Sender.dataWrites 0 trace)) ∧
      run.ending = some (.error (.file e)) := by
  intro setup options play content e steady broken w₀ w₁ w start trace run
  have hsteady : ∀ source ∈ [steady], source.Steady :=
    List.forall_mem_singleton.mpr ⟨by decide, by decide⟩
  have hbreaks : broken.BreaksAt 129 e :=
    ⟨rfl, by decide, by decide +kernel, by decide, [(100, ⟨.interrupted, ""⟩)], [], rfl, by decide⟩
  have hfailed : ∃ a ∈ trace, a.event.fetchFailed 0 e = true := by
    have hany : trace.any (fun a => a.event.fetchFailed 0 e) = true := by decide +kernel
    simpa using hany
  have halike := (mirrors_and_breaks_off setup options [{ name := "a" }] play [steady] {}).1 hsteady
  obtain ⟨-, hends⟩ := (mirrors_and_breaks_off setup options [{ name := "a" }] play [broken] {}).2 0
    broken 129 e Nat.one_pos rfl hbreaks
  obtain ⟨-, hlast, -⟩ := hends 21
  obtain ⟨hwrites, hending, -⟩ := hlast hfailed
  exact ⟨halike, hfailed, hwrites, hending⟩

end Script

end BlockTransfer
