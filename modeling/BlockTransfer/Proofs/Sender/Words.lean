import BlockTransfer.Proofs.Contents
import BlockTransfer.Proofs.Sender.Reactions
import BlockTransfer.Proofs.Trace

/-!
# What a sender says

A sender announces files, sends their blocks and ends them, and it repeats each of these until it
is acknowledged. Its deeds are what it writes and the signals that it acts on; the words that they
make up form a language that depends on the options, on the headers and on what the files give
when they are read.

The reading of a file may bring nothing before the file ends. This ends the block in hand, so a
file is given in stretches, each of which is cut into blocks of its own. A file that is only read
in vain at its end has one stretch.

## Main definitions

* `Sender.Yields`: some readings of a file give its stretches one after the other.
* `Sender.Brings`: some readings bring the contents of a file, and nothing only after its end.
* `Sender.fileBlocks`: the blocks of a file that is given in stretches.
* `Sender.Deed`: what a sender does on the line.
* `Sender.DataWord`, `Sender.FileWord`, `Sender.BatchWord`: the deeds for the data of a file, for a
  file, and for files one after the other.

## Main results

* `Sender.exists_yields`: every file is given in stretches, however it is read.
* `Sender.gatheredBlocks_of_nil` and `Sender.gatheredBlocks_of_length_eq`: how the blocks follow
  from the readings.
* `Sender.exists_batchWord`: there is a word for all files.
-/

namespace BlockTransfer.Sender

/-! ## Readings -/

/-- A reading of a file of which the given stretches are left: it is the next part of the first
stretch, and empty just at its end. Nothing is read after the last stretch. -/
def Gives : List Bytes → Bytes → Prop
  | [], reading => reading = []
  | stretch :: _, reading => reading <+: stretch ∧ (reading = [] → stretch = [])

/-- What is left of some stretches after a reading. -/
def leftAfter : List Bytes → Bytes → List Bytes
  | [], _ => []
  | _ :: stretches, [] => stretches
  | stretch :: stretches, reading => stretch.drop reading.length :: stretches

/-- Some readings give the stretches of a file one after the other, as far as they go. -/
def Yields : List Bytes → List Bytes → Prop
  | _, [] => True
  | stretches, reading :: readings =>
    Gives stretches reading ∧ Yields (leftAfter stretches reading) readings

variable {options : Options} {number number' : Nat} {stretches : List Bytes}
  {stretch piece reading : Bytes}

/-- Nothing more is read at the end of a stretch than after it. -/
theorem Yields.of_nil {readings : List Bytes} (h : Yields [] readings) : Yields [[]] readings := by
  cases readings with
  | nil => trivial
  | cons reading readings =>
    obtain ⟨rfl, hrest⟩ := h
    exact ⟨⟨List.prefix_rfl, fun _ => rfl⟩, hrest⟩

/-- Every file is given in stretches, however it is read. -/
theorem exists_yields (readings : List Bytes) : ∃ stretches, Yields stretches readings := by
  induction readings with
  | nil => exact ⟨[], trivial⟩
  | cons reading readings ih =>
    obtain ⟨stretches, hyields⟩ := ih
    cases reading with
    | nil => exact ⟨[] :: stretches, by simpa [Yields, Gives, leftAfter] using hyields⟩
    | cons b data =>
      -- The reading is put in front of the next stretch.
      cases stretches with
      | nil => exact ⟨[b :: data], by simpa [Yields, Gives, leftAfter] using hyields.of_nil⟩
      | cons stretch stretches =>
        refine ⟨((b :: data) ++ stretch) :: stretches, ?_⟩
        simpa [Yields, Gives, leftAfter] using hyields

/-- Some readings bring the contents of a file, as far as they go, and nothing only after its
end. -/
def Brings (content : Bytes) (readings : List Bytes) : Prop :=
  ∃ parts count, readings = parts ++ List.replicate count [] ∧ (∀ part ∈ parts, part ≠ []) ∧
    parts.flatten <+: content ∧ (count ≠ 0 → parts.flatten = content)

/-- Nothing is read after the last stretch. -/
theorem yields_nil_replicate (count : Nat) : Yields [] (List.replicate count []) := by
  induction count with
  | zero => trivial
  | succ count ih => exact ⟨rfl, ih⟩

/-- A file that is read in vain only after its end is given in one stretch. -/
theorem Brings.yields {content : Bytes} {readings : List Bytes} (h : Brings content readings) :
    Yields [content] readings := by
  obtain ⟨parts, count, rfl, hparts, hprefix, hend⟩ := h
  induction parts generalizing content with
  | nil =>
    cases count with
    | zero => trivial
    | succ count =>
      obtain rfl := hend (by simp)
      exact ⟨⟨List.prefix_rfl, fun _ => rfl⟩, yields_nil_replicate count⟩
  | cons part parts ih =>
    obtain ⟨hne, hparts⟩ := List.forall_mem_cons.mp hparts
    obtain ⟨rest, rfl⟩ := hprefix
    have hleft : leftAfter [(part :: parts).flatten ++ rest] part = [parts.flatten ++ rest] := by
      cases part with
      | nil => exact absurd rfl hne
      | cons => simp [leftAfter]
    refine ⟨⟨⟨parts.flatten ++ rest, by simp⟩, fun hnil => absurd hnil hne⟩, ?_⟩
    rw [hleft]
    refine ih hparts (List.prefix_append _ _) fun hcount => ?_
    simpa using hend hcount

/-! ## Blocks -/

/-- The blocks of a file that is given in stretches, the first of which has the given number. The
file ends with a stretch that does not end within a block. -/
def fileBlocks (options : Options) (number : Nat) : List Bytes → List Block
  | [] => []
  | stretch :: stretches =>
    let blocks := blocksFrom options number stretch
    blocks ++
      if options.variant.blockSize.length ∣ stretch.length then []
      else fileBlocks options (number + blocks.length) stretches

/-- A file of one stretch has the blocks of its contents. -/
@[simp]
theorem fileBlocks_singleton : fileBlocks options number [stretch] =
    blocksFrom options number stretch := by
  simp [fileBlocks]

/-- Numbers that are the same in one byte give the same blocks of a stretch. -/
theorem blocksFrom_congr (h : UInt8.ofNat number = UInt8.ofNat number') :
    blocksFrom options number stretch = blocksFrom options number' stretch := by
  fun_induction blocksFrom options number stretch generalizing number' with
  | case1 => simp
  | case2 number content hne ih =>
    have hnext : UInt8.ofNat (number + 1) = UInt8.ofNat (number' + 1) := by
      simp [UInt8.ofNat_add, h]
    rw [blocksFrom_of_ne_nil hne, ih hnext, pieceBlock, pieceBlock, h]

/-- Numbers that are the same in one byte give the same blocks. -/
theorem fileBlocks_congr (h : UInt8.ofNat number = UInt8.ofNat number') :
    fileBlocks options number stretches = fileBlocks options number' stretches := by
  induction stretches generalizing number number' with
  | nil => rfl
  | cons stretch stretches ih =>
    simp only [fileBlocks, blocksFrom_congr h]
    congr 2
    apply ih
    simp [UInt8.ofNat_add, h]

/-- Some stretches, of which a piece has been read before. -/
def resume (piece : Bytes) : List Bytes → List Bytes
  | [] => [piece]
  | stretch :: stretches => (piece ++ stretch) :: stretches

/-- Nothing has been read before the first piece. -/
theorem fileBlocks_resume_nil : fileBlocks options number (resume [] stretches) =
    fileBlocks options number stretches := by
  cases stretches <;> simp [resume, fileBlocks]

/-- The blocks of a file do not depend on how much of a piece has been read. -/
theorem resume_append (h : Gives stretches reading) (hne : reading ≠ []) :
    resume (piece ++ reading) (leftAfter stretches reading) = resume piece stretches := by
  cases stretches with
  | nil => exact absurd h hne
  | cons stretch stretches =>
    obtain ⟨⟨rest, rfl⟩, -⟩ := h
    cases reading with
    | nil => exact absurd rfl hne
    | cons => simp [resume, leftAfter]

/-- The blocks of a file when a piece of it has been read: there is one for the piece, unless it is
empty, which ends the file. -/
def gatheredBlocks (options : Options) (number : Nat) (piece : Bytes) (stretches : List Bytes) :
    List Block :=
  if piece = [] then []
  else pieceBlock options number piece :: fileBlocks options (number + 1) stretches

/-- A piece is complete when the reading brings nothing. -/
theorem gatheredBlocks_of_nil (h : Gives stretches [])
    (hshort : piece.length < options.variant.blockSize.length) :
    gatheredBlocks options number piece (leftAfter stretches []) =
      fileBlocks options number (resume piece stretches) := by
  -- The stretch is at its end, so the piece is the last one of it.
  have hlast : ∃ rest, resume piece stretches = piece :: rest ∧
      fileBlocks options (number + 1) (leftAfter stretches []) =
        fileBlocks options (number + 1) rest := by
    cases stretches with
    | nil => exact ⟨[], rfl, rfl⟩
    | cons stretch stretches =>
      obtain rfl := h.2 rfl
      exact ⟨stretches, by simp [resume], rfl⟩
  obtain ⟨rest, hresume, hrest⟩ := hlast
  rw [hresume, gatheredBlocks, hrest]
  split
  · simp [fileBlocks, *]
  · rename_i hne
    have hdvd : ¬options.variant.blockSize.length ∣ piece.length :=
      Nat.not_dvd_of_pos_of_lt (List.length_pos_iff.mpr hne) hshort
    simp [fileBlocks, blocksFrom_of_ne_nil hne, hdvd, List.take_of_length_le hshort.le,
      List.drop_of_length_le hshort.le]

/-- A piece at the front of a stretch that fills a block has a block of its own. -/
theorem fileBlocks_append_of_length_eq (hfull : piece.length = options.variant.blockSize.length) :
    fileBlocks options number ((piece ++ stretch) :: stretches) =
      pieceBlock options number piece ::
        fileBlocks options (number + 1) (stretch :: stretches) := by
  have hblocks : blocksFrom options number (piece ++ stretch) =
      pieceBlock options number piece :: blocksFrom options (number + 1) stretch :=
    blocksFrom_append_of_length_eq hfull stretch
  have hdvd : options.variant.blockSize.length ∣ (piece ++ stretch).length ↔
      options.variant.blockSize.length ∣ stretch.length := by
    rw [List.length_append, hfull, Nat.dvd_add_right (Nat.dvd_refl _)]
  simp only [fileBlocks, hblocks, hdvd, List.length_cons, List.cons_append]
  rw [Nat.add_assoc number 1, Nat.add_comm 1]

/-- A piece is complete when it fills a block. -/
theorem gatheredBlocks_of_length_eq (h : Gives stretches reading) (hne : reading ≠ [])
    (hfull : (piece ++ reading).length = options.variant.blockSize.length) :
    gatheredBlocks options number (piece ++ reading) (leftAfter stretches reading) =
      fileBlocks options number (resume piece stretches) := by
  have hne' : piece ++ reading ≠ [] := by simp [hne]
  rw [← resume_append h hne, gatheredBlocks, if_neg hne']
  cases hleft : leftAfter stretches reading with
  | nil =>
    -- Without a stretch that is left the file is at its end.
    have hempty : fileBlocks options (number + 1) [] = fileBlocks options (number + 1) [[]] := by
      simp [fileBlocks]
    rw [hempty, ← fileBlocks_append_of_length_eq hfull, List.append_nil]
    rfl
  | cons stretch stretches =>
    rw [← fileBlocks_append_of_length_eq hfull]
    rfl

/-! ## Deeds and words -/

/-- What a sender does on the line. -/
inductive Deed
  /-- The signal of a receiver that asks for blocks is acted on. -/
  | invited (signal : Control)
  /-- An acknowledgement is acted on. -/
  | acknowledged
  /-- Bytes are written. -/
  | wrote (data : Bytes)
  deriving DecidableEq

/-- The byte that a sender finds in the queue, if it waits for one. -/
def found? (s : Sender) : Option UInt8 :=
  match s.phase with
  | .doing (.listen _ task) | .doing (.answer _ _ task) =>
    match task.look s.pending s.moment.now with
    | .settled r => r.result.bind List.head?
    | .read _ _ => none
  | _ => none

/-- The signal that a sender acts on, if it finds one that it is waiting for. -/
def signalled (s : Sender) : Option Deed :=
  match s.phase, (found? s).bind Control.ofByte? with
  | .doing (.listen _ _), some signal =>
    if (mode? signal).isSome then some (.invited signal) else none
  | .doing (.answer _ _ _), some .ack => some .acknowledged
  | _, _ => none

/-- What an act does on the line. -/
def deed (act : Act Sender) : Option Deed :=
  match act.event with
  | .write data _ => some (.wrote data)
  | .silent => signalled act.state
  | _ => none

/-- The deeds of a run so far. -/
def deeds (past : List (Act Sender)) : List Deed :=
  past.filterMap deed

/-- The readings of a file in a run so far. What is more than was asked for does not count. -/
def readings (file : Nat) (past : List (Act Sender)) : List Bytes :=
  past.filterMap fun act =>
    match act.event with
    | .fetch file' most (.ok data) => if file' = file then some (data.take most) else none
    | _ => none

/-- A message is written so many times and then acknowledged. -/
def repeated (times : Nat) (message : Bytes) : List Deed :=
  List.replicate times (.wrote message) ++ [.acknowledged]

/-- The deeds for one message that is not the end of a file: in a stream it is written once, and
otherwise at least once until it is acknowledged. -/
def Said (streaming : Bool) (message : Bytes) (word : List Deed) : Prop :=
  if streaming then word = [.wrote message] else ∃ again, word = repeated (again + 1) message

/-- The deeds for the data of a file with the given blocks, up to the acknowledged end mark. -/
inductive DataWord (trailer : Trailer) (streaming : Bool) : List Block → List Deed → Prop
  | endOfFile (again : Nat) :
    DataWord trailer streaming [] (repeated (again + 1) [Control.eot.byte])
  | block {block : Block} {blocks : List Block} {first rest : List Deed}
      (hfirst : Said streaming (block.encode trailer) first)
      (hrest : DataWord trailer streaming blocks rest) :
    DataWord trailer streaming (block :: blocks) (first ++ rest)

/-- The deeds for a file. Every signal that asks for blocks decides the block check and the flow of
what comes after it. -/
inductive FileWord (options : Options) (header : FileHeader) (blocks : List Block) :
    List Deed → Prop
  | xmodem {signal : Control} {trailer : Trailer} {streaming : Bool} {data : List Deed}
      (hprotocol : options.protocol = .xmodem) (hmode : mode? signal = some (trailer, streaming))
      (hdata : DataWord trailer streaming blocks data) :
    FileWord options header blocks (.invited signal :: data)
  | ymodem {signal signal' : Control} {trailer trailer' : Trailer} {streaming streaming' : Bool}
      {first data : List Deed} (hprotocol : options.protocol = .ymodem)
      (hmode : mode? signal = some (trailer, streaming))
      (hfirst : Said streaming (header.toBlock.encode trailer) first)
      (hmode' : mode? signal' = some (trailer', streaming'))
      (hdata : DataWord trailer' streaming' blocks data) :
    FileWord options header blocks (.invited signal :: first ++ .invited signal' :: data)

/-- The deeds for files one after the other, the first of which has the given index, and for the
end of the batch if there is one. What a file gives when it is read is found by its index. -/
inductive BatchWord (options : Options) (unread : Nat → List Bytes) :
    Nat → List FileHeader → List Deed → Prop
  | single {index : Nat} (hprotocol : options.protocol = .xmodem) :
    BatchWord options unread index [] []
  | endOfBatch {index : Nat} {signal : Control} {trailer : Trailer} {streaming : Bool}
      (hprotocol : options.protocol = .ymodem) (hmode : mode? signal = some (trailer, streaming))
      (again : Nat) :
    BatchWord options unread index []
      (.invited signal :: repeated (again + 1) (FileHeader.endOfBatch.encode trailer))
  | file {index : Nat} {header : FileHeader} {headers : List FileHeader} {first rest : List Deed}
      (hfirst : FileWord options header (fileBlocks options 1 (unread index)) first)
      (hrest : BatchWord options unread (index + 1) headers rest) :
    BatchWord options unread index (header :: headers) (first ++ rest)

section Words

variable {trailer : Trailer} {streaming : Bool} {unread unread' : Nat → List Bytes} {index : Nat}
  {headers : List FileHeader} {word : List Deed}

theorem repeated_succ (times : Nat) (message : Bytes) :
    repeated (times + 1) message = .wrote message :: repeated times message := by
  simp [repeated, List.replicate_succ]

/-- A message is written once in a stream. -/
theorem said_wrote (h : streaming = true) (message : Bytes) :
    Said streaming message [.wrote message] := by
  subst h
  rfl

/-- A message that is answered is written at least once. -/
theorem said_repeated (h : streaming = false) (again : Nat) (message : Bytes) :
    Said streaming message (repeated (again + 1) message) := by
  subst h
  exact ⟨again, rfl⟩

/-- A message can be acknowledged when it has been written once. -/
theorem exists_said (streaming : Bool) (message : Bytes) : ∃ word, Said streaming message word := by
  cases streaming with
  | false => exact ⟨_, said_repeated rfl 0 message⟩
  | true => exact ⟨_, said_wrote rfl message⟩

theorem exists_dataWord (trailer : Trailer) (streaming : Bool) (blocks : List Block) :
    ∃ word, DataWord trailer streaming blocks word := by
  induction blocks with
  | nil => exact ⟨_, .endOfFile 0⟩
  | cons block blocks ih =>
    obtain ⟨first, hfirst⟩ := exists_said streaming (block.encode trailer)
    obtain ⟨rest, hrest⟩ := ih
    exact ⟨_, .block hfirst hrest⟩

/-- Blocks with a checksum can be asked for. -/
theorem mode?_nak : mode? .nak = some (.checksum, false) :=
  rfl

theorem exists_fileWord (options : Options) (header : FileHeader) (blocks : List Block) :
    ∃ word, FileWord options header blocks word := by
  obtain ⟨data, hdata⟩ := exists_dataWord .checksum false blocks
  cases hprotocol : options.protocol with
  | xmodem => exact ⟨_, .xmodem hprotocol mode?_nak hdata⟩
  | ymodem =>
    obtain ⟨first, hfirst⟩ := exists_said false (header.toBlock.encode .checksum)
    exact ⟨_, .ymodem hprotocol mode?_nak hfirst mode?_nak hdata⟩

/-- There is a word for all files. -/
theorem exists_batchWord (options : Options) (unread : Nat → List Bytes) (index : Nat)
    (headers : List FileHeader) : ∃ word, BatchWord options unread index headers word := by
  induction headers generalizing index with
  | nil =>
    cases hprotocol : options.protocol with
    | xmodem => exact ⟨_, .single hprotocol⟩
    | ymodem => exact ⟨_, .endOfBatch hprotocol mode?_nak 0⟩
  | cons header headers ih =>
    obtain ⟨first, hfirst⟩ := exists_fileWord options header (fileBlocks options 1 (unread index))
    obtain ⟨rest, hrest⟩ := ih (index + 1)
    exact ⟨_, .file hfirst hrest⟩

/-- The words for some files depend on these files only. -/
theorem BatchWord.congr (h : BatchWord options unread index headers word)
    (hsame : ∀ file, index ≤ file → unread' file = unread file) :
    BatchWord options unread' index headers word := by
  induction h with
  | single hprotocol => exact .single hprotocol
  | endOfBatch hprotocol hmode again => exact .endOfBatch hprotocol hmode again
  | @file index header headers first rest hfirst hrest ih =>
    rw [← hsame index le_rfl] at hfirst
    exact .file hfirst (ih fun file hfile => hsame file (by omega))

end Words

end BlockTransfer.Sender
