import BlockTransfer.Proofs.Receiver.Course
import BlockTransfer.Proofs.Receiver.Filing
import BlockTransfer.Proofs.Receiver.Intake
import Mathlib.Data.List.Basic

/-!
# What a receiver delivers

Whatever comes over the line, whenever a stop is requested and wherever the sink fails, a receiver
hands files on to the sink one after the other. It begins a file, accepts blocks with the numbers
1, 2, 3 and so on, stores after each of them what is known to belong to the file, and ends the
file with the number of bytes that were stored.

## Main definitions

* `Receiver.Deed`: what a receiver does with files.
* `Receiver.Delivery`: a file as it goes to the sink.
* `Receiver.Delivery.Sound`: a file that is made of its blocks as it should be.

## Main results

* `Receiver.standing_act`: what every act of a receiver preserves.
* `Receiver.trace_delivers`: what holds along every run of a receiver.
-/

namespace BlockTransfer.Receiver

/-! ## Deeds -/

/-- What a receiver does with files. -/
inductive Deed
  /-- The sink is told to begin a file. -/
  | opened (header : Option FileHeader)
  /-- A block is accepted. -/
  | accepted (block : Block)
  /-- The sink is given data. -/
  | stored (data : Bytes)
  /-- Progress is reported. -/
  | reported
  /-- The sink is told to end a file. -/
  | closed (file : ReceivedFile)

/-- What is done with files when something is seen. -/
def deedOf : Event → Option Deed
  | .openFile header _ => some (.opened header)
  | .store data _ => some (.stored data)
  | .report _ => some .reported
  | .closeFile file _ => some (.closed file)
  | _ => none

/-- What an act does with files. -/
def deed (act : Act Receiver) : Option Deed :=
  match acceptance act.state with
  | some accepted => some (.accepted accepted.2)
  | none => deedOf act.event

/-- The deeds of a run so far. -/
def deeds (past : List (Act Receiver)) : List Deed :=
  past.filterMap deed

/-- Unless a block is accepted, what is done is what is seen. -/
theorem deed_of_acceptance_eq_none {s : Receiver} (h : acceptance s = none) (event : Event) :
    deed ⟨s, event⟩ = deedOf event := by
  rw [deed, h]

theorem deeds_concat (past : List (Act Receiver)) (act : Act Receiver) :
    deeds (past ++ [act]) = deeds past ++ (deed act).toList := by
  rw [deeds, List.filterMap_append]
  cases hdeed : deed act <;> simp [deeds, hdeed]

/-! ## Files -/

/-- A block that was accepted, with the data that was stored before it was reported, if any. -/
structure Accepted where
  /-- The block. -/
  block : Block
  /-- The data. -/
  data : Option Bytes

/-- What is done when a block is accepted. -/
def Accepted.deeds (a : Accepted) : List Deed :=
  .accepted a.block :: a.data.toList.map .stored ++ [.reported]

/-- The payloads of accepted blocks. -/
def payloads (blocks : List Accepted) : List Bytes :=
  blocks.map (·.block.payload)

/-- The bytes that were stored for accepted blocks. -/
def written (blocks : List Accepted) : Bytes :=
  (blocks.filterMap (·.data)).flatten

theorem payloads_concat (blocks : List Accepted) (a : Accepted) :
    payloads (blocks ++ [a]) = payloads blocks ++ [a.block.payload] := by
  rw [payloads, List.map_append]
  rfl

theorem written_concat (blocks : List Accepted) (a : Accepted) :
    written (blocks ++ [a]) = written blocks ++ a.data.getD [] := by
  cases hdata : a.data <;> simp [written, hdata]

/-- A file as it goes to the sink. -/
structure Delivery where
  /-- The header, if there is one. -/
  header : Option FileHeader
  /-- The accepted blocks. -/
  blocks : List Accepted
  /-- The data that was stored at the end, if any. -/
  last : Option Bytes

namespace Delivery

variable {d : Delivery} {pad : UInt8}

/-- All bytes that were stored. -/
def bytes (d : Delivery) : Bytes :=
  written d.blocks ++ d.last.getD []

/-- What is done for a file before it ends. -/
def begun (d : Delivery) : List Deed :=
  .opened d.header :: d.blocks.flatMap Accepted.deeds

/-- What is done for a file. At its end the sink is told how many bytes were stored. -/
def deeds (d : Delivery) : List Deed :=
  d.begun ++ d.last.toList.map .stored ++ [.closed ⟨d.header, d.bytes.length⟩]

/-- The blocks of a file that has not come to its end are numbered from 1 on, modulo 256, and
after each of them just those bytes have been stored that belong to the file for certain. -/
structure Grown (d : Delivery) : Prop where
  numbers : d.blocks.map (·.block.number) =
    (List.range d.blocks.length).map fun i => UInt8.ofNat (i + 1)
  written_eq : ∀ earlier, earlier <+: d.blocks →
    written earlier = stored (declaredLength d.header) (payloads earlier)

/-- A file has the right contents at its end. -/
structure Sound (pad : UInt8) (d : Delivery) : Prop extends Grown d where
  bytes_eq : d.bytes = contents (declaredLength d.header) pad (payloads d.blocks)

/-- A file with one more block. -/
def accept (d : Delivery) (a : Accepted) : Delivery :=
  { d with blocks := d.blocks ++ [a] }

/-- A file at its end, when what was held back has been stored. -/
def finish (d : Delivery) (pad : UInt8) : Delivery :=
  { d with
    last := (heldBack (declaredLength d.header) (payloads d.blocks)).map (stripPadding · pad) }

theorem grown_nil (header : Option FileHeader) (last : Option Bytes) :
    Grown ⟨header, [], last⟩ where
  numbers := rfl
  written_eq earlier hearlier := by
    rw [List.prefix_nil.mp hearlier]
    exact (stored_nil _).symm

theorem begun_accept (d : Delivery) (a : Accepted) : (d.accept a).begun = d.begun ++ a.deeds := by
  simp only [begun, accept, List.flatMap_append, List.flatMap_singleton, List.cons_append]

/-- A file is still as it should be after a block with the next number, for which that has been
stored which the file has grown by. -/
theorem Grown.accept {a : Accepted} (h : d.Grown)
    (hnumber : a.block.number = UInt8.ofNat (d.blocks.length + 1))
    (hdata : stored (declaredLength d.header) (payloads d.blocks ++ [a.block.payload]) =
      stored (declaredLength d.header) (payloads d.blocks) ++ a.data.getD []) :
    (d.accept a).Grown where
  numbers := by
    simp only [Delivery.accept, List.map_append, List.length_append, List.map_cons, List.map_nil,
      List.length_cons, List.length_nil, List.range_succ, h.numbers, hnumber]
  written_eq earlier hearlier := by
    rcases List.prefix_concat_iff.mp hearlier with rfl | hprefix
    · -- What is stored for the new block is what the file has grown by.
      rw [written_concat, h.written_eq d.blocks List.prefix_rfl, payloads_concat]
      exact hdata.symm
    · exact h.written_eq earlier hprefix

/-- A file has the right contents when what was held back has been stored. -/
theorem Grown.finish (h : d.Grown) (pad : UInt8) : (d.finish pad).Sound pad where
  numbers := h.numbers
  written_eq := h.written_eq
  bytes_eq := by
    rw [bytes, contents]
    exact congrArg (· ++ _) (h.written_eq d.blocks List.prefix_rfl)

end Delivery

/-- A record of deeds goes through some files one after the other, the last of which need not have
come to its end. -/
def Recorded (pad : UInt8) (record : List Deed) : Prop :=
  ∃ files : List Delivery, (∀ file ∈ files, file.Sound pad) ∧
    record <+: files.flatMap Delivery.deeds

/-! ## Where a receiver is in a file -/

/-- What a receiver is doing with files. -/
inductive Region
  /-- It is between two files. -/
  | between
  /-- It is in a file, between two blocks. -/
  | within
  /-- A block has been accepted and this is to be stored on that. -/
  | storing (data : Bytes)
  /-- A block has been accepted and is to be reported. -/
  | accepting
  /-- The file has ended and this is still to be stored. -/
  | storingLast (data : Bytes)
  /-- The file has ended and everything has been stored. -/
  | closing

/-- What a receiver is doing with files while it waits for a block. -/
def Purpose.region : Purpose → Region
  | .solicited _ => .between
  | .data => .within

/-- What a receiver is doing with files at a step. -/
def Step.region : Step → Region
  | .start | .solicit _ | .attempt _ _ | .announced _ | .signal _ | .openFile _ _ | .finish =>
    .between
  | .expect purpose | .listen purpose _ | .collect purpose _ _ _ | .judge purpose _
  | .purge purpose _ | .refuse purpose | .missed purpose _ => purpose.region
  | .nextBlock _ | .repeated _ | .settle => .within
  | .store data _ => .storing data
  | .accept _ | .counted _ => .accepting
  | .storeLast data => .storingLast data
  | .closeFile => .closing

/-- The deeds for the file that a receiver is in, and what it keeps of that file. -/
inductive Unfinished (pad : UInt8) (s : Receiver) : Region → List Deed → Prop
  | between : Unfinished pad s .between []
  | within {d : Delivery} (hgrown : d.Grown)
      (hfiling : Filing d.header (payloads d.blocks) d.blocks.length s) :
      Unfinished pad s .within d.begun
  | storing {d : Delivery} {block : Block} {data : Bytes} (hgrown : d.Grown)
      (hnumber : block.number = UInt8.ofNat (d.blocks.length + 1))
      (htaken : Taken d.header (payloads d.blocks) block.payload d.blocks.length data s) :
      Unfinished pad s (.storing data) (d.begun ++ [.accepted block])
  | accepting {d : Delivery} {a : Accepted} (hgrown : (d.accept a).Grown)
      (hfiling : Filing d.header (payloads d.blocks ++ [a.block.payload]) d.blocks.length s) :
      Unfinished pad s .accepting (d.begun ++ .accepted a.block :: a.data.toList.map .stored)
  | storingLast {d : Delivery} {data : Bytes} (hsound : { d with last := some data }.Sound pad)
      (hheader : s.job.header = d.header)
      (hdelivered : s.job.delivered = (written d.blocks).length) :
      Unfinished pad s (.storingLast data) d.begun
  | closing {d : Delivery} (hsound : d.Sound pad) (hheader : s.job.header = d.header)
      (hdelivered : s.job.delivered = d.bytes.length) :
      Unfinished pad s .closing (d.begun ++ d.last.toList.map .stored)

/-- A record of deeds goes through some files one after the other and ends where the receiver
is. -/
def At (pad : UInt8) (record : List Deed) (s : Receiver) (region : Region) : Prop :=
  ∃ (files : List Delivery) (rest : List Deed), (∀ file ∈ files, file.Sound pad) ∧
    record = files.flatMap Delivery.deeds ++ rest ∧ Unfinished pad s region rest

/-- What a receiver keeps while it does nothing with files. -/
structure Kept where
  /-- The options. -/
  options : Options
  /-- The header of the file. -/
  header : Option FileHeader
  /-- The number of bytes that were stored. -/
  delivered : Nat
  /-- The payload that is held back. -/
  held : Option Bytes
  /-- The number of the next block. -/
  number : UInt8
  /-- The number of blocks that were counted. -/
  count : Nat

/-- What a receiver keeps. -/
def kept (s : Receiver) : Kept where
  options := s.options
  header := s.job.header
  delivered := s.job.delivered
  held := s.job.held
  number := s.session.blockNumber
  count := s.session.fileBlocks

section Regions

variable {pad : UInt8} {record rest : List Deed} {s s' : Receiver} {region : Region}
  {header : Option FileHeader} {sofar : List Bytes} {count : Nat}

/-- What is kept of a file does not change with anything else. -/
theorem Filing.of_kept (h : Filing header sofar count s) (hkept : kept s' = kept s) :
    Filing header sofar count s' where
  header_eq := (congrArg Kept.header hkept).trans h.header_eq
  delivered_eq := (congrArg Kept.delivered hkept).trans h.delivered_eq
  held_eq := (congrArg Kept.held hkept).trans h.held_eq
  number_eq := (congrArg Kept.number hkept).trans h.number_eq
  count_eq := (congrArg Kept.count hkept).trans h.count_eq

/-- What is about to be stored for a block does not change with anything else. -/
theorem Taken.of_kept {payload data : Bytes} (h : Taken header sofar payload count data s)
    (hkept : kept s' = kept s) : Taken header sofar payload count data s' where
  stored := h.stored
  filing := h.filing.of_kept (congrArg
    (fun k : Kept => { k with delivered := k.delivered + data.length }) hkept)

/-- A receiver stays where it is in a file as long as it keeps what belongs to it. -/
theorem At.of_kept (h : At pad record s region) (hkept : kept s' = kept s) :
    At pad record s' region := by
  obtain ⟨files, rest, hfiles, hrecord, hrest⟩ := h
  refine ⟨files, rest, hfiles, hrecord, ?_⟩
  cases hrest with
  | between => exact .between
  | within hgrown hfiling => exact .within hgrown (hfiling.of_kept hkept)
  | storing hgrown hnumber htaken => exact .storing hgrown hnumber (htaken.of_kept hkept)
  | accepting hgrown hfiling => exact .accepting hgrown (hfiling.of_kept hkept)
  | storingLast hsound hheader hdelivered =>
    exact .storingLast hsound ((congrArg Kept.header hkept).trans hheader)
      ((congrArg Kept.delivered hkept).trans hdelivered)
  | closing hsound hheader hdelivered =>
    exact .closing hsound ((congrArg Kept.header hkept).trans hheader)
      ((congrArg Kept.delivered hkept).trans hdelivered)

/-- Wherever a receiver is in a file, the file can still come to a right end. -/
theorem Unfinished.exists_file (h : Unfinished pad s region rest) :
    rest = [] ∨ ∃ file : Delivery, file.Sound pad ∧ rest <+: file.deeds := by
  cases h with
  | between => exact .inl rfl
  | @within d hgrown hfiling =>
    -- The file may end here.
    refine .inr ⟨d.finish pad, hgrown.finish pad, ?_⟩
    rw [Delivery.deeds, List.append_assoc]
    exact List.prefix_append _ _
  | @storing d block data hgrown hnumber htaken =>
    -- The data may be stored and the file end after that.
    have haccept : (d.accept ⟨block, some data⟩).Grown :=
      hgrown.accept hnumber htaken.stored
    refine .inr ⟨(d.accept ⟨block, some data⟩).finish pad, haccept.finish pad, ?_⟩
    have hbegun : ((d.accept ⟨block, some data⟩).finish pad).begun =
        d.begun ++ [.accepted block] ++ [.stored data, .reported] :=
      (d.begun_accept _).trans (List.append_assoc _ [_] [_, _]).symm
    rw [Delivery.deeds, hbegun]
    simp only [List.append_assoc, List.prefix_append_right_inj, List.prefix_append]
  | @accepting d a hgrown hfiling =>
    -- The block may be reported and the file end after that.
    refine .inr ⟨(d.accept a).finish pad, hgrown.finish pad, ?_⟩
    have hbegun : ((d.accept a).finish pad).begun = d.begun ++ a.deeds := d.begun_accept a
    rw [Delivery.deeds, hbegun, Accepted.deeds]
    simp only [List.append_assoc, List.prefix_append_right_inj, List.prefix_append]
  | @storingLast d data hsound =>
    -- The file ends with what is still to be stored.
    refine .inr ⟨_, hsound, ?_⟩
    rw [Delivery.deeds, List.append_assoc]
    exact List.prefix_append _ _
  | @closing d hsound =>
    refine .inr ⟨d, hsound, ?_⟩
    exact List.prefix_append _ _

/-- Wherever a receiver is in a file, its deeds are recorded. -/
theorem At.recorded (h : At pad record s region) : Recorded pad record := by
  obtain ⟨files, rest, hfiles, rfl, hrest⟩ := h
  rcases hrest.exists_file with rfl | ⟨file, hfile, hprefix⟩
  · exact ⟨files, hfiles, [], by rw [List.append_nil, List.append_nil]⟩
  · -- The unfinished file comes after those that have come to their end.
    refine ⟨files ++ [file], ?_, ?_⟩
    · exact List.forall_mem_append.mpr ⟨hfiles, List.forall_mem_singleton.mpr hfile⟩
    · rw [List.flatMap_append, List.flatMap_singleton]
      exact (List.prefix_append_right_inj _).mpr hprefix

/-! ## What becomes of a file -/

/-- Between two files the next one is begun. -/
theorem At.opened (h : At pad record s .between) (header : Option FileHeader) :
    At pad (record ++ [.opened header]) (begun s header) .within := by
  obtain ⟨files, rest, hfiles, rfl, hrest⟩ := h
  cases hrest
  refine ⟨files, [.opened header], hfiles, ?_, ?_⟩
  · rw [List.append_nil]
  · exact .within (Delivery.grown_nil header none) (Filing.begun s header)

/-- In a file the block with the next number is accepted. -/
theorem At.accepted (h : At pad record s .within) {block : Block}
    (hnumber : block.number = s.session.blockNumber) :
    ∃ (held : Option Bytes) (step : Step),
      take s block.payload =
        ({ s with job := { s.job with held } } : Receiver).goto step ∧
      At pad (record ++ [.accepted block]) { s with job := { s.job with held } }
        step.region := by
  obtain ⟨files, rest, hfiles, rfl, hrest⟩ := h
  cases hrest with
  | @within d hgrown hfiling =>
    have hnext : block.number = UInt8.ofNat (d.blocks.length + 1) :=
      hnumber.trans hfiling.number_eq
    obtain ⟨data, useful, held, htaken, htake | ⟨rfl, htake⟩⟩ := hfiling.taken block.payload
    · -- Something is stored for the block.
      refine ⟨held, _, htake, files, d.begun ++ [.accepted block], hfiles, ?_, ?_⟩
      · rw [List.append_assoc]
      · exact .storing hgrown hnext htaken
    · -- Nothing is stored for the first block of a file of unknown length.
      refine ⟨held, _, htake, files, d.begun ++ [.accepted block], hfiles, ?_, ?_⟩
      · rw [List.append_assoc]
      · have haccept : (d.accept ⟨block, none⟩).Grown := hgrown.accept hnext htaken.stored
        exact .accepting haccept htaken.filing

/-- What is to be stored for a block is stored. -/
theorem At.stored_block {data : Bytes} (h : At pad record s (.storing data)) :
    At pad (record ++ [.stored data])
      { s with job := { s.job with delivered := s.job.delivered + data.length } }
      .accepting := by
  obtain ⟨files, rest, hfiles, rfl, hrest⟩ := h
  cases hrest with
  | @storing d block _ hgrown hnumber htaken =>
    refine ⟨files, d.begun ++ [.accepted block, .stored data], hfiles, ?_, ?_⟩
    · simp only [List.append_assoc, List.cons_append, List.nil_append]
    · have haccept : (d.accept ⟨block, some data⟩).Grown :=
        hgrown.accept hnumber htaken.stored
      exact .accepting haccept htaken.filing

/-- A block that has been accepted is reported. -/
theorem At.reported (h : At pad record s .accepting) (useful : Nat) :
    At pad (record ++ [.reported]) (s.mapSession (·.completeBlock useful)) .within := by
  obtain ⟨files, rest, hfiles, rfl, hrest⟩ := h
  cases hrest with
  | @accepting d a hgrown hfiling =>
    refine ⟨files, (d.accept a).begun, hfiles, ?_, ?_⟩
    · simp only [Delivery.begun_accept, Accepted.deeds, List.append_assoc, List.cons_append]
    · have hcounted := hfiling.counted useful
      rw [← payloads_concat] at hcounted
      refine .within hgrown ?_
      rw [Delivery.accept, List.length_append]
      exact hcounted

/-- At the end of a file what was held back is still to be stored. -/
theorem At.settled (h : At pad record s .within) (hpad : s.options.pad = pad) :
    ∃ step : Step, settle s = s.goto step ∧ At pad record s step.region := by
  obtain ⟨files, rest, hfiles, rfl, hrest⟩ := h
  cases hrest with
  | @within d hgrown hfiling =>
    have hsound := hgrown.finish pad
    have hlast : (d.finish pad).last = s.job.held.map (stripPadding · pad) := by
      rw [hfiling.held_eq]
      rfl
    have hdelivered : s.job.delivered = (written d.blocks).length := by
      rw [hfiling.delivered_eq, hgrown.written_eq d.blocks List.prefix_rfl]
    cases hheld : s.job.held with
    | none =>
      -- Everything has been stored already.
      rw [hheld, Option.map_none] at hlast
      refine ⟨.closeFile, by rw [settle, hheld], files, d.begun, hfiles, rfl, ?_⟩
      have hrest : d.begun =
          (d.finish pad).begun ++ (d.finish pad).last.toList.map Deed.stored := by
        rw [hlast]
        exact (List.append_nil _).symm
      rw [hrest]
      refine .closing hsound hfiling.header_eq ?_
      rw [hdelivered, Delivery.bytes, hlast, Option.getD_none, List.append_nil]
      rfl
    | some last =>
      -- The latest payload is stored without its padding.
      rw [hheld, Option.map_some] at hlast
      refine ⟨.storeLast (stripPadding last s.options.pad), by rw [settle, hheld], files, d.begun,
        hfiles, rfl, ?_⟩
      refine .storingLast ?_ hfiling.header_eq hdelivered
      rw [hpad, ← hlast]
      exact hsound

/-- What is still to be stored at the end of a file is stored. -/
theorem At.stored_last {data : Bytes} (h : At pad record s (.storingLast data)) :
    At pad (record ++ [.stored data])
      { s with job := { s.job with delivered := s.job.delivered + data.length } }
      .closing := by
  obtain ⟨files, rest, hfiles, rfl, hrest⟩ := h
  cases hrest with
  | @storingLast d _ hsound hheader hdelivered =>
    refine ⟨files, d.begun ++ [.stored data], hfiles, ?_, ?_⟩
    · rw [List.append_assoc]
    · refine .closing hsound hheader ?_
      rw [Delivery.bytes, List.length_append]
      exact congrArg (· + data.length) hdelivered

/-- A file is closed with the number of bytes that were stored. -/
theorem At.closed (h : At pad record s .closing) :
    At pad (record ++ [.closed ⟨s.job.header, s.job.delivered⟩]) s' .between := by
  obtain ⟨files, rest, hfiles, rfl, hrest⟩ := h
  cases hrest with
  | @closing d hsound hheader hdelivered =>
    -- The file joins those that have come to their end.
    refine ⟨files ++ [d], [], ?_, ?_, .between⟩
    · exact List.forall_mem_append.mpr ⟨hfiles, List.forall_mem_singleton.mpr hsound⟩
    · rw [hheader, hdelivered, List.append_nil, List.flatMap_append, List.flatMap_singleton,
        Delivery.deeds, List.append_assoc, List.append_assoc]

end Regions

/-! ## Acts that do nothing with files -/

/-- Whether the sink is called and progress is reported at a step, or the end of a file is
settled. -/
def Step.handlesFile : Step → Bool
  | .openFile _ _ | .store _ _ | .counted _ | .settle | .storeLast _ | .closeFile => true
  | _ => false

/-- Whether an event is one between a party and the channel, or nothing. -/
def quiet : Event → Bool
  | .silent | .read _ _ | .write _ _ => true
  | _ => false

/-- A receiver has come to an end, or it is still where it was in its file. -/
def Remains (s : Receiver) (region : Region) (event : Event) (next : Receiver) : Prop :=
  quiet event = true ∧ (next.Parted ∨ ∃ step : Step, next.phase = .doing step ∧
    step.region = region ∧ kept next = kept s)

section Quiet

variable {s s' : Receiver} {region : Region} {event : Event} {step : Step}

/-- A receiver that fails has come to an end. -/
theorem remains_fail (hevent : quiet event = true) (e : TransferError) :
    Remains s region event (s'.fail e) :=
  ⟨hevent, .inl (Party.parted_fail s' e)⟩

/-- A receiver goes on with a step of the same kind. -/
theorem remains_goto (hevent : quiet event = true) (hregion : step.region = region)
    (hkept : kept s' = kept s) : Remains s region event (s'.goto step) :=
  ⟨hevent, .inr ⟨step, rfl, hregion, hkept⟩⟩

/-- A receiver writes a signal and goes on with a step of the same kind. -/
theorem ensures_say (signal : Control) (hregion : step.region = region)
    (hkept : kept s' = kept s) :
    (say s' signal step).Ensures (Remains s region) := by
  refine Party.ensures_write ?_ ?_
  · intro reply moment e
    exact remains_fail rfl e
  · intro moment
    exact remains_goto rfl hregion hkept

/-- A receiver listens and goes on with steps of the same kind. -/
theorem ensures_listen_remains {task : Line.Task} {again : Line.Task → Step}
    {heard : Option Bytes → Receiver → Receiver}
    (hagain : ∀ task, (again task).region = region)
    (hheard : ∀ result s' event, quiet event = true → kept s' = kept s →
      Remains s region event (heard result s')) :
    (s.listen task again heard).Ensures (Remains s region) := by
  refine Party.ensures_listen ?_ ?_ ?_ ?_
  · intro used pending _ _
    exact hheard (some used) _ _ rfl rfl
  · intro timeout e e' moment pending
    exact remains_fail rfl e'
  · intro timeout arrived moment used pending _
    exact hheard none _ _ rfl rfl
  · intro timeout arrived moment used pending task _ _ _
    exact remains_goto rfl (hagain task) rfl

/-- The first byte of a block does nothing with files. -/
theorem remains_heardStart (purpose : Purpose) (heard : Option Bytes)
    (hevent : quiet event = true) (hkept : kept s' = kept s) :
    Remains s purpose.region event (heardStart purpose heard s') :=
  heardStart_induction purpose heard (remains_fail hevent _)
    (fun _ _ _ => remains_goto hevent rfl hkept) fun _ => remains_goto hevent rfl hkept

/-- The rest of a block does nothing with files. -/
theorem remains_heardRest (purpose : Purpose) (frame : Bytes) (needed : Nat)
    (heard : Option Bytes) (hevent : quiet event = true) (hkept : kept s' = kept s) :
    Remains s purpose.region event (heardRest purpose frame needed heard s') :=
  heardRest_induction purpose frame needed heard (fun _ _ _ => remains_goto hevent rfl hkept)
    fun _ => remains_goto hevent rfl hkept

/-- What answers the receiver's signal does nothing with files. -/
theorem ensures_judgeSolicited (s : Receiver) (stage : Stage) (incoming : Incoming) :
    (judgeSolicited s stage incoming).Ensures (Remains s .between) := by
  cases incoming with
  | block block =>
    simp only [judgeSolicited]
    split
    · exact remains_goto rfl rfl rfl
    · unfold readHeader
      split
      · exact remains_fail rfl _
      · split
        · exact remains_fail rfl _
        · exact ensures_say .ack rfl rfl
        · exact remains_goto rfl rfl rfl
  | endOfFile =>
    simp only [judgeSolicited]
    split
    · exact remains_goto rfl rfl rfl
    · exact ensures_say .ack rfl rfl
  | corrupt e => exact remains_goto rfl rfl rfl
  | silence =>
    -- The check may change, but nothing that belongs to a file.
    refine remains_goto rfl rfl ?_
    unfold fallBack
    dsimp only
    split <;> rfl

/-- What comes in the middle of a file and is not the next block does nothing with files. -/
theorem ensures_judgeData (s : Receiver) (incoming : Incoming)
    (hother : ∀ block, incoming = .block block → block.number ≠ s.session.blockNumber) :
    (judgeData s incoming).Ensures (Remains s .within) := by
  cases incoming with
  | block block =>
    simp only [judgeData, if_neg (hother block rfl)]
    split
    · exact ensures_say .ack rfl rfl
    · exact remains_fail rfl _
  | endOfFile =>
    simp only [judgeData]
    split
    · exact ensures_say .nak rfl rfl
    · exact ensures_say .ack rfl rfl
  | corrupt e =>
    simp only [judgeData]
    split
    · exact remains_fail rfl _
    · exact remains_goto rfl rfl rfl
  | silence =>
    simp only [judgeData]
    split
    · exact remains_fail rfl _
    · split
      · exact ensures_say _ rfl rfl
      · exact ensures_say .nak rfl rfl

/-- A failed attempt does nothing with files. -/
theorem remains_retry (stage : Stage) (hregion : step.region = region) :
    Remains s region .silent (s.retry stage step) := by
  refine Party.retry_induction stage step ?_ ?_
  · intro e
    exact remains_fail rfl e
  · exact remains_goto rfl hregion rfl

/-- Unless a block is accepted or the step is one for files, nothing is done with files. -/
theorem ensures_remains (hphase : s.phase = .doing step) (haccept : acceptance s = none)
    (hstep : step.handlesFile = false) :
    (Receiver.step s step).Ensures (Remains s step.region) := by
  cases step with
  | start =>
    simp only [Receiver.step, start]
    split
    · exact ⟨rfl, .inl (Party.parted_reject s _)⟩
    · split
      · exact remains_goto rfl rfl rfl
      · exact remains_goto rfl rfl rfl
  | solicit stage => exact remains_goto rfl rfl rfl
  | attempt stage prompt =>
    refine Party.ensures_unlessAborted ⟨rfl, .inl (Party.parted_abort s)⟩ ?_
    split
    · exact ensures_say _ rfl rfl
    · exact remains_goto rfl rfl rfl
  | expect purpose => exact remains_goto rfl rfl rfl
  | listen purpose task =>
    refine ensures_listen_remains (fun task => rfl) ?_
    intro result s' event hevent hkept
    exact remains_heardStart purpose result hevent hkept
  | collect purpose frame needed task =>
    refine ensures_listen_remains (fun task => rfl) ?_
    intro result s' event hevent hkept
    exact remains_heardRest purpose frame needed result hevent hkept
  | judge purpose incoming =>
    cases purpose with
    | solicited stage => exact ensures_judgeSolicited s stage incoming
    | data =>
      refine ensures_judgeData s incoming ?_
      -- A block with the next number would be accepted.
      rintro block rfl hnumber
      rw [acceptance, hphase] at haccept
      simp only [hnumber, if_true] at haccept
      cases haccept
  | purge purpose task =>
    change (s.listen task (.purge purpose) fun _ s => s.goto (.refuse purpose)).Ensures _
    refine ensures_listen_remains (fun task => rfl) ?_
    intro result s' event hevent hkept
    exact remains_goto hevent rfl hkept
  | refuse purpose => exact ensures_say .nak rfl rfl
  | missed purpose prompt =>
    cases purpose with
    | solicited stage => exact remains_retry stage rfl
    | data => exact remains_retry _ rfl
  | announced header =>
    simp only [Receiver.step]
    split
    · exact ensures_say _ rfl rfl
    · exact ensures_say .ack rfl rfl
  | signal header => exact ensures_say _ rfl rfl
  | nextBlock first =>
    refine Party.ensures_unlessAborted ⟨rfl, .inl (Party.parted_abort s)⟩ ?_
    refine remains_goto rfl ?_ rfl
    cases first <;> rfl
  | accept useful =>
    simp only [Receiver.step]
    split
    · exact remains_goto rfl rfl rfl
    · exact ensures_say .ack rfl rfl
  | repeated number =>
    simp only [Receiver.step]
    split
    · exact ensures_say _ rfl rfl
    · exact remains_goto rfl rfl rfl
  | finish => exact ⟨rfl, .inl (Party.parted_complete s)⟩
  | openFile | store | counted | settle | storeLast | closeFile => cases hstep

end Quiet

/-! ## Runs -/

/-- A receiver is at a step of a run in which the sink has not failed. -/
structure Underway (options : Options) (past : List (Act Receiver)) (s : Receiver)
    (step : Step) : Prop where
  phase_eq : s.phase = .doing step
  options_eq : s.options = options
  well : ∀ act ∈ past, act.event.sinkFailed = false
  at_region : At options.pad (deeds past) s step.region

/-- A receiver is on its way, or it has come to an end. Its deeds are recorded, and nothing is
done with files after the sink has failed. -/
structure Standing (options : Options) (past : List (Act Receiver)) (s : Receiver) : Prop where
  state : s.Parted ∨ ∃ step, Underway options past s step
  recorded : Recorded options.pad (deeds past)
  failsafe : past.Pairwise fun before after => before.event.sinkFailed = true → deed after = none

section Runs

variable {options : Options} {past : List (Act Receiver)} {s next : Receiver} {step step' : Step}
  {event : Event}

/-- While the sink has not failed it may be called. -/
theorem Underway.failsafe (h : Underway options past s step) (act : Act Receiver) :
    (past ++ [act]).Pairwise fun before after =>
      before.event.sinkFailed = true → deed after = none := by
  -- The condition is about acts of the past in which the sink has failed, and there are none.
  have hnever : ∀ before ∈ past, ∀ after : Act Receiver,
      before.event.sinkFailed = true → deed after = none := by
    intro before hbefore after hfailed
    rw [h.well before hbefore] at hfailed
    cases hfailed
  refine List.pairwise_append.mpr ⟨?_, List.pairwise_singleton _ _, ?_⟩
  · exact List.pairwise_of_forall_mem_list fun before hbefore after _ =>
      hnever before hbefore after
  · intro before hbefore after _
    exact hnever before hbefore after

/-- A receiver comes to an end with the deeds that are recorded by then. -/
theorem Underway.parts (h : Underway options past s step) (haccept : acceptance s = none)
    (hparted : next.Parted)
    (hrecorded : Recorded options.pad (deeds past ++ (deedOf event).toList)) :
    Standing options (past ++ [⟨s, event⟩]) next where
  state := .inl hparted
  recorded := by
    rw [deeds_concat, deed_of_acceptance_eq_none haccept]
    exact hrecorded
  failsafe := h.failsafe _

/-- A receiver goes on with another step. -/
theorem Underway.proceeds (h : Underway options past s step) {done : Option Deed}
    (hdone : deed ⟨s, event⟩ = done) (hevent : event.sinkFailed = false)
    (hphase : next.phase = .doing step') (hoptions : next.options = s.options)
    (hat : At options.pad (deeds past ++ done.toList) next step'.region) :
    Standing options (past ++ [⟨s, event⟩]) next where
  state := by
    refine .inr ⟨step', hphase, hoptions.trans h.options_eq, ?_, ?_⟩
    · exact List.forall_mem_append.mpr ⟨h.well, List.forall_mem_singleton.mpr hevent⟩
    · rw [deeds_concat, hdone]
      exact hat
  recorded := by
    rw [deeds_concat, hdone]
    exact hat.recorded
  failsafe := h.failsafe _

/-- A receiver that does nothing with files stays where it is in its file, or comes to an end. -/
theorem Underway.remains (h : Underway options past s step) (haccept : acceptance s = none)
    (hremains : Remains s step.region event next) :
    Standing options (past ++ [⟨s, event⟩]) next := by
  obtain ⟨hevent, hnext⟩ := hremains
  -- Readings and writes are no deeds.
  have hdone : deedOf event = none := by
    cases event <;> simp_all [quiet, deedOf]
  have hdeed : deed ⟨s, event⟩ = none := (deed_of_acceptance_eq_none haccept event).trans hdone
  rcases hnext with hparted | ⟨step', hphase, hregion, hkept⟩
  · -- The receiver has come to an end, with the deeds of before.
    refine h.parts haccept hparted ?_
    rw [hdone, Option.toList_none, List.append_nil]
    exact h.at_region.recorded
  · -- The receiver goes on, and nothing has changed that belongs to its file.
    refine h.proceeds hdeed ?_ hphase (congrArg Kept.options hkept) ?_
    · cases event <;> simp_all [quiet, Event.sinkFailed]
    · rw [Option.toList_none, List.append_nil, hregion]
      exact h.at_region.of_kept hkept

/-- A receiver accepts a block. -/
theorem Underway.ensures_accept (h : Underway options past s step) {accepted : Trailer × Block}
    (haccept : acceptance s = some accepted) :
    (Receiver.step s step).Ensures fun event next =>
      Standing options (past ++ [⟨s, event⟩]) next := by
  obtain ⟨block, hphase, hnumber, rfl⟩ := phase_of_acceptance haccept
  obtain rfl : step = .judge .data (.block block) := by
    rw [h.phase_eq] at hphase
    cases hphase
    rfl
  have hdeed : deed ⟨s, .silent⟩ = some (.accepted block) := by
    rw [deed, haccept]
  obtain ⟨held, step', htake, hat⟩ := h.at_region.accepted hnumber
  rw [Receiver.step, judgeData, if_pos hnumber, htake]
  exact h.proceeds hdeed rfl rfl rfl (hat.of_kept rfl)

/-- A receiver that stores data goes on, or the sink has failed. -/
theorem Underway.ensures_keep (h : Underway options past s step) (haccept : acceptance s = none)
    (data : Bytes)
    (hat : At options.pad (deeds past ++ [.stored data])
      { s with job := { s.job with delivered := s.job.delivered + data.length } }
      step'.region) :
    (keep s data step').Ensures fun event next =>
      Standing options (past ++ [⟨s, event⟩]) next := by
  intro reply moment
  cases reply with
  | error e => exact h.parts haccept (Party.parted_fail _ _) hat.recorded
  | ok =>
    exact h.proceeds (deed_of_acceptance_eq_none haccept _) rfl rfl rfl (hat.of_kept rfl)

/-- A receiver does something with its file. -/
theorem Underway.ensures_handle (h : Underway options past s step) (haccept : acceptance s = none)
    (hstep : step.handlesFile = true) :
    (Receiver.step s step).Ensures fun event next =>
      Standing options (past ++ [⟨s, event⟩]) next := by
  have hat := h.at_region
  have hdeed := deed_of_acceptance_eq_none haccept
  cases step with
  | openFile header first =>
    have hopened := hat.opened header
    rw [Receiver.step, begin_eq]
    intro reply moment
    -- The call is recorded whether or not the sink fails.
    cases reply with
    | error e => exact h.parts haccept (Party.parted_fail _ _) hopened.recorded
    | ok => exact h.proceeds (hdeed _) rfl rfl rfl (hopened.of_kept rfl)
  | store data useful => exact h.ensures_keep haccept data hat.stored_block
  | counted useful =>
    intro moment
    exact h.proceeds (hdeed _) rfl rfl rfl ((hat.reported useful).of_kept rfl)
  | settle =>
    obtain ⟨step', hsettle, hat'⟩ := hat.settled (congrArg Options.pad h.options_eq)
    have hnone : deed ⟨s, .silent⟩ = none := hdeed .silent
    rw [Receiver.step, hsettle]
    refine h.proceeds hnone rfl rfl rfl ?_
    rw [Option.toList_none, List.append_nil]
    exact hat'.of_kept rfl
  | storeLast data => exact h.ensures_keep haccept data hat.stored_last
  | closeFile =>
    have hclosed : At options.pad
        (deeds past ++ [.closed ⟨s.job.header, s.job.delivered⟩]) s .between := hat.closed
    intro reply moment
    cases reply with
    | error e => exact h.parts haccept (Party.parted_fail _ _) hclosed.recorded
    | ok =>
      dsimp only
      split
      · exact h.parts haccept (Party.parted_complete _) hclosed.recorded
      · exact h.proceeds (hdeed _) rfl rfl rfl hat.closed
  | start | solicit | attempt | expect | listen | collect | judge | purge | refuse | missed
  | announced | signal | nextBlock | accept | repeated | finish => cases hstep

/-- Every act of a receiver leaves its deeds in order. -/
theorem standing_act (h : Standing options past s) :
    (act s).Ensures fun event next => Standing options (past ++ [⟨s, event⟩]) next := by
  refine Party.ensures_act ?_ ?_
  · intro step hphase
    rcases h.state with ⟨ending, hended | hended⟩ | ⟨step', hunderway⟩
    · rw [hended] at hphase
      cases hphase
    · rw [hended] at hphase
      cases hphase
    · obtain rfl : step' = step := by
        rw [hunderway.phase_eq] at hphase
        cases hphase
        rfl
      -- A block is accepted, the file is handled, or nothing is done with files.
      cases haccept : acceptance s with
      | some accepted => exact hunderway.ensures_accept haccept
      | none =>
        cases hstep : step'.handlesFile with
        | true => exact hunderway.ensures_handle haccept hstep
        | false =>
          refine (ensures_remains hunderway.phase_eq haccept hstep).mono ?_
          intro event next hremains
          exact hunderway.remains haccept hremains
  · -- The peer is told of the end, and nothing is done with files.
    intro ending reply moment hphase
    have hdeed : deed ⟨s, .write [Control.can.byte, Control.can.byte] reply⟩ = none := by
      rw [deed, acceptance, hphase]
      rfl
    refine ⟨.inl ⟨ending, .inr rfl⟩, ?_, ?_⟩
    · rw [deeds_concat, hdeed, Option.toList_none, List.append_nil]
      exact h.recorded
    · refine List.pairwise_append.mpr ⟨h.failsafe, List.pairwise_singleton _ _, ?_⟩
      intro before _ after hafter _
      rw [List.mem_singleton.mp hafter]
      exact hdeed

/-- A receiver that has done nothing yet has no deeds. -/
theorem standing_new (options : Options) (moment : Moment) :
    Standing options [] (new options moment) := by
  -- There is no file yet.
  have hat : At options.pad (deeds []) (new options moment) .between :=
    ⟨[], [], by simp, rfl, .between⟩
  refine ⟨.inr ⟨.start, rfl, rfl, ?_, hat⟩, hat.recorded, .nil⟩
  intro act hact
  cases hact

end Runs

/-- Whatever comes over the line, whenever a stop is requested and wherever the sink fails: a
receiver goes through files one after the other. It begins each with its header, accepts blocks
numbered from 1 on, stores after each what belongs to the file for certain, and closes the file
with the number of bytes that were stored. After the sink has failed nothing more is done with
files. The blocks are read from frames that have arrived one after the other. -/
theorem trace_delivers {ω : Type} (env : Surroundings ω) (options : Options) (moment : Moment)
    (w : ω) (acts : Nat) :
    let run := Action.trace env act acts (new options moment) w
    (∃ files : List Delivery, (∀ file ∈ files, file.Sound options.pad) ∧
      deeds run <+: files.flatMap Delivery.deeds) ∧
    (run.Pairwise fun before after => before.event.sinkFailed = true → deed after = none) ∧
    ∃ frames : List Bytes,
      List.Forall₂ (fun frame accepted => Block.decode frame accepted.1 = .ok accepted.2)
        frames (acceptances run) ∧
      InOrder frames (arrivals run) := by
  intro run
  have hstanding : Standing options run (Action.run env act acts (new options moment) w).state :=
    Action.invariant_trace (fun _ _ => standing_act) env acts w (standing_new options moment)
  have htracked : Tracked run (Action.run env act acts (new options moment) w).state :=
    Action.invariant_trace (fun _ _ => tracked_act) env acts w (tracked_new options moment)
  exact ⟨hstanding.recorded, hstanding.failsafe, htracked.sourced⟩

end BlockTransfer.Receiver
