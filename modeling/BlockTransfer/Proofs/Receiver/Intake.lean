import BlockTransfer.Proofs.Trace
import BlockTransfer.Receiver
import Mathlib.Data.List.Forall2

/-!
# Where accepted blocks come from

A receiver accepts no block that has not come over the line. The frames of the blocks that it
accepts stand among the bytes that have arrived, in the order in which they were accepted and
without overlap, and each of them passed the check that was in force.

## Main definitions

* `Receiver.acceptance`: the block that a receiver is about to accept.
* `Receiver.InOrder`: frames stand in some bytes one after the other.
* `Receiver.Sourced`: accepted blocks have frames in some bytes.

## Main results

* `Receiver.tracked_act`: every act of a receiver keeps track of the frames.
-/

namespace BlockTransfer.Receiver

/-! ## Frames among bytes -/

/-- Frames stand in some bytes in the given order and without overlap. -/
def InOrder : List Bytes → Bytes → Prop
  | [], _ => True
  | frame :: frames, bytes =>
    ∃ before after, bytes = before ++ frame ++ after ∧ InOrder frames after

/-- Frames still stand in the bytes after more bytes have come. -/
theorem InOrder.append_right {frames : List Bytes} {bytes : Bytes} (h : InOrder frames bytes)
    (more : Bytes) : InOrder frames (bytes ++ more) := by
  induction frames generalizing bytes with
  | nil => trivial
  | cons frame frames ih =>
    -- What comes later comes after the last frame.
    obtain ⟨before, after, rfl, hafter⟩ := h
    refine ⟨before, after ++ more, ?_, ih hafter⟩
    rw [List.append_assoc _ after]

/-- A frame that comes last stands after all others. -/
theorem InOrder.concat {frames : List Bytes} {bytes : Bytes} (h : InOrder frames bytes)
    (frame : Bytes) : InOrder (frames ++ [frame]) (bytes ++ frame) := by
  induction frames generalizing bytes with
  | nil => exact ⟨bytes, [], (List.append_nil _).symm, trivial⟩
  | cons first frames ih =>
    obtain ⟨before, after, rfl, hafter⟩ := h
    refine ⟨before, after ++ frame, ?_, ih hafter⟩
    rw [List.append_assoc _ after]

/-- Accepted blocks, each with the check that was in force, have frames in some bytes. -/
def Sourced (accepted : List (Trailer × Block)) (bytes : Bytes) : Prop :=
  ∃ frames : List Bytes,
    List.Forall₂ (fun frame accepted => Block.decode frame accepted.1 = .ok accepted.2)
      frames accepted ∧
    InOrder frames bytes

theorem Sourced.append_right {accepted : List (Trailer × Block)} {bytes : Bytes}
    (h : Sourced accepted bytes) (more : Bytes) : Sourced accepted (bytes ++ more) := by
  obtain ⟨frames, hdecoded, horder⟩ := h
  exact ⟨frames, hdecoded, horder.append_right more⟩

/-- A block may be accepted if its frame has come last. -/
theorem Sourced.concat {accepted : List (Trailer × Block)} {bytes frame : Bytes}
    {trailer : Trailer} {block : Block} (h : Sourced accepted bytes)
    (hdecode : Block.decode frame trailer = .ok block) :
    Sourced (accepted ++ [(trailer, block)]) (bytes ++ frame) := by
  obtain ⟨frames, hdecoded, horder⟩ := h
  refine ⟨frames ++ [frame], ?_, horder.concat frame⟩
  exact List.rel_append hdecoded (.cons hdecode .nil)

/-! ## Acceptance -/

/-- The block that a receiver is about to accept, with the check that is in force. -/
def acceptance (s : Receiver) : Option (Trailer × Block) :=
  match s.phase with
  | .doing (.judge .data (.block block)) =>
    if block.number = s.session.blockNumber then some (s.trailer, block) else none
  | _ => none

/-- A block is accepted in the middle of a file if it has the number that comes next. -/
theorem phase_of_acceptance {s : Receiver} {accepted : Trailer × Block}
    (h : acceptance s = some accepted) :
    ∃ block : Block, s.phase = .doing (.judge .data (.block block)) ∧
      block.number = s.session.blockNumber ∧ accepted = (s.trailer, block) := by
  unfold acceptance at h
  split at h
  · rename_i block hphase
    split at h
    · rename_i hnumber
      cases h
      exact ⟨block, hphase, hnumber, rfl⟩
    · cases h
  · cases h

/-- The blocks that were accepted in a run so far. -/
def acceptances (past : List (Act Receiver)) : List (Trailer × Block) :=
  past.filterMap fun act => acceptance act.state

/-- The bytes that have arrived in a run so far. -/
def arrivals (past : List (Act Receiver)) : Bytes :=
  past.flatMap fun act => act.event.arrived

/-! ## Acts -/

/-- The bytes of the frame that is being dealt with at a step: those that have come of a frame whose
rest is awaited, or a whole frame that has not been judged yet. -/
def Holds (trailer : Trailer) (frame : Bytes) : Step → Prop
  | .listen _ task => frame = [] ∧ task.wanted = some 1
  | .collect _ front needed task => frame = front ∧ task.wanted = some needed
  | .judge _ (.block block) | .openFile _ (some (.block block))
  | .nextBlock (some (.block block)) => Block.decode frame trailer = .ok block
  | _ => frame = []

/-- A receiver has come to an end, or it goes on with a frame. -/
def GoesOn (pending frame : Bytes) (next : Receiver) : Prop :=
  next.Parted ∨ ∃ step : Step, next.phase = .doing step ∧ next.pending = pending ∧
    Holds next.trailer frame step

/-- What an act does with bytes: none come, and the frame that is being dealt with is kept or
dropped, or else some come, and the front of the queue is used for the frame. -/
def Intakes (s : Receiver) (frame : Bytes) (event : Event) (next : Receiver) : Prop :=
  ∃ used frame' pending, frame ++ s.pending ++ event.arrived = used ++ frame' ++ pending ∧
    GoesOn pending frame' next

section Intakes

variable {s s' : Receiver} {frame : Bytes} {event : Event} {step : Step}

/-- A receiver that has come to an end deals with no frame any more. -/
theorem intakes_of_parted {next : Receiver} (h : next.Parted) : Intakes s frame event next :=
  ⟨frame ++ s.pending ++ event.arrived, [], [], by simp only [List.append_nil], .inl h⟩

/-- A receiver goes on without a frame. -/
theorem intakes_goto (hevent : event.arrived = []) (hpending : s'.pending = s.pending)
    (hholds : Holds s'.trailer [] step) : Intakes s frame event (s'.goto step) := by
  refine ⟨frame, [], s.pending, ?_, .inr ⟨step, rfl, hpending, hholds⟩⟩
  rw [hevent, List.append_nil, List.append_nil]

/-- A receiver goes on with the frame that it has. -/
theorem intakes_goto_same (hevent : event.arrived = []) (hpending : s'.pending = s.pending)
    (hholds : Holds s'.trailer frame step) : Intakes s frame event (s'.goto step) := by
  refine ⟨[], frame, s.pending, ?_, .inr ⟨step, rfl, hpending, hholds⟩⟩
  rw [hevent, List.append_nil, List.nil_append]

/-- A receiver writes a signal and goes on without a frame. -/
theorem ensures_say_intakes (signal : Control) (hpending : s'.pending = s.pending)
    (hholds : Holds s'.trailer [] step) : (say s' signal step).Ensures (Intakes s frame) := by
  refine Party.ensures_write ?_ ?_
  · intro reply moment e
    exact intakes_of_parted (Party.parted_fail _ e)
  · intro moment
    exact intakes_goto rfl hpending hholds

/-- What has come of a frame is kept as long as bytes are missing of it, and until it is judged if it
is read as a block. -/
theorem intakes_collect (purpose : Purpose) {more pending : Bytes}
    (hpending : s.pending = more ++ pending) :
    Intakes s frame .silent (collect purpose (frame ++ more) { s with pending }) := by
  have harrived : frame ++ s.pending ++ Event.silent.arrived = frame ++ more ++ pending := by
    rw [hpending, ← List.append_assoc]
    exact List.append_nil _
  unfold collect
  split
  · exact ⟨[], frame ++ more, pending, harrived, .inr ⟨_, rfl, rfl, rfl, rfl⟩⟩
  · cases hdecode : Block.decode (frame ++ more) s.trailer with
    | ok block => exact ⟨[], frame ++ more, pending, harrived, .inr ⟨_, rfl, rfl, hdecode⟩⟩
    | error e =>
      -- The frame is corrupt and used up.
      refine ⟨frame ++ more, [], pending, ?_, .inr ⟨_, rfl, rfl, rfl⟩⟩
      rw [harrived, List.append_nil]

/-- The first byte of a block may be the marker of a frame. -/
theorem intakes_heardStart (purpose : Purpose) {pending : Bytes} {byte : UInt8}
    (hpending : s.pending = byte :: pending) :
    Intakes s [] .silent (heardStart purpose (some [byte]) { s with pending }) := by
  have harrived : [] ++ s.pending ++ Event.silent.arrived = [byte] ++ [] ++ pending := by
    rw [hpending]
    exact List.append_nil _
  -- The byte is kept if it is a marker, and used up otherwise.
  simp only [heardStart]
  split
  · exact intakes_of_parted (Party.parted_fail _ _)
  · split
    · exact ⟨[byte], [], pending, harrived, .inr ⟨_, rfl, rfl, rfl⟩⟩
    · split
      · exact ⟨[byte], [], pending, harrived, .inr ⟨_, rfl, rfl, rfl⟩⟩
      · exact intakes_collect purpose hpending

/-- A receiver that hears nothing in time goes on without a frame. -/
theorem intakes_vain {arrived used pending : Bytes} {moment : Moment} {timeout : Nat}
    (h : s.pending ++ arrived = used ++ pending) (hholds : Holds s.trailer [] step) :
    Intakes s frame (.read timeout (.ok arrived))
      (({ s with pending, moment } : Receiver).goto step) := by
  refine ⟨frame ++ used, [], pending, ?_, .inr ⟨step, rfl, rfl, hholds⟩⟩
  rw [List.append_assoc, List.append_nil, List.append_assoc, ← h]
  rfl

/-- What answers the receiver's signal may be a block, whose frame is kept until the file is
begun. -/
theorem ensures_judgeSolicited_intakes (stage : Stage) {incoming : Incoming}
    (h : Holds s.trailer frame (.judge (.solicited stage) incoming)) :
    (judgeSolicited s stage incoming).Ensures (Intakes s frame) := by
  cases incoming with
  | block block =>
    simp only [judgeSolicited]
    split
    · -- The first block of a file without a header is judged again in that file.
      exact intakes_goto_same rfl rfl h
    · unfold readHeader
      split
      · exact intakes_of_parted (Party.parted_fail _ _)
      · split
        · exact intakes_of_parted (Party.parted_fail _ _)
        · exact ensures_say_intakes .ack rfl rfl
        · exact intakes_goto rfl rfl rfl
  | endOfFile =>
    simp only [judgeSolicited]
    split
    · exact intakes_goto rfl rfl rfl
    · exact ensures_say_intakes .ack rfl rfl
  | corrupt e => exact intakes_goto rfl rfl rfl
  | silence =>
    refine intakes_goto rfl ?_ rfl
    unfold fallBack
    dsimp only
    split <;> rfl

/-- A receiver that has taken a payload goes on without its frame. -/
theorem goesOn_take (s : Receiver) (payload : Bytes) :
    GoesOn s.pending [] (take s payload) := by
  unfold take
  split
  · exact .inr ⟨_, rfl, rfl, rfl⟩
  · dsimp only
    split
    · exact .inr ⟨_, rfl, rfl, rfl⟩
    · exact .inr ⟨_, rfl, rfl, rfl⟩

/-- What comes in the middle of a file is dealt with at once. -/
theorem ensures_judgeData_intakes (s : Receiver) (frame : Bytes) (incoming : Incoming) :
    (judgeData s incoming).Ensures (Intakes s frame) := by
  cases incoming with
  | block block =>
    simp only [judgeData]
    split
    · -- A block that is accepted uses its frame up.
      refine ⟨frame, [], s.pending, ?_, goesOn_take s block.payload⟩
      rw [List.append_nil]
      exact List.append_nil _
    · split
      · exact ensures_say_intakes .ack rfl rfl
      · exact intakes_of_parted (Party.parted_fail _ _)
  | endOfFile =>
    simp only [judgeData]
    split
    · exact ensures_say_intakes .nak rfl rfl
    · exact ensures_say_intakes .ack rfl rfl
  | corrupt e =>
    simp only [judgeData]
    split
    · exact intakes_of_parted (Party.parted_fail _ _)
    · exact intakes_goto rfl rfl rfl
  | silence =>
    simp only [judgeData]
    split
    · exact intakes_of_parted (Party.parted_fail _ _)
    · split
      · exact ensures_say_intakes _ rfl rfl
      · exact ensures_say_intakes .nak rfl rfl

/-- A failed attempt leaves no frame. -/
theorem intakes_retry (stage : Stage) (hholds : Holds s.trailer [] step) :
    Intakes s frame .silent (s.retry stage step) := by
  refine Party.retry_induction stage step ?_ ?_
  · intro e
    exact intakes_of_parted (Party.parted_fail _ e)
  · exact intakes_goto rfl rfl hholds

/-- A receiver that stores data has dealt with the frame. -/
theorem ensures_keep_intakes (data : Bytes) (hholds : Holds s.trailer [] step) :
    (keep s data step).Ensures (Intakes s frame) := by
  intro reply moment
  cases reply with
  | error e => exact intakes_of_parted (Party.parted_fail _ _)
  | ok => exact intakes_goto rfl rfl hholds

/-- The first byte of a block is taken alone from the queue. -/
theorem ensures_listen_intakes {purpose : Purpose} {task : Line.Task}
    (hwanted : task.wanted = some 1) :
    (s.listen task (.listen purpose) (heardStart purpose)).Ensures (Intakes s []) := by
  refine Party.ensures_listen ?_ ?_ ?_ ?_
  · intro used pending hpending hused
    -- Just one byte is taken, as that is what was awaited.
    rw [hwanted, Option.some.injEq] at hused
    obtain ⟨byte, rfl⟩ := List.length_eq_one_iff.mp hused.symm
    exact intakes_heardStart purpose hpending
  · intro timeout e e' moment pending
    exact intakes_of_parted (Party.parted_fail _ e')
  · intro timeout arrived moment used pending hpending
    exact intakes_vain hpending rfl
  · intro timeout arrived moment used pending task' hpending _ hwanted'
    exact intakes_vain hpending ⟨rfl, hwanted'.trans hwanted⟩

/-- The bytes that are missing of a block are taken from the queue after those that have come. -/
theorem ensures_collect_intakes {purpose : Purpose} {needed : Nat} {task : Line.Task}
    (hwanted : task.wanted = some needed) :
    (s.listen task (.collect purpose frame needed)
      (heardRest purpose frame needed)).Ensures (Intakes s frame) := by
  refine Party.ensures_listen ?_ ?_ ?_ ?_
  · intro used pending hpending _
    exact intakes_collect purpose hpending
  · intro timeout e e' moment pending
    exact intakes_of_parted (Party.parted_fail _ e')
  · intro timeout arrived moment used pending hpending
    exact intakes_vain hpending rfl
  · intro timeout arrived moment used pending task' hpending hkeeps hwanted'
    -- Nothing of the frame is lost while its rest is awaited.
    have hused : used = [] := by
      apply hkeeps
      rw [hwanted]
      exact Option.some_ne_none needed
    refine ⟨[], frame, pending, ?_, .inr ⟨_, rfl, rfl, rfl, hwanted'.trans hwanted⟩⟩
    rw [hused, List.nil_append] at hpending
    rw [List.append_assoc, List.nil_append, ← hpending]
    rfl

/-- What comes before the line is silent is thrown away. -/
theorem ensures_purge_intakes {purpose : Purpose} {task : Line.Task} :
    (s.listen task (.purge purpose) fun _ s => s.goto (.refuse purpose)).Ensures
      (Intakes s frame) := by
  refine Party.ensures_listen ?_ ?_ ?_ ?_
  · intro used pending hpending _
    refine ⟨frame ++ used, [], pending, ?_, .inr ⟨_, rfl, rfl, rfl⟩⟩
    rw [hpending, List.append_nil, ← List.append_assoc]
    exact List.append_nil _
  · intro timeout e e' moment pending
    exact intakes_of_parted (Party.parted_fail _ e')
  · intro timeout arrived moment used pending hpending
    exact intakes_vain hpending rfl
  · intro timeout arrived moment used pending task' hpending _ _
    exact intakes_vain hpending rfl

/-- Every step of a receiver takes bytes from the front of the queue. -/
theorem ensures_intakes (hholds : Holds s.trailer frame step) :
    (Receiver.step s step).Ensures (Intakes s frame) := by
  cases step with
  | start =>
    simp only [Receiver.step, start]
    split
    · exact intakes_of_parted (Party.parted_reject s _)
    · split
      · exact intakes_goto rfl rfl rfl
      · exact intakes_goto rfl rfl rfl
  | solicit stage => exact intakes_goto rfl rfl rfl
  | attempt stage prompt =>
    refine Party.ensures_unlessAborted (intakes_of_parted (Party.parted_abort s)) ?_
    split
    · exact ensures_say_intakes _ rfl rfl
    · exact intakes_goto rfl rfl rfl
  | expect purpose => exact intakes_goto rfl rfl ⟨rfl, rfl⟩
  | listen purpose task =>
    obtain ⟨rfl, hwanted⟩ := hholds
    exact ensures_listen_intakes hwanted
  | collect purpose front needed task =>
    obtain ⟨rfl, hwanted⟩ := hholds
    exact ensures_collect_intakes hwanted
  | judge purpose incoming =>
    cases purpose with
    | solicited stage => exact ensures_judgeSolicited_intakes stage hholds
    | data => exact ensures_judgeData_intakes s frame incoming
  | purge purpose task => exact ensures_purge_intakes
  | refuse purpose => exact ensures_say_intakes .nak rfl rfl
  | missed purpose prompt =>
    cases purpose with
    | solicited stage => exact intakes_retry stage rfl
    | data => exact intakes_retry _ rfl
  | announced header =>
    simp only [Receiver.step]
    split
    · exact ensures_say_intakes _ rfl rfl
    · exact ensures_say_intakes .ack rfl rfl
  | signal header => exact ensures_say_intakes _ rfl rfl
  | openFile header first =>
    intro reply moment
    cases reply with
    | error e => exact intakes_of_parted (Party.parted_fail _ _)
    | ok =>
      refine intakes_goto_same rfl rfl ?_
      -- The frame of a first block is kept while its file is begun.
      rcases first with _ | _ | _ | _ | _ <;> exact hholds
  | nextBlock first =>
    refine Party.ensures_unlessAborted (intakes_of_parted (Party.parted_abort s)) ?_
    refine intakes_goto_same rfl rfl ?_
    rcases first with _ | _ | _ | _ | _ <;> exact hholds
  | store data useful => exact ensures_keep_intakes data rfl
  | accept useful =>
    simp only [Receiver.step]
    split
    · exact intakes_goto rfl rfl rfl
    · exact ensures_say_intakes .ack rfl rfl
  | counted useful =>
    intro moment
    exact intakes_goto rfl rfl rfl
  | repeated number =>
    simp only [Receiver.step]
    split
    · exact ensures_say_intakes _ rfl rfl
    · exact intakes_goto rfl rfl rfl
  | settle =>
    simp only [Receiver.step, settle]
    split
    · exact intakes_goto rfl rfl rfl
    · exact intakes_goto rfl rfl rfl
  | storeLast data => exact ensures_keep_intakes data rfl
  | closeFile =>
    intro reply moment
    cases reply with
    | error e => exact intakes_of_parted (Party.parted_fail _ _)
    | ok =>
      dsimp only
      split
      · exact intakes_of_parted (Party.parted_complete _)
      · exact intakes_goto rfl rfl rfl
  | finish => exact intakes_of_parted (Party.parted_complete s)

end Intakes

/-! ## Runs -/

/-- The frames of the blocks that were accepted have arrived, and after them the frame that is
being dealt with and what stands in the queue. -/
def Tracked (past : List (Act Receiver)) (s : Receiver) : Prop :=
  ∃ used frame pending, Sourced (acceptances past) used ∧
    arrivals past = used ++ frame ++ pending ∧ GoesOn pending frame s

section Tracking

variable {past : List (Act Receiver)} {s : Receiver}

theorem acceptances_concat (past : List (Act Receiver)) (act : Act Receiver) :
    acceptances (past ++ [act]) = acceptances past ++ (acceptance act.state).toList := by
  rw [acceptances, List.filterMap_append]
  cases haccept : acceptance act.state <;> simp [acceptances, haccept]

theorem arrivals_concat (past : List (Act Receiver)) (act : Act Receiver) :
    arrivals (past ++ [act]) = arrivals past ++ act.event.arrived := by
  rw [arrivals, List.flatMap_append, List.flatMap_singleton]
  rfl

/-- The blocks that were accepted have frames among the bytes that have arrived. -/
theorem Tracked.sourced (h : Tracked past s) : Sourced (acceptances past) (arrivals past) := by
  obtain ⟨used, frame, pending, hsourced, harrivals, -⟩ := h
  rw [harrivals, List.append_assoc]
  exact hsourced.append_right _

/-- Every act of a receiver keeps track of the frames. -/
theorem tracked_act (h : Tracked past s) :
    (act s).Ensures fun event next => Tracked (past ++ [⟨s, event⟩]) next := by
  obtain ⟨used, frame, pending, hsourced, harrivals, hgoes⟩ := h
  refine Party.ensures_act ?_ ?_
  · intro step hphase
    rcases hgoes with ⟨ending, hended | hended⟩ | ⟨step', hphase', rfl, hholds⟩
    · rw [hended] at hphase
      cases hphase
    · rw [hended] at hphase
      cases hphase
    · obtain rfl : step' = step := by
        rw [hphase'] at hphase
        cases hphase
        rfl
      cases haccept : acceptance s with
      | none =>
        -- What the act uses joins what was used before.
        refine (ensures_intakes hholds).mono ?_
        rintro event next ⟨used', frame', pending', harrived, hgoes⟩
        refine ⟨used ++ used', frame', pending', ?_, ?_, hgoes⟩
        · rw [acceptances_concat, haccept, Option.toList_none, List.append_nil]
          exact hsourced.append_right used'
        · rw [arrivals_concat, harrivals]
          simp only [List.append_assoc] at harrived ⊢
          rw [harrived]
      | some accepted =>
        -- The frame that is being dealt with joins those of the accepted blocks.
        obtain ⟨block, hblock, hnumber, rfl⟩ := phase_of_acceptance haccept
        obtain rfl : step' = .judge .data (.block block) := by
          rw [hphase'] at hblock
          cases hblock
          rfl
        rw [Receiver.step, judgeData, if_pos hnumber]
        refine ⟨used ++ frame, [], s.pending, ?_, ?_, goesOn_take s block.payload⟩
        · rw [acceptances_concat, haccept]
          exact hsourced.concat hholds
        · rw [arrivals_concat, harrivals, List.append_nil]
          exact List.append_nil _
  · intro ending reply moment hphase
    -- A receiver that tells the peer of its end accepts nothing.
    have haccept : acceptance s = none := by
      rw [acceptance, hphase]
    refine ⟨used, frame, pending, ?_, ?_, .inl ⟨ending, .inr rfl⟩⟩
    · rw [acceptances_concat, haccept, Option.toList_none, List.append_nil]
      exact hsourced
    · rw [arrivals_concat, harrivals]
      exact List.append_nil _

/-- A receiver that has done nothing yet has no frames. -/
theorem tracked_new (options : Options) (moment : Moment) : Tracked [] (new options moment) :=
  ⟨[], [], [], ⟨[], .nil, trivial⟩, rfl, .inr ⟨.start, rfl, rfl, rfl⟩⟩

end Tracking

end BlockTransfer.Receiver
