import BlockTransfer.Proofs.Receiver.Delivery
import BlockTransfer.Script.Rehearsal
import BlockTransfer.Sink.Memory

/-!
# The end of a file at a receiver

A receiver closes a file once the end mark has been acknowledged for good. It does not look at the
length that the header declares: of a file that ends early just what has come is stored. The
acknowledgement is written before what was held back is stored and before the file is closed, so
the sender hears nothing of a sink that fails in these last two calls.

## Main definitions

* `Receiver.endsFile`: whether the receiver is about to acknowledge the end of a file for good.
* `Receiver.Leads`: what a receiver does with files from now on.

## Main results

* `Receiver.trace_closeFile`: what has been stored whenever a file is closed.
* `Receiver.trace_endsFile`: what has been stored when the end of a file is acknowledged, and what
  is done with the file after that.
-/

namespace BlockTransfer.Receiver

variable {ω : Type} {env : Surroundings ω} {options : Options} {moment : Moment} {w : ω}
  {acts : Nat} {before after : List (Act Receiver)} {a : Act Receiver} {s : Receiver}

/-- In a run that is cut at some act the receiver has gone through its files in order up to it. -/
theorem standing_of_trace_eq
    (h : Action.trace env act acts (new options moment) w = before ++ a :: after) :
    Standing options before a.state := by
  obtain ⟨sofar, _, _, _, _, rfl, hstate, -⟩ := Action.exists_step_of_trace_eq h
  rw [← hstate]
  exact Action.invariant_trace (fun _ _ => standing_act) env sofar w (standing_new options moment)

/-- A receiver that is at a step in a run is where the step says in its file. -/
theorem Standing.underway {past : List (Act Receiver)} {step : Step}
    (h : Standing options past s) (hphase : s.phase = .doing step) :
    Underway options past s step := by
  obtain ⟨ending, hended | hended⟩ | ⟨step', hunderway⟩ := h.state
  · simp [hended] at hphase
  · simp [hended] at hphase
  · obtain rfl : step' = step := by simpa [hunderway.phase_eq] using hphase
    exact hunderway

/-! ## Closing a file -/

section Closing

/-- A receiver closes a file only at the step for that, with the number of bytes that it has
stored. -/
theorem ensures_closeFile (s : Receiver) :
    (act s).Ensures fun event _ => ∀ file reply, event = .closeFile file reply →
      s.phase = .doing .closeFile ∧ file = ⟨s.job.header, s.job.delivered⟩ := by
  apply Party.ensures_act
  · intro step hphase
    cases haccept : acceptance s with
    | some accepted =>
      -- Accepting a block cannot be seen.
      obtain ⟨block, hjudge, hnumber, -⟩ := phase_of_acceptance haccept
      obtain rfl : step = .judge .data (.block block) := by simpa [hphase] using hjudge
      rw [Receiver.step, judgeData, if_pos hnumber]
      intro file reply hevent
      cases hevent
    | none =>
      cases hstep : step.handlesFile with
      | false =>
        apply (ensures_remains hphase haccept hstep).mono
        rintro event next ⟨hquiet, -⟩ file reply rfl
        cases hquiet
      | true =>
        cases step with
        | closeFile =>
          intro reply moment file reply' hevent
          cases hevent
          exact ⟨hphase, rfl⟩
        | openFile | store | storeLast =>
          intro reply moment file reply' hevent
          cases hevent
        | counted =>
          intro moment file reply hevent
          cases hevent
        | settle =>
          intro file reply hevent
          cases hevent
        | _ => cases hstep
  · intro ending reply moment hphase file reply' hevent
    cases hevent

/-- Whatever the peer does: when a receiver closes a file, the sink has been given just the file
that is made of the accepted blocks, and it is told their number of bytes. Of a file of declared
length these are the payloads as far as they belong to the file, so they have that length if and
only if enough blocks have come; the receiver itself does not compare the two. -/
theorem trace_closeFile {file : ReceivedFile} {reply : Except IoError Unit}
    (h : Action.trace env act acts (new options moment) w = before ++ a :: after)
    (hclose : a.event = .closeFile file reply) :
    ∃ (files : List Delivery) (d : Delivery),
      (∀ file ∈ files, file.Sound options.pad) ∧ d.Sound options.pad ∧
      deeds before = files.flatMap Delivery.deeds ++ (d.begun ++ d.last.toList.map .stored) ∧
      (∀ act ∈ before, act.event.sinkFailed = false) ∧
      file = ⟨d.header, d.bytes.length⟩ ∧
      ∀ length, declaredLength d.header = some length →
        d.bytes = (payloads d.blocks).flatten.take length ∧
        (file.bytes = length ↔ length ≤ (payloads d.blocks).flatten.length) := by
  obtain ⟨_, _, _, _, _, -, -, hstep, hevent, -⟩ := Action.exists_step_of_trace_eq h
  obtain ⟨hphase, hfile⟩ :=
    (ensures_closeFile a.state).of_step hstep file reply (hevent.symm.trans hclose)
  have hunderway := (standing_of_trace_eq h).underway hphase
  obtain ⟨files, rest, hfiles, hdeeds, hrest⟩ := hunderway.at_region
  cases hrest with
  | @closing d hsound hheader hdelivered =>
    have hbytes : file = ⟨d.header, d.bytes.length⟩ := by rw [hfile, hheader, hdelivered]
    refine ⟨files, d, hfiles, hsound, hdeeds, hunderway.well, hbytes, ?_⟩
    intro length hlength
    have htake : d.bytes = (payloads d.blocks).flatten.take length := by
      simp [hsound.bytes_eq, hlength, contents, stored, heldBack]
    refine ⟨htake, ?_⟩
    simp only [hbytes, htake, List.length_take]
    omega

/-- A peer that announces a file of ten bytes, sends none of them and ends the batch. -/
def emptyHanded : Script.Play :=
  let header : FileHeader := { name := "a", length := some 10 }
  { replies :=
      [[⟨0, .ok (header.toBlock.encode .checksum)⟩], [],
        [⟨0, .ok [Control.eot.byte]⟩], [⟨0, .ok [Control.eot.byte]⟩], [],
        [⟨0, .ok (FileHeader.endOfBatch.encode .checksum)⟩]] }

/-- A file is closed with no bytes if none of the ten that were declared has come. -/
theorem trace_closeFile_emptyHanded :
    let setup : Script.Setup MemorySink := { sink := MemorySink.sink }
    let options : Options := { protocol := .ymodem, variant := .checksum }
    ∃ (before after : List (Act Receiver)) (a : Act Receiver) (reply : Except IoError Unit)
      (d : Delivery),
      Action.trace (Script.World.surroundings setup) act 60 (new options ⟨0, false⟩)
        (Script.World.new setup emptyHanded [] {}) = before ++ a :: after ∧
      a.event = .closeFile ⟨d.header, 0⟩ reply ∧ d.Sound options.pad ∧
      declaredLength d.header = some 10 ∧ ¬10 ≤ (payloads d.blocks).flatten.length := by
  intro setup options
  have hclosed : (Action.trace (Script.World.surroundings setup) act 60 (new options ⟨0, false⟩)
      (Script.World.new setup emptyHanded [] {})).any (fun a =>
        match a.event with
        | .closeFile file _ => decide (declaredLength file.header = some 10 ∧ file.bytes = 0)
        | _ => false) = true := by
    decide +kernel
  obtain ⟨a, hmem, hclosed⟩ := List.any_eq_true.mp hclosed
  obtain ⟨before, after, htrace⟩ := List.append_of_mem hmem
  split at hclosed
  · rename_i file reply hevent
    obtain ⟨hdeclared, hbytes⟩ := of_decide_eq_true hclosed
    obtain ⟨-, d, -, hsound, -, -, hfile, hlength⟩ := trace_closeFile htrace hevent
    subst hfile
    refine ⟨before, after, a, reply, d, htrace, ?_, hsound, hdeclared, ?_⟩
    · rw [hevent, ← hbytes]
    · intro hmany
      -- The whole file would have been stored then.
      have hten := (hlength 10 hdeclared).2.mpr hmany
      omega
  · cases hclosed

/-- A batch is complete for its receiver although a file of ten bytes has been stored with none of
them. -/
theorem rehearseReceive_emptyHanded :
    let setup : Script.Setup MemorySink := { sink := MemorySink.sink }
    let run := Script.rehearseReceive setup { protocol := .ymodem, variant := .checksum }
      (Script.World.new setup emptyHanded [] {})
    run.ending = some (.ok (.completed ⟨[⟨some "a", 0⟩], 0, 0, 0, 0⟩)) ∧
      run.world.sink.files = [(⟨some { name := "a", length := some 10 }, 0⟩, [])] := by
  decide +kernel

end Closing

/-! ## Acknowledging the end of a file -/

section Ending

/-- Whether the receiver is about to acknowledge the end of a file for good. In a batch that is at
the second end mark. -/
def endsFile (s : Receiver) : Bool :=
  match s.phase with
  | .doing (.judge .data .endOfFile) => s.options.protocol = .xmodem || s.job.endSeen
  | _ => false

theorem endsFile_eq_true_iff : endsFile s = true ↔
    s.phase = .doing (.judge .data .endOfFile) ∧
      (s.options.protocol = .xmodem ∨ s.job.endSeen = true) := by
  unfold endsFile
  split
  · simp [*]
  · rename_i hother
    simpa using fun hphase => absurd hphase hother

/-- The deeds that end a file after the given number of stored bytes. -/
def endDeeds (header : Option FileHeader) (delivered : Nat) (last : Option Bytes) : List Deed :=
  last.toList.map .stored ++ [.closed ⟨header, delivered + (last.getD []).length⟩]

/-- A record does not get to the end of some deeds, or it begins with them. -/
def Pursues (record rest : List Deed) : Prop :=
  record <+: rest ∨ rest <+: record

/-- What a receiver does with files from now on begins with some deeds, unless the run is over
before. -/
def Leads (env : Surroundings ω) (s : Receiver) (rest : List Deed) : Prop :=
  ∀ acts w, Pursues (deeds (Action.trace env act acts s w)) rest

theorem deeds_cons (act : Act Receiver) (past : List (Act Receiver)) :
    deeds (act :: past) = (deed act).toList ++ deeds past := by
  cases hdeed : deed act <;> simp [deeds, hdeed]

/-- After every run nothing is left that has to be done. -/
theorem leads_nil (s : Receiver) : Leads env s [] :=
  fun _ _ => .inr List.nil_prefix

/-- A receiver is led by what its next act does with files and by what leads it after that. -/
theorem leads_of_ensures {rest : List Deed}
    (h : (act s).Ensures fun event next =>
      ∃ rest', rest = (deed ⟨s, event⟩).toList ++ rest' ∧ Leads env next rest') :
    Leads env s rest := by
  intro acts w
  cases acts with
  | zero => exact .inl List.nil_prefix
  | succ acts =>
    rw [Action.trace]
    cases hstep : (act s).step env w with
    | error ending => exact .inl List.nil_prefix
    | ok next =>
      obtain ⟨rest', rfl, hnext⟩ := h.of_step hstep
      simpa only [deeds_cons, Pursues, List.prefix_append_right_inj] using hnext acts next.2

/-- A receiver that has come to an end does nothing with files any more. -/
theorem leads_of_parted (h : s.Parted) (rest : List Deed) : Leads env s rest := by
  -- The transfer may be over already.
  have hover {s : Receiver} {ending : Ending} (hphase : s.phase = .over ending) :
      Leads env s rest := by
    apply leads_of_ensures
    simp [act, Party.act, hphase, Action.Ensures]
  obtain ⟨ending, hphase | hphase⟩ := h
  · apply leads_of_ensures
    simp only [act, Party.act, hphase]
    intro reply moment
    refine ⟨rest, ?_, hover rfl⟩
    simp [deed, acceptance, hphase, deedOf]
  · exact hover hphase

/-- A receiver that is about to close a file does so. -/
theorem leads_closeFile (hphase : s.phase = .doing .closeFile) :
    Leads env s (endDeeds s.job.header s.job.delivered none) := by
  apply leads_of_ensures
  simp only [act, Party.act, hphase, Receiver.step]
  intro reply moment
  refine ⟨[], ?_, leads_nil _⟩
  simp [deed, acceptance, hphase, deedOf, endDeeds]

/-- A receiver that is about to store what was held back does so and closes the file, unless the
sink fails. -/
theorem leads_storeLast {data : Bytes} (hphase : s.phase = .doing (.storeLast data)) :
    Leads env s (endDeeds s.job.header s.job.delivered (some data)) := by
  apply leads_of_ensures
  simp only [act, Party.act, hphase, Receiver.step]
  intro reply moment
  refine ⟨endDeeds s.job.header (s.job.delivered + data.length) none, ?_, ?_⟩
  · simp [deed, acceptance, hphase, deedOf, endDeeds]
  · cases reply with
    | error e => exact leads_of_parted (Party.parted_fail _ _) _
    | ok => exact leads_closeFile rfl

/-- A receiver that settles a file stores what was held back, without padding, and closes the
file. -/
theorem leads_settle (hphase : s.phase = .doing .settle) :
    Leads env s (endDeeds s.job.header s.job.delivered
      (s.job.held.map (stripPadding · s.options.pad))) := by
  apply leads_of_ensures
  simp only [act, Party.act, hphase, Receiver.step]
  have hdeed : deed ⟨s, .silent⟩ = none := by simp [deed, acceptance, hphase, deedOf]
  refine ⟨_, (congrArg (·.toList ++ _) hdeed).symm, ?_⟩
  · cases hheld : s.job.held with
    | none =>
      simp only [settle, hheld]
      exact leads_closeFile rfl
    | some last =>
      simp only [settle, hheld]
      exact leads_storeLast rfl

/-- When the end of a file is acknowledged for good, what is left of the file is done after
that. -/
theorem ensures_endsFile (h : endsFile s = true) :
    (act s).Ensures fun event next => (∃ reply, event = .write [Control.ack.byte] reply) ∧
      Leads env next (endDeeds s.job.header s.job.delivered
        (s.job.held.map (stripPadding · s.options.pad))) := by
  obtain ⟨hphase, hgood⟩ := endsFile_eq_true_iff.mp h
  have hfinal : ¬(s.options.protocol = .ymodem ∧ ¬s.job.endSeen = true) := by
    rintro ⟨hymodem, hunseen⟩
    rcases hgood with hxmodem | hseen
    · simp [hxmodem] at hymodem
    · exact hunseen hseen
  simp only [act, Party.act, hphase, Receiver.step, judgeData]
  split
  · rename_i hfirst
    exact absurd hfirst hfinal
  · apply Party.ensures_write
    · intro reply moment e
      exact ⟨⟨reply, rfl⟩, leads_of_parted (Party.parted_fail _ _) _⟩
    · intro moment
      exact ⟨⟨_, rfl⟩, leads_settle rfl⟩

/-- Whatever the peer does and wherever the sink fails: when the end of a file is acknowledged for
good, all that belongs to the file for certain has been stored, and the file has not been closed.
What was held back is stored and the file is closed only after that, so the acknowledgement does
not tell whether this goes well. Of a file of declared length nothing is held back. -/
theorem trace_endsFile
    (h : Action.trace env act acts (new options moment) w = before ++ a :: after)
    (hends : endsFile a.state = true) :
    ∃ (files : List Delivery) (d : Delivery),
      (∀ file ∈ files, file.Sound options.pad) ∧ d.Grown ∧
      deeds before = files.flatMap Delivery.deeds ++ d.begun ∧
      (∀ act ∈ before, act.event.sinkFailed = false) ∧
      (∃ reply, a.event = .write [Control.ack.byte] reply) ∧
      (d.finish options.pad).Sound options.pad ∧
      Pursues (deeds after) ((d.finish options.pad).last.toList.map .stored ++
        [.closed ⟨d.header, (d.finish options.pad).bytes.length⟩]) ∧
      (declaredLength d.header ≠ none → written d.blocks = (d.finish options.pad).bytes) := by
  have hunderway := (standing_of_trace_eq h).underway (endsFile_eq_true_iff.mp hends).1
  obtain ⟨_, more, next, w', w'', -, -, hstep, hevent, rfl⟩ := Action.exists_step_of_trace_eq h
  obtain ⟨⟨reply, hack⟩, hleads⟩ := (ensures_endsFile hends).of_step hstep
  obtain ⟨files, rest, hfiles, hdeeds, hrest⟩ := hunderway.at_region
  cases hrest with
  | @within d hgrown hfiling =>
    have hlast : (d.finish options.pad).last =
        a.state.job.held.map (stripPadding · a.state.options.pad) := by
      rw [hfiling.held_eq, hunderway.options_eq]
      rfl
    have hbytes : (d.finish options.pad).bytes.length =
        a.state.job.delivered + ((d.finish options.pad).last.getD []).length := by
      rw [hfiling.delivered_eq, ← hgrown.written_eq d.blocks List.prefix_rfl]
      exact List.length_append
    refine ⟨files, d, hfiles, hgrown, hdeeds, hunderway.well, ⟨reply, hevent.trans hack⟩,
      hgrown.finish _, ?_, ?_⟩
    · rw [hbytes, hlast, ← hfiling.header_eq]
      exact hleads more w''
    · intro hdeclared
      obtain ⟨length, hlength⟩ := Option.ne_none_iff_exists'.mp hdeclared
      have hnone : (d.finish options.pad).last = none := by
        simp [Delivery.finish, hlength, heldBack]
      simp only [Delivery.bytes, hnone, Option.getD_none, List.append_nil]
      rfl

/-- A peer that sends a file of three bytes. -/
def punctual (options : Options) : Script.Play where
  replies :=
    [[⟨0, .ok ((Sender.pieceBlock options 1 [97, 98, 99]).encode options.variant.trailer)⟩],
      [⟨0, .ok [Control.eot.byte]⟩]]

/-- The end of a file of three bytes is acknowledged before they are stored and before the file is
closed. -/
theorem trace_endsFile_punctual :
    let setup : Script.Setup MemorySink := { sink := MemorySink.sink }
    let options : Options := { protocol := .xmodem, variant := .checksum }
    ∃ (before after : List (Act Receiver)) (a : Act Receiver) (d : Delivery),
      Action.trace (Script.World.surroundings setup) act 60 (new options ⟨0, false⟩)
        (Script.World.new setup (punctual options) [] {}) = before ++ a :: after ∧
      (∃ reply, a.event = .write [Control.ack.byte] reply) ∧ d.Grown ∧
      (d.finish options.pad).Sound options.pad ∧
      Pursues (deeds after) ((d.finish options.pad).last.toList.map .stored ++
        [.closed ⟨d.header, (d.finish options.pad).bytes.length⟩]) := by
  intro setup options
  have hends : (Action.trace (Script.World.surroundings setup) act 60 (new options ⟨0, false⟩)
      (Script.World.new setup (punctual options) [] {})).any
        (fun a => endsFile a.state) = true := by
    decide +kernel
  obtain ⟨a, hmem, hends⟩ := List.any_eq_true.mp hends
  obtain ⟨before, after, htrace⟩ := List.append_of_mem hmem
  obtain ⟨-, d, -, hgrown, -, -, hack, hsound, hafter, -⟩ := trace_endsFile htrace hends
  exact ⟨before, after, a, d, htrace, hack, hgrown, hsound, hafter⟩

/-- A sender that hears just what a receiver has written is done, although the receiver has failed
to close the file. -/
theorem rehearse_of_failing_close :
    let options : Options := { protocol := .xmodem, variant := .checksum }
    let failing : Script.Setup MemorySink :=
      { sink := MemorySink.sink, sinkFaults := [(.closeFile, 0)] }
    let receiving := Script.rehearseReceive failing options
      (Script.World.new failing (punctual options) [] {})
    let heard : Script.Play :=
      { initial := [⟨0, .ok [Control.nak.byte]⟩]
        replies := [[⟨0, .ok [Control.ack.byte]⟩], [⟨0, .ok [Control.ack.byte]⟩]] }
    let setup : Script.Setup MemorySink := { sink := MemorySink.sink }
    let sending := Script.rehearseSend setup options [{ name := "a" }]
      (Script.World.new setup heard [{ remaining := [97, 98, 99] }] {})
    receiving.ending = some (.error (.file Script.Call.closeFile.error)) ∧
      receiving.world.written = [[Control.nak.byte], [Control.ack.byte], [Control.ack.byte],
        [Control.can.byte, Control.can.byte]] ∧
      sending.ending = some (.ok (.completed ⟨[⟨some "a", 3⟩], 1, 3, 0, 0⟩)) ∧
      sending.world.written =
        [(Sender.pieceBlock options 1 [97, 98, 99]).encode .checksum, [Control.eot.byte]] := by
  decide +kernel

end Ending

end BlockTransfer.Receiver
