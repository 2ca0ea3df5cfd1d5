import BlockTransfer.Proofs.Accounts.Sender
import BlockTransfer.Proofs.Endings
import BlockTransfer.Proofs.Lossless
import BlockTransfer.Proofs.Receiver.Origin
import BlockTransfer.Script.Rehearsal
import BlockTransfer.Sink.Memory

/-!
# The headers and the end of a batch

The end of a batch is announced as a file is, by a block with the number 0, and only its payload,
which begins with a zero byte, tells the two apart. The header of a file begins with its name, so a
batch of files with names ends after the last of them. But the names are not looked at: the header
of a file without a name is taken for the end of the batch, and neither that file nor those after it
arrive.

## Main definitions

* `Sender.Announces`: what a sender writes about its batch.
* `Receiver.Ended`: what has ended a batch for its receiver.

## Main results

* `Sender.announces_of_trace`: a sender writes the headers of its files in order, and the end of the
  batch after the last of them.
* `Receiver.ended_of_completed`: a receiver completes a batch only at a block that begins with a
  zero byte.
* `announces_and_ends`: so of files with names none is missing when a batch is complete.
-/

namespace BlockTransfer

/-! ## Announcements of a sender -/

namespace Sender

/-- What a sender of some files writes about its batch in an act: the header of the file that it has
come to, or the end of the batch when there are no more files. -/
structure Announces (files : List FileHeader) (a : Act Sender) : Prop where
  header : ∀ step data reply, a.state.phase = .doing step → step.item? = some .header →
    a.event = .write data reply → ∃ file, files[a.state.job.index]? = some file ∧
      data = file.toBlock.encode a.state.trailer
  endOfBatch : ∀ step data reply, a.state.phase = .doing step → step.item? = some .endOfBatch →
    a.event = .write data reply → files.length ≤ a.state.job.index ∧
      data = FileHeader.endOfBatch.encode a.state.trailer

section Acts

variable {s : Sender} {step : Step}

/-- What is written at a step is the item of that step. -/
theorem Course.frame_of_write {next : Sender} {data : Bytes} {reply : Except IoError Nat}
    (h : Course s step (.write data reply) next) :
    ∃ item, step.item? = some item ∧ data = frame s item := by
  cases h with
  | turns h =>
    cases h with
    | streamHeader | offer | streamed => exact ⟨_, rfl, rfl⟩
  | breaks h =>
    cases h with
    | unwritten hitem => exact ⟨_, hitem, rfl⟩

theorem ensures_frame (hplaced : ∀ step, s.phase = .doing step → s.Placed step) :
    (act s).Ensures fun event _ => ∀ step data reply, s.phase = .doing step →
      event = .write data reply → ∃ item, step.item? = some item ∧ data = frame s item := by
  refine ensures_act_of_course hplaced ?_ ?_
  · rintro step event next hphase hcourse step' data reply hphase' rfl
    obtain rfl : step = step' := Phase.doing.inj (hphase.symm.trans hphase')
    exact hcourse.frame_of_write
  · intro ending reply moment hphase step data reply' hphase'
    cases hphase.symm.trans hphase'

end Acts

variable {ω : Type} {env : Surroundings ω} {options : Options} {files : List FileHeader}
  {moment : Moment} {w : ω} {acts : Nat} {before after : List (Act Sender)} {a : Act Sender}

/-- Whatever the receiver does: a sender writes the headers of its files one after the other, and
the end of the batch only when all of them have been sent. -/
theorem announces_of_trace
    (h : Action.trace env act acts (new options files moment) w = before ++ a :: after) :
    Announces files a := by
  obtain ⟨sofar, _, _, _, _, -, hstate, hstep, hevent, -⟩ := Action.exists_step_of_trace_eq h
  obtain ⟨done, counted, haudited⟩ := audited_trace env options files moment w sofar
  rw [hstate] at haudited
  have hwritten := (ensures_frame fun step hphase => (haudited.at_step step hphase).1).of_step hstep
  rw [← hevent] at hwritten
  constructor
  · intro step data reply hphase hitem hwrite
    obtain ⟨hplaced, hstands, -⟩ := haudited.at_step step hphase
    obtain ⟨item, hitem', rfl⟩ := hwritten step data reply hphase hwrite
    obtain rfl : Item.header = item := Option.some.inj (hitem.symm.trans hitem')
    have hfile : step.ofFile = true := by
      cases step with
      | offer item => cases hitem; rfl
      | gathered => cases hitem
      | streamHeader => rfl
      | _ => cases hitem
    obtain ⟨file, rest, hfiles⟩ := List.exists_cons_of_ne_nil (hplaced.files_ne_nil hfile)
    refine ⟨file, ?_, by rw [frame, hfiles]⟩
    rw [← List.head?_drop, ← hstands.files_eq, hfiles]
    rfl
  · intro step data reply hphase hitem hwrite
    obtain ⟨-, hstands, hend⟩ := haudited.at_step step hphase
    obtain ⟨item, hitem', rfl⟩ := hwritten step data reply hphase hwrite
    obtain rfl : Item.endOfBatch = item := Option.some.inj (hitem.symm.trans hitem')
    have hlast : step.ofEnd = true := by
      cases step with
      | offer item => cases hitem; rfl
      | _ => cases hitem
    refine ⟨?_, rfl⟩
    rw [← List.drop_eq_nil_iff, ← hstands.files_eq, hend hlast]

end Sender

/-! ## The end of a batch at a receiver -/

namespace Receiver

/-- What has ended a batch: a block with the number 0 and a payload that begins with a zero byte. It
has answered the receiver's signal, and all that had arrived after it was still queued then. -/
def Ended (past : List (Act Receiver)) : Prop :=
  ∃ before a after stage block used bytes, past = before ++ a :: after ∧
    a.state.phase = .doing (.judge (.solicited stage) (.block block)) ∧
    arrivals before = used ++ bytes ++ a.state.pending ∧
    Block.decode bytes a.state.trailer = .ok block ∧ block.number = 0 ∧
    FileHeader.parse block.payload = .ok none

theorem Ended.concat {past : List (Act Receiver)} (h : Ended past) (a : Act Receiver) :
    Ended (past ++ [a]) := by
  obtain ⟨before, a', after, stage, block, used, bytes, rfl, hblock⟩ := h
  exact ⟨before, a', after ++ [a], stage, block, used, bytes, by simp, hblock⟩

/-- The end of a batch has come when a receiver is about to complete it or has done so. -/
structure Finishes (options : Options) (past : List (Act Receiver)) (s : Receiver) : Prop where
  conversant : Conversant options past s
  traced : Traced past s
  finish : s.phase = .doing .finish → Ended past
  claims : ∀ summary, s.Claims summary → Ended past

section Runs

variable {options : Options} {past : List (Act Receiver)} {s s' : Receiver} {step : Step}
  {event : Event}

/-- A receiver gets to the end of a batch only by a block that ends it. -/
theorem Turns.ended (h : Turns s step event s' .finish) (hphase : s.phase = .doing step)
    (htraced : Traced past s) : Ended (past ++ [⟨s, event⟩]) := by
  generalize hlast : Step.finish = step' at h
  cases h with
  | speaks h =>
    cases h with
    | endOfBatch _ hnumber hheader =>
      obtain ⟨-, used, bytes, harrivals, -, hdecode⟩ := htraced.doing _ hphase
      exact ⟨past, _, [], _, _, used, bytes, rfl, hphase, harrivals, hdecode, hnumber, hheader⟩
    | _ => cases hlast
  | arrival htask =>
    cases step with
    | listen | collect | purge => cases hlast
    | _ => cases htask
  | _ => cases hlast

theorem finishes_act (hbatch : options.protocol = .ymodem) (h : Finishes options past s) :
    (act s).Ensures fun event next => Finishes options (past ++ [⟨s, event⟩]) next := by
  have hended : (act s).Ensures fun event next =>
      (next.phase = .doing .finish → Ended (past ++ [⟨s, event⟩])) ∧
        ∀ summary, next.Claims summary → Ended (past ++ [⟨s, event⟩]) := by
    refine ensures_act_of_course (fun step hphase => (h.traced.doing step hphase).1) ?_ ?_
    · intro step event next hphase hcourse
      cases hcourse with
      | turns hturns =>
        refine ⟨?_, ?_⟩
        · rintro ⟨⟩
          exact hturns.ended hphase h.traced
        · rintro summary (hclaims | hclaims) <;> cases hclaims
      | breaks =>
        refine ⟨?_, fun summary hclaims => absurd hclaims (Party.not_claims_fail _ _ _)⟩
        exact fun hfinish => absurd hfinish ((Party.parted_fail _ _).phase_ne _)
      | completes hcompletes =>
        refine ⟨nofun, fun _ _ => ?_⟩
        cases hcompletes with
        | single hprotocol =>
          -- A single file is no batch.
          have hoptions := (h.conversant.doing _ hphase).2.1.options_eq
          rw [hoptions, hbatch] at hprotocol
          cases hprotocol
        | batch => exact (h.finish hphase).concat _
      | aborts | rejects =>
        refine ⟨nofun, ?_⟩
        rintro summary (hclaims | hclaims) <;> cases hclaims
    · intro ending reply moment hphase
      refine ⟨nofun, ?_⟩
      rintro summary (hclaims | hclaims)
      · cases hclaims
      · cases hclaims
        exact (h.claims summary (.inl hphase)).concat _
  refine ((conversant_act h.conversant).and ((traced_act h.traced).and hended)).mono ?_
  rintro event next ⟨hconversant, htraced, hfinish, hclaims⟩
  exact ⟨hconversant, htraced, hfinish, hclaims⟩

/-- Whatever the peer does: a batch is completed only after a block that answers the receiver's
signal, has the number 0 and begins with a zero byte. -/
theorem ended_of_completed {ω : Type} {env : Surroundings ω} {moment : Moment} {w : ω} {acts : Nat}
    {summary : Summary} (hbatch : options.protocol = .ymodem)
    (h : (Action.run env act acts (new options moment) w).ending =
      some (.ok (.completed summary))) :
    Ended (Action.trace env act acts (new options moment) w) := by
  have hnew : Finishes options [] (new options moment) := by
    refine ⟨conversant_new options moment, traced_new options moment, nofun, ?_⟩
    rintro summary (hclaims | hclaims) <;> cases hclaims
  have hfinishes : Finishes options (Action.trace env act acts (new options moment) w)
      (Action.run env act acts (new options moment) w).state :=
    Action.invariant_trace (fun _ _ => finishes_act hbatch) env acts w hnew
  exact hfinishes.claims summary (.inr (Party.phase_of_ending step_ne_stop h))

end Runs

end Receiver

/-! ## Batches of files with names -/

/-- Over a line that loses nothing a receiver that has completed a batch of files with names has got
all of them. -/
theorem Connection.headers_of_completed {sending receiving : Options}
    {files : List (FileHeader × Bytes)} {sendingAt receivingAt : Moment} {c : Connection}
    {summary : Summary} (hsending : sending.protocol = .ymodem)
    (hreceiving : receiving.protocol = .ymodem) (hcheck : sending.check = none)
    (hcheck' : receiving.check = none)
    (hnames : ∀ file ∈ files, file.1.name ≠ "" ∧ ∀ c ∈ file.1.name.toList, c.toNat ≠ 0)
    (hcalm : sendingAt.abort = false) (hcalm' : receivingAt.abort = false)
    (hreachable : Reachable .lossless (start sending receiving files sendingAt receivingAt) c)
    (hcompleted : c.receiver.party.phase = .over (.ok (.completed summary))) :
    c.receiver.desk.sink.files.map (fun file => file.1.header) =
      files.map fun file => some file.1.received := by
  have hroute : Route receiving.protocol (Receiver.Place.between.stage receiving.protocol)
      (journey sending files) := by
    rw [hreceiving]
    exact route_journey_ymodem hsending hnames
  have hcount (hxmodem : sending.protocol = .xmodem) : files.length = 1 := by
    cases hsending.symm.trans hxmodem
  have hstop : Receiver.act c.receiver.party = .stop (.ok (.completed summary)) := by
    simp only [Receiver.act, Party.act, hcompleted]
  -- The transfer comes to its end from there, and the receiver does nothing more.
  obtain ⟨last, hlast, hfulfils⟩ :=
    ((inevitable_fulfils_start hcheck hcheck' hroute hcount hcalm hcalm').reachable
      (fun _ _ hgoal => hgoal.not_step) hreachable).exists_reachable
  rw [← hlast.receiver_eq_of_stop hstop, hfulfils.files, Plan.ofFiles, List.map_map]
  refine List.map_congr_left fun file _ => ?_
  change receivedHeader sending file.1 = _
  rw [receivedHeader, hsending]

/-- Whatever the receiver does, a sender of a batch writes the headers of its files in order and the
end of the batch after the last of them, and whatever the sender does, a receiver completes a batch
only after a block that begins with a zero byte. The block of a header begins like that if and only
if the name of the file is empty or begins with the character zero, and a name without that
character is read as such. So of files that have such names none is missing when a batch is
complete, on a line that loses nothing. -/
theorem announces_and_ends {sending receiving : Options} {files : List (FileHeader × Bytes)}
    {sendingAt receivingAt : Moment} (hsending : sending.protocol = .ymodem)
    (hreceiving : receiving.protocol = .ymodem) (hcheck : sending.check = none)
    (hcheck' : receiving.check = none) (hcalm : sendingAt.abort = false)
    (hcalm' : receivingAt.abort = false) :
    (∀ {ω : Type} (env : Surroundings ω) (w : ω) (acts : Nat) (before after : List (Act Sender))
        (a : Act Sender),
      Action.trace env Sender.act acts (Sender.new sending (files.map Prod.fst) sendingAt) w =
        before ++ a :: after → Sender.Announces (files.map Prod.fst) a) ∧
    (∀ {ω : Type} (env : Surroundings ω) (w : ω) (acts : Nat) (summary : Summary),
      (Action.run env Receiver.act acts (Receiver.new receiving receivingAt) w).ending =
        some (.ok (.completed summary)) →
      Receiver.Ended
        (Action.trace env Receiver.act acts (Receiver.new receiving receivingAt) w)) ∧
    (∀ (header : FileHeader) (trailer : Trailer),
      Block.decode (header.toBlock.encode trailer) trailer = .ok header.toBlock ∧
      (FileHeader.parse header.toBlock.payload = .ok none ↔
        ∀ c ∈ header.name.toList.head?, c.toNat = 0) ∧
      (header.name ≠ "" → (∀ c ∈ header.name.toList, c.toNat ≠ 0) →
        FileHeader.parse header.toBlock.payload = .ok (some header.received))) ∧
    ((∀ file ∈ files, file.1.name ≠ "" ∧ ∀ c ∈ file.1.name.toList, c.toNat ≠ 0) →
      ∀ (c : Connection) (summary : Summary),
        Connection.Reachable .lossless
          (Connection.start sending receiving files sendingAt receivingAt) c →
        c.receiver.party.phase = .over (.ok (.completed summary)) →
        c.receiver.desk.sink.files.map (fun file => file.1.header) =
          files.map fun file => some file.1.received) := by
  refine ⟨?_, ?_, ?_, ?_⟩
  · intro ω env w acts before after a htrace
    exact Sender.announces_of_trace htrace
  · intro ω env w acts summary hcompleted
    exact Receiver.ended_of_completed hreceiving hcompleted
  · intro header trailer
    exact ⟨Block.decode_encode _ _, header.parse_toBlock_eq_none_iff, FileHeader.parse_toBlock⟩
  · intro hnames c summary hreachable hcompleted
    exact Connection.headers_of_completed hsending hreceiving hcheck hcheck' hnames hcalm hcalm'
      hreachable hcompleted

/-- Two files, one of them with a length. -/
theorem announces_and_ends_two_files :
    let sending : Options := { protocol := .ymodem, variant := .oneK }
    let receiving : Options := { protocol := .ymodem, variant := .streaming }
    let files : List (FileHeader × Bytes) :=
      [({ name := "a", length := some 3 }, [1, 2, 0]), ({ name := "b" }, [3, 0])]
    ∃ (c : Connection) (summary : Summary),
      Connection.Reachable .lossless
        (Connection.start sending receiving files ⟨0, false⟩ ⟨0, false⟩) c ∧
      c.receiver.party.phase = .over (.ok (.completed summary)) ∧
      c.receiver.desk.sink.files.map (fun file => file.1.header) =
        [some { name := "a", length := some 3 }, some { name := "b" }] := by
  intro sending receiving files
  have hnames : ∀ file ∈ files, file.1.name ≠ "" ∧ ∀ c ∈ file.1.name.toList, c.toNat ≠ 0 := by
    simp [files]
  have hinevitable : Connection.Inevitable .lossless
      (Connection.Fulfils (.ofFiles sending receiving files))
      (Connection.start sending receiving files ⟨0, false⟩ ⟨0, false⟩) :=
    Connection.inevitable_fulfils_start rfl rfl (route_journey_ymodem rfl hnames) nofun rfl rfl
  obtain ⟨c, hreachable, hfulfils⟩ := hinevitable.exists_reachable
  obtain ⟨summary, hcompleted, -⟩ := hfulfils.receiver
  have hall := (announces_and_ends rfl rfl rfl rfl rfl rfl).2.2.2 hnames c summary hreachable
    hcompleted
  exact ⟨c, summary, hreachable, hcompleted, hall.trans (by decide)⟩

/-- The batch of a sender of two files ends before the first of them, which has no name: its
header is acknowledged as the end of the batch, and the receiver is done. -/
theorem rehearse_of_nameless :
    let options : Options := { protocol := .ymodem, variant := .checksum }
    let nameless : FileHeader := { name := "", length := some 1 }
    let setup : Script.Setup MemorySink := { sink := MemorySink.sink }
    let heard : Script.Play :=
      { initial := [⟨0, .ok [Control.nak.byte]⟩], replies := [[⟨0, .ok [Control.ack.byte]⟩]] }
    let sending := Script.rehearseSend setup options [nameless, { name := "b", length := some 1 }]
      (Script.World.new setup heard [{ remaining := [97] }, { remaining := [98] }] {})
    let told : Script.Play := { replies := [[⟨0, .ok (nameless.toBlock.encode .checksum)⟩]] }
    let receiving := Script.rehearseReceive setup options (Script.World.new setup told [] {})
    FileHeader.parse nameless.toBlock.payload = .ok none ∧
      sending.world.written =
        [nameless.toBlock.encode .checksum, [Control.can.byte, Control.can.byte]] ∧
      sending.ending = some (.error (.timeout .header 10)) ∧
      receiving.ending = some (.ok (.completed ⟨[], 0, 0, 0, 0⟩)) ∧
      receiving.world.written = [[Control.nak.byte], [Control.ack.byte]] := by
  decide +kernel

end BlockTransfer
