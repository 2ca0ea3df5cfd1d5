import BlockTransfer.Proofs.Receiver.Abort
import BlockTransfer.Proofs.Rehearsal
import BlockTransfer.Proofs.Sender.Abort
import BlockTransfer.Proofs.Sender.Progress
import BlockTransfer.Sink.Memory

/-!
# Requests to stop

A party looks for a request to stop at the head of each of its loops, so it heeds one as soon as the
exchange in progress is over. After the request a sender begins nothing new, except that a piece of
a file that it is reading for a stream is still written. A receiver begins at most one more wait for
a block, to whose outcome it still reacts.

## Main results

* `heeds_request`: both parties heed a request to stop, and come to their end.
-/

namespace BlockTransfer

variable {ω : Type}

/-- Both parties heed a request to stop, and come to their end in patient surroundings with finite
files. The session of a party that gives up is left as aborted. -/
theorem heeds_request (options : Options) (hcheck : options.check = none) (env : Surroundings ω)
    (w : ω) (sofar : Nat) :
    (∀ files, (options.protocol = .xmodem → files.length = 1) →
      let start := Sender.new options files (env.moment w)
      let found := Action.run env Sender.act sofar start w
      Party.Requested env Sender.act sofar start w →
        (∀ more, Sender.Heeds found.state (Action.trace env Sender.act more found.state found.world)
          (Action.run env Sender.act more found.state found.world)) ∧
        (found.state.fetches = true → ∃ a file most reply,
          (Action.trace env Sender.act sofar start w).getLast? = some a ∧
            a.event = .fetch file most reply) ∧
        (∀ good queued supply, env.Patient good queued → env.Supplies good supply → good w →
          ∃ more, (Action.run env Sender.act more found.state found.world).ending ≠ none) ∧
        ∀ acts, (Action.run env Sender.act acts start w).ending = some (.ok .aborted) →
          (Action.run env Sender.act acts start w).state.session.state = .aborted) ∧
    (let start := Receiver.new options (env.moment w)
      let found := Action.run env Receiver.act sofar start w
      Party.Requested env Receiver.act sofar start w →
        (∀ more, Receiver.Heeds found.state
          (Action.trace env Receiver.act more found.state found.world)
          (Action.run env Receiver.act more found.state found.world)) ∧
        (∀ good queued, env.Patient good queued → good w →
          ∃ more, (Action.run env Receiver.act more found.state found.world).ending ≠ none) ∧
        ∀ acts, (Action.run env Receiver.act acts start w).ending = some (.ok .aborted) →
          (Action.run env Receiver.act acts start w).state.session.state = .aborted) := by
  constructor
  · intro files hfiles start found hrequested
    -- A run whose options and files are accepted begins soundly.
    have hsound : Sender.Sound start := by
      refine ⟨?_, ?_, nofun⟩
      · rintro step ⟨⟩
        exact ⟨nofun, nofun⟩
      · rintro - (hunfit | ⟨hprotocol, hunfit⟩)
        · exact hunfit hcheck
        · exact hunfit (hfiles hprotocol)
    obtain ⟨hsound', hstruck, hfetches⟩ := hsound.struck_of_requested rfl hrequested
    refine ⟨fun more => ?_, hfetches, ?_, ?_⟩
    -- From then on it abides by the request.
    · exact (Sender.abides_of_struck hsound' hstruck).heeds fun a ha => hrequested.abort_of_mem ha
    · intro good queued supply henv hfinite hw
      obtain ⟨hw', hmoment'⟩ := henv.good_run Sender.attentive_act sofar hw (s := start) rfl
      have hgoing : Sender.Going found.state :=
        @Action.invariant_trace _ _ Sender.act (fun _ s => Sender.Going s)
          (fun _ _ h => h.ensures_going) env sofar [] start w (Sender.going_new options files _)
      exact hgoing.exists_ending henv hfinite hw' hmoment'
    · intro acts hending
      exact ((Sender.concludes options files _ env acts w).aborted_iff _ hending).mpr rfl
  · intro start found hrequested
    have hsound : Receiver.Sound start := by
      refine ⟨?_, fun _ => hcheck⟩
      rintro step ⟨⟩
      trivial
    have hsound' : Receiver.Sound found.state :=
      @Action.invariant_trace _ _ Receiver.act (fun _ s => Receiver.Sound s)
        (fun _ _ h => h.ensures_sound) env sofar [] start w hsound
    refine ⟨fun more => ?_, ?_, ?_⟩
    · exact hsound'.heeds fun a ha => hrequested.abort_of_mem ha
    · intro good queued henv hw
      obtain ⟨hw', hmoment'⟩ := henv.good_run Receiver.attentive_act sofar hw (s := start) rfl
      exact hsound'.exists_ending henv hw' hmoment' hrequested.after
    · intro acts hending
      exact ((Receiver.concludes options _ env acts w).aborted_iff _ hending).mpr rfl

/-- The requests of a receiver for a header and for the data of a file in a stream. -/
def streamRequests : Script.Play where
  initial := [⟨0, .ok [Control.streamRequest.byte]⟩]
  replies := [[⟨0, .ok [Control.streamRequest.byte]⟩]]

/-- A sender of which a stop is requested while it reads its file for a stream, and a receiver of
which a stop is requested during its first write. -/
theorem heeds_request_in_fetch_and_write :
    let setup : Script.Setup MemorySink := { sink := MemorySink.sink }
    let options : Options := { protocol := .ymodem, variant := .streaming }
    let env := Script.stopInFetch (Script.World.surroundings setup) 0
    let sending := (Script.World.new setup streamRequests [{ remaining := [97, 98, 99] }] {}, 0)
    let sender := Sender.new options [{ name := "a" }] (env.moment sending)
    let caught := Action.run env Sender.act 15 sender sending
    let setup' : Script.Setup MemorySink := { trigger := some (.write 0), sink := MemorySink.sink }
    let options' : Options := { protocol := .xmodem, variant := .checksum }
    let env' := Script.World.surroundings setup'
    let receiving := Script.World.new setup' {} [] {}
    let receiver := Receiver.new options' (env'.moment receiving)
    let caught' := Action.run env' Receiver.act 3 receiver receiving
    (Party.Requested env Sender.act 15 sender sending ∧ caught.state.fetches = true ∧
      (∀ more, Sender.Heeds caught.state
        (Action.trace env Sender.act more caught.state caught.world)
        (Action.run env Sender.act more caught.state caught.world)) ∧
      ∃ more, (Action.run env Sender.act more caught.state caught.world).ending ≠ none) ∧
    Party.Requested env' Receiver.act 3 receiver receiving ∧
      (∀ more, Receiver.Heeds caught'.state
        (Action.trace env' Receiver.act more caught'.state caught'.world)
        (Action.run env' Receiver.act more caught'.state caught'.world)) ∧
      ∃ more, (Action.run env' Receiver.act more caught'.state caught'.world).ending ≠ none := by
  intro setup options env sending sender caught setup' options' env' receiving receiver caught'
  have hsending : sending.1.wire.Substantial :=
    Script.Wire.substantial_ofPlay (by decide) (by decide) (by decide)
  have hreceiving : receiving.wire.Substantial :=
    Script.Wire.substantial_ofPlay (by decide) (by decide) (by decide)
  have hsender : Party.Requested env Sender.act 15 sender sending :=
    Party.requested_of_stays (Script.abort_of_stopInFetch Script.World.abort_of_replies)
      Sender.attentive_act rfl (by decide +kernel) (by decide +kernel)
  have hreceiver : Party.Requested env' Receiver.act 3 receiver receiving :=
    Party.requested_of_stays Script.World.abort_of_replies Receiver.attentive_act rfl
      (by decide +kernel) (by decide +kernel)
  obtain ⟨hheeds, -, hends, -⟩ :=
    (heeds_request options (by decide) env sending 15).1 [{ name := "a" }] nofun hsender
  obtain ⟨hheeds', hends', -⟩ :=
    (heeds_request options' (by decide) env' receiving 3).2 hreceiver
  refine ⟨⟨hsender, by decide +kernel, hheeds, ?_⟩, hreceiver, hheeds', ?_⟩
  · have hpatient := Script.World.patient setup
    have hsupplies := Script.World.supplies setup fun w => w.wire.Substantial
    exact hends _ _ _ (Script.patient_stopInFetch hpatient 0)
      (Script.supplies_stopInFetch hsupplies 0) hsending
  · exact hends' _ _ (Script.World.patient setup') hreceiving

set_option maxRecDepth 2000 in
/-- Of a sender a stop is requested while it reads its file for a stream: it still writes what it
has read before it gives up. Of a receiver a stop is requested during a write that the line does not
take: it does not give up but fails. -/
theorem run_of_request_in_fetch_and_write :
    let setup : Script.Setup MemorySink := { sink := MemorySink.sink }
    let options : Options := { protocol := .ymodem, variant := .streaming }
    let header : FileHeader := { name := "a" }
    let env := Script.stopInFetch (Script.World.surroundings setup) 0
    let sending := (Script.World.new setup streamRequests [{ remaining := [97, 98, 99] }] {}, 0)
    let sender := Sender.new options [header] (env.moment sending)
    let caught := Action.run env Sender.act 15 sender sending
    let sent := Action.run env Sender.act 7 caught.state caught.world
    let setup' : Script.Setup MemorySink := { trigger := some (.write 0), sink := MemorySink.sink }
    let options' : Options := { protocol := .xmodem, variant := .checksum }
    let env' := Script.World.surroundings setup'
    let receiving :=
      Script.World.new setup' { faults := [(0, .fails ⟨.brokenPipe, "gone"⟩)] } [] {}
    let receiver := Receiver.new options' (env'.moment receiving)
    let caught' := Action.run env' Receiver.act 3 receiver receiving
    (Party.Requested env Sender.act 15 sender sending ∧
      caught.world.1.written = [header.toBlock.encode .crc] ∧
      sent.world.1.written = [header.toBlock.encode .crc,
        (Sender.pieceBlock options 1 [97, 98, 99]).encode .crc,
        [Control.can.byte, Control.can.byte]] ∧
      sent.ending = some (.ok .aborted)) ∧
    Party.Requested env' Receiver.act 3 receiver receiving ∧
      (Action.run env' Receiver.act 1 caught'.state caught'.world).ending =
        some (.error (.channel ⟨.brokenPipe, "gone"⟩)) := by
  refine ⟨⟨?_, rfl, rfl, by decide +kernel⟩, ?_, by decide +kernel⟩
  · exact Party.requested_of_stays (Script.abort_of_stopInFetch Script.World.abort_of_replies)
      Sender.attentive_act rfl (by decide +kernel) (by decide +kernel)
  · exact Party.requested_of_stays Script.World.abort_of_replies Receiver.attentive_act rfl
      (by decide +kernel) (by decide +kernel)

end BlockTransfer
