import BlockTransfer.Proofs.Connection
import BlockTransfer.Proofs.Receiver.Reactions
import BlockTransfer.Proofs.Sender.Reactions

/-!
# What a transfer is meant to bring about

Sender and receiver have agreed on nothing but the protocol. A `Plan` tells what shall come of
their transfer, and `Plan.Expects` that a receiver is on its way there: the legs that are still to
come make its files complete.

## Main definitions

* `Plan`: the options of the receiver, the files that shall be stored and the number of blocks.
* `Plan.Expects`: what a receiver has and the legs to come are what is planned.
* `Plan.Judged`: what a receiver does with the leg that it expects.
* `Connection.start`: a connection at the start of a transfer.

## Main results

* `Plan.Expects.after`: accepting the next leg is according to plan.
* `Plan.Expects.settles_judge`: the next leg is accepted, but for the first end mark of a file.
-/

namespace BlockTransfer

/-- What a transfer is meant to bring about. -/
structure Plan where
  /-- The options of the receiver. -/
  receiving : Options
  /-- The files that shall be stored. -/
  files : List (ReceivedFile × Bytes)
  /-- The number of blocks that shall be counted. -/
  blocks : Nat
  /-- How often the receiver has asked in vain before the sender was there. -/
  unanswered : Nat := 0

/-- A route from the start of a transfer has a leg. -/
theorem Route.ne_nil_of_between {protocol : Protocol} {legs : List Leg}
    (h : Route protocol (Receiver.Place.between.stage protocol) legs) : legs ≠ [] := by
  rintro rfl
  cases protocol with
  | xmodem => cases h
  | ymodem =>
    cases h with
    | done hxmodem => cases hxmodem

namespace Plan

/-- The plan for the transfer of files. -/
def ofFiles (sending receiving : Options) (files : List (FileHeader × Bytes)) : Plan where
  receiving := receiving
  files := files.map (arrival sending receiving.pad)
  blocks := blockCount (journey sending files)

/-- The signal with which the receiver asks for blocks. -/
def handshake (plan : Plan) : Control :=
  plan.receiving.variant.handshake

/-- The block check that the receiver asks for. -/
def trailer (plan : Plan) : Trailer :=
  plan.receiving.variant.trailer

/-- Whether the receiver asks for a stream. -/
def streaming (plan : Plan) : Bool :=
  plan.receiving.variant.isStreaming

/-- The messages of legs. -/
def messages (plan : Plan) (legs : List Leg) : List Bytes :=
  legs.map (Leg.message plan.trailer)

/-- What the receiver says after it has acknowledged a leg. -/
def followUp (plan : Plan) (leg : Leg) (legs : List Leg) : List Control :=
  if leg.isData = true ∨ legs = [] then [] else [plan.handshake]

/-- What a receiver has, and the legs to come, are what is planned. -/
structure Expects (plan : Plan) (l : Receiver.Ledger) (place : Receiver.Place)
    (legs : List Leg) : Prop where
  options : l.options = plan.receiving
  files : l.files ++ outcome plan.receiving.pad place.header place.payloads legs = plan.files
  blocks : l.blocks + blockCount legs = plan.blocks
  route : Route plan.receiving.protocol (place.stage plan.receiving.protocol) legs

variable {plan : Plan} {l : Receiver.Ledger} {place : Receiver.Place} {leg : Leg}
  {legs : List Leg}

/-- The signal of a variant asks for its block check and its flow. -/
theorem mode?_handshake (plan : Plan) :
    Sender.mode? plan.handshake = some (plan.trailer, plan.streaming) := by
  rw [handshake, trailer, streaming]
  cases plan.receiving.variant <;> rfl

/-- A receiver that asks for the cyclic check has its blocks answered. -/
theorem mode_of_handshake (h : plan.handshake = .crcRequest) :
    plan.trailer = .crc ∧ plan.streaming = false := by
  have hmode := plan.mode?_handshake
  rw [h] at hmode
  obtain ⟨htrailer, hstreaming⟩ := Prod.mk.inj (Option.some.inj hmode)
  exact ⟨htrailer.symm, hstreaming.symm⟩

/-- A leg that is answered is acknowledged. -/
theorem answers_eq {stage : Option Nat}
    (hroute : Route plan.receiving.protocol stage (leg :: legs))
    (hstop : plan.streaming = true → leg = .endOfFile ∨ leg = .endOfBatch) :
    Receiver.answers plan.receiving leg = .ack :: plan.followUp leg legs := by
  generalize hprotocol : plan.receiving.protocol = protocol at hroute
  cases hroute with
  | data =>
    have hstreaming : ¬plan.receiving.variant.isStreaming = true := fun h => by simpa using hstop h
    rw [Receiver.answers, if_neg hstreaming]
    rfl
  | header hymodem hparse hrest =>
    have hstreaming : ¬plan.receiving.variant.isStreaming = true := fun h => by simpa using hstop h
    rw [Receiver.answers, if_neg hstreaming, followUp, if_neg]
    · rfl
    · rintro (hdata | rfl)
      · cases hdata
      · cases hrest
  -- The request after a file is for the next leg of the batch, and there is none without batches.
  | endOfFile hrest =>
    simp only [Receiver.answers, hprotocol]
    cases hrest with
    | header hymodem =>
      subst hymodem
      rfl
    | endOfBatch hymodem =>
      subst hymodem
      rfl
    | done hxmodem =>
      subst hxmodem
      rfl
  | endOfBatch => rfl

/-- A block of a stream is not answered. -/
theorem answers_of_isData (hstreaming : plan.streaming = true) (hdata : leg.isData = true) :
    Receiver.answers plan.receiving leg = [] := by
  cases leg with
  | data block => exact if_pos hstreaming
  | header => cases hdata
  | endOfFile => cases hdata
  | endOfBatch => cases hdata

namespace Expects

/-- At its start a receiver expects the whole journey. -/
theorem of_start {sending receiving : Options} {files : List (FileHeader × Bytes)}
    (h : Route receiving.protocol (Receiver.Place.between.stage receiving.protocol)
      (journey sending files)) :
    (ofFiles sending receiving files).Expects ⟨receiving, [], 0, 0, []⟩ .between
      (journey sending files) :=
  ⟨rfl, outcome_journey sending receiving.pad files, Nat.zero_add _, h⟩

/-- The next leg brings its part of the files. -/
theorem files_after (h : plan.Expects l place (leg :: legs)) :
    (l.after place leg).files ++ outcome plan.receiving.pad (place.after leg).header
      (place.after leg).payloads legs = plan.files := by
  have hfiles := h.files
  have hroute := h.route
  cases leg with
  | header file => exact hfiles
  | data block => exact hfiles
  | endOfFile =>
    rw [← hfiles, Receiver.Ledger.after, h.options]
    simp only [outcome, Receiver.Place.after, Receiver.Place.header, Receiver.Place.payloads]
    exact List.append_assoc _ _ _
  | endOfBatch =>
    generalize place.stage plan.receiving.protocol = stage at hroute
    cases hroute
    exact hfiles

/-- The next leg brings its part of the blocks. -/
theorem blocks_after (h : plan.Expects l place (leg :: legs)) :
    (l.after place leg).blocks + blockCount legs = plan.blocks := by
  have hblocks := h.blocks
  rw [blockCount_cons] at hblocks
  rw [← hblocks]
  cases leg with
  | data block =>
    change l.blocks + 1 + blockCount legs = l.blocks + (blockCount legs + 1)
    omega
  | header file => rfl
  | endOfFile => rfl
  | endOfBatch => rfl

theorem options_after (h : plan.Expects l place (leg :: legs)) :
    (l.after place leg).options = plan.receiving := by
  cases leg <;> exact h.options

/-- After the next leg, unless it is the last one, the rest is according to plan. -/
theorem after (h : plan.Expects l place (leg :: legs)) (hlegs : legs ≠ []) :
    plan.Expects (l.after place leg) (place.after leg) legs := by
  refine ⟨h.options_after, h.files_after, h.blocks_after, ?_⟩
  have hroute := h.route
  generalize hstage : place.stage plan.receiving.protocol = stage at hroute
  cases hroute with
  | @data count block legs hnumber hrest =>
    have hcount : (place.payloads ++ [block.payload]).length = count + 1 := by
      rw [List.length_append, Receiver.Place.length_payloads hstage]
      rfl
    simp only [Receiver.Place.after, Receiver.Place.stage, hcount]
    exact hrest
  -- In a batch the receiver is between files again, and a single file was the last leg.
  | endOfFile hrest =>
    simp only [Receiver.Place.after, Receiver.Place.stage]
    cases hprotocol : plan.receiving.protocol with
    | ymodem =>
      rw [hprotocol] at hrest
      exact hrest
    | xmodem =>
      rw [hprotocol] at hrest
      cases hrest with
      | header hymodem => cases hymodem
      | endOfBatch hymodem => cases hymodem
      | done => exact absurd rfl hlegs
  | header hymodem hparse hrest => exact hrest
  | endOfBatch => exact absurd rfl hlegs

theorem files_after_last (h : plan.Expects l place [leg]) :
    (l.after place leg).files = plan.files := by
  have hfiles := h.files_after
  rwa [outcome, List.append_nil] at hfiles

theorem blocks_after_last (h : plan.Expects l place [leg]) :
    (l.after place leg).blocks = plan.blocks :=
  h.blocks_after

/-- What a receiver expects does not depend on the bytes that have arrived, nor on failures. -/
theorem congr {pending : Bytes} {retries : Nat} (h : plan.Expects l place legs) :
    plan.Expects { l with pending, retries } place legs :=
  ⟨h.options, h.files, h.blocks, h.route⟩

end Expects

/-- What a receiver has done with the leg that it has expected, given the place where it was. -/
inductive Judged (plan : Plan) (l : Receiver.Ledger) (place : Receiver.Place) (leg : Leg)
    (legs : List Leg) (said : List Bytes) (s : Seat Receiver) : Prop
  /-- It has refused the first end mark of a file. -/
  | refused {place' : Receiver.Place} (hleg : leg = .endOfFile) (hfirst : place.endSeen = false)
      (hseen : place'.endSeen = true) (hsaid : said = Receiver.writes [.nak])
      (h : Receiver.Listens l place' s) (hexpects : plan.Expects l place' (leg :: legs))
  /-- It has accepted the leg and waits for the next one. -/
  | accepted (hsaid : said = Receiver.writes (Receiver.answers plan.receiving leg))
      (h : Receiver.Listens (l.after place leg) (place.after leg) s) (hlegs : legs ≠ [])
      (hexpects : plan.Expects (l.after place leg) (place.after leg) legs)
      (hfollows : Receiver.Follows plan.receiving.protocol (some leg) (place.after leg))
  /-- It has accepted the last leg and is through. -/
  | finished (hsaid : said = Receiver.writes (Receiver.answers plan.receiving leg))
      (hlegs : legs = []) (h : Receiver.Done (l.after place leg) s)
      (hfiles : (l.after place leg).files = plan.files)
      (hblocks : (l.after place leg).blocks = plan.blocks)

/-- A receiver that has read the leg that it has expected accepts it, unless it is the first end
mark of a file in a batch. -/
theorem Expects.settles_judge {p : Receiver} {d : Desk} {purpose : Receiver.Purpose}
    (h : plan.Expects l place (leg :: legs)) (hknown : Receiver.Known l place ⟨p, d⟩)
    (hserving : Receiver.Serving place purpose) :
    Seat.Settles Receiver.act (plan.Judged l place leg legs)
      ⟨p.goto (.judge purpose (Receiver.incomingOf leg)), d⟩ := by
  have hroute := h.route
  rw [← h.options] at hroute
  -- The first end mark of a file is refused in a batch, and everything else is accepted.
  by_cases hfirst : leg = .endOfFile ∧ l.options.protocol = .ymodem ∧ place.endSeen = false
  · obtain ⟨rfl, hymodem, hseen⟩ := hfirst
    cases hserving with
    | between =>
      rw [hymodem] at hroute
      cases hroute
    | @inFile header payloads endSeen =>
      change endSeen = false at hseen
      subst hseen
      refine (Receiver.settles_judge_first_end hknown hymodem).mono ?_
      rintro said s ⟨hsaid, hlistens⟩
      exact .refused rfl rfl rfl hsaid hlistens ⟨h.options, h.files, h.blocks, h.route⟩
  · -- An end mark in a batch is the second one.
    have hend : leg = .endOfFile → l.options.protocol = .ymodem → place.endSeen = true := by
      intro hleg hymodem
      rw [← Bool.not_eq_false]
      exact fun hseen => hfirst ⟨hleg, hymodem, hseen⟩
    refine (Receiver.settles_judge hknown hserving hroute hend).mono ?_
    rintro said s ⟨hsaid, hnext⟩
    rw [h.options] at hsaid
    rcases hnext with ⟨rfl, hdone⟩ | ⟨hlegs, hlistens⟩
    · exact .finished hsaid rfl hdone h.files_after_last h.blocks_after_last
    · exact .accepted hsaid hlistens hlegs (h.after hlegs) (.after h.route hlegs)

end Plan

namespace Connection

/-- A connection at the start of a transfer. -/
def start (sending receiving : Options) (files : List (FileHeader × Bytes))
    (sendingAt receivingAt : Moment) : Connection where
  sender := ⟨Sender.new sending (files.map Prod.fst) sendingAt, ⟨files.map Prod.snd, {}⟩⟩
  receiver := ⟨Receiver.new receiving receivingAt, ⟨[], {}⟩⟩
  toSender := []
  toReceiver := []

end Connection

end BlockTransfer
