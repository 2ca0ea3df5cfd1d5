import BlockTransfer.Proofs.Plan

/-!
# Sender and receiver in lockstep

On a line that loses nothing sender and receiver stay in lockstep: at any time there are legs that
the receiver still expects, signals that the sender has not used, and legs that have been sent and
not been read. `Turn` lists how these can stand to each other, and `Awaits` tells where the receiver
is. Whatever one of them hears, they stay in lockstep, and less work is left to be done.

## Main definitions

* `Turn`: where the sender is in relation to the receiver.
* `Awaits`: where the receiver is on the way to its goal.

## Main results

* `Turn.hears`, `Turn.hears_stale`, `Turn.polls`: the sender goes on.
* `Turn.refuse`, `Turn.accept`, `settles_judge`: the receiver goes on.
-/

namespace BlockTransfer.Connection

/-! ## The sender's part -/

variable {plan : Plan}

/-- The sender works as the receiver has asked it to. -/
structure Agrees (plan : Plan) (l : Sender.Ledger) : Prop where
  trailer : l.trailer = plan.trailer
  streaming : l.streaming = plan.streaming

/-- Where a sender is, given the legs that the receiver expects, whether that has refused an end
mark, the signals on their way to the sender, and the legs on their way to the receiver. The number
says how much is left to be done. -/
inductive Turn (plan : Plan) (l : Sender.Ledger) (s : Seat Sender) :
    List Leg → Bool → List Control → List Leg → Nat → Prop
  /-- The receiver has asked for the next leg. -/
  | invited {leg : Leg} {legs : List Leg} (h : Sender.Waits l (leg :: legs) s)
      (hblocks : l.blocks + blockCount (leg :: legs) = plan.blocks) :
      Turn plan l s (leg :: legs) false [plan.handshake] [] (6 * legs.length + 6)
  /-- A leg has been sent that is answered, perhaps after blocks of a stream. -/
  | offered {blocks : List Leg} {leg : Leg} {legs : List Leg}
      (h : Sender.Offers l (leg = .endOfFile) leg legs s) (hagrees : Agrees plan l)
      (hblocks : l.blocks + blockCount (leg :: legs) = plan.blocks)
      (hdata : ∀ block ∈ blocks, block.isData = true)
      (hflow : plan.streaming = false → blocks = [])
      (hstop : plan.streaming = true → leg = .endOfFile ∨ leg = .endOfBatch) :
      Turn plan l s (blocks ++ leg :: legs) false [] (blocks ++ [leg])
        (6 * legs.length + 5 + blocks.length)
  /-- The first end mark of a file has been refused. -/
  | refused {legs : List Leg} (h : Sender.Offers l true .endOfFile legs s)
      (hagrees : Agrees plan l) (hblocks : l.blocks + blockCount legs = plan.blocks) :
      Turn plan l s (.endOfFile :: legs) true [.nak] [] (6 * legs.length + 4)
  /-- The second end mark of a file has been sent. -/
  | reoffered {legs : List Leg} (h : Sender.Offers l false .endOfFile legs s)
      (hagrees : Agrees plan l) (hblocks : l.blocks + blockCount legs = plan.blocks) :
      Turn plan l s (.endOfFile :: legs) true [] [.endOfFile] (6 * legs.length + 3)
  /-- A leg has been acknowledged. -/
  | acknowledged {spare : Bool} {leg : Leg} {legs : List Leg}
      (h : Sender.Offers l spare leg legs s) (hagrees : Agrees plan l)
      (hblocks : l.blocks + blockCount (leg :: legs) = plan.blocks)
      (hstop : plan.streaming = true → leg = .endOfFile ∨ leg = .endOfBatch) :
      Turn plan l s legs false (.ack :: plan.followUp leg legs) [] (6 * legs.length + 2)
  /-- A header has been sent that is not answered but by a request for the data. -/
  | announced {file : FileHeader} {legs : List Leg} (h : Sender.Waits l legs s)
      (hstreaming : plan.streaming = true) (hblocks : l.blocks + blockCount legs = plan.blocks) :
      Turn plan l s (.header file :: legs) false [] [.header file] (6 * legs.length + 5)
  /-- Blocks of a stream have been sent. The last one of them is not counted yet. -/
  | streamed {blocks legs : List Leg} (h : Sender.Streams l legs s) (hagrees : Agrees plan l)
      (hstreaming : plan.streaming = true)
      (hblocks : l.blocks + 1 + blockCount legs = plan.blocks)
      (hdata : ∀ block ∈ blocks, block.isData = true) :
      Turn plan l s (blocks ++ legs) false [] blocks (6 * legs.length + blocks.length)
  /-- The sender is through. -/
  | done (h : Sender.Done l s) (hagrees : Agrees plan l) (hblocks : l.blocks = plan.blocks) :
      Turn plan l s [] false [] [] 0

/-- A sender is through as planned, with no leg that the receiver expects. -/
structure Concludes (plan : Plan) (l : Sender.Ledger) (expected : List Leg) (s : Seat Sender) :
    Prop where
  done : Sender.Done l s
  agrees : Agrees plan l
  blocks : l.blocks = plan.blocks
  expected_nil : expected = []

/-- A sender has gone on: it has sent legs, and less is left to be done. -/
def Advances (plan : Plan) (expected : List Leg) (seen : Bool) (signals : List Control)
    (unread : List Leg) (work : Nat) (pending : Bytes) (said : List Bytes) (s : Seat Sender) :
    Prop :=
  ∃ (l : Sender.Ledger) (legs : List Leg) (work' : Nat), said = plan.messages legs ∧
    Turn plan l s expected seen signals (unread ++ legs) work' ∧ work' < work ∧
    l.pending = pending ∧ l.retries = 0

namespace Turn

variable {l : Sender.Ledger} {s : Seat Sender} {leg : Leg} {legs expected unread : List Leg}
  {seen : Bool} {signals : List Control} {work : Nat}

/-- A leg that has just been sent is on its way, perhaps after blocks of a stream. -/
theorem of_sent (blocks : List Leg) (h : Sender.Sent l leg legs s) (hagrees : Agrees plan l)
    (hblocks : l.blocks + blockCount (leg :: legs) = plan.blocks)
    (hdata : ∀ block ∈ blocks, block.isData = true)
    (hflow : plan.streaming = false → blocks = [])
    (hheader : ∀ file, leg = .header file → blocks = []) :
    ∃ files work, work ≤ 6 * legs.length + 5 + blocks.length ∧
      Turn plan { l with files } s (blocks ++ leg :: legs) false [] (blocks ++ [leg]) work := by
  cases h with
  | @offered files hkind h =>
    -- The leg is answered, so it is the last one on its way.
    rw [hagrees.streaming] at hkind
    exact ⟨files, _, Nat.le_refl _,
      .offered h ⟨hagrees.trailer, hagrees.streaming⟩ hblocks hdata hflow hkind⟩
  | @streamed files hstreaming hleg h =>
    rw [blockCount_cons, if_pos hleg] at hblocks
    -- The leg is a block of the stream like those before it.
    have hcount : l.blocks + 1 + blockCount legs = plan.blocks := by omega
    have hall : ∀ block ∈ blocks ++ [leg], block.isData = true :=
      List.forall_mem_append.mpr ⟨hdata, List.forall_mem_singleton.mpr hleg⟩
    have hturn : Turn plan { l with files } s ((blocks ++ [leg]) ++ legs) false []
        (blocks ++ [leg]) (6 * legs.length + (blocks ++ [leg]).length) :=
      .streamed h ⟨hagrees.trailer, hagrees.streaming⟩ (hagrees.streaming.symm.trans hstreaming)
        hcount hall
    rw [List.append_assoc, List.singleton_append] at hturn
    refine ⟨files, _, ?_, hturn⟩
    rw [List.length_append, List.length_singleton]
    omega
  | @announced files file hstreaming hleg h =>
    subst hleg
    -- A header comes after a request and not in a stream.
    rw [hheader file rfl]
    rw [blockCount_cons] at hblocks
    exact ⟨files, _, Nat.le_refl _,
      .announced h (hagrees.streaming.symm.trans hstreaming) hblocks⟩

/-- A sender whose leg has been acknowledged goes on to the next leg, or it waits for the request
that comes with the acknowledgement. -/
theorem advances_of_ack {spare : Bool} {rest : Bytes} (h : Sender.Offers l spare leg legs s)
    (hagrees : Agrees plan l) (hblocks : l.blocks + blockCount (leg :: legs) = plan.blocks)
    (hretries : l.retries = 0) (hpending : l.pending = Control.ack.byte :: rest) :
    Seat.Settles Sender.act
      (Advances plan legs false (plan.followUp leg legs) [] (6 * legs.length + 2) rest) s := by
  cases hdata : leg.isData with
  | true =>
    -- The next leg follows at once.
    obtain ⟨next, more, rfl, hs⟩ := Sender.settles_of_ack_data h hpending hdata
    rw [Plan.followUp, if_pos (.inl hdata)]
    refine hs.mono ?_
    rintro said s' ⟨rfl, hsent⟩
    rw [blockCount_cons, if_pos hdata] at hblocks
    have hagrees' : Agrees plan { l with pending := rest, blocks := l.blocks + 1 } :=
      ⟨hagrees.trailer, hagrees.streaming⟩
    have hblocks' : l.blocks + 1 + blockCount (next :: more) = plan.blocks := by omega
    obtain ⟨files, work, hwork, hturn⟩ := of_sent [] hsent hagrees' hblocks'
      (List.forall_mem_nil _) (fun _ => rfl) (fun _ _ => rfl)
    rw [hagrees.trailer]
    refine ⟨_, [next], work, rfl, hturn, ?_, rfl, hretries⟩
    rw [List.length_cons]
    rw [List.length_nil] at hwork
    omega
  | false =>
    refine (Sender.settles_of_ack h hpending hdata).mono ?_
    rintro said s' ⟨rfl, files, hrests⟩
    rw [blockCount_cons, if_neg (by simp [hdata])] at hblocks
    cases hrests with
    | waits hwaits =>
      -- The request is on its way already.
      obtain ⟨next, more, rfl⟩ := List.exists_cons_of_ne_nil hwaits.ne_nil
      rw [Plan.followUp, if_neg (by simp [hdata])]
      refine ⟨_, [], _, rfl, .invited hwaits hblocks, ?_, rfl, hretries⟩
      rw [List.length_cons]
      omega
    | done hlegs hdone =>
      subst hlegs
      rw [Plan.followUp, if_pos (.inr rfl)]
      exact ⟨_, [], 0, rfl, .done hdone ⟨hagrees.trailer, hagrees.streaming⟩ hblocks, by omega,
        rfl, hretries⟩

/-- A sender that hears the next signal goes on. -/
theorem hears {signal : Control} {rest : Bytes}
    (h : Turn plan l s expected seen (signal :: signals) unread work) (hretries : l.retries = 0)
    (hpending : l.pending = signal.byte :: rest) :
    Seat.Settles Sender.act (Advances plan expected seen signals unread work rest) s := by
  generalize hsignals : signal :: signals = incoming at h
  cases h with
  | offered => cases hsignals
  | reoffered => cases hsignals
  | announced => cases hsignals
  | streamed => cases hsignals
  | done => cases hsignals
  | @invited leg legs h hblocks =>
    obtain ⟨rfl, rfl⟩ := List.cons.inj hsignals
    refine (Sender.settles_of_invitation h hpending plan.mode?_handshake).mono ?_
    rintro said s' ⟨rfl, hsent⟩
    -- From now on the sender works as it has been asked to.
    have hagrees : Agrees plan { l with
        pending := rest, trailer := plan.trailer, streaming := plan.streaming } := ⟨rfl, rfl⟩
    obtain ⟨files, work, hwork, hturn⟩ := of_sent [] hsent hagrees hblocks
      (List.forall_mem_nil _) (fun _ => rfl) (fun _ _ => rfl)
    exact ⟨_, [leg], work, rfl, hturn, Nat.lt_succ_of_le hwork, rfl, hretries⟩
  | @refused legs h hagrees hblocks =>
    obtain ⟨rfl, rfl⟩ := List.cons.inj hsignals
    refine (Sender.settles_of_nak_spare h hpending).mono ?_
    rintro said s' ⟨rfl, hoffers⟩
    rw [hagrees.trailer]
    exact ⟨_, [.endOfFile], _, rfl,
      .reoffered hoffers ⟨hagrees.trailer, hagrees.streaming⟩ hblocks, by omega, rfl, hretries⟩
  | acknowledged h hagrees hblocks =>
    obtain ⟨rfl, rfl⟩ := List.cons.inj hsignals
    exact advances_of_ack h hagrees hblocks hretries hpending

/-- A sender in a stream that hears nothing goes on. -/
theorem polls {piece : Bytes} (h : Turn plan l s expected seen signals unread work)
    (hretries : l.retries = 0) (hphase : s.party.phase = .doing (.drain piece)) {timeout : Nat}
    {next : Except IoError Bytes → Moment → Sender}
    (hact : Sender.act s.party = .read timeout next) {moment : Moment}
    (hcalm : moment.abort = false) :
    Seat.Settles Sender.act (Advances plan expected seen signals unread work l.pending)
      ⟨next (.ok []) moment, s.desk⟩ := by
  -- Only in a stream does a sender poll.
  have hwaits {l : Sender.Ledger} {legs : List Leg} (h : Sender.Waits l legs s) : False := by
    obtain ⟨invitation, deadline, -, hlistens⟩ := h.step
    cases hlistens.symm.trans hphase
  have hoffers {l : Sender.Ledger} {spare : Bool} {leg : Leg} {legs : List Leg}
      (h : Sender.Offers l spare leg legs s) : False := by
    obtain ⟨item, number, deadline, -, -, hanswer⟩ := h.step
    cases hanswer.symm.trans hphase
  cases h with
  | invited h => exact (hwaits h).elim
  | offered h => exact (hoffers h).elim
  | refused h => exact (hoffers h).elim
  | reoffered h => exact (hoffers h).elim
  | acknowledged h => exact (hoffers h).elim
  | announced h => exact (hwaits h).elim
  | done h =>
    obtain ⟨summary, hover, -⟩ := h.phase
    cases hover.symm.trans hphase
  | streamed h hagrees hstreaming hblocks hdata =>
    obtain ⟨leg, more, rfl, hs⟩ := Sender.settles_of_nothing h hact hcalm
    refine hs.mono ?_
    rintro said s' ⟨rfl, hsent⟩
    obtain ⟨files, work, hwork, hturn⟩ := of_sent _ hsent ⟨hagrees.trailer, hagrees.streaming⟩
      hblocks hdata (fun hflow => absurd (hstreaming.symm.trans hflow) (by decide))
      (fun file hfile => absurd (congrArg (· :: more) hfile) (h.ne_header file more))
    rw [hagrees.trailer]
    refine ⟨_, [leg], work, rfl, hturn, ?_, rfl, hretries⟩
    rw [List.length_cons]
    omega

/-- A sender that hears an old request is still waiting for one, or is through, or does not heed
it. -/
theorem hears_stale {rest : Bytes} (h : Turn plan l s expected seen signals unread work)
    (hhandshake : plan.handshake = .crcRequest)
    (hpending : l.pending = Control.crcRequest.byte :: rest) :
    signals = [plan.handshake] ∨ Concludes plan l expected s ∨
      Seat.Settles Sender.act (fun said s' => said = [] ∧
        Turn plan { l with pending := rest } s' expected seen signals unread work) s := by
  have hanswered := (Plan.mode_of_handshake hhandshake).2
  -- A request is no answer to a leg that has been offered.
  have hoffers {spare : Bool} {leg : Leg} {legs : List Leg} (h : Sender.Offers l spare leg legs s)
      (hturn : ∀ s', Sender.Offers { l with pending := rest } spare leg legs s' →
        Turn plan { l with pending := rest } s' expected seen signals unread work) :
      Seat.Settles Sender.act (fun said s' => said = [] ∧
        Turn plan { l with pending := rest } s' expected seen signals unread work) s := by
    refine (Sender.settles_of_request h (.inl rfl) hpending).mono ?_
    rintro said s' ⟨hsaid, hoffers⟩
    exact ⟨hsaid, hturn s' hoffers⟩
  cases h with
  | invited => exact .inl rfl
  | done h hagrees hblocks => exact .inr (.inl ⟨h, hagrees, hblocks, rfl⟩)
  | announced h hstreaming => simp [hanswered] at hstreaming
  | streamed h hagrees hstreaming => simp [hanswered] at hstreaming
  | offered h hagrees hblocks hdata hflow hstop =>
    refine .inr (.inr (hoffers h fun s' h' => ?_))
    exact .offered h' ⟨hagrees.trailer, hagrees.streaming⟩ hblocks hdata hflow hstop
  | refused h hagrees hblocks =>
    refine .inr (.inr (hoffers h fun s' h' => ?_))
    exact .refused h' ⟨hagrees.trailer, hagrees.streaming⟩ hblocks
  | reoffered h hagrees hblocks =>
    refine .inr (.inr (hoffers h fun s' h' => ?_))
    exact .reoffered h' ⟨hagrees.trailer, hagrees.streaming⟩ hblocks
  | acknowledged h hagrees hblocks hstop =>
    refine .inr (.inr (hoffers h fun s' h' => ?_))
    exact .acknowledged h' ⟨hagrees.trailer, hagrees.streaming⟩ hblocks hstop

/-- A sender takes in what arrives. In a stream that is a signal. -/
theorem arrival (h : Turn plan l s expected seen signals unread work)
    (hflow : signals = [] → plan.streaming = false) {timeout : Nat}
    {next : Except IoError Bytes → Moment → Sender}
    (hact : Sender.act s.party = .read timeout next) {arrived : Bytes} {moment : Moment}
    (hne : arrived ≠ []) (hcalm : moment.abort = false) :
    l.pending = [] ∧ Turn plan { l with pending := arrived } ⟨next (.ok arrived) moment, s.desk⟩
      expected seen signals unread work := by
  cases h with
  | announced h hstreaming => simp [hflow rfl] at hstreaming
  | streamed h hagrees hstreaming => simp [hflow rfl] at hstreaming
  | done h =>
    obtain ⟨ending, hstop⟩ := h.stops
    cases hstop.symm.trans hact
  | invited h hblocks =>
    obtain ⟨hnil, hwaits⟩ := Sender.waits_of_arrival h hact hne hcalm
    exact ⟨hnil, .invited hwaits hblocks⟩
  | offered h hagrees hblocks hdata hblocked hstop =>
    obtain ⟨hnil, hoffers⟩ := Sender.offers_of_arrival h hact hne hcalm
    have hagrees' : Agrees plan { l with pending := arrived } :=
      ⟨hagrees.trailer, hagrees.streaming⟩
    exact ⟨hnil, .offered hoffers hagrees' hblocks hdata hblocked hstop⟩
  | refused h hagrees hblocks =>
    obtain ⟨hnil, hoffers⟩ := Sender.offers_of_arrival h hact hne hcalm
    exact ⟨hnil, .refused hoffers ⟨hagrees.trailer, hagrees.streaming⟩ hblocks⟩
  | reoffered h hagrees hblocks =>
    obtain ⟨hnil, hoffers⟩ := Sender.offers_of_arrival h hact hne hcalm
    exact ⟨hnil, .reoffered hoffers ⟨hagrees.trailer, hagrees.streaming⟩ hblocks⟩
  | acknowledged h hagrees hblocks hstop =>
    obtain ⟨hnil, hoffers⟩ := Sender.offers_of_arrival h hact hne hcalm
    exact ⟨hnil, .acknowledged hoffers ⟨hagrees.trailer, hagrees.streaming⟩ hblocks hstop⟩

/-- A sender that has used all that has arrived reads, or it is through. -/
theorem reads (h : Turn plan l s expected seen signals unread work) (hpending : l.pending = []) :
    (∃ timeout next, Sender.act s.party = .read timeout next) ∨ Concludes plan l expected s := by
  cases h with
  | invited h => exact .inl (h.reads hpending)
  | offered h => exact .inl (h.reads hpending)
  | refused h => exact .inl (h.reads hpending)
  | reoffered h => exact .inl (h.reads hpending)
  | acknowledged h => exact .inl (h.reads hpending)
  | announced h => exact .inl (h.reads hpending)
  | streamed h => exact .inl (h.reads hpending)
  | done h hagrees hblocks => exact .inr ⟨h, hagrees, hblocks, rfl⟩

/-- Where nothing is on its way the sender is in a stream, or it is through. -/
theorem streams_or_done (h : Turn plan l s expected seen [] [] work) :
    (∃ legs, Sender.Streams l legs s) ∨ expected = [] ∧ Sender.Done l s := by
  generalize hsignals : ([] : List Control) = signals at h
  generalize hunread : ([] : List Leg) = unread at h
  cases h with
  | invited => cases hsignals
  | offered => simp at hunread
  | refused => cases hsignals
  | reoffered => cases hunread
  | acknowledged => cases hsignals
  | announced => cases hunread
  | streamed h => exact .inl ⟨_, h⟩
  | done h => exact .inr ⟨rfl, h⟩

/-! ## The receiver's part -/

/-- The leg that is read next is the one that is expected next. -/
theorem expected_eq (h : Turn plan l s expected seen signals (leg :: unread) work) :
    ∃ legs, expected = leg :: legs := by
  generalize hunread : leg :: unread = legs at h
  cases h with
  | invited => cases hunread
  | refused => cases hunread
  | acknowledged => cases hunread
  | done => cases hunread
  | reoffered =>
    obtain ⟨rfl, rfl⟩ := List.cons.inj hunread
    exact ⟨_, rfl⟩
  | announced =>
    obtain ⟨rfl, rfl⟩ := List.cons.inj hunread
    exact ⟨_, rfl⟩
  | streamed =>
    subst hunread
    exact ⟨_, rfl⟩
  | @offered blocks =>
    -- The blocks of the stream are read before the leg that is answered.
    cases blocks with
    | nil =>
      obtain ⟨rfl, rfl⟩ := List.cons.inj hunread
      exact ⟨_, rfl⟩
    | cons block blocks =>
      obtain ⟨rfl, rfl⟩ := List.cons.inj hunread
      exact ⟨_, rfl⟩

/-- The first end mark of a file can be refused. -/
theorem refuse (h : Turn plan l s expected false signals (.endOfFile :: unread) work) :
    ∃ work' < work, Turn plan l s expected true (signals ++ [.nak]) unread work' := by
  generalize hunread : Leg.endOfFile :: unread = legs at h
  cases h with
  | invited => cases hunread
  | acknowledged => cases hunread
  | done => cases hunread
  | announced => cases hunread
  | streamed h hagrees hstreaming hblocks hdata =>
    subst hunread
    cases hdata _ List.mem_cons_self
  | @offered blocks leg legs h hagrees hblocks hdata hflow hstop =>
    -- An end mark is no block, so no block of the stream is ahead of it.
    cases blocks with
    | nil =>
      obtain ⟨rfl, rfl⟩ := List.cons.inj hunread
      exact ⟨_, by omega, .refused h hagrees hblocks⟩
    | cons block blocks =>
      obtain ⟨rfl, rfl⟩ := List.cons.inj hunread
      cases hdata _ List.mem_cons_self

/-- The next leg can be accepted. -/
theorem accept {place : Receiver.Place} {stage : Option Nat}
    (h : Turn plan l s (leg :: legs) place.endSeen signals (leg :: unread) work)
    (hroute : Route plan.receiving.protocol stage (leg :: legs)) :
    ∃ work' < work, Turn plan l s legs (place.after leg).endSeen
      (signals ++ Receiver.answers plan.receiving leg) unread work' := by
  generalize hunread : leg :: unread = sent at h
  generalize hexpected : leg :: legs = expected at h
  generalize hseen : place.endSeen = seen at h
  cases h with
  | invited => cases hunread
  | refused => cases hunread
  | acknowledged => cases hunread
  | done => cases hunread
  | @offered blocks leg' legs' h hagrees hblocks hdata hflow hstop =>
    cases blocks with
    | nil =>
      obtain ⟨rfl, rfl⟩ := List.cons.inj hunread
      obtain ⟨-, rfl⟩ := List.cons.inj hexpected
      -- All blocks of the stream have been read, and the leg is acknowledged.
      rw [Plan.answers_eq hroute hstop, place.endSeen_after (.inl hseen)]
      exact ⟨_, by omega, .acknowledged h hagrees hblocks hstop⟩
    | cons block blocks =>
      obtain ⟨rfl, rfl⟩ := List.cons.inj hunread
      obtain ⟨-, rfl⟩ := List.cons.inj hexpected
      -- A block of the stream is read, with the leg that is answered still to come.
      have hstreaming : plan.streaming = true := by
        rw [← Bool.not_eq_false]
        intro hanswered
        cases hflow hanswered
      rw [Plan.answers_of_isData hstreaming (hdata _ List.mem_cons_self),
        place.endSeen_after (.inl hseen)]
      refine ⟨_, ?_, .offered h hagrees hblocks
        (fun block hblock => hdata block (List.mem_cons_of_mem _ hblock))
        (fun hanswered => absurd (hstreaming.symm.trans hanswered) (by decide)) hstop⟩
      rw [List.length_cons]
      omega
  | reoffered h hagrees hblocks =>
    obtain ⟨rfl, rfl⟩ := List.cons.inj hunread
    obtain ⟨-, rfl⟩ := List.cons.inj hexpected
    have hstop (hstreaming : plan.streaming = true) :
        Leg.endOfFile = .endOfFile ∨ Leg.endOfFile = .endOfBatch := .inl rfl
    rw [Plan.answers_eq hroute hstop, place.endSeen_after (.inr rfl)]
    exact ⟨_, by omega, .acknowledged h hagrees hblocks hstop⟩
  | @announced file legs' h hstreaming hblocks =>
    obtain ⟨rfl, rfl⟩ := List.cons.inj hunread
    obtain ⟨-, rfl⟩ := List.cons.inj hexpected
    obtain ⟨next, more, rfl⟩ := List.exists_cons_of_ne_nil h.ne_nil
    have hanswers : Receiver.answers plan.receiving (.header file) = [plan.handshake] :=
      if_pos hstreaming
    rw [hanswers, place.endSeen_after (.inr rfl)]
    refine ⟨_, ?_, .invited h hblocks⟩
    rw [List.length_cons]
    omega
  | streamed h hagrees hstreaming hblocks hdata =>
    subst hunread
    obtain ⟨-, rfl⟩ := List.cons.inj hexpected
    rw [Plan.answers_of_isData hstreaming (hdata _ List.mem_cons_self),
      place.endSeen_after (.inl hseen)]
    refine ⟨_, ?_, .streamed h hagrees hstreaming hblocks
      fun block hblock => hdata block (List.mem_cons_of_mem _ hblock)⟩
    rw [List.length_cons]
    omega

end Turn

/-- Where a receiver is, the legs that it expects, and the bytes of them that it has got. -/
inductive Awaits (plan : Plan) (l : Receiver.Ledger) (place : Receiver.Place)
    (s : Seat Receiver) : List Leg → Bytes → Prop
  /-- It waits for the next leg. -/
  | listens {legs : List Leg} (h : Receiver.Listens l place s)
      (hexpects : plan.Expects l place legs) (hlegs : legs ≠ []) :
      Awaits plan l place s legs l.pending
  /-- It waits for the rest of a frame. -/
  | collects {legs : List Leg} {size : BlockSize} (h : Receiver.Collects l place size s)
      (hexpects : plan.Expects l place legs) (hlegs : legs ≠ []) :
      Awaits plan l place s legs (size.marker :: l.pending)
  /-- It is through. -/
  | done (h : Receiver.Done l s) (hoptions : l.options = plan.receiving)
      (hfiles : l.files = plan.files) (hblocks : l.blocks = plan.blocks) :
      Awaits plan l place s [] l.pending

/-- A receiver has gone on: it has answered to a leg, and less is left to be done. -/
def Proceeds (plan : Plan) (l : Sender.Ledger) (sender : Seat Sender) (signals : List Control)
    (unread : List Leg) (work : Nat) (pending : Bytes) (said : List Bytes) (s : Seat Receiver) :
    Prop :=
  ∃ (l' : Receiver.Ledger) (place : Receiver.Place) (expected : List Leg) (news : List Control)
    (work' : Nat), said = Receiver.writes news ∧ Awaits plan l' place s expected pending ∧
    Turn plan l sender expected place.endSeen (signals ++ news) unread work' ∧ work' < work ∧
    l'.pending = pending ∧ l'.retries = plan.unanswered

/-- A receiver that has read the next leg goes on. -/
theorem settles_judge {l : Sender.Ledger} {sender : Seat Sender} {l' : Receiver.Ledger}
    {place : Receiver.Place} {p : Receiver} {d : Desk} {purpose : Receiver.Purpose} {leg : Leg}
    {legs unread : List Leg} {signals : List Control} {work : Nat}
    (h : Receiver.Known l' place ⟨p, d⟩) (hserving : Receiver.Serving place purpose)
    (hexpects : plan.Expects l' place (leg :: legs)) (hretries : l'.retries = plan.unanswered)
    (hturn : Turn plan l sender (leg :: legs) place.endSeen signals (leg :: unread) work) :
    Seat.Settles Receiver.act (Proceeds plan l sender signals unread work l'.pending)
      ⟨p.goto (.judge purpose (Receiver.incomingOf leg)), d⟩ := by
  refine (hexpects.settles_judge h hserving).mono ?_
  rintro said s hjudged
  cases hjudged with
  | @refused place' hleg hfirst hseen hsaid hlistens hexpects' =>
    subst hleg
    rw [hfirst] at hturn
    -- The sender still has to hear of the refusal.
    obtain ⟨work', hwork, hturn'⟩ := hturn.refuse
    rw [← hseen] at hturn'
    exact ⟨l', place', _, [.nak], work', hsaid,
      .listens hlistens hexpects' (List.cons_ne_nil _ _), hturn', hwork, rfl, hretries⟩
  | accepted hsaid hlistens hlegs hexpects' =>
    obtain ⟨work', hwork, hturn'⟩ := hturn.accept hexpects.route
    rw [← l'.pending_after place leg]
    exact ⟨_, _, legs, _, work', hsaid, .listens hlistens hexpects' hlegs, hturn', hwork, rfl,
      (l'.retries_after place leg).trans hretries⟩
  | finished hsaid hlegs hdone hfiles hblocks =>
    subst hlegs
    obtain ⟨work', hwork, hturn'⟩ := hturn.accept hexpects.route
    rw [← l'.pending_after place leg]
    exact ⟨_, _, [], _, work', hsaid, .done hdone hexpects.options_after hfiles hblocks, hturn',
      hwork, rfl, (l'.retries_after place leg).trans hretries⟩

/-- A receiver takes in what arrives. -/
theorem Awaits.arrival {l : Receiver.Ledger} {place : Receiver.Place} {s : Seat Receiver}
    {expected : List Leg} {got : Bytes} (h : Awaits plan l place s expected got) {timeout : Nat}
    {next : Except IoError Bytes → Moment → Receiver}
    (hact : Receiver.act s.party = .read timeout next) {arrived : Bytes} {moment : Moment}
    (hne : arrived ≠ []) (hcalm : moment.abort = false) :
    ∃ pending, pending.length = l.pending.length + arrived.length ∧
      Awaits plan { l with pending } place ⟨next (.ok arrived) moment, s.desk⟩ expected
        (got ++ arrived) := by
  cases h with
  | listens h hexpects hlegs =>
    obtain ⟨hnil, hlistens⟩ := Receiver.listens_of_arrival h hact hne hcalm
    rw [hnil]
    exact ⟨arrived, (Nat.zero_add _).symm, .listens hlistens hexpects.congr hlegs⟩
  | collects h hexpects hlegs =>
    obtain ⟨-, hcollects⟩ := Receiver.collects_of_arrival h hact hne hcalm
    exact ⟨l.pending ++ arrived, List.length_append, .collects hcollects hexpects.congr hlegs⟩
  | done h =>
    obtain ⟨ending, hstop⟩ := h.stops
    cases hstop.symm.trans hact

end BlockTransfer.Connection
