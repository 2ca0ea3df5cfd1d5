import BlockTransfer.Proofs.Plan

/-!
# Sender and receiver on a line that loses messages

A receiver that answers every leg is never more than one leg ahead of the sender, and never behind
the leg that the sender offers. `Accord` lists the three ways in which the two can stand to each
other. In each of them at most one message is on its way that makes its reader send something new:
an answer to the sender, or a copy of the offered leg to the receiver. So a leg is neither skipped
nor taken twice, whatever is lost.

## Main definitions

* `Plan.Answering`: the receiver answers every leg and does not change the block check.
* `Accord`: how sender and receiver can stand to each other.

## Main results

* `Accord.sublist`: messages may be lost.
* `Accord.sender_hears`, `Accord.sender_lapses`: what the sender does preserves the accord.
* `Accord.receiver_hears`, `Accord.receiver_lapses`: what the receiver does preserves it.
-/

namespace BlockTransfer

/-- The receiver answers every leg, it does not change the block check, and in a batch it does not
ask for blocks with a signal that is an answer as well. -/
structure Plan.Answering (plan : Plan) : Prop where
  streaming : plan.streaming = false
  attempts : plan.receiving.protocol = .xmodem → plan.receiving.config.crcHandshakeAttempts = 0
  handshake : plan.receiving.protocol = .ymodem → plan.handshake = .crcRequest

namespace Connection

variable {plan : Plan}

/-- Whether a signal is an answer, at which the sender goes on or sends the same leg again. -/
def isAnswer : Control → Bool
  | .ack | .nak => true
  | .crcRequest | .streamRequest | .can | .eot => false

/-- The number of answers among signals. -/
def answerCount (signals : List Control) : Nat :=
  signals.countP isAnswer

/-- A receiver that has accepted a leg, with the legs that are left after that. -/
inductive Passed (plan : Plan) (l : Receiver.Ledger) (leg : Leg) (legs : List Leg)
    (s : Seat Receiver) : Prop
  /-- It waits for the next one. -/
  | listens {place : Receiver.Place} (h : Receiver.Listens l place s)
      (hexpects : plan.Expects l place legs) (hlegs : legs ≠ [])
      (hfollows : Receiver.Follows plan.receiving.protocol (some leg) place)
  /-- It is through. -/
  | done (hlegs : legs = []) (h : Receiver.Done l s) (hfiles : l.files = plan.files)

/-- Where a receiver is in relation to the leg that the sender offers, given the signals on their
way to the sender. -/
inductive Stands (plan : Plan) (l : Receiver.Ledger) (leg : Leg) (legs : List Leg)
    (s : Seat Receiver) (signals : List Control) : Prop
  /-- It has not accepted the leg. -/
  | behind {place : Receiver.Place} (h : Receiver.Listens l place s)
      (hexpects : plan.Expects l place (leg :: legs))
      (hsignals : ∀ signal ∈ signals, signal = plan.handshake ∨ signal = .nak)
  /-- It has accepted the leg. -/
  | ahead (h : Passed plan l leg legs s)
      (hsignals : ∀ signal ∈ signals, signal = plan.handshake ∨ signal = .nak ∨ signal = .ack)

/-- How a sender and a receiver can stand to each other, given the signals on their way to the
sender and the legs on their way to the receiver. -/
inductive Accord (plan : Plan) (l : Sender.Ledger) (l' : Receiver.Ledger) (s : Seat Sender)
    (r : Seat Receiver) : List Control → List Leg → Prop
  /-- The sender waits to be asked for the leg that the receiver asks for. -/
  | waits {place : Receiver.Place} {leg : Leg} {legs : List Leg} {signals : List Control}
      (h : Sender.Waits l (leg :: legs) s) (hlistens : Receiver.Listens l' place r)
      (hexpects : plan.Expects l' place (leg :: legs))
      (hasks : place.asks plan.receiving.protocol = true)
      (hsignals : ∀ signal ∈ signals, signal = plan.handshake)
      (hfew : answerCount signals ≤ 1) : Accord plan l l' s r signals []
  /-- The sender offers the leg that the receiver expects, or the one before. -/
  | offers {spare : Bool} {leg : Leg} {legs : List Leg} {signals : List Control}
      {unread : List Leg} (h : Sender.Offers l spare leg legs s)
      (htrailer : l.trailer = plan.trailer) (hstreaming : l.streaming = false)
      (hstands : Stands plan l' leg legs r signals) (hunread : ∀ copy ∈ unread, copy = leg)
      (hfew : answerCount signals + unread.length ≤ 1) : Accord plan l l' s r signals unread

/-- Both parties are through, and the files have arrived. -/
def Concluded (plan : Plan) (s : Seat Sender) (r : Seat Receiver) : Prop :=
  (∃ l, Sender.Done l s) ∧ ∃ l, Receiver.Done l r ∧ l.files = plan.files

/-! ## Signals -/

/-- A receiver that answers does not ask for a stream. -/
theorem handshake_cases (hplan : plan.Answering) :
    plan.handshake = .nak ∨ plan.handshake = .crcRequest := by
  have hstreaming := hplan.streaming
  rw [Plan.streaming] at hstreaming
  rw [Plan.handshake]
  cases hvariant : plan.receiving.variant with
  | checksum => exact .inl rfl
  | crc => exact .inr rfl
  | oneK => exact .inr rfl
  | streaming =>
    rw [hvariant] at hstreaming
    cases hstreaming

theorem answerCount_cons (signal : Control) (signals : List Control) :
    answerCount (signal :: signals) = answerCount signals + if isAnswer signal then 1 else 0 :=
  List.countP_cons

/-- After a signal that is answered at once there is no answer among signals of the same kind. -/
theorem answerCount_eq_zero_of_same {signal : Control} {signals : List Control}
    (hsame : ∀ other ∈ signals, other = signal) (hfew : answerCount (signal :: signals) ≤ 1) :
    answerCount signals = 0 := by
  rw [answerCount_cons] at hfew
  cases hanswer : isAnswer signal with
  | true =>
    rw [if_pos hanswer] at hfew
    omega
  | false =>
    refine List.countP_eq_zero.mpr fun other hother => ?_
    rw [hsame other hother, hanswer]
    exact Bool.false_ne_true

/-- Signals without answers are requests. -/
theorem eq_handshake_of_answerCount {signals : List Control}
    (hsignals : ∀ signal ∈ signals, signal = plan.handshake ∨ signal = .nak ∨ signal = .ack)
    (hnone : answerCount signals = 0) : ∀ signal ∈ signals, signal = plan.handshake := by
  intro signal hsignal
  have hanswer := List.countP_eq_zero.mp hnone signal hsignal
  rcases hsignals signal hsignal with h | rfl | rfl
  · exact h
  · exact absurd rfl hanswer
  · exact absurd rfl hanswer

/-- A leg is answered once. -/
theorem answerCount_answers {leg : Leg} {legs : List Leg} {stage : Option Nat}
    (hplan : plan.Answering) (hroute : Route plan.receiving.protocol stage (leg :: legs)) :
    answerCount (Receiver.answers plan.receiving leg) = 1 := by
  have hstreaming : ¬plan.receiving.variant.isStreaming = true := by
    rw [show plan.receiving.variant.isStreaming = false from hplan.streaming]
    exact Bool.false_ne_true
  -- A batch is requested with a signal that is no answer, so only the acknowledgement counts.
  have hrequest (hymodem : plan.receiving.protocol = .ymodem) :
      answerCount [.ack, plan.receiving.variant.handshake] = 1 := by
    rw [show plan.receiving.variant.handshake = .crcRequest from hplan.handshake hymodem]
    rfl
  cases leg with
  | data => rw [Receiver.answers, if_neg hstreaming]; rfl
  | endOfBatch => rfl
  | header =>
    rw [Receiver.answers, if_neg hstreaming]
    cases hroute with
    | header hymodem => exact hrequest hymodem
  | endOfFile =>
    rw [Receiver.answers]
    cases hprotocol : plan.receiving.protocol with
    | xmodem => rfl
    | ymodem => exact hrequest hprotocol

/-- The answer to a leg are an acknowledgement and perhaps a request. -/
theorem mem_answers {signal : Control} {leg : Leg}
    (h : signal ∈ Receiver.answers plan.receiving leg) :
    signal = plan.handshake ∨ signal = .nak ∨ signal = .ack := by
  have hboth (h : signal ∈ [.ack, plan.receiving.variant.handshake]) :
      signal = plan.handshake ∨ signal = .nak ∨ signal = .ack := by
    rcases List.mem_cons.mp h with hack | hhandshake
    · exact .inr (.inr hack)
    · exact .inl (List.mem_singleton.mp hhandshake)
  have hone (h : signal ∈ [Control.ack]) :
      signal = plan.handshake ∨ signal = .nak ∨ signal = .ack :=
    .inr (.inr (List.mem_singleton.mp h))
  cases leg with
  | data =>
    rw [Receiver.answers] at h
    split at h
    · cases h
    · exact hone h
  | endOfBatch => exact hone h
  | header =>
    rw [Receiver.answers] at h
    split at h
    · exact .inl (List.mem_singleton.mp h)
    · exact hboth h
  | endOfFile =>
    rw [Receiver.answers] at h
    split at h
    · exact hone h
    · exact hboth h

/-! ## Losses -/

/-- Signals may be lost. -/
theorem Stands.sublist {l : Receiver.Ledger} {leg : Leg} {legs : List Leg} {s : Seat Receiver}
    {signals signals' : List Control} (h : Stands plan l leg legs s signals)
    (hsignals : signals'.Sublist signals) : Stands plan l leg legs s signals' := by
  cases h with
  | behind h hexpects hkinds =>
    exact .behind h hexpects fun signal hsignal => hkinds signal (hsignals.mem hsignal)
  | ahead h hkinds => exact .ahead h fun signal hsignal => hkinds signal (hsignals.mem hsignal)

/-- Messages may be lost. -/
theorem Accord.sublist {l : Sender.Ledger} {l' : Receiver.Ledger} {s : Seat Sender}
    {r : Seat Receiver} {signals signals' : List Control} {unread unread' : List Leg}
    (h : Accord plan l l' s r signals unread) (hsignals : signals'.Sublist signals)
    (hunread : unread'.Sublist unread) : Accord plan l l' s r signals' unread' := by
  have hcount : answerCount signals' ≤ answerCount signals := hsignals.countP_le
  have hlength := hunread.length_le
  cases h with
  | waits h hlistens hexpects hasks hsame hfew =>
    obtain rfl := List.sublist_nil.mp hunread
    exact .waits h hlistens hexpects hasks
      (fun signal hsignal => hsame signal (hsignals.mem hsignal)) (hcount.trans hfew)
  | offers h htrailer hstreaming hstands hcopies hfew =>
    exact .offers h htrailer hstreaming (hstands.sublist hsignals)
      (fun copy hcopy => hcopies copy (hunread.mem hcopy)) (by omega)

/-! ## The sender's part -/

/-- A sender has gone on, given the receiver and the messages on their way. It has given up, or
both parties are through, or they are in accord. -/
def Continues (plan : Plan) (l' : Receiver.Ledger) (r : Seat Receiver) (signals : List Control)
    (unread : List Leg) (pending : Bytes) (said : List Bytes) (s : Seat Sender) : Prop :=
  s.party.Lost ∨ Concluded plan s r ∨
    ∃ (l : Sender.Ledger) (legs : List Leg), said = plan.messages legs ∧
      Accord plan l l' s r signals (unread ++ legs) ∧ l.pending = pending

section

variable {l : Sender.Ledger} {l' : Receiver.Ledger} {s : Seat Sender} {r : Seat Receiver}
  {place : Receiver.Place} {leg : Leg} {legs unread : List Leg} {signal : Control}
  {signals : List Control} {rest : Bytes} {spare : Bool}

/-- A leg that is sent to a receiver that answers is offered. -/
theorem offers_of_sent (h : Sender.Sent l leg legs s) (hstreaming : l.streaming = false) :
    ∃ files, Sender.Offers { l with files } (leg = .endOfFile) leg legs s := by
  cases h with
  | @offered files hkind h => exact ⟨files, h⟩
  | streamed htrue => cases hstreaming.symm.trans htrue
  | announced htrue => cases hstreaming.symm.trans htrue

/-- A new leg is offered to a receiver that expects it. -/
theorem Accord.of_sent (h : Sender.Sent l leg legs s) (htrailer : l.trailer = plan.trailer)
    (hstreaming : l.streaming = false) (hlistens : Receiver.Listens l' place r)
    (hexpects : plan.Expects l' place (leg :: legs))
    (hsignals : ∀ other ∈ signals, other = plan.handshake) (hnone : answerCount signals = 0) :
    ∃ files, Accord plan { l with files } l' s r signals [leg] := by
  obtain ⟨files, hoffers⟩ := offers_of_sent h hstreaming
  refine ⟨files, .offers hoffers htrailer hstreaming
    (.behind hlistens hexpects fun other hother => .inl (hsignals other hother))
    (fun copy hcopy => List.mem_singleton.mp hcopy) ?_⟩
  rw [hnone]
  exact Nat.le_refl 1

/-- After an acknowledgement the sender goes on to the leg that the receiver expects, or both are
through. -/
theorem settles_of_acknowledgement (h : Sender.Offers l spare leg legs s)
    (htrailer : l.trailer = plan.trailer) (hstreaming : l.streaming = false)
    (hpassed : Passed plan l' leg legs r) (hsignals : ∀ other ∈ signals, other = plan.handshake)
    (hnone : answerCount signals = 0) (hpending : l.pending = Control.ack.byte :: rest) :
    Seat.Settles Sender.act (Continues plan l' r signals [] rest) s := by
  -- A block that is acknowledged is followed by the next leg at once, and any other leg by a wait
  -- for the request.
  cases hdata : leg.isData with
  | true =>
    obtain ⟨next, more, rfl, hs⟩ := Sender.settles_of_ack_data h hpending hdata
    refine hs.mono ?_
    rintro said s' ⟨rfl, hsent⟩
    cases hpassed with
    | done hnil => cases hnil
    | listens hlistens hexpects hlegs hfollows =>
      obtain ⟨files, haccord⟩ :=
        Accord.of_sent hsent htrailer hstreaming hlistens hexpects hsignals hnone
      rw [htrailer]
      exact .inr (.inr ⟨_, [next], rfl, haccord, rfl⟩)
  | false =>
    refine (Sender.settles_of_ack h hpending hdata).mono ?_
    rintro said s' ⟨rfl, files, hrests⟩
    cases hrests with
    | waits hwaits =>
      -- The receiver has asked for the next leg when it answered.
      obtain ⟨next, more, rfl⟩ := List.exists_cons_of_ne_nil hwaits.ne_nil
      cases hpassed with
      | done hnil => cases hnil
      | listens hlistens hexpects hlegs hfollows =>
        refine .inr (.inr ⟨_, [], rfl, .waits hwaits hlistens hexpects (hfollows.asks hdata)
          hsignals ?_, rfl⟩)
        rw [hnone]
        exact Nat.zero_le 1
    | done hnil hdone =>
      subst hnil
      cases hpassed with
      | done hlegs hdone' hfiles => exact .inr (.inl ⟨⟨_, hdone⟩, l', hdone', hfiles⟩)
      | listens hlistens hexpects hlegs => exact absurd rfl hlegs

/-- A leg that is sent again, or not, keeps the parties in accord. -/
theorem Accord.of_copies (copies : List Leg) {pending : Bytes} (retries : Nat)
    (h : Sender.Offers { l with pending, retries } spare leg legs s)
    (htrailer : l.trailer = plan.trailer)
    (hstreaming : l.streaming = false) (hstands : Stands plan l' leg legs r signals)
    (hunread : ∀ copy ∈ unread, copy = leg) (hcopies : ∀ copy ∈ copies, copy = leg)
    (hfew : answerCount signals + unread.length + copies.length ≤ 1) :
    Continues plan l' r signals unread pending (copies.map (Leg.message l.trailer)) s := by
  rw [htrailer]
  refine .inr (.inr ⟨_, copies, rfl, .offers h htrailer hstreaming hstands ?_ ?_, rfl⟩)
  · intro copy hcopy
    rcases List.mem_append.mp hcopy with hcopy | hcopy
    · exact hunread copy hcopy
    · exact hcopies copy hcopy
  · rw [List.length_append]
    omega

/-- What the sender does with the next signal preserves the accord. -/
theorem Accord.sender_hears (hplan : plan.Answering)
    (h : Accord plan l l' s r (signal :: signals) unread)
    (hpending : l.pending = signal.byte :: rest) :
    Seat.Settles Sender.act (Continues plan l' r signals unread rest) s := by
  cases h with
  | @waits place leg legs _ h hlistens hexpects hasks hsignals hfew =>
    -- Only requests are on their way, and the first of them makes the sender send the leg.
    obtain rfl := hsignals signal List.mem_cons_self
    have hrest : ∀ other ∈ signals, other = plan.handshake := fun other hother =>
      hsignals other (List.mem_cons_of_mem _ hother)
    have hmode := plan.mode?_handshake
    rw [hplan.streaming] at hmode
    refine (Sender.settles_of_invitation h hpending hmode).mono ?_
    rintro said s' ⟨rfl, hsent⟩
    obtain ⟨files, haccord⟩ := Accord.of_sent hsent rfl rfl hlistens hexpects hrest
      (answerCount_eq_zero_of_same hrest hfew)
    exact .inr (.inr ⟨_, [leg], rfl, haccord, rfl⟩)
  | @offers spare leg legs _ _ h htrailer hstreaming hstands hunread hfew =>
    rw [answerCount_cons] at hfew
    have hrest := hstands.sublist (List.sublist_cons_self signal signals)
    -- A refusal makes the sender send the leg again.
    have hrefused (hnak : signal = .nak) :
        Seat.Settles Sender.act (Continues plan l' r signals unread rest) s := by
      subst hnak
      change answerCount signals + 1 + unread.length ≤ 1 at hfew
      refine (Sender.settles_of_nak h hpending).mono ?_
      rintro said s' (hlost | ⟨rfl, spare', retries, hoffers⟩)
      · exact .inl hlost
      · exact Accord.of_copies [leg] retries hoffers htrailer
          hstreaming hrest hunread (fun copy hcopy => List.mem_singleton.mp hcopy)
          (by rw [List.length_singleton]; omega)
    -- It takes no notice of a request.
    have hasked (hrequest : signal = .crcRequest) :
        Seat.Settles Sender.act (Continues plan l' r signals unread rest) s := by
      subst hrequest
      refine (Sender.settles_of_request h (.inl rfl) hpending).mono ?_
      rintro said s' ⟨rfl, hoffers⟩
      exact Accord.of_copies [] l.retries hoffers htrailer hstreaming hrest hunread
        (List.forall_mem_nil _) hfew
    have hhandshake (hsame : signal = plan.handshake) :
        Seat.Settles Sender.act (Continues plan l' r signals unread rest) s := by
      rcases handshake_cases hplan with hnak | hrequest
      · exact hrefused (hsame.trans hnak)
      · exact hasked (hsame.trans hrequest)
    -- The receiver decides what the signal can be.
    cases hstands with
    | behind hlistens hexpects hsignals =>
      rcases hsignals signal List.mem_cons_self with hsame | hnak
      · exact hhandshake hsame
      · exact hrefused hnak
    | ahead hpassed hsignals =>
      rcases hsignals signal List.mem_cons_self with hsame | hnak | rfl
      · exact hhandshake hsame
      · exact hrefused hnak
      · -- Nothing else is on its way that makes a party send something new.
        change answerCount signals + 1 + unread.length ≤ 1 at hfew
        obtain rfl : unread = [] := List.eq_nil_of_length_eq_zero (by omega)
        have hnone : answerCount signals = 0 := by omega
        have hkinds : ∀ other ∈ signals, other = plan.handshake := eq_handshake_of_answerCount
          (fun other hother => hsignals other (List.mem_cons_of_mem _ hother)) hnone
        exact settles_of_acknowledgement h htrailer hstreaming hpassed hkinds hnone hpending

/-- What the sender does when nothing is heard preserves the accord. -/
theorem Accord.sender_lapses (h : Accord plan l l' s r [] []) {timeout : Nat}
    {next : Except IoError Bytes → Moment → Sender}
    (hact : Sender.act s.party = .read timeout next) {moment : Moment}
    (hcalm : moment.abort = false) :
    Seat.Settles Sender.act (Continues plan l' r [] [] l.pending)
      ⟨next (.ok []) moment, s.desk⟩ := by
  cases h with
  | waits h hlistens hexpects hasks hsignals hfew =>
    refine (Sender.settles_of_silence_waits h hact hcalm).mono ?_
    rintro said s' (hlost | ⟨rfl, retries, hwaits⟩)
    · exact .inl hlost
    · exact .inr (.inr ⟨_, [], rfl, .waits hwaits hlistens hexpects hasks hsignals hfew, rfl⟩)
  | @offers spare leg legs _ _ h htrailer hstreaming hstands hunread hfew =>
    -- The sender listens on, or it sends the leg again.
    refine (Sender.settles_of_silence h hact hcalm).mono ?_
    rintro said s' (hlost | ⟨rfl | rfl, retries, hoffers⟩)
    · exact .inl hlost
    · exact Accord.of_copies [] retries hoffers htrailer hstreaming hstands hunread
        (List.forall_mem_nil _) (Nat.zero_le 1)
    · exact Accord.of_copies [leg] retries hoffers htrailer hstreaming hstands hunread
        (fun copy hcopy => List.mem_singleton.mp hcopy) (Nat.le_refl 1)

/-- A sender takes in what arrives. -/
theorem Accord.arrival (h : Accord plan l l' s r signals unread) {timeout : Nat}
    {next : Except IoError Bytes → Moment → Sender}
    (hact : Sender.act s.party = .read timeout next) {arrived : Bytes} {moment : Moment}
    (hne : arrived ≠ []) (hcalm : moment.abort = false) :
    Accord plan { l with pending := arrived } l' ⟨next (.ok arrived) moment, s.desk⟩ r signals
      unread := by
  cases h with
  | waits h hlistens hexpects hasks hsignals hfew =>
    exact .waits (Sender.waits_of_arrival h hact hne hcalm).2 hlistens hexpects hasks hsignals hfew
  | offers h htrailer hstreaming hstands hunread hfew =>
    exact .offers (Sender.offers_of_arrival h hact hne hcalm).2 htrailer hstreaming hstands hunread
      hfew

/-- A sender that has used all that has arrived reads. -/
theorem Accord.sender_reads (h : Accord plan l l' s r signals unread) (hpending : l.pending = []) :
    ∃ timeout next, Sender.act s.party = .read timeout next := by
  cases h with
  | waits h => exact h.reads hpending
  | offers h => exact h.reads hpending

/-- A receiver that has used all that has arrived reads, or it is through. -/
theorem Accord.receiver_idle (h : Accord plan l l' s r signals unread)
    (hpending : l'.pending = []) : Idle Receiver.act r := by
  cases h with
  | waits h hlistens => exact .inl (hlistens.reads hpending)
  | offers h htrailer hstreaming hstands =>
    cases hstands with
    | behind hlistens => exact .inl (hlistens.reads hpending)
    | ahead hpassed =>
      cases hpassed with
      | listens hlistens => exact .inl (hlistens.reads hpending)
      | done hlegs hdone => exact .inr hdone.stops

/-- A sender whose legs are answered is not in a stream. -/
theorem Accord.not_drain (h : Accord plan l l' s r signals unread) (piece : Bytes) :
    s.party.phase ≠ .doing (.drain piece) := by
  intro hphase
  cases h with
  | waits h =>
    obtain ⟨invitation, deadline, -, hlistens⟩ := h.step
    cases hlistens.symm.trans hphase
  | offers h =>
    obtain ⟨item, number, deadline, -, -, hanswer⟩ := h.step
    cases hanswer.symm.trans hphase

/-- There is at most one leg on its way. -/
theorem Accord.length_unread_le (h : Accord plan l l' s r signals unread) :
    unread.length ≤ 1 := by
  cases h with
  | waits => exact Nat.zero_le 1
  | offers h htrailer hstreaming hstands hunread hfew => omega

/-! ## The receiver's part -/

/-- A receiver has gone on, given the sender and the messages on their way. It has given up, or
the parties are in accord. -/
def Responds (plan : Plan) (l : Sender.Ledger) (s : Seat Sender) (signals : List Control)
    (said : List Bytes) (r : Seat Receiver) : Prop :=
  r.party.Lost ∨ ∃ (l' : Receiver.Ledger) (news : List Control),
    said = Receiver.writes news ∧ Accord plan l l' s r (signals ++ news) [] ∧ l'.pending = []

/-- What the receiver says keeps the parties in accord. -/
theorem Accord.of_news (news : List Control) {l' : Receiver.Ledger} {r : Seat Receiver}
    (h : Sender.Offers l spare leg legs s) (htrailer : l.trailer = plan.trailer)
    (hstreaming : l.streaming = false) (hstands : Stands plan l' leg legs r (signals ++ news))
    (hfew : answerCount signals + answerCount news ≤ 1) (hpending : l'.pending = []) :
    Responds plan l s signals (Receiver.writes news) r := by
  refine .inr ⟨l', news, rfl, .offers h htrailer hstreaming hstands (List.forall_mem_nil _) ?_,
    hpending⟩
  rw [answerCount, List.countP_append]
  exact hfew

/-- Every signal on its way is a request or an answer. -/
theorem Stands.kinds (h : Stands plan l' leg legs r signals) :
    ∀ other ∈ signals, other = plan.handshake ∨ other = .nak ∨ other = .ack := by
  intro other hother
  cases h with
  | ahead hpassed hsignals => exact hsignals other hother
  | behind hlistens hexpects hsignals =>
    rcases hsignals other hother with hsame | hnak
    · exact .inl hsame
    · exact .inr (.inl hnak)

/-- The answers to the offered leg keep the parties in accord. -/
theorem Stands.ahead_append {l₁ : Receiver.Ledger} {r₁ : Seat Receiver} {news : List Control}
    (h : Stands plan l' leg legs r signals) (hpassed : Passed plan l₁ leg legs r₁)
    (hnews : ∀ other ∈ news, other = plan.handshake ∨ other = .nak ∨ other = .ack) :
    Stands plan l₁ leg legs r₁ (signals ++ news) := by
  refine .ahead hpassed fun other hother => ?_
  rcases List.mem_append.mp hother with hother | hother
  · exact h.kinds other hother
  · exact hnews other hother

/-- A receiver that expects the offered leg answers it. -/
theorem responds_behind (hplan : plan.Answering) (h : Sender.Offers l spare leg legs s)
    (htrailer : l.trailer = plan.trailer) (hstreaming : l.streaming = false)
    (hlistens : Receiver.Listens l' place r) (hexpects : plan.Expects l' place (leg :: legs))
    (hsignals : ∀ other ∈ signals, other = plan.handshake ∨ other = .nak)
    (hnone : answerCount signals = 0) {timeout : Nat}
    {next : Except IoError Bytes → Moment → Receiver}
    (hact : Receiver.act r.party = .read timeout next) {moment : Moment}
    (hcalm : moment.abort = false) :
    Seat.Settles Receiver.act (Responds plan l s signals)
      ⟨next (.ok (leg.message plan.trailer)) moment, r.desk⟩ := by
  have hstands : Stands plan l' leg legs r signals := .behind hlistens hexpects hsignals
  have htrailer' : l'.options.variant.trailer = plan.trailer := by
    rw [hexpects.options, Plan.trailer]
  -- The answer is the only one on its way, since there was none before.
  have hfew : answerCount signals + answerCount (Receiver.answers plan.receiving leg) ≤ 1 := by
    rw [hnone, answerCount_answers hplan hexpects.route]
  obtain ⟨-, harrived⟩ :=
    Receiver.listens_of_arrival hlistens hact (leg.message_ne_nil plan.trailer) hcalm
  refine Receiver.settles_of_message [] harrived (by
    rw [List.append_nil]
    exact congrArg leg.message htrailer'.symm) fun p d purpose hknown hserving => ?_
  refine (hexpects.congr.settles_judge hknown hserving).mono ?_
  rintro said r' hjudged
  -- A refusal leaves the receiver behind, and what is accepted takes it ahead.
  cases hjudged with
  | refused hleg hfirst hseen hsaid hlistens' hexpects' =>
    rw [hsaid]
    refine Accord.of_news _ h htrailer hstreaming
      (.behind hlistens' hexpects' fun other hother => ?_)
      (by rw [hnone]; exact Nat.le_refl 1) rfl
    rcases List.mem_append.mp hother with hother | hother
    · exact hsignals other hother
    · exact .inr (List.mem_singleton.mp hother)
  | accepted hsaid hlistens' hlegs hexpects' hfollows =>
    rw [hsaid]
    exact Accord.of_news _ h htrailer hstreaming
      (hstands.ahead_append (.listens hlistens' hexpects' hlegs hfollows)
        fun other hother => mem_answers hother) hfew (Receiver.Ledger.pending_after _ _ _)
  | finished hsaid hlegs hdone hfiles hblocks =>
    rw [hsaid]
    exact Accord.of_news _ h htrailer hstreaming
      (hstands.ahead_append (.done hlegs hdone hfiles)
        fun other hother => mem_answers hother) hfew (Receiver.Ledger.pending_after _ _ _)

/-- A receiver that has accepted the offered leg answers it once more. -/
theorem responds_ahead (hplan : plan.Answering) (h : Sender.Offers l spare leg legs s)
    (htrailer : l.trailer = plan.trailer) (hstreaming : l.streaming = false)
    (hpassed : Passed plan l' leg legs r)
    (hsignals : ∀ other ∈ signals, other = plan.handshake ∨ other = .nak ∨ other = .ack)
    (hnone : answerCount signals = 0) {timeout : Nat}
    {next : Except IoError Bytes → Moment → Receiver}
    (hact : Receiver.act r.party = .read timeout next) {moment : Moment}
    (hcalm : moment.abort = false) :
    Seat.Settles Receiver.act (Responds plan l s signals)
      ⟨next (.ok (leg.message plan.trailer)) moment, r.desk⟩ := by
  have hstands : Stands plan l' leg legs r signals := .ahead hpassed hsignals
  cases hpassed with
  | done hlegs hdone hfiles =>
    -- A receiver that is through reads nothing.
    obtain ⟨ending, hstop⟩ := hdone.stops
    cases hstop.symm.trans hact
  | @listens place hlistens hexpects hlegs hfollows =>
    have htrailer' : l'.options.variant.trailer = plan.trailer := by
      rw [hexpects.options, Plan.trailer]
    have hfollows' : Receiver.Follows l'.options.protocol (some leg) place := by
      rw [hexpects.options]
      exact hfollows
    have hanswering : l'.options.variant.isStreaming = false := by
      rw [hexpects.options]
      exact hplan.streaming
    obtain ⟨-, harrived⟩ :=
      Receiver.listens_of_arrival hlistens hact (leg.message_ne_nil plan.trailer) hcalm
    refine Receiver.settles_of_message [] harrived (by
      rw [List.append_nil]
      exact congrArg leg.message htrailer'.symm) fun p d purpose hknown hserving => ?_
    -- The block is stored no second time, so the receiver stays where it is.
    refine (Receiver.settles_judge_repeated hknown hserving hfollows' hanswering).mono ?_
    rintro said r' (hlost | ⟨hsaid, retries, hlistens'⟩)
    · exact .inl hlost
    · have hpassed' := Passed.listens hlistens' hexpects.congr hlegs hfollows
      rcases hsaid with rfl | ⟨hymodem, rfl⟩
      · refine Accord.of_news [.ack] h htrailer hstreaming
          (hstands.ahead_append hpassed' fun other hother =>
            .inr (.inr (List.mem_singleton.mp hother))) ?_ rfl
        rw [hnone]
        exact Nat.le_refl 1
      · -- A repeated header is followed by the request for the data, which is no answer.
        have hsame : l'.options.variant.handshake = plan.handshake := by
          rw [hexpects.options, Plan.handshake]
        refine Accord.of_news [.ack, l'.options.variant.handshake] h htrailer hstreaming
          (hstands.ahead_append hpassed' fun other hother => ?_) ?_ rfl
        · rcases List.mem_cons.mp hother with hack | hother
          · exact .inr (.inr hack)
          · exact .inl ((List.mem_singleton.mp hother).trans hsame)
        · change l'.options.protocol = .ymodem at hymodem
          rw [hexpects.options] at hymodem
          rw [hnone, hsame, hplan.handshake hymodem]
          exact Nat.le_refl 1

/-- What the receiver does with the offered leg preserves the accord. -/
theorem Accord.receiver_hears (hplan : plan.Answering)
    (h : Accord plan l l' s r signals [leg]) {timeout : Nat}
    {next : Except IoError Bytes → Moment → Receiver}
    (hact : Receiver.act r.party = .read timeout next) {moment : Moment}
    (hcalm : moment.abort = false) :
    Seat.Settles Receiver.act (Responds plan l s signals)
      ⟨next (.ok (leg.message plan.trailer)) moment, r.desk⟩ := by
  cases h with
  | @offers spare offered legs _ _ h htrailer hstreaming hstands hunread hfew =>
    obtain rfl := hunread leg List.mem_cons_self
    -- The leg on its way takes up the one answer that may be outstanding.
    have hnone : answerCount signals = 0 := by
      rw [List.length_singleton] at hfew
      omega
    cases hstands with
    | behind hlistens hexpects hsignals =>
      exact responds_behind hplan h htrailer hstreaming hlistens hexpects hsignals hnone hact hcalm
    | ahead hpassed hsignals =>
      exact responds_ahead hplan h htrailer hstreaming hpassed hsignals hnone hact hcalm

/-- A receiver that hears nothing waits on where it is. It says nothing, or it repeats its request
or refuses what it has not understood. -/
theorem settles_of_lapse (hplan : plan.Answering) (hlistens : Receiver.Listens l' place r)
    (hexpects : plan.Expects l' place legs) {timeout : Nat}
    {next : Except IoError Bytes → Moment → Receiver}
    (hact : Receiver.act r.party = .read timeout next) {moment : Moment}
    (hcalm : moment.abort = false) :
    Seat.Settles Receiver.act (fun said r => r.party.Lost ∨
      ∃ news retries, said = Receiver.writes news ∧
        (news = [] ∨ news = [if place.asks plan.receiving.protocol then plan.handshake
          else .nak]) ∧ Receiver.Listens { l' with retries } place r)
      ⟨next (.ok []) moment, r.desk⟩ := by
  have hanswering : l'.options.variant.isStreaming = false := by
    rw [hexpects.options]
    exact hplan.streaming
  have hattempts : l'.options.protocol = .xmodem →
      l'.options.config.crcHandshakeAttempts = 0 := by
    rw [hexpects.options]
    exact hplan.attempts
  refine (Receiver.settles_of_silence hlistens hact hcalm hanswering hattempts).mono ?_
  rintro said r' (hlost | ⟨rfl | hsaid, retries, hlistens'⟩)
  · exact .inl hlost
  · exact .inr ⟨[], retries, rfl, .inl rfl, hlistens'⟩
  · rw [hexpects.options] at hsaid
    exact .inr ⟨_, retries, hsaid, .inr rfl, hlistens'⟩

/-- What is said when nothing is heard is at most one signal, and no acknowledgement. -/
theorem kinds_of_lapse {asks : Bool} {news : List Control}
    (hnews : news = [] ∨ news = [if asks then plan.handshake else .nak]) :
    (∀ other ∈ news, other = plan.handshake ∨ other = .nak) ∧
      answerCount [] + answerCount news ≤ 1 := by
  rw [answerCount, List.countP_nil, Nat.zero_add]
  rcases hnews with rfl | rfl
  · exact ⟨List.forall_mem_nil _, Nat.zero_le 1⟩
  · refine ⟨fun other hother => ?_, List.countP_le_length⟩
    rw [List.mem_singleton.mp hother]
    cases asks with
    | true => exact .inl rfl
    | false => exact .inr rfl

/-- What the receiver does when nothing is heard preserves the accord. -/
theorem Accord.receiver_lapses (hplan : plan.Answering) (h : Accord plan l l' s r [] [])
    {timeout : Nat} {next : Except IoError Bytes → Moment → Receiver}
    (hact : Receiver.act r.party = .read timeout next) {moment : Moment}
    (hcalm : moment.abort = false) (hpending : l'.pending = []) :
    Seat.Settles Receiver.act (Responds plan l s []) ⟨next (.ok []) moment, r.desk⟩ := by
  cases h with
  | @waits place leg legs _ h hlistens hexpects hasks hsignals hfew =>
    refine (settles_of_lapse hplan hlistens hexpects hact hcalm).mono ?_
    rintro said r' (hlost | ⟨news, retries, rfl, hnews, hlistens'⟩)
    · exact .inl hlost
    · obtain ⟨-, hcount⟩ := kinds_of_lapse hnews
      -- Both parties wait, and all that the receiver can say is its request.
      rw [hasks, if_pos rfl] at hnews
      refine .inr ⟨_, news, rfl, .waits h hlistens' hexpects.congr hasks ?_ ?_, hpending⟩
      · intro other hother
        rcases hnews with rfl | rfl
        · cases hother
        · exact List.mem_singleton.mp hother
      · rw [answerCount, List.countP_nil, Nat.zero_add] at hcount
        exact hcount
  | @offers spare leg legs _ _ h htrailer hstreaming hstands hunread hfew =>
    have hstands' := hstands
    cases hstands with
    | behind hlistens hexpects hsignals =>
      refine (settles_of_lapse hplan hlistens hexpects hact hcalm).mono ?_
      rintro said r' (hlost | ⟨news, retries, rfl, hnews, hlistens'⟩)
      · exact .inl hlost
      · obtain ⟨hkinds, hcount⟩ := kinds_of_lapse hnews
        exact Accord.of_news _ h htrailer hstreaming
          (.behind hlistens' hexpects.congr hkinds) hcount hpending
    | ahead hpassed hsignals =>
      cases hpassed with
      | done hlegs hdone hfiles =>
        obtain ⟨ending, hstop⟩ := hdone.stops
        cases hstop.symm.trans hact
      | listens hlistens hexpects hlegs hfollows =>
        refine (settles_of_lapse hplan hlistens hexpects hact hcalm).mono ?_
        rintro said r' (hlost | ⟨news, retries, rfl, hnews, hlistens'⟩)
        · exact .inl hlost
        · -- The answer was lost, and what is said now is no acknowledgement of another leg.
          obtain ⟨hkinds, hcount⟩ := kinds_of_lapse hnews
          refine Accord.of_news _ h htrailer hstreaming (hstands'.ahead_append
            (.listens hlistens' hexpects.congr hlegs hfollows) fun other hother => ?_)
            hcount hpending
          rcases hkinds other hother with hsame | hnak
          · exact .inl hsame
          · exact .inr (.inl hnak)

end

end Connection

end BlockTransfer
