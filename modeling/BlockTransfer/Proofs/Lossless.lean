import BlockTransfer.Proofs.Lockstep
import Mathlib.Data.List.Forall2

/-!
# Transfers over a line that loses nothing

Two parties in lockstep, and the bytes between them: some of these the sender has got already and
not used, some the receiver has, and the rest is on the line. The bytes may be cut into pieces in
any way on their way. Each step leaves less to be done or brings something to its party, so both
parties come to their ends, and the files have arrived.

## Main definitions

* `Lockstep`: the parties are in lockstep, and nothing has been lost.
* `Fulfils`: both parties are through, and all is as planned.

## Main results

* `inevitable_fulfils`: a transfer in lockstep comes to its end as planned.
* `inevitable_ymodem` and `inevitable_xmodem`: what becomes of a batch, and of a single file.
-/

namespace BlockTransfer.Connection

variable {plan : Plan} {c c' : Connection}

/-- Both parties are through, and all is as planned. No attempt has failed once the sender was
there. -/
structure Fulfils (plan : Plan) (c : Connection) : Prop where
  /-- The sender has completed its run. -/
  sender : ∃ summary, c.sender.party.phase = .over (.ok (.completed summary)) ∧
    summary.blocks = plan.blocks ∧ summary.retries = 0
  /-- The receiver has completed its run. -/
  receiver : ∃ summary, c.receiver.party.phase = .over (.ok (.completed summary)) ∧
    summary.blocks = plan.blocks ∧ summary.retries = plan.unanswered
  /-- The files have been stored. -/
  files : c.receiver.desk.sink.files = plan.files
  /-- There is no file that has not been closed. -/
  closed : c.receiver.desk.sink.current = none
  /-- The parties have used the same block check. -/
  trailers : c.sender.party.trailer = plan.trailer ∧ c.receiver.party.trailer = plan.trailer

/-- The parties are in lockstep, no attempt has failed, and what has been sent is on the line or
has arrived. Ahead of the signals that the sender has not used may be some old requests. -/
structure Lockstep (plan : Plan) (l : Sender.Ledger) (l' : Receiver.Ledger)
    (place : Receiver.Place) (expected : List Leg) (stale : Nat) (signals : List Control)
    (unread : List Leg) (got : Bytes) (work : Nat) (c : Connection) : Prop where
  turn : Turn plan l c.sender expected place.endSeen signals unread work
  awaits : Awaits plan l' place c.receiver expected got
  sender_retries : l.retries = 0
  receiver_retries : l'.retries = plan.unanswered
  handshake : stale ≠ 0 → plan.handshake = .crcRequest
  toSender : l.pending ++ c.toSender.flatten =
    (Receiver.writes (List.replicate stale plan.handshake ++ signals)).flatten
  toReceiver : got ++ c.toReceiver.flatten = (plan.messages unread).flatten

/-- The parties are in lockstep. There is some work left to be done, with each old request as one
piece of it, and there are some bytes that have not been used. Those on the line count twice. -/
def InStep (plan : Plan) (left : Nat × Nat) (c : Connection) : Prop :=
  ∃ l l' place expected stale signals unread got work,
    Lockstep plan l l' place expected stale signals unread got work c ∧ left.1 = stale + work ∧
      left.2 = 2 * (c.toSender.flatten.length + c.toReceiver.flatten.length) + l'.pending.length

/-- The parties are in lockstep and less is left than before. -/
def Closer (plan : Plan) (left : Nat × Nat) (c : Connection) : Prop :=
  ∃ left', Prod.Lex (· < ·) (· < ·) left' left ∧ InStep plan left' c

theorem flatten_messages_cons (plan : Plan) (leg : Leg) (legs : List Leg) :
    (plan.messages (leg :: legs)).flatten =
      leg.message plan.trailer ++ (plan.messages legs).flatten :=
  List.flatten_cons

theorem flatten_writes_eq_nil_iff {signals : List Control} :
    (Receiver.writes signals).flatten = [] ↔ signals = [] := by
  cases signals <;> simp [Receiver.writes]

namespace Lockstep

variable {l : Sender.Ledger} {l' : Receiver.Ledger} {place : Receiver.Place}
  {expected unread : List Leg} {stale : Nat} {signals : List Control} {got : Bytes}
  {work size : Nat}

/-- Work has been done. -/
theorem closer_of_work {left : Nat}
    (h : Lockstep plan l l' place expected stale signals unread got work c)
    (hwork : stale + work < left) : Closer plan (left, size) c :=
  ⟨_, .left _ _ hwork, l, l', place, expected, stale, signals, unread, got, work, h, rfl, rfl⟩

/-- Bytes have been taken. -/
theorem closer_of_size (h : Lockstep plan l l' place expected stale signals unread got work c)
    (hsize : 2 * (c.toSender.flatten.length + c.toReceiver.flatten.length) + l'.pending.length <
      size) : Closer plan (stale + work, size) c :=
  ⟨_, .right _ hsize, l, l', place, expected, stale, signals, unread, got, work, h, rfl, rfl⟩

/-- What the sender comes to keeps the parties in lockstep. -/
theorem converges_of_sender {pending : Bytes}
    (hs : Seat.Settles Sender.act (Advances plan expected place.endSeen signals unread work
      pending) c.sender)
    (hawaits : Awaits plan l' place c.receiver expected got)
    (hretries : l'.retries = plan.unanswered)
    (hhandshake : stale ≠ 0 → plan.handshake = .crcRequest)
    (htoSender : pending ++ c.toSender.flatten =
      (Receiver.writes (List.replicate stale plan.handshake ++ signals)).flatten)
    (htoReceiver : got ++ c.toReceiver.flatten = (plan.messages unread).flatten) :
    Converges (Closer plan (stale + work, size)) c := by
  refine .of_sender hs fun said s hsaid => .here ?_
  obtain ⟨l₁, legs, work', rfl, hturn, hwork, rfl, hretries'⟩ := hsaid
  have hafter : Lockstep plan l₁ l' place expected stale signals (unread ++ legs) got work'
      (c.senderMoved (plan.messages legs) s) := by
    refine ⟨hturn, hawaits, hretries', hretries, hhandshake, htoSender, ?_⟩
    rw [senderMoved, List.flatten_append, ← List.append_assoc, htoReceiver, Plan.messages,
      Plan.messages, Plan.messages, List.map_append, List.flatten_append]
  exact hafter.closer_of_work (Nat.add_lt_add_left hwork stale)

/-- What the receiver comes to keeps the parties in lockstep. -/
theorem converges_of_receiver {unread' : List Leg} (pending : Bytes)
    (h : Lockstep plan l l' place expected stale signals unread got work c)
    (hs : Seat.Settles Receiver.act (Proceeds plan l c.sender signals unread' work pending)
      c.receiver)
    (hunread : pending ++ c.toReceiver.flatten = (plan.messages unread').flatten) :
    Converges (Closer plan (stale + work, size)) c := by
  refine .of_receiver hs fun said s hsaid => .here ?_
  obtain ⟨l₁, place', expected', news, work', rfl, hawaits, hturn, hwork, rfl, hretries⟩ := hsaid
  have hafter : Lockstep plan l l₁ place' expected' stale (signals ++ news) unread' l₁.pending
      work' (c.receiverMoved (Receiver.writes news) s) := by
    refine ⟨hturn, hawaits, h.sender_retries, hretries, h.handshake, ?_, hunread⟩
    rw [receiverMoved, List.flatten_append, ← List.append_assoc, h.toSender, ← List.append_assoc]
    simp only [Receiver.writes, List.map_append, List.flatten_append]
  exact hafter.closer_of_work (Nat.add_lt_add_left hwork stale)

/-- A sender that has concluded ends the transfer. -/
theorem fulfils (h : Lockstep plan l l' place expected stale signals unread got work c)
    (hsender : Concludes plan l expected c.sender) : Fulfils plan c := by
  have hawaits := h.awaits
  -- With no leg that it expects the receiver is through, too.
  cases hawaits with
  | listens hlistens hexpects hlegs => exact absurd hsender.expected_nil hlegs
  | collects hcollects hexpects hlegs => exact absurd hsender.expected_nil hlegs
  | done hdone hoptions hfiles hblocks =>
    obtain ⟨sent, hsent, hcount, hfailed⟩ := hsender.done.phase
    obtain ⟨received, hreceived, hcount', hfailed'⟩ := hdone.phase
    have htrailer := hdone.known.trailer
    rw [hoptions] at htrailer
    exact ⟨⟨sent, hsent, hcount.trans hsender.blocks, hfailed.trans h.sender_retries⟩,
      ⟨received, hreceived, hcount'.trans hblocks, hfailed'.trans h.receiver_retries⟩,
      hdone.known.files.trans hfiles, hdone.closed,
      hsender.done.known.trailer.trans hsender.agrees.trailer, htrailer⟩

/-- A sender that has got a signal uses it, or the transfer is through. -/
theorem fulfils_or_converges
    (h : Lockstep plan l l' place expected stale signals unread got work c)
    (hne : l.pending ≠ []) :
    Fulfils plan c ∨ Converges (Closer plan (stale + work, size)) c := by
  have hbytes := h.toSender
  have hhandshake := h.handshake
  obtain ⟨byte, rest, hpending⟩ := List.exists_cons_of_ne_nil hne
  rw [hpending] at hbytes
  cases stale with
  | zero =>
    cases signals with
    | nil => cases hbytes
    | cons signal signals =>
      -- A signal is one byte, so the byte is the whole next signal.
      obtain ⟨rfl, hrest⟩ := List.cons.inj hbytes
      exact .inr (converges_of_sender (h.turn.hears h.sender_retries hpending) h.awaits
        h.receiver_retries hhandshake hrest h.toReceiver)
  | succ stale =>
    have hcrc := hhandshake (Nat.succ_ne_zero stale)
    rw [List.replicate_succ, List.cons_append] at hbytes
    obtain ⟨rfl, hrest⟩ := List.cons.inj hbytes
    have hstale := h.turn.hears_stale hcrc (by rw [hpending, hcrc])
    rcases hstale with rfl | hsender | hs
    · -- An old request does as well as the latest one, which becomes an old one by that.
      change rest ++ c.toSender.flatten =
        (Receiver.writes (List.replicate stale plan.handshake ++ [plan.handshake])).flatten at hrest
      rw [← List.replicate_succ', ← List.append_nil (List.replicate _ _)] at hrest
      exact .inr (converges_of_sender (h.turn.hears h.sender_retries hpending) h.awaits
        h.receiver_retries hhandshake hrest h.toReceiver)
    · exact .inl (h.fulfils hsender)
    · refine .inr (.of_sender hs ?_)
      rintro said s ⟨rfl, hturn⟩
      have htoReceiver : got ++ (c.senderMoved [] s).toReceiver.flatten =
          (plan.messages unread).flatten := by
        rw [senderMoved, List.append_nil]
        exact h.toReceiver
      refine .here (closer_of_work ⟨hturn, h.awaits, h.sender_retries, h.receiver_retries,
        fun _ => hcrc, hrest, htoReceiver⟩ (Nat.add_lt_add_right (Nat.lt_succ_self stale) work))

/-- A receiver that waits for a leg uses what it has got. -/
theorem converges_of_listens {byte : UInt8} {rest : Bytes}
    (h : Lockstep plan l l' place expected stale signals unread l'.pending work c)
    (hlistens : Receiver.Listens l' place c.receiver)
    (hexpects : plan.Expects l' place expected) (hpending : l'.pending = byte :: rest)
    (hsize : 2 * (c.toSender.flatten.length + c.toReceiver.flatten.length) + l'.pending.length =
      size) : Converges (Closer plan (stale + work, size)) c := by
  have hbytes := h.toReceiver
  rw [hpending] at hbytes
  cases unread with
  | nil => cases hbytes
  | cons leg unread =>
    obtain ⟨legs, rfl⟩ := h.turn.expected_eq
    rw [flatten_messages_cons, Leg.message] at hbytes
    cases hblock : leg.block? with
    | none =>
      -- An end mark is read at once.
      rw [hblock] at hbytes
      obtain ⟨rfl, hrest⟩ := List.cons.inj hbytes
      have hincoming : Receiver.incomingOf leg = .endOfFile := by
        rw [Receiver.incomingOf, hblock]
      refine h.converges_of_receiver rest ?_ hrest
      refine Receiver.settles_of_end_mark hlistens hpending fun p purpose hknown hserving => ?_
      rw [← hincoming]
      exact settles_judge hknown hserving hexpects.congr h.receiver_retries h.turn
    | some block =>
      -- Of a frame the first byte is taken.
      rw [hblock] at hbytes
      obtain ⟨rfl, hrest⟩ := List.cons.inj hbytes
      refine .of_receiver (Receiver.settles_of_marker block.size hlistens hpending) ?_
      rintro said s ⟨rfl, hcollects⟩
      have htoSender : l.pending ++ (c.receiverMoved [] s).toSender.flatten =
          (Receiver.writes (List.replicate stale plan.handshake ++ signals)).flatten := by
        rw [receiverMoved, List.append_nil]
        exact h.toSender
      have hawaits : Awaits plan { l' with pending := rest } place s (leg :: legs)
          (block.size.marker :: rest) :=
        .collects hcollects hexpects.congr (List.cons_ne_nil _ _)
      rw [← hpending] at hawaits
      refine .here (closer_of_size ⟨h.turn, hawaits, h.sender_retries, h.receiver_retries,
        h.handshake, htoSender, h.toReceiver⟩ ?_)
      rw [hpending, List.length_cons] at hsize
      rw [receiverMoved, List.append_nil]
      dsimp only
      omega

/-- A receiver that waits for the rest of a frame uses what it has got, or it needs more. -/
theorem converges_of_collects {frame : BlockSize}
    (h : Lockstep plan l l' place expected stale signals unread (frame.marker :: l'.pending) work c)
    (hcollects : Receiver.Collects l' place frame c.receiver)
    (hexpects : plan.Expects l' place expected) :
    Converges (Closer plan (stale + work, size)) c ∨
      l'.pending.length < Block.frameLength frame l'.options.variant.trailer - 1 ∧
        c.toReceiver.flatten ≠ [] := by
  have hbytes := h.toReceiver
  cases unread with
  | nil => cases hbytes
  | cons leg unread =>
    obtain ⟨legs, rfl⟩ := h.turn.expected_eq
    rw [flatten_messages_cons, Leg.message] at hbytes
    cases hblock : leg.block? with
    | none =>
      rw [hblock] at hbytes
      -- An end mark does not begin a frame.
      have hmarker : frame.marker = Control.eot.byte := (List.cons.inj hbytes).1
      cases frame <;> cases hmarker
    | some block =>
      rw [hblock] at hbytes
      obtain ⟨hmarker, hrest⟩ := List.cons.inj hbytes
      -- The marker tells the size of the frame.
      obtain rfl : frame = block.size := by
        have hread := BlockSize.ofMarker?_marker frame
        rw [hmarker, BlockSize.ofMarker?_marker] at hread
        exact (Option.some.inj hread).symm
      have htrailer : l'.options.variant.trailer = plan.trailer := by
        rw [hexpects.options, Plan.trailer]
      rw [htrailer]
      have hlength : (block.encode plan.trailer).tail.length =
          Block.frameLength block.size plan.trailer - 1 := by
        rw [List.length_tail, Block.length_encode]
      rw [← hlength]
      change l'.pending ++ c.toReceiver.flatten =
        (block.encode plan.trailer).tail ++ (plan.messages unread).flatten at hrest
      rcases Nat.lt_or_ge l'.pending.length (block.encode plan.trailer).tail.length with
        hmissing | henough
      · -- More of the frame is on its way.
        refine .inr ⟨hmissing, fun hnil => ?_⟩
        rw [hnil, List.append_nil] at hrest
        rw [hrest, List.length_append] at hmissing
        omega
      · -- The frame is there, perhaps with bytes of the next one behind it.
        refine .inl ?_
        obtain ⟨rest, hpending⟩ : (block.encode plan.trailer).tail <+: l'.pending :=
          List.prefix_of_prefix_length_le (List.prefix_append _ _) (hrest ▸ List.prefix_append _ _)
            henough
        rw [← hpending, List.append_assoc, List.append_cancel_left_eq] at hrest
        refine h.converges_of_receiver rest ?_ hrest
        rw [← htrailer] at hpending
        refine Receiver.settles_of_frame hcollects hpending.symm
          fun p purpose hknown hserving => ?_
        have hincoming : Receiver.incomingOf leg = .block block := by
          rw [Receiver.incomingOf, hblock]
        rw [← hincoming]
        exact settles_judge hknown hserving hexpects.congr h.receiver_retries h.turn

/-- The receiver uses what it has got, or it needs more, or it is through. -/
theorem receiver_cases (h : Lockstep plan l l' place expected stale signals unread got work c)
    (hsize : 2 * (c.toSender.flatten.length + c.toReceiver.flatten.length) + l'.pending.length =
      size) :
    Converges (Closer plan (stale + work, size)) c ∨
      Idle Receiver.act c.receiver ∧
        (unread ≠ [] →
          (∃ timeout next, Receiver.act c.receiver.party = .read timeout next) ∧
            c.toReceiver.flatten ≠ []) := by
  have hawaits := h.awaits
  cases hawaits with
  | listens hlistens hexpects hlegs =>
    cases hpending : l'.pending with
    | cons byte rest => exact .inl (h.converges_of_listens hlistens hexpects hpending hsize)
    | nil =>
      have hreads := hlistens.reads hpending
      refine .inr ⟨.inl hreads, fun hunread => ⟨hreads, fun hnil => ?_⟩⟩
      -- A leg that is not read yet has at least one byte on its way.
      obtain ⟨leg, more, rfl⟩ := List.exists_cons_of_ne_nil hunread
      have hbytes := h.toReceiver
      rw [hpending, hnil, flatten_messages_cons] at hbytes
      exact leg.message_ne_nil plan.trailer (List.append_eq_nil_iff.mp hbytes.symm).1
  | collects hcollects hexpects hlegs =>
    rcases h.converges_of_collects hcollects hexpects with hconverges | ⟨hmissing, hne⟩
    · exact .inl hconverges
    · have hreads := hcollects.reads hmissing
      exact .inr ⟨.inl hreads, fun _ => ⟨hreads, hne⟩⟩
  | done hdone =>
    refine .inr ⟨.inr hdone.stops, fun hunread => ?_⟩
    -- A receiver that is through expects nothing.
    obtain ⟨leg, more, rfl⟩ := List.exists_cons_of_ne_nil hunread
    obtain ⟨legs, hcons⟩ := h.turn.expected_eq
    cases hcons

/-- A step that is made where both parties have used what they have got leaves less to be done. -/
theorem converges_of_step
    (h : Lockstep plan l l' place expected stale signals unread got work c)
    (hsize : 2 * (c.toSender.flatten.length + c.toReceiver.flatten.length) + l'.pending.length =
      size) (hsender : Idle Sender.act c.sender) (hreceiver : Idle Receiver.act c.receiver)
    (hstep : Step .lossless c c') : Converges (Closer plan (stale + work, size)) c' := by
  cases hstep with
  | senderMoves hmove => exact absurd hsender (not_idle_of_moves hmove)
  | receiverMoves hmove => exact absurd hreceiver (not_idle_of_moves hmove)
  | @senderHears _ _ arrived rest _ hread hdelivers hcalm =>
    obtain ⟨hne, hbytes⟩ := hdelivers
    have hsent := h.toSender
    rw [← hbytes] at hsent
    have hflow (hsignals : signals = []) : plan.streaming = false := by
      -- What is heard is an old request then.
      refine (Plan.mode_of_handshake (h.handshake fun hstale => hne ?_)).2
      rw [hsignals, hstale] at hsent
      exact (List.append_eq_nil_iff.mp (List.append_eq_nil_iff.mp hsent).2).1
    obtain ⟨hnil, hturn⟩ := h.turn.arrival hflow hread hne hcalm
    refine .here (closer_of_size ⟨hturn, h.awaits, h.sender_retries, h.receiver_retries,
      h.handshake, ?_, h.toReceiver⟩ ?_)
    · rw [hnil] at hsent
      exact hsent
    · -- A byte on its way counts twice and a byte that has arrived for the sender not at all.
      have hpos := List.length_pos_iff.mpr hne
      rw [← hbytes, List.length_append] at hsize
      dsimp only
      omega
  | @receiverHears _ _ arrived rest _ hread hdelivers hcalm =>
    obtain ⟨hne, hbytes⟩ := hdelivers
    have hsent := h.toReceiver
    rw [← hbytes, ← List.append_assoc] at hsent
    obtain ⟨pending, hlength, hawaits⟩ := h.awaits.arrival hread hne hcalm
    refine .here (closer_of_size ⟨h.turn, hawaits, h.sender_retries, h.receiver_retries,
      h.handshake, h.toSender, hsent⟩ ?_)
    -- A byte on its way counts twice and a byte that has arrived once.
    have hpos := List.length_pos_iff.mpr hne
    rw [← hbytes, List.length_append] at hsize
    dsimp only
    omega
  | @senderPolls _ _ next moment hphase hread hcalm =>
    exact converges_of_sender (h.turn.polls h.sender_retries hphase hread hcalm) h.awaits
      h.receiver_retries h.handshake h.toSender h.toReceiver
  | senderLapses hlossy => exact hlossy.elim
  | receiverLapses hlossy => exact hlossy.elim
  | toSenderLoses hlossy => exact hlossy.elim
  | toReceiverLoses hlossy => exact hlossy.elim

/-- There is a step to be made if the sender reads and both parties have used what they have
got. -/
theorem exists_step (h : Lockstep plan l l' place expected stale signals unread got work c)
    (hpending : l.pending = [])
    (hsender : ∃ timeout next, Sender.act c.sender.party = .read timeout next)
    (hreceiver : unread ≠ [] →
      (∃ timeout next, Receiver.act c.receiver.party = .read timeout next) ∧
        c.toReceiver.flatten ≠ []) : ∃ c', Step .lossless c c' := by
  obtain ⟨timeout, next, hread⟩ := hsender
  have hsent := h.toSender
  rw [hpending, List.nil_append] at hsent
  by_cases hunread : unread = []
  · by_cases hnil : c.toSender.flatten = []
    · -- Nothing is on its way, so the sender polls, as both would wait forever otherwise.
      rw [hnil, eq_comm, flatten_writes_eq_nil_iff] at hsent
      have hturn := h.turn
      rw [hunread, (List.append_eq_nil_iff.mp hsent).2] at hturn
      rcases hturn.streams_or_done with ⟨legs, hstreams⟩ | ⟨-, hdone⟩
      · obtain ⟨piece, number, leg, -, -, hphase⟩ := hstreams.step
        exact ⟨_, .senderPolls hphase hread (Moment.abort_mk 0)⟩
      · obtain ⟨ending, hstop⟩ := hdone.stops
        cases hstop.symm.trans hread
    · exact ⟨_, .senderHears hread (Medium.lossless_delivers_all hnil) (Moment.abort_mk 0)⟩
  · obtain ⟨⟨timeout', next', hread'⟩, hne⟩ := hreceiver hunread
    exact ⟨_, .receiverHears hread' (Medium.lossless_delivers_all hne) (Moment.abort_mk 0)⟩

end Lockstep

/-! ## The end of a transfer -/

/-- A transfer that is through makes no more steps. -/
theorem Fulfils.not_step (h : Fulfils plan c) : ¬Step .lossless c c' := by
  obtain ⟨sent, hsent, -⟩ := h.sender
  obtain ⟨received, hreceived, -⟩ := h.receiver
  have hsender : Sender.act c.sender.party = .stop (.ok (.completed sent)) := by
    simp only [Sender.act, Party.act, hsent]
  have hreceiver : Receiver.act c.receiver.party = .stop (.ok (.completed received)) := by
    simp only [Receiver.act, Party.act, hreceived]
  intro hstep
  cases hstep with
  | senderMoves hmove => exact not_idle_of_moves hmove (.inr ⟨_, hsender⟩)
  | receiverMoves hmove => exact not_idle_of_moves hmove (.inr ⟨_, hreceiver⟩)
  | senderHears hread => cases hsender.symm.trans hread
  | receiverHears hread => cases hreceiver.symm.trans hread
  | senderPolls hphase hread => cases hsender.symm.trans hread
  | senderLapses hlossy => exact hlossy
  | receiverLapses hlossy => exact hlossy
  | toSenderLoses hlossy => exact hlossy
  | toReceiverLoses hlossy => exact hlossy

/-- What is left at the end are the files, closed. -/
theorem Fulfils.sink (h : Fulfils plan c) : c.receiver.desk.sink = ⟨plan.files, none⟩ := by
  rw [← h.files, ← h.closed]

/-- Parties in lockstep are through, or they go on and less is left to be done. -/
theorem InStep.fulfils_or_closer {left : Nat × Nat} (h : InStep plan left c) :
    Fulfils plan c ∨ Converges (Closer plan left) c ∨
      (∃ c', Step .lossless c c') ∧
        ∀ c', Step .lossless c c' → Converges (Closer plan left) c' := by
  obtain ⟨left, size⟩ := left
  obtain ⟨l, l', place, expected, stale, signals, unread, got, work, h, rfl, rfl⟩ := h
  by_cases hpending : l.pending = []
  · rcases h.turn.reads hpending with hsender | hsender
    · rcases h.receiver_cases rfl with hconverges | ⟨hidle, hreceiver⟩
      · exact .inr (.inl hconverges)
      · refine .inr (.inr ⟨h.exists_step hpending hsender hreceiver, fun c' hstep => ?_⟩)
        exact h.converges_of_step rfl (.inl hsender) hidle hstep
    · exact .inl (h.fulfils hsender)
  · -- The sender has got a signal that it has not used.
    rcases h.fulfils_or_converges hpending with hfulfils | hconverges
    · exact .inl hfulfils
    · exact .inr (.inl hconverges)

/-- A transfer in lockstep comes to its end as planned. -/
theorem inevitable_fulfils (left : Nat × Nat) (h : Converges (InStep plan left) c) :
    Inevitable .lossless (Fulfils plan) c :=
  .of_measure (WellFounded.prod_lex Nat.lt_wfRel.wf Nat.lt_wfRel.wf)
    (fun _ _ hgoal => hgoal.not_step) (fun _ _ hc => hc.fulfils_or_closer) h

/-- A sender that waits to be asked for the first leg is in lockstep with a receiver that has asked
for it some times, even if not all of these requests are on the line any more. -/
theorem inStep_of_waits {sending receiving : Options} {files : List (FileHeader × Bytes)}
    {l : Sender.Ledger} (unanswered stale : Nat)
    (hroute : Route receiving.protocol (Receiver.Place.between.stage receiving.protocol)
      (journey sending files))
    (hwaits : Sender.Waits l (journey sending files) c.sender) (hpending : l.pending = [])
    (hblocks : l.blocks = 0) (hretries : l.retries = 0)
    (hlistens : Receiver.Listens ⟨receiving, [], 0, unanswered, []⟩ .between c.receiver)
    (hhandshake : stale ≠ 0 → receiving.variant.handshake = .crcRequest)
    (htoSender : c.toSender =
      Receiver.writes (List.replicate (stale + 1) receiving.variant.handshake))
    (htoReceiver : c.toReceiver = []) :
    InStep { Plan.ofFiles sending receiving files with unanswered }
      (stale + (6 * ((journey sending files).length - 1) + 6),
        2 * c.toSender.flatten.length) c := by
  have hexpects := Plan.Expects.of_start hroute
  obtain ⟨leg, legs, hcons⟩ := List.exists_cons_of_ne_nil hwaits.ne_nil
  have hcount : l.blocks + blockCount (journey sending files) =
      (Plan.ofFiles sending receiving files).blocks := by
    rw [hblocks, Nat.zero_add]
    rfl
  rw [hcons] at hwaits hexpects hcount ⊢
  have hexpects' : Plan.Expects { Plan.ofFiles sending receiving files with unanswered }
      ⟨receiving, [], 0, unanswered, []⟩ .between (leg :: legs) :=
    ⟨hexpects.options, hexpects.files, hexpects.blocks, hexpects.route⟩
  have hawaits := Awaits.listens hlistens hexpects' (List.cons_ne_nil _ _)
  refine ⟨l, _, .between, _, stale, _, _, _, _, ⟨.invited hwaits hcount, hawaits, hretries, rfl,
    hhandshake, ?_, ?_⟩, rfl, ?_⟩
  · rw [hpending, htoSender, List.replicate_succ']
    rfl
  · rw [htoReceiver]
    rfl
  · rw [htoReceiver]
    rfl

/-- A sender that starts when the receiver has asked for the first leg some times is in lockstep
with it. -/
theorem converges_inStep {sending receiving : Options} {files : List (FileHeader × Bytes)}
    {sendingAt : Moment} (unanswered : Nat) (hsending : sending.check = none)
    (hroute : Route receiving.protocol (Receiver.Place.between.stage receiving.protocol)
      (journey sending files))
    (hcount : sending.protocol = .xmodem → files.length = 1) (hcalm : sendingAt.abort = false)
    (hhandshake : unanswered ≠ 0 → receiving.variant.handshake = .crcRequest)
    (hsender : c.sender =
      ⟨Sender.new sending (files.map Prod.fst) sendingAt, ⟨files.map Prod.snd, {}⟩⟩)
    (hlistens : Receiver.Listens ⟨receiving, [], 0, unanswered, []⟩ .between c.receiver)
    (htoSender : c.toSender =
      Receiver.writes (List.replicate (unanswered + 1) receiving.variant.handshake))
    (htoReceiver : c.toReceiver = []) :
    ∃ left, Converges (InStep { Plan.ofFiles sending receiving files with unanswered } left) c := by
  have hstart := Sender.settles_start hsending hcalm hcount
  rw [← hsender] at hstart
  refine ⟨(unanswered + (6 * ((journey sending files).length - 1) + 6),
    2 * c.toSender.flatten.length), .of_sender hstart ?_⟩
  rintro said s ⟨rfl, l, hoptions, hpending, hblocks, hretries, hrests⟩
  cases hrests with
  | done hnil => exact absurd hnil (Route.ne_nil_of_between hroute)
  | waits hwaits =>
    have htoReceiver' : (c.senderMoved [] s).toReceiver = [] := by
      rw [senderMoved, htoReceiver, List.append_nil]
    exact .here (inStep_of_waits unanswered unanswered hroute hwaits hpending hblocks hretries
      hlistens hhandshake htoSender htoReceiver')

/-- A transfer of files is in lockstep from its start. -/
theorem inevitable_fulfils_start {sending receiving : Options}
    {files : List (FileHeader × Bytes)} {sendingAt receivingAt : Moment}
    (hsending : sending.check = none) (hreceiving : receiving.check = none)
    (hroute : Route receiving.protocol (Receiver.Place.between.stage receiving.protocol)
      (journey sending files))
    (hcount : sending.protocol = .xmodem → files.length = 1)
    (hcalm : sendingAt.abort = false) (hcalm' : receivingAt.abort = false) :
    Inevitable .lossless (Fulfils (.ofFiles sending receiving files))
      (start sending receiving files sendingAt receivingAt) := by
  refine .of_converges (fun _ _ hgoal => hgoal.not_step) ?_
  -- The receiver asks for the first leg, whether the sender is there already or not.
  refine .of_receiver (Receiver.settles_start hreceiving hcalm') ?_
  rintro said s ⟨rfl, hlistens⟩
  obtain ⟨left, hconverges⟩ := converges_inStep 0 hsending hroute hcount hcalm (absurd rfl)
    (c := (start sending receiving files sendingAt receivingAt).receiverMoved _ s) rfl hlistens
    rfl rfl
  exact .here (inevitable_fulfils left hconverges)

/-! ## What becomes of files -/

/-- Both runs are complete, without failed attempts and with the same number of blocks. -/
def Completes (c : Connection) : Prop :=
  ∃ sent received, c.sender.party.phase = .over (.ok (.completed sent)) ∧
    c.receiver.party.phase = .over (.ok (.completed received)) ∧
    sent.retries = 0 ∧ received.retries = 0 ∧ sent.blocks = received.blocks

/-- A transfer that is as planned is complete. -/
theorem Fulfils.completes {sending receiving : Options} {files : List (FileHeader × Bytes)}
    (h : Fulfils (.ofFiles sending receiving files) c) : Completes c := by
  obtain ⟨sent, hsent, hblocks, hretries⟩ := h.sender
  obtain ⟨received, hreceived, hblocks', hretries'⟩ := h.receiver
  exact ⟨sent, received, hsent, hreceived, hretries, hretries', hblocks.trans hblocks'.symm⟩

/-- What has been stored of a file in a batch. Its header is what can be read from the header
block. If that tells the length the file is there as it was, and otherwise without the padding in
its last block. -/
structure Arrives (sending : Options) (sent : FileHeader × Bytes) (file : ReceivedFile × Bytes) :
    Prop where
  /-- The header and the data. -/
  header : ∃ header, FileHeader.parse sent.1.toBlock.payload = .ok (some header) ∧
    file.1.header = some header ∧
    file.2 = if header.length.isSome then sent.2
      else withoutPadding sending.variant.blockSize.length sending.pad sent.2
  /-- The number of bytes that is reported. -/
  bytes : file.1.bytes = file.2.length

/-- What a receiver makes of a file in a batch. -/
theorem arrives_arrival {sending : Options} {pad : UInt8} {file : FileHeader × Bytes}
    (hymodem : sending.protocol = .ymodem) (hpad : pad = sending.pad) (hne : file.1.name ≠ "")
    (hnul : ∀ c ∈ file.1.name.toList, c.toNat ≠ 0)
    (hlength : ∀ length, file.1.length = some length → length.toNat = file.2.length) :
    Arrives sending file (arrival sending pad file) := by
  have hheader : receivedHeader sending file.1 = some file.1.received := by
    rw [receivedHeader, hymodem]
  refine ⟨⟨file.1.received, FileHeader.parse_toBlock hne hnul, hheader, ?_⟩, rfl⟩
  -- The header block tells the length, or there is no room for it.
  cases hreceived : file.1.received.length with
  | none =>
    have hunknown : Receiver.declaredLength (receivedHeader sending file.1) = none := by
      simp only [Receiver.declaredLength, hheader, Option.bind_some, hreceived, Option.map_none]
    rw [arrival_of_pad_eq hpad hunknown, hpad]
    rfl
  | some length =>
    have hknown : Receiver.declaredLength (receivedHeader sending file.1) ≠ none := by
      simp only [Receiver.declaredLength, hheader, Option.bind_some, hreceived, Option.map_some]
      exact Option.some_ne_none _
    rw [arrival_of_length pad (declaredLength_receivedHeader hlength hknown)]
    rfl

/-- A batch of files over a line that loses nothing: whatever the variants are, both runs are
completed without failed attempts, and each file has arrived, in order. -/
theorem inevitable_ymodem {sending receiving : Options} {files : List (FileHeader × Bytes)}
    {sendingAt receivingAt : Moment} (hsending : sending.protocol = .ymodem)
    (hreceiving : receiving.protocol = .ymodem) (hcheck : sending.check = none)
    (hcheck' : receiving.check = none) (htext : sending.textMode = receiving.textMode)
    (hnames : ∀ file ∈ files, file.1.name ≠ "" ∧ ∀ c ∈ file.1.name.toList, c.toNat ≠ 0)
    (hlengths : ∀ file ∈ files, ∀ length, file.1.length = some length →
      length.toNat = file.2.length)
    (hcalm : sendingAt.abort = false) (hcalm' : receivingAt.abort = false) :
    Inevitable .lossless
      (fun c => Completes c ∧ List.Forall₂ (Arrives sending) files c.receiver.desk.sink.files ∧
        c.receiver.desk.sink.current = none)
      (start sending receiving files sendingAt receivingAt) := by
  have hpad : receiving.pad = sending.pad := by
    rw [Options.pad, Options.pad, htext]
  have hroute : Route receiving.protocol (Receiver.Place.between.stage receiving.protocol)
      (journey sending files) := by
    rw [hreceiving]
    exact route_journey_ymodem hsending hnames
  have hcount (hxmodem : sending.protocol = .xmodem) : files.length = 1 := by
    cases hsending.symm.trans hxmodem
  refine (inevitable_fulfils_start hcheck hcheck' hroute hcount hcalm hcalm').mono ?_
  intro c hfulfils
  refine ⟨hfulfils.completes, ?_, hfulfils.closed⟩
  rw [hfulfils.files, Plan.ofFiles, List.forall₂_map_right_iff, List.forall₂_same]
  intro file hfile
  obtain ⟨hne, hnul⟩ := hnames file hfile
  exact arrives_arrival hsending hpad hne hnul (hlengths file hfile)

/-- Two files, the second of which has no declared length, from a sender of long blocks to a
receiver of a stream. -/
theorem inevitable_ymodem_two_files :
    let sending : Options := { protocol := .ymodem, variant := .oneK }
    let receiving : Options := { protocol := .ymodem, variant := .streaming }
    let files : List (FileHeader × Bytes) :=
      [({ name := "a", length := some 3 }, [1, 2, 0]), ({ name := "b" }, [3, 0])]
    Inevitable .lossless
      (fun c => Completes c ∧ List.Forall₂ (Arrives sending) files c.receiver.desk.sink.files ∧
        c.receiver.desk.sink.current = none)
      (start sending receiving files ⟨0, false⟩ ⟨0, false⟩) := by
  intro sending receiving files
  refine inevitable_ymodem rfl rfl rfl rfl rfl ?_ ?_ rfl rfl
  · simp [files]
  · simp [files]

/-- A single file over a line that loses nothing: whatever the variants are, both runs are
completed without failed attempts, and the file has arrived without the padding in its last
block. -/
theorem inevitable_xmodem {sending receiving : Options} {header : FileHeader} {content : Bytes}
    {sendingAt receivingAt : Moment} (hsending : sending.protocol = .xmodem)
    (hreceiving : receiving.protocol = .xmodem) (hcheck : sending.check = none)
    (hcheck' : receiving.check = none) (htext : sending.textMode = receiving.textMode)
    (hcalm : sendingAt.abort = false) (hcalm' : receivingAt.abort = false) :
    Inevitable .lossless
      (fun c =>
        let size := sending.variant.blockSize.length
        let data := withoutPadding size sending.pad content
        Completes c ∧ c.receiver.desk.sink = ⟨[(⟨none, data.length⟩, data)], none⟩ ∧
          (∃ count, data ++ List.replicate count sending.pad = content) ∧
          content.take (Sender.lastStart size content.length) <+: data ∧
          (content.getLast? ≠ some sending.pad → data = content))
      (start sending receiving [(header, content)] sendingAt receivingAt) := by
  have hpad : receiving.pad = sending.pad := by
    rw [Options.pad, Options.pad, htext]
  have hroute : Route receiving.protocol (Receiver.Place.between.stage receiving.protocol)
      (journey sending [(header, content)]) := by
    rw [hreceiving]
    exact route_journey_xmodem hsending
  have harrival := arrival_of_xmodem hsending hpad (header, content)
  refine (inevitable_fulfils_start hcheck hcheck' hroute (fun _ => rfl) hcalm hcalm').mono ?_
  intro c hfulfils
  have hfiles := hfulfils.files
  have hclosed := hfulfils.closed
  rw [Plan.ofFiles, List.map_singleton, harrival, hpad] at hfiles
  refine ⟨hfulfils.completes, ?_, withoutPadding_append_replicate _ _ content,
    take_prefix_withoutPadding _ _ content, withoutPadding_of_getLast?_ne⟩
  change (⟨c.receiver.desk.sink.files, c.receiver.desk.sink.current⟩ : MemorySink) = _
  rw [hfiles, hclosed]

/-- Three bytes of a text, the last one of which is padding. -/
theorem inevitable_xmodem_three_bytes :
    let sending : Options := { protocol := .xmodem, variant := .crc, textMode := true }
    let receiving : Options := { protocol := .xmodem, variant := .checksum, textMode := true }
    let content : Bytes := [104, 105, 26]
    Inevitable .lossless
      (fun c =>
        let size := sending.variant.blockSize.length
        let data := withoutPadding size sending.pad content
        Completes c ∧ c.receiver.desk.sink = ⟨[(⟨none, data.length⟩, data)], none⟩ ∧
          (∃ count, data ++ List.replicate count sending.pad = content) ∧
          content.take (Sender.lastStart size content.length) <+: data ∧
          (content.getLast? ≠ some sending.pad → data = content))
      (start sending receiving [({ name := "c" }, content)] ⟨0, false⟩ ⟨0, false⟩) := by
  intro sending receiving content
  exact inevitable_xmodem rfl rfl rfl rfl rfl rfl rfl

end BlockTransfer.Connection
