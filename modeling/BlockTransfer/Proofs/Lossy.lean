import BlockTransfer.Proofs.Agreement
import BlockTransfer.Proofs.Lossless
import BlockTransfer.Proofs.Receiver.Alone
import Mathlib.Data.List.Forall2

/-!
# Transfers over a line that loses messages

Where both parties have used all that has arrived they are in accord, or one of them has given up,
or both are through. Every step of the connection, also one that loses a message or ends a wait in
vain, leads to such a state again. So if both runs are completed the files have arrived, each of
them once and in order.

## Main definitions

* `Coupled`: the parties are in accord about the messages on the line.
* `Resting`: the invariant of the connection.

## Main results

* `Resting.step`: the invariant is preserved.
* `reachable_delivers`: what has been stored when both runs are completed.
* `exists_reachable_fulfils_after_loss`: a transfer whose first request is lost can still be
  completed.
-/

namespace BlockTransfer.Connection

variable {plan : Plan} {c c' : Connection}

/-- The parties are in accord about the messages on the line. Some signals the sender has got
already. -/
def Coupled (plan : Plan) (heard : List Control) (c : Connection) : Prop :=
  ∃ l l' signals unread, Accord plan l l' c.sender c.receiver (heard ++ signals) unread ∧
    l.pending = (Receiver.writes heard).flatten ∧ l'.pending = [] ∧
    c.toSender = Receiver.writes signals ∧ c.toReceiver = plan.messages unread

/-- One of the parties has given up, or both are through, or they are in accord. -/
def Resting (plan : Plan) (c : Connection) : Prop :=
  c.sender.party.Lost ∨ c.receiver.party.Lost ∨ Concluded plan c.sender c.receiver ∨
    Coupled plan [] c

/-! ## Where the parties go -/

/-- What the sender comes to. -/
theorem converges_of_continues (heard signals : List Control) {unread : List Leg}
    {l' : Receiver.Ledger}
    (hs : Seat.Settles Sender.act (Continues plan l' c.receiver (heard ++ signals) unread
      (Receiver.writes heard).flatten) c.sender)
    (hpending : l'.pending = []) (htoSender : c.toSender = Receiver.writes signals)
    (htoReceiver : c.toReceiver = plan.messages unread)
    (h : ∀ c, Coupled plan heard c → Converges (Resting plan) c) :
    Converges (Resting plan) c := by
  refine .of_sender hs fun said s hsaid => ?_
  rcases hsaid with hlost | hconcluded | ⟨l, legs, rfl, haccord, hpending'⟩
  · exact .here (.inl hlost)
  · exact .here (.inr (.inr (.inl hconcluded)))
  · refine h _ ⟨l, l', signals, unread ++ legs, haccord, hpending', hpending, htoSender, ?_⟩
    rw [senderMoved, htoReceiver, Plan.messages, Plan.messages, Plan.messages, List.map_append]

/-- What the receiver comes to. -/
theorem converges_of_responds {signals : List Control} {l : Sender.Ledger}
    (hs : Seat.Settles Receiver.act (Responds plan l c.sender signals) c.receiver)
    (hpending : l.pending = []) (htoSender : c.toSender = Receiver.writes signals)
    (htoReceiver : c.toReceiver = []) : Converges (Resting plan) c := by
  refine .of_receiver hs fun said r hsaid => ?_
  rcases hsaid with hlost | ⟨l', news, rfl, haccord, hpending'⟩
  · exact .here (.inr (.inl hlost))
  · refine .here (.inr (.inr (.inr ⟨l, l', signals ++ news, [], haccord, hpending, hpending', ?_,
      htoReceiver⟩)))
    rw [receiverMoved, htoSender, Receiver.writes, Receiver.writes, Receiver.writes,
      List.map_append]

/-- The sender uses the signals that it has got, one after the other. -/
theorem Coupled.converges (hplan : plan.Answering) (heard : List Control)
    (h : Coupled plan heard c) : Converges (Resting plan) c := by
  induction heard generalizing c with
  | nil => exact .here (.inr (.inr (.inr h)))
  | cons signal heard ih =>
    obtain ⟨l, l', signals, unread, haccord, hpending, hpending', htoSender, htoReceiver⟩ := h
    exact converges_of_continues heard signals (haccord.sender_hears hplan hpending) hpending'
      htoSender htoReceiver fun c' hcoupled => ih hcoupled

/-! ## Steps -/

/-- A sender that has given up has given up for good. -/
theorem Step.sender_lost {m : Medium} (hstep : Step m c c') (h : c.sender.party.Lost) :
    c'.sender.party.Lost := by
  have hread {timeout : Nat} {next : Except IoError Bytes → Moment → Sender} :
      Sender.act c.sender.party ≠ .read timeout next := h.not_read rfl
  have hown : Sender.act c.sender.party =
      Party.act (Sender.step c.sender.party) c.sender.party := rfl
  cases hstep with
  | senderMoves hmove => exact h.of_moves hown hmove
  | senderHears hact => exact absurd hact hread
  | senderPolls hphase hact => exact absurd hact hread
  | senderLapses hlossy hact => exact absurd hact hread
  | receiverMoves => exact h
  | receiverHears => exact h
  | receiverLapses => exact h
  | toSenderLoses => exact h
  | toReceiverLoses => exact h

/-- A receiver that has given up has given up for good. -/
theorem Step.receiver_lost {m : Medium} (hstep : Step m c c') (h : c.receiver.party.Lost) :
    c'.receiver.party.Lost := by
  have hread {timeout : Nat} {next : Except IoError Bytes → Moment → Receiver} :
      Receiver.act c.receiver.party ≠ .read timeout next := h.not_read rfl
  have hown : Receiver.act c.receiver.party =
      Party.act (Receiver.step c.receiver.party) c.receiver.party := rfl
  cases hstep with
  | receiverMoves hmove => exact h.of_moves hown hmove
  | receiverHears hact => exact absurd hact hread
  | receiverLapses hlossy hact => exact absurd hact hread
  | senderMoves => exact h
  | senderHears => exact h
  | senderPolls => exact h
  | senderLapses => exact h
  | toSenderLoses => exact h
  | toReceiverLoses => exact h

/-- Parties that are through do nothing any more. -/
theorem Step.concluded {m : Medium} (hstep : Step m c c')
    (h : Concluded plan c.sender c.receiver) : Concluded plan c'.sender c'.receiver := by
  obtain ⟨⟨l, hdone⟩, l', hdone', hfiles⟩ := id h
  obtain ⟨ending, hsender⟩ := hdone.stops
  obtain ⟨ending', hreceiver⟩ := hdone'.stops
  -- Parties that have stopped make no move and read nothing, so only messages can be lost.
  cases hstep with
  | senderMoves hmove => exact absurd (.inr ⟨_, hsender⟩) (not_idle_of_moves hmove)
  | receiverMoves hmove => exact absurd (.inr ⟨_, hreceiver⟩) (not_idle_of_moves hmove)
  | senderHears hact => cases hsender.symm.trans hact
  | senderPolls hphase hact => cases hsender.symm.trans hact
  | senderLapses hlossy hact => cases hsender.symm.trans hact
  | receiverHears hact => cases hreceiver.symm.trans hact
  | receiverLapses hlossy hact => cases hreceiver.symm.trans hact
  | toSenderLoses => exact h
  | toReceiverLoses => exact h

/-- Parties in accord lead to parties in accord. -/
theorem Coupled.step (hplan : plan.Answering) (h : Coupled plan [] c)
    (hstep : Step .losing c c') : Converges (Resting plan) c' := by
  obtain ⟨l, l', signals, unread, haccord, hpending, hpending', htoSender, htoReceiver⟩ := h
  rw [List.nil_append] at haccord
  cases hstep with
  | senderMoves hmove =>
    exact absurd (.inl (haccord.sender_reads hpending)) (not_idle_of_moves hmove)
  | receiverMoves hmove =>
    exact absurd (haccord.receiver_idle hpending') (not_idle_of_moves hmove)
  | @senderHears _ _ arrived rest _ hact hdelivers hcalm =>
    obtain ⟨hne, messages, hqueue, rfl⟩ := hdelivers
    -- What arrives are whole signals.
    rw [htoSender] at hqueue
    obtain ⟨heard, later, rfl, rfl, rfl⟩ := List.map_eq_append_iff.mp hqueue
    exact Coupled.converges hplan heard ⟨_, l', later, unread,
      haccord.arrival hact hne hcalm, rfl, hpending', rfl, htoReceiver⟩
  | @receiverHears _ _ arrived rest _ hact hdelivers hcalm =>
    obtain ⟨hne, messages, hqueue, rfl⟩ := hdelivers
    rw [htoReceiver] at hqueue
    obtain ⟨read, later, rfl, rfl, rfl⟩ := List.map_eq_append_iff.mp hqueue
    -- There is one message only.
    have hlength := haccord.length_unread_le
    rw [List.length_append] at hlength
    cases read with
    | nil => exact absurd rfl hne
    | cons leg read =>
      rw [List.length_cons] at hlength
      obtain rfl : read = [] := List.eq_nil_of_length_eq_zero (by omega)
      obtain rfl : later = [] := List.eq_nil_of_length_eq_zero (by omega)
      refine converges_of_responds ?_ hpending htoSender rfl
      rw [List.map_singleton, List.flatten_singleton]
      exact haccord.receiver_hears hplan hact hcalm
  | senderPolls hphase => exact absurd hphase (haccord.not_drain _)
  | senderLapses hlossy hact hother hnone hnone' hcalm =>
    obtain rfl : signals = [] := List.map_eq_nil_iff.mp (htoSender.symm.trans hnone)
    obtain rfl : unread = [] := List.map_eq_nil_iff.mp (htoReceiver.symm.trans hnone')
    -- Nothing is on its way.
    have hs := haccord.sender_lapses hact hcalm
    rw [hpending] at hs
    exact converges_of_continues [] [] hs hpending' htoSender htoReceiver
      fun c' hcoupled => hcoupled.converges hplan []
  | receiverLapses hlossy hact hother hnone hnone' hcalm =>
    obtain rfl : signals = [] := List.map_eq_nil_iff.mp (htoSender.symm.trans hnone)
    obtain rfl : unread = [] := List.map_eq_nil_iff.mp (htoReceiver.symm.trans hnone')
    exact converges_of_responds (haccord.receiver_lapses hplan hact hcalm hpending') hpending
      htoSender htoReceiver
  | @toSenderLoses before after message hlossy hqueue =>
    rw [htoSender] at hqueue
    obtain ⟨front, back, rfl, rfl, hback⟩ := List.map_eq_append_iff.mp hqueue
    obtain ⟨signal, later, rfl, -, rfl⟩ := List.map_eq_cons_iff.mp hback
    refine .here (.inr (.inr (.inr ⟨l, l', front ++ later, unread, ?_, hpending, hpending', ?_,
      htoReceiver⟩)))
    · -- A signal is lost.
      have hsublist : (front ++ later).Sublist (front ++ signal :: later) :=
        List.Sublist.append (.refl front) (List.sublist_cons_self signal later)
      exact haccord.sublist hsublist (.refl unread)
    · exact List.map_append.symm
  | @toReceiverLoses before after message hlossy hqueue =>
    rw [htoReceiver] at hqueue
    obtain ⟨front, back, rfl, rfl, hback⟩ := List.map_eq_append_iff.mp hqueue
    obtain ⟨leg, later, rfl, -, rfl⟩ := List.map_eq_cons_iff.mp hback
    refine .here (.inr (.inr (.inr ⟨l, l', signals, front ++ later, ?_, hpending, hpending',
      htoSender, ?_⟩)))
    · -- A leg is lost.
      have hsublist : (front ++ later).Sublist (front ++ leg :: later) :=
        List.Sublist.append (.refl front) (List.sublist_cons_self leg later)
      exact haccord.sublist (.refl signals) hsublist
    · exact List.map_append.symm

/-- The invariant is preserved. -/
theorem Resting.step (hplan : plan.Answering) (h : Resting plan c)
    (hstep : Step .losing c c') : Converges (Resting plan) c' := by
  rcases h with hlost | hlost | hconcluded | hcoupled
  · exact .here (.inl (hstep.sender_lost hlost))
  · exact .here (.inr (.inl (hstep.receiver_lost hlost)))
  · exact .here (.inr (.inr (.inl (hstep.concluded hconcluded))))
  · exact hcoupled.step hplan hstep

/-! ## From start to end -/

/-- The invariant holds from the start of a transfer. -/
theorem converges_start {sending receiving : Options} {files : List (FileHeader × Bytes)}
    {sendingAt receivingAt : Moment}
    (hroute : (sending.protocol = .xmodem → files.length = 1) →
      Route receiving.protocol (Receiver.Place.between.stage receiving.protocol)
        (journey sending files))
    (hcalm : sendingAt.abort = false) (hcalm' : receivingAt.abort = false) :
    Converges (Resting (.ofFiles sending receiving files))
      (start sending receiving files sendingAt receivingAt) := by
  -- A party with options that do not work gives up at once.
  by_cases hsending : sending.check = none ∧ (sending.protocol = .xmodem → files.length = 1)
  · obtain ⟨hcheck, hcount⟩ := hsending
    refine .of_sender (Sender.settles_start hcheck hcalm hcount) ?_
    rintro said s ⟨rfl, l, hoptions, hpending, hblocks, hretries, hrests⟩
    by_cases hcheck' : receiving.check = none
    · refine .of_receiver (Receiver.settles_start hcheck' hcalm') ?_
      rintro said r ⟨rfl, hlistens⟩
      have hexpects := Plan.Expects.of_start (hroute hcount)
      cases hrests with
      | done hnil =>
        exact absurd hnil (Route.ne_nil_of_between (hroute hcount))
      | waits hwaits =>
        obtain ⟨leg, legs, hcons⟩ := List.exists_cons_of_ne_nil hwaits.ne_nil
        rw [hcons] at hwaits hexpects
        refine .here (.inr (.inr (.inr ⟨l, _, [_], [],
          .waits hwaits hlistens hexpects rfl ?_ ?_, hpending, rfl, rfl, rfl⟩)))
        · exact fun signal hsignal => List.mem_singleton.mp hsignal
        · exact List.countP_le_length
    · refine .of_receiver (Receiver.settles_start_reject hcheck') fun said r hlost => ?_
      exact .here (.inr (.inl hlost))
  · refine .of_sender (Sender.settles_start_reject hsending) fun said s hlost => ?_
    exact .here (.inl hlost)

/-- In accord or not, when both runs are completed the files have arrived. -/
theorem Resting.files {sent received : Summary} (h : Resting plan c)
    (hsent : c.sender.party.phase = .over (.ok (.completed sent)))
    (hreceived : c.receiver.party.phase = .over (.ok (.completed received))) :
    c.receiver.desk.sink.files = plan.files ∧ c.receiver.desk.sink.current = none := by
  rcases h with ⟨error, hlost | hlost⟩ | ⟨error, hlost | hlost⟩ | ⟨-, l, hdone, hfiles⟩ | hcoupled
  · cases hlost.symm.trans hsent
  · cases hlost.symm.trans hsent
  · cases hlost.symm.trans hreceived
  · cases hlost.symm.trans hreceived
  · exact ⟨hdone.known.files.trans hfiles, hdone.closed⟩
  · -- In accord the sender still reads, so its run is not completed.
    obtain ⟨l, l', signals, unread, haccord, hpending, -⟩ := hcoupled
    obtain ⟨timeout, next, hread⟩ := haccord.sender_reads hpending
    have hstop : Sender.act c.sender.party = .stop (.ok (.completed sent)) := by
      simp only [Sender.act, Party.act, hsent]
    cases hstop.symm.trans hread

/-- What has been stored of a file. Of a batch its header is what can be read from the header
block. If that tells the length the file is there as it was. Otherwise the padding is missing that
the receiver finds at the end of the last block, which is padding of the file itself if both sides
fill up alike. -/
structure Delivered (sending receiving : Options) (sent : FileHeader × Bytes)
    (file : ReceivedFile × Bytes) : Prop where
  /-- There is no header without batches. -/
  no_header : sending.protocol = .xmodem → file.1.header = none
  /-- The header of a file in a batch. -/
  header : sending.protocol = .ymodem → ∃ header,
    FileHeader.parse sent.1.toBlock.payload = .ok (some header) ∧ file.1.header = some header
  /-- A file of known length. -/
  known : Receiver.declaredLength file.1.header ≠ none → file.2 = sent.2
  /-- A file of unknown length. -/
  unknown : Receiver.declaredLength file.1.header = none →
    file.2 = sent.2.take (Sender.lastStart sending.variant.blockSize.length sent.2.length) ++
      Receiver.stripPadding (Sender.lastPayload sending sent.2) receiving.pad
  /-- A file of unknown length between sides that fill up alike. -/
  unknown_alike : Receiver.declaredLength file.1.header = none →
    sending.textMode = receiving.textMode →
    file.2 = withoutPadding sending.variant.blockSize.length sending.pad sent.2
  /-- The number of bytes that is reported. -/
  bytes : file.1.bytes = file.2.length

/-- What a receiver makes of a file. -/
theorem delivered_arrival {sending receiving : Options} {file : FileHeader × Bytes}
    (hnames : sending.protocol = .ymodem →
      file.1.name ≠ "" ∧ ∀ c ∈ file.1.name.toList, c.toNat ≠ 0)
    (hlength : ∀ length, file.1.length = some length → length.toNat = file.2.length) :
    Delivered sending receiving file (arrival sending receiving.pad file) := by
  have hheader : (arrival sending receiving.pad file).1.header =
      receivedHeader sending file.1 := rfl
  refine ⟨fun hxmodem => ?_, fun hymodem => ?_, fun hknown => ?_, arrival_of_unknown _,
    fun hunknown halike => ?_, rfl⟩
  · rw [hheader, receivedHeader, hxmodem]
  · obtain ⟨hne, hnul⟩ := hnames hymodem
    refine ⟨file.1.received, FileHeader.parse_toBlock hne hnul, ?_⟩
    rw [hheader, receivedHeader, hymodem]
  · rw [arrival_of_length receiving.pad (declaredLength_receivedHeader hlength hknown)]
  · have hpad : receiving.pad = sending.pad := by
      rw [Options.pad, Options.pad, halike]
    rw [arrival_of_pad_eq hpad hunknown, hpad]

/-- A receiver of a variant that is not a stream answers every leg. -/
theorem answering_ofFiles (sending : Options) {receiving : Options}
    (files : List (FileHeader × Bytes))
    (hxmodem : receiving.protocol = .xmodem →
      receiving.variant ≠ .streaming ∧ receiving.config.crcHandshakeAttempts = 0)
    (hymodem : receiving.protocol = .ymodem →
      receiving.variant = .crc ∨ receiving.variant = .oneK) :
    (Plan.ofFiles sending receiving files).Answering where
  streaming := by
    change receiving.variant.isStreaming = false
    cases hprotocol : receiving.protocol with
    | xmodem =>
      have hvariant := (hxmodem hprotocol).1
      cases hkind : receiving.variant with
      | streaming => exact absurd hkind hvariant
      | checksum => rfl
      | crc => rfl
      | oneK => rfl
    | ymodem =>
      rcases hymodem hprotocol with hkind | hkind
      · rw [hkind]
        rfl
      · rw [hkind]
        rfl
  attempts h := (hxmodem h).2
  handshake h := Variant.handshake_eq_crcRequest_iff.mpr (hymodem h)

/-- The legs that convey files are a route: with headers if the files have names, and without them
for a single file. -/
theorem route_ofFiles {sending receiving : Options} {files : List (FileHeader × Bytes)}
    (hprotocol : sending.protocol = receiving.protocol)
    (hnames : receiving.protocol = .ymodem → ∀ file ∈ files,
      file.1.name ≠ "" ∧ ∀ c ∈ file.1.name.toList, c.toNat ≠ 0)
    (hcount : sending.protocol = .xmodem → files.length = 1) :
    Route receiving.protocol (Receiver.Place.between.stage receiving.protocol)
      (journey sending files) := by
  cases hkind : receiving.protocol with
  | xmodem =>
    obtain ⟨file, rfl⟩ := List.length_eq_one_iff.mp (hcount (hprotocol.trans hkind))
    exact route_journey_xmodem (hprotocol.trans hkind)
  | ymodem => exact route_journey_ymodem (hprotocol.trans hkind) (hnames hkind)

/-- Files over a line that may lose every message: if both runs are completed after all, each file
has arrived, once and in order. The receiver asks for single blocks, and it does not change the
block check on its own. -/
theorem reachable_delivers {sending receiving : Options} {files : List (FileHeader × Bytes)}
    {sendingAt receivingAt : Moment} {sent received : Summary}
    (hprotocol : sending.protocol = receiving.protocol)
    (hxmodem : receiving.protocol = .xmodem →
      receiving.variant ≠ .streaming ∧ receiving.config.crcHandshakeAttempts = 0)
    (hymodem : receiving.protocol = .ymodem →
      receiving.variant = .crc ∨ receiving.variant = .oneK)
    (hnames : receiving.protocol = .ymodem → ∀ file ∈ files,
      file.1.name ≠ "" ∧ ∀ c ∈ file.1.name.toList, c.toNat ≠ 0)
    (hlengths : ∀ file ∈ files, ∀ length, file.1.length = some length →
      length.toNat = file.2.length)
    (hcalm : sendingAt.abort = false) (hcalm' : receivingAt.abort = false)
    (hreachable : Reachable .losing (start sending receiving files sendingAt receivingAt) c)
    (hsent : c.sender.party.phase = .over (.ok (.completed sent)))
    (hreceived : c.receiver.party.phase = .over (.ok (.completed received))) :
    List.Forall₂ (Delivered sending receiving) files c.receiver.desk.sink.files ∧
      c.receiver.desk.sink.current = none := by
  have hplan : (Plan.ofFiles sending receiving files).Answering :=
    answering_ofFiles sending files hxmodem hymodem
  have hroute (hcount : sending.protocol = .xmodem → files.length = 1) :
      Route receiving.protocol (Receiver.Place.between.stage receiving.protocol)
        (journey sending files) :=
    route_ofFiles hprotocol hnames hcount
  have hconverges := (converges_start hroute hcalm hcalm').of_reachable
    (fun _ _ hrest hstep => hrest.step hplan hstep) hreachable
  have hsender : Sender.act c.sender.party = .stop (.ok (.completed sent)) := by
    simp only [Sender.act, Party.act, hsent]
  have hreceiver : Receiver.act c.receiver.party = .stop (.ok (.completed received)) := by
    simp only [Receiver.act, Party.act, hreceived]
  obtain ⟨hfiles, hclosed⟩ :=
    (hconverges.rest_of_idle (.inr ⟨_, hsender⟩) (.inr ⟨_, hreceiver⟩)).files hsent hreceived
  refine ⟨?_, hclosed⟩
  rw [hfiles, Plan.ofFiles, List.forall₂_map_right_iff, List.forall₂_same]
  intro file hfile
  exact delivered_arrival (fun h => hnames (hprotocol.symm.trans h) file hfile)
    (hlengths file hfile)

/-! ## Runs without losses -/

/-- Where a line that loses nothing has a step, a line that may lose messages can make a step as
well, in which all that is on its way to a party arrives at once. -/
theorem Step.exists_losing (hstep : Step .lossless c c') :
    ∃ c', Step .lossless c c' ∧ Step .losing c c' := by
  -- What is delivered is not empty, so all that is on its way is not empty.
  have hne {queue rest : List Bytes} {arrived : Bytes}
      (h : Medium.lossless.delivers queue arrived rest) : queue.flatten ≠ [] := by
    obtain ⟨harrived, hbytes⟩ := h
    rw [← hbytes]
    exact List.append_ne_nil_of_left_ne_nil harrived _
  cases hstep with
  | senderMoves h => exact ⟨_, .senderMoves h, .senderMoves h⟩
  | receiverMoves h => exact ⟨_, .receiverMoves h, .receiverMoves h⟩
  | senderHears h hdelivers hcalm =>
    exact ⟨_, .senderHears h (Medium.lossless_delivers_all (hne hdelivers)) hcalm,
      .senderHears h (Medium.losing_delivers_all (hne hdelivers)) hcalm⟩
  | receiverHears h hdelivers hcalm =>
    exact ⟨_, .receiverHears h (Medium.lossless_delivers_all (hne hdelivers)) hcalm,
      .receiverHears h (Medium.losing_delivers_all (hne hdelivers)) hcalm⟩
  | senderPolls hphase h hcalm =>
    exact ⟨_, .senderPolls hphase h hcalm, .senderPolls hphase h hcalm⟩
  | senderLapses hlossy => exact hlossy.elim
  | receiverLapses hlossy => exact hlossy.elim
  | toSenderLoses hlossy => exact hlossy.elim
  | toReceiverLoses hlossy => exact hlossy.elim

/-- What is inevitable on a line that loses nothing is possible on a line that may lose
messages. -/
theorem Inevitable.exists_reachable_losing {goal : Connection → Prop}
    (h : Inevitable .lossless goal c) : ∃ c', Reachable .losing c c' ∧ goal c' := by
  induction h with
  | now h => exact ⟨_, .start, h⟩
  | later can _ ih =>
    obtain ⟨c', hstep⟩ := can
    obtain ⟨c'', hlossless, hlosing⟩ := hstep.exists_losing
    obtain ⟨last, hreachable, hgoal⟩ := ih c'' hlossless
    exact ⟨last, hreachable.of_step hlosing, hgoal⟩

/-! ## A run with a loss -/

/-- A receiver asks for the first leg once more if nothing is on its way. -/
theorem exists_reachable_asks {options : Options} {started failed : Nat} {s : Seat Sender}
    {r : Seat Receiver} (hidle : Idle Sender.act s)
    (hasks : Receiver.Asks options started (Receiver.mode options failed) failed r)
    (hmore : failed + 1 < options.config.maxRetries.toNat) :
    ∃ r', Receiver.Asks options started (Receiver.mode options (failed + 1)) (failed + 1) r' ∧
      Reachable .losing ⟨s, r, [], []⟩
        ⟨s, r', Receiver.writes [(Receiver.mode options (failed + 1)).1], []⟩ := by
  obtain ⟨stage, timeout, next, moment, hread, hcalm, hdesk, hnext⟩ := hasks.exists_silence
  -- The receiver waits in vain, and it has attempts left.
  have hlapses : Step .losing ⟨s, r, [], []⟩ ⟨s, ⟨next (.ok []) moment, r.desk⟩, [], []⟩ :=
    .receiverLapses trivial hread hidle rfl rfl hcalm
  rw [hnext, hdesk] at hlapses
  obtain ⟨said, r', hagain, ⟨-, hlast⟩ | ⟨rfl, hasks'⟩⟩ :=
    (Reachable.start.step hlapses).exists_of_receiver (Receiver.settles_asking_silence hcalm)
  · omega
  · exact ⟨r', hasks', hagain⟩

/-- A receiver whose first request is lost asks once more, and if nothing else is lost the transfer
comes to its end as planned. -/
theorem exists_reachable_fulfils_after_loss {sending receiving : Options}
    {files : List (FileHeader × Bytes)} {sendingAt receivingAt : Moment}
    (hsending : sending.check = none) (hreceiving : receiving.check = none)
    (hroute : Route receiving.protocol (Receiver.Place.between.stage receiving.protocol)
      (journey sending files))
    (hcount : sending.protocol = .xmodem → files.length = 1)
    (hcalm : sendingAt.abort = false) (hcalm' : receivingAt.abort = false)
    (hmore : 1 < receiving.config.maxRetries.toNat) (hkeeps : ¬Receiver.FallsBack receiving 1) :
    ∃ asked last : Connection,
      Reachable .losing (start sending receiving files sendingAt receivingAt) asked ∧
      asked.toSender = Receiver.writes [receiving.variant.handshake] ∧
      Reachable .losing { asked with toSender := [] } last ∧
      Fulfils { Plan.ofFiles sending receiving files with unanswered := 1 } last := by
  have hstart : Reachable .losing (start sending receiving files sendingAt receivingAt) _ := .start
  obtain ⟨said, s, hstarted, rfl, l, -, hpending, hblocks, hretries, hrests⟩ :=
    hstart.exists_of_sender (Sender.settles_start hsending hcalm hcount)
  obtain ⟨said, r, hasked, rfl, hasks⟩ :=
    hstarted.exists_of_receiver (Receiver.settles_new hreceiving hcalm')
  cases hrests with
  | done hnil => exact absurd hnil (Route.ne_nil_of_between hroute)
  | waits hwaits =>
    -- With the request gone, both parties wait.
    obtain ⟨r', hasks', hagain⟩ := exists_reachable_asks (.inl (hwaits.reads hpending)) hasks hmore
    rw [Receiver.mode_eq hkeeps] at hasks' hagain
    have hstep := inStep_of_waits (c := ⟨s, r', Receiver.writes [receiving.variant.handshake], []⟩)
      1 0 hroute hwaits hpending hblocks hretries hasks'.listens (absurd rfl) rfl rfl
    obtain ⟨last, hlast, hfulfils⟩ :=
      (inevitable_fulfils _ (.here hstep)).exists_reachable_losing
    refine ⟨_, last, hasked, ?_, hagain.trans hlast, hfulfils⟩
    change Receiver.writes (Receiver.requests receiving 0) = _
    rw [Receiver.requests_eq_replicate (Receiver.not_fallsBack_zero receiving)]
    rfl

/-- Two files that have been sent over a line that loses the first request of the receiver, which
asks again. -/
theorem exists_reachable_delivers_after_loss :
    let sending : Options := { protocol := .ymodem, variant := .streaming }
    let receiving : Options := { protocol := .ymodem, variant := .crc, textMode := true }
    let files : List (FileHeader × Bytes) :=
      [({ name := "a", length := some 3 }, [1, 2, 0]), ({ name := "b" }, [3, 26])]
    ∃ (asked c : Connection) (sent received : Summary),
      Reachable .losing (start sending receiving files ⟨0, false⟩ ⟨0, false⟩) asked ∧
      asked.toSender = [[Control.crcRequest.byte]] ∧
      Step .losing asked { asked with toSender := [] } ∧
      Reachable .losing { asked with toSender := [] } c ∧
      c.sender.party.phase = .over (.ok (.completed sent)) ∧
      c.receiver.party.phase = .over (.ok (.completed received)) ∧ received.retries = 1 ∧
      List.Forall₂ (Delivered sending receiving) files c.receiver.desk.sink.files ∧
      c.receiver.desk.sink.current = none := by
  intro sending receiving files
  have hnames : ∀ file ∈ files,
      file.1.name ≠ "" ∧ ∀ c ∈ file.1.name.toList, c.toNat ≠ 0 := by
    simp [files]
  have hroute : Route receiving.protocol (Receiver.Place.between.stage receiving.protocol)
      (journey sending files) :=
    route_journey_ymodem rfl hnames
  obtain ⟨asked, c, hasked, hrequest, hlast, hfulfils⟩ :=
    exists_reachable_fulfils_after_loss rfl rfl hroute nofun (Moment.abort_mk 0) (Moment.abort_mk 0)
      (by decide) (by decide)
  obtain ⟨sent, hsent, -⟩ := hfulfils.sender
  obtain ⟨received, hreceived, -, hretries⟩ := hfulfils.receiver
  have hloses : Step .losing asked { asked with toSender := [] ++ [] } :=
    .toSenderLoses trivial hrequest
  exact ⟨asked, c, sent, received, hasked, hrequest, hloses, hlast, hsent, hreceived, hretries,
    reachable_delivers rfl nofun (fun _ => .inl rfl) (fun _ => hnames) (by simp [files]) rfl rfl
      ((hasked.step hloses).trans hlast) hsent hreceived⟩

end BlockTransfer.Connection
