import BlockTransfer.Proofs.Connection
import BlockTransfer.Proofs.Receiver.Reactions

/-!
# A receiver without a sender

A receiver that hears nothing asks for the first block again and again until it gives up. If there
are no batches it settles for the checksum after some requests for the cyclic check, and it keeps to
that.

## Main definitions

* `Receiver.Alone`: what a receiver comes to while nothing is sent to it.
* `Receiver.FallsBack`: it has settled for the checksum.
* `Receiver.Asks`: a receiver that waits for the first block after some requests.

## Main results

* `Receiver.Alone.asks`: what a receiver has asked for by then.
-/

namespace BlockTransfer.Receiver

open Seat (Settles Moves)

/-! ## A receiver without a sender -/

/-- What a receiver comes to, and what it has said by then, while nothing is sent to it: it makes
its moves, and it reads in vain. -/
inductive Alone (start : Seat Receiver) : List Bytes → Seat Receiver → Prop
  /-- It has not begun yet. -/
  | start : Alone start [] start
  /-- It makes a move. -/
  | moves {said news : List Bytes} {s s' : Seat Receiver} (h : Alone start said s)
      (hmove : Moves act s news s') : Alone start (said ++ news) s'
  /-- It reads in vain. -/
  | waits {said : List Bytes} {s : Seat Receiver} {timeout : Nat}
      {next : Except IoError Bytes → Moment → Receiver} {moment : Moment}
      (h : Alone start said s) (hread : act s.party = .read timeout next)
      (hcalm : moment.abort = false) : Alone start said ⟨next (.ok []) moment, s.desk⟩

/-- An XMODEM receiver that has asked for the cyclic check settles for the checksum by the time that
so many requests have failed. -/
def FallsBack (options : Options) (failed : Nat) : Prop :=
  options.protocol = .xmodem ∧ options.variant.handshake = .crcRequest ∧
    0 < options.config.crcHandshakeAttempts.toNat ∧
    options.config.crcHandshakeAttempts.toNat ≤ failed

instance (options : Options) (failed : Nat) : Decidable (FallsBack options failed) :=
  inferInstanceAs (Decidable (_ ∧ _ ∧ _ ∧ _))

/-- The signal of a receiver for which so many requests have failed, and the block check that it
expects. -/
def mode (options : Options) (failed : Nat) : Control × Trailer :=
  if FallsBack options failed then (.nak, .checksum)
  else (options.variant.handshake, options.variant.trailer)

/-- The signals with which a receiver has asked until so many requests had failed. -/
def requests (options : Options) (failed : Nat) : List Control :=
  (List.range (failed + 1)).map fun count => (mode options count).1

/-- A receiver at some step, after so many requests that have failed. -/
def asking (options : Options) (started : Nat) (mode : Control × Trailer) (failed : Nat)
    (moment : Moment) (step : Step) : Receiver where
  options := options
  session :=
    { role := .receiver, state := .awaitHandshake, started, retries := failed,
      totalRetries := failed }
  trailer := mode.2
  streaming := options.variant.isStreaming
  pending := []
  moment := moment
  job := { handshake := mode.1 }
  phase := .doing step

/-- A receiver waits for the first block after so many requests that have failed. -/
def Asks (options : Options) (started : Nat) (mode : Control × Trailer) (failed : Nat)
    (s : Seat Receiver) : Prop :=
  ∃ (stage : Stage) (moment : Moment) (deadline : Nat), moment.abort = false ∧
    s = ⟨asking options started mode failed moment
      (.listen (.solicited stage) (.byte deadline)), ⟨[], {}⟩⟩

section

variable {options : Options} {started failed : Nat} {signal : Control × Trailer} {moment : Moment}
  {stage : Stage} {step : Step} {s : Seat Receiver}

theorem length_requests (options : Options) (failed : Nat) :
    (requests options failed).length = failed + 1 := by
  simp [requests]

theorem requests_succ (options : Options) (failed : Nat) :
    requests options (failed + 1) = requests options failed ++ [(mode options (failed + 1)).1] := by
  simp [requests, List.range_succ]

/-- A receiver that has settled for the checksum keeps to it. -/
theorem FallsBack.mono {more : Nat} (h : FallsBack options failed) (hle : failed ≤ more) :
    FallsBack options more := by
  obtain ⟨hxmodem, hcrc, hpos, hattempts⟩ := h
  exact ⟨hxmodem, hcrc, hpos, hattempts.trans hle⟩

theorem not_fallsBack (h : options.config.crcHandshakeAttempts.toNat = 0 ∨
    failed < options.config.crcHandshakeAttempts.toNat) : ¬FallsBack options failed := by
  rintro ⟨-, -, hpos, hattempts⟩
  omega

theorem not_fallsBack_zero (options : Options) : ¬FallsBack options 0 :=
  not_fallsBack (by omega)

/-- Before it settles for the checksum a receiver asks with the signal of its variant. -/
theorem mode_eq (h : ¬FallsBack options failed) :
    mode options failed = (options.variant.handshake, options.variant.trailer) :=
  if_neg h

/-- After that it asks for the checksum. -/
theorem mode_eq_checksum (h : FallsBack options failed) : mode options failed = (.nak, .checksum) :=
  if_pos h

theorem requests_eq_replicate (h : ¬FallsBack options failed) :
    requests options failed = List.replicate (failed + 1) options.variant.handshake := by
  rw [List.eq_replicate_iff, length_requests]
  refine ⟨rfl, fun signal hsignal => ?_⟩
  obtain ⟨count, hcount, rfl⟩ := List.mem_map.mp hsignal
  have hlt := List.mem_range.mp hcount
  rw [mode_eq fun hfalls => h (hfalls.mono (by omega))]

/-- The first request is always the one of the variant. -/
theorem requests_eq_cons (options : Options) (failed : Nat) :
    ∃ more, requests options failed = options.variant.handshake :: more := by
  rw [requests, List.range_succ_eq_map, List.map_cons, mode_eq (not_fallsBack_zero options)]
  exact ⟨_, rfl⟩

/-- A receiver that has settled for nothing yet is one that waits for the first leg. -/
theorem Asks.listens
    (h : Asks options started (options.variant.handshake, options.variant.trailer) failed s) :
    Listens ⟨options, [], 0, failed, []⟩ .between s := by
  obtain ⟨stage, moment, deadline, hcalm, rfl⟩ := h
  exact ⟨⟨⟨rfl, hcalm, rfl, rfl, rfl, rfl, rfl, rfl, rfl⟩, .between rfl⟩, _, _, .between, rfl⟩

theorem Asks.reads (h : Asks options started signal failed s) :
    ∃ timeout next, act s.party = .read timeout next := by
  obtain ⟨stage, moment, deadline, -, rfl⟩ := h
  rw [act_of_listen rfl]
  exact Party.exists_listen_byte_eq_read _ _ rfl

/-- The first block is asked for once. -/
theorem settles_asking (hcalm : moment.abort = false) :
    Settles act (fun said s => said = writes [signal.1] ∧ Asks options started signal failed s)
      ⟨asking options started signal failed moment (.attempt stage true), ⟨[], {}⟩⟩ := by
  have hact : act (asking options started signal failed moment (.attempt stage true)) =
      say (asking options started signal failed moment (.attempt stage true)) signal.1
        (.expect (.solicited stage)) :=
    Party.unlessAborted_of_calm hcalm _
  refine Party.settles_write hact fun moment hcalm => ?_
  exact .silent rfl (.here ⟨rfl, stage, moment, _, hcalm, rfl⟩)

/-- After a request that has failed the receiver asks once more, unless its attempts are used
up. -/
theorem settles_asking_missed (hcalm : moment.abort = false) :
    Settles act (fun said s =>
        s.party.Lost ∧ options.config.maxRetries.toNat ≤ failed + 1 ∨
          said = writes [signal.1] ∧ Asks options started signal (failed + 1) s)
      ⟨asking options started signal failed moment (.missed (.solicited stage) true),
        ⟨[], {}⟩⟩ := by
  have hretry : (asking options started signal failed moment
      (.missed (.solicited stage) true)).retry stage (.attempt stage true) =
      if failed + 1 < options.config.maxRetries.toNat then
        asking options started signal (failed + 1) moment (.attempt stage true)
      else (asking options started signal (failed + 1) moment
        (.missed (.solicited stage) true)).fail (.timeout stage (failed + 1)) := rfl
  refine .silent rfl ?_
  rw [hretry]
  split
  · refine (settles_asking hcalm).mono ?_
    rintro said s ⟨hsaid, hasks⟩
    exact .inr ⟨hsaid, hasks⟩
  · rename_i hlast
    exact .here (.inl ⟨⟨_, .inl rfl⟩, by omega⟩)

/-- A receiver asks for the first block when it starts. -/
theorem settles_new (hcheck : options.check = none) (hcalm : moment.abort = false) :
    Settles act (fun said s => said = writes (requests options 0) ∧
      Asks options moment.now (mode options 0) 0 s) ⟨new options moment, ⟨[], {}⟩⟩ := by
  obtain ⟨stage, hstart⟩ := start_new_eq hcheck moment
  refine .silent rfl ?_
  rw [hstart]
  -- No request has failed yet, so the mode is still the one that the receiver was made with.
  have hattempt : (((new options moment).goto (.solicit stage)).mapSession fun session =>
      (session.enter .awaitHandshake).resetRetries).goto (.attempt stage true) =
      asking options moment.now (mode options 0) 0 moment (.attempt stage true) := by
    rw [mode_eq (not_fallsBack_zero options)]
    rfl
  refine .silent rfl ?_
  rw [hattempt]
  exact settles_asking hcalm

/-- A receiver whose request has failed settles for the checksum if that was the last one for the
cyclic check. -/
theorem fallBack_asking :
    fallBack (asking options started (mode options failed) failed moment step) =
      asking options started (mode options (failed + 1)) failed moment step := by
  have hact : fallBack (asking options started (mode options failed) failed moment step) =
      if options.protocol = .xmodem ∧ (mode options failed).1 = .crcRequest ∧
          0 < options.config.crcHandshakeAttempts.toNat ∧
          options.config.crcHandshakeAttempts.toNat ≤ failed + 1 then
        asking options started (.nak, .checksum) failed moment step
      else asking options started (mode options failed) failed moment step := rfl
  rw [hact]
  by_cases hsettled : FallsBack options failed
  · -- The receiver has settled for the checksum already.
    rw [mode_eq_checksum hsettled, mode_eq_checksum (hsettled.mono (Nat.le_succ failed)),
      if_neg (by simp)]
  · rw [mode_eq hsettled]
    by_cases hlast : FallsBack options (failed + 1)
    · rw [mode_eq_checksum hlast]
      exact if_pos hlast
    · rw [mode_eq hlast]
      exact if_neg hlast

/-- A receiver whose request has failed asks once more, perhaps for the checksum, unless its
attempts are used up. -/
theorem settles_asking_silence (hcalm : moment.abort = false) :
    Settles act (fun said s =>
        s.party.Lost ∧ options.config.maxRetries.toNat ≤ failed + 1 ∨
          said = writes [(mode options (failed + 1)).1] ∧
            Asks options started (mode options (failed + 1)) (failed + 1) s)
      ⟨asking options started (mode options failed) failed moment
        (.judge (.solicited stage) .silence), ⟨[], {}⟩⟩ := by
  refine .silent rfl ?_
  change Settles act _ ⟨(fallBack (asking options started (mode options failed) failed moment
    (.judge (.solicited stage) .silence))).goto (.missed (.solicited stage) true), ⟨[], {}⟩⟩
  rw [fallBack_asking]
  exact settles_asking_missed hcalm

/-- A receiver that waits for the first block in vain goes on waiting, asks once more or gives
up. -/
theorem Asks.settles_of_vain (h : Asks options started (mode options failed) failed s)
    {timeout : Nat} {next : Except IoError Bytes → Moment → Receiver}
    (hread : act s.party = .read timeout next) (hcalm : moment.abort = false) :
    Settles act (fun said s => s.party.Lost ∨
        said = [] ∧ Asks options started (mode options failed) failed s ∨
        said = writes [(mode options (failed + 1)).1] ∧
          Asks options started (mode options (failed + 1)) (failed + 1) s)
      ⟨next (.ok []) moment, s.desk⟩ := by
  obtain ⟨stage, before, deadline, -, rfl⟩ := h
  obtain ⟨-, -, hnext⟩ := Party.listen_byte_eq_read ((act_of_listen rfl).symm.trans hread)
  rcases hnext moment with hagain | hvain
  · rw [hagain]
    exact .here (.inr (.inl ⟨rfl, stage, moment, deadline, hcalm, rfl⟩))
  · rw [hvain]
    refine (settles_asking_silence hcalm).mono ?_
    rintro said s (⟨hlost, -⟩ | hasks)
    · exact .inl hlost
    · exact .inr (.inr hasks)

/-- At the deadline the wait for the first block is over. -/
theorem Asks.exists_silence (h : Asks options started signal failed s) :
    ∃ (stage : Stage) (timeout : Nat) (next : Except IoError Bytes → Moment → Receiver)
      (moment : Moment), act s.party = .read timeout next ∧ moment.abort = false ∧
        s.desk = ⟨[], {}⟩ ∧ next (.ok []) moment = asking options started signal failed moment
          (.judge (.solicited stage) .silence) := by
  obtain ⟨stage, before, deadline, -, rfl⟩ := h
  have hheard : (Line.Task.byte deadline).hear [] [] deadline = .settled ⟨none, []⟩ := by
    simp [Line.Task.hear]
  refine ⟨stage, _, _, ⟨deadline, false⟩, rfl, rfl, rfl, ?_⟩
  simp only [hheard]
  rfl

/-- A receiver that is left alone comes to what it settles to. -/
theorem Alone.of_settles {start : Seat Receiver} {said : List Bytes}
    {post : List Bytes → Seat Receiver → Prop} (h : Alone start said s) (hs : Settles act post s) :
    ∃ more s', Alone start (said ++ more) s' ∧ post more s' := by
  induction hs generalizing said with
  | here hpost => exact ⟨[], _, by rwa [List.append_nil], hpost⟩
  | move can _ ih =>
    obtain ⟨news, s', hmove⟩ := can
    obtain ⟨more, s'', halone, hpost⟩ := ih news s' hmove (h.moves hmove)
    exact ⟨news ++ more, s'', by rwa [← List.append_assoc], hpost⟩

/-- A receiver that is left alone asks for the first block as often as its attempts allow. -/
theorem exists_alone (options : Options) (failed : Nat) (hcheck : options.check = none)
    (hcalm : moment.abort = false) (hmore : failed < options.config.maxRetries.toNat) :
    ∃ s, Alone ⟨new options moment, ⟨[], {}⟩⟩ (writes (requests options failed)) s ∧
      Asks options moment.now (mode options failed) failed s := by
  induction failed with
  | zero =>
    obtain ⟨said, s, halone, rfl, hasks⟩ :=
      Alone.of_settles .start (settles_new hcheck hcalm)
    exact ⟨s, halone, hasks⟩
  | succ failed ih =>
    obtain ⟨s, halone, hasks⟩ := ih (by omega)
    obtain ⟨stage, timeout, next, moment', hread, hcalm', hdesk, hnext⟩ := hasks.exists_silence
    have hwaits := halone.waits hread hcalm'
    rw [hnext, hdesk] at hwaits
    obtain ⟨said, s', halone', ⟨hlost, hlast⟩ | ⟨rfl, hasks'⟩⟩ :=
      hwaits.of_settles (settles_asking_silence hcalm')
    · omega
    · rw [requests_succ]
      rw [writes, writes, ← List.map_append] at halone'
      exact ⟨s', halone', hasks'⟩

/-- A receiver that is left alone asks for the first block until it gives up. -/
theorem settles_of_alone {said : List Bytes} (hcheck : options.check = none)
    (hcalm : moment.abort = false) (h : Alone ⟨new options moment, ⟨[], {}⟩⟩ said s) :
    Settles act (fun more s => s.party.Lost ∨ ∃ failed,
      said ++ more = writes (requests options failed) ∧
        Asks options moment.now (mode options failed) failed s) s := by
  induction h with
  | start =>
    refine (settles_new hcheck hcalm).mono ?_
    rintro said s ⟨hsaid, hasks⟩
    exact .inr ⟨0, hsaid, hasks⟩
  | @moves said news s s' halone hmove ih =>
    cases ih with
    | move can next =>
      refine (next _ _ hmove).mono ?_
      rintro more s'' (hlost | ⟨failed, hsaid, hasks⟩)
      · exact .inl hlost
      · exact .inr ⟨failed, by rw [List.append_assoc, hsaid], hasks⟩
    | here hpost =>
      rcases hpost with hlost | ⟨failed, hsaid, hasks⟩
      · have hown : act s.party = Party.act (step s.party) s.party := rfl
        exact .here (.inl (hlost.of_moves hown hmove))
      · -- A receiver that waits for the first block does not move.
        obtain ⟨timeout, next, hread⟩ := hasks.reads
        exact absurd hmove (Connection.not_moves_of_read hread)
  | @waits said s timeout next moment' halone hread hcalm' ih =>
    cases ih with
    | move can next =>
      obtain ⟨news, s', hmove⟩ := can
      exact absurd hmove (Connection.not_moves_of_read hread)
    | here hpost =>
      rcases hpost with hlost | ⟨failed, hsaid, hasks⟩
      · exact absurd hread (hlost.not_read rfl)
      · rw [List.append_nil] at hsaid
        refine (hasks.settles_of_vain hread hcalm').mono ?_
        rintro more s' (hlost | ⟨rfl, hasks⟩ | ⟨rfl, hasks⟩)
        · exact .inl hlost
        · exact .inr ⟨failed, by rw [hsaid, List.append_nil], hasks⟩
        · refine .inr ⟨failed + 1, ?_, hasks⟩
          rw [hsaid, requests_succ, writes, writes, writes, List.map_append]

/-- A receiver that has been left alone and reads waits for the first block. -/
theorem Alone.asks {said : List Bytes} (h : Alone ⟨new options moment, ⟨[], {}⟩⟩ said s)
    (hcheck : options.check = none) (hcalm : moment.abort = false) {timeout : Nat}
    {next : Except IoError Bytes → Moment → Receiver} (hread : act s.party = .read timeout next) :
    ∃ failed, said = writes (requests options failed) ∧
      Asks options moment.now (mode options failed) failed s := by
  cases settles_of_alone hcheck hcalm h with
  | move can =>
    obtain ⟨news, s', hmove⟩ := can
    exact absurd hmove (Connection.not_moves_of_read hread)
  | here hpost =>
    rcases hpost with hlost | ⟨failed, hsaid, hasks⟩
    · exact absurd hread (hlost.not_read rfl)
    · rw [List.append_nil] at hsaid
      exact ⟨failed, hsaid, hasks⟩

end

end BlockTransfer.Receiver
