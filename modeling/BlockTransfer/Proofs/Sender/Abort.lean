import BlockTransfer.Proofs.Endings

/-!
# A sender of which a stop is requested

A sender looks for a request to stop before it writes, before it waits for an invitation, and before
it fetches another piece of a file. So after a request it is done with the exchange in progress, and
with nothing else. Only a piece that is being fetched may still go into a stream.

## Main definitions

* `Sender.Exchange`: what a sender is in the middle of.
* `Sender.Heeds`: what a sender does after a request.
* `Sender.Relents`: how its run ends.

## Main results

* `Sender.Abides.heeds`: a sender heeds a request.
* `Sender.Sound.struck_of_requested`: where a request finds a sender.
-/

namespace BlockTransfer

namespace Sender

/-- What a sender and its receiver are in the middle of. -/
inductive Exchange
  /-- An invitation is awaited. -/
  | invitation (invitation : Invitation)
  /-- An item has been sent, and its answer is awaited. -/
  | item (item : Item)
  /-- A piece of the file is fetched or goes into a stream. -/
  | piece

namespace Step

/-- The exchange to which a step belongs. -/
def exchange? : Step → Option Exchange
  | .listen invitation _ => some (.invitation invitation)
  | .sent item _ | .answer item _ _ => some (.item item)
  | .gather _ | .gathered _ | .drain _ => some .piece
  | _ => none

/-- Whether a piece of the file is being fetched. -/
def fetches : Step → Bool
  | .gather _ | .gathered _ => true
  | _ => false

end Step

/-- The exchange that a sender is in the middle of. -/
def exchange? (s : Sender) : Option Exchange :=
  match s.phase with
  | .doing step => step.exchange?
  | _ => none

/-- Whether a sender is fetching a piece of the file. -/
def fetches (s : Sender) : Bool :=
  match s.phase with
  | .doing step => step.fetches
  | _ => false

/-- Whether something else than the cancel signal is written. -/
def sends (a : Act Sender) : Bool :=
  a.event.writes && !a.event.cancels

/-- The acknowledgement of an item is taken. -/
def TakesAck (item : Item) (a : Act Sender) : Prop :=
  ∃ spare task pending, a.state.phase = .doing (.answer item spare task) ∧
    a.state.pending = Control.ack.byte :: pending

/-- How the run of a sender ends if the request to stop has found it in a state and it has acted a
number of times since. -/
inductive Relents (found : Sender) (after : List (Act Sender)) : Ending → Prop
  /-- The act before the request was the end of it. -/
  | ended {ending : Ending}
      (hphase : found.phase = .cancelling ending ∨ found.phase = .over ending)
      (hincomplete : ∀ summary, ending ≠ .ok (.completed summary)) : Relents found after ending
  /-- The request is heeded. -/
  | aborted : Relents found after (.ok .aborted)
  /-- The exchange in progress fails. -/
  | failed {a : Act Sender} {step : Step} {e : TransferError} (ha : a ∈ after)
      (hphase : a.state.phase = .doing step) (hexchange : step.exchange? = found.exchange?)
      (hbreaks : Breaks a.state step a.event e) : Relents found after (.error e)
  /-- The exchange in progress brings the last acknowledgement of the transfer. -/
  | completed {a : Act Sender} {item : Item} {summary : Summary}
      (hlast : item = .endOfBatch ∨ item = .endOfFile ∧ found.options.protocol = .xmodem)
      (ha : a ∈ after) (htakes : TakesAck item a) : Relents found after (.ok (.completed summary))

/-- What a sender does after a request to stop has found it in a state. -/
structure Heeds (found : Sender) (after : List (Act Sender)) (r : Action.Run Sender ω) : Prop where
  /-- Nothing is written but the cancel signal, unless the sender was fetching a piece of the file
  when the request came: then this piece may still go into a stream. -/
  cancels : ∀ a ∈ after, a.event.writes = true → a.event.cancels = true ∨
    found.fetches = true ∧ a.state.streaming = true ∧
      ∃ piece, a.state.phase = .doing (.gathered piece)
  /-- The cancel signal is written at most once. -/
  signals_le : after.countP (·.event.cancels) ≤ 1
  /-- No more than this piece is written beside it. -/
  pieces_le : after.countP sends ≤ found.fetches.toNat
  /-- The line is read only for the exchange in progress. -/
  reads : ∀ a ∈ after, ∀ timeout reply, a.event = .read timeout reply →
    a.state.exchange? = found.exchange?
  /-- The run ends like this. -/
  relents : ∀ ending, r.ending = some ending → Relents found after ending

section Steps

variable {s s' : Sender} {step step' : Step} {event : Event}

/-- A sender that looks for a request and finds one gives up. -/
theorem step_of_halts (hhalts : step.halts = true) (habort : s.moment.abort = true) :
    Sender.step s step = .silent s.abort := by
  cases step with
  | attempt | streamHeader | offer | nextPiece => exact if_pos habort
  | _ => cases hhalts

theorem Turns.fetches (h : Turns s step event s' step') (habort : s.moment.abort = true)
    (hfetches : step'.fetches = true) : step.fetches = true := by
  cases h with
  | nextPiece hcalm => simp [habort] at hcalm
  | noise | arrival => exact hfetches
  | interrupted | gathered | gather => rfl
  | _ => cases hfetches

theorem Turns.exchange?_eq (h : Turns s step event s' step') (habort : s.moment.abort = true) :
    step'.exchange? = none ∨ step'.exchange? = step.exchange? := by
  cases h with
  | attempt _ hcalm | offer hcalm | nextPiece hcalm => simp [habort] at hcalm
  | noise | arrival | sent | interrupted | gathered | gather | streamed => exact .inr rfl
  | _ => exact .inl rfl

theorem Turns.takesAck (h : Turns s step event s' step') (hphase : s.phase = .doing step)
    {item : Item} (hstep : step' = .acknowledged item) : TakesAck item ⟨s, event⟩ := by
  cases h with
  | acknowledged hpending =>
    cases hstep
    exact ⟨_, _, _, hphase, hpending⟩
  | noise htask =>
    rw [hstep] at htask
    exact absurd rfl htask
  | arrival htask =>
    rw [hstep] at htask
    cases htask
  | _ => cases hstep

/-- The only file of a transfer without headers is done with when its end has been acknowledged. -/
theorem Turns.eq_acknowledged (h : Turns s step event s' step') (hstep : step' = .nextFile)
    (hfiles : s'.job.files = []) (hprotocol : s'.options.protocol = .xmodem) :
    step = .acknowledged .endOfFile := by
  cases h with
  | start _ hone =>
    have hlength := hone hprotocol
    rw [hfiles] at hlength
    cases hlength
  | fileDone => rfl
  | noise htask =>
    rw [hstep] at htask
    exact absurd rfl htask
  | arrival htask =>
    rw [hstep] at htask
    cases htask
  | _ => cases hstep

/-- A sender of which a stop is requested writes a piece into a stream at most. -/
theorem Course.eq_gathered {next : Sender} (h : Course s step event next)
    (hhalts : step.halts = false) (hwrites : event.writes = true) :
    ∃ piece, step = .gathered piece := by
  cases h with
  | turns h =>
    cases h with
    | streamHeader | offer => cases hhalts
    | streamed => exact ⟨_, rfl⟩
    | _ => cases hwrites
  | breaks h =>
    cases h with
    | unwritten hitem =>
      cases step with
      | gathered piece => exact ⟨piece, rfl⟩
      | streamHeader | offer => cases hhalts
      | _ => cases hitem
    | _ => cases hwrites
  | completes | aborts | rejects => cases hwrites

/-- What a sender does if a stop is requested. -/
theorem ensures_course_of_abort (hplaced : s.Placed step) (habort : s.moment.abort = true) :
    (Sender.step s step).Ensures fun event next => Course s step event next ∧
      (step.halts = true → next = s.abort) ∧
      (event.writes = true → s.streaming = true ∧ ∃ piece, step = .gathered piece) := by
  cases hhalts : step.halts with
  | true =>
    -- The request is found.
    rw [step_of_halts hhalts habort]
    exact ⟨.aborts hhalts habort, fun _ => rfl, nofun⟩
  | false =>
    have hcourse := ensures_course hplaced
    cases step with
    | gathered piece =>
      refine (hcourse.and (ensures_streaming s piece)).mono ?_
      rintro event next ⟨hcourse, hstreaming⟩
      exact ⟨hcourse, nofun, fun hwrites => ⟨hstreaming hwrites, piece, rfl⟩⟩
    | _ =>
      refine hcourse.mono ?_
      intro event next hcourse
      refine ⟨hcourse, nofun, ?_⟩
      intro hwrites
      obtain ⟨piece, hpiece⟩ := hcourse.eq_gathered hhalts hwrites
      cases hpiece

/-- The line is read only in the middle of an exchange. -/
theorem Course.exchange?_ne_none {next : Sender} {timeout : Nat} {reply : Except IoError Bytes}
    (h : Course s step (.read timeout reply) next) : step.exchange? ≠ none := by
  have htask : step.task? ≠ none := by
    cases h with
    | turns h =>
      cases h with
      | arrival htask =>
        rw [htask]
        exact Option.some_ne_none _
      | lapse | unanswered | drained => exact Option.some_ne_none _
    | breaks h =>
      cases h with
      | unread htask => exact htask
      | lapse | unanswered => exact Option.some_ne_none _
  cases step with
  | listen | answer | drain => exact Option.some_ne_none _
  | _ => exact absurd rfl htask

/-- Only an exchange fails, unless something is written that is not a piece. -/
theorem Breaks.exchange?_ne_none {e : TransferError} (h : Breaks s step event e)
    (hhalts : step.halts = false) : step.exchange? ≠ none := by
  cases h with
  | cancelled htask | unread htask =>
    cases step with
    | listen | answer | drain => exact Option.some_ne_none _
    | _ => exact absurd rfl htask
  | unwritten hitem =>
    cases step with
    | gathered => exact Option.some_ne_none _
    | streamHeader | offer => cases hhalts
    | _ => cases hitem
  | unfetched | lapse | refused | unanswered => exact Option.some_ne_none _

end Steps

/-! ## After the request -/

/-- How a sender stands when a request to stop has found it in a state and it has acted a number of
times since. -/
inductive Abides (found : Sender) : List (Act Sender) → Sender → Prop
  /-- It is still in the exchange in progress, or on its way to the point at which it looks for a
  request. -/
  | doing {past : List (Act Sender)} {s : Sender} {step : Step} (hphase : s.phase = .doing step)
      (hplaced : s.Placed step) (hoptions : s.options = found.options)
      (hfit : step = .start → ¬Unfit s.options s.job.files)
      (hfetches : step.fetches = true → found.fetches = true)
      (hexchange : step.exchange? = none ∨ step.exchange? = found.exchange?)
      (hacked : ∀ item, step = .acknowledged item → ∃ a ∈ past, TakesAck item a)
      (hlast : step = .nextFile → s.job.files = [] → s.options.protocol = .xmodem →
        ∃ a ∈ past, TakesAck .endOfFile a) : Abides found past s
  /-- It has come to its end. -/
  | parted {past : List (Act Sender)} {s : Sender} {ending : Ending}
      (hphase : s.phase = .cancelling ending ∨ s.phase = .over ending)
      (hrelents : Relents found past ending) : Abides found past s

/-- How often the cancel signal may still be written. -/
def farewells (s : Sender) : Nat :=
  match s.phase with
  | .over _ => 0
  | _ => 1

section Abides

variable {found s : Sender} {past : List (Act Sender)} {step : Step} {event : Event}

theorem Relents.append {ending : Ending} (h : Relents found past ending) (a : Act Sender) :
    Relents found (past ++ [a]) ending := by
  cases h with
  | ended hphase hincomplete => exact .ended hphase hincomplete
  | aborted => exact .aborted
  | failed ha hphase hexchange hbreaks =>
    exact .failed (List.mem_append_left _ ha) hphase hexchange hbreaks
  | completed hlast ha htakes => exact .completed hlast (List.mem_append_left _ ha) htakes

/-- A sender that goes on after a request is on its way to the point at which it looks for one. -/
theorem Turns.abides {s' : Sender} {step' : Step} (h : Turns s step event s' step')
    (hphase : s.phase = .doing step) (habort : s.moment.abort = true) (hplaced : s.Placed step)
    (hoptions : s.options = found.options)
    (hfetches : step.fetches = true → found.fetches = true)
    (hexchange : step.exchange? = none ∨ step.exchange? = found.exchange?)
    (hacked : ∀ item, step = .acknowledged item → ∃ a ∈ past, TakesAck item a) :
    Abides found (past ++ [⟨s, event⟩]) (s'.goto step') := by
  have hplaced' := h.placed hplaced
  refine .doing rfl ⟨hplaced'.files_ne_nil, hplaced'.timed⟩ (h.options_eq.trans hoptions) ?_ ?_ ?_
    ?_ ?_
  · exact fun hstep => absurd hstep h.ne_start
  · exact fun hstep => hfetches (h.fetches habort hstep)
  · rcases h.exchange?_eq habort with hnone | hsame
    · exact .inl hnone
    · rwa [hsame]
  · intro item hstep
    exact ⟨_, List.mem_append_right _ (List.mem_singleton_self _), h.takesAck hphase hstep⟩
  · intro hstep hfiles hprotocol
    obtain ⟨a, ha, htakes⟩ := hacked _ (h.eq_acknowledged hstep hfiles hprotocol)
    exact ⟨a, List.mem_append_left _ ha, htakes⟩

/-- A sender that is done with after a request has got its last acknowledgement since. -/
theorem Completes.relents (h : Completes s step) (hoptions : s.options = found.options)
    (hacked : ∀ item, step = .acknowledged item → ∃ a ∈ past, TakesAck item a)
    (hlast : step = .nextFile → s.job.files = [] → s.options.protocol = .xmodem →
      ∃ a ∈ past, TakesAck .endOfFile a) (summary : Summary) :
    Relents found past (.ok (.completed summary)) := by
  cases h with
  | single hfiles hprotocol =>
    obtain ⟨a, ha, htakes⟩ := hlast rfl hfiles hprotocol
    exact .completed (.inr ⟨rfl, hoptions ▸ hprotocol⟩) ha htakes
  | batch =>
    obtain ⟨a, ha, htakes⟩ := hacked _ rfl
    exact .completed (.inl rfl) ha htakes

/-- A sender that fails has been in the middle of an exchange. -/
theorem Breaks.relents {e : TransferError} (h : Breaks s step event e)
    (hphase : s.phase = .doing step) (hhalts : step.halts = false)
    (hexchange : step.exchange? = none ∨ step.exchange? = found.exchange?) :
    Relents found (past ++ [⟨s, event⟩]) (.error e) :=
  .failed (List.mem_append_right _ (List.mem_singleton_self _)) hphase
    (hexchange.resolve_left (h.exchange?_ne_none hhalts)) h

theorem fetches_of_parted (h : s.Parted) : s.fetches = false := by
  obtain ⟨ending, h | h⟩ := h <;> rw [fetches, h]

theorem farewells_le_one (s : Sender) : s.farewells ≤ 1 := by
  unfold farewells
  split <;> decide

/-- A sender of which a stop is requested fetches no other piece once it has written one. -/
theorem Course.pieces_le {next : Sender} (h : Course s step event next)
    (habort : s.moment.abort = true)
    (hwrites : event.writes = true → ∃ piece, step = .gathered piece) :
    event.writes.toNat + next.fetches.toNat ≤ step.fetches.toNat := by
  have hquiet (hnext : next.fetches = false) : event.writes.toNat + next.fetches.toNat ≤
      step.fetches.toNat := by
    rw [hnext]
    cases hevent : event.writes with
    | true =>
      obtain ⟨piece, rfl⟩ := hwrites hevent
      exact Nat.le_refl 1
    | false => exact Nat.zero_le _
  cases h with
  | @turns _ step' _ s' h =>
    have hnext : Sender.fetches (s'.goto step') = step'.fetches := rfl
    cases hfetches : step'.fetches with
    | false => exact hquiet (hnext.trans hfetches)
    | true =>
      rw [hnext, hfetches, h.fetches habort hfetches]
      -- A piece is written only if no more of it is fetched.
      cases hevent : event.writes with
      | false => exact Nat.le_refl 1
      | true =>
        obtain ⟨piece, rfl⟩ := hwrites hevent
        cases h with
        | streamed => cases hfetches
        | noise htask => exact absurd rfl htask
        | arrival htask => cases htask
        | beginEndOfFile | beginBlock => cases hevent
  | breaks => exact hquiet (fetches_of_parted (Party.parted_fail _ _))
  | completes => exact hquiet (fetches_of_parted (Party.parted_complete _))
  | aborts => exact hquiet (fetches_of_parted (Party.parted_abort _))
  | rejects => exact hquiet (fetches_of_parted (Party.parted_reject _ _))

theorem Course.cancels {next : Sender} (h : Course s step event next) (hplaced : s.Placed step) :
    event.cancels = false := by
  cases h with
  | turns h => exact h.cancels hplaced
  | breaks h => exact h.cancels hplaced
  | completes | aborts | rejects => rfl

theorem ne_abort_of_fail (s s' : Sender) (e : TransferError) : s'.fail e ≠ s.abort := by
  intro h
  have hphase := congrArg Party.phase h
  rcases s'.phase_fail e with hfail | hfail
  · rw [hfail] at hphase
    cases hphase
  · rw [hfail] at hphase
    cases hphase

/-- A sender abides by a request with all its acts. -/
theorem Abides.ensures_abides (h : Abides found past s) (habort : s.moment.abort = true) :
    (Sender.act s).Ensures fun event next => Abides found (past ++ [⟨s, event⟩]) next ∧
      (event.writes = true → event.cancels = true ∨ found.fetches = true ∧ s.streaming = true ∧
        ∃ piece, s.phase = .doing (.gathered piece)) ∧
      (∀ timeout reply, event = .read timeout reply → s.exchange? = found.exchange?) ∧
      event.cancels.toNat + next.farewells ≤ s.farewells ∧
      (sends ⟨s, event⟩).toNat + next.fetches.toNat ≤ s.fetches.toNat := by
  apply Party.ensures_act
  · intro step hphase
    cases h with
    | parted hparted => simp [hphase] at hparted
    | doing hphase' hplaced hoptions hfit hfetches hexchange hacked hlast =>
      rw [hphase] at hphase'
      cases hphase'
      refine (ensures_course_of_abort hplaced habort).mono ?_
      rintro event next ⟨hcourse, hhalts, hwrites⟩
      refine ⟨?_, ?_, ?_, ?_, ?_⟩
      · cases hcourse with
        | turns h => exact h.abides hphase habort hplaced hoptions hfetches hexchange hacked
        | breaks h =>
          -- Where it looks for a request it finds one, and does not fail.
          refine .parted (Party.phase_fail _ _) (h.relents hphase ?_ hexchange)
          exact Bool.eq_false_iff.mpr fun hstep => ne_abort_of_fail _ _ _ (hhalts hstep)
        | completes h =>
          exact .parted (.inr rfl) ((h.relents hoptions hacked hlast _).append _)
        | aborts => exact .parted (.inl rfl) .aborted
        | rejects hunfit => exact absurd hunfit (hfit rfl)
      · intro hevent
        obtain ⟨hstreaming, piece, rfl⟩ := hwrites hevent
        exact .inr ⟨hfetches rfl, hstreaming, piece, hphase⟩
      · rintro timeout reply rfl
        have hsame := hexchange.resolve_left hcourse.exchange?_ne_none
        rwa [exchange?, hphase]
      · have hdoing : s.farewells = 1 := by rw [farewells, hphase]
        rw [hcourse.cancels hplaced, hdoing]
        simpa using farewells_le_one next
      · have hfetching : s.fetches = step.fetches := by rw [fetches, hphase]
        rw [sends, hcourse.cancels hplaced, Bool.not_false, Bool.and_true, hfetching]
        exact hcourse.pieces_le habort fun hevent => (hwrites hevent).2
  · intro ending reply moment hphase
    cases h with
    | doing hphase' => simp [hphase] at hphase'
    | parted hparted hrelents =>
      rw [hphase] at hparted
      obtain rfl : ending = _ := by simpa using hparted
      refine ⟨.parted (.inr rfl) (hrelents.append _), fun _ => .inl ?_, nofun, ?_, ?_⟩
      · simp [Event.cancels]
      · simp [Event.cancels, farewells, hphase]
      · simp [sends, Event.cancels, fetches, hphase]

end Abides

/-! ## The state in which the request comes -/

/-- What is known of a sender at any point of its run. -/
structure Sound (s : Sender) : Prop where
  /-- It is at a step that fits. -/
  placed : ∀ step, s.phase = .doing step → s.Placed step
  /-- It is about to begin only with options and files with which it can. -/
  fit : s.phase = .doing .start → ¬Unfit s.options s.job.files
  /-- It does not tell its peer of a success. -/
  incomplete : ∀ ending, s.phase = .cancelling ending → ∀ summary, ending ≠ .ok (.completed summary)

/-- What is known of a sender that has just got a reply. -/
structure Struck (s : Sender) : Prop where
  /-- It has not yet taken what has come. -/
  step_ne : ∀ step, s.phase = .doing step → (∀ item, step ≠ .acknowledged item) ∧ step ≠ .nextFile
  /-- It has not yet completed the transfer. -/
  incomplete : ∀ ending, s.phase = .over ending → ∀ summary, ending ≠ .ok (.completed summary)

section Struck

variable {s s' : Sender} {step step' : Step} {event : Event}

theorem Turns.step_ne (h : Turns s step event s' step') (hevent : event ≠ .silent) :
    (∀ item, step' ≠ .acknowledged item) ∧ step' ≠ .nextFile := by
  cases h with
  | arrival htask =>
    constructor
    · rintro item rfl
      cases htask
    · rintro rfl
      cases htask
  | streamHeader | lapse | offer | unanswered | interrupted | gathered | gather | streamed | drained
  | counted => exact ⟨nofun, nofun⟩
  | _ => exact absurd rfl hevent

/-- A sender is in the middle of fetching a piece only after a reading of the file. -/
theorem Turns.fetch_of_fetches (h : Turns s step event s' step') (hevent : event ≠ .silent)
    (hfetches : step'.fetches = true) : ∃ file most reply, event = .fetch file most reply := by
  cases h with
  | interrupted | gathered | gather => exact ⟨_, _, _, rfl⟩
  | arrival htask =>
    cases step with
    | gather | gathered => cases htask
    | _ => cases hfetches
  | streamHeader | lapse | offer | unanswered | streamed | drained | counted => cases hfetches
  | _ => exact absurd rfl hevent

theorem sound_fail (s : Sender) (e : TransferError) : Sound (s.fail e) := by
  have hphase := s.phase_fail e
  refine ⟨?_, ?_, ?_⟩
  · exact fun step h => absurd h ((Party.parted_fail s e).phase_ne step)
  · exact fun h => absurd h ((Party.parted_fail s e).phase_ne _)
  · intro ending h summary
    rw [h] at hphase
    rcases hphase with hphase | hphase
    · cases hphase
      exact nofun
    · cases hphase

/-- A sender gets from sound states to sound states, and has just got a reply unless nothing has
been seen of its act. -/
theorem Sound.ensures_sound (h : Sound s) :
    (Sender.act s).Ensures fun event next =>
      Sound next ∧ (event ≠ .silent → Struck next ∧
        (next.fetches = true → ∃ file most reply, event = .fetch file most reply)) := by
  refine ensures_act_of_course h.placed ?_ ?_
  · intro step event next hphase hcourse
    cases hcourse with
    | turns hturns =>
      have hplaced := hturns.placed (h.placed step hphase)
      refine ⟨⟨?_, ?_, nofun⟩, fun hevent => ⟨⟨?_, nofun⟩, hturns.fetch_of_fetches hevent⟩⟩
      · rintro step' ⟨⟩
        exact ⟨hplaced.files_ne_nil, hplaced.timed⟩
      · rintro ⟨⟩
        exact absurd rfl hturns.ne_start
      · rintro step' ⟨⟩
        exact hturns.step_ne hevent
    | @breaks _ _ s' e =>
      have hfail := s'.phase_fail e
      refine ⟨sound_fail s' e, fun _ => ⟨⟨?_, ?_⟩, ?_⟩⟩
      · exact fun step' hstep => absurd hstep ((Party.parted_fail s' e).phase_ne step')
      · intro ending hending
        rw [hending] at hfail
        rcases hfail with hfail | hfail
        · cases hfail
        · cases hfail
          exact nofun
      · intro hfetches
        rcases hfail with hfail | hfail <;> simp [fetches, hfail] at hfetches
    | completes | rejects => exact ⟨⟨nofun, nofun, nofun⟩, fun hevent => absurd rfl hevent⟩
    | aborts =>
      refine ⟨⟨nofun, nofun, ?_⟩, fun hevent => absurd rfl hevent⟩
      rintro ending ⟨⟩
      exact nofun
  · intro ending reply moment hphase
    refine ⟨⟨nofun, nofun, nofun⟩, fun _ => ⟨⟨nofun, ?_⟩, nofun⟩⟩
    rintro ending' ⟨⟩
    exact h.incomplete ending hphase

variable {ω : Type} {env : Surroundings ω} {w : ω} {sofar : Nat}

/-- A request to stop finds a sender at the start or just after a reply; it finds the sender in the
middle of fetching a piece only if it has come while the file was read. -/
theorem Sound.struck_of_requested (h : Sound s) (hphase : s.phase = .doing .start)
    (hrequested : Party.Requested env Sender.act sofar s w) :
    Sound (Action.run env Sender.act sofar s w).state ∧
      Struck (Action.run env Sender.act sofar s w).state ∧
      ((Action.run env Sender.act sofar s w).state.fetches = true →
        ∃ a file most reply, (Action.trace env Sender.act sofar s w).getLast? = some a ∧
          a.event = .fetch file most reply) := by
  have hrun := @Action.invariant_trace _ _ Sender.act
    (fun past s => Sound s ∧
      ((∀ a, past.getLast? = some a → a.state.moment.abort = false) → s.moment.abort = true →
        Struck s ∧ (s.fetches = true → ∃ a file most reply, past.getLast? = some a ∧
          a.event = .fetch file most reply))) ?_ env sofar [] s w ⟨h, fun _ _ => ⟨⟨?_, ?_⟩, ?_⟩⟩
  · exact ⟨hrun.1, hrun.2 hrequested.before (hrequested.after 0)⟩
  · rintro past s ⟨hsound, -⟩
    refine (hsound.ensures_sound.and (attentive_act s).ensures_moment).mono ?_
    rintro event next ⟨⟨hnext, hstruck⟩, hmoment⟩
    refine ⟨hnext, fun hbefore habort => ?_⟩
    -- Without a reply there is no news of a request.
    have hevent : event ≠ .silent := by
      intro hsilent
      have hcalm := hbefore ⟨s, event⟩ List.getLast?_concat
      rw [hmoment hsilent, hcalm] at habort
      cases habort
    obtain ⟨hstruck, hfetch⟩ := hstruck hevent
    refine ⟨hstruck, fun hfetches => ?_⟩
    obtain ⟨file, most, reply, rfl⟩ := hfetch hfetches
    exact ⟨_, file, most, reply, List.getLast?_concat, rfl⟩
  · intro step hstep
    rw [hphase] at hstep
    cases hstep
    exact ⟨nofun, nofun⟩
  · intro ending hover
    rw [hphase] at hover
    cases hover
  · intro hfetches
    rw [fetches, hphase] at hfetches
    cases hfetches

/-- A sender abides by a request that has just come. -/
theorem abides_of_struck (hsound : Sound s) (hstruck : Struck s) : Abides s [] s := by
  cases hphase : s.phase with
  | doing step =>
    obtain ⟨hacked, hnext⟩ := hstruck.step_ne step hphase
    refine .doing hphase (hsound.placed step hphase) rfl ?_ ?_ ?_ ?_ ?_
    · rintro rfl
      exact hsound.fit hphase
    · intro hfetches
      rwa [fetches, hphase]
    · right
      rw [exchange?, hphase]
    -- What has come with the last reply has not been taken yet.
    · exact fun item hstep => absurd hstep (hacked item)
    · exact fun hstep => absurd hstep hnext
  | cancelling ending =>
    exact .parted (.inl hphase) (.ended (.inl hphase) (hsound.incomplete ending hphase))
  | _ ending =>
    exact .parted (.inr hphase) (.ended (.inr hphase) (hstruck.incomplete ending hphase))

/-- A sender that abides by a request heeds it as long as it lasts. -/
theorem Abides.heeds {found : Sender} (h : Abides found [] found) {more : Nat}
    (habort : ∀ a ∈ Action.trace env Sender.act more found w, a.state.moment.abort = true) :
    Heeds found (Action.trace env Sender.act more found w)
      (Action.run env Sender.act more found w) := by
  have hrun := @Action.invariant_trace_of _ _ Sender.act (fun a => a.state.moment.abort = true)
    (fun past s => Abides found past s ∧
      (∀ a ∈ past, (a.event.writes = true → a.event.cancels = true ∨ found.fetches = true ∧
          a.state.streaming = true ∧ ∃ piece, a.state.phase = .doing (.gathered piece)) ∧
        ∀ timeout reply, a.event = .read timeout reply → a.state.exchange? = found.exchange?) ∧
      past.countP (·.event.cancels) + s.farewells ≤ 1 ∧
      past.countP sends + s.fetches.toNat ≤ found.fetches.toNat) ?_ env more [] found w
    ⟨h, List.forall_mem_nil _, by simpa using farewells_le_one found, by simp⟩ habort
  · obtain ⟨habides, hall, hsignals, hpieces⟩ := hrun
    refine ⟨fun a ha => (hall a ha).1, Nat.le_of_add_right_le hsignals,
      Nat.le_of_add_right_le hpieces, fun a ha => (hall a ha).2, ?_⟩
    · intro ending hending
      have hphase : (Action.run env Sender.act more found w).state.phase = .over ending :=
        Party.phase_of_ending step_ne_stop hending
      cases habides with
      | doing hdoing =>
        rw [hphase] at hdoing
        cases hdoing
      | parted hparted hrelents =>
        rw [hphase] at hparted
        obtain rfl : ending = _ := by simpa using hparted
        exact hrelents
  · rintro past s ⟨habides, hall, hsignals, hpieces⟩
    -- The request lasts, so there is nothing to show of an act without it.
    by_cases habort : s.moment.abort = true
    · refine (habides.ensures_abides habort).mono ?_
      rintro event next ⟨hnext, hwrites, hreads, hsignals', hpieces'⟩ -
      have hone (p : Act Sender → Bool) (a : Act Sender) : [a].countP p = (p a).toNat := by
        cases h : p a <;> simp [h]
      refine ⟨hnext, ?_, ?_, ?_⟩
      · exact List.forall_mem_append.mpr ⟨hall, List.forall_mem_singleton.mpr ⟨hwrites, hreads⟩⟩
      · simp only [List.countP_append, hone]
        omega
      · simp only [List.countP_append, hone]
        omega
    · exact Action.ensures_of_forall (fun event next hp => absurd hp habort) _

end Struck

end Sender

end BlockTransfer
