import BlockTransfer.Proofs.Receiver.Course
import BlockTransfer.Proofs.Rehearsal
import BlockTransfer.Sink.Memory

/-!
# How a receiver makes progress

A receiver advances when it begins a file, has taken a block, or has completed a file. In between,
each failed attempt is counted, and too many of them end the transfer. So what it writes in between
is bounded, and in patient surroundings it does not wait for ever. There is one exception: a block
that comes again is acknowledged again, and this is not counted.

## Main definitions

* `Event.advances`: the transfer advances.
* `Receiver.repeats`: a repeated block is answered.
* `Receiver.charge`: the bytes that are written for anything else.
* `Receiver.outstanding`: what a receiver may still write before it advances.
* `Receiver.toil`: what is left to be done before it advances.

## Main results

* `Receiver.Going.ensures_outstanding` and `Receiver.Going.ensures_toil`: what an act takes of
  these.
* `Receiver.charge_le_and_exists_progress`: how much a receiver writes before it advances, and that
  it does.
* `Receiver.exists_written_ge_of_echo`: a receiver that answers the same block for ever.
-/

namespace BlockTransfer

namespace Event

/-- Whether a transfer advances: a file is begun, a block is reported, or a file is complete. -/
def advances : Event → Bool
  | .openFile _ (.ok _) | .report _ | .closeFile _ (.ok _) => true
  | _ => false

end Event

namespace Receiver

/-- Whether a receiver answers a block that it has accepted before. -/
def repeats (a : Act Receiver) : Bool :=
  match a.state.phase, a.event with
  | .doing (.judge .data (.block _)), .write _ _ | .doing (.repeated _), .write _ _ => true
  | _, _ => false

/-- The number of bytes that are written, but for the answers to repeated blocks. -/
def charge (a : Act Receiver) : Nat :=
  if repeats a then 0 else a.event.written

/-! ## What may still be written -/

/-- The number of bytes that a receiver may still write before it advances once it waits for a
block, if it does not have to answer repeated blocks. Each failure costs at most a signal and a
refusal, and in the middle of a file only one of them. The first end mark may be refused, and in the
end the peer may be told. -/
def share (s : Receiver) : Purpose → Nat
  | .solicited _ => 2 * s.allowance + 2
  | .data => s.allowance + (!s.job.endSeen).toNat + 3

/-- The number of bytes that a receiver may still write at a step before it advances. -/
def due (s : Receiver) : Step → Nat
  | .start | .solicit _ => 2 * s.options.config.maxRetries.toNat + 3
  -- A signal is written before the wait begins.
  | .attempt _ _ => 2 * s.allowance + 3
  | .expect purpose | .listen purpose _ | .collect purpose _ _ _ | .judge purpose _
  | .purge purpose _ | .refuse purpose => share s purpose
  | .missed purpose _ => share s purpose - 1
  | .nextBlock _ | .repeated _ => share s .data
  -- A header is acknowledged, and its data is asked for.
  | .announced _ => 4
  | .signal _ => 3
  | .openFile _ _ | .store _ _ | .settle | .storeLast _ | .closeFile => 2
  | .accept _ => 1
  | .counted _ | .finish => 0

section Turns

variable {s s' : Receiver} {step step' : Step} {event : Event}

/-- A receiver that goes on has retries left. -/
theorem Turns.retries_lt (h : Turns s step event s' step') (hpaced : s.Paced .start step) :
    s'.session.retries < s'.options.config.maxRetries.toNat := by
  have hbegun : step ≠ .start → s.session.retries < s.options.config.maxRetries.toNat :=
    fun hstep => hpaced.resolve_right fun h => hstep h.1
  cases h with
  | start hcheck =>
    rcases hpaced with hlt | ⟨-, hzero⟩
    · exact hlt
    · rw [hzero]
      exact Options.check_eq_none_iff.mp hcheck .maxRetries
  | solicit | first | header | openFile | counted => exact Nat.zero_lt_of_lt (hbegun nofun)
  | missedAnswer hretries | missedBlock hretries => exact hretries
  | speaks h =>
    cases h with
    | endOfBatch => exact Nat.zero_lt_of_lt (hbegun nofun)
    | _ => exact hbegun nofun
  | unanswered =>
    unfold fallBack
    dsimp only
    split <;> exact hbegun nofun
  | arrival htask =>
    refine hbegun ?_
    rintro rfl
    cases htask
  | _ => exact hbegun nofun

theorem two_le_share (s : Receiver) (purpose : Purpose) : 2 ≤ share s purpose := by
  cases purpose <;> simp [share]

theorem share_pred_add_one_le (s : Receiver) (purpose : Purpose) :
    share s purpose - 1 + 1 ≤ share s purpose := by
  have htwo := two_le_share s purpose
  omega

/-- Nothing is charged if nothing is written. -/
theorem charge_add_le {m n : Nat} (hwritten : event.written = 0) (h : m ≤ n) :
    charge ⟨s, event⟩ + m ≤ n := by
  unfold charge
  rw [hwritten]
  split <;> omega

/-- A signal costs at most one byte. -/
theorem charge_write_add_le {signal : Control} {reply : Except IoError Nat} {m n : Nat}
    (h : m + 1 ≤ n) : charge ⟨s, .write [signal.byte] reply⟩ + m ≤ n := by
  unfold charge
  split
  · omega
  · simp only [Event.written, List.length_singleton]
    omega

/-- The answer to a repeated block is not charged. -/
theorem charge_repeat_add_le {m n : Nat} (hrepeats : repeats ⟨s, event⟩ = true) (h : m ≤ n) :
    charge ⟨s, event⟩ + m ≤ n := by
  unfold charge
  rw [if_pos hrepeats]
  omega

/-- The signals that a receiver writes were due. -/
theorem Says.due_le {signal : Control} {moment : Moment} (h : Says s step signal s' step')
    (hlt : s.session.retries < s.options.config.maxRetries.toNat) (hphase : s.phase = .doing step) :
    charge ⟨s, .write [signal.byte] (.ok 1)⟩ + due { s' with moment } step' ≤ due s step := by
  have hleft : 1 ≤ s.allowance := by
    unfold Party.allowance
    omega
  cases h with
  | prompt | announced | signal | accept => exact charge_write_add_le (Nat.le_refl _)
  | @endOfBatch stage =>
    exact charge_write_add_le (Nat.le_of_succ_le (two_le_share s (.solicited stage)))
  | @endAgain stage => exact charge_write_add_le (share_pred_add_one_le s (.solicited stage))
  | @refuse purpose => exact charge_write_add_le (share_pred_add_one_le s purpose)
  | overdue => exact charge_write_add_le (share_pred_add_one_le s .data)
  | announcedStream => exact charge_write_add_le (Nat.le_succ 3)
  | again =>
    refine charge_repeat_add_le ?_ (Nat.le_refl _)
    simp [repeats, hphase]
  | repeated =>
    refine charge_repeat_add_le ?_ (Nat.le_refl _)
    simp [repeats, hphase]
  | endRefused hprotocol hfirst =>
    -- This happens only once, and a byte has been put by for it.
    refine charge_write_add_le ?_
    simp [due, share, hfirst, Party.allowance, Session.enter]
  | endTaken =>
    refine charge_write_add_le ?_
    simp [due, share]

/-- A receiver that goes on advances, or what it writes was due. -/
theorem Turns.due_le (h : Turns s step event s' step') (hpaced : s.Paced .start step)
    (hphase : s.phase = .doing step) :
    event.advances = true ∨ charge ⟨s, event⟩ + due s' step' ≤ due s step := by
  have hlt := h.retries_lt hpaced
  cases h with
  | openFile | counted | closeFile => exact .inl rfl
  | speaks h =>
    refine .inr (h.due_le ?_ hphase)
    refine hpaced.resolve_right ?_
    rintro ⟨rfl, -⟩
    cases h
  | start | solicit | expect | endMark | garbage | marker | silence | block | damaged | halted
  | purge | purged | takeUp | nextBlock | repeated | settle | settled | storeLast =>
    exact .inr (charge_add_le rfl (Nat.le_refl _))
  | attempt | accept | store => exact .inr (charge_add_le rfl (Nat.le_succ _))
  | arrival htask =>
    refine .inr (charge_add_le rfl ?_)
    cases step <;> cases htask <;> exact Nat.le_refl _
  | missedAnswer | missedBlock =>
    -- The failure is paid for with one that is still allowed.
    refine .inr (charge_add_le rfl ?_)
    simp only [due, share, Party.allowance, Party.mapSession, Session.recordRetry]
    omega
  | unanswered =>
    refine .inr (charge_add_le rfl ?_)
    unfold fallBack
    dsimp only
    split <;> exact Nat.sub_le _ _
  | @first stage => exact .inr (charge_add_le rfl (two_le_share s (.solicited stage)))
  | header =>
    refine .inr (charge_add_le rfl ?_)
    have hleft := hpaced.resolve_right nofun
    simp only [due, share, Party.allowance]
    omega
  | bounded | released => exact .inr (charge_add_le rfl (two_le_share s .data))
  | held => exact .inr (charge_add_le rfl (Nat.le_of_succ_le (two_le_share s .data)))

end Turns

section Kept

variable {s s' : Receiver} {step step' : Step} {event : Event}

/-- A receiver that goes on keeps its options. -/
theorem Turns.options_eq (h : Turns s step event s' step') : s'.options = s.options := by
  cases h with
  | speaks h => cases h <;> rfl
  | unanswered =>
    unfold fallBack
    dsimp only
    split <;> rfl
  | _ => rfl

/-- A receiver that goes on keeps to streams or to answers. -/
theorem Turns.streaming_eq (h : Turns s step event s' step') : s'.streaming = s.streaming := by
  cases h with
  | speaks h => cases h <;> rfl
  | unanswered =>
    unfold fallBack
    dsimp only
    split <;> rfl
  | _ => rfl

/-- A receiver of a batch always asks for blocks with the same signal. -/
theorem Turns.handshake_eq (h : Turns s step event s' step')
    (hprotocol : s.options.protocol = .ymodem) : s'.job.handshake = s.job.handshake := by
  cases h with
  | speaks h => cases h <;> rfl
  | unanswered => simp [fallBack, hprotocol]
  | _ => rfl

end Kept

/-- A receiver that has not come to its end is at a step that fits, with retries left. -/
def Going (options : Options) (s : Receiver) : Prop :=
  ∀ step, s.phase = .doing step → s.options = options ∧ s.Placed step ∧ s.Paced .start step

section Going

variable {options : Options} {s : Receiver}

theorem going_new (options : Options) (moment : Moment) : Going options (new options moment) := by
  rintro step ⟨⟩
  exact ⟨rfl, trivial, .inr ⟨rfl, rfl⟩⟩

theorem going_of_parted (h : s.Parted) : Going options s :=
  fun step hphase => absurd hphase (h.phase_ne step)

theorem Going.placed (h : Going options s) (step : Step) (hphase : s.phase = .doing step) :
    s.Placed step :=
  (h step hphase).2.1

/-- A receiver goes on as long as it has not come to its end. -/
theorem Going.ensures_going (h : Going options s) :
    (Receiver.act s).Ensures fun _ next => Going options next := by
  refine ensures_act_of_course h.placed ?_ ?_
  · intro step event next hphase hcourse
    obtain ⟨hoptions, hplaced, hpaced⟩ := h step hphase
    rcases hcourse.turns_or_parted with ⟨s', step', rfl, hturns⟩ | hparted
    · rintro _ ⟨⟩
      exact ⟨hturns.options_eq.trans hoptions, hturns.placed hplaced,
        .inl (hturns.retries_lt hpaced)⟩
    · exact going_of_parted hparted
  · rintro ending reply moment _ step ⟨⟩

end Going

/-- The number of bytes that a receiver may still write before it advances. -/
def outstanding (s : Receiver) : Nat :=
  match s.phase with
  | .doing step => due s step
  | .cancelling _ => 2
  | .over _ => 0

theorem outstanding_fail_le (s : Receiver) (e : TransferError) : outstanding (s.fail e) ≤ 2 := by
  unfold Party.fail outstanding
  dsimp only
  split
  · rename_i hphase
    split at hphase <;> cases hphase
  · exact Nat.le_refl 2
  · exact Nat.zero_le 2

/-- The peer is not told if the line does not take a signal. -/
theorem outstanding_fail_of_refuses (s : Receiver) {data : Bytes} {reply : Except IoError Nat}
    {e : TransferError} (h : Party.Refuses data reply e) : outstanding (s.fail e) = 0 := by
  cases h <;> rfl

section Bounds

variable {s s' : Receiver} {step step' : Step} {event : Event} {e : TransferError}

theorem Says.one_le_due {signal : Control} (h : Says s step signal s' step') :
    1 ≤ due s step := by
  have hone := fun purpose => Nat.le_of_succ_le (two_le_share s purpose)
  cases h with
  | prompt => exact Nat.le_add_left 1 _
  | @endOfBatch stage | @endAgain stage => exact hone (.solicited stage)
  | @refuse purpose => exact hone purpose
  | announced | announcedStream => exact Nat.le_add_left 1 3
  | signal => exact Nat.le_add_left 1 2
  | again | repeated | endRefused | endTaken | overdue => exact hone .data
  | accept => exact Nat.le_refl 1

/-- What a receiver writes when it fails was due. -/
theorem Breaks.due_le (h : Breaks s step event e) (hpaced : s.Paced .start step) (s' : Receiver) :
    charge ⟨s, event⟩ + outstanding (s'.fail e) ≤ due s step := by
  have htwo := two_le_share s
  have hfail := outstanding_fail_le s' e
  -- Wherever it fails, enough is left to tell the peer.
  cases h with
  | @cancelled purpose => exact charge_add_le rfl (hfail.trans (htwo purpose))
  | unread htask =>
    refine charge_add_le rfl (hfail.trans ?_)
    cases step with
    | listen purpose | collect purpose | purge purpose => exact htwo purpose
    | _ => exact absurd rfl htask
  | unwritten h hrefuses =>
    -- The signal that is lost is paid for, and there is no other one.
    rw [outstanding_fail_of_refuses s' hrefuses]
    exact charge_write_add_le h.one_le_due
  | @headless stage | @invalidHeader stage =>
    exact charge_add_le rfl (hfail.trans (htwo (.solicited stage)))
  | outOfSequence | streamCorrupted | streamHalted =>
    exact charge_add_le rfl (hfail.trans (htwo .data))
  | @exhausted purpose =>
    refine charge_add_le rfl (hfail.trans ?_)
    have hleft := hpaced.resolve_right nofun
    cases purpose <;> simp only [due, share, Party.allowance] <;> omega
  | unopened | unstored | unsettled | unclosed => exact charge_add_le rfl hfail

theorem due_le (hpaced : s.Paced .start step) :
    due s step ≤ 2 * s.options.config.maxRetries.toNat + 3 := by
  rcases hpaced with hlt | ⟨rfl, -⟩
  · have hunseen := Bool.toNat_le (!s.job.endSeen)
    have hshare : ∀ purpose, share s purpose ≤ 2 * s.options.config.maxRetries.toNat + 3 := by
      intro purpose
      cases purpose <;> simp only [share, Party.allowance] <;> omega
    cases step with
    | expect purpose | listen purpose | collect purpose | judge purpose | purge purpose
    | refuse purpose => exact hshare purpose
    | missed purpose => exact (Nat.sub_le _ _).trans (hshare purpose)
    | nextBlock | repeated => exact hshare .data
    | _ =>
      simp only [due, Party.allowance]
      omega
  · exact Nat.le_refl _

theorem outstanding_of_doing (h : s.phase = .doing step) : outstanding s = due s step := by
  rw [outstanding, h]

variable {options : Options}

theorem Going.outstanding_le (h : Going options s) :
    outstanding s ≤ 2 * options.config.maxRetries.toNat + 3 := by
  unfold outstanding
  cases hphase : s.phase with
  | doing step =>
    obtain ⟨rfl, -, hpaced⟩ := h step hphase
    exact due_le hpaced
  | cancelling => exact Nat.le_add_left 2 _
  | _ => exact Nat.zero_le _

/-- A receiver advances, or what it writes was due. -/
theorem Going.ensures_outstanding (h : Going options s) :
    (Receiver.act s).Ensures fun event next =>
      event.advances = true ∨ charge ⟨s, event⟩ + outstanding next ≤ outstanding s := by
  refine ensures_act_of_course h.placed ?_ ?_
  · intro step event next hphase hcourse
    obtain ⟨-, -, hpaced⟩ := h step hphase
    rw [outstanding_of_doing hphase]
    cases hcourse with
    | turns hturns => exact hturns.due_le hpaced hphase
    | breaks hbreaks => exact .inr (hbreaks.due_le hpaced _)
    | completes hcompletes =>
      cases hcompletes <;> exact .inr (charge_add_le rfl (Nat.zero_le _))
    | aborts hhalts =>
      refine .inr (charge_add_le rfl ?_)
      cases step with
      | attempt => exact Nat.le_add_left 2 _
      | nextBlock => exact two_le_share s .data
      | _ => cases hhalts
    | rejects => exact .inr (charge_add_le rfl (Nat.zero_le _))
  · intro ending reply moment hphase
    right
    simp [charge, repeats, outstanding, hphase, Event.written]

/-- As long as a receiver does not advance it writes no more than was due. -/
theorem Going.charge_le (h : Going options s) {ω : Type} (env : Surroundings ω) (acts : Nat) (w : ω)
    (hquiet : ∀ a ∈ Action.trace env act acts s w, a.event.advances = false) :
    ((Action.trace env act acts s w).map charge).sum ≤
      2 * options.config.maxRetries.toNat + 3 := by
  have hrun := @Action.invariant_trace_of _ _ act (fun a => a.event.advances = false)
    (fun past next => Going options next ∧ (past.map charge).sum + outstanding next ≤ outstanding s)
    ?_ env acts [] s w ⟨h, (Nat.zero_add _).le⟩ hquiet
  · exact (Nat.le_of_add_right_le hrun.2).trans h.outstanding_le
  · rintro past next ⟨hgoing, hpast⟩
    refine (hgoing.ensures_going.and hgoing.ensures_outstanding).mono ?_
    rintro event after ⟨hafter, hadvances⟩ hlast
    refine ⟨hafter, ?_⟩
    have hstep := hadvances.resolve_left (by simp [hlast])
    simp only [List.map_append, List.map_cons, List.map_nil, List.sum_append, List.sum_cons,
      List.sum_nil]
    omega

end Bounds

/-! ## What is left to be done -/

/-- How far a receiver that waits for a block is from advancing. -/
def Purpose.lap : Purpose → Nat
  | .solicited _ => 3
  | .data => 2

/-- How far a receiver is from advancing: it asks for a block, then waits for the blocks of a file,
then takes one. -/
def lap : Step → Nat
  | .start => 5
  | .solicit _ => 4
  | .attempt _ _ => 3
  | .expect purpose | .listen purpose _ | .collect purpose _ _ _ | .judge purpose _
  | .purge purpose _ | .refuse purpose | .missed purpose _ => purpose.lap
  | .announced _ | .signal _ | .openFile _ _ | .nextBlock _ | .repeated _ => 2
  | .store _ _ | .accept _ | .counted _ | .settle | .storeLast _ | .closeFile | .finish => 1

/-- How far a receiver is from its next attempt. -/
def rank : Step → Nat
  | .start | .solicit _ => 0
  | .repeated _ => 10
  | .attempt _ _ | .nextBlock _ => 9
  | .expect _ => 8
  | .listen _ _ => 7
  | .collect _ _ _ _ => 6
  | .judge _ _ => 5
  | .purge _ _ => 4
  | .refuse _ | .announced _ | .store _ _ => 3
  | .missed _ _ | .signal _ | .accept _ | .settle => 2
  | .openFile _ _ | .counted _ | .storeLast _ => 1
  | .closeFile | .finish => 0

/-- The number of attempts that are left: one for each failure that is still allowed, and one for
the end mark that may be refused. -/
def tries (s : Receiver) : Nat :=
  s.allowance + (!s.job.endSeen).toNat

/-- What is left to be done by a receiver while `queued` bytes are still to come: bytes that have
arrived count less than those that have not. -/
def toil (s : Receiver) (queued : Nat) : Effort :=
  s.burden fun step =>
    effort (lap step) (tries s) (rank step) (2 * queued + s.pending.length) 0

section Toil

variable {s s' : Receiver} {step step' : Step} {event : Event} {q q' : Nat}

theorem Purpose.two_le_lap (purpose : Purpose) : 2 ≤ purpose.lap := by
  cases purpose with
  | solicited => exact Nat.le_succ 2
  | data => exact Nat.le_refl 2

theorem lap_pos (step : Step) : 0 < lap step := by
  cases step with
  | expect purpose | listen purpose | collect purpose | judge purpose | purge purpose
  | refuse purpose | missed purpose =>
    exact Nat.lt_of_succ_le (Nat.le_of_succ_le purpose.two_le_lap)
  | _ => exact Nat.succ_pos _

/-- Less is left to be done after a signal, unless a repeated block is answered. -/
theorem Says.effort_lt {signal : Control} {moment : Moment} {n n' : Nat}
    (h : Says s step signal s' step') (hphase : s.phase = .doing step) :
    repeats ⟨s, .write [signal.byte] (.ok 1)⟩ = true ∨
      effort (lap step') (tries { s' with moment }) (rank step') n' 0 <
        effort (lap step) (tries s) (rank step) n 0 := by
  cases h with
  | again | repeated =>
    left
    simp [repeats, hphase]
  | prompt | endAgain | refuse | announced | announcedStream | signal | overdue | accept =>
    exact .inr (effort_lt_of_third le_rfl le_rfl (by simp [rank]))
  | endOfBatch | endTaken => exact .inr (effort_lt_of_first (by simp [lap, Purpose.lap]))
  | endRefused hprotocol hfirst =>
    refine .inr (effort_lt_of_second le_rfl ?_)
    simp [tries, Party.allowance, hfirst, Session.enter]

/-- A receiver that goes on advances, answers a repeated block, or has less left to be done. -/
theorem Turns.effort_lt (h : Turns s step event s' step') (hpaced : s.Paced .start step)
    (hphase : s.phase = .doing step) (hpunctual : s.Punctual event s')
    (hqueue : (∀ data reply, event ≠ .write data reply) → q' + event.arrived.length ≤ q) :
    event.advances = true ∨ repeats ⟨s, event⟩ = true ∨
      effort (lap step') (tries s') (rank step') (2 * q' + s'.pending.length) 0 <
        effort (lap step) (tries s) (rank step) (2 * q + s.pending.length) 0 := by
  cases h with
  | openFile | counted | closeFile => exact .inl rfl
  | speaks h => exact .inr (h.effort_lt hphase)
  | @arrival _ task task' timeout left arrived pending moment htask hlook hhear =>
    have hless := Line.Task.queue_lt_of_hear hlook hhear
      (fun harrived => hpunctual timeout (by rw [harrived])) (hqueue nofun)
    refine .inr (.inr (effort_lt_of_fourth ?_ le_rfl ?_ hless))
    · cases step <;> cases htask <;> rfl
    · cases step <;> cases htask <;> rfl
  -- These take the receiver nearer to advancing.
  | start | solicit | first | header | bounded | held | released =>
    exact .inr (.inr (effort_lt_of_first (by simp [lap, Purpose.lap])))
  | missedAnswer hretries | missedBlock hretries =>
    refine .inr (.inr (effort_lt_of_second le_rfl ?_))
    simp only [tries, Party.allowance, Party.mapSession, Session.recordRetry]
    omega
  | unanswered =>
    refine .inr (.inr ?_)
    unfold fallBack
    dsimp only
    split <;> exact effort_lt_of_third le_rfl le_rfl (by simp [rank])
  | _ =>
    exact .inr (.inr (effort_lt_of_third le_rfl le_rfl (by simp [rank])))

/-- A receiver advances, answers a repeated block, or has less left to be done after an act with a
punctual reply. -/
theorem Going.ensures_toil {options : Options} (h : Going options s) (q q' : Nat) :
    (Receiver.act s).Ensures fun event next => s.Punctual event next →
      ((∀ data reply, event ≠ .write data reply) → q' + event.arrived.length ≤ q) →
      event.advances = true ∨ repeats ⟨s, event⟩ = true ∨ toil next q' < toil s q := by
  refine ensures_act_of_course h.placed ?_ ?_
  · intro step event next hphase hcourse hpunctual hqueue
    rcases hcourse.turns_or_parted with ⟨s', step', rfl, hturns⟩ | hparted
    · rw [toil, toil, Party.burden_of_doing hphase, Party.burden_of_doing rfl]
      exact hturns.effort_lt (h step hphase).2.2 hphase hpunctual hqueue
    · refine .inr (.inr (Party.burden_lt_of_parted hparted hphase ?_))
      exact effort_lt_of_first (lap_pos step)
  · intro ending reply moment hphase _ _
    exact .inr (.inr (Party.burden_lt_of_cancelling rfl hphase))

end Toil

/-! ## Progress -/

section Progress

variable {ω : Type} {env : Surroundings ω} {good : ω → Prop} {queued : ω → Nat}

/-- In patient surroundings a receiver comes to its end, advances or answers a repeated block. -/
theorem Going.exists_progress (henv : env.Patient good queued) {options : Options} {s : Receiver}
    {w : ω} (h : Going options s) (hw : good w) (hmoment : s.moment = env.moment w) :
    ∃ acts, (Action.run env act acts s w).ending ≠ none ∨
      ∃ a ∈ Action.trace env act acts s w, a.event.advances = true ∨ repeats a = true := by
  refine @Action.exists_goal_of_measure _ _ env act _ _ wellFounded_lt
    (fun s w => toil s (queued w))
    (fun s w => Going options s ∧ good w ∧ s.moment = env.moment w) _ ?_ s w ⟨h, hw, hmoment⟩
  rintro s w s' w' ⟨h, hw, hmoment⟩ hstep
  obtain ⟨hw', hmoment', hpunctual⟩ := henv.of_step (attentive_act s) hw hmoment hstep
  have hreplies := Action.replies_of_step hstep
  have htoil := (h.ensures_toil (queued w) (queued w')).of_step hstep hpunctual
    (henv.queued_le hw hreplies)
  rw [← or_assoc] at htoil
  exact htoil.imp_right fun hlower => ⟨⟨h.ensures_going.of_step hstep, hw', hmoment'⟩, hlower⟩

/-- Between two points at which it advances a receiver writes at most so many bytes but for its
answers to repeated blocks; and in patient surroundings it comes to its end, advances or answers
another repeated block. -/
theorem charge_le_and_exists_progress (henv : env.Patient good queued) (options : Options) {w : ω}
    (hw : good w) (sofar : Nat) :
    let r := Action.run env act sofar (new options (env.moment w)) w
    (∀ acts, (∀ a ∈ Action.trace env act acts r.state r.world, a.event.advances = false) →
      ((Action.trace env act acts r.state r.world).map charge).sum ≤
        2 * options.config.maxRetries.toNat + 3) ∧
    ∃ acts, (Action.run env act acts r.state r.world).ending ≠ none ∨
      ∃ a ∈ Action.trace env act acts r.state r.world,
        a.event.advances = true ∨ repeats a = true := by
  have hrun := @Action.invariant_run _ _ env act
    (fun _ s w => Going options s ∧ good w ∧ s.moment = env.moment w) ?_ sofar []
    (new options (env.moment w)) w ⟨going_new options _, hw, rfl⟩
  · obtain ⟨hgoing, hgood, hmoment⟩ := hrun
    exact ⟨fun acts hquiet => hgoing.charge_le env acts _ hquiet,
      hgoing.exists_progress henv hgood hmoment⟩
  · rintro past s w s' w' ⟨hgoing, hw, hmoment⟩ hstep
    obtain ⟨hw', hmoment', -⟩ := henv.of_step (attentive_act s) hw hmoment hstep
    exact ⟨hgoing.ensures_going.of_step hstep, hw', hmoment'⟩

/-- A receiver whose sender repeats the first block twice. -/
theorem charge_le_and_exists_progress_repeating :
    let setup : Script.Setup MemorySink := { sink := MemorySink.sink }
    let options : Options := { protocol := .xmodem, variant := .checksum }
    let block := (Block.padded 1 [97, 98, 99] .short 0).encode .checksum
    let play : Script.Play :=
      { replies := [[⟨0, .ok (block ++ block)⟩, ⟨0, .ok block⟩]], rest := [⟨0, .ok [4]⟩] }
    let env := Script.World.surroundings setup
    let w := Script.World.new setup play [] {}
    let r := Action.run env act 13 (new options (env.moment w)) w
    w.wire.Substantial ∧
    (∀ acts, (∀ a ∈ Action.trace env act acts r.state r.world, a.event.advances = false) →
      ((Action.trace env act acts r.state r.world).map charge).sum ≤ 23) ∧
    ∃ acts, (Action.run env act acts r.state r.world).ending ≠ none ∨
      ∃ a ∈ Action.trace env act acts r.state r.world,
        a.event.advances = true ∨ repeats a = true := by
  intro setup options block play env w r
  have hsubstantial : w.wire.Substantial :=
    Script.Wire.substantial_ofPlay (by decide) (by decide) (by decide)
  exact ⟨hsubstantial,
    charge_le_and_exists_progress (Script.World.patient setup) options hsubstantial 13⟩

end Progress

/-! ## Repetitions -/

/-- Surroundings in which every write is answered with the same bytes. The state tells whether they
are on their way, and the time. -/
def echo (answer : Bytes) : Surroundings (Bool × Nat) where
  read w timeout := if w.1 then (.ok answer, (false, w.2)) else (.ok [], (false, w.2 + timeout))
  write w data := (.ok data.length, (true, w.2))
  report w _ := w
  fetch w _ _ := (.ok [], w)
  openFile w _ := (.ok (), w)
  store w _ := (.ok (), w)
  closeFile w _ := (.ok (), w)
  moment w := ⟨w.2, false⟩

/-- An answer of finitely many bytes keeps no party waiting for ever. -/
theorem patient_echo {answer : Bytes} (h : answer ≠ []) :
    (echo answer).Patient (fun _ => True) fun w => if w.1 then answer.length else 0 where
  good_of_replies _ _ := trivial
  queued_le {w} _ _ _ hreplies hevent := by
    obtain ⟨sent, now⟩ := w
    cases hreplies with
    | read timeout => cases sent <;> simp [echo, Event.arrived]
    | write data => exact absurd rfl (hevent _ _)
    | _ => exact Nat.le_refl _
  now_eq {w} w' timeout _ hreplies := by
    obtain ⟨sent, now⟩ := w
    generalize hevent : Event.read timeout (.ok []) = event at hreplies
    cases hreplies with
    | read =>
      cases sent with
      | false =>
        cases hevent
        rfl
      | true =>
        injection hevent with _ hreply
        injection hreply with hreply
        exact absurd hreply.symm h
    | _ => cases hevent

/-- A receiver that is sent the first block of a file again and again answers it for ever, however
few retries it has. -/
theorem exists_written_ge_of_echo :
    let options : Options :=
      { protocol := .xmodem, variant := .checksum, config := { maxRetries := 2 } }
    let answer := (Block.padded 1 [97, 98, 99] .short 0).encode .checksum
    let r := Action.run (echo answer) act 13 (new options ⟨0, false⟩) (false, 0)
    options.check = none ∧
    (echo answer).Patient (fun _ => True) (fun w => if w.1 then answer.length else 0) ∧
    ∀ n, ∃ acts, (Action.run (echo answer) act acts r.state r.world).ending = none ∧
      (∀ a ∈ Action.trace (echo answer) act acts r.state r.world, a.event.advances = false) ∧
      n ≤ ((Action.trace (echo answer) act acts r.state r.world).map (·.event.written)).sum := by
  intro options answer r
  -- The answer to a repeated block leads back to where the receiver was.
  have hending : (Action.run (echo answer) act 7 r.state r.world).ending = none := by
    decide +kernel
  have hstate : (Action.run (echo answer) act 7 r.state r.world).state = r.state := by
    decide +kernel
  have hworld : (Action.run (echo answer) act 7 r.state r.world).world = r.world := by
    decide +kernel
  have hquiet : ∀ a ∈ Action.trace (echo answer) act 7 r.state r.world,
      a.event.advances = false := by
    decide +kernel
  have hwritten : ((Action.trace (echo answer) act 7 r.state r.world).map
      (·.event.written)).sum = 1 := by
    decide +kernel
  refine ⟨by decide, patient_echo (by decide), ?_⟩
  intro n
  obtain ⟨hrun, htrace⟩ := Action.run_mul_of_cycle hending hstate hworld n
  refine ⟨n * 7, hrun, ?_, ?_⟩
  · intro a ha
    rw [htrace] at ha
    obtain ⟨acts, hacts, ha⟩ := List.mem_flatten.mp ha
    rw [List.eq_of_mem_replicate hacts] at ha
    exact hquiet a ha
  · rw [htrace, List.map_flatten, List.map_replicate]
    clear hrun htrace
    induction n with
    | zero => exact Nat.zero_le _
    | succ n ih =>
      rw [List.replicate_succ, List.flatten_cons, List.sum_append, hwritten]
      omega

end Receiver

end BlockTransfer
