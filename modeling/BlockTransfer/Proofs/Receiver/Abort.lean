import BlockTransfer.Proofs.Endings

/-!
# A receiver of which a stop is requested

A receiver looks for a request to stop before it asks for a block and before it takes up the next
block of a file. So after a request it reacts to at most one more block, with at most two signals.

## Main definitions

* `Receiver.Heeds`: what a receiver does after a request.
* `Receiver.Relents`: how its run ends.
* `Receiver.backlog`: what is left to be done after a request.

## Main results

* `Receiver.Sound.heeds`: a receiver heeds a request.
* `Receiver.Sound.exists_ending`: a receiver comes to its end after a request.
-/

namespace BlockTransfer

namespace Receiver

namespace Step

/-- The number of bytes that a receiver may still write at a step before it looks for a request to
stop. -/
def allows : Step → Nat
  | .expect _ | .listen _ _ | .collect _ _ _ _ | .judge _ _ | .announced _ => 2
  | .purge _ _ | .refuse _ | .signal _ | .repeated _ | .store _ _ | .accept _ => 1
  | _ => 0

/-- The number of steps that a receiver takes at most before it looks for a request to stop. -/
def height : Step → Nat
  | .attempt _ _ | .nextBlock _ | .finish => 0
  | .solicit _ | .missed _ _ | .repeated _ | .counted _ | .openFile _ _ => 1
  | .start | .closeFile | .refuse _ | .accept _ | .signal _ => 2
  | .storeLast _ | .purge _ _ | .store _ _ | .announced _ => 3
  | .settle => 4
  | .judge _ _ => 5
  | .collect _ _ _ _ => 6
  | .listen _ _ => 7
  | .expect _ => 8

end Step

/-- Whether a receiver is about to wait for a block. -/
def expects (s : Receiver) : Bool :=
  match s.phase with
  | .doing (.expect _) => true
  | _ => false

/-- The number of bytes that are written but for the cancel signal. -/
def spoken (event : Event) : Nat :=
  if event.cancels then 0 else event.written

/-- How the run of a receiver ends if the request to stop has found it in a state and it has acted a
number of times since. -/
inductive Relents (found : Receiver) (after : List (Act Receiver)) : Ending → Prop
  /-- The act before the request was the end of it. -/
  | ended {ending : Ending}
      (hphase : found.phase = .cancelling ending ∨ found.phase = .over ending) :
    Relents found after ending
  /-- The request is heeded. -/
  | aborted : Relents found after (.ok .aborted)
  /-- What has come, or its answer, fails. -/
  | failed {a : Act Receiver} {step : Step} {e : TransferError} (ha : a ∈ after)
      (hphase : a.state.phase = .doing step) (hbreaks : Breaks a.state step a.event e) :
    Relents found after (.error e)
  /-- What has come was the end of the transfer. -/
  | completed {a : Act Receiver} {step : Step} {summary : Summary} (ha : a ∈ after)
      (hphase : a.state.phase = .doing step) (hcompletes : Completes a.state step a.event) :
    Relents found after (.ok (.completed summary))

/-- What a receiver does after a request to stop has found it in a state. -/
structure Heeds (found : Receiver) (after : List (Act Receiver)) (r : Action.Run Receiver ω) :
    Prop where
  /-- It begins to wait for a block at most once. -/
  expects_le : after.countP (expects ·.state) ≤ 1
  /-- It writes at most two bytes beside the cancel signal. -/
  spoken_le : (after.map (spoken ·.event)).sum ≤ 2
  /-- The run ends like this. -/
  relents : ∀ ending, r.ending = some ending → Relents found after ending

section Steps

variable {s s' : Receiver} {step step' : Step} {event : Event}

theorem spoken_write_le {signal : Control} {reply : Except IoError Nat} :
    spoken (.write [signal.byte] reply) ≤ 1 := by
  unfold spoken
  split
  · exact Nat.zero_le 1
  · exact Nat.le_refl 1

/-- What a receiver writes after a request has been taken into account. -/
theorem Says.allows_lt {signal : Control} (h : Says s step signal s' step')
    (habort : s.moment.abort = true) : step'.allows < step.allows := by
  cases h with
  -- No block is asked for any more.
  | prompt hcalm => simp [habort] at hcalm
  | _ => simp [Step.allows]

theorem Turns.allows_le (h : Turns s step event s' step') (habort : s.moment.abort = true) :
    spoken event + step'.allows ≤ step.allows := by
  cases h with
  | speaks h =>
    have hless := h.allows_lt habort
    exact (Nat.add_le_add_right spoken_write_le _).trans (by omega)
  | attempt hcalm | takeUp hcalm | nextBlock hcalm => simp [habort] at hcalm
  | arrival htask =>
    cases step <;> cases htask <;> simp [spoken, Event.written, Step.rewait, Step.allows]
  | _ => simp [spoken, Event.written, Event.cancels, Step.allows]

theorem Breaks.allows_le {e : TransferError} (h : Breaks s step event e)
    (habort : s.moment.abort = true) : spoken event ≤ step.allows := by
  cases h with
  | unwritten h =>
    have hless := h.allows_lt habort
    exact spoken_write_le.trans (by omega)
  | _ => simp [spoken, Event.written]

theorem Turns.ne_expect (h : Turns s step event s' step') (habort : s.moment.abort = true)
    (purpose : Purpose) : step' ≠ .expect purpose := by
  cases h with
  | speaks h =>
    cases h with
    | prompt hcalm => simp [habort] at hcalm
    | _ => exact nofun
  | attempt hcalm | takeUp hcalm | nextBlock hcalm => simp [habort] at hcalm
  | arrival htask => cases step <;> cases htask <;> exact nofun
  | _ => exact nofun

end Steps

/-! ## After the request -/

/-- What is known of a receiver at any point of its run. -/
structure Sound (s : Receiver) : Prop where
  /-- It is at a step that fits. -/
  placed : ∀ step, s.phase = .doing step → s.Placed step
  /-- It is about to begin only with options with which it can. -/
  fit : s.phase = .doing .start → s.options.check = none

/-- How a receiver stands when a request to stop has found it in a state and it has acted a number
of times since. -/
inductive Abides (found : Receiver) (past : List (Act Receiver)) (s : Receiver) : Prop
  /-- It is on its way to the point at which it looks for a request. -/
  | doing {step : Step} (hphase : s.phase = .doing step)
  /-- It has come to its end. -/
  | parted {ending : Ending} (hphase : s.phase = .cancelling ending ∨ s.phase = .over ending)
      (hrelents : Relents found past ending)

/-- The number of bytes that a receiver may still write after a request, beside the cancel
signal. -/
def credit (s : Receiver) : Nat :=
  match s.phase with
  | .doing step => step.allows
  | _ => 0

section Abides

variable {found s : Receiver} {past : List (Act Receiver)} {step : Step} {event : Event}

theorem credit_of_parted (h : s.Parted) : credit s = 0 := by
  obtain ⟨ending, h | h⟩ := h <;> rw [credit, h]

theorem expects_of_parted (h : s.Parted) : expects s = false := by
  obtain ⟨ending, h | h⟩ := h <;> rw [expects, h]

/-- A receiver gets from sound states to sound states. -/
theorem Sound.ensures_sound (h : Sound s) :
    (Receiver.act s).Ensures fun _ next => Sound next := by
  have hparted : ∀ s' : Receiver, s'.Parted → Sound s' := fun s' hs' =>
    ⟨fun step hphase => absurd hphase (hs'.phase_ne step),
      fun hphase => absurd hphase (hs'.phase_ne _)⟩
  refine ensures_act_of_course h.placed ?_ ?_
  · intro step event next hphase hcourse
    rcases hcourse.turns_or_parted with ⟨s', step', rfl, hturns⟩ | hnext
    · refine ⟨?_, ?_⟩
      · rintro _ ⟨⟩
        exact hturns.placed (h.placed step hphase)
      · rintro ⟨⟩
        exact absurd rfl hturns.ne_start
    · exact hparted _ hnext
  · exact fun ending reply moment _ => hparted _ ⟨ending, .inr rfl⟩

theorem Relents.append {ending : Ending} (h : Relents found past ending) (a : Act Receiver) :
    Relents found (past ++ [a]) ending := by
  cases h with
  | ended hphase => exact .ended hphase
  | aborted => exact .aborted
  | failed ha hphase hbreaks => exact .failed (List.mem_append_left _ ha) hphase hbreaks
  | completed ha hphase hcompletes =>
    exact .completed (List.mem_append_left _ ha) hphase hcompletes

/-- A receiver abides by a request with all its acts. -/
theorem Abides.ensures_abides (h : Abides found past s) (hsound : Sound s)
    (habort : s.moment.abort = true) :
    (Receiver.act s).Ensures fun event next => Abides found (past ++ [⟨s, event⟩]) next ∧
      expects next = false ∧ spoken event + credit next ≤ credit s := by
  refine ensures_act_of_course hsound.placed ?_ ?_
  · intro step event next hphase hcourse
    have hlast : (⟨s, event⟩ : Act Receiver) ∈ past ++ [⟨s, event⟩] :=
      List.mem_append_right _ (List.mem_singleton_self _)
    have hcredit : credit s = step.allows := by rw [credit, hphase]
    rw [hcredit]
    cases hcourse with
    | @turns _ step' _ s' hturns =>
      refine ⟨.doing rfl, ?_, hturns.allows_le habort⟩
      have hne := hturns.ne_expect habort
      cases step' with
      | expect purpose => exact absurd rfl (hne purpose)
      | _ => rfl
    | @breaks _ _ s' e hbreaks =>
      have hparted := Party.parted_fail s' e
      refine ⟨.parted (Party.phase_fail s' e) (.failed hlast hphase hbreaks),
        expects_of_parted hparted, ?_⟩
      rw [credit_of_parted hparted]
      exact hbreaks.allows_le habort
    | completes hcompletes =>
      refine ⟨.parted (.inr rfl) (.completed hlast hphase hcompletes), rfl, ?_⟩
      cases hcompletes <;> exact Nat.zero_le _
    | aborts => exact ⟨.parted (.inl rfl) .aborted, rfl, Nat.zero_le _⟩
    | rejects hcheck => exact absurd (hsound.fit hphase) hcheck
  · intro ending reply moment hphase
    cases h with
    | doing hphase' => simp [hphase] at hphase'
    | parted hparted hrelents =>
      rw [hphase] at hparted
      obtain rfl : ending = _ := by simpa using hparted
      exact ⟨.parted (.inr rfl) (hrelents.append _), rfl, by simp [spoken, Event.cancels, credit]⟩

theorem credit_le_two (s : Receiver) : credit s ≤ 2 := by
  unfold credit
  cases s.phase with
  | doing step => cases step <;> simp [Step.allows]
  | _ => exact Nat.zero_le 2

/-- Where a request to stop finds a receiver. -/
theorem abides_self (s : Receiver) : Abides s [] s := by
  cases hphase : s.phase with
  | doing => exact .doing hphase
  | cancelling => exact .parted (.inl hphase) (.ended (.inl hphase))
  | _ => exact .parted (.inr hphase) (.ended (.inr hphase))

variable {ω : Type} {env : Surroundings ω} {w : ω}

/-- A receiver heeds a request to stop as long as it lasts. -/
theorem Sound.heeds (hsound : Sound found) {more : Nat}
    (habort : ∀ a ∈ Action.trace env Receiver.act more found w, a.state.moment.abort = true) :
    Heeds found (Action.trace env Receiver.act more found w)
      (Action.run env Receiver.act more found w) := by
  have hrun := @Action.invariant_trace_of _ _ Receiver.act (fun a => a.state.moment.abort = true)
    (fun past s => Sound s ∧ Abides found past s ∧
      past.countP (expects ·.state) + (expects s).toNat ≤ 1 ∧
      (past.map (spoken ·.event)).sum + credit s ≤ 2) ?_ env more [] found w
    ⟨hsound, abides_self found, ?_, ?_⟩ habort
  · obtain ⟨-, habides, hexpects, hspoken⟩ := hrun
    refine ⟨Nat.le_of_add_right_le hexpects, Nat.le_of_add_right_le hspoken, ?_⟩
    intro ending hending
    have hphase : (Action.run env Receiver.act more found w).state.phase = .over ending :=
      Party.phase_of_ending step_ne_stop hending
    cases habides with
    | doing hdoing =>
      rw [hphase] at hdoing
      cases hdoing
    | parted hparted hrelents =>
      rw [hphase] at hparted
      obtain rfl : ending = _ := by simpa using hparted
      exact hrelents
  · rintro past s ⟨hsound, habides, hexpects, hspoken⟩
    -- The request lasts, so there is nothing to show of an act without it.
    by_cases habort : s.moment.abort = true
    · refine (hsound.ensures_sound.and (habides.ensures_abides hsound habort)).mono ?_
      rintro event next ⟨hsound', hnext, hexpects', hcredit⟩ -
      refine ⟨hsound', hnext, ?_, ?_⟩
      · -- Only the state in which the request finds the receiver may be such a wait.
        have hone : [(⟨s, event⟩ : Act Receiver)].countP (expects ·.state) = (expects s).toNat := by
          cases h : expects s <;> simp [h]
        rw [List.countP_append, hone, hexpects']
        exact hexpects
      · simp only [List.map_append, List.map_cons, List.map_nil, List.sum_append, List.sum_cons,
          List.sum_nil]
        omega
    · exact Action.ensures_of_forall (fun event next hp => absurd hp habort) _
  · simpa using Bool.toNat_le (expects found)
  · simpa using credit_le_two found

end Abides

/-! ## The end after the request -/

/-- What is left to be done after a request to stop while `queued` bytes are still to come. -/
def backlog (s : Receiver) (queued : Nat) : Effort :=
  s.burden fun step => effort (step.height + 1) (2 * queued + s.pending.length) 0 0 0

section Backlog

variable {s s' : Receiver} {step step' : Step} {event : Event} {q q' : Nat}

/-- A receiver that goes on after a request has less left to be done. -/
theorem Turns.backlog_lt (h : Turns s step event s' step') (habort : s.moment.abort = true)
    (hpunctual : s.Punctual event s')
    (hqueue : (∀ data reply, event ≠ .write data reply) → q' + event.arrived.length ≤ q) :
    effort (step'.height + 1) (2 * q' + s'.pending.length) 0 0 0 <
      effort (step.height + 1) (2 * q + s.pending.length) 0 0 0 := by
  cases h with
  | attempt hcalm | takeUp hcalm | nextBlock hcalm => simp [habort] at hcalm
  | speaks h =>
    cases h with
    | prompt hcalm => simp [habort] at hcalm
    | _ => exact effort_lt_of_first (by simp [Step.height])
  | @arrival _ task task' timeout left arrived pending moment htask hlook hhear =>
    have hless := Line.Task.queue_lt_of_hear hlook hhear
      (fun harrived => hpunctual timeout (by rw [harrived])) (hqueue nofun)
    refine effort_lt_of_second ?_ hless
    cases step <;> cases htask <;> rfl
  | _ => exact effort_lt_of_first (by simp [Step.height])

/-- After a request a receiver has less left to be done with each act that gets a punctual reply. -/
theorem Sound.ensures_backlog (h : Sound s) (habort : s.moment.abort = true) (q q' : Nat) :
    (Receiver.act s).Ensures fun event next => s.Punctual event next →
      ((∀ data reply, event ≠ .write data reply) → q' + event.arrived.length ≤ q) →
      backlog next q' < backlog s q := by
  refine ensures_act_of_course h.placed ?_ ?_
  · intro step event next hphase hcourse hpunctual hqueue
    rcases hcourse.turns_or_parted with ⟨s', step', rfl, hturns⟩ | hparted
    · rw [backlog, backlog, Party.burden_of_doing hphase, Party.burden_of_doing rfl]
      exact hturns.backlog_lt habort hpunctual hqueue
    · exact Party.burden_lt_of_parted hparted hphase (effort_lt_of_first (Nat.succ_pos _))
  · intro ending reply moment hphase _ _
    exact Party.burden_lt_of_cancelling rfl hphase

variable {ω : Type} {env : Surroundings ω} {good : ω → Prop} {queued : ω → Nat} {w : ω}

/-- In patient surroundings a receiver of which a stop is requested comes to its end. -/
theorem Sound.exists_ending (h : Sound s) (henv : env.Patient good queued) (hw : good w)
    (hmoment : s.moment = env.moment w)
    (habort : ∀ more, (Action.run env Receiver.act more s w).state.moment.abort = true) :
    ∃ more, (Action.run env Receiver.act more s w).ending ≠ none := by
  refine @Surroundings.Patient.exists_ending _ _ _ _ _ _ _ _ _ wellFounded_lt henv attentive_act
    (fun s w => backlog s (queued w))
    (fun s w => Sound s ∧ ∀ more, (Action.run env Receiver.act more s w).state.moment.abort = true)
    ?_ ?_ s w hw hmoment ⟨h, habort⟩
  · rintro s w s' w' ⟨h, habort⟩ hstep
    exact ⟨h.ensures_sound.of_step hstep, Party.abort_run_of_step habort hstep⟩
  · rintro s w s' w' ⟨h, habort⟩ hw hstep hpunctual
    have hreplies := Action.replies_of_step hstep
    exact (h.ensures_backlog (habort 0) _ _).of_step hstep hpunctual (henv.queued_le hw hreplies)

end Backlog

end Receiver

end BlockTransfer
