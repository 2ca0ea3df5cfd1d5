import BlockTransfer.Proofs.Sender.Course

/-!
# How a sender makes progress

A sender has less left to do after each of its acts: a file that has been sent is not sent again, a
piece of a file that has been fetched is not fetched again, and in between a sender gets from step
to step, repeats itself at most as often as it may, and waits for what is still to come.

## Main definitions

* `Sender.Going`: a sender has not used up its retries.
* `Sender.toil`: what is left to be done.

## Main results

* `Sender.Going.ensures_toil`: every act leaves less to be done.
* `Sender.Going.exists_ending`: a sender comes to its end in patient surroundings with finite files.
-/

namespace BlockTransfer

namespace Sender

/-! ## Retries -/

/-- A sender that goes on has retries left. -/
theorem Turns.retries_lt {s s' : Sender} {step step' : Step} {event : Event}
    (h : Turns s step event s' step') (hpaced : s.Paced .start step) :
    s'.session.retries < s'.options.config.maxRetries.toNat := by
  have hbegun : step ≠ .start → s.session.retries < s.options.config.maxRetries.toNat :=
    fun hstep => hpaced.resolve_right fun h => hstep h.1
  cases h with
  | start hcheck =>
    rcases hpaced with hlt | ⟨-, hzero⟩
    · exact hlt
    · rw [hzero]
      exact Options.check_eq_none_iff.mp hcheck .maxRetries
  | noise htask | arrival htask =>
    refine hbegun ?_
    rintro rfl
    exact absurd htask nofun
  | lapse _ _ hretries | refused _ hretries | unanswered _ _ hretries => exact hretries
  | await | invited | beginData | beginHeader | beginEndOfBatch | headerDone | blockDone | fileDone
  | beginEndOfFile | beginBlock | counted => exact Nat.zero_lt_of_lt (hbegun nofun)
  | _ => exact hbegun nofun

/-- A sender that has not come to its end is at a step that fits, with retries left. -/
def Going (s : Sender) : Prop :=
  ∀ step, s.phase = .doing step → s.Placed step ∧ s.Paced .start step

theorem going_new (options : Options) (files : List FileHeader) (moment : Moment) :
    Going (new options files moment) := by
  rintro step ⟨⟩
  exact ⟨⟨nofun, nofun⟩, .inr ⟨rfl, rfl⟩⟩

theorem going_of_parted {s : Sender} (h : s.Parted) : Going s :=
  fun step hphase => absurd hphase (h.phase_ne step)

/-- A sender goes on as long as it has not come to its end. -/
theorem Going.ensures_going {s : Sender} (h : Going s) :
    (Sender.act s).Ensures fun _ next => Going next := by
  refine ensures_act_of_course (fun step hphase => (h step hphase).1) ?_ ?_
  · intro step event next hphase hcourse
    obtain ⟨hplaced, hpaced⟩ := h step hphase
    rcases hcourse.turns_or_parted with ⟨s', step', rfl, hturns⟩ | hparted
    · rintro _ ⟨⟩
      have hplaced' := hturns.placed hplaced
      exact ⟨⟨hplaced'.files_ne_nil, hplaced'.timed⟩, .inl (hturns.retries_lt hpaced)⟩
    · exact going_of_parted hparted
  · rintro ending reply moment _ step ⟨⟩

/-! ## What is left to be done -/

/-- How far a sender that has been invited is from the end of the file. -/
def Invitation.lap : Invitation → Nat
  | .file | .endOfBatch => 19
  | .data => 14

/-- How far a sender whose item has been acknowledged is from the end of the file. -/
def Item.lap : Item → Nat
  | .header | .endOfBatch => 17
  | .block _ => 6
  | .endOfFile => 0

/-- How far a sender is from the end of the file, unless another piece of it is fetched. -/
def lap : Step → Nat
  | .start => 23
  | .nextFile => 22
  | .await invitation => invitation.lap + 2
  | .attempt invitation | .listen invitation _ => invitation.lap + 1
  | .invited invitation => invitation.lap
  | .streamHeader => 18
  | .offer item _ | .sent item _ | .answer item _ _ => item.lap + 1
  | .acknowledged item => item.lap
  | .nextPiece => 4
  -- The first part of a piece takes the sender back, but leaves less of the file.
  | .gather piece => if piece.isEmpty then 3 else 9
  | .gathered piece => if piece.isEmpty then 2 else 8
  | .drain _ => 7
  | .counted _ => 5

/-- What is left to be done in an exchange: a number of steps for each failure that is still
allowed, and for the refusal that does not count. -/
def tries (s : Sender) : Step → Nat
  | .attempt _ => 6 * s.allowance + 1
  | .listen _ _ => 6 * s.allowance
  | .offer _ spare => 6 * s.allowance + 3 * spare.toNat + 2
  | .sent _ spare => 6 * s.allowance + 3 * spare.toNat + 1
  | .answer _ spare _ => 6 * s.allowance + 3 * spare.toNat
  | _ => 0

/-- What is left to be done by a sender while `supply` bytes of the files and `queued` bytes from
the line are still to come. -/
def toil (s : Sender) (supply queued : Nat) : Effort :=
  s.burden fun step =>
    effort (s.job.files.length + 1) supply (lap step) (tries s step) (2 * queued + s.pending.length)

section Toil

variable {s s' : Sender} {step step' : Step} {event : Event} {v v' q q' : Nat}

theorem lap_gathered_lt (piece : Bytes) : lap (.gathered piece) < lap (.gather piece) := by
  cases piece <;> simp [lap]

/-- A sender that goes on has less left to be done. -/
theorem Turns.effort_lt (h : Turns s step event s' step') (hplaced : s.Placed step)
    (hpunctual : s.Punctual event s')
    (hqueue : (∀ data reply, event ≠ .write data reply) → q' + event.arrived.length ≤ q)
    (hsupply : v' + event.feeds.toNat ≤ v) :
    effort (s'.job.files.length + 1) v' (lap step') (tries s' step')
        (2 * q' + s'.pending.length) <
      effort (s.job.files.length + 1) v (lap step) (tries s step) (2 * q + s.pending.length) := by
  have hle : v' ≤ v := Nat.le_of_add_right_le hsupply
  cases h with
  | noise _ hpending =>
    -- A byte less is in the queue.
    have hless : q' ≤ q := hqueue nofun
    refine effort_lt_of_fifth le_rfl hle le_rfl ?_ ?_
    · cases step <;> exact le_rfl
    · rw [hpending, List.length_cons]
      dsimp only
      omega
  | @arrival _ task timeout arrived moment htask hpending hlook hhear =>
    have hless := Line.Task.queue_lt_of_hear hlook hhear
      (fun harrived => hpunctual timeout (by rw [harrived])) (hqueue nofun)
    rw [hpending]
    refine effort_lt_of_fifth le_rfl hle le_rfl ?_ hless
    cases step <;> exact le_rfl
  | attempt | offer | sent =>
    refine effort_lt_of_fourth le_rfl hle le_rfl ?_
    simp [tries, Party.allowance]
  | spared =>
    refine effort_lt_of_fourth le_rfl hle le_rfl ?_
    simp [tries, Party.allowance]
  | lapse _ _ hretries | refused _ hretries | unanswered _ _ hretries =>
    -- One failure less is allowed.
    refine effort_lt_of_fourth le_rfl hle le_rfl ?_
    simp only [tries, Party.allowance, Party.mapSession, Session.recordRetry]
    omega
  | interrupted hkind =>
    -- The file is interrupted only so many times.
    refine effort_lt_of_second le_rfl ?_
    simp only [Event.feeds, hkind, decide_true, Bool.toNat_true] at hsupply
    omega
  | @gather _ data _ _ hdata =>
    refine effort_lt_of_second le_rfl ?_
    have hsome : data.isEmpty = false := List.isEmpty_eq_false_iff.mpr hdata
    simp only [Event.feeds, hsome, Bool.not_false, Bool.toNat_true] at hsupply
    omega
  | @gathered piece data =>
    cases data with
    | nil =>
      -- The file has ended.
      rw [List.take_nil, List.append_nil]
      exact effort_lt_of_third le_rfl hle (lap_gathered_lt piece)
    | cons =>
      refine effort_lt_of_second le_rfl ?_
      simp only [Event.feeds, List.isEmpty_cons, Bool.not_false, Bool.toNat_true] at hsupply
      omega
  | fileDone =>
    -- A file less is to be sent.
    refine effort_lt_of_first ?_
    have hpos := List.length_pos_iff.mpr (hplaced.files_ne_nil rfl)
    dsimp only
    rw [List.length_tail]
    omega
  | @beginData invitation _ _ _ hdata =>
    refine effort_lt_of_third le_rfl hle ?_
    rcases hdata with rfl | ⟨rfl, -⟩ <;> simp [lap, Invitation.lap]
  | beginBlock hpiece | streamed hpiece =>
    refine effort_lt_of_third le_rfl hle ?_
    simp [lap, Item.lap, hpiece]
  | _ => exact effort_lt_of_third le_rfl hle (by simp [lap, Invitation.lap, Item.lap])

/-- A sender has less left to be done after an act with a punctual reply. -/
theorem Going.ensures_toil (h : Going s) (v v' q q' : Nat) :
    (Sender.act s).Ensures fun event next => s.Punctual event next →
      ((∀ data reply, event ≠ .write data reply) → q' + event.arrived.length ≤ q) →
      v' + event.feeds.toNat ≤ v → toil next v' q' < toil s v q := by
  refine ensures_act_of_course (fun step hphase => (h step hphase).1) ?_ ?_
  · intro step event next hphase hcourse hpunctual hqueue hsupply
    rcases hcourse.turns_or_parted with ⟨s', step', rfl, hturns⟩ | hparted
    · rw [toil, toil, Party.burden_of_doing hphase, Party.burden_of_doing rfl]
      exact hturns.effort_lt (h step hphase).1 hpunctual hqueue hsupply
    · exact Party.burden_lt_of_parted hparted hphase (effort_lt_of_first (Nat.succ_pos _))
  · intro ending reply moment hphase _ _ _
    exact Party.burden_lt_of_cancelling rfl hphase

variable {ω : Type} {env : Surroundings ω} {good : ω → Prop} {queued supply : ω → Nat} {w : ω}

/-- A sender comes to its end in patient surroundings with finite files. -/
theorem Going.exists_ending (h : Going s) (henv : env.Patient good queued)
    (hfinite : env.Supplies good supply) (hw : good w) (hmoment : s.moment = env.moment w) :
    ∃ acts, (Action.run env Sender.act acts s w).ending ≠ none := by
  refine @Surroundings.Patient.exists_ending _ _ _ _ _ _ _ _ _ wellFounded_lt henv attentive_act
    (fun s w => toil s (supply w) (queued w)) (fun s _ => Going s) ?_ ?_ s w hw hmoment h
  · rintro s w s' w' h hstep
    exact h.ensures_going.of_step hstep
  · rintro s w s' w' h hw hstep hpunctual
    have hreplies := Action.replies_of_step hstep
    exact (h.ensures_toil _ _ _ _).of_step hstep hpunctual (henv.queued_le hw hreplies)
      (hfinite.supply_le hw hreplies)

end Toil

end Sender

end BlockTransfer
