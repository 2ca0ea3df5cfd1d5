import BlockTransfer.Proofs.Receiver.Intake
import BlockTransfer.Proofs.Receiver.Progress

/-!
# What a receiver lives on

A receiver advances or answers a repeated block only because of bytes that have arrived, and no more
than three times for each. So in patient surroundings from which only so many bytes come its run
comes to its end.

## Main definitions

* `Receiver.proceeds`: a receiver advances or answers a repeated block.
* `Receiver.worth`: how often it may do so before it takes another byte.

## Main results

* `Receiver.countP_proceeds_le`: how often it does so in a run.
* `Receiver.exists_ending_of_arrivals_le`: a receiver does not outlive its supply.
-/

namespace BlockTransfer.Receiver

/-- Whether a receiver advances or answers a block that it has accepted before. -/
def proceeds (a : Act Receiver) : Bool :=
  a.event.advances || repeats a

/-- How often a receiver may advance or answer a repeated block when it has taken something up. -/
def Purpose.worth : Purpose → Nat
  | .solicited _ => 3
  | .data => 2

/-- How often a receiver may do so because of what has come. -/
def Incoming.worth (purpose : Purpose) : Incoming → Nat
  | .block _ | .endOfFile => purpose.worth
  | .corrupt _ | .silence => 0

/-- How often a receiver may advance or answer a repeated block before it takes another byte. -/
def worth : Step → Nat
  | .collect _ _ _ _ => 3
  | .judge purpose incoming => incoming.worth purpose
  -- A file is begun, and its first block may have come already.
  | .openFile _ first => 2 * first.toList.length + 1
  | .nextBlock first => 2 * first.toList.length
  | .announced _ | .signal _ | .store _ _ | .accept _ | .counted _ | .repeated _ | .settle
  | .storeLast _ | .closeFile => 1
  | .start | .solicit _ | .attempt _ _ | .expect _ | .listen _ _ | .purge _ _ | .refuse _
  | .missed _ _ | .finish => 0

section Worth

variable {s s' : Receiver} {step step' : Step} {event : Event} {e : TransferError}

theorem Purpose.worth_le (purpose : Purpose) : purpose.worth ≤ 3 := by
  cases purpose with
  | solicited => exact Nat.le_refl 3
  | data => exact Nat.le_succ 2

/-- Signals leave the queue alone. -/
theorem Says.pending_eq {signal : Control} (h : Says s step signal s' step') :
    s'.pending = s.pending := by
  cases h <;> rfl

/-- A signal is paid for with what has been taken up. -/
theorem Says.worth_le {signal : Control} (h : Says s step signal s' step')
    (hphase : s.phase = .doing step) (reply : Except IoError Nat) :
    (proceeds ⟨s, .write [signal.byte] reply⟩).toNat + worth step' ≤ worth step := by
  cases h <;> simp [proceeds, repeats, Event.advances, hphase, worth, Incoming.worth, Purpose.worth]

/-- Nothing is to be paid for in most acts. -/
theorem toNat_proceeds (hwrites : event.writes = false) (hadvances : event.advances = false) :
    (proceeds ⟨s, event⟩).toNat = 0 := by
  have hrepeats : repeats ⟨s, event⟩ = false := by
    unfold repeats
    cases event with
    | write => cases hwrites
    | _ => cases s.phase <;> simp
  simp [proceeds, hadvances, hrepeats]

theorem proceeds_add_le {m n : Nat} (hwrites : event.writes = false)
    (hadvances : event.advances = false) (h : m ≤ n) : (proceeds ⟨s, event⟩).toNat + m ≤ n := by
  rw [toNat_proceeds hwrites hadvances, Nat.zero_add]
  exact h

/-- What a receiver does when it goes on is paid for with a byte. -/
theorem Turns.worth_le (h : Turns s step event s' step') (hphase : s.phase = .doing step) :
    (proceeds ⟨s, event⟩).toNat + (worth step' + 3 * s'.pending.length) ≤
      worth step + 3 * (s.pending.length + event.arrived.length) := by
  cases h with
  | speaks h =>
    have hworth := h.worth_le hphase (.ok 1)
    have hpending := h.pending_eq
    simp only [Event.arrived, hpending, List.length_nil]
    omega
  | @arrival _ task task' timeout left arrived pending moment htask hlook hhear =>
    obtain ⟨used, hused, -⟩ := Line.Task.look_read hlook
    obtain ⟨rfl, -⟩ := Line.Task.hear_waiting hhear
    have hworth : worth (step.rewait task') = worth step := by
      cases step <;> cases htask <;> rfl
    have hlength := congrArg List.length hused
    rw [List.length_append] at hlength
    refine proceeds_add_le rfl rfl ?_
    rw [hworth, List.length_append]
    show _ ≤ _ + 3 * (_ + arrived.length)
    omega
  | @openFile header incoming =>
    simp only [proceeds, repeats, hphase, Event.advances, Event.arrived, worth, List.length_nil,
      Bool.or_false, Bool.toNat_true]
    omega
  | counted | closeFile =>
    simp [proceeds, repeats, hphase, Event.advances, Event.arrived, worth]
  | @endMark purpose task pending hpending =>
    have hworth := purpose.worth_le
    refine proceeds_add_le rfl rfl ?_
    simp only [hpending, worth, Incoming.worth, List.length_cons]
    omega
  | garbage hpending | marker hpending =>
    refine proceeds_add_le rfl rfl ?_
    simp only [hpending, worth, Incoming.worth, List.length_cons]
    omega
  | @block purpose =>
    have hworth := purpose.worth_le
    refine proceeds_add_le rfl rfl ?_
    simp only [worth, Incoming.worth, List.length_drop]
    omega
  | damaged =>
    refine proceeds_add_le rfl rfl ?_
    simp only [worth, Incoming.worth, List.length_drop]
    omega
  | @first stage incoming hprotocol hincoming =>
    refine proceeds_add_le rfl rfl ?_
    rcases hincoming with rfl | ⟨block, rfl⟩ <;>
      simp [worth, Incoming.worth, Purpose.worth, Party.mapSession, Event.arrived]
  | unanswered =>
    refine proceeds_add_le rfl rfl ?_
    unfold fallBack
    dsimp only
    split <;> simp [worth, Event.arrived]
  | @takeUp incoming =>
    refine proceeds_add_le rfl rfl ?_
    cases incoming <;> simp [worth, Incoming.worth, Purpose.worth, Event.arrived]
  | _ =>
    refine proceeds_add_le rfl rfl ?_
    simp [worth, Incoming.worth, Purpose.worth, Party.mapSession, Event.arrived]

/-- What a receiver does at its end has been paid for. -/
theorem Course.proceeds_le {next : Receiver} (h : Course s step event next)
    (hphase : s.phase = .doing step) (hparted : next.Parted) :
    (proceeds ⟨s, event⟩).toNat ≤ worth step := by
  cases h with
  | turns => exact absurd rfl (hparted.phase_ne _)
  | breaks h =>
    cases h with
    | unwritten h => exact Nat.le_of_add_right_le (h.worth_le hphase _)
    | _ => exact proceeds_add_le rfl rfl (Nat.zero_le _)
  | completes h =>
    cases h with
    | single => simp [proceeds, repeats, hphase, Event.advances, worth]
    | batch => simp [proceeds, repeats, hphase, Event.advances]
  | aborts | rejects => exact proceeds_add_le rfl rfl (Nat.zero_le _)

end Worth

/-! ## Runs -/

section Supply

variable {options : Options} {past : List (Act Receiver)} {s : Receiver}

/-- What a receiver has done so far, and what it may still do, is paid for with the bytes that have
arrived. -/
structure Paid (past : List (Act Receiver)) (s : Receiver) : Prop where
  countP_le : past.countP proceeds ≤ 3 * (arrivals past).length
  worth_le : ∀ step, s.phase = .doing step →
    past.countP proceeds + worth step + 3 * s.pending.length ≤ 3 * (arrivals past).length

theorem paid_new (options : Options) (moment : Moment) : Paid [] (new options moment) := by
  refine ⟨le_rfl, ?_⟩
  rintro step ⟨⟩
  exact le_rfl

/-- What a receiver does stays paid for. -/
theorem Paid.ensures_paid (h : Paid past s) (hgoing : Going options s) :
    (Receiver.act s).Ensures fun event next => Paid (past ++ [⟨s, event⟩]) next := by
  have hcount (a : Act Receiver) :
      (past ++ [a]).countP proceeds = past.countP proceeds + (proceeds a).toNat := by
    cases hproceeds : proceeds a <;> simp [hproceeds]
  have harrivals (event : Event) : (arrivals (past ++ [⟨s, event⟩])).length =
      (arrivals past).length + event.arrived.length := by
    simp [arrivals]
  refine ensures_act_of_course hgoing.placed ?_ ?_
  · intro step event next hphase hcourse
    have hbefore := h.worth_le step hphase
    rcases hcourse.turns_or_parted with ⟨s', step', rfl, hturns⟩ | hparted
    · have hworth := hturns.worth_le hphase
      refine ⟨?_, ?_⟩
      · rw [hcount, harrivals]
        omega
      · rintro _ ⟨⟩
        rw [hcount, harrivals]
        simp only [Party.goto]
        omega
    · have hproceeds := hcourse.proceeds_le hphase hparted
      refine ⟨?_, fun step' hphase' => absurd hphase' (hparted.phase_ne step')⟩
      rw [hcount, harrivals]
      omega
  · intro ending reply moment hphase
    have hproceeds : proceeds ⟨s, .write [Control.can.byte, Control.can.byte] reply⟩ = false := by
      simp [proceeds, repeats, hphase, Event.advances]
    refine ⟨?_, ?_⟩
    · rw [hcount, harrivals, hproceeds]
      exact h.countP_le
    · rintro step ⟨⟩

variable {ω : Type} {env : Surroundings ω} {good : ω → Prop} {queued : ω → Nat} {w : ω}

/-- No more is done in a run than has been paid for. -/
theorem countP_proceeds_le (env : Surroundings ω) (options : Options) (moment : Moment) (acts : Nat)
    (w : ω) :
    (Action.trace env act acts (new options moment) w).countP proceeds ≤
      3 * (arrivals (Action.trace env act acts (new options moment) w)).length := by
  have hrun := @Action.invariant_trace _ _ act (fun past s => Paid past s ∧ Going options s) ?_ env
    acts [] (new options moment) w ⟨paid_new options moment, going_new options moment⟩
  · exact hrun.1.countP_le
  · rintro past s ⟨hpaid, hgoing⟩
    exact (hpaid.ensures_paid hgoing).and hgoing.ensures_going

/-- In patient surroundings a receiver comes to its end, or it goes on to do something again and
again. -/
theorem Going.exists_countP (henv : env.Patient good queued) (h : Going options s) (hw : good w)
    (hmoment : s.moment = env.moment w) (n : Nat) :
    ∃ acts, (Action.run env act acts s w).ending ≠ none ∨
      n ≤ (Action.trace env act acts s w).countP proceeds := by
  induction n with
  | zero => exact ⟨0, .inr (Nat.zero_le _)⟩
  | succ n ih =>
    obtain ⟨acts, hending | hcount⟩ := ih
    · exact ⟨acts, .inl hending⟩
    · by_cases hending : (Action.run env act acts s w).ending = none
      · -- The run goes on from where it is.
        have hgoing : Going options (Action.run env act acts s w).state :=
          @Action.invariant_trace _ _ act (fun _ s => Going options s)
            (fun _ _ h => h.ensures_going) env acts [] s w h
        obtain ⟨hgood, hmoment'⟩ := henv.good_run attentive_act acts hw hmoment
        obtain ⟨more, hmore⟩ := hgoing.exists_progress henv hgood hmoment'
        refine ⟨acts + more, ?_⟩
        rw [Action.run_add hending, Action.trace_add, List.countP_append]
        refine hmore.imp_right ?_
        rintro ⟨a, ha, hproceeds⟩
        have hone : 0 < (Action.trace env act more _ _).countP proceeds :=
          List.countP_pos_iff.mpr ⟨a, ha, by simpa [proceeds] using hproceeds⟩
        omega
      · exact ⟨acts, .inl hending⟩

/-- In patient surroundings from which only so many bytes come a receiver comes to its end. -/
theorem exists_ending_of_arrivals_le (henv : env.Patient good queued) (options : Options)
    (hw : good w) {bound : Nat}
    (hbound : ∀ acts,
      (arrivals (Action.trace env act acts (new options (env.moment w)) w)).length ≤ bound) :
    ∃ acts, (Action.run env act acts (new options (env.moment w)) w).ending ≠ none := by
  obtain ⟨acts, hending | hcount⟩ :=
    (going_new options (env.moment w)).exists_countP henv hw rfl (3 * bound + 1)
  · exact ⟨acts, hending⟩
  · have hle := countP_proceeds_le env options (env.moment w) acts w
    have hbound' := hbound acts
    omega

end Supply

end BlockTransfer.Receiver
