import BlockTransfer.Proofs.Receiver.Course

/-!
# The terms of a receiver

A receiver asks for blocks with a signal and expects them with a block check. It changes these terms
at one point only: when no block has come for its signal it may settle for the checksum, and then it
changes both at once.

## Main definitions

* `Receiver.terms`: the signal and the block check.

## Main results

* `Receiver.ensures_terms`: no other act changes the terms.
* `Receiver.ensures_trailer`: no act leads away from the checksum.
-/

namespace BlockTransfer.Receiver

/-- The signal with which a receiver asks for blocks, and the block check that it expects. -/
def terms (s : Receiver) : Control × Trailer :=
  (s.job.handshake, s.trailer)

/-- What an act may make of the terms: they stay the same, unless no block has come for the
signal. -/
def Adapts (s next : Receiver) : Prop :=
  (terms next = terms s ∨ ∃ stage, s.phase = .doing (.judge (.solicited stage) .silence) ∧
    terms next = terms (fallBack s))

section Acts

variable {s : Receiver} {offer : Control × Trailer}

theorem terms_fallBack (s : Receiver) :
    terms (fallBack s) = terms s ∨
      s.options.protocol = .xmodem ∧ s.job.handshake = .crcRequest ∧
        0 < s.options.config.crcHandshakeAttempts.toNat ∧
        s.options.config.crcHandshakeAttempts.toNat ≤ s.session.retries + 1 ∧
        terms (fallBack s) = (.nak, .checksum) := by
  unfold fallBack
  dsimp only
  split
  · rename_i hfalls
    exact .inr ⟨hfalls.1, hfalls.2.1, hfalls.2.2.1, hfalls.2.2.2, rfl⟩
  · exact .inl rfl

/-- A receiver that has heard nothing for its signal may settle for the checksum. -/
theorem act_of_unheard {stage : Stage}
    (hphase : s.phase = .doing (.judge (.solicited stage) .silence)) :
    act s = .silent ((fallBack s).goto (.missed (.solicited stage) true)) := by
  rw [act, Party.act, hphase]
  rfl

theorem terms_heardStart (purpose : Purpose) (heard : Option Bytes) (s : Receiver) :
    terms (heardStart purpose heard s) = terms s :=
  heardStart_induction (motive := fun next => terms next = terms s) purpose heard rfl
    (fun _ _ _ => rfl) fun _ => rfl

theorem terms_heardRest (purpose : Purpose) (frame : Bytes) (needed : Nat) (heard : Option Bytes)
    (s : Receiver) : terms (heardRest purpose frame needed heard s) = terms s :=
  heardRest_induction (motive := fun next => terms next = terms s) purpose frame needed heard
    (fun _ _ _ => rfl) fun _ => rfl

theorem terms_take (s : Receiver) (payload : Bytes) : terms (take s payload) = terms s := by
  unfold take
  split
  · rfl
  · dsimp only
    split <;> rfl

/-- A receiver that listens keeps its terms if it keeps them with what it has heard. -/
theorem ensures_listen_terms {task : Line.Task} {again : Line.Task → Step}
    {heard : Option Bytes → Receiver → Receiver} (h : terms s = offer)
    (hheard : ∀ bytes s, terms (heard bytes s) = terms s) :
    (s.listen task again heard).Ensures fun _ next => terms next = offer := by
  apply Party.ensures_listen
  · intro used pending _ _
    rw [hheard]
    exact h
  · intros
    exact h
  · intros
    rw [hheard]
    exact h
  · intros
    exact h

theorem ensures_say_terms {signal : Control} {step : Step} (h : terms s = offer) :
    (say s signal step).Ensures fun _ next => terms next = offer :=
  Party.ensures_write (fun _ _ _ => h) fun _ => h

theorem ensures_keep_terms {data : Bytes} {step : Step} (h : terms s = offer) :
    (keep s data step).Ensures fun _ next => terms next = offer := by
  intro reply moment
  cases reply with
  | error e => exact h
  | ok => exact h

theorem ensures_judgeSolicited_terms {stage : Stage} {incoming : Incoming} (h : terms s = offer)
    (hincoming : incoming ≠ .silence) :
    (judgeSolicited s stage incoming).Ensures fun _ next => terms next = offer := by
  cases incoming with
  | block block =>
    simp only [judgeSolicited]
    split
    · exact h
    · unfold readHeader
      split
      · exact h
      · split
        · exact h
        · exact ensures_say_terms h
        · exact h
  | endOfFile =>
    simp only [judgeSolicited]
    split
    · exact h
    · exact ensures_say_terms h
  | corrupt => exact h
  | silence => exact absurd rfl hincoming

theorem ensures_judgeData_terms {incoming : Incoming} (h : terms s = offer) :
    (judgeData s incoming).Ensures fun _ next => terms next = offer := by
  cases incoming with
  | block block =>
    simp only [judgeData]
    split
    · exact (terms_take s block.payload).trans h
    · split
      · exact ensures_say_terms h
      · exact h
  | endOfFile =>
    simp only [judgeData]
    split <;> exact ensures_say_terms h
  | corrupt e =>
    simp only [judgeData]
    split <;> exact h
  | silence =>
    simp only [judgeData]
    split
    · exact h
    · split <;> exact ensures_say_terms h

/-- A step keeps the terms unless no block has come for the signal. -/
theorem ensures_step_terms {step : Step} (h : terms s = offer)
    (hstep : ∀ stage, step ≠ .judge (.solicited stage) .silence) :
    (Receiver.step s step).Ensures fun _ next => terms next = offer := by
  have hretry (stage : Stage) (step : Step) : terms (s.retry stage step) = offer :=
    Party.retry_induction (motive := fun next => terms next = offer) stage step (fun _ => h) h
  cases step with
  | start =>
    simp only [Receiver.step, start]
    split
    · exact h
    · split <;> exact h
  | solicit | expect | finish => exact h
  | attempt stage prompt =>
    apply Party.ensures_unlessAborted h
    split
    · exact ensures_say_terms h
    · exact h
  | listen purpose task => exact ensures_listen_terms h (terms_heardStart purpose)
  | collect purpose frame needed task =>
    exact ensures_listen_terms h (terms_heardRest purpose frame needed)
  | judge purpose incoming =>
    cases purpose with
    | solicited stage =>
      refine ensures_judgeSolicited_terms h ?_
      rintro rfl
      exact hstep stage rfl
    | data => exact ensures_judgeData_terms h
  | purge purpose task =>
    rw [Receiver.step]
    exact ensures_listen_terms h fun _ _ => rfl
  | refuse | signal => exact ensures_say_terms h
  | missed purpose prompt =>
    cases purpose with
    | solicited | data => exact hretry _ _
  | announced header =>
    simp only [Receiver.step]
    split <;> exact ensures_say_terms h
  | openFile header first =>
    intro reply moment
    cases reply with
    | error | ok => exact h
  | nextBlock first => exact Party.ensures_unlessAborted h h
  | store | storeLast => exact ensures_keep_terms h
  | accept useful =>
    simp only [Receiver.step]
    split
    · exact h
    · exact ensures_say_terms h
  | counted useful =>
    intro moment
    exact h
  | repeated number =>
    simp only [Receiver.step]
    split
    · exact ensures_say_terms h
    · exact h
  | settle =>
    simp only [Receiver.step, settle]
    split <;> exact h
  | closeFile =>
    intro reply moment
    cases reply with
    | error e => exact h
    | ok =>
      dsimp only
      split <;> exact h

/-- Every act keeps the terms unless no block has come for the signal, and then they are as
`fallBack` leaves them. -/
theorem ensures_terms (s : Receiver) : (act s).Ensures fun _ next => Adapts s next := by
  apply Party.ensures_act
  · intro step hphase
    by_cases hsilence : ∃ stage, step = .judge (.solicited stage) .silence
    · obtain ⟨stage, rfl⟩ := hsilence
      exact .inr ⟨stage, hphase, rfl⟩
    · refine (ensures_step_terms rfl fun stage hstep => hsilence ⟨stage, hstep⟩).mono ?_
      exact fun _ _ hterms => .inl hterms
  · intro ending reply moment hphase
    exact .inl rfl

/-- A receiver that has settled for the checksum keeps to it. -/
theorem ensures_trailer (h : s.trailer = .checksum) :
    (act s).Ensures fun _ next => next.trailer = .checksum := by
  refine (ensures_terms s).mono fun _ next hnext => ?_
  rcases hnext with hterms | ⟨stage, -, hterms⟩
  · exact (congrArg Prod.snd hterms).trans h
  · rcases terms_fallBack s with hkeeps | ⟨-, -, -, -, hfalls⟩
    · exact (congrArg Prod.snd (hterms.trans hkeeps)).trans h
    · exact congrArg Prod.snd (hterms.trans hfalls)

end Acts

end BlockTransfer.Receiver
