import BlockTransfer.Proofs.Receiver.Progress
import BlockTransfer.Proofs.Receiver.Supply
import BlockTransfer.Proofs.Receiver.Terms
import BlockTransfer.Proofs.Timing
import BlockTransfer.Sink.Memory
import Mathlib.Data.List.TakeWhile

/-!
# Settling for the checksum

An XMODEM receiver settles for the checksum when enough attempts to get a first block have failed.
Not all of these are requests for the cyclic check that have gone unanswered: a damaged block counts
as well, and so does the silence after its refusal, which is no request.

## Main definitions

* `Receiver.unanswered`: the requests for the cyclic check that have gone unanswered.
* `Receiver.failures`: the failed attempts that they and the refusals account for.

## Main results

* `Receiver.terms_run`: when a receiver changes its terms.
-/

namespace BlockTransfer

namespace Event

/-- Whether a signal is written. -/
def signals (signal : Control) : Event → Bool
  | .write data _ => data = [signal.byte]
  | _ => false

theorem exists_of_signals {signal : Control} {event : Event} (h : event.signals signal = true) :
    ∃ reply, event = .write [signal.byte] reply := by
  cases event with
  | write data reply => exact ⟨reply, congrArg (Event.write · reply) (of_decide_eq_true h)⟩
  | _ => cases h

/-- Whether nothing has come and nothing is written. -/
def still : Event → Bool
  | .silent | .read _ (.ok []) => true
  | _ => false

end Event

namespace Receiver

/-! ## Requests in a timeline -/

/-- Whether from some time on nothing has come and nothing has been written for so long. -/
def lasts (timeout start : Nat) (later : List (Event × Nat)) : Bool :=
  (later.takeWhile (·.1.still)).any (start + timeout ≤ ·.2)

/-- The number of requests for the cyclic check that have gone unanswered for so long. -/
def unanswered (timeout : Nat) : List (Event × Nat) → Nat
  | [] => 0
  | x :: later =>
    (x.1.signals .crcRequest && lasts timeout x.2 later).toNat + unanswered timeout later

/-- The number of requests for the cyclic check. -/
def requested (line : List (Event × Nat)) : Nat :=
  line.countP (·.1.signals .crcRequest)

/-- The number of blocks that have been refused. -/
def refused (line : List (Event × Nat)) : Nat :=
  line.countP (·.1.signals .nak)

/-- The number of attempts that may have failed: one for each request without an answer, and for
each block that has been refused one more, and one for the silence after that. -/
def failures (timeout : Nat) (line : List (Event × Nat)) : Nat :=
  unanswered timeout line + 2 * refused line

section Line

variable {timeout start : Nat} {earlier later lull : List (Event × Nat)} {x : Event × Nat}

theorem lasts_append (h : lasts timeout start earlier = true) (later : List (Event × Nat)) :
    lasts timeout start (earlier ++ later) = true := by
  obtain ⟨x, hx, hlate⟩ := List.any_eq_true.mp h
  refine List.any_eq_true.mpr ⟨x, ?_, hlate⟩
  rw [List.takeWhile_append]
  split
  · exact List.mem_append_left _ ((List.takeWhile_sublist _).subset hx)
  · exact hx

/-- A silence lasts if something in it is seen late enough. -/
theorem lasts_of_still (hlull : ∀ x ∈ lull, x.1.still = true) (hx : x.1.still = true)
    (hlate : start + timeout ≤ x.2) : lasts timeout start (lull ++ [x]) = true := by
  have hall : ∀ y ∈ lull ++ [x], y.1.still = true :=
    List.forall_mem_append.mpr ⟨hlull, List.forall_mem_singleton.mpr hx⟩
  rw [lasts, List.takeWhile_eq_self_iff.mpr hall]
  exact List.any_eq_true.mpr ⟨x, by simp, decide_eq_true hlate⟩

/-- A request that has gone unanswered does not depend on what comes later. -/
theorem unanswered_add_le (timeout : Nat) (earlier later : List (Event × Nat)) :
    unanswered timeout earlier + unanswered timeout later ≤
      unanswered timeout (earlier ++ later) := by
  induction earlier with
  | nil => simp [unanswered]
  | cons x earlier ih =>
    have hfirst : (x.1.signals .crcRequest && lasts timeout x.2 earlier).toNat ≤
        (x.1.signals .crcRequest && lasts timeout x.2 (earlier ++ later)).toNat := by
      apply Bool.toNat_le_toNat
      intro hunanswered
      rw [Bool.and_eq_true] at hunanswered ⊢
      exact ⟨hunanswered.1, lasts_append hunanswered.2 later⟩
    rw [List.cons_append, unanswered, unanswered]
    omega

theorem failures_add_le (timeout : Nat) (earlier later : List (Event × Nat)) :
    failures timeout earlier + failures timeout later ≤ failures timeout (earlier ++ later) := by
  have hunanswered := unanswered_add_le timeout earlier later
  simp only [failures, refused, List.countP_append]
  omega

theorem requested_concat (line : List (Event × Nat)) (hx : x.1.signals .crcRequest = false) :
    requested (line ++ [x]) = requested line := by
  simp [requested, hx]

theorem failures_le_concat (timeout : Nat) (line : List (Event × Nat)) (x : Event × Nat) :
    failures timeout line ≤ failures timeout (line ++ [x]) :=
  (Nat.le_add_right _ _).trans (failures_add_le timeout line [x])

/-- A refusal accounts for two attempts. -/
theorem failures_concat_refused (timeout : Nat) (line : List (Event × Nat))
    (hx : x.1.signals .nak = true) :
    failures timeout line + 2 ≤ failures timeout (line ++ [x]) := by
  have hlater : 2 ≤ failures timeout [x] := by
    simp [failures, refused, hx]
  have hadd := failures_add_le timeout line [x]
  omega

end Line

/-! ## Attempts -/

/-- The latest request has been followed by nothing so far, and so many attempts had failed before
it. -/
def Lull (timeout : Nat) (line : List (Event × Nat)) (failed start : Nat) : Prop :=
  ∃ earlier request lull, line = earlier ++ (request, start) :: lull ∧
    request.signals .crcRequest = true ∧ (∀ x ∈ lull, x.1.still = true) ∧
    failed ≤ failures timeout earlier

section Lull

variable {timeout start failed : Nat} {line : List (Event × Nat)} {x : Event × Nat}

theorem Lull.concat (h : Lull timeout line failed start) (hx : x.1.still = true) :
    Lull timeout (line ++ [x]) failed start := by
  obtain ⟨earlier, request, lull, rfl, hrequest, hlull, hfailed⟩ := h
  refine ⟨earlier, request, lull ++ [x], by simp, hrequest, ?_, hfailed⟩
  exact List.forall_mem_append.mpr ⟨hlull, List.forall_mem_singleton.mpr hx⟩

theorem Lull.le_failures (h : Lull timeout line failed start) : failed ≤ failures timeout line := by
  obtain ⟨earlier, request, lull, rfl, -, -, hfailed⟩ := h
  exact hfailed.trans ((Nat.le_add_right _ _).trans (failures_add_le timeout earlier _))

/-- Once the lull has lasted, the request has gone unanswered. -/
theorem Lull.lt_failures (h : Lull timeout line failed start) (hx : x.1.still = true)
    (hlate : start + timeout ≤ x.2) : failed + 1 ≤ failures timeout (line ++ [x]) := by
  obtain ⟨earlier, request, lull, rfl, hrequest, hlull, hfailed⟩ := h
  have hlater : 1 ≤ failures timeout ((request, start) :: (lull ++ [x])) := by
    simp [failures, unanswered, hrequest, lasts_of_still hlull hx hlate]
    omega
  have hadd := failures_add_le timeout earlier ((request, start) :: (lull ++ [x]))
  rw [List.append_assoc, List.cons_append]
  omega

end Lull

/-- What is known at a step of the attempts to get a first block: how many have failed, how often it
has been asked for one, and whether the latest request has been followed by anything. -/
def Counts (timeout : Nat) (line : List (Event × Nat)) (s : Receiver) : Step → Prop
  | .start | .solicit _ => s.pending = [] ∧ requested line = 0
  | .attempt _ prompt =>
    s.pending = [] ∧ requested line ≤ s.session.retries ∧
      s.session.retries + (!prompt).toNat ≤ failures timeout line
  | .expect (.solicited _) =>
    s.pending = [] ∧ requested line ≤ s.session.retries + 1 ∧
      (s.session.retries + 1 ≤ failures timeout line ∨
        Lull timeout line s.session.retries s.moment.now)
  | .listen (.solicited _) task =>
    requested line ≤ s.session.retries + 1 ∧ s.session.retries ≤ failures timeout line ∧
      (s.pending = [] → s.session.retries + 1 ≤ failures timeout line ∨
        ∃ start, task = .byte (start + timeout) ∧ Lull timeout line s.session.retries start)
  | .judge (.solicited _) .silence =>
    s.pending = [] ∧ requested line ≤ s.session.retries + 1 ∧
      s.session.retries + 1 ≤ failures timeout line
  | .collect (.solicited _) _ _ _ | .judge (.solicited _) _ | .purge (.solicited _) _ =>
    requested line ≤ s.session.retries + 1 ∧ s.session.retries ≤ failures timeout line
  | .refuse (.solicited _) =>
    s.pending = [] ∧ requested line ≤ s.session.retries + 1 ∧
      s.session.retries ≤ failures timeout line
  | .missed (.solicited _) prompt =>
    s.pending = [] ∧ requested line ≤ s.session.retries + 1 ∧
      s.session.retries + 1 + (!prompt).toNat ≤ failures timeout line
  | _ => True

section Acts

variable {s s' : Receiver} {step step' : Step} {event : Event} {timeout : Nat}
  {line : List (Event × Nat)}

theorem pending_fallBack (s : Receiver) : (fallBack s).pending = s.pending := by
  unfold fallBack
  dsimp only
  split <;> rfl

theorem session_fallBack (s : Receiver) : (fallBack s).session = s.session := by
  unfold fallBack
  dsimp only
  split <;> rfl

/-- Every act keeps count of the attempts to get a first block. -/
theorem Turns.counts (h : Turns s step event s' step') (hplaced : s.Placed step)
    (hxmodem : s.options.protocol = .xmodem) (hsignal : s.job.handshake = .crcRequest)
    (htimeout : s.options.config.handshakeTimeout.toNat = timeout)
    (hcounts : Counts timeout line s step) :
    Counts timeout (line ++ [(event, s'.moment.now)]) s' step' := by
  have hmore := failures_le_concat timeout line (event, s'.moment.now)
  have hsame (hquiet : event.signals .crcRequest = false) :
      requested (line ++ [(event, s'.moment.now)]) = requested line :=
    requested_concat line hquiet
  have hrefused (hnak : event.signals .nak = true) :
      failures timeout line + 2 ≤ failures timeout (line ++ [(event, s'.moment.now)]) :=
    failures_concat_refused timeout line hnak
  cases h with
  | speaks h =>
    cases h with
    | prompt =>
      obtain ⟨hpending, hrequested, hfailures⟩ := hcounts
      rw [hsignal]
      refine ⟨hpending, ?_, .inr ⟨line, _, [], rfl, rfl, List.forall_mem_nil _, hfailures⟩⟩
      rw [requested, List.countP_append]
      exact Nat.add_le_add_right hrequested 1
    | @refuse purpose =>
      cases purpose with
      | data => trivial
      | solicited stage =>
        obtain ⟨hpending, hrequested, hfailures⟩ := hcounts
        -- The refusal accounts for this attempt and for the next one.
        exact ⟨hpending, (hsame rfl).trans_le hrequested,
          (Nat.add_le_add_right hfailures 2).trans (hrefused rfl)⟩
    | endAgain hprotocol =>
      rw [hxmodem] at hprotocol
      cases hprotocol
    | _ => trivial
  | start => exact ⟨hcounts.1, (hsame rfl).trans hcounts.2⟩
  | solicit stage => exact ⟨hcounts.1, ((hsame rfl).trans hcounts.2).le, Nat.zero_le _⟩
  | attempt =>
    obtain ⟨hpending, hrequested, hfailures⟩ := hcounts
    exact ⟨hpending, (hsame rfl).trans_le (hrequested.trans (Nat.le_succ _)),
      .inl (hfailures.trans hmore)⟩
  | expect purpose =>
    cases purpose with
    | data => trivial
    | solicited stage =>
      obtain ⟨hpending, hrequested, hfailures⟩ := hcounts
      refine ⟨(hsame rfl).trans_le hrequested, ?_, fun _ => ?_⟩
      · rcases hfailures with hfailures | hlull
        · omega
        · exact hlull.le_failures.trans hmore
      · refine hfailures.imp (·.trans hmore) fun hlull => ⟨_, ?_, hlull.concat rfl⟩
        rw [patience, htimeout]
  | @arrival step task task' timeout' left arrived pending moment htask hlook hhear =>
    cases step with
    | listen purpose task =>
      cases purpose with
      | data => trivial
      | solicited stage =>
        obtain ⟨hrequested, hfailures, hlull⟩ := hcounts
        obtain ⟨deadline, rfl⟩ := hplaced
        cases htask
        have hsingle : (Line.Task.byte deadline).Single := .inr ⟨deadline, rfl⟩
        obtain ⟨hpending, rfl⟩ := hsingle.look_read hlook
        obtain ⟨rfl, rfl⟩ := hsingle.hear_waiting hhear
        refine ⟨(hsame rfl).trans_le hrequested, hfailures.trans hmore, ?_⟩
        -- A reading that came back early with nothing leaves everything as it is.
        rintro rfl
        refine (hlull hpending).imp (·.trans hmore) ?_
        rintro ⟨start, hdeadline, hlull⟩
        exact ⟨start, hdeadline, hlull.concat rfl⟩
    | collect purpose | purge purpose =>
      cases purpose with
      | data => trivial
      | solicited stage => exact ⟨(hsame rfl).trans_le hcounts.1, hcounts.2.trans hmore⟩
    | _ => cases htask
  | @endMark purpose | @garbage purpose | @marker purpose =>
    cases purpose with
    | data => trivial
    | solicited stage => exact ⟨(hsame rfl).trans_le hcounts.1, hcounts.2.1.trans hmore⟩
  | @silence purpose deadline moment hpending hlate =>
    cases purpose with
    | data => trivial
    | solicited stage =>
      obtain ⟨hrequested, -, hfailures⟩ := hcounts
      refine ⟨rfl, (hsame rfl).trans_le hrequested, ?_⟩
      rcases hfailures hpending with hfailures | ⟨start, hdeadline, hlull⟩
      · exact hfailures.trans hmore
      · cases hdeadline
        exact hlull.lt_failures rfl hlate
  | @block purpose | @damaged purpose | @halted purpose =>
    cases purpose with
    | data => trivial
    | solicited stage => exact ⟨(hsame rfl).trans_le hcounts.1, hcounts.2.trans hmore⟩
  | @purge purpose =>
    cases purpose with
    | data => trivial
    | solicited stage => exact ⟨(hsame rfl).trans_le hcounts.1, hcounts.2.trans hmore⟩
  | @purged purpose =>
    cases purpose with
    | data => trivial
    | solicited stage => exact ⟨rfl, (hsame rfl).trans_le hcounts.1, hcounts.2.trans hmore⟩
  | missedAnswer =>
    obtain ⟨hpending, hrequested, hfailures⟩ := hcounts
    exact ⟨hpending, (hsame rfl).trans_le hrequested, hfailures.trans hmore⟩
  | unanswered =>
    obtain ⟨hpending, hrequested, hfailures⟩ := hcounts
    change (fallBack s).pending = [] ∧ _ ≤ (fallBack s).session.retries + 1 ∧
      (fallBack s).session.retries + 1 ≤ _
    rw [pending_fallBack, session_fallBack]
    exact ⟨hpending, (hsame rfl).trans_le hrequested, hfailures.trans hmore⟩
  | closeFile hprotocol =>
    rw [hxmodem] at hprotocol
    cases hprotocol
  | _ => trivial

end Acts

/-! ## Runs -/

/-- What is known of the terms of a receiver: they are those of its variant, or an XMODEM receiver
that was to ask for the cyclic check has settled for the checksum. Until then it keeps count of its
attempts. -/
structure Bargains (options : Options) (past : List (Act Receiver)) (s : Receiver) : Prop where
  terms_eq : terms s = (options.variant.handshake, options.variant.trailer) ∨
    options.variant.handshake = .crcRequest ∧ terms s = (.nak, .checksum)
  doing : ∀ step, s.phase = .doing step → s.Placed step ∧ s.options = options ∧
    (options.protocol = .xmodem → s.job.handshake = .crcRequest →
      Counts options.config.handshakeTimeout.toNat (Party.timeline past s.moment.now) s step)

section Runs

variable {ω : Type} {env : Surroundings ω} {options : Options} {moment : Moment} {w : ω}
  {acts : Nat} {past : List (Act Receiver)} {s next : Receiver}

/-- A receiver that settles for the checksum was asking for the cyclic check. -/
theorem Adapts.cases (h : Adapts s next) :
    terms next = terms s ∨ s.job.handshake = .crcRequest ∧ terms next = (.nak, .checksum) := by
  rcases h with hsame | ⟨stage, -, hterms⟩
  · exact .inl hsame
  · rw [hterms]
    exact (terms_fallBack s).imp_right fun ⟨_, hsignal, _, _, hfalls⟩ => ⟨hsignal, hfalls⟩

theorem Adapts.handshake_eq (h : Adapts s next) (hnext : next.job.handshake = .crcRequest) :
    s.job.handshake = .crcRequest := by
  rcases h.cases with hsame | ⟨hsignal, -⟩
  · exact (congrArg Prod.fst hsame).symm.trans hnext
  · exact hsignal

theorem Bargains.handshake_eq (h : Bargains options past s)
    (hsignal : s.job.handshake = .crcRequest) :
    options.variant.handshake = .crcRequest ∧
      terms s = (options.variant.handshake, options.variant.trailer) := by
  rcases h.terms_eq with hterms | ⟨-, hterms⟩
  · exact ⟨(congrArg Prod.fst hterms).symm.trans hsignal, hterms⟩
  · have hnak : s.job.handshake = .nak := congrArg Prod.fst hterms
    rw [hsignal] at hnak
    cases hnak

theorem bargains_new (options : Options) (moment : Moment) :
    Bargains options [] (new options moment) where
  terms_eq := .inl rfl
  doing := by
    rintro step ⟨⟩
    exact ⟨trivial, rfl, fun _ _ => ⟨rfl, rfl⟩⟩

/-- Every act of a receiver keeps to this. -/
theorem Bargains.ensures_bargains (h : Bargains options past s) :
    (act s).Ensures fun event next => Bargains options (past ++ [⟨s, event⟩]) next := by
  have hdoing : (act s).Ensures fun event next => Adapts s next → ∀ step, next.phase = .doing step →
      next.Placed step ∧ next.options = options ∧
        (options.protocol = .xmodem → next.job.handshake = .crcRequest →
          Counts options.config.handshakeTimeout.toNat
            (Party.timeline (past ++ [⟨s, event⟩]) next.moment.now) next step) := by
    refine ensures_act_of_course (fun step hphase => (h.doing step hphase).1) ?_ ?_
    · intro step event next hphase hcourse hadapts
      obtain ⟨hplaced, rfl, hcounts⟩ := h.doing step hphase
      rcases hcourse.turns_or_parted with ⟨s', step', rfl, hturns⟩ | hparted
      · rintro _ ⟨⟩
        refine ⟨hturns.placed hplaced, hturns.options_eq, fun hxmodem hnext => ?_⟩
        have hsignal := hadapts.handshake_eq hnext
        rw [Party.timeline_concat]
        exact hturns.counts hplaced hxmodem hsignal rfl (hcounts hxmodem hsignal)
      · exact fun step' hphase' => absurd hphase' (hparted.phase_ne step')
    · rintro ending reply moment hphase - step ⟨⟩
  refine ((ensures_terms s).and hdoing).mono fun event next hboth => ⟨?_, hboth.2 hboth.1⟩
  rcases hboth.1.cases with hsame | ⟨hsignal, hfalls⟩
  · rw [hsame]
    exact h.terms_eq
  · exact .inr ⟨(h.handshake_eq hsignal).1, hfalls⟩

theorem bargains_run (env : Surroundings ω) (options : Options) (moment : Moment) (w : ω)
    (acts : Nat) :
    Bargains options (Action.trace env act acts (new options moment) w)
      (Action.run env act acts (new options moment) w).state :=
  Action.invariant_trace (fun _ _ => Bargains.ensures_bargains) env acts w
    (bargains_new options moment)

/-- Whatever the peer does: the terms of a receiver are those of its variant, or it has settled for
the checksum, and it keeps to that. It does so only if it is an XMODEM receiver that was to ask for
the cyclic check, after a silence, and only if enough attempts may have failed by then: each request
that has gone unanswered counts once, and each block that has been refused counts twice. After a
silence it does so as soon as it has made enough requests, whether or not they have gone
unanswered. -/
theorem terms_run (env : Surroundings ω) (options : Options) (moment : Moment) (w : ω)
    (acts : Nat) :
    let attempts := options.config.crcHandshakeAttempts.toNat
    let timeout := options.config.handshakeTimeout.toNat
    let s := (Action.run env act acts (new options moment) w).state
    let next := (Action.run env act (acts + 1) (new options moment) w).state
    let line := Party.timeline (Action.trace env act acts (new options moment) w) s.moment.now
    (terms s = (options.variant.handshake, options.variant.trailer) ∨
      terms s = (.nak, .checksum)) ∧
    (terms s = (.nak, .checksum) → terms next = (.nak, .checksum)) ∧
    (terms next ≠ terms s →
      options.protocol = .xmodem ∧ (options.variant = .crc ∨ options.variant = .oneK) ∧
      0 < attempts ∧ terms s = (.crcRequest, .crc) ∧ terms next = (.nak, .checksum) ∧
      (∃ stage, s.phase = .doing (.judge (.solicited stage) .silence)) ∧
      attempts ≤ unanswered timeout line + 2 * refused line) ∧
    (∀ stage, s.phase = .doing (.judge (.solicited stage) .silence) →
      options.protocol = .xmodem → terms s = (.crcRequest, .crc) → 0 < attempts →
      attempts ≤ requested line → terms next = (.nak, .checksum)) := by
  intro attempts timeout s next line
  have hbargains : Bargains options _ s := bargains_run env options moment w acts
  have hstep := Action.step_run_succ env act acts (new options moment) w
  have hadapts : Adapts s next := by
    rcases hstep with ⟨w', hstep⟩ | ⟨-, hstays⟩
    · exact (ensures_terms s).of_step hstep
    · exact .inl (congrArg terms hstays)
  refine ⟨hbargains.terms_eq.imp_right And.right, ?_, ?_, ?_⟩
  · intro hsettled
    rcases hadapts.cases with hsame | ⟨-, hfalls⟩
    · exact hsame.trans hsettled
    · exact hfalls
  · intro hchanged
    rcases hadapts with hsame | ⟨stage, hphase, hterms⟩
    · exact absurd hsame hchanged
    rcases terms_fallBack s with hkeeps | ⟨hxmodem, hsignal, hpos, hattempts, hfalls⟩
    · exact absurd (hterms.trans hkeeps) hchanged
    obtain ⟨-, hoptions, hcounts⟩ := hbargains.doing _ hphase
    obtain ⟨hhandshake, hasked⟩ := hbargains.handshake_eq hsignal
    rw [hoptions] at hxmodem hpos hattempts
    obtain ⟨-, -, hfailures⟩ := hcounts hxmodem hsignal
    have hvariant := Variant.handshake_eq_crcRequest_iff.mp hhandshake
    refine ⟨hxmodem, hvariant, hpos, ?_, hterms.trans hfalls, ⟨stage, hphase⟩,
      hattempts.trans hfailures⟩
    rw [hasked]
    rcases hvariant with hvariant | hvariant <;> rw [hvariant] <;> rfl
  · intro stage hphase hxmodem hterms hpos hrequested
    have hsignal : s.job.handshake = .crcRequest := congrArg Prod.fst hterms
    obtain ⟨-, hoptions, hcounts⟩ := hbargains.doing _ hphase
    obtain ⟨-, hretries, -⟩ := hcounts hxmodem hsignal
    have hact := act_of_unheard hphase
    have hnext : next = (fallBack s).goto (.missed (.solicited stage) true) := by
      rcases hstep with ⟨w', hstep⟩ | ⟨⟨ending, hstep⟩, -⟩
      · change (act s).step env _ = .ok (next, w') at hstep
        rw [hact] at hstep
        exact (congrArg Prod.fst (Except.ok.inj hstep)).symm
      · change (act s).step env _ = .error ending at hstep
        rw [hact] at hstep
        cases hstep
    rw [hnext]
    change terms (fallBack s) = _
    rw [fallBack, if_pos]
    · rfl
    · rw [hoptions]
      exact ⟨hxmodem, hsignal, hpos, hrequested.trans hretries⟩

/-- After three requests without an answer a receiver settles for the checksum. -/
theorem terms_run_unheard :
    let setup : Script.Setup MemorySink := { sink := MemorySink.sink }
    let options : Options := { protocol := .xmodem, variant := .crc }
    let env := Script.World.surroundings setup
    let w := Script.World.new setup {} [] {}
    let timeout := options.config.handshakeTimeout.toNat
    let s := (Action.run env act 15 (new options ⟨0, false⟩) w).state
    let next := (Action.run env act (15 + 1) (new options ⟨0, false⟩) w).state
    let line := Party.timeline (Action.trace env act 15 (new options ⟨0, false⟩) w) s.moment.now
    terms s = (.crcRequest, .crc) ∧ terms next = (.nak, .checksum) ∧
      unanswered timeout line = 3 ∧ refused line = 0 ∧
      options.config.crcHandshakeAttempts.toNat ≤ unanswered timeout line + 2 * refused line := by
  intro setup options env w timeout s next line
  have hbefore : terms s = (.crcRequest, .crc) := by decide +kernel
  have hafter : terms next = (.nak, .checksum) := by decide +kernel
  have hchanged : terms next ≠ terms s := by
    rw [hbefore, hafter]
    decide
  have hunanswered : unanswered timeout line = 3 := by decide +kernel
  have hrefused : refused line = 0 := by decide +kernel
  obtain ⟨-, -, hchanges, -⟩ := terms_run env options ⟨0, false⟩ w 15
  obtain ⟨-, -, -, -, -, -, hattempts⟩ := hchanges hchanged
  refine ⟨hbefore, hafter, hunanswered, hrefused, ?_⟩
  simpa only [line, timeout, s] using hattempts

/-- A receiver that is to settle for the checksum after one request without an answer does so
although its only request was answered at once: the answer was damaged. -/
theorem terms_run_of_answered_request :
    let setup : Script.Setup MemorySink := { sink := MemorySink.sink }
    let options : Options :=
      { protocol := .xmodem, variant := .crc,
        config := { crcHandshakeAttempts := 1, maxRetries := 3 } }
    let env := Script.World.surroundings setup
    let w := Script.World.new setup { replies := [[⟨0, .ok [0xFF]⟩]] } [] {}
    let run (acts : Nat) := Action.run env act acts (new options ⟨0, false⟩) w
    let line (acts : Nat) := Party.timeline (Action.trace env act acts (new options ⟨0, false⟩) w)
      (run acts).state.moment.now
    terms (run 13).state = (.crcRequest, .crc) ∧ terms (run 14).state = (.nak, .checksum) ∧
      unanswered 3000 (line 13) = 0 ∧
      (run 40).ending = some (.error (.timeout .handshake 3)) ∧
      Party.writings (line 40) =
        [([Control.crcRequest.byte], 0), ([Control.nak.byte], 100), ([Control.nak.byte], 3100),
          ([Control.can.byte, Control.can.byte], 6100)] := by
  decide +kernel

end Runs

end Receiver

end BlockTransfer
