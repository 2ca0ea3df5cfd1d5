import BlockTransfer.Proofs.Trace
import Mathlib.Data.Prod.Lex
import Mathlib.Order.WellFounded

/-!
# Patient surroundings

A party has to wait for its surroundings: for bytes from the line, and for the contents of files.
Surroundings are patient with it if only finitely many bytes come after each write, and a reading
in vain takes just as long as it may. They are finite if their files are. In such surroundings a
party that always has less left to do comes to an end.

## Main definitions

* `Surroundings.Replies`: what surroundings do with an act, and the state that they are in after it.
* `Surroundings.Patient`: surroundings that keep no party waiting for ever.
* `Surroundings.Supplies`: surroundings whose files come to an end.
* `effort`: what is left to be done, as a tuple of numbers.
* `Party.burden`: what is left to be done by a party.
* `Action.Attentive`: an act after which a party knows the moment of the reply.
* `Party.Punctual`: a reading in vain has taken as long as it may.
* `Party.Requested`: a stop is requested at some point of a run, and stays requested.

## Main results

* `Surroundings.Patient.of_step`: what is known after an act in patient surroundings.
* `Surroundings.Patient.invariant_run`: what every act preserves with punctual replies holds along
  every run.
* `Action.exists_goal_of_measure`: a run with ever less to do reaches a goal or comes to its end.
* `Surroundings.Patient.exists_ending`: a party with ever less to do comes to its end.
-/

namespace BlockTransfer

variable {σ ω : Type}

/-! ## Surroundings -/

namespace Surroundings

/-- What surroundings do with an act that is seen from outside, and the state they are in after
it. -/
inductive Replies (env : Surroundings ω) (w : ω) : Event → ω → Prop
  | silent : Replies env w .silent w
  | read (timeout : Nat) :
    Replies env w (.read timeout (env.read w timeout).1) (env.read w timeout).2
  | write (data : Bytes) : Replies env w (.write data (env.write w data).1) (env.write w data).2
  | report (progress : Progress) : Replies env w (.report progress) (env.report w progress)
  | fetch (file most : Nat) :
    Replies env w (.fetch file most (env.fetch w file most).1) (env.fetch w file most).2
  | openFile (header : Option FileHeader) :
    Replies env w (.openFile header (env.openFile w header).1) (env.openFile w header).2
  | store (data : Bytes) : Replies env w (.store data (env.store w data).1) (env.store w data).2
  | closeFile (file : ReceivedFile) :
    Replies env w (.closeFile file (env.closeFile w file).1) (env.closeFile w file).2

/-- Surroundings that keep no party waiting for ever, as long as they are in a good state. -/
structure Patient (env : Surroundings ω) (good : ω → Prop) (queued : ω → Nat) : Prop where
  /-- They stay in good states. -/
  good_of_replies {w w' : ω} {event : Event} : good w → env.Replies w event w' → good w'
  /-- The bytes that are still to come become fewer with each arrival, and more only with a write,
  after which their number is finite again. -/
  queued_le {w w' : ω} {event : Event} : good w → env.Replies w event w' →
    (∀ data reply, event ≠ .write data reply) → queued w' + event.arrived.length ≤ queued w
  /-- A reading in vain takes just as long as it may. -/
  now_eq {w w' : ω} {timeout : Nat} : good w → env.Replies w (.read timeout (.ok [])) w' →
    (env.moment w').now = (env.moment w).now + timeout

end Surroundings

/-- Whether a reading of a file has brought something, or was interrupted. -/
def Event.feeds : Event → Bool
  | .fetch _ _ (.ok data) => !data.isEmpty
  | .fetch _ _ (.error e) => e.kind = .interrupted
  | _ => false

/-- Surroundings whose files come to an end: every reading that brings something or is interrupted
leaves less to be read. -/
structure Surroundings.Supplies (env : Surroundings ω) (good : ω → Prop) (supply : ω → Nat) :
    Prop where
  /-- There is never more left to be read than before, and less after each reading. -/
  supply_le {w w' : ω} {event : Event} : good w → env.Replies w event w' →
    supply w' + event.feeds.toNat ≤ supply w

namespace Action

/-- An act is done with in the surroundings in which it is taken. -/
theorem replies_of_step {env : Surroundings ω} {w w' : ω} {a : Action σ} {s' : σ}
    (h : a.step env w = .ok (s', w')) : env.Replies w (a.event env w) w' := by
  cases a with
  | stop => cases h
  | silent =>
    cases h
    exact .silent
  | read timeout =>
    cases h
    exact .read timeout
  | write data =>
    cases h
    exact .write data
  | report progress =>
    cases h
    exact .report progress
  | fetch file most =>
    cases h
    exact .fetch file most
  | openFile header =>
    cases h
    exact .openFile header
  | store data =>
    cases h
    exact .store data
  | closeFile file =>
    cases h
    exact .closeFile file

/-! ## Runs -/

section Runs

variable {env : Surroundings ω} {act : σ → Action σ}

/-- What every act preserves in its surroundings holds along every run. -/
theorem invariant_run {inv : List (Act σ) → σ → ω → Prop}
    (hstep : ∀ past s w s' w', inv past s w → (act s).step env w = .ok (s', w') →
      inv (past ++ [⟨s, (act s).event env w⟩]) s' w')
    (acts : Nat) {past : List (Act σ)} {s : σ} {w : ω} (h : inv past s w) :
    inv (past ++ trace env act acts s w) (run env act acts s w).state
      (run env act acts s w).world := by
  induction acts generalizing past s w with
  | zero =>
    rw [trace, List.append_nil]
    exact h
  | succ acts ih =>
    rw [trace, run]
    cases hnext : (act s).step env w with
    | error ending =>
      -- The run is over.
      rw [List.append_nil]
      exact h
    | ok next =>
      -- The first act joins those of the past.
      have hpast := ih (hstep past s w next.1 next.2 h hnext)
      rwa [List.append_assoc] at hpast

/-- A run in which every act reaches a goal or leaves less to be done reaches the goal or comes to
its end. -/
theorem exists_goal_of_measure {α : Type} {less : α → α → Prop} (hless : WellFounded less)
    (measure : σ → ω → α) {good : σ → ω → Prop} {goal : Act σ → Prop}
    (hstep : ∀ s w s' w', good s w → (act s).step env w = .ok (s', w') →
      goal ⟨s, (act s).event env w⟩ ∨ good s' w' ∧ less (measure s' w') (measure s w))
    {s : σ} {w : ω} (h : good s w) :
    ∃ acts, (run env act acts s w).ending ≠ none ∨ ∃ a ∈ trace env act acts s w, goal a := by
  generalize hmeasure : measure s w = bound
  induction bound using hless.induction generalizing s w with
  | _ bound ih =>
    cases hnext : (act s).step env w with
    | error ending =>
      refine ⟨1, .inl ?_⟩
      rw [run, hnext]
      exact Option.some_ne_none ending
    | ok next =>
      obtain ⟨s', w'⟩ := next
      rcases hstep s w s' w' h hnext with hgoal | ⟨hgood, hlower⟩
      · refine ⟨1, .inr ⟨_, ?_, hgoal⟩⟩
        rw [trace, hnext]
        exact List.mem_cons_self
      · rw [hmeasure] at hlower
        obtain ⟨acts, hacts⟩ := ih _ hlower hgood rfl
        refine ⟨acts + 1, ?_⟩
        rw [run, trace, hnext]
        refine hacts.imp_right ?_
        rintro ⟨a, hmem, hgoal⟩
        exact ⟨a, List.mem_cons_of_mem _ hmem, hgoal⟩

end Runs

end Action

/-! ## Effort -/

/-- Amounts of what is left to be done, in several parts. -/
abbrev Effort : Type :=
  Nat ×ₗ Nat ×ₗ Nat ×ₗ Nat ×ₗ Nat

/-- What is left to be done, the weightiest part first. -/
def effort (a b c d e : Nat) : Effort :=
  toLex (a, toLex (b, toLex (c, toLex (d, e))))

section Effort

variable {a b c d e a' b' c' d' e' : Nat}

/-- Less is left to be done if the first part that is not the same is smaller. -/
theorem effort_lt_iff : effort a b c d e < effort a' b' c' d' e' ↔
    a < a' ∨ a = a' ∧ (b < b' ∨ b = b' ∧ (c < c' ∨ c = c' ∧ (d < d' ∨ d = d' ∧ e < e'))) := by
  simp only [effort, Prod.Lex.toLex_lt_toLex]

/-! Less is left to be done if one part is smaller and none of those before it is larger. -/

theorem effort_lt_of_first (h : a < a') : effort a b c d e < effort a' b' c' d' e' :=
  effort_lt_iff.mpr (.inl h)

theorem effort_lt_of_second (ha : a ≤ a') (h : b < b') :
    effort a b c d e < effort a' b' c' d' e' := by
  rw [effort_lt_iff]
  omega

theorem effort_lt_of_third (ha : a ≤ a') (hb : b ≤ b') (h : c < c') :
    effort a b c d e < effort a' b' c' d' e' := by
  rw [effort_lt_iff]
  omega

theorem effort_lt_of_fourth (ha : a ≤ a') (hb : b ≤ b') (hc : c ≤ c') (h : d < d') :
    effort a b c d e < effort a' b' c' d' e' := by
  rw [effort_lt_iff]
  omega

theorem effort_lt_of_fifth (ha : a ≤ a') (hb : b ≤ b') (hc : c ≤ c') (hd : d ≤ d') (h : e < e') :
    effort a b c d e < effort a' b' c' d' e' := by
  rw [effort_lt_iff]
  omega

end Effort

/-! ## Parties that know the time -/

section Parties

variable {δ φ : Type}

/-- An act after which a party knows the moment of the reply. If there is no reply, it is still the
moment `now`. -/
def Action.Attentive (now : Moment) : Action (Party δ φ) → Prop
  | .silent next => next.moment = now
  | .read _ next => ∀ reply moment, (next reply moment).moment = moment
  | .write _ next => ∀ reply moment, (next reply moment).moment = moment
  | .report _ next => ∀ moment, (next moment).moment = moment
  | .fetch _ _ next => ∀ reply moment, (next reply moment).moment = moment
  | .openFile _ next => ∀ reply moment, (next reply moment).moment = moment
  | .store _ next => ∀ reply moment, (next reply moment).moment = moment
  | .closeFile _ next => ∀ reply moment, (next reply moment).moment = moment
  | .stop _ => True

namespace Party

variable {s : Party δ φ}

@[simp]
theorem moment_retry (s : Party δ φ) (stage : Stage) (step : φ) :
    (s.retry stage step).moment = s.moment := by
  unfold retry
  dsimp only
  split <;> rfl

theorem attentive_unlessAborted {act : Action (Party δ φ)} (h : act.Attentive s.moment) :
    (s.unlessAborted act).Attentive s.moment := by
  unfold unlessAborted
  split
  · rfl
  · exact h

theorem attentive_write (s : Party δ φ) (data : Bytes) (step : φ) :
    (s.write data step).Attentive s.moment := by
  intro reply moment
  cases reply with
  | error e => rfl
  | ok taken =>
    dsimp only
    split <;> rfl

/-- A party that listens knows the time if it does not lose it over what it hears. -/
theorem attentive_listen {task : Line.Task} {again : Line.Task → φ}
    {heard : Option Bytes → Party δ φ → Party δ φ}
    (hheard : ∀ result s, (heard result s).moment = s.moment) :
    (s.listen task again heard).Attentive s.moment := by
  unfold listen
  split
  · exact hheard _ _
  · intro reply moment
    cases reply with
    | error e => rfl
    | ok arrived =>
      dsimp only
      split
      · exact hheard _ _
      · rfl

/-- The last acts of a party are attentive if its own are. -/
theorem attentive_act {own : φ → Action (Party δ φ)}
    (hown : ∀ step, s.phase = .doing step → (own step).Attentive s.moment) :
    (s.act own).Attentive s.moment := by
  unfold act
  cases hphase : s.phase with
  | doing step => exact hown step hphase
  | cancelling ending => exact fun _ _ => rfl
  | _ => trivial

/-- The number of failures that are still allowed in the exchange in hand. -/
def allowance (s : Party δ φ) : Nat :=
  s.options.config.maxRetries.toNat - s.session.retries

/-- A party that goes on has not used up its retries. Before its first step it may have none. -/
def Paced (s : Party δ φ) (first step : φ) : Prop :=
  s.session.retries < s.options.config.maxRetries.toNat ∨ step = first ∧ s.session.retries = 0

/-- What is left to be done by a party: at its step, or to tell its peer that it gives up. -/
def burden (s : Party δ φ) (own : φ → Effort) : Effort :=
  match s.phase with
  | .doing step => own step
  | .cancelling _ => effort 0 0 1 0 0
  | .over _ => effort 0 0 0 0 0

section Burden

variable {s' : Party δ φ} {own own' : φ → Effort} {step : φ} {ending : Ending}

theorem burden_of_doing (h : s.phase = .doing step) : s.burden own = own step := by
  rw [burden, h]

/-- A party that has come to an end has less left to be done. -/
theorem burden_lt_of_parted (hparted : s'.Parted) (hphase : s.phase = .doing step)
    (hown : effort 0 0 1 0 0 < own step) : s'.burden own' < s.burden own := by
  rw [burden_of_doing hphase]
  obtain ⟨ending, h | h⟩ := hparted
  · rwa [burden, h]
  · rw [burden, h]
    exact (effort_lt_of_third le_rfl le_rfl Nat.one_pos).trans hown

/-- A party that has told its peer has nothing left to be done. -/
theorem burden_lt_of_cancelling (hover : s'.phase = .over ending)
    (hphase : s.phase = .cancelling ending) : s'.burden own' < s.burden own := by
  rw [burden, burden, hover, hphase]
  exact effort_lt_of_third le_rfl le_rfl Nat.one_pos

end Burden

/-- If the party has read in vain, this has taken as long as it may. -/
def Punctual (s : Party δ φ) (event : Event) (next : Party δ φ) : Prop :=
  ∀ timeout, event = .read timeout (.ok []) → next.moment.now = s.moment.now + timeout

end Party

/-- A party knows the moment of its surroundings after an act that is attentive. -/
theorem Action.Attentive.moment_eq {env : Surroundings ω} {w w' : ω}
    {a : Action (Party δ φ)} {s' : Party δ φ} (h : a.Attentive (env.moment w))
    (hstep : a.step env w = .ok (s', w')) : s'.moment = env.moment w' := by
  cases a with
  | stop => cases hstep
  | silent =>
    cases hstep
    exact h
  | report =>
    cases hstep
    exact h _
  | read | write | fetch | openFile | store | closeFile =>
    cases hstep
    exact h _ _

/-- A moment lasts until the next reply. -/
theorem Action.Attentive.ensures_moment {now : Moment} {a : Action (Party δ φ)}
    (h : a.Attentive now) : a.Ensures fun event next => event = .silent → next.moment = now := by
  cases a with
  | silent => exact fun _ => h
  | stop => trivial
  | report => exact fun _ => nofun
  | read | write | fetch | openFile | store | closeFile => exact fun _ _ => nofun

/-- Bytes that have arrived count less than those that are still to come, so each reading after
which a party goes on waiting leaves less to come. -/
theorem Line.Task.queue_lt_of_hear {task again : Line.Task} {pending left arrived used : Bytes}
    {now now' timeout q q' : Nat} (hlook : task.look pending now = .read timeout left)
    (hhear : task.hear left arrived now' = .waiting again used)
    (hpunctual : arrived = [] → now' = now + timeout) (hq : q' + arrived.length ≤ q) :
    2 * q' + used.length < 2 * q + pending.length := by
  -- A reading in vain takes until the deadline, and then the wait would be over.
  have hne : arrived ≠ [] := by
    rintro rfl
    rw [hpunctual rfl] at hhear
    exact Line.Task.ne_nil_of_hear_waiting hlook hhear rfl
  have hpos := List.length_pos_iff.mpr hne
  -- What has arrived counted twice before, and counts once now.
  obtain ⟨first, hfirst, -⟩ := Line.Task.look_read hlook
  obtain ⟨rfl, -⟩ := Line.Task.hear_waiting hhear
  have hlength := congrArg List.length hfirst
  simp only [List.length_append] at hlength ⊢
  omega

namespace Surroundings.Patient

variable {env : Surroundings ω} {good : ω → Prop} {queued : ω → Nat}
  {act : Party δ φ → Action (Party δ φ)}

/-- What is known after an act in patient surroundings. -/
theorem of_step (h : env.Patient good queued) {w w' : ω} {s s' : Party δ φ}
    (hattentive : (act s).Attentive s.moment) (hw : good w) (hmoment : s.moment = env.moment w)
    (hstep : (act s).step env w = .ok (s', w')) :
    good w' ∧ s'.moment = env.moment w' ∧ s.Punctual ((act s).event env w) s' := by
  have hreplies := Action.replies_of_step hstep
  have hmoment' : s'.moment = env.moment w' := by
    rw [hmoment] at hattentive
    exact hattentive.moment_eq hstep
  refine ⟨h.good_of_replies hw hreplies, hmoment', ?_⟩
  intro timeout hread
  rw [hread] at hreplies
  rw [hmoment', hmoment]
  exact h.now_eq hw hreplies

/-- A party knows the moment of patient surroundings all along its run. -/
theorem good_run (h : env.Patient good queued) (hattentive : ∀ s, (act s).Attentive s.moment)
    (acts : Nat) {s : Party δ φ} {w : ω} (hw : good w) (hmoment : s.moment = env.moment w) :
    good (Action.run env act acts s w).world ∧
      (Action.run env act acts s w).state.moment =
        env.moment (Action.run env act acts s w).world := by
  refine @Action.invariant_run _ _ env act (fun _ s w => good w ∧ s.moment = env.moment w) ?_ acts
    [] s w ⟨hw, hmoment⟩
  rintro past s w s' w' ⟨hw, hmoment⟩ hstep
  obtain ⟨hw', hmoment', -⟩ := h.of_step (hattentive s) hw hmoment hstep
  exact ⟨hw', hmoment'⟩

/-- A party comes to its end in patient surroundings if there is less left to be done after each of
its acts. -/
theorem exists_ending {α : Type} {less : α → α → Prop} (hless : WellFounded less)
    (h : env.Patient good queued) (hattentive : ∀ s, (act s).Attentive s.moment)
    (measure : Party δ φ → ω → α) {inv : Party δ φ → ω → Prop}
    (hinv : ∀ s w s' w', inv s w → (act s).step env w = .ok (s', w') → inv s' w')
    (hlower : ∀ s w s' w', inv s w → good w → (act s).step env w = .ok (s', w') →
      s.Punctual ((act s).event env w) s' → less (measure s' w') (measure s w))
    {s : Party δ φ} {w : ω} (hw : good w) (hmoment : s.moment = env.moment w) (hs : inv s w) :
    ∃ acts, (Action.run env act acts s w).ending ≠ none := by
  have hgoal := @Action.exists_goal_of_measure _ _ env act _ _ hless measure
    (fun s w => inv s w ∧ good w ∧ s.moment = env.moment w) (fun _ => False) ?_ s w
    ⟨hs, hw, hmoment⟩
  · simpa using hgoal
  · rintro s w s' w' ⟨hs, hw, hmoment⟩ hstep
    obtain ⟨hw', hmoment', hpunctual⟩ := h.of_step (hattentive s) hw hmoment hstep
    exact .inr ⟨⟨hinv s w s' w' hs hstep, hw', hmoment'⟩,
      hlower s w s' w' hs hw hstep hpunctual⟩

/-- What every act preserves with punctual replies holds along every run in patient
surroundings. -/
theorem invariant_run (h : env.Patient good queued)
    (hattentive : ∀ s, (act s).Attentive s.moment)
    {inv : List (Act (Party δ φ)) → Party δ φ → Prop}
    (hstep : ∀ past s, inv past s → (act s).Ensures fun event next =>
      s.Punctual event next → inv (past ++ [⟨s, event⟩]) next)
    (acts : Nat) {past : List (Act (Party δ φ))} {s : Party δ φ} {w : ω} (hw : good w)
    (hmoment : s.moment = env.moment w) (hinv : inv past s) :
    inv (past ++ Action.trace env act acts s w) (Action.run env act acts s w).state := by
  have hrun := @Action.invariant_run _ _ env act
    (fun past s w => good w ∧ s.moment = env.moment w ∧ inv past s) ?_ acts past s w
    ⟨hw, hmoment, hinv⟩
  · exact hrun.2.2
  · rintro past s w s' w' ⟨hw, hmoment, hinv⟩ hnext
    obtain ⟨hw', hmoment', hpunctual⟩ := h.of_step (hattentive s) hw hmoment hnext
    exact ⟨hw', hmoment', (hstep past s hinv).of_step hnext hpunctual⟩

end Surroundings.Patient

/-! ## Requests to stop -/

namespace Party

variable {env : Surroundings ω} {act : Party δ φ → Action (Party δ φ)} {sofar : Nat}
  {s : Party δ φ} {w : ω}

/-- A stop is requested with the reply to the last of so many acts, or before the first one, and
stays requested. -/
structure Requested (env : Surroundings ω) (act : Party δ φ → Action (Party δ φ)) (sofar : Nat)
    (s : Party δ φ) (w : ω) : Prop where
  /-- The last act was begun without a request. -/
  before : ∀ a, (Action.trace env act sofar s w).getLast? = some a → a.state.moment.abort = false
  /-- From then on there is a request. -/
  after : ∀ more, (Action.run env act more (Action.run env act sofar s w).state
    (Action.run env act sofar s w).world).state.moment.abort = true

theorem Requested.abort_of_mem (h : Requested env act sofar s w) {more : Nat} {a : Act (Party δ φ)}
    (ha : a ∈ Action.trace env act more (Action.run env act sofar s w).state
      (Action.run env act sofar s w).world) : a.state.moment.abort = true := by
  obtain ⟨acts, hstate⟩ := Action.exists_state_of_mem_trace ha
  rw [← hstate]
  exact h.after acts

/-- A request that lasts still does so after an act. -/
theorem abort_run_of_step (habort : ∀ more, (Action.run env act more s w).state.moment.abort = true)
    {s' : Party δ φ} {w' : ω} (hstep : (act s).step env w = .ok (s', w')) (more : Nat) :
    (Action.run env act more s' w').state.moment.abort = true := by
  have hnext := habort (more + 1)
  rwa [Action.run, hstep] at hnext

/-- A party notices a request in surroundings in which requests stay. -/
theorem requested_of_stays
    (hstays : ∀ {w w' : ω} {event : Event}, env.Replies w event w' →
      (env.moment w).abort = true → (env.moment w').abort = true)
    (hattentive : ∀ s, (act s).Attentive s.moment) (hmoment : s.moment = env.moment w)
    (hbefore : (Action.trace env act sofar s w).getLast?.map (·.state.moment.abort) = some false)
    (habort : (Action.run env act sofar s w).state.moment.abort = true) :
    Requested env act sofar s w := by
  have hstep : ∀ (s : Party δ φ) (w : ω) s' w', s.moment = env.moment w →
      (act s).step env w = .ok (s', w') → s'.moment = env.moment w' := by
    intro s w s' w' hmoment hstep
    have hact := hattentive s
    rw [hmoment] at hact
    exact hact.moment_eq hstep
  have hfound := @Action.invariant_run _ _ env act (fun _ s w => s.moment = env.moment w)
    (fun _ s w s' w' => hstep s w s' w') sofar [] s w hmoment
  refine ⟨fun a ha => ?_, fun more => ?_⟩
  · rw [ha] at hbefore
    exact Option.some.inj hbefore
  have hrun := @Action.invariant_run _ _ env act
    (fun _ s w => s.moment = env.moment w ∧ s.moment.abort = true) ?_ more [] _ _ ⟨hfound, habort⟩
  · exact hrun.2
  · rintro past s w s' w' ⟨hmoment, habort⟩ hnext
    have hmoment' := hstep s w s' w' hmoment hnext
    refine ⟨hmoment', ?_⟩
    rw [hmoment] at habort
    rw [hmoment']
    exact hstays (Action.replies_of_step hnext) habort

end Party

end Parties

end BlockTransfer
