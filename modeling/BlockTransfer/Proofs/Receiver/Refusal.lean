import BlockTransfer.Proofs.Receiver.Progress
import BlockTransfer.Proofs.Timing
import BlockTransfer.Sink.Memory

/-!
# The silence before a refusal

A damaged block is refused once the line is silent. A receiver reads from the line for the whole
period of silence, begins again with every arrival, and refuses the block after the first reading in
vain. It does not ask how long that reading has taken. If it took the whole period there was
silence, but a channel that comes back early with nothing lets the receiver interrupt its peer.

## Main definitions

* `Receiver.Disturbed`: since a damaged block was judged every reading has brought bytes.
* `Receiver.AwaitsSilence`: how a run goes on while silence is awaited.

## Main results

* `Receiver.trace_refuse`: what has come before a refusal, and when.
* `Receiver.awaitsSilence_of_purge`: a receiver that awaits silence refuses the block in the end.
-/

namespace BlockTransfer.Receiver

/-- Since a damaged block was judged every reading has brought bytes. -/
def Disturbed (period : Nat) (purpose : Purpose) (past : List (Act Receiver)) : Prop :=
  ∃ earlier judged waits e, past = earlier ++ judged :: waits ∧
    judged.state.phase = .doing (.judge purpose (.corrupt e)) ∧
    ∀ b ∈ waits, ∃ data, data ≠ [] ∧ b.event = .read period (.ok data)

/-- What has come before a step at which silence is awaited, or is known. In the middle of a file
that is so only if blocks do not come in a stream. -/
def Hushes (period : Nat) (past : List (Act Receiver)) (s : Receiver) : Step → Prop
  | .purge purpose task =>
    (purpose = .data → s.streaming = false) ∧ task = .quiet period ∧ Disturbed period purpose past
  | .refuse purpose =>
    (purpose = .data → s.streaming = false) ∧ s.pending = [] ∧ ∃ before vain,
      past = before ++ [vain] ∧ Disturbed period purpose before ∧ vain.event = .read period (.ok [])
  | _ => True

/-- How a run goes on while silence is awaited: it is awaited again after bytes have arrived, and
after a reading in vain the block is refused. -/
inductive AwaitsSilence (period : Nat) : List (Act Receiver) → Prop
  /-- The run is not followed any further. -/
  | cut : AwaitsSilence period []
  /-- Bytes have arrived. -/
  | arrival {s : Receiver} {data : Bytes} {after : List (Act Receiver)} (hdata : data ≠ [])
      (h : AwaitsSilence period after) :
    AwaitsSilence period (⟨s, .read period (.ok data)⟩ :: after)
  /-- The line cannot be read. -/
  | broken {s : Receiver} {e : IoError} {after : List (Act Receiver)} :
    AwaitsSilence period (⟨s, .read period (.error e)⟩ :: after)
  /-- Nothing has arrived. -/
  | silence {s : Receiver} {after : List (Act Receiver)}
      (h : ∀ b ∈ after.head?, ∃ reply, b.event = .write [Control.nak.byte] reply) :
    AwaitsSilence period (⟨s, .read period (.ok [])⟩ :: after)

/-! ## Acts -/

section Acts

variable {s s' : Receiver} {step step' : Step} {event : Event} {purpose : Purpose} {period : Nat}
  {past : List (Act Receiver)}

theorem act_of_purge (hphase : s.phase = .doing (.purge purpose (.quiet period))) :
    act s = .read period fun reply moment =>
      match reply with
      | .error e => ({ s with pending := [], moment } : Receiver).fail (.channel e)
      | .ok [] => { s with pending := [], moment, phase := .doing (.refuse purpose) }
      | .ok data =>
        { s with pending := data, moment, phase := .doing (.purge purpose (.quiet period)) } := by
  rw [act, Party.act, hphase]
  simp only [step, Party.listen, Line.Task.look, Action.read.injEq, true_and]
  funext reply moment
  cases reply with
  | error e => rfl
  | ok data => cases data <;> rfl

theorem act_of_refuse (hphase : s.phase = .doing (.refuse purpose)) :
    act s = s.write [Control.nak.byte] (.missed purpose false) := by
  rw [act, Party.act, hphase]
  rfl

theorem Disturbed.concat (h : Disturbed period purpose past) {data : Bytes} (hdata : data ≠ [])
    (s : Receiver) : Disturbed period purpose (past ++ [⟨s, .read period (.ok data)⟩]) := by
  obtain ⟨earlier, judged, waits, e, rfl, hjudged, hwaits⟩ := h
  refine ⟨earlier, judged, waits ++ [⟨s, .read period (.ok data)⟩], e, by simp, hjudged, ?_⟩
  exact List.forall_mem_append.mpr
    ⟨hwaits, List.forall_mem_singleton.mpr ⟨data, hdata, rfl⟩⟩

/-- A receiver refuses no block but after it has awaited silence. -/
theorem Turns.hushes (h : Turns s step event s' step') (hphase : s.phase = .doing step)
    (hperiod : s.options.config.purgeTimeout.toNat = period) (hpast : Hushes period past s step)
    (hreads : ∀ purpose, step = .purge purpose (.quiet period) →
      ∃ reply, event = .read period reply) :
    Hushes period (past ++ [⟨s, event⟩]) s' step' := by
  cases h with
  | speaks h => cases h <;> trivial
  | purge hstreaming =>
    subst hperiod
    exact ⟨hstreaming, rfl, past, _, [], _, rfl, hphase, List.forall_mem_nil _⟩
  | @arrival step task task' timeout left arrived pending moment htask hlook hhear =>
    cases step with
    | purge purpose task =>
      obtain ⟨hstreaming, rfl, hdisturbed⟩ := hpast
      cases htask
      cases hlook
      simp only [Line.Task.hear] at hhear
      split at hhear
      · cases hhear
      · rename_i harrived
        cases hhear
        refine ⟨hstreaming, rfl, hdisturbed.concat ?_ s⟩
        simpa using harrived
    | listen | collect => trivial
    | _ => cases htask
  | @purged purpose timeout period' moment =>
    obtain ⟨hstreaming, htask, hdisturbed⟩ := hpast
    cases htask
    obtain ⟨reply, hread⟩ := hreads purpose rfl
    cases hread
    exact ⟨hstreaming, rfl, past, _, rfl, hdisturbed, rfl⟩
  | _ => trivial

end Acts

/-! ## Runs -/

section Runs

variable {ω : Type} {env : Surroundings ω} {options : Options} {moment : Moment} {w : ω}
  {acts : Nat} {before after past : List (Act Receiver)} {a : Act Receiver} {s : Receiver}
  {purpose : Purpose} {period : Nat}

/-- What is known of the past of a receiver as long as it has not come to its end. -/
def Hushing (options : Options) (past : List (Act Receiver)) (s : Receiver) : Prop :=
  ∀ step, s.phase = .doing step → s.Placed step ∧ s.options = options ∧
    Hushes options.config.purgeTimeout.toNat past s step

theorem hushing_act (h : Hushing options past s) :
    (act s).Ensures fun event next => Hushing options (past ++ [⟨s, event⟩]) next := by
  have hreads : (act s).Ensures fun event _ => ∀ purpose period,
      s.phase = .doing (.purge purpose (.quiet period)) → ∃ reply, event = .read period reply := by
    by_cases hpurge : ∃ purpose period, s.phase = .doing (.purge purpose (.quiet period))
    · obtain ⟨purpose, period, hphase⟩ := hpurge
      rw [act_of_purge hphase]
      intro reply moment purpose' period' hphase'
      rw [hphase] at hphase'
      cases hphase'
      exact ⟨reply, rfl⟩
    · exact Action.ensures_of_forall (fun _ _ _ _ hphase => absurd ⟨_, _, hphase⟩ hpurge) _
  have hcourse : (act s).Ensures fun event next => (∀ purpose period,
      s.phase = .doing (.purge purpose (.quiet period)) → ∃ reply, event = .read period reply) →
        Hushing options (past ++ [⟨s, event⟩]) next := by
    refine ensures_act_of_course (fun step hphase => (h step hphase).1) ?_ ?_
    · intro step event next hphase hcourse hreads
      obtain ⟨hplaced, rfl, hpast⟩ := h step hphase
      rcases hcourse.turns_or_parted with ⟨s', step', rfl, hturns⟩ | hparted
      · rintro _ ⟨⟩
        refine ⟨hturns.placed hplaced, hturns.options_eq, ?_⟩
        refine hturns.hushes hphase rfl hpast fun purpose hpurge => ?_
        exact hreads purpose _ (hpurge ▸ hphase)
      · exact fun step' hphase' => absurd hphase' (hparted.phase_ne step')
    · rintro ending reply moment hphase - step ⟨⟩
  exact (hreads.and hcourse).mono fun _ _ hboth => hboth.2 hboth.1

theorem hushing_new (options : Options) (moment : Moment) :
    Hushing options [] (new options moment) := by
  rintro step ⟨⟩
  exact ⟨trivial, rfl, trivial⟩

theorem hushing_of_trace_eq
    (h : Action.trace env act acts (new options moment) w = before ++ a :: after) :
    Hushing options before a.state := by
  obtain ⟨sofar, _, _, _, _, rfl, hstate, -⟩ := Action.exists_step_of_trace_eq h
  rw [← hstate]
  exact Action.invariant_trace (fun _ _ => hushing_act) env sofar w (hushing_new options moment)

/-- Whatever the peer does: when a block is refused the receiver has awaited silence since it found
the block damaged. Every reading but the last one has brought bytes, and nothing has arrived since
the last one began. If that reading took the whole period, the line has been silent for so long
before the refusal, and whatever arrives after it comes by so much later than anything before. -/
theorem trace_refuse (hclock : env.Onward)
    (h : Action.trace env act acts (new options (env.moment w)) w = before ++ a :: after)
    (hrefuse : a.state.phase = .doing (.refuse purpose)) :
    let period := options.config.purgeTimeout.toNat
    let now := a.state.moment.now
    let last := (Action.run env act acts (new options (env.moment w)) w).state.moment.now
    ∃ (earlier waits : List (Act Receiver)) (judged vain : Act Receiver) (e : FrameError)
      (reply : Except IoError Nat),
      before = earlier ++ judged :: (waits ++ [vain]) ∧
      judged.state.phase = .doing (.judge purpose (.corrupt e)) ∧
      (∀ b ∈ waits, ∃ data, data ≠ [] ∧ b.event = .read period (.ok data)) ∧
      vain.event = .read period (.ok []) ∧
      a.state.pending = [] ∧ a.event = .write [Control.nak.byte] reply ∧
      (∀ x ∈ Party.timeline before now, x.1.arrived ≠ [] → x.2 ≤ vain.state.moment.now) ∧
      (vain.state.moment.now + period ≤ now →
        ∀ x ∈ Party.timeline before now, x.1.arrived ≠ [] →
          x.2 + period ≤ now ∧ ∀ y ∈ Party.timeline (a :: after) last, x.2 + period ≤ y.2) := by
  intro period now last
  obtain ⟨-, -, -, hpending, begun, vain, hbefore, hdisturbed, hvain⟩ :=
    hushing_of_trace_eq h _ hrefuse
  obtain ⟨earlier, judged, waits, e, hbegun, hjudged, hwaits⟩ := hdisturbed
  obtain ⟨_, _, _, w', _, -, -, -, hevent, -⟩ := Action.exists_step_of_trace_eq h
  rw [act_of_refuse hrefuse] at hevent
  have htimes : Party.Chronological (before ++ a :: after) last := by
    rw [← h]
    exact Party.chronological_run hclock attentive_act acts rfl
  -- Nothing has arrived with the last reading, so all that has arrived came before it.
  have hsilent : ∀ x ∈ Party.timeline before now, x.1.arrived ≠ [] →
      x.2 ≤ vain.state.moment.now := by
    intro x hx harrived
    rw [hbefore, Party.timeline_concat] at hx
    rw [hbefore, List.append_assoc, List.singleton_append] at htimes
    rcases List.mem_append.mp hx with hx | hx
    · exact htimes.le_of_mem_before hx
    · rw [List.mem_singleton.mp hx, hvain] at harrived
      exact absurd rfl harrived
  refine ⟨earlier, waits, judged, vain, e, _, ?_, hjudged, hwaits, hvain, hpending, hevent,
    hsilent, ?_⟩
  · rw [hbefore, hbegun, List.append_assoc, List.cons_append]
  · intro hwhole x hx harrived
    have hearly := hsilent x hx harrived
    refine ⟨by omega, fun y hy => ?_⟩
    have hlate := htimes.le_of_mem_after hy
    omega

/-- What a block is refused for, if one is. -/
def refusalOf (s : Receiver) : Option Purpose :=
  match s.phase with
  | .doing (.refuse purpose) => some purpose
  | _ => none

theorem refusalOf_eq_some_iff :
    refusalOf s = some purpose ↔ s.phase = .doing (.refuse purpose) := by
  unfold refusalOf
  split
  · rename_i hphase
    simp [hphase]
  · rename_i hphase
    exact ⟨nofun, fun hrefuse => absurd hrefuse (hphase purpose)⟩

/-- A peer that answers the first signal with a byte that begins nothing, and goes on. -/
def pausing (more : List Script.Chunk) : Script.Play where
  replies := [⟨0, .ok [0xFF]⟩ :: more]

/-- A pause that is shorter than the silence which is awaited does not end the wait. -/
theorem trace_refuse_pausing :
    let setup : Script.Setup MemorySink := { sink := MemorySink.sink }
    let options : Options := { protocol := .xmodem, variant := .crc }
    let env := Script.World.surroundings setup
    let w := Script.World.new setup (pausing [⟨50, .ok [0xFF]⟩]) [] {}
    env.Onward ∧ ∃ (before after : List (Act Receiver)) (a : Act Receiver),
      Action.trace env act 20 (new options (env.moment w)) w = before ++ a :: after ∧
      a.state.phase = .doing (.refuse (.solicited .handshake)) ∧ a.state.moment.now = 150 ∧
      (∃ reply, a.event = .write [Control.nak.byte] reply) ∧
      ∀ x ∈ Party.timeline before 150, x.1.arrived ≠ [] → x.2 + 100 ≤ 150 := by
  intro setup options env w
  let run := Action.trace env act 20 (new options (env.moment w)) w
  have hrefused : (run.drop 9).head?.any (fun a =>
      refusalOf a.state = some (.solicited .handshake) ∧ a.state.moment.now = 150) = true := by
    decide +kernel
  have hlast : (run.take 9).getLast?.map (·.state.moment.now) = some 50 := by
    decide +kernel
  obtain ⟨a, hhead, hrefused⟩ := (Option.any_eq_true _ _).mp hrefused
  obtain ⟨hrefusal, hnow⟩ := of_decide_eq_true hrefused
  have hphase := refusalOf_eq_some_iff.mp hrefusal
  obtain ⟨after, hafter⟩ := List.head?_eq_some_iff.mp hhead
  have htrace : run = run.take 9 ++ a :: after := by
    rw [← hafter, List.take_append_drop]
  have honward := Script.World.onward setup
  obtain ⟨earlier, waits, judged, vain, e, reply, hcut, -, -, -, -, hevent, -, hsilent⟩ :=
    trace_refuse honward htrace hphase
  refine ⟨honward, run.take 9, after, a, htrace, hphase, hnow, ⟨reply, hevent⟩, ?_⟩
  -- The last reading began at 50 and took the whole period.
  have hvain : vain.state.moment.now = 50 := by
    rw [hcut, ← List.cons_append, ← List.append_assoc, List.getLast?_concat] at hlast
    exact Option.some.inj hlast
  rw [hnow, hvain] at hsilent
  exact fun x hx harrived => (hsilent (by decide) x hx harrived).1

/-- A reading that comes back early with nothing counts as silence: the block is refused at once,
while more of it is still on its way. -/
theorem rehearseReceive_of_early_return :
    let setup : Script.Setup MemorySink := { sink := MemorySink.sink }
    let options : Options := { protocol := .xmodem, variant := .crc, config := { maxRetries := 1 } }
    let env := Script.World.surroundings setup
    let w := Script.World.new setup (pausing [⟨0, .ok []⟩, ⟨50, .ok [0xFF]⟩]) [] {}
    let run := Action.run env act 40 (new options (env.moment w)) w
    let line := Party.timeline (Action.trace env act 40 (new options (env.moment w)) w)
      run.state.moment.now
    options.config.purgeTimeout = 100 ∧ run.ending = some (.error (.timeout .handshake 1)) ∧
      line.filterMap (fun x => if x.1.arrived = [] then none else some x.2) = [0] ∧
      Party.writings line =
        [([Control.crcRequest.byte], 0), ([Control.nak.byte], 0),
          ([Control.can.byte, Control.can.byte], 0)] ∧
      run.world.wire.queue = [(50, .ok [0xFF])] := by
  decide +kernel

/-- A receiver that awaits silence refuses the block in the end, unless the line fails. -/
theorem awaitsSilence_of_purge (hphase : s.phase = .doing (.purge purpose (.quiet period)))
    (env : Surroundings ω) (acts : Nat) (w : ω) :
    AwaitsSilence period (Action.trace env act acts s w) := by
  induction acts generalizing s w with
  | zero => exact .cut
  | succ acts ih =>
    rw [Action.trace, act_of_purge hphase]
    simp only [Action.step, Action.event]
    cases (env.read w period).1 with
    | error e => exact .broken
    | ok data =>
      cases data with
      | cons byte data => exact .arrival (List.cons_ne_nil _ _) (ih rfl _)
      | nil =>
        refine .silence fun b hb => ?_
        obtain ⟨after, hafter⟩ := List.head?_eq_some_iff.mp hb
        obtain ⟨_, _, _, -, -, rfl, -⟩ := Action.exists_step_of_trace_eq_cons hafter
        rw [act_of_refuse rfl]
        exact ⟨_, rfl⟩

end Runs

end BlockTransfer.Receiver
