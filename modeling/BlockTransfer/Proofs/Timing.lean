import BlockTransfer.Proofs.Rehearsal

/-!
# The times of a run

Every reply comes at a moment, which a party knows from then on. So the acts of a run tell when each
thing was seen: at the time that stands in the state after it. If the clock of the surroundings
never runs backwards, what is seen later is seen at a later time, or at the same.

## Main definitions

* `Surroundings.Onward`: a clock that never runs backwards.
* `Surroundings.Timely`: no reading takes longer than it may.
* `Party.timeline`: what is seen in some acts, each thing with its time.
* `Party.writings`, `Party.readings`: what is written and what is read, and when.
* `Party.Chronological`: the times of some acts never decrease.

## Main results

* `Party.chronological_run`: the times of every run never decrease if the clock runs onward.
* `Party.invariant_run_of_timely`: what every act preserves with replies in time holds along every
  run.
* `Script.World.onward`: the clock of a rehearsal runs onward.
* `Script.World.timely`: no reading of a rehearsal takes longer than it may.
-/

namespace BlockTransfer

/-- The clock never runs backwards. -/
structure Surroundings.Onward {ω : Type} (env : Surroundings ω) : Prop where
  now_le {w w' : ω} {event : Event} :
    env.Replies w event w' → (env.moment w).now ≤ (env.moment w').now

/-- Readings move the clock forward, and by no more than their timeouts. They may come back early
with nothing. -/
structure Surroundings.Timely {ω : Type} (env : Surroundings ω) : Prop where
  now_le (w : ω) (timeout : Nat) :
    (env.moment w).now ≤ (env.moment (env.read w timeout).2).now
  now_read_le (w : ω) (timeout : Nat) :
    (env.moment (env.read w timeout).2).now ≤ (env.moment w).now + timeout

namespace Party

variable {ω δ φ : Type}

/-! ## Timelines -/

/-- The time at which some acts begin. If there are none it is the given one. -/
def startOf (acts : List (Act (Party δ φ))) (now : Nat) : Nat :=
  (acts.head?.map (·.state.moment.now)).getD now

/-- What is seen in some acts, each thing with the time of the reply. The last reply comes at the
given time. -/
def timeline : List (Act (Party δ φ)) → Nat → List (Event × Nat)
  | [], _ => []
  | a :: acts, now => (a.event, startOf acts now) :: timeline acts now

/-- What is written in a timeline, and when. -/
def writings (line : List (Event × Nat)) : List (Bytes × Nat) :=
  line.filterMap fun x =>
    match x.1 with
    | .write data _ => some (data, x.2)
    | _ => none

/-- What the readings of a timeline have brought, and when. -/
def readings (line : List (Event × Nat)) : List (Bytes × Nat) :=
  line.filterMap fun x =>
    match x.1 with
    | .read _ (.ok data) => some (data, x.2)
    | _ => none

section Timeline

variable {before after acts : List (Act (Party δ φ))} {a : Act (Party δ φ)} {now : Nat}
  {x : Event × Nat}

theorem timeline_append (before after : List (Act (Party δ φ))) (now : Nat) :
    timeline (before ++ after) now = timeline before (startOf after now) ++ timeline after now := by
  induction before with
  | nil => rfl
  | cons a before ih =>
    have hstart : startOf (before ++ after) now = startOf before (startOf after now) := by
      cases before <;> rfl
    rw [List.cons_append, timeline, timeline, ih, hstart, List.cons_append]

theorem timeline_concat (past : List (Act (Party δ φ))) (a : Act (Party δ φ)) (now : Nat) :
    timeline (past ++ [a]) now = timeline past a.state.moment.now ++ [(a.event, now)] :=
  timeline_append past [a] now

/-- One more act may have brought something more. -/
theorem readings_concat (past : List (Act (Party δ φ))) (a : Act (Party δ φ)) (now : Nat) :
    readings (timeline (past ++ [a]) now) =
      readings (timeline past a.state.moment.now) ++ readings [(a.event, now)] := by
  rw [timeline_concat, readings, List.filterMap_append]
  rfl

/-- Most acts bring nothing. -/
theorem readings_concat_of_eq_nil {past : List (Act (Party δ φ))}
    (h : readings [(a.event, now)] = []) :
    readings (timeline (past ++ [a]) now) = readings (timeline past a.state.moment.now) := by
  rw [readings_concat, h, List.append_nil]

/-- Everything is seen when the next act begins, or at the end. -/
theorem time_of_mem_timeline (h : x ∈ timeline (a :: acts) now) :
    x.2 = now ∨ ∃ b ∈ acts, x.2 = b.state.moment.now := by
  induction acts generalizing a with
  | nil =>
    rw [List.mem_singleton.mp h]
    exact .inl rfl
  | cons b acts ih =>
    rcases List.mem_cons.mp h with rfl | hmem
    · exact .inr ⟨b, List.mem_cons_self, rfl⟩
    · rcases ih hmem with hlast | ⟨c, hc, htime⟩
      · exact .inl hlast
      · exact .inr ⟨c, List.mem_cons_of_mem _ hc, htime⟩

/-- The times at which some acts begin never decrease, and no act begins after the given time. -/
structure Chronological (acts : List (Act (Party δ φ))) (now : Nat) : Prop where
  pairwise : acts.Pairwise fun a b => a.state.moment.now ≤ b.state.moment.now
  le_now : ∀ a ∈ acts, a.state.moment.now ≤ now

/-- What is seen before an act is not seen later than that. -/
theorem Chronological.le_of_mem_before (h : Chronological (before ++ a :: after) now)
    (hx : x ∈ timeline before a.state.moment.now) : x.2 ≤ a.state.moment.now := by
  cases before with
  | nil => cases hx
  | cons first before =>
    rcases time_of_mem_timeline hx with htime | ⟨b, hb, htime⟩
    · exact htime.le
    · rw [htime]
      exact (List.pairwise_append.mp h.pairwise).2.2 b (List.mem_cons_of_mem _ hb) a
        List.mem_cons_self

/-- What is seen from an act on is not seen earlier than that. -/
theorem Chronological.le_of_mem_after (h : Chronological (before ++ a :: after) now)
    (hx : x ∈ timeline (a :: after) now) : a.state.moment.now ≤ x.2 := by
  rcases time_of_mem_timeline hx with htime | ⟨b, hb, htime⟩
  · rw [htime]
    exact h.le_now a (by simp)
  · rw [htime]
    exact List.rel_of_pairwise_cons (List.pairwise_append.mp h.pairwise).2.1 hb

theorem Chronological.concat (h : Chronological acts a.state.moment.now)
    (hnow : a.state.moment.now ≤ now) : Chronological (acts ++ [a]) now where
  pairwise := by
    refine List.pairwise_append.mpr ⟨h.pairwise, List.pairwise_singleton _ _, ?_⟩
    exact fun b hb => List.forall_mem_singleton.mpr (h.le_now b hb)
  le_now := List.forall_mem_append.mpr
    ⟨fun b hb => (h.le_now b hb).trans hnow, List.forall_mem_singleton.mpr hnow⟩

end Timeline

/-! ## Runs -/

variable {env : Surroundings ω} {act : Party δ φ → Action (Party δ φ)} {s : Party δ φ} {w : ω}

/-- The times of a run never decrease if the clock of its surroundings runs onward. -/
theorem chronological_run (hclock : env.Onward) (hattentive : ∀ s, (act s).Attentive s.moment)
    (acts : Nat) (hmoment : s.moment = env.moment w) :
    Chronological (Action.trace env act acts s w)
      (Action.run env act acts s w).state.moment.now := by
  have hrun := @Action.invariant_run _ _ env act
    (fun past s w => s.moment = env.moment w ∧ Chronological past s.moment.now) ?_ acts [] s w
    ⟨hmoment, .nil, List.forall_mem_nil _⟩
  · exact hrun.2
  · rintro past s w s' w' ⟨hmoment, hpast⟩ hstep
    have hact := hattentive s
    rw [hmoment] at hact
    have hmoment' := hact.moment_eq hstep
    refine ⟨hmoment', hpast.concat ?_⟩
    rw [hmoment, hmoment']
    exact hclock.now_le (Action.replies_of_step hstep)

/-- A reading has taken no longer than it may. -/
def InTime (s : Party δ φ) (event : Event) (next : Party δ φ) : Prop :=
  ∀ timeout reply, event = .read timeout reply →
    s.moment.now ≤ next.moment.now ∧ next.moment.now ≤ s.moment.now + timeout

/-- What every act preserves with replies in time holds along every run if readings take no longer
than they may. -/
theorem invariant_run_of_timely (htimely : env.Timely)
    (hattentive : ∀ s, (act s).Attentive s.moment)
    {inv : List (Act (Party δ φ)) → Party δ φ → Prop}
    (hstep : ∀ past s, inv past s → (act s).Ensures fun event next =>
      s.InTime event next → inv (past ++ [⟨s, event⟩]) next)
    (acts : Nat) {past : List (Act (Party δ φ))} (hmoment : s.moment = env.moment w)
    (hinv : inv past s) :
    inv (past ++ Action.trace env act acts s w) (Action.run env act acts s w).state := by
  have hrun := @Action.invariant_run _ _ env act
    (fun past s w => s.moment = env.moment w ∧ inv past s) ?_ acts past s w ⟨hmoment, hinv⟩
  · exact hrun.2
  · rintro past s w s' w' ⟨hmoment, hinv⟩ hnext
    have hact := hattentive s
    rw [hmoment] at hact
    have hmoment' := hact.moment_eq hnext
    refine ⟨hmoment', (hstep past s hinv).of_step hnext ?_⟩
    intro timeout reply hread
    have hreplies := Action.replies_of_step hnext
    rw [hread] at hreplies
    rw [hmoment, hmoment']
    cases hreplies with
    | read => exact ⟨htimely.now_le w timeout, htimely.now_read_le w timeout⟩

end Party

/-! ## Rehearsals -/

namespace Script

/-- Time passes in a rehearsal only while the channel is read. -/
theorem World.onward {κ : Type} (setup : Setup κ) : (World.surroundings setup).Onward := by
  refine ⟨fun {w w' event} h => ?_⟩
  have hmoment (w : World κ) : ((World.surroundings setup).moment w).now = w.wire.now := rfl
  rw [hmoment, hmoment]
  rcases World.wire_of_replies h with ⟨timeout, -, hwire⟩ | ⟨data, reply, -, hwire⟩ | ⟨-, -, hwire⟩
  · rw [hwire]
    exact Wire.now_le_now_read _ _
  · rw [hwire, Wire.now_write]
  · rw [hwire]

/-- Every reading of a rehearsal comes back in time. -/
theorem World.timely {κ : Type} (setup : Setup κ) : (World.surroundings setup).Timely where
  now_le w timeout := w.wire.now_le_now_read timeout
  now_read_le w timeout := w.wire.now_read_le timeout

end Script

end BlockTransfer
