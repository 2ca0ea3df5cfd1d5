import BlockTransfer.Proofs.Trace
import BlockTransfer.Script.Rehearsal

/-!
# Machines side by side

Two machines of which the same can be seen need not act at the same pace. The second one may have to
make up for some acts that change nothing for the first one, such as the reading of a byte that
means nothing. A relation between the two counts these acts, and so they come to an end: whatever
the one machine comes to, the other one comes to as well.

## Main definitions

* `Action.map`: the same act with the states that it leads to replaced.
* `Action.Abreast`: what two machines do next.
* `Action.Simulates`: a relation that two machines keep.
* `Script.Alike`: runs of which the same can be seen.
* `Script.Mirrors`: parties of which the same can be seen.

## Main results

* `Action.Simulates.exists_run` and `Action.Simulates.exists_run'`: machines that keep a relation
  come to related states, and to the same end.
* `Script.mirrors_of_simulates`: the same can be seen of parties that keep a relation.
-/

namespace BlockTransfer

/-! ## Machines -/

namespace Action

section Replaced

variable {σ τ ω : Type}

/-- The same act, with the states that it leads to replaced. -/
def map (f : σ → τ) : Action σ → Action τ
  | .silent next => .silent (f next)
  | .read timeout next => .read timeout fun reply moment => f (next reply moment)
  | .write data next => .write data fun reply moment => f (next reply moment)
  | .report progress next => .report progress fun moment => f (next moment)
  | .fetch file most next => .fetch file most fun reply moment => f (next reply moment)
  | .openFile header next => .openFile header fun reply moment => f (next reply moment)
  | .store data next => .store data fun reply moment => f (next reply moment)
  | .closeFile file next => .closeFile file fun reply moment => f (next reply moment)
  | .stop ending => .stop ending

/-- Replaced states are led to in the same way. -/
theorem step_map (f : σ → τ) (a : Action σ) (env : Surroundings ω) (w : ω) :
    (a.map f).step env w = (a.step env w).map fun next => (f next.1, next.2) := by
  cases a <;> rfl

theorem map_id (a : Action σ) : a.map id = a := by
  cases a <;> rfl

/-- An act that is the same with replaced states leads to states that are replaced by themselves. -/
theorem ensures_of_map_eq {f : σ → σ} {a : Action σ} (h : a.map f = a) :
    a.Ensures fun _ next => f next = next := by
  cases a with
  | stop => trivial
  | silent => exact Action.silent.inj h
  | report =>
    intro moment
    injection h with _ h
    exact congrFun h moment
  | fetch =>
    intro reply moment
    injection h with _ _ h
    exact congrFun (congrFun h reply) moment
  | read | write | openFile | store | closeFile =>
    intro reply moment
    injection h with _ h
    exact congrFun (congrFun h reply) moment

end Replaced

section Ends

variable {σ ω : Type}

/-- A run that has come to its end does not go on. -/
theorem run_add_of_ending {env : Surroundings ω} {act : σ → Action σ} {m : Nat} {s : σ} {w : ω}
    {ending : Ending} (h : (run env act m s w).ending = some ending) (n : Nat) :
    run env act (m + n) s w = run env act m s w := by
  induction m generalizing s w with
  | zero => cases h
  | succ m ih =>
    rw [Nat.succ_add, run, run]
    rw [run] at h
    cases hstep : (act s).step env w with
    | error ending => rfl
    | ok next =>
      rw [hstep] at h
      exact ih h

/-- A run has one end. -/
theorem run_eq_of_ending {env : Surroundings ω} {act : σ → Action σ} {m n : Nat} {s : σ} {w : ω}
    {ending ending' : Ending} (hm : (run env act m s w).ending = some ending)
    (hn : (run env act n s w).ending = some ending') :
    run env act m s w = run env act n s w := by
  rw [← run_add_of_ending hm n, Nat.add_comm, run_add_of_ending hn m]

end Ends

variable {σ σ' ω ω' : Type} {rel : Nat → σ → ω → σ' → ω' → Prop} {env : Surroundings ω}
  {env' : Surroundings ω'} {act : σ → Action σ} {act' : σ' → Action σ'} {lag : Nat} {s : σ} {w : ω}
  {s' : σ'} {w' : ω'}

/-- What two machines do next that are in a relation, given what their next acts come to. The
relation counts the acts that the second one may have to make up for. -/
inductive Abreast (rel : Nat → σ → ω → σ' → ω' → Prop) (lag : Nat) (s : σ) (w : ω)
    (first : Except Ending (σ × ω)) (second : Except Ending (σ' × ω')) : Prop
  /-- Both have come to the same end. -/
  | stop (ending : Ending) (hfirst : first = .error ending) (hsecond : second = .error ending)
  /-- Both go on. -/
  | both (lag₁ : Nat) (s₁ : σ) (w₁ : ω) (s₁' : σ') (w₁' : ω') (hfirst : first = .ok (s₁, w₁))
      (hsecond : second = .ok (s₁', w₁')) (h : rel lag₁ s₁ w₁ s₁' w₁')
  /-- The second one makes up for an act. -/
  | behind (lag₁ : Nat) (s₁' : σ') (w₁' : ω') (hlag : lag₁ < lag)
      (hsecond : second = .ok (s₁', w₁')) (h : rel lag₁ s w s₁' w₁')

/-- Two machines keep a relation. -/
def Simulates (env : Surroundings ω) (act : σ → Action σ) (env' : Surroundings ω')
    (act' : σ' → Action σ') (rel : Nat → σ → ω → σ' → ω' → Prop) : Prop :=
  ∀ {lag s w s' w'}, rel lag s w s' w' →
    Abreast rel lag s w ((act s).step env w) ((act' s').step env' w')

/-- Whatever the first machine comes to, the second one comes to as well. -/
theorem Simulates.exists_run (h : Simulates env act env' act' rel) (acts : Nat)
    (hrel : rel lag s w s' w') :
    ∃ acts' lag', (run env' act' acts' s' w').ending = (run env act acts s w).ending ∧
      rel lag' (run env act acts s w).state (run env act acts s w).world
        (run env' act' acts' s' w').state (run env' act' acts' s' w').world := by
  induction acts generalizing lag s w s' w' with
  | zero => exact ⟨0, lag, rfl, hrel⟩
  | succ acts ih =>
    -- The second one makes up for its acts first, of which fewer are left with each of them.
    induction lag using Nat.strongRecOn generalizing s' w' with
    | _ lag ihlag =>
    cases h hrel with
    | stop ending hfirst hsecond =>
      refine ⟨1, lag, ?_⟩
      rw [run, run, hfirst, hsecond]
      exact ⟨rfl, hrel⟩
    | both lag₁ s₁ w₁ s₁' w₁' hfirst hsecond hnext =>
      obtain ⟨acts', lag', hending, hrel'⟩ := ih hnext
      refine ⟨acts' + 1, lag', ?_⟩
      rw [run, run, hfirst, hsecond]
      exact ⟨hending, hrel'⟩
    | behind lag₁ s₁' w₁' hlag hsecond hnext =>
      obtain ⟨acts', lag', hending, hrel'⟩ := ihlag lag₁ hlag hnext
      refine ⟨acts' + 1, lag', ?_⟩
      rw [run.eq_def _ _ (acts' + 1)]
      dsimp only
      rw [hsecond]
      exact ⟨hending, hrel'⟩

/-- Whatever the second machine comes to, the first one comes to as well. -/
theorem Simulates.exists_run' (h : Simulates env act env' act' rel) (acts' : Nat)
    (hrel : rel lag s w s' w') :
    ∃ acts lag', (run env' act' acts' s' w').ending = (run env act acts s w).ending ∧
      rel lag' (run env act acts s w).state (run env act acts s w).world
        (run env' act' acts' s' w').state (run env' act' acts' s' w').world := by
  induction acts' generalizing lag s w s' w' with
  | zero => exact ⟨0, lag, rfl, hrel⟩
  | succ acts' ih =>
    cases h hrel with
    | stop ending hfirst hsecond =>
      refine ⟨1, lag, ?_⟩
      rw [run, run, hfirst, hsecond]
      exact ⟨rfl, hrel⟩
    | both lag₁ s₁ w₁ s₁' w₁' hfirst hsecond hnext =>
      obtain ⟨acts, lag', hending, hrel'⟩ := ih hnext
      refine ⟨acts + 1, lag', ?_⟩
      rw [run, run, hfirst, hsecond]
      exact ⟨hending, hrel'⟩
    | behind lag₁ s₁' w₁' hlag hsecond hnext =>
      -- The first one waits.
      obtain ⟨acts, lag', hending, hrel'⟩ := ih hnext
      refine ⟨acts, lag', ?_⟩
      rw [run.eq_def _ _ (acts' + 1)]
      dsimp only
      rw [hsecond]
      exact ⟨hending, hrel'⟩

end Action

/-! ## Rehearsals -/

namespace Script

variable {δ φ κ : Type}

/-- What can be seen of a run: how it ends, the session, the record of writes, reports and calls of
the sink, what the sink has come to, and the time. -/
def Alike (run run' : Action.Run (Party δ φ) (World κ)) : Prop :=
  run'.ending = run.ending ∧ run'.state.session = run.state.session ∧
    run'.world.record = run.world.record ∧ run'.world.sink = run.world.sink ∧
    run'.world.wire.now = run.world.wire.now

/-- Two parties of which the same can be seen: whatever one of them comes to, the other one comes to
as well, and they come to the same end. -/
structure Mirrors (run run' : Nat → Action.Run (Party δ φ) (World κ)) : Prop where
  there : ∀ acts, ∃ acts', Alike (run acts) (run' acts')
  back : ∀ acts', ∃ acts, Alike (run acts) (run' acts')
  ends : ∀ {acts acts' ending ending'}, (run acts).ending = some ending →
    (run' acts').ending = some ending' → Alike (run acts) (run' acts')

/-- The same can be seen of two parties that keep a relation under which nothing that can be seen is
different. -/
theorem mirrors_of_simulates {setup : Setup κ} {act : Party δ φ → Action (Party δ φ)}
    {rel : Nat → Party δ φ → World κ → Party δ φ → World κ → Prop} {lag : Nat} {s s' : Party δ φ}
    {w w' : World κ}
    (h : Action.Simulates (World.surroundings setup) act (World.surroundings setup) act rel)
    (halike : ∀ {lag s w s' w'}, rel lag s w s' w' →
      ∀ ending, Alike ⟨ending, s, w⟩ ⟨ending, s', w'⟩)
    (hrel : rel lag s w s' w') :
    Mirrors (fun acts => Action.run (World.surroundings setup) act acts s w)
      (fun acts => Action.run (World.surroundings setup) act acts s' w') := by
  have hthere : ∀ acts, ∃ acts', Alike (Action.run (World.surroundings setup) act acts s w)
      (Action.run (World.surroundings setup) act acts' s' w') := by
    intro acts
    obtain ⟨acts', lag', hending, hrel'⟩ := h.exists_run acts hrel
    exact ⟨acts', hending, (halike hrel' none).2⟩
  refine ⟨hthere, ?_, ?_⟩
  · intro acts'
    obtain ⟨acts, lag', hending, hrel'⟩ := h.exists_run' acts' hrel
    exact ⟨acts, hending, (halike hrel' none).2⟩
  · intro acts acts' ending ending' hending hending'
    obtain ⟨acts'', hlast⟩ := hthere acts
    rw [← Action.run_eq_of_ending (hlast.1.trans hending) hending']
    exact hlast

end Script

end BlockTransfer
