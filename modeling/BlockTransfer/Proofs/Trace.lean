import BlockTransfer.Party

/-!
# Traces

A party acts on its surroundings and goes on with their replies. The trace of a run is the list of
its acts, each with the state before it and the reply to it. What holds along every run, whatever
the surroundings are, is what every act preserves with every reply.

## Main definitions

* `Event`: an act as it is seen from outside, with the reply to it.
* `Action.trace`: the acts of a run.
* `Action.Ensures`: what an act leads to, whatever the reply is.

## Main results

* `Action.invariant_trace`: what every act preserves holds along every run.
* `Action.exists_step_of_trace_eq`: a run is cut at any of its acts.
* `Party.ensures_write`, `Party.ensures_listen`, `Party.ensures_act`: what the acts of a party lead
  to.
-/

namespace BlockTransfer

/-- An act as it is seen from outside, with the reply to it. -/
inductive Event
  /-- Nothing that can be seen. -/
  | silent
  /-- The channel was read from. -/
  | read (timeout : Nat) (reply : Except IoError Bytes)
  /-- The channel was written to. -/
  | write (data : Bytes) (reply : Except IoError Nat)
  /-- Progress was reported. -/
  | report (progress : Progress)
  /-- A part of a file was fetched. -/
  | fetch (file most : Nat) (reply : Except IoError Bytes)
  /-- The sink was told to begin a file. -/
  | openFile (header : Option FileHeader) (reply : Except IoError Unit)
  /-- The sink was given data. -/
  | store (data : Bytes) (reply : Except IoError Unit)
  /-- The sink was told to end a file. -/
  | closeFile (file : ReceivedFile) (reply : Except IoError Unit)

namespace Event

/-- Whether the sink has failed. -/
def sinkFailed : Event → Bool
  | .openFile _ (.error _) | .store _ (.error _) | .closeFile _ (.error _) => true
  | _ => false

/-- The bytes that have arrived with an event. -/
def arrived : Event → Bytes
  | .read _ (.ok data) => data
  | _ => []

/-- Whether something is written. -/
def writes : Event → Bool
  | .write _ _ => true
  | _ => false

/-- The number of bytes that are written. -/
def written : Event → Nat
  | .write data _ => data.length
  | _ => 0

end Event

/-- An act of a machine in a run. -/
structure Act (σ : Type) where
  /-- The state before the act. -/
  state : σ
  /-- What was seen of it. -/
  event : Event

namespace Action

variable {σ ω : Type}

/-- What is seen of an act in the given surroundings. -/
def event (env : Surroundings ω) (w : ω) : Action σ → Event
  | .silent _ | .stop _ => .silent
  | .read timeout _ => .read timeout (env.read w timeout).1
  | .write data _ => .write data (env.write w data).1
  | .report progress _ => .report progress
  | .fetch file most _ => .fetch file most (env.fetch w file most).1
  | .openFile header _ => .openFile header (env.openFile w header).1
  | .store data _ => .store data (env.store w data).1
  | .closeFile file _ => .closeFile file (env.closeFile w file).1

/-- The acts of a machine in its surroundings, of which there are at most `acts`. -/
def trace (env : Surroundings ω) (act : σ → Action σ) : Nat → σ → ω → List (Act σ)
  | 0, _, _ => []
  | acts + 1, s, w =>
    match (act s).step env w with
    | .error _ => []
    | .ok (s', w') => ⟨s, (act s).event env w⟩ :: trace env act acts s' w'

/-- Whatever the reply is, an act leads to an event and a state that meet a condition. -/
def Ensures (post : Event → σ → Prop) : Action σ → Prop
  | .silent next => post .silent next
  | .read timeout next => ∀ reply moment, post (.read timeout reply) (next reply moment)
  | .write data next => ∀ reply moment, post (.write data reply) (next reply moment)
  | .report progress next => ∀ moment, post (.report progress) (next moment)
  | .fetch file most next =>
    ∀ reply moment, post (.fetch file most reply) (next reply moment)
  | .openFile header next => ∀ reply moment, post (.openFile header reply) (next reply moment)
  | .store data next => ∀ reply moment, post (.store data reply) (next reply moment)
  | .closeFile file next => ∀ reply moment, post (.closeFile file reply) (next reply moment)
  | .stop _ => True

/-- An act ensures whatever holds anyway. -/
theorem ensures_of_forall {post : Event → σ → Prop} (h : ∀ event next, post event next)
    (a : Action σ) : a.Ensures post := by
  cases a with
  | stop => trivial
  | silent => exact h _ _
  | report => exact fun _ => h _ _
  | read | write | fetch | openFile | store | closeFile => exact fun _ _ => h _ _

/-- An act ensures what follows from what it ensures. -/
theorem Ensures.mono {post post' : Event → σ → Prop} {a : Action σ} (h : a.Ensures post)
    (hpost : ∀ event next, post event next → post' event next) : a.Ensures post' := by
  cases a with
  | stop => trivial
  | silent => exact hpost _ _ h
  | report =>
    intro moment
    exact hpost _ _ (h moment)
  | read | write | fetch | openFile | store | closeFile =>
    intro reply moment
    exact hpost _ _ (h reply moment)

/-- An act ensures two things if it ensures each of them. -/
theorem Ensures.and {post post' : Event → σ → Prop} {a : Action σ} (h : a.Ensures post)
    (h' : a.Ensures post') : a.Ensures fun event next => post event next ∧ post' event next := by
  cases a with
  | stop => trivial
  | silent => exact ⟨h, h'⟩
  | report => exact fun moment => ⟨h moment, h' moment⟩
  | read | write | fetch | openFile | store | closeFile =>
    exact fun reply moment => ⟨h reply moment, h' reply moment⟩

/-- What an act ensures holds after it in all surroundings. -/
theorem Ensures.of_step {post : Event → σ → Prop} {a : Action σ} (h : a.Ensures post)
    {env : Surroundings ω} {w w' : ω} {s' : σ} (hstep : a.step env w = .ok (s', w')) :
    post (a.event env w) s' := by
  cases a with
  | stop => cases hstep
  | silent =>
    cases hstep
    exact h
  | report =>
    cases hstep
    exact h _
  | read | write | fetch | openFile | store | closeFile =>
    cases hstep
    exact h _ _

/-- What every act of a kind preserves holds along every run of such acts. -/
theorem invariant_trace_of {act : σ → Action σ} {p : Act σ → Prop} {inv : List (Act σ) → σ → Prop}
    (hstep : ∀ past s, inv past s →
      (act s).Ensures fun event next => p ⟨s, event⟩ → inv (past ++ [⟨s, event⟩]) next)
    (env : Surroundings ω) (acts : Nat) {past : List (Act σ)} {s : σ} (w : ω)
    (h : inv past s) (hp : ∀ a ∈ trace env act acts s w, p a) :
    inv (past ++ trace env act acts s w) (run env act acts s w).state := by
  induction acts generalizing past s w with
  | zero =>
    rw [trace, List.append_nil]
    exact h
  | succ acts ih =>
    rw [trace] at hp ⊢
    rw [run]
    cases hnext : (act s).step env w with
    | error ending =>
      rw [List.append_nil]
      exact h
    | ok next =>
      rw [hnext] at hp
      -- The first act joins those of the past.
      have hfirst := (hstep past s h).of_step hnext (hp _ List.mem_cons_self)
      have hrest := ih next.2 hfirst fun a ha => hp a (List.mem_cons_of_mem _ ha)
      rwa [List.append_assoc] at hrest

/-- What every act preserves holds along every run. -/
theorem invariant_trace {act : σ → Action σ} {inv : List (Act σ) → σ → Prop}
    (hstep : ∀ past s, inv past s →
      (act s).Ensures fun event next => inv (past ++ [⟨s, event⟩]) next)
    (env : Surroundings ω) (acts : Nat) {past : List (Act σ)} {s : σ} (w : ω)
    (h : inv past s) :
    inv (past ++ trace env act acts s w) (run env act acts s w).state :=
  @invariant_trace_of _ _ act (fun _ => True) inv
    (fun past s hpast => (hstep past s hpast).mono fun _ _ hnext _ => hnext) env acts past s w h
    fun _ _ => trivial

/-- The first acts of a run are followed by those of a run from the state that they lead to. -/
theorem trace_add (env : Surroundings ω) (act : σ → Action σ) (m n : Nat) (s : σ) (w : ω) :
    trace env act (m + n) s w =
      trace env act m s w ++
        trace env act n (run env act m s w).state (run env act m s w).world := by
  induction m generalizing s w with
  | zero => rw [Nat.zero_add, trace, run, List.nil_append]
  | succ m ih =>
    rw [Nat.succ_add, trace, trace, run]
    cases hnext : (act s).step env w with
    | ok next =>
      dsimp only
      rw [ih, List.cons_append]
    | error ending =>
      dsimp only
      -- A run that has come to its end does not go on.
      cases n with
      | zero => rfl
      | succ n => rw [trace, hnext, List.append_nil]

/-- A run that has not come to its end goes on from the state that it has led to. -/
theorem run_add {env : Surroundings ω} {act : σ → Action σ} {m : Nat} {s : σ} {w : ω}
    (h : (run env act m s w).ending = none) (n : Nat) :
    run env act (m + n) s w =
      run env act n (run env act m s w).state (run env act m s w).world := by
  induction m generalizing s w with
  | zero => rw [Nat.zero_add, run]
  | succ m ih =>
    rw [Nat.succ_add]
    rw [run] at h ⊢
    rw [run]
    cases hnext : (act s).step env w with
    | ok next =>
      rw [hnext] at h
      exact ih h
    | error ending =>
      rw [hnext] at h
      cases h

/-- After its first act a run goes on from the state that the act leads to. -/
theorem run_succ_of_step {env : Surroundings ω} {act : σ → Action σ} {s s' : σ} {w w' : ω}
    (h : (act s).step env w = .ok (s', w')) (acts : Nat) :
    run env act (acts + 1) s w = run env act acts s' w' := by
  rw [run, h]

/-- One more act leads from the state of a run to the next one. A run that has come to its end stays
where it is. -/
theorem step_run_succ (env : Surroundings ω) (act : σ → Action σ) (acts : Nat) (s : σ) (w : ω) :
    (∃ w', (act (run env act acts s w).state).step env (run env act acts s w).world =
        .ok ((run env act (acts + 1) s w).state, w')) ∨
      (∃ ending, (act (run env act acts s w).state).step env (run env act acts s w).world =
        .error ending) ∧ (run env act (acts + 1) s w).state = (run env act acts s w).state := by
  induction acts generalizing s w with
  | zero =>
    cases hnext : (act s).step env w with
    | error ending => exact .inr (by simp [run, hnext])
    | ok next =>
      refine .inl ⟨next.2, ?_⟩
      rw [run_succ_of_step hnext]
      exact hnext
  | succ acts ih =>
    cases hnext : (act s).step env w with
    | error ending => exact .inr (by simp [run, hnext])
    | ok next =>
      rw [run_succ_of_step hnext, run_succ_of_step hnext]
      exact ih next.1 next.2

/-- A run that comes back to where it was goes on like that for ever. -/
theorem run_mul_of_cycle {env : Surroundings ω} {act : σ → Action σ} {acts : Nat} {s : σ} {w : ω}
    (hending : (run env act acts s w).ending = none) (hstate : (run env act acts s w).state = s)
    (hworld : (run env act acts s w).world = w) (n : Nat) :
    (run env act (n * acts) s w).ending = none ∧
      trace env act (n * acts) s w = (List.replicate n (trace env act acts s w)).flatten := by
  induction n with
  | zero =>
    rw [Nat.zero_mul]
    exact ⟨rfl, rfl⟩
  | succ n ih =>
    rw [Nat.succ_mul, Nat.add_comm, run_add hending, trace_add, hstate, hworld]
    refine ⟨ih.1, ?_⟩
    rw [ih.2, List.replicate_succ, List.flatten_cons]

/-- The acts of a run after the first one are those of a run from the state that it leads to. -/
theorem exists_step_of_trace_eq_cons {act : σ → Action σ} {env : Surroundings ω} {acts : Nat}
    {s : σ} {w : ω} {a : Act σ} {after : List (Act σ)} (h : trace env act acts s w = a :: after) :
    ∃ (more : Nat) (next : σ) (w' : ω), acts = more + 1 ∧
      (act s).step env w = .ok (next, w') ∧ a = ⟨s, (act s).event env w⟩ ∧
      after = trace env act more next w' := by
  cases acts with
  | zero => cases h
  | succ acts =>
    rw [trace] at h
    cases hnext : (act s).step env w with
    | error ending =>
      rw [hnext] at h
      cases h
    | ok next =>
      rw [hnext] at h
      cases h
      exact ⟨acts, next.1, next.2, rfl, rfl, rfl, rfl⟩

/-- Every act of a run is taken in the state that the acts before it lead to, and the acts after it
are those of a run from the state that it leads to. -/
theorem exists_step_of_trace_eq {act : σ → Action σ} {env : Surroundings ω} {acts : Nat} {s : σ}
    {w : ω} {before after : List (Act σ)} {a : Act σ}
    (h : trace env act acts s w = before ++ a :: after) :
    ∃ (sofar more : Nat) (next : σ) (w' w'' : ω),
      before = trace env act sofar s w ∧ (run env act sofar s w).state = a.state ∧
      (act a.state).step env w' = .ok (next, w'') ∧ a.event = (act a.state).event env w' ∧
      after = trace env act more next w'' := by
  induction before generalizing acts s w with
  | nil =>
    obtain ⟨more, next, w', -, hnext, rfl, hafter⟩ := exists_step_of_trace_eq_cons h
    exact ⟨0, more, next, w, w', rfl, rfl, hnext, rfl, hafter⟩
  | cons b before ih =>
    obtain ⟨more, next, w', -, hnext, rfl, hrest⟩ := exists_step_of_trace_eq_cons h
    obtain ⟨sofar, more, last, v, v', hbefore, hstate, hstep, hevent, hafter⟩ := ih hrest.symm
    refine ⟨sofar + 1, more, last, v, v', ?_, ?_, hstep, hevent, hafter⟩
    · rw [trace, hnext, hbefore]
    · rw [run, hnext]
      exact hstate

/-- After an act of a run every run goes on from the state that the act leads to. -/
theorem exists_run_of_trace_eq {act : σ → Action σ} {env : Surroundings ω} {acts : Nat} {s : σ}
    {w : ω} {before after : List (Act σ)} {a : Act σ}
    (h : trace env act acts s w = before ++ a :: after) :
    ∃ (sofar : Nat) (next : σ) (w' w'' : ω), (act a.state).step env w' = .ok (next, w'') ∧
      a.event = (act a.state).event env w' ∧
      ∀ more, trace env act (more + sofar) s w = before ++ a :: trace env act more next w'' ∧
        run env act (more + sofar) s w = run env act more next w'' := by
  induction before generalizing acts s w with
  | nil =>
    obtain ⟨_, next, w', -, hnext, rfl, -⟩ := exists_step_of_trace_eq_cons h
    refine ⟨1, next, w, w', hnext, rfl, fun more => ?_⟩
    rw [trace, run, hnext]
    exact ⟨rfl, rfl⟩
  | cons b before ih =>
    obtain ⟨_, next, w', -, hnext, rfl, hrest⟩ := exists_step_of_trace_eq_cons h
    obtain ⟨sofar, last, v, v', hstep, hevent, hruns⟩ := ih hrest.symm
    refine ⟨sofar + 1, last, v, v', hstep, hevent, fun more => ?_⟩
    obtain ⟨htrace, hrun⟩ := hruns more
    rw [← Nat.add_assoc, trace, run, hnext]
    exact ⟨congrArg (_ :: ·) htrace, hrun⟩

/-- A run leads to every state in which it acts. -/
theorem exists_state_of_mem_trace {act : σ → Action σ} {env : Surroundings ω} {acts : Nat} {s : σ}
    {w : ω} {a : Act σ} (h : a ∈ trace env act acts s w) :
    ∃ sofar, (run env act sofar s w).state = a.state := by
  obtain ⟨before, after, hcut⟩ := List.append_of_mem h
  obtain ⟨sofar, -, -, -, -, -, hstate, -⟩ := exists_step_of_trace_eq hcut
  exact ⟨sofar, hstate⟩

end Action

namespace Line.Task

/-- The number of bytes that a task waits for; silence has none. -/
def wanted : Task → Option Nat
  | .byte _ | .poll => some 1
  | .exact count _ _ => some count
  | .quiet _ => none

variable {task again : Task} {pending arrived left : Bytes} {now timeout : Nat} {r : Settled}

/-- A task that is settled at once has taken just what it was waiting for from the front of the
queue. -/
theorem look_settled (h : task.look pending now = .settled r) :
    ∃ used, pending = used ++ r.pending ∧ r.result = some used ∧
      task.wanted = some used.length := by
  cases task with
  | byte | poll =>
    cases pending with
    | nil => cases h
    | cons byte rest =>
      cases h
      exact ⟨[byte], rfl, rfl, rfl⟩
  | exact count =>
    simp only [look] at h
    split at h
    · rename_i hcount
      cases h
      -- There are enough bytes, and no more of them are taken.
      refine ⟨pending.take count, (List.take_append_drop count pending).symm, rfl, ?_⟩
      rw [wanted, List.length_take_of_le hcount]
    · cases h
  | quiet => cases h

/-- A task for which the line is read leaves the queue as it is unless it is silence that is
awaited. -/
theorem look_read (h : task.look pending now = .read timeout left) :
    ∃ used, pending = used ++ left ∧ (task.wanted ≠ none → used = []) := by
  cases task with
  | byte | poll =>
    cases pending with
    | nil =>
      cases h
      exact ⟨[], rfl, fun _ => rfl⟩
    | cons => cases h
  | exact =>
    simp only [look] at h
    split at h
    · cases h
    · cases h
      exact ⟨[], rfl, fun _ => rfl⟩
  | quiet =>
    -- Whatever has arrived is thrown away.
    cases h
    exact ⟨pending, (List.append_nil pending).symm, fun hwanted => absurd rfl hwanted⟩

/-- A task that is settled by a reading was waiting in vain, and leaves the end of the queue. -/
theorem hear_settled (h : task.hear pending arrived now = .settled r) :
    r.result = none ∧ ∃ used, pending ++ arrived = used ++ r.pending := by
  cases task with
  | exact =>
    simp only [hear] at h
    split at h
    · split at h
      · -- What has come is thrown away.
        cases h
        exact ⟨rfl, pending ++ arrived, (List.append_nil _).symm⟩
      · cases h
    · cases h
  | byte | poll | quiet =>
    simp only [hear] at h
    split at h
    · cases h
      -- Only a reading without bytes ends the wait, so nothing is lost.
      have harrived : arrived = [] := by simp_all
      exact ⟨rfl, [], by rw [harrived, List.append_nil, List.nil_append]⟩
    · cases h

/-- A task that goes on after a reading waits for as much as before, and what has arrived is added
to the queue. -/
theorem hear_waiting (h : task.hear pending arrived now = .waiting again left) :
    left = pending ++ arrived ∧ again.wanted = task.wanted := by
  cases task with
  | exact =>
    simp only [hear] at h
    split at h
    · split at h
      · cases h
      · cases h
        have harrived : arrived = [] := by simp_all
        exact ⟨by rw [harrived, List.append_nil], rfl⟩
    · cases h
      exact ⟨rfl, rfl⟩
  | byte | poll | quiet =>
    simp only [hear] at h
    split at h
    · cases h
    · cases h
      exact ⟨rfl, rfl⟩

/-- A task that waits for one byte. -/
def Single (task : Task) : Prop :=
  task = .poll ∨ ∃ deadline, task = .byte deadline

/-- A task that waits for one byte is settled at once with the first byte of the queue. -/
theorem Single.look_settled (hsingle : task.Single) (h : task.look pending now = .settled r) :
    ∃ byte rest, pending = byte :: rest ∧ r = ⟨some [byte], rest⟩ := by
  cases pending with
  | nil => rcases hsingle with rfl | ⟨deadline, rfl⟩ <;> cases h
  | cons byte rest =>
    rcases hsingle with rfl | ⟨deadline, rfl⟩
    · cases h
      exact ⟨byte, rest, rfl, rfl⟩
    · cases h
      exact ⟨byte, rest, rfl, rfl⟩

/-- The line is read for one byte only if the queue is empty. -/
theorem Single.look_read (hsingle : task.Single)
    (h : task.look pending now = .read timeout left) : pending = [] ∧ left = [] := by
  cases pending with
  | cons => rcases hsingle with rfl | ⟨deadline, rfl⟩ <;> cases h
  | nil =>
    rcases hsingle with rfl | ⟨deadline, rfl⟩
    · cases h
      exact ⟨rfl, rfl⟩
    · cases h
      exact ⟨rfl, rfl⟩

/-- A wait for one byte is in vain if the reading was. -/
theorem Single.hear_settled (hsingle : task.Single) (h : task.hear [] arrived now = .settled r) :
    arrived = [] ∧ r = ⟨none, []⟩ := by
  rcases hsingle with rfl | ⟨deadline, rfl⟩
  · simp only [hear] at h
    split at h
    · cases h
      exact ⟨by simp_all, rfl⟩
    · cases h
  · simp only [hear] at h
    split at h
    · cases h
      exact ⟨by simp_all, rfl⟩
    · cases h

/-- A wait for one byte that goes on is the same as before. -/
theorem Single.hear_waiting (hsingle : task.Single)
    (h : task.hear [] arrived now = .waiting again left) : again = task ∧ left = arrived := by
  rcases hsingle with rfl | ⟨deadline, rfl⟩
  · simp only [hear] at h
    split at h
    · cases h
    · cases h
      exact ⟨rfl, rfl⟩
  · simp only [hear] at h
    split at h
    · cases h
    · cases h
      exact ⟨rfl, rfl⟩

variable {deadline count idle period : Nat} {used : Bytes}

/-- A wait until a deadline is not in vain before it. -/
theorem deadline_le_of_hear (h : (byte deadline).hear pending arrived now = .settled r) :
    deadline ≤ now := by
  simp only [hear] at h
  split at h
  · rename_i hlate
    exact hlate.2
  · cases h

/-- A wait goes on only if bytes have arrived, unless the reading came back early. -/
theorem ne_nil_of_hear_waiting (hlook : task.look pending now = .read timeout left)
    (hhear : task.hear left arrived (now + timeout) = .waiting again used) : arrived ≠ [] := by
  rintro rfl
  cases task with
  | byte deadline =>
    cases pending with
    | cons => cases hlook
    | nil =>
      cases hlook
      have hlate : deadline ≤ now + (deadline - now) := by omega
      simp [hear, hlate] at hhear
  | exact count idle deadline =>
    simp only [look] at hlook
    split at hlook
    · cases hlook
    · cases hlook
      have hlate : deadline ≤ now + (deadline - now) := by omega
      simp [hear, hlate] at hhear
  | poll | quiet => simp [hear] at hhear

/-- Bytes of a sequence that comes to a halt are thrown away. -/
theorem eq_nil_of_hear_exact
    (h : (exact count idle deadline).hear pending arrived now = .settled r) :
    arrived = [] ∧ deadline ≤ now ∧ r = ⟨none, []⟩ := by
  simp only [hear] at h
  split at h
  · rename_i harrived
    split at h
    · rename_i hlate
      cases h
      exact ⟨List.isEmpty_iff.mp harrived, hlate, rfl⟩
    · cases h
  · cases h

/-- There is silence if a reading brings nothing. -/
theorem eq_nil_of_hear_quiet (h : (quiet period).hear pending arrived now = .settled r) :
    arrived = [] ∧ r = ⟨none, pending⟩ := by
  simp only [hear] at h
  split at h
  · rename_i harrived
    cases h
    exact ⟨List.isEmpty_iff.mp harrived, rfl⟩
  · cases h

end Line.Task

namespace Party

variable {δ φ : Type} {s : Party δ φ} {post : Event → Party δ φ → Prop}

/-- Whether a party has come to an end, of which the peer may still be told. -/
def Parted (s : Party δ φ) : Prop :=
  ∃ ending, s.phase = .cancelling ending ∨ s.phase = .over ending

/-- A party that has come to an end does not go on. -/
theorem Parted.phase_ne (h : s.Parted) (step : φ) : s.phase ≠ .doing step := by
  obtain ⟨ending, hphase | hphase⟩ := h
  · simp [hphase]
  · simp [hphase]

/-- A party that fails tells its peer or not. -/
theorem phase_fail (s : Party δ φ) (e : TransferError) :
    (s.fail e).phase = .cancelling (.error e) ∨ (s.fail e).phase = .over (.error e) := by
  by_cases hnotifies : e.notifiesPeer
  · exact .inl (if_pos hnotifies)
  · exact .inr (if_neg hnotifies)

theorem parted_fail (s : Party δ φ) (e : TransferError) : (s.fail e).Parted :=
  ⟨.error e, s.phase_fail e⟩

theorem parted_abort (s : Party δ φ) : s.abort.Parted :=
  ⟨_, .inl rfl⟩

theorem parted_reject (s : Party δ φ) (e : TransferError) : (s.reject e).Parted :=
  ⟨_, .inr rfl⟩

theorem parted_complete (s : Party δ φ) : s.complete.Parted :=
  ⟨_, .inr rfl⟩

/-- An act that is not taken if a stop is requested. -/
theorem ensures_unlessAborted {act : Action (Party δ φ)} (habort : post .silent s.abort)
    (hact : act.Ensures post) : (s.unlessAborted act).Ensures post := by
  unfold unlessAborted
  split
  · exact habort
  · exact hact

/-- A party that writes goes on if all bytes are taken. -/
theorem ensures_write {data : Bytes} {step : φ}
    (hfail : ∀ reply moment e, post (.write data reply) ({ s with moment }.fail e))
    (hnext : ∀ moment,
      post (.write data (.ok data.length)) ({ s with moment }.goto step)) :
    (s.write data step).Ensures post := by
  intro reply moment
  cases reply with
  | error e => exact hfail _ _ _
  | ok taken =>
    dsimp only
    -- A channel that takes fewer bytes is as bad as one that fails.
    split
    · rename_i htaken
      rw [htaken]
      exact hnext moment
    · exact hfail _ _ _

/-- What a party fails with if the channel replies so to a write of the given bytes. -/
inductive Refuses (data : Bytes) : Except IoError Nat → TransferError → Prop
  /-- The channel fails. -/
  | broken (e : IoError) : Refuses data (.error e) (.channel e)
  /-- The channel takes only a part. -/
  | short {taken : Nat} (h : taken ≠ data.length) :
    Refuses data (.ok taken) (.shortWrite data.length taken)

/-- A party that writes goes on if all bytes are taken, and fails otherwise. -/
theorem ensures_write_of_refuses {data : Bytes} {step : φ}
    (hfail : ∀ reply moment e, Refuses data reply e →
      post (.write data reply) ({ s with moment }.fail e))
    (hnext : ∀ moment, post (.write data (.ok data.length)) ({ s with moment }.goto step)) :
    (s.write data step).Ensures post := by
  intro reply moment
  cases reply with
  | error e => exact hfail _ _ _ (.broken e)
  | ok taken =>
    dsimp only
    split
    · rename_i htaken
      rw [htaken]
      exact hnext moment
    · rename_i htaken
      exact hfail _ _ _ (.short htaken)

/-- A party that counts a failed attempt goes on unless it was the last one. -/
theorem retry_induction {motive : Party δ φ → Prop} (stage : Stage) (step : φ)
    (hfail : ∀ e, motive ((s.mapSession Session.recordRetry).fail e))
    (hnext : motive ((s.mapSession Session.recordRetry).goto step)) :
    motive (s.retry stage step) := by
  unfold retry
  dsimp only
  split
  · exact hnext
  · exact hfail _

/-- A party that listens finds what it was waiting for in the queue, or reads from the line. After a
reading it goes on waiting or was waiting in vain. It fails if the line cannot be read. -/
theorem ensures_listen_of_channel {task : Line.Task} {again : Line.Task → φ}
    {heard : Option Bytes → Party δ φ → Party δ φ}
    (hheard : ∀ r, task.look s.pending s.moment.now = .settled r →
      post .silent (heard r.result { s with pending := r.pending }))
    (hfail : ∀ timeout left e moment, task.look s.pending s.moment.now = .read timeout left →
      post (.read timeout (.error e)) ({ s with pending := left, moment }.fail (.channel e)))
    (hvain : ∀ timeout left arrived moment r,
      task.look s.pending s.moment.now = .read timeout left →
      task.hear left arrived moment.now = .settled r →
      post (.read timeout (.ok arrived)) (heard none { s with pending := r.pending, moment }))
    (hagain : ∀ timeout left arrived moment task' left',
      task.look s.pending s.moment.now = .read timeout left →
      task.hear left arrived moment.now = .waiting task' left' →
      post (.read timeout (.ok arrived))
        ({ s with pending := left', moment }.goto (again task'))) :
    (s.listen task again heard).Ensures post := by
  unfold listen
  cases hlook : task.look s.pending s.moment.now with
  | settled r => exact hheard r hlook
  | read timeout left =>
    intro reply moment
    cases reply with
    | error e => exact hfail timeout left e moment hlook
    | ok arrived =>
      dsimp only
      cases hhear : task.hear left arrived moment.now with
      | settled r =>
        dsimp only
        rw [(Line.Task.hear_settled hhear).1]
        exact hvain timeout left arrived moment r hlook hhear
      | waiting task' left' => exact hagain timeout left arrived moment task' left' hlook hhear

/-- A party that listens finds what it was waiting for in the queue, or reads from the line. After a
reading it goes on waiting or was waiting in vain. -/
theorem ensures_listen_of_look {task : Line.Task} {again : Line.Task → φ}
    {heard : Option Bytes → Party δ φ → Party δ φ}
    (hheard : ∀ r, task.look s.pending s.moment.now = .settled r →
      post .silent (heard r.result { s with pending := r.pending }))
    (hfail : ∀ timeout left e e' moment, task.look s.pending s.moment.now = .read timeout left →
      post (.read timeout (.error e)) ({ s with pending := left, moment }.fail e'))
    (hvain : ∀ timeout left arrived moment r,
      task.look s.pending s.moment.now = .read timeout left →
      task.hear left arrived moment.now = .settled r →
      post (.read timeout (.ok arrived)) (heard none { s with pending := r.pending, moment }))
    (hagain : ∀ timeout left arrived moment task' left',
      task.look s.pending s.moment.now = .read timeout left →
      task.hear left arrived moment.now = .waiting task' left' →
      post (.read timeout (.ok arrived))
        ({ s with pending := left', moment }.goto (again task'))) :
    (s.listen task again heard).Ensures post := by
  refine ensures_listen_of_channel hheard ?_ hvain hagain
  intro timeout left e moment hlook
  exact hfail timeout left e _ moment hlook

/-- A party that listens takes what it was waiting for from the front of the queue, or reads from
the line. After a reading it goes on waiting or was waiting in vain. -/
theorem ensures_listen {task : Line.Task} {again : Line.Task → φ}
    {heard : Option Bytes → Party δ φ → Party δ φ}
    (hheard : ∀ used pending, s.pending = used ++ pending → task.wanted = some used.length →
      post .silent (heard (some used) { s with pending }))
    (hfail : ∀ timeout e e' moment pending,
      post (.read timeout (.error e)) ({ s with pending, moment }.fail e'))
    (hvain : ∀ timeout arrived moment used pending, s.pending ++ arrived = used ++ pending →
      post (.read timeout (.ok arrived)) (heard none { s with pending, moment }))
    (hagain : ∀ timeout arrived moment used pending task', s.pending ++ arrived = used ++ pending →
      (task.wanted ≠ none → used = []) → task'.wanted = task.wanted →
      post (.read timeout (.ok arrived)) ({ s with pending, moment }.goto (again task'))) :
    (s.listen task again heard).Ensures post := by
  refine ensures_listen_of_look ?_ ?_ ?_ ?_
  · intro r hlook
    obtain ⟨used, hused, hresult, hwanted⟩ := Line.Task.look_settled hlook
    rw [hresult]
    exact hheard used r.pending hused hwanted
  · intro timeout left e e' moment _
    exact hfail timeout e e' moment left
  · intro timeout left arrived moment r hlook hhear
    obtain ⟨used, hused, -⟩ := Line.Task.look_read hlook
    obtain ⟨-, more, hmore⟩ := Line.Task.hear_settled hhear
    -- What was used before the reading comes before what is used after it.
    refine hvain timeout arrived moment (used ++ more) r.pending ?_
    rw [hused, List.append_assoc, hmore, List.append_assoc]
  · intro timeout left arrived moment task' left' hlook hhear
    obtain ⟨used, hused, hkeeps⟩ := Line.Task.look_read hlook
    obtain ⟨hleft, hwanted⟩ := Line.Task.hear_waiting hhear
    refine hagain timeout arrived moment used left' task' ?_ hkeeps hwanted
    rw [hused, hleft, List.append_assoc]

/-- What a party leads to is what its step leads to, until it has come to an end. -/
theorem ensures_act {own : φ → Action (Party δ φ)}
    (hown : ∀ step, s.phase = .doing step → (own step).Ensures post)
    (hcancel : ∀ ending reply moment, s.phase = .cancelling ending →
      post (.write [Control.can.byte, Control.can.byte] reply)
        { s with moment, phase := .over ending }) :
    (s.act own).Ensures post := by
  unfold act
  cases hphase : s.phase with
  | doing step => exact hown step hphase
  | cancelling ending =>
    intro reply moment
    exact hcancel ending reply moment hphase
  | _ => trivial

end Party

end BlockTransfer
