import BlockTransfer.Proofs.Timing

/-!
# Reading on

Whoever waits for a number of bytes reads on from the line until they have come, and gives up after
too long a pause. What comes over the line in this way, and how it ends, depends on the line alone.
A party that listens goes on accordingly.

## Main definitions

* `Surroundings.Flows`: what comes over a line to somebody who reads on.
* `Surroundings.WaitsOut`: a reading in vain takes just as long as it may.
* `Action.LeadsTo`: a run gets from one state to another.
* `Line.Task.Seeks`: a task for a number of bytes.
* `Party.listened`: a party that goes on after it has listened.

## Main results

* `Surroundings.Timely.exists_flows`: it comes to an end to read on.
* `Party.leadsTo_listened`: a party that listens goes on with what has come.
-/

namespace BlockTransfer

variable {ω : Type}

/-! ## Lines -/

/-- How it ends to wait for a number of bytes. -/
inductive Supply
  /-- They have come. -/
  | enough
  /-- Nothing has come for too long. -/
  | halted
  /-- The line cannot be read. -/
  | broken (e : IoError)

namespace Surroundings

variable {env : Surroundings ω} {good : ω → Prop} {idle missing since : Nat} {w w' : ω}
  {data : Bytes} {supply : Supply}

/-- What comes over a line to somebody who reads on until `missing` bytes have come, and who gives
up after a pause of `idle`. The present pause began at `since`, and each reading is given what is
left of it. A reading that comes back early with nothing does not end the pause. -/
inductive Flows (env : Surroundings ω) (idle : Nat) : Nat → Nat → ω → Bytes → Supply → ω → Prop
  /-- Nothing is missing any more. -/
  | enough {since : Nat} {w : ω} : Flows env idle 0 since w [] .enough w
  /-- Nothing has come in the whole pause. -/
  | halted {missing since : Nat} {w w' : ω} (hmissing : 0 < missing)
      (hread : env.read w (since + idle - (env.moment w).now) = (.ok [], w'))
      (hlate : since + idle ≤ (env.moment w').now) :
    Flows env idle missing since w [] .halted w'
  /-- The line cannot be read. -/
  | broken {missing since : Nat} {w w' : ω} {e : IoError} (hmissing : 0 < missing)
      (hread : env.read w (since + idle - (env.moment w).now) = (.error e, w')) :
    Flows env idle missing since w [] (.broken e) w'
  /-- A reading has come back early. -/
  | early {missing since : Nat} {w next w' : ω} {data : Bytes} {supply : Supply}
      (hmissing : 0 < missing)
      (hread : env.read w (since + idle - (env.moment w).now) = (.ok [], next))
      (hearly : (env.moment next).now < since + idle)
      (h : Flows env idle missing since next data supply w') :
    Flows env idle missing since w data supply w'
  /-- Bytes have come before the pause was too long, and another one begins. -/
  | arrival {missing since : Nat} {w next w' : ω} {arrived data : Bytes} {supply : Supply}
      (hmissing : 0 < missing)
      (hread : env.read w (since + idle - (env.moment w).now) = (.ok arrived, next))
      (harrived : arrived ≠ []) (hgap : (env.moment next).now ≤ since + idle)
      (h : Flows env idle (missing - arrived.length) (env.moment next).now next data supply w') :
    Flows env idle missing since w (arrived ++ data) supply w'

/-- If enough has come, it is as much as was missing. -/
theorem Flows.le_length (h : env.Flows idle missing since w data .enough w') :
    missing ≤ data.length := by
  generalize hsupply : Supply.enough = supply at h
  induction h with
  | enough => exact Nat.zero_le _
  | halted | broken => cases hsupply
  | early _ _ _ _ ih => exact ih hsupply
  | arrival _ _ _ _ _ ih =>
    have hle := ih hsupply
    rw [List.length_append]
    omega

/-- If the line has come to a halt, less has come than was missing. -/
theorem Flows.length_lt (h : env.Flows idle missing since w data .halted w') :
    data.length < missing := by
  generalize hsupply : Supply.halted = supply at h
  induction h with
  | enough | broken => cases hsupply
  | halted hmissing => exact hmissing
  | early _ _ _ _ ih => exact ih hsupply
  | arrival _ _ _ _ _ ih =>
    have hlt := ih hsupply
    rw [List.length_append]
    omega

/-- As long as they are in a good state, surroundings let a reading in vain take just as long as it
may. -/
structure WaitsOut (env : Surroundings ω) (good : ω → Prop) : Prop where
  /-- Readings lead from good states to good states. -/
  good_read {w : ω} (timeout : Nat) : good w → good (env.read w timeout).2
  /-- No reading comes back early with nothing. -/
  now_eq {w : ω} {timeout : Nat} : good w → (env.read w timeout).1 = .ok [] →
    (env.moment (env.read w timeout).2).now = (env.moment w).now + timeout

/-- Patient surroundings let a reading in vain take just as long as it may. -/
theorem Patient.waitsOut {queued : ω → Nat} (h : env.Patient good queued) : env.WaitsOut good where
  good_read timeout hw := h.good_of_replies hw (.read timeout)
  now_eq hw hread := h.now_eq hw (hread ▸ .read _)

/-- It comes to an end to read on from a line on which no reading comes back early with nothing. -/
theorem Timely.exists_flows (htimely : env.Timely) (hwaits : env.WaitsOut good) (idle missing : Nat)
    (hw : good w) (hnow : (env.moment w).now ≤ since + idle) :
    ∃ data supply w', good w' ∧ env.Flows idle missing since w data supply w' := by
  -- Every reading brings some of the missing bytes, or it is the last one.
  induction missing using Nat.strong_induction_on generalizing since w with
  | _ missing ih =>
    rcases Nat.eq_zero_or_pos missing with rfl | hmissing
    · exact ⟨[], .enough, w, hw, .enough⟩
    · cases hread : env.read w (since + idle - (env.moment w).now) with
      | mk reply next =>
        have hgood := hwaits.good_read (since + idle - (env.moment w).now) hw
        have hgap := htimely.now_read_le w (since + idle - (env.moment w).now)
        rw [hread] at hgood hgap
        cases reply with
        | error e => exact ⟨[], .broken e, next, hgood, .broken hmissing hread⟩
        | ok arrived =>
          by_cases harrived : arrived = []
          · subst harrived
            have hlate := hwaits.now_eq hw (congrArg Prod.fst hread)
            rw [hread] at hlate
            exact ⟨[], .halted, next, hgood, .halted hmissing hread (by simp only at hlate; omega)⟩
          · have hpos := List.length_pos_iff.mpr harrived
            have hless : missing - arrived.length < missing := by omega
            obtain ⟨data, supply, w', hw', hflows⟩ :=
              ih _ hless hgood (Nat.le_add_right _ idle)
            refine ⟨arrived ++ data, supply, w', hw', ?_⟩
            exact .arrival hmissing hread harrived (by simp only at hgap; omega) hflows

end Surroundings

/-! ## Runs -/

namespace Action

variable {σ : Type} {env : Surroundings ω} {act : σ → Action σ} {s s' s'' : σ} {w w' w'' : ω}

/-- A run gets from one state to another, and does not come to its end on the way. -/
def LeadsTo (env : Surroundings ω) (act : σ → Action σ) (s : σ) (w : ω) (s' : σ) (w' : ω) : Prop :=
  ∃ acts, run env act acts s w = ⟨none, s', w'⟩

theorem LeadsTo.of_step (h : (act s).step env w = .ok (s', w')) : LeadsTo env act s w s' w' := by
  refine ⟨1, ?_⟩
  rw [run_succ_of_step h, run]

theorem LeadsTo.trans (h : LeadsTo env act s w s' w') (h' : LeadsTo env act s' w' s'' w'') :
    LeadsTo env act s w s'' w'' := by
  obtain ⟨m, hm⟩ := h
  obtain ⟨n, hn⟩ := h'
  refine ⟨m + n, ?_⟩
  rw [run_add (by rw [hm]), hm, hn]

end Action

/-! ## Tasks -/

namespace Line.Task

variable {task : Task} {count idle since now : Nat} {pending arrived : Bytes}

/-- A task for `count` bytes that is given up when a pause has lasted for `idle`, which began at
`since`. It does not matter when a task for a byte is given up that is there already. -/
def Seeks (count idle since : Nat) (pending : Bytes) (task : Task) : Prop :=
  task = .exact count idle (since + idle) ∨
    count = 1 ∧ ∃ deadline, task = .byte deadline ∧ (pending = [] → deadline = since + idle)

theorem seeks_exact (count idle since : Nat) (pending : Bytes) :
    (exact count idle (since + idle)).Seeks count idle since pending :=
  .inl rfl

theorem seeks_byte (idle since : Nat) (pending : Bytes) :
    (byte (since + idle)).Seeks 1 idle since pending :=
  .inr ⟨rfl, _, rfl, fun _ => rfl⟩

/-- Bytes that are there are taken from the front of the queue. -/
theorem Seeks.look_of_le (h : task.Seeks count idle since pending) (hcount : count ≤ pending.length)
    (now : Nat) : task.look pending now =
      .settled ⟨some (pending.take count), pending.drop count⟩ := by
  rcases h with rfl | ⟨rfl, deadline, rfl, -⟩
  · simp only [look, if_pos hcount]
  · cases pending with
    | nil => cases hcount
    | cons => rfl

/-- For bytes that are missing the line is read until the pause would be too long. -/
theorem Seeks.look_of_lt (h : task.Seeks count idle since pending) (hcount : pending.length < count)
    (now : Nat) : task.look pending now = .read (since + idle - now) pending := by
  rcases h with rfl | ⟨rfl, deadline, rfl, hdeadline⟩
  · simp only [look, if_neg (Nat.not_le.mpr hcount)]
  · obtain rfl : pending = [] := List.length_eq_zero_iff.mp (by omega)
    rw [hdeadline rfl, look]

/-- After too long a pause what has come is thrown away. -/
theorem Seeks.hear_of_late (h : task.Seeks count idle since pending)
    (hcount : pending.length < count) (hlate : since + idle ≤ now) :
    task.hear pending [] now = .settled ⟨none, []⟩ := by
  rcases h with rfl | ⟨rfl, deadline, rfl, hdeadline⟩
  · simp only [hear, List.isEmpty_nil, if_true, if_pos hlate]
  · obtain rfl : pending = [] := List.length_eq_zero_iff.mp (by omega)
    simp only [hear, List.isEmpty_nil, hdeadline rfl, hlate, and_self, if_true]

/-- A reading that comes back early leaves all as it is. -/
theorem Seeks.hear_of_early (h : task.Seeks count idle since pending)
    (hcount : pending.length < count) (hearly : now < since + idle) :
    task.hear pending [] now = .waiting task pending := by
  rcases h with rfl | ⟨rfl, deadline, rfl, hdeadline⟩
  · simp only [hear, List.isEmpty_nil, if_true, if_neg (Nat.not_le.mpr hearly)]
  · obtain rfl : pending = [] := List.length_eq_zero_iff.mp (by omega)
    simp only [hear, hdeadline rfl, Nat.not_le.mpr hearly, and_false, if_false, List.append_nil]

/-- With what arrives another pause begins. -/
theorem Seeks.hear_of_arrived (h : task.Seeks count idle since pending) (harrived : arrived ≠ [])
    (now : Nat) : ∃ task', task.hear pending arrived now = .waiting task' (pending ++ arrived) ∧
      task'.Seeks count idle now (pending ++ arrived) := by
  have hsome : arrived.isEmpty = false := by simpa using harrived
  rcases h with rfl | ⟨rfl, deadline, rfl, -⟩
  · refine ⟨_, ?_, seeks_exact count idle now _⟩
    simp [hear, hsome]
  · refine ⟨.byte deadline, ?_, .inr ⟨rfl, deadline, rfl, ?_⟩⟩
    · simp [hear, hsome]
    · simp [harrived]

end Line.Task

/-! ## Parties -/

namespace Party

variable {δ φ : Type} {heard : Option Bytes → Party δ φ → Party δ φ} {s : Party δ φ} {count : Nat}

/-- A party that goes on after it has listened for `count` bytes. If they have come, what has come
after them stays in the queue. If they have not come in time, what has come is thrown away. If the
line cannot be read, it stays in the queue. -/
def listened (s : Party δ φ) (heard : Option Bytes → Party δ φ → Party δ φ) (count : Nat)
    (data : Bytes) (moment : Moment) : Supply → Party δ φ
  | .enough =>
    let come := s.pending ++ data
    heard (some (come.take count)) { s with pending := come.drop count, moment }
  | .halted => heard none { s with pending := [], moment }
  | .broken e => { s with pending := s.pending ++ data, moment }.fail (.channel e)

/-- It does not matter at which step a party has begun to listen. -/
theorem listened_goto (hheard : ∀ result s (step : φ), heard result (s.goto step) = heard result s)
    (s : Party δ φ) (step : φ) (data : Bytes) (moment : Moment) (supply : Supply) :
    (s.goto step).listened heard count data moment supply =
      s.listened heard count data moment supply := by
  cases supply with
  | enough =>
    exact hheard _ { s with pending := (s.pending ++ data).drop count, moment } step
  | halted => exact hheard none { s with pending := [], moment } step
  | broken e => rfl

/-- A party that has listened for a while goes on as if it had just begun. -/
theorem listened_append (s : Party δ φ) (arrived data : Bytes) (before moment : Moment)
    (supply : Supply) :
    { s with pending := s.pending ++ arrived, moment := before }.listened heard count data moment
        supply =
      s.listened heard count (arrived ++ data) moment supply := by
  cases supply <;> simp only [listened, List.append_assoc]

variable {env : Surroundings ω} {act : Party δ φ → Action (Party δ φ)} {again : Line.Task → φ}
  {idle missing since : Nat} {w w' : ω} {task : Line.Task} {data : Bytes} {supply : Supply}

/-- A party for whose task bytes are missing takes in what a reading brings. -/
theorem step_listen_of_lt {arrived : Bytes} (htask : task.Seeks count idle since s.pending)
    (hcount : s.pending.length < count)
    (hread : env.read w (since + idle - s.moment.now) = (.ok arrived, w')) :
    (s.listen task again heard).step env w =
      .ok (match task.hear s.pending arrived (env.moment w').now with
        | .settled r => heard r.result { s with pending := r.pending, moment := env.moment w' }
        | .waiting task' pending =>
          { s with pending, moment := env.moment w' }.goto (again task'), w') := by
  rw [listen, htask.look_of_lt hcount]
  cases hhear : task.hear s.pending arrived (env.moment w').now with
  | settled r => simp only [Action.step, hread, hhear]
  | waiting task' pending => simp only [Action.step, hread, hhear]

/-- A party that listens goes on with what comes over the line. -/
theorem leadsTo_listened (hact : ∀ s task, s.phase = .doing (again task) →
      act s = s.listen task again heard)
    (hheard : ∀ result s (step : φ), heard result (s.goto step) = heard result s)
    (h : env.Flows idle missing since w data supply w') (hphase : s.phase = .doing (again task))
    (hmoment : s.moment = env.moment w) (htask : task.Seeks count idle since s.pending)
    (hmissing : missing = count - s.pending.length) :
    Action.LeadsTo env act s w (s.listened heard count data (env.moment w') supply) w' := by
  -- One act for each reading. While bytes are missing the task stays one for what is missing.
  induction h generalizing s task with
  | enough =>
    refine .of_step ?_
    rw [hact s task hphase, listen, htask.look_of_le (by omega), listened, List.append_nil,
      ← hmoment]
    rfl
  | halted hpos hread hlate =>
    refine .of_step ?_
    rw [← hmoment] at hread
    rw [hact s task hphase, step_listen_of_lt htask (by omega) hread,
      htask.hear_of_late (by omega) hlate]
    rfl
  | broken hpos hread =>
    refine .of_step ?_
    rw [← hmoment] at hread
    rw [hact s task hphase, listen, htask.look_of_lt (by omega), listened, List.append_nil]
    simp only [Action.step, hread]
  | @early _ _ w next _ _ _ hpos hread hearly _ ih =>
    rw [← hmoment] at hread
    let waiting : Party δ φ := { s with
      pending := s.pending ++ [], moment := env.moment next }.goto (again task)
    have hstep : (act s).step env w = .ok (waiting, next) := by
      rw [hact s task hphase, step_listen_of_lt htask (by omega) hread,
        htask.hear_of_early (by omega) hearly]
      simp only [waiting, List.append_nil]
    have hpending : waiting.pending = s.pending := List.append_nil _
    have hleads := @ih waiting task rfl rfl (hpending ▸ htask) (hpending ▸ hmissing)
    rw [listened_goto hheard, listened_append] at hleads
    exact (Action.LeadsTo.of_step hstep).trans hleads
  | @arrival _ _ w next _ arrived _ _ hpos hread harrived _ _ ih =>
    rw [← hmoment] at hread
    obtain ⟨task', hhear, htask'⟩ := htask.hear_of_arrived harrived (env.moment next).now
    let waiting : Party δ φ := { s with
      pending := s.pending ++ arrived, moment := env.moment next }.goto (again task')
    have hstep : (act s).step env w = .ok (waiting, next) := by
      rw [hact s task hphase, step_listen_of_lt htask (by omega) hread, hhear]
    have hlength : waiting.pending.length = s.pending.length + arrived.length := List.length_append
    have hleads := @ih waiting task' rfl rfl htask' (by omega)
    rw [listened_goto hheard, listened_append] at hleads
    exact (Action.LeadsTo.of_step hstep).trans hleads

end Party

end BlockTransfer
