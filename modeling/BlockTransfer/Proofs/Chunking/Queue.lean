import BlockTransfer.Proofs.Chunking.Wire
import BlockTransfer.Proofs.Receiver.Course
import BlockTransfer.Proofs.Sender.Course

/-!
# How parties use their queues

A party that is brought more than it waits for keeps the rest in its queue. It looks at the queue
only where it waits for something, and takes from the front what it waits for. Otherwise it does not
matter to a sender or a receiver what is in its queue.

## Main definitions

* `Party.holding`: the same party with other bytes in its queue.
* `Party.Fresh`: no time has gone by of the pause after which a party gives up.
* `Party.UsesQueue`: how the steps of a party use its queue.

## Main results

* `Sender.usesQueue` and `Receiver.usesQueue`: senders and receivers use their queues like this.
-/

namespace BlockTransfer

/-! ## Tasks -/

/-- The pause after which a task is given up has just begun. -/
def Line.Task.Fresh (now : Nat) : Line.Task → Prop
  | .exact _ idle deadline => deadline = now + idle
  | _ => True

/-- A task goes on as it is when bytes arrive at once for which its pause begins again. -/
theorem Line.Task.Fresh.hear {task : Line.Task} {now : Nat} (h : task.Fresh now)
    {left arrived : Bytes} (harrived : arrived ≠ []) :
    task.hear left arrived now = .waiting task (left ++ arrived) := by
  have hempty : arrived.isEmpty = false := by simpa using harrived
  cases task with
  | exact count idle deadline =>
    obtain rfl : deadline = now + idle := h
    simp [Line.Task.hear, hempty]
  | byte | poll | quiet => simp [Line.Task.hear, hempty]

/-- Every pause has just begun if bytes have arrived. -/
theorem Line.Task.fresh_of_hear {task again : Line.Task} {left arrived pending : Bytes} {now : Nat}
    (harrived : arrived ≠ []) (h : task.hear left arrived now = .waiting again pending) :
    again.Fresh now := by
  have hempty : arrived.isEmpty = false := by simpa using harrived
  cases task <;>
    simp only [Line.Task.hear, hempty, Bool.false_eq_true, false_and, if_false] at h <;>
    cases h <;> trivial

/-- What a task makes of bytes that arrive does not depend on how many of them there are. -/
theorem Line.Task.hear_of_ne_nil (task : Line.Task) (left : Bytes) (now : Nat)
    {arrived arrived' : Bytes} (harrived : arrived ≠ []) (harrived' : arrived' ≠ []) :
    ∃ again, task.hear left arrived now = .waiting again (left ++ arrived) ∧
      task.hear left arrived' now = .waiting again (left ++ arrived') := by
  have hempty : arrived.isEmpty = false := by simpa using harrived
  have hempty' : arrived'.isEmpty = false := by simpa using harrived'
  cases task <;> simp [Line.Task.hear, hempty, hempty']

/-- A task that is settled is settled alike if there is more in the queue. -/
theorem Line.Task.look_append {task : Line.Task} {pending : Bytes} {now : Nat} {r : Line.Settled}
    (h : task.look pending now = .settled r) (more : Bytes) :
    task.look (pending ++ more) now = .settled ⟨r.result, r.pending ++ more⟩ := by
  cases task with
  | byte | poll =>
    cases pending with
    | nil => cases h
    | cons byte rest =>
      cases h
      rfl
  | exact count idle deadline =>
    simp only [Line.Task.look] at h ⊢
    split at h
    · rename_i hcount
      cases h
      have hmore : count ≤ (pending ++ more).length := by
        rw [List.length_append]
        omega
      rw [if_pos hmore, List.take_append_of_le_length hcount, List.drop_append_of_le_length hcount]
    · cases h
  | quiet => cases h

/-- What is in the queue is kept for a reading, unless silence is awaited. -/
theorem Line.Task.look_read_of_ne {task : Line.Task} {pending left : Bytes} {now timeout : Nat}
    (h : task.look pending now = .read timeout left) (hquiet : ¬∃ period, task = .quiet period) :
    pending = left := by
  obtain ⟨used, hused, hnil⟩ := Line.Task.look_read h
  have hwanted : task.wanted ≠ none := by
    cases task with
    | quiet period => exact absurd ⟨period, rfl⟩ hquiet
    | byte | exact | poll => exact Option.some_ne_none _
  rw [hused, hnil hwanted, List.nil_append]

/-! ## Queues -/

namespace Party

variable {δ φ : Type}

/-- The same party with other bytes in its queue. -/
def holding (s : Party δ φ) (pending : Bytes) : Party δ φ :=
  { s with pending }

/-- If something is wanted of the line, the pause before it is given up has just begun. -/
def Fresh (task? : φ → Option Line.Task) (s : Party δ φ) : Prop :=
  ∀ step task, s.phase = .doing step → task? step = some task → task.Fresh s.moment.now

section Fresh

variable {task? : φ → Option Line.Task} {s : Party δ φ} {step : φ}

theorem fresh_goto (h : ∀ task, task? step = some task → task.Fresh s.moment.now) :
    (s.goto step).Fresh task? := by
  rintro _ task ⟨⟩ htask
  exact h task htask

theorem fresh_goto_of_none (h : task? step = none) : (s.goto step).Fresh task? := by
  refine fresh_goto ?_
  rw [h]
  nofun

theorem fresh_of_parted (h : s.Parted) : s.Fresh task? :=
  fun step _ hphase _ => absurd hphase (h.phase_ne step)

theorem fresh_retry (s : Party δ φ) (stage : Stage) (h : task? step = none) :
    (s.retry stage step).Fresh task? :=
  retry_induction stage step (fun e => fresh_of_parted (parted_fail _ e)) (fresh_goto_of_none h)

end Fresh

/-- Silence is awaited, so what is in the queue is thrown away. -/
def Hushes (task? : φ → Option Line.Task) (s : Party δ φ) : Prop :=
  ∃ step period, s.phase = .doing step ∧ task? step = some (.quiet period)

/-- How a party does a step at which something is wanted of the line. -/
structure ListensTo (own : Party δ φ → φ → Action (Party δ φ)) (task? : φ → Option Line.Task)
    (step : φ) (task : Line.Task) (again : Line.Task → φ)
    (heard : Option Bytes → Party δ φ → Party δ φ) : Prop where
  /-- It listens. -/
  eq_listen : ∀ s, own s step = s.listen task again heard
  /-- If the task is the same after a reading, so is the step. -/
  again_task : again task = step
  fresh_again : ∀ {task task' : Line.Task} {now : Nat}, task.Fresh now →
    task? (again task) = some task' → task'.Fresh now
  /-- What is still in the queue does not matter. -/
  heard_holding : ∀ result s pending, heard result (s.holding pending) =
    (heard result s).holding pending
  fresh_heard : ∀ {result s}, task.Fresh s.moment.now → (heard result s).Fresh task?

/-- A party looks at its queue only where something is wanted of the line, as long as it is at steps
that fit. -/
structure UsesQueue (own : Party δ φ → φ → Action (Party δ φ)) (task? : φ → Option Line.Task)
    (placed : Party δ φ → φ → Prop) : Prop where
  listens : ∀ {step task}, task? step = some task →
    ∃ again heard, ListensTo own task? step task again heard
  /-- Otherwise what is in the queue does not matter. -/
  holding : ∀ {step}, task? step = none → ∀ s pending,
    own (s.holding pending) step = (own s step).map (·.holding pending)
  /-- Otherwise the line is not read. -/
  ensures : ∀ {s step}, placed s step → task? step = none → (own s step).Ensures fun event next =>
    (∀ timeout reply, event ≠ .read timeout reply) ∧ next.Fresh task?
  placed_own : ∀ {s step}, placed s step → (own s step).Ensures fun _ next =>
    ∀ step', next.phase = .doing step' → placed next step'
  attentive : ∀ s : Party δ φ, (s.act (own s)).Attentive s.moment

/-- A party gets from fitting steps to fitting steps only. -/
theorem UsesQueue.placed_act {own : Party δ φ → φ → Action (Party δ φ)}
    {task? : φ → Option Line.Task} {placed : Party δ φ → φ → Prop} {s : Party δ φ}
    (h : UsesQueue own task? placed) (hplaced : ∀ step, s.phase = .doing step → placed s step) :
    (s.act (own s)).Ensures fun _ next => ∀ step, next.phase = .doing step → placed next step :=
  ensures_act (fun step hphase => h.placed_own (hplaced step hphase)) fun _ _ _ _ => nofun

section Idle

variable {own : Party δ φ → φ → Action (Party δ φ)} {task? : φ → Option Line.Task}
  {placed : Party δ φ → φ → Prop} {s : Party δ φ}

/-- Where nothing is wanted of the line, it does not matter what is in the queue. -/
theorem UsesQueue.act_holding (h : UsesQueue own task? placed)
    (hidle : ∀ step, s.phase = .doing step → task? step = none) (pending : Bytes) :
    (s.holding pending).act (own (s.holding pending)) =
      (s.act (own s)).map (·.holding pending) := by
  have hphase' : (s.holding pending).phase = s.phase := rfl
  rw [act, act, hphase']
  cases hphase : s.phase with
  | doing step => exact h.holding (hidle step hphase) s pending
  | _ => rfl

/-- Where nothing is wanted of the line, the queue stays as it is. -/
theorem UsesQueue.pending_eq (h : UsesQueue own task? placed)
    (hidle : ∀ step, s.phase = .doing step → task? step = none) {ω : Type} {env : Surroundings ω}
    {w w' : ω} {next : Party δ φ} (hstep : (s.act (own s)).step env w = .ok (next, w')) :
    next.pending = s.pending := by
  have hsame := (Action.ensures_of_map_eq (h.act_holding hidle s.pending).symm).of_step hstep
  rw [← hsame]
  rfl

/-- Where nothing is wanted of the line, it is not read. -/
theorem UsesQueue.ensures_act (h : UsesQueue own task? placed)
    (hplaced : ∀ step, s.phase = .doing step → placed s step)
    (hidle : ∀ step, s.phase = .doing step → task? step = none) :
    (s.act (own s)).Ensures fun event next =>
      (∀ timeout reply, event ≠ .read timeout reply) ∧ next.Fresh task? := by
  refine Party.ensures_act (fun step hphase => h.ensures (hplaced step hphase)
    (hidle step hphase)) ?_
  intro ending reply moment _
  exact ⟨nofun, fresh_of_parted ⟨ending, .inr rfl⟩⟩

/-- An act at such a step is no reading. -/
theorem UsesQueue.act_ne_read (h : UsesQueue own task? placed)
    (hplaced : ∀ step, s.phase = .doing step → placed s step)
    (hidle : ∀ step, s.phase = .doing step → task? step = none) (timeout : Nat)
    (next : Except IoError Bytes → Moment → Party δ φ) : s.act (own s) ≠ .read timeout next := by
  intro hact
  have hensures := h.ensures_act hplaced hidle
  rw [hact] at hensures
  exact (hensures (.ok []) s.moment).1 timeout (.ok []) rfl

end Idle

section Listening

variable {own : Party δ φ → φ → Action (Party δ φ)} {task? : φ → Option Line.Task} {step : φ}
  {task : Line.Task} {again : Line.Task → φ} {heard : Option Bytes → Party δ φ → Party δ φ}
  {s : Party δ φ}

theorem ListensTo.act_eq (h : ListensTo own task? step task again heard)
    (hphase : s.phase = .doing step) : s.act (own s) = s.listen task again heard := by
  rw [act, hphase]
  exact h.eq_listen s

/-- A reading does not depend on bytes that are thrown away. -/
theorem ListensTo.act_holding {pending left : Bytes} {timeout : Nat}
    (h : ListensTo own task? step task again heard) (hphase : s.phase = .doing step)
    (hlook : task.look s.pending s.moment.now = .read timeout left)
    (hlook' : task.look pending s.moment.now = .read timeout left) :
    (s.holding pending).act (own (s.holding pending)) = s.act (own s) := by
  have hlook'' : task.look (s.holding pending).pending (s.holding pending).moment.now =
      .read timeout left := hlook'
  rw [h.act_eq hphase, @act_eq _ _ _ _ _ _ _ _ (s.holding pending) h hphase]
  simp only [listen, hlook, hlook'']
  rfl

variable {ω : Type} {env : Surroundings ω} {w w' : ω}

/-- A party that reads goes on as it takes in what is brought. -/
theorem ListensTo.step_of_hear {task' : Line.Task} {timeout : Nat} {left left' arrived : Bytes}
    (h : ListensTo own task? step task again heard) (hphase : s.phase = .doing step)
    (hlook : task.look s.pending s.moment.now = .read timeout left)
    (hread : env.read w timeout = (.ok arrived, w'))
    (hhear : task.hear left arrived (env.moment w').now = .waiting task' left') :
    (s.act (own s)).step env w =
      .ok ({ s with pending := left', moment := env.moment w' }.goto (again task'), w') := by
  rw [h.act_eq hphase]
  simp only [listen, hlook, Action.step, hread, hhear]

/-- What a party waits for may be there already. -/
theorem ListensTo.step_of_settled {r : Line.Settled}
    (h : ListensTo own task? step task again heard) (hphase : s.phase = .doing step)
    (hlook : task.look s.pending s.moment.now = .settled r) (env : Surroundings ω) (w : ω) :
    (s.act (own s)).step env w = .ok ((heard r.result s).holding r.pending, w) := by
  rw [h.act_eq hphase, ← h.heard_holding]
  simp only [listen, hlook, Action.step]
  rfl

end Listening

end Party

/-! ## Senders and receivers -/

namespace Party

variable {δ φ : Type} (s : Party δ φ) (pending : Bytes)

@[simp]
theorem options_holding : (s.holding pending).options = s.options :=
  rfl

@[simp]
theorem session_holding : (s.holding pending).session = s.session :=
  rfl

@[simp]
theorem streaming_holding : (s.holding pending).streaming = s.streaming :=
  rfl

@[simp]
theorem job_holding : (s.holding pending).job = s.job :=
  rfl

@[simp]
theorem moment_holding : (s.holding pending).moment = s.moment :=
  rfl

variable {s pending} in
theorem ite_holding {c : Prop} [Decidable c] {a b a' b' : Party δ φ} (ha : a' = a.holding pending)
    (hb : b' = b.holding pending) :
    (if c then a' else b') = (if c then a else b).holding pending := by
  rw [ha, hb, apply_ite (fun s : Party δ φ => s.holding pending)]

variable {s pending} in
theorem ite_map {c : Prop} [Decidable c] {a b a' b' : Action (Party δ φ)}
    (ha : a' = a.map (·.holding pending)) (hb : b' = b.map (·.holding pending)) :
    (if c then a' else b') = (if c then a else b).map (·.holding pending) := by
  rw [ha, hb, apply_ite (Action.map fun s : Party δ φ => s.holding pending)]

theorem retry_holding (stage : Stage) (step : φ) :
    (s.holding pending).retry stage step = (s.retry stage step).holding pending :=
  ite_holding rfl rfl

theorem write_holding (data : Bytes) (step : φ) :
    (s.holding pending).write data step = (s.write data step).map (·.holding pending) := by
  simp only [write, Action.map, Action.write.injEq, true_and]
  funext reply moment
  cases reply with
  | error e => rfl
  | ok taken => exact ite_holding rfl rfl

theorem unlessAborted_holding {a a' : Action (Party δ φ)} (h : a' = a.map (·.holding pending)) :
    (s.holding pending).unlessAborted a' = (s.unlessAborted a).map (·.holding pending) :=
  ite_map rfl h

end Party

namespace Sender

variable (s : Sender) (pending : Bytes)

theorem heardInvitation_holding (invitation : Invitation) (task : Line.Task)
    (heard : Option Bytes) :
    heardInvitation invitation task heard (s.holding pending) =
      (heardInvitation invitation task heard s).holding pending := by
  unfold heardInvitation
  split
  · split
    · rfl
    · rename_i signal _ _
      cases signal <;> rfl
    · rfl
  · exact Party.retry_holding _ _ _ _

theorem heardAnswer_holding (item : Item) (spare : Bool) (task : Line.Task)
    (heard : Option Bytes) :
    heardAnswer item spare task heard (s.holding pending) =
      (heardAnswer item spare task heard s).holding pending := by
  unfold heardAnswer
  split
  · split
    · rfl
    · rfl
    · cases spare
      · exact Party.retry_holding _ _ _ _
      · rfl
    · rfl
  · exact Party.retry_holding _ _ _ _

theorem heardInStream_holding (piece : Bytes) (heard : Option Bytes) :
    heardInStream piece heard (s.holding pending) =
      (heardInStream piece heard s).holding pending := by
  unfold heardInStream
  split
  · exact Party.ite_holding rfl rfl
  · rfl

theorem start_holding : start (s.holding pending) = (start s).holding pending := by
  simp only [start, Party.options_holding, Party.job_holding]
  cases s.options.check with
  | some e => rfl
  | none => exact Party.ite_holding rfl rfl

theorem nextFile_holding : nextFile (s.holding pending) = (nextFile s).holding pending := by
  simp only [nextFile, Party.options_holding, Party.job_holding]
  cases s.job.files with
  | cons file files => rfl
  | nil => cases s.options.protocol <;> rfl

theorem beginData_holding : beginData (s.holding pending) = (beginData s).holding pending := by
  simp only [beginData, Party.job_holding]
  cases s.job.files <;> rfl

theorem invited_holding (invitation : Invitation) :
    invited (s.holding pending) invitation = (invited s invitation).holding pending := by
  cases invitation with
  | file =>
    simp only [invited, Party.options_holding]
    cases s.options.protocol with
    | xmodem => exact beginData_holding s pending
    | ymodem => exact Party.ite_holding rfl rfl
  | data => exact beginData_holding s pending
  | endOfBatch => rfl

theorem acknowledged_holding (item : Item) :
    acknowledged (s.holding pending) item = (acknowledged s item).holding pending := by
  cases item <;> rfl

theorem gathered_holding (piece : Bytes) :
    gathered (s.holding pending) piece = (gathered s piece).map (·.holding pending) :=
  Party.ite_map rfl (Party.ite_map (Party.write_holding s pending _ _) rfl)

theorem fetched_holding (piece : Bytes) (most : Nat) (reply : Except IoError Bytes) :
    fetched (s.holding pending) piece most reply =
      (fetched s piece most reply).holding pending := by
  cases reply with
  | error e => exact Party.ite_holding rfl rfl
  | ok data => exact Party.ite_holding rfl rfl

theorem fresh_heardInvitation {s : Sender} {invitation : Invitation} {task : Line.Task}
    {heard : Option Bytes} (h : task.Fresh s.moment.now) :
    (heardInvitation invitation task heard s).Fresh Step.task? := by
  have hagain : (s.goto (.listen invitation task)).Fresh Step.task? := by
    refine Party.fresh_goto ?_
    rintro task' ⟨⟩
    exact h
  unfold heardInvitation
  split
  · split
    · exact Party.fresh_of_parted (Party.parted_fail _ _)
    · rw [negotiate?_eq]
      cases mode? _ with
      | none => exact hagain
      | some mode => exact Party.fresh_goto_of_none rfl
    · exact hagain
  · exact Party.fresh_retry _ _ rfl

theorem fresh_heardAnswer {s : Sender} {item : Item} {spare : Bool} {task : Line.Task}
    {heard : Option Bytes} (h : task.Fresh s.moment.now) :
    (heardAnswer item spare task heard s).Fresh Step.task? := by
  unfold heardAnswer refused
  split
  · split
    · exact Party.fresh_of_parted (Party.parted_fail _ _)
    · exact Party.fresh_goto_of_none rfl
    · split
      · exact Party.fresh_goto_of_none rfl
      · exact Party.fresh_retry _ _ rfl
    · refine Party.fresh_goto ?_
      rintro task' ⟨⟩
      exact h
  · exact Party.fresh_retry _ _ rfl

theorem fresh_heardInStream (s : Sender) (piece : Bytes) (heard : Option Bytes) :
    (heardInStream piece heard s).Fresh Step.task? := by
  unfold heardInStream
  split
  · split
    · exact Party.fresh_of_parted (Party.parted_fail _ _)
    · refine Party.fresh_goto ?_
      rintro task ⟨⟩
      trivial
  · exact Party.fresh_goto_of_none rfl

/-- A sender reads only where it waits. -/
theorem Course.ne_read {s next : Sender} {step : Step} {event : Event}
    (h : Course s step event next) (htask : step.task? = none) (timeout : Nat)
    (reply : Except IoError Bytes) : event ≠ .read timeout reply := by
  rintro rfl
  cases h with
  | turns h =>
    cases h with
    | arrival hsome => cases htask.symm.trans hsome
    | lapse | unanswered | drained => cases htask
  | breaks h =>
    cases h with
    | unread hne => exact hne htask
    | lapse | unanswered => cases htask

/-- Whatever a sender waits for, no pause in it matters. -/
theorem Course.fresh {s next : Sender} {step : Step} {event : Event}
    (h : Course s step event next) (hplaced : s.Placed step) : next.Fresh Step.task? := by
  rcases h.turns_or_parted with ⟨s', step', rfl, hturns⟩ | hparted
  · refine Party.fresh_goto ?_
    intro task htask
    rcases (hturns.placed hplaced).single htask with rfl | ⟨deadline, rfl⟩
    · trivial
    · trivial
  · exact Party.fresh_of_parted hparted

theorem usesQueue : Party.UsesQueue step Step.task? Placed where
  listens {step task} htask := by
    cases step with
    | listen invitation task' =>
      cases htask
      refine ⟨.listen invitation, heardInvitation invitation task, fun _ => rfl, rfl, ?_,
        fun result s pending => heardInvitation_holding s pending invitation task result,
        fresh_heardInvitation⟩
      rintro task task' now hfresh ⟨⟩
      exact hfresh
    | answer item spare task' =>
      cases htask
      refine ⟨.answer item spare, heardAnswer item spare task, fun _ => rfl, rfl, ?_,
        fun result s pending => heardAnswer_holding s pending item spare task result,
        fresh_heardAnswer⟩
      rintro task task' now hfresh ⟨⟩
      exact hfresh
    | drain piece =>
      cases htask
      refine ⟨fun _ => .drain piece, heardInStream piece, fun _ => rfl, rfl, ?_,
        fun result s pending => heardInStream_holding s pending piece result,
        fun _ => fresh_heardInStream _ piece _⟩
      rintro task task' now hfresh ⟨⟩
      trivial
    | _ => cases htask
  holding {step} htask s pending := by
    cases step with
    | listen | answer | drain => cases htask
    | start => exact congrArg Action.silent (start_holding s pending)
    | nextFile => exact congrArg Action.silent (nextFile_holding s pending)
    | await invitation => rfl
    | attempt invitation => exact Party.unlessAborted_holding s pending rfl
    | invited invitation => exact congrArg Action.silent (invited_holding s pending invitation)
    | streamHeader =>
      exact Party.unlessAborted_holding s pending (Party.write_holding s pending _ _)
    | offer item spare =>
      refine Party.unlessAborted_holding s pending ?_
      rw [← Party.write_holding]
      cases item <;> rfl
    | sent item spare => rfl
    | acknowledged item => exact congrArg Action.silent (acknowledged_holding s pending item)
    | nextPiece => exact Party.unlessAborted_holding s pending rfl
    | gather piece =>
      refine congrArg (Action.fetch s.job.index _) ?_
      funext reply moment
      exact fetched_holding { s with moment } pending _ _ _
    | gathered piece => exact gathered_holding s pending piece
    | counted piece => rfl
  ensures {s step} hplaced htask := by
    refine (ensures_course hplaced).mono ?_
    exact fun event next h => ⟨h.ne_read htask, h.fresh hplaced⟩
  placed_own {s step} hplaced := by
    refine (ensures_course hplaced).mono ?_
    intro event next h step' hphase'
    rcases h.turns_or_parted with ⟨s', step'', rfl, hturns⟩ | hparted
    · cases hphase'
      exact ⟨(hturns.placed hplaced).files_ne_nil, (hturns.placed hplaced).timed⟩
    · exact absurd hphase' (hparted.phase_ne step')
  attentive := attentive_act

end Sender

namespace Receiver

variable (s : Receiver) (pending : Bytes)

theorem collect_holding (purpose : Purpose) (frame : Bytes) :
    collect purpose frame (s.holding pending) = (collect purpose frame s).holding pending := by
  unfold collect
  rw [show (s.holding pending).trailer = s.trailer from rfl]
  split <;> rfl

theorem heardStart_holding (purpose : Purpose) (heard : Option Bytes) :
    heardStart purpose heard (s.holding pending) =
      (heardStart purpose heard s).holding pending := by
  unfold heardStart
  split
  · refine Party.ite_holding rfl (Party.ite_holding rfl (Party.ite_holding rfl ?_))
    exact collect_holding s pending purpose _
  · rfl

theorem heardRest_holding (purpose : Purpose) (frame : Bytes) (needed : Nat)
    (heard : Option Bytes) :
    heardRest purpose frame needed heard (s.holding pending) =
      (heardRest purpose frame needed heard s).holding pending := by
  cases heard with
  | none => rfl
  | some rest => exact collect_holding s pending purpose _

theorem start_holding : start (s.holding pending) = (start s).holding pending := by
  unfold start
  rw [Party.options_holding]
  cases s.options.check with
  | some e => rfl
  | none => cases s.options.protocol <;> rfl

theorem fallBack_holding : fallBack (s.holding pending) = (fallBack s).holding pending :=
  Party.ite_holding rfl rfl

theorem keep_holding (data : Bytes) (step : Step) :
    keep (s.holding pending) data step = (keep s data step).map (·.holding pending) := by
  refine congrArg (Action.store data) ?_
  funext reply moment
  cases reply <;> rfl

theorem readHeader_holding (block : Block) :
    readHeader (s.holding pending) block = (readHeader s block).map (·.holding pending) := by
  refine Party.ite_map rfl ?_
  cases FileHeader.parse block.payload with
  | error e => rfl
  | ok header =>
    cases header with
    | none => exact Party.write_holding s pending _ _
    | some header => rfl

theorem judgeSolicited_holding (stage : Stage) (incoming : Incoming) :
    judgeSolicited (s.holding pending) stage incoming =
      (judgeSolicited s stage incoming).map (·.holding pending) := by
  cases incoming with
  | block block =>
    simp only [judgeSolicited, Party.mapSession, Party.options_holding]
    cases s.options.protocol with
    | xmodem => rfl
    | ymodem => exact readHeader_holding (s.mapSession Session.resetRetries) pending block
  | endOfFile =>
    simp only [judgeSolicited, Party.options_holding]
    cases s.options.protocol with
    | xmodem => rfl
    | ymodem => exact Party.write_holding s pending _ _
  | corrupt e => rfl
  | silence => exact congrArg Action.silent (congrArg (Party.goto · _) (fallBack_holding s pending))

theorem take_holding (payload : Bytes) :
    take (s.holding pending) payload = (take s payload).holding pending := by
  unfold take
  rw [show declared (s.holding pending) = declared s from rfl]
  cases declared s with
  | some length => rfl
  | none =>
    dsimp only
    rw [Party.job_holding]
    cases s.job.held <;> rfl

theorem judgeData_holding (incoming : Incoming) :
    judgeData (s.holding pending) incoming =
      (judgeData s incoming).map (·.holding pending) := by
  cases incoming with
  | block block =>
    exact Party.ite_map (congrArg Action.silent (take_holding s pending _))
      (Party.ite_map (Party.write_holding s pending _ _) rfl)
  | endOfFile =>
    let ended : Receiver := s.mapSession (·.enter .awaitEotAck)
    let marked : Receiver := { ended with job := { s.job with endSeen := true } }
    exact Party.ite_map (Party.write_holding marked pending _ _)
      (Party.write_holding ended pending _ _)
  | corrupt e => exact Party.ite_map rfl rfl
  | silence =>
    exact Party.ite_map rfl
      (Party.ite_map (Party.write_holding s pending _ _) (Party.write_holding s pending _ _))

theorem begin_holding (header : Option FileHeader) (first : Option Incoming) :
    begin (s.holding pending) header first = (begin s header first).map (·.holding pending) := by
  refine congrArg (Action.openFile header) ?_
  funext reply moment
  cases reply <;> rfl

theorem settle_holding : settle (s.holding pending) = (settle s).holding pending := by
  unfold settle
  rw [Party.job_holding]
  cases s.job.held <;> rfl

theorem close_holding : close (s.holding pending) = (close s).map (·.holding pending) := by
  refine congrArg (Action.closeFile ⟨s.job.header, s.job.delivered⟩) ?_
  funext reply moment
  cases reply with
  | error e => rfl
  | ok =>
    dsimp only
    simp only [Party.mapSession, Party.options_holding]
    cases s.options.protocol <;> rfl

/-- The pause within a frame begins when it turns out that bytes are missing of it. -/
theorem fresh_collect (s : Receiver) (purpose : Purpose) (frame : Bytes) (needed idle : Nat) :
    (s.goto (.collect purpose frame needed (.exact needed idle (s.moment.now + idle)))).Fresh
      Step.task? := by
  refine Party.fresh_goto ?_
  rintro task ⟨⟩
  rfl

theorem fresh_heardStart (s : Receiver) (purpose : Purpose) (heard : Option Bytes) :
    (heardStart purpose heard s).Fresh Step.task? :=
  heardStart_induction purpose heard (Party.fresh_of_parted (Party.parted_fail _ _))
    (fresh_collect s purpose) fun _ => Party.fresh_goto_of_none rfl

theorem fresh_heardRest (s : Receiver) (purpose : Purpose) (frame : Bytes) (needed : Nat)
    (heard : Option Bytes) : (heardRest purpose frame needed heard s).Fresh Step.task? :=
  heardRest_induction purpose frame needed heard (fresh_collect s purpose)
    fun _ => Party.fresh_goto_of_none rfl

/-- A receiver reads only where it waits. -/
theorem Course.ne_read {s next : Receiver} {step : Step} {event : Event}
    (h : Course s step event next) (htask : step.task? = none) (timeout : Nat)
    (reply : Except IoError Bytes) : event ≠ .read timeout reply := by
  rintro rfl
  cases h with
  | turns h =>
    cases h with
    | arrival hsome => cases htask.symm.trans hsome
    | silence | halted | purged => cases htask
  | breaks h =>
    cases h with
    | unread hne => exact hne htask
  | completes h => cases h

/-- The pause within a block begins with its marker, for which the receiver waits. -/
theorem Course.fresh {s next : Receiver} {step : Step} {event : Event}
    (h : Course s step event next) (htask : step.task? = none) : next.Fresh Step.task? := by
  cases h with
  | turns h =>
    cases h with
    | arrival hsome => cases htask.symm.trans hsome
    | endMark | garbage | marker | silence | block | damaged | halted | purged => cases htask
    | expect | purge =>
      refine Party.fresh_goto ?_
      rintro task ⟨⟩
      trivial
    | speaks h =>
      refine Party.fresh_goto_of_none ?_
      cases h <;> rfl
    | _ => exact Party.fresh_goto_of_none rfl
  | breaks => exact Party.fresh_of_parted (Party.parted_fail _ _)
  | completes => exact Party.fresh_of_parted (Party.parted_complete _)
  | aborts => exact Party.fresh_of_parted (Party.parted_abort _)
  | rejects => exact Party.fresh_of_parted (Party.parted_reject _ _)

theorem usesQueue : Party.UsesQueue step Step.task? Placed where
  listens {step task} htask := by
    cases step with
    | listen purpose task' =>
      cases htask
      refine ⟨.listen purpose, heardStart purpose, fun _ => rfl, rfl, ?_,
        fun result s pending => heardStart_holding s pending purpose result,
        fun _ => fresh_heardStart _ purpose _⟩
      rintro task task' now hfresh ⟨⟩
      exact hfresh
    | collect purpose frame needed task' =>
      cases htask
      refine ⟨.collect purpose frame needed, heardRest purpose frame needed, fun _ => rfl, rfl,
        ?_, fun result s pending => heardRest_holding s pending purpose frame needed result,
        fun _ => fresh_heardRest _ purpose frame needed _⟩
      rintro task task' now hfresh ⟨⟩
      exact hfresh
    | purge purpose task' =>
      cases htask
      refine ⟨.purge purpose, fun _ s => s.goto (.refuse purpose), fun _ => rfl, rfl, ?_,
        fun _ _ _ => rfl, fun _ => Party.fresh_goto_of_none rfl⟩
      rintro task task' now hfresh ⟨⟩
      exact hfresh
    | _ => cases htask
  holding {step} htask s pending := by
    cases step with
    | listen | collect | purge => cases htask
    | start => exact congrArg Action.silent (start_holding s pending)
    | attempt stage prompt =>
      refine Party.unlessAborted_holding s pending ?_
      cases prompt with
      | true => exact Party.write_holding s pending _ _
      | false => rfl
    | expect purpose => cases purpose <;> rfl
    | judge purpose incoming =>
      cases purpose with
      | solicited stage => exact judgeSolicited_holding s pending stage incoming
      | data => exact judgeData_holding s pending incoming
    | refuse | signal => exact Party.write_holding s pending _ _
    | missed purpose prompt =>
      cases purpose <;> exact congrArg Action.silent (Party.retry_holding s pending _ _)
    | announced header =>
      exact Party.ite_map (Party.write_holding s pending _ _) (Party.write_holding s pending _ _)
    | openFile header first => exact begin_holding s pending header first
    | nextBlock first => exact Party.unlessAborted_holding s pending rfl
    | store data | storeLast data => exact keep_holding s pending data _
    | accept useful => exact Party.ite_map rfl (Party.write_holding s pending _ _)
    | repeated number => exact Party.ite_map (Party.write_holding s pending _ _) rfl
    | settle => exact congrArg Action.silent (settle_holding s pending)
    | closeFile => exact close_holding s pending
    | solicit | counted | finish => rfl
  ensures {s step} hplaced htask := by
    refine (ensures_course hplaced).mono ?_
    exact fun event next h => ⟨h.ne_read htask, h.fresh htask⟩
  placed_own {s step} hplaced := by
    refine (ensures_course hplaced).mono ?_
    intro event next h step' hphase'
    rcases h.turns_or_parted with ⟨s', step'', rfl, hturns⟩ | hparted
    · cases hphase'
      exact hturns.placed hplaced
    · exact absurd hphase' (hparted.phase_ne step')
  attentive := attentive_act

end Receiver

end BlockTransfer
