import BlockTransfer.Proofs.Timing
import BlockTransfer.Sink.Memory

/-!
# Calls

Whoever uses a line makes one call after the other: for the next byte, for a number of bytes, for a
byte that has come already, or for silence. Whatever the calls are and however the line cuts its
bytes into pieces, no byte is lost, none is invented and none overtakes another one. A call for bytes
is given up just when its time is over, and not before.

## Main definitions

* `Line.Call`: what can be called for.
* `Line.Answers`: what a call comes to.
* `Line.InHand`: what is known of a call that has not been answered yet.
* `Caller`: a party that makes calls.
* `Caller.Accounts`: where all bytes have gone that a caller has read.

## Main results

* `Line.InHand.answers_of_look`, `Line.InHand.answers_of_hear`: how a call is answered.
* `Caller.accounts_run`: a caller gets just what comes over the line.
-/

namespace BlockTransfer

/-! ## Calls -/

namespace Line

/-- The line is read for a sequence only as long as bytes are missing, and until the pause would be
too long. -/
theorem Task.look_exact_read {count idle deadline now timeout : Nat} {pending left : Bytes}
    (h : (Task.exact count idle deadline).look pending now = .read timeout left) :
    pending.length < count ∧ timeout = deadline - now ∧ left = pending := by
  simp only [look] at h
  split at h
  · cases h
  · rename_i hcount
    cases h
    exact ⟨Nat.lt_of_not_le hcount, rfl, rfl⟩

/-- A call for something from a line. -/
inductive Call
  /-- The next byte, within some time. -/
  | byte (timeout : Nat)
  /-- So many bytes, with pauses shorter than `idle`. -/
  | exact (count idle : Nat)
  /-- A byte that has arrived already. -/
  | poll
  /-- Silence for some time. -/
  | purge (period : Nat)
  deriving DecidableEq, Repr

/-- The task of a call that is made at the given time. -/
def Call.task (now : Nat) : Call → Task
  | .byte timeout => .byte (now + timeout)
  | .exact count idle => .exact count idle (now + idle)
  | .poll => .poll
  | .purge period => .quiet period

/-- A call that has been made. -/
structure Made where
  /-- The call. -/
  call : Call
  /-- The time at which it was made. -/
  begun : Nat
  /-- The bytes that stood in the queue. -/
  queue : Bytes
  deriving DecidableEq, Repr

/-- A call that has been answered. -/
structure Answer extends Made where
  /-- The bytes that are returned. -/
  result : Option Bytes
  /-- The time of the answer. -/
  ended : Nat
  /-- The bytes left in the queue. -/
  left : Bytes
  deriving DecidableEq, Repr

/-- The bytes that some readings have brought. -/
def arrivals (readings : List (Bytes × Nat)) : Bytes :=
  readings.flatMap (·.1)

/-- The beginning of the present pause: the time of the last reading that has brought something, or
the given time if there was none. -/
def pauseStart (begun : Nat) (readings : List (Bytes × Nat)) : Nat :=
  readings.foldl (fun since reading => if reading.1 = [] then since else reading.2) begun

section Readings

variable (readings more : List (Bytes × Nat)) (arrived : Bytes) (begun now : Nat)

@[simp]
theorem arrivals_append : arrivals (readings ++ more) = arrivals readings ++ arrivals more :=
  List.flatMap_append

@[simp]
theorem arrivals_singleton : arrivals [(arrived, now)] = arrived :=
  List.flatMap_singleton _ _

@[simp]
theorem pauseStart_concat : pauseStart begun (readings ++ [(arrived, now)]) =
    if arrived = [] then pauseStart begun readings else now := by
  simp only [pauseStart, List.foldl_append, List.foldl_cons, List.foldl_nil]

end Readings

/-- What a call comes to, given the readings meanwhile: what is returned, what is thrown away, what
is left in the queue, and the time of the answer. -/
inductive Answers (made : Made) (readings : List (Bytes × Nat)) :
    Option Bytes → Bytes → Bytes → Nat → Prop
  /-- The next byte is returned in time. -/
  | byte {timeout ended : Nat} {byte : UInt8} {left : Bytes} (hcall : made.call = .byte timeout)
      (hcome : made.queue ++ arrivals readings = byte :: left)
      (hended : ended ≤ made.begun + timeout) :
    Answers made readings (some [byte]) [] left ended
  /-- No byte has come in all the time, and it is over just now. -/
  | noByte {timeout : Nat} (hcall : made.call = .byte timeout)
      (hcome : made.queue ++ arrivals readings = []) :
    Answers made readings none [] [] (made.begun + timeout)
  /-- Just as many bytes are returned as were called for. -/
  | exact {count idle ended : Nat} {bytes left : Bytes} (hcall : made.call = .exact count idle)
      (hcome : made.queue ++ arrivals readings = bytes ++ left) (hcount : bytes.length = count) :
    Answers made readings (some bytes) [] left ended
  /-- Too few bytes have come before a pause that has just been too long. They are thrown away. -/
  | halted {count idle : Nat} (hcall : made.call = .exact count idle)
      (hcount : (made.queue ++ arrivals readings).length < count) :
    Answers made readings none (made.queue ++ arrivals readings) []
      (pauseStart made.begun readings + idle)
  /-- A byte that has come is returned at once. -/
  | poll {byte : UInt8} {left : Bytes} (hcall : made.call = .poll)
      (hcome : made.queue ++ arrivals readings = byte :: left) :
    Answers made readings (some [byte]) [] left made.begun
  /-- No byte has come. -/
  | noPoll (hcall : made.call = .poll) (hcome : made.queue ++ arrivals readings = []) :
    Answers made readings none [] [] made.begun
  /-- All that has come is thrown away. -/
  | purge {period ended : Nat} (hcall : made.call = .purge period) :
    Answers made readings none (made.queue ++ arrivals readings) [] ended

variable {made : Made} {readings : List (Bytes × Nat)} {result : Option Bytes}
  {discarded left : Bytes} {ended : Nat}

/-- Every byte is returned, thrown away or left. -/
theorem Answers.come_eq (h : Answers made readings result discarded left ended) :
    made.queue ++ arrivals readings = result.getD [] ++ discarded ++ left := by
  cases h with
  | byte _ hcome | poll _ hcome | exact _ hcome | noByte _ hcome | noPoll _ hcome =>
    simpa using hcome
  | halted | purge => simp

/-- A call for the next byte is answered in time, and throws nothing away. If it returns nothing,
the time is over just then, and no byte stands in the queue. -/
theorem Answers.of_byte (h : Answers made readings result discarded left ended) {timeout : Nat}
    (hbyte : made.call = .byte timeout) :
    ended ≤ made.begun + timeout ∧ discarded = [] ∧
      (result = none → ended = made.begun + timeout ∧ left = []) := by
  cases h with
  | byte hcall _ hended =>
    cases hbyte.symm.trans hcall
    exact ⟨hended, rfl, nofun⟩
  | noByte hcall =>
    cases hbyte.symm.trans hcall
    exact ⟨Nat.le_refl _, rfl, fun _ => ⟨rfl, rfl⟩⟩
  | exact hcall | halted hcall | poll hcall | noPoll hcall | purge hcall =>
    cases hbyte.symm.trans hcall

/-- A call for a number of bytes returns just as many. If it returns nothing, a pause has just been
too long, and too few bytes have come. All of them are thrown away. -/
theorem Answers.of_exact (h : Answers made readings result discarded left ended) {count idle : Nat}
    (hexact : made.call = .exact count idle) :
    (∀ bytes, result = some bytes → bytes.length = count ∧ discarded = []) ∧
      (result = none → ended = pauseStart made.begun readings + idle ∧
        discarded = made.queue ++ arrivals readings ∧ discarded.length < count ∧ left = []) := by
  cases h with
  | exact hcall _ hcount =>
    cases hexact.symm.trans hcall
    refine ⟨?_, nofun⟩
    rintro _ ⟨⟩
    exact ⟨hcount, rfl⟩
  | halted hcall hcount =>
    cases hexact.symm.trans hcall
    exact ⟨nofun, fun _ => ⟨rfl, rfl, hcount, rfl⟩⟩
  | byte hcall | noByte hcall | poll hcall | noPoll hcall | purge hcall =>
    cases hexact.symm.trans hcall

/-- The task that stands for a call after some readings, at a time at which it has not been
answered, and what has been thrown away so far. -/
inductive Waits (made : Made) (readings : List (Bytes × Nat)) (now : Nat) : Task → Bytes → Prop
  | byte {timeout : Nat} (hcall : made.call = .byte timeout) (hnow : now ≤ made.begun + timeout) :
    Waits made readings now (.byte (made.begun + timeout)) []
  | exact {count idle : Nat} (hcall : made.call = .exact count idle)
      (hnow : now ≤ pauseStart made.begun readings + idle) :
    Waits made readings now (.exact count idle (pauseStart made.begun readings + idle)) []
  | poll (hcall : made.call = .poll) (hnow : now = made.begun) : Waits made readings now .poll []
  | quiet {period : Nat} {dropped : Bytes} (hcall : made.call = .purge period) :
    Waits made readings now (.quiet period) dropped

/-- What is known of a call that has not been answered yet: its task, what has been thrown away, and
that all the rest stands in the queue. -/
structure InHand (made : Made) (readings : List (Bytes × Nat)) (task : Task) (dropped : Bytes)
    (pending : Bytes) (now : Nat) : Prop where
  /-- The task stands for the call. -/
  waits : Waits made readings now task dropped
  /-- No byte is lost. -/
  come_eq : made.queue ++ arrivals readings = dropped ++ pending

section InHand

variable {task task' : Task} {dropped pending arrived : Bytes} {now now' timeout : Nat}
  {r : Settled}

/-- A call that is made just now. -/
theorem inHand_task (call : Call) (now : Nat) (queue : Bytes) :
    InHand ⟨call, now, queue⟩ [] (call.task now) [] queue now := by
  refine ⟨?_, by simp [arrivals]⟩
  cases call with
  | byte timeout => exact .byte rfl (Nat.le_add_right now timeout)
  | exact count idle => exact .exact rfl (Nat.le_add_right now idle)
  | poll => exact .poll rfl rfl
  | purge period => exact .quiet rfl

/-- Only a call for silence throws bytes away before it is answered. -/
theorem Waits.purge_of_dropped (h : Waits made readings now task dropped)
    (hdropped : dropped ≠ []) : ∃ period, made.call = .purge period := by
  cases h with
  | quiet hcall => exact ⟨_, hcall⟩
  | _ => exact absurd rfl hdropped

/-- A call that finds what it was made for in the queue is answered at once. -/
theorem InHand.answers_of_look (h : InHand made readings task dropped pending now)
    (hlook : task.look pending now = .settled r) :
    Answers made readings r.result [] r.pending now := by
  obtain ⟨hwaits, hcome⟩ := h
  obtain ⟨used, hused, hresult, hwanted⟩ := Task.look_settled hlook
  rw [hresult]
  cases hwaits with
  | byte hcall hnow =>
    obtain ⟨b, rfl⟩ := List.length_eq_one_iff.mp (Option.some.inj hwanted).symm
    exact .byte hcall (hcome.trans hused) hnow
  | poll hcall hnow =>
    obtain ⟨b, rfl⟩ := List.length_eq_one_iff.mp (Option.some.inj hwanted).symm
    rw [hnow]
    exact .poll hcall (hcome.trans hused)
  | exact hcall => exact .exact hcall (hcome.trans hused) (Option.some.inj hwanted).symm
  | quiet => cases hwanted

/-- If the line is read for a call, the queue may have been cleared before. -/
theorem InHand.cleared_of_look (h : InHand made readings task dropped pending now)
    (hlook : task.look pending now = .read timeout left) :
    ∃ cleared, pending = cleared ++ left ∧
      InHand made readings task (dropped ++ cleared) left now ∧
      task.look left now = .read timeout left := by
  obtain ⟨cleared, hcleared, hkeeps⟩ := Task.look_read hlook
  by_cases hwanted : task.wanted = none
  -- Who waits for silence throws away whatever stands in the queue.
  · obtain ⟨hwaits, hcome⟩ := h
    cases hwaits with
    | quiet hcall =>
      cases hlook
      refine ⟨pending, (List.append_nil _).symm, ⟨.quiet hcall, ?_⟩, rfl⟩
      rw [hcome, List.append_nil]
    | byte | exact | poll => cases hwanted
  · obtain rfl : left = pending := by rw [hcleared, hkeeps hwanted, List.nil_append]
    refine ⟨[], rfl, ?_, hlook⟩
    rwa [List.append_nil]

/-- A call is answered by a reading only if it has been in vain. -/
theorem InHand.answers_of_hear (h : InHand made readings task dropped left now)
    (hlook : task.look left now = .read timeout left) (hnow' : now ≤ now' ∧ now' ≤ now + timeout)
    (hhear : task.hear left arrived now' = .settled r) :
    ∃ discarded, Answers made (readings ++ [(arrived, now')]) none discarded r.pending now' := by
  obtain ⟨hwaits, hcome⟩ := h
  cases hwaits with
  | @byte patience hcall hnow =>
    have hsingle : (Task.byte (made.begun + patience)).Single := .inr ⟨_, rfl⟩
    obtain ⟨-, rfl⟩ := hsingle.look_read hlook
    cases hlook
    have hlate := Task.deadline_le_of_hear hhear
    obtain ⟨rfl, rfl⟩ := hsingle.hear_settled hhear
    -- The reading has ended just in time.
    obtain rfl : now' = made.begun + patience := by omega
    exact ⟨[], .noByte hcall (by simpa using hcome)⟩
  | @exact count idle hcall hnow =>
    obtain ⟨hcount, rfl, -⟩ := Task.look_exact_read hlook
    obtain ⟨rfl, hlate, rfl⟩ := Task.eq_nil_of_hear_exact hhear
    have hended : pauseStart made.begun readings + idle = now' := by omega
    have hanswers : Answers made (readings ++ [([], now')]) none _ [] _ :=
      .halted hcall (by simpa [hcome] using hcount)
    rw [pauseStart_concat, if_pos rfl, hended] at hanswers
    exact ⟨_, hanswers⟩
  | poll hcall hnow =>
    have hsingle : Task.poll.Single := .inl rfl
    obtain ⟨-, rfl⟩ := hsingle.look_read hlook
    cases hlook
    obtain ⟨rfl, rfl⟩ := hsingle.hear_settled hhear
    obtain rfl : now' = made.begun := by omega
    exact ⟨[], .noPoll hcall (by simpa using hcome)⟩
  | quiet hcall =>
    cases hlook
    obtain ⟨rfl, rfl⟩ := Task.eq_nil_of_hear_quiet hhear
    exact ⟨_, .purge hcall⟩

/-- After another reading a call is still in hand, or the pause begins again. -/
theorem InHand.of_hear (h : InHand made readings task dropped left now)
    (hlook : task.look left now = .read timeout left) (hnow' : now ≤ now' ∧ now' ≤ now + timeout)
    (hhear : task.hear left arrived now' = .waiting task' pending) :
    InHand made (readings ++ [(arrived, now')]) task' dropped pending now' := by
  obtain ⟨hwaits, hcome⟩ := h
  obtain ⟨rfl, -⟩ := Task.hear_waiting hhear
  refine ⟨?_, by simp [← List.append_assoc, hcome]⟩
  cases hwaits with
  | @byte patience hcall hnow =>
    have hsingle : (Task.byte (made.begun + patience)).Single := .inr ⟨_, rfl⟩
    obtain ⟨-, rfl⟩ := hsingle.look_read hlook
    cases hlook
    obtain ⟨rfl, -⟩ := hsingle.hear_waiting hhear
    exact .byte hcall (by omega)
  | @exact count idle hcall hnow =>
    obtain ⟨-, rfl, -⟩ := Task.look_exact_read hlook
    have hpause := pauseStart_concat readings arrived made.begun now'
    simp only [Task.hear] at hhear
    split at hhear
    · rename_i hempty
      split at hhear
      · cases hhear
      -- A reading that comes back early does not end the pause.
      · obtain ⟨rfl, -⟩ := Heard.waiting.inj hhear
        rw [if_pos (List.isEmpty_iff.mp hempty)] at hpause
        rw [← hpause]
        exact .exact hcall (by omega)
    -- With what has come another pause begins.
    · rename_i hsome
      cases hhear
      rw [if_neg (by simpa using hsome)] at hpause
      have hwaits : Waits made (readings ++ [(arrived, now')]) now' (.exact count idle _) [] :=
        .exact hcall (by omega)
      rwa [hpause] at hwaits
  | poll hcall hnow =>
    have hsingle : Task.poll.Single := .inl rfl
    obtain ⟨-, rfl⟩ := hsingle.look_read hlook
    cases hlook
    obtain ⟨rfl, -⟩ := hsingle.hear_waiting hhear
    exact .poll hcall (by omega)
  | quiet hcall =>
    simp only [Task.hear] at hhear
    split at hhear
    · cases hhear
    · cases hhear
      exact .quiet hcall

end InHand

end Line

/-! ## Callers -/

namespace Caller

/-- What a caller keeps: the calls that have not been answered, in order, and the answers. -/
structure Job where
  /-- The calls that have not been answered. -/
  calls : List Line.Call
  /-- The answers so far. -/
  answers : List Line.Answer := []

/-- The steps of a caller. -/
inductive Step
  /-- The next call is made. -/
  | next
  /-- The answer to a call is awaited. -/
  | await (made : Line.Made) (task : Line.Task)

end Caller

/-- A party that makes one call after the other. -/
abbrev Caller := Party Caller.Job Caller.Step

namespace Caller

open Line Party

/-- Takes the answer to a call. -/
def answered (made : Made) (result : Option Bytes) (s : Caller) : Caller :=
  let answer : Answer := { made with result, ended := s.moment.now, left := s.pending }
  let job : Job := { calls := s.job.calls.tail, answers := s.job.answers ++ [answer] }
  { s with job }.goto .next

/-- The act of a caller at a step. -/
def step (s : Caller) : Step → Action Caller
  | .next =>
    match s.job.calls with
    | [] => .silent s.complete
    | call :: _ =>
      .silent (s.goto (.await ⟨call, s.moment.now, s.pending⟩ (call.task s.moment.now)))
  | .await made task => s.listen task (.await made) (answered made)

/-- The next act of a caller. -/
def act (s : Caller) : Action Caller :=
  Party.act (step s) s

/-- A caller knows the time. -/
theorem attentive_act (s : Caller) : (act s).Attentive s.moment := by
  refine Party.attentive_act fun step _ => ?_
  cases step with
  | next =>
    rw [Caller.step]
    split <;> rfl
  | await made task => exact attentive_listen fun _ _ => rfl

/-- A call with its answer, the readings meanwhile, and what was thrown away. -/
structure Serving where
  /-- The answer. -/
  answer : Answer
  /-- What was read. -/
  readings : List (Bytes × Nat)
  /-- What was thrown away. -/
  discarded : Bytes

namespace Serving

/-- The bytes that are gone with an answer: those that are returned, and those that are thrown
away. -/
def taken (x : Serving) : Bytes :=
  x.answer.result.getD [] ++ x.discarded

/-- The answer is what the call comes to. -/
def Fits (x : Serving) : Prop :=
  Answers x.answer.toMade x.readings x.answer.result x.discarded x.answer.left x.answer.ended

end Serving

/-- Where all bytes have gone that a caller has read, given the state in which it has begun. -/
structure Accounts (start : Caller) (readings : List (Bytes × Nat)) (s : Caller)
    (served : List Serving) (since : List (Bytes × Nat)) (dropped : Bytes) : Prop where
  /-- The calls have been answered in order. -/
  calls : start.job.calls = served.map (·.answer.call) ++ s.job.calls
  /-- The answers are those that the caller has got. -/
  answers : s.job.answers = start.job.answers ++ served.map (·.answer)
  /-- Whatever has been read was read for one of the calls, or for the one in hand. -/
  readings_eq : readings = served.flatMap (·.readings) ++ since
  /-- Every byte that stood in the queue or has come was returned or thrown away in its turn, or
  stands in the queue. -/
  bytes_eq : start.pending ++ arrivals readings =
    served.flatMap Serving.taken ++ dropped ++ s.pending
  /-- Nothing has been thrown away for the call in hand, unless it is for silence. -/
  purges : dropped ≠ [] → ∃ period, s.job.calls.head? = some (.purge period)
  /-- Every call was answered as it should be. -/
  fits : ∀ x ∈ served, x.Fits

/-- What a caller is about to do. -/
inductive Stands (s : Caller) (since : List (Bytes × Nat)) (dropped : Bytes) : Prop
  /-- It makes the next call. -/
  | next (hphase : s.phase = .doing .next) (hsince : since = []) (hdropped : dropped = [])
  /-- It waits for an answer. -/
  | await {made : Made} {task : Task} (hphase : s.phase = .doing (.await made task))
      (hcall : s.job.calls.head? = some made.call)
      (hhand : InHand made since task dropped s.pending s.moment.now)
  /-- It has come to its end. -/
  | parted (h : s.Parted)

variable {start s : Caller} {readings since : List (Bytes × Nat)} {served : List Serving}
  {dropped left discarded : Bytes} {made : Made} {result : Option Bytes}

/-- With an answer the accounts of a call are closed. -/
theorem Accounts.answered (h : Accounts start readings s served since dropped)
    (hcall : s.job.calls.head? = some made.call)
    (hhand : made.queue ++ arrivals since = dropped ++ s.pending) (more : List (Bytes × Nat))
    (moment : Moment)
    (hanswers : Answers made (since ++ more) result discarded left moment.now) :
    ∃ served, Accounts start (readings ++ more)
      (answered made result { s with pending := left, moment }) served [] [] := by
  let answer : Answer := { made with result, ended := moment.now, left }
  let x : Serving := ⟨answer, since ++ more, discarded⟩
  obtain ⟨calls, hcalls⟩ := List.head?_eq_some_iff.mp hcall
  refine ⟨served ++ [x], ?_, ?_, ?_, ?_, fun hnil => absurd rfl hnil, ?_⟩
  · rw [h.calls, hcalls, List.map_append, List.append_assoc]
    simp only [Caller.answered, goto, hcalls, List.tail_cons]
    rfl
  · simp only [Caller.answered, goto, h.answers, List.map_append, List.append_assoc]
    rfl
  · rw [h.readings_eq, List.flatMap_append, List.flatMap_singleton, List.append_nil,
      List.append_assoc]
  · calc start.pending ++ arrivals (readings ++ more)
        = (start.pending ++ arrivals readings) ++ arrivals more := by
          rw [arrivals_append, List.append_assoc]
      _ = served.flatMap Serving.taken ++ (dropped ++ s.pending ++ arrivals more) := by
          simp only [h.bytes_eq, List.append_assoc]
      _ = served.flatMap Serving.taken ++ (made.queue ++ arrivals (since ++ more)) := by
          rw [← hhand, arrivals_append, List.append_assoc]
      _ = served.flatMap Serving.taken ++ (x.taken ++ left) := by
          rw [hanswers.come_eq]
          rfl
      _ = (served ++ [x]).flatMap Serving.taken ++ [] ++ left := by
          rw [List.flatMap_append, List.flatMap_singleton, List.append_nil, List.append_assoc]
  · exact List.forall_mem_append.mpr ⟨h.fits, List.forall_mem_singleton.mpr hanswers⟩

/-- Before the line is read the queue may be cleared, for a call in hand that is for silence. -/
theorem Accounts.clear {task : Task} {timeout : Nat}
    (h : Accounts start readings s served since dropped)
    (hcall : s.job.calls.head? = some made.call)
    (hhand : InHand made since task dropped s.pending s.moment.now)
    (hlook : task.look s.pending s.moment.now = .read timeout left) :
    ∃ dropped, Accounts start readings { s with pending := left } served since dropped ∧
      InHand made since task dropped left s.moment.now ∧
      task.look left s.moment.now = .read timeout left := by
  obtain ⟨cleared, hpending, hhand, hlook⟩ := hhand.cleared_of_look hlook
  refine ⟨dropped ++ cleared, ?_, hhand, hlook⟩
  refine ⟨h.calls, h.answers, h.readings_eq, ?_, ?_, h.fits⟩
  · rw [h.bytes_eq, hpending]
    simp only [List.append_assoc]
  · intro hdropped
    obtain ⟨period, hperiod⟩ := hhand.waits.purge_of_dropped hdropped
    exact ⟨period, hperiod ▸ hcall⟩

/-- What is read joins the queue. -/
theorem Accounts.read (h : Accounts start readings s served since dropped) (arrived : Bytes)
    (now : Nat) :
    Accounts start (readings ++ [(arrived, now)]) { s with pending := s.pending ++ arrived } served
      (since ++ [(arrived, now)]) dropped where
  calls := h.calls
  answers := h.answers
  readings_eq := by rw [h.readings_eq, List.append_assoc]
  bytes_eq := by
    rw [arrivals_append, ← List.append_assoc, h.bytes_eq, arrivals_singleton]
    simp only [List.append_assoc]
  purges := h.purges
  fits := h.fits

/-- Accounts do not depend on what a caller is about to do. -/
theorem Accounts.congr {s' : Caller} (h : Accounts start readings s served since dropped)
    (hjob : s'.job = s.job) (hpending : s'.pending = s.pending) :
    Accounts start readings s' served since dropped where
  calls := by rw [hjob, h.calls]
  answers := by rw [hjob, h.answers]
  readings_eq := h.readings_eq
  bytes_eq := by rw [hpending, h.bytes_eq]
  purges := by rw [hjob]; exact h.purges
  fits := h.fits

/-- When all calls have been answered and the queue is empty, every byte is gone with an answer. -/
theorem Accounts.taken_eq (h : Accounts start readings s served since dropped)
    (hcalls : s.job.calls = []) (hpending : s.pending = []) :
    served.flatMap Serving.taken = start.pending ++ arrivals readings := by
  have hdropped : dropped = [] := by
    by_contra hne
    obtain ⟨period, hperiod⟩ := h.purges hne
    rw [hcalls] at hperiod
    cases hperiod
  rw [h.bytes_eq, hdropped, hpending, List.append_nil, List.append_nil]

/-- What is known of a caller that has taken some acts: its accounts, and what it is about to do. -/
def Kept (start : Caller) (past : List (Act Caller)) (s : Caller) : Prop :=
  ∃ served since dropped,
    Accounts start (Party.readings (timeline past s.moment.now)) s served since dropped ∧
      Stands s since dropped

/-- A caller that waits for an answer keeps its accounts when it listens. -/
theorem kept_listen {past : List (Act Caller)} {task : Task}
    (haccounts : Accounts start (Party.readings (timeline past s.moment.now)) s served since
      dropped)
    (hcall : s.job.calls.head? = some made.call)
    (hhand : InHand made since task dropped s.pending s.moment.now) :
    (s.listen task (.await made) (Caller.answered made)).Ensures fun event next =>
      s.InTime event next → Kept start (past ++ [⟨s, event⟩]) next := by
  refine ensures_listen_of_channel ?_ ?_ ?_ ?_
  -- The answer stands in the queue.
  · intro r hlook _
    have hanswers := hhand.answers_of_look hlook
    rw [← List.append_nil since] at hanswers
    obtain ⟨served, hnext⟩ := haccounts.answered hcall hhand.come_eq [] s.moment hanswers
    refine ⟨served, [], [], ?_, .next rfl rfl rfl⟩
    rw [readings_concat]
    exact hnext
  -- The line cannot be read.
  · intro timeout left e moment hlook _
    obtain ⟨dropped, hcleared, -⟩ := haccounts.clear hcall hhand hlook
    refine ⟨served, since, dropped, ?_, .parted (parted_fail _ _)⟩
    rw [readings_concat_of_eq_nil rfl]
    exact hcleared.congr rfl rfl
  -- A reading has been in vain.
  · intro timeout left arrived moment r hlook hhear htime
    obtain ⟨dropped, hcleared, hhand, hlook⟩ := haccounts.clear hcall hhand hlook
    obtain ⟨discarded, hanswers⟩ := hhand.answers_of_hear hlook (htime timeout _ rfl) hhear
    obtain ⟨served, hnext⟩ :=
      hcleared.answered hcall hhand.come_eq [(arrived, moment.now)] moment hanswers
    refine ⟨served, [], [], ?_, .next rfl rfl rfl⟩
    rw [readings_concat]
    exact hnext
  -- The wait goes on.
  · intro timeout left arrived moment task' left' hlook hhear htime
    obtain ⟨dropped, hcleared, hhand, hlook⟩ := haccounts.clear hcall hhand hlook
    have hhand' := hhand.of_hear hlook (htime timeout _ rfl) hhear
    refine ⟨served, _, dropped, ?_, .await rfl hcall hhand'⟩
    rw [readings_concat]
    exact (hcleared.read arrived moment.now).congr rfl (Task.hear_waiting hhear).1

/-- What is known of a caller stays known. -/
theorem Kept.step {past : List (Act Caller)} (h : Kept start past s) :
    (act s).Ensures fun event next =>
      s.InTime event next → Kept start (past ++ [⟨s, event⟩]) next := by
  obtain ⟨served, since, dropped, haccounts, hstands⟩ := h
  refine ensures_act (fun step hphase => ?_) (fun ending reply moment hphase => ?_)
  · cases hstands with
    | parted hparted => exact absurd hphase (hparted.phase_ne step)
    | next hnext hsince hdropped =>
      obtain rfl := Phase.doing.inj (hphase.symm.trans hnext)
      subst hsince hdropped
      rw [Caller.step]
      split
      · intro _
        refine ⟨served, [], [], ?_, .parted (parted_complete s)⟩
        rw [readings_concat_of_eq_nil rfl]
        exact haccounts.congr rfl rfl
      · rename_i call calls hcalls
        intro _
        refine ⟨served, [], [], ?_, .await rfl ?_ (inHand_task call _ _)⟩
        · rw [readings_concat_of_eq_nil rfl]
          exact haccounts.congr rfl rfl
        · rw [goto, hcalls]
          rfl
    | await hawait hcall hhand =>
      obtain rfl := Phase.doing.inj (hphase.symm.trans hawait)
      exact kept_listen haccounts hcall hhand
  · intro _
    refine ⟨served, since, dropped, ?_, .parted ⟨_, .inr rfl⟩⟩
    rw [readings_concat_of_eq_nil rfl]
    exact haccounts.congr rfl rfl

/-- A caller gets just what comes over the line. The bytes that are returned, those that are thrown
away, and those that stand in the queue are in this order the bytes that stood in the queue at the
beginning and those that have come. Only a call for silence throws bytes away, and a call for a
number of bytes after too long a pause. A call for the next byte is answered in time, and without a
byte only at the end of this time. -/
theorem accounts_run {ω : Type} {env : Surroundings ω} {w : ω} (htimely : env.Timely)
    (hphase : s.phase = .doing .next) (hmoment : s.moment = env.moment w) (acts : Nat) :
    let run := Action.run env act acts s w
    let trace := Action.trace env act acts s w
    ∃ served since dropped,
      Accounts s (Party.readings (timeline trace run.state.moment.now)) run.state served since
        dropped ∧
      ∀ x ∈ served,
        (∀ timeout, x.answer.call = .byte timeout →
          x.answer.ended ≤ x.answer.begun + timeout ∧ x.discarded = [] ∧
            (x.answer.result = none →
              x.answer.ended = x.answer.begun + timeout ∧ x.answer.left = [])) ∧
        (∀ count idle, x.answer.call = .exact count idle →
          (∀ bytes, x.answer.result = some bytes → bytes.length = count ∧ x.discarded = []) ∧
            (x.answer.result = none →
              x.answer.ended = pauseStart x.answer.begun x.readings + idle ∧
                x.discarded = x.answer.queue ++ arrivals x.readings ∧ x.discarded.length < count ∧
                x.answer.left = [])) := by
  have hstart : Kept s [] s := by
    refine ⟨[], [], [], ?_, .next hphase rfl rfl⟩
    refine ⟨rfl, (List.append_nil _).symm, rfl, List.append_nil _, ?_, List.forall_mem_nil _⟩
    exact fun hnil => absurd rfl hnil
  have hrun := invariant_run_of_timely htimely attentive_act (fun past s => Kept.step) acts hmoment
    hstart
  obtain ⟨served, since, dropped, haccounts, -⟩ := hrun
  refine ⟨served, since, dropped, haccounts, fun x hx => ⟨?_, ?_⟩⟩
  · exact fun timeout hcall => (haccounts.fits x hx).of_byte hcall
  · exact fun count idle hcall => (haccounts.fits x hx).of_exact hcall

/-- Of seven bytes that come in four pieces, and once with nothing, the first four are returned. The
fifth and the sixth one are thrown away when nothing follows them for too long, and the last one is
thrown away on the way to silence. -/
theorem accounts_run_five_calls :
    let env := Script.World.surroundings { sink := MemorySink.sink }
    let w := Script.World.new { sink := MemorySink.sink }
      { initial := [⟨3, .ok [1, 2]⟩, ⟨2, .ok []⟩, ⟨4, .ok [3, 4, 5]⟩, ⟨9, .ok [6]⟩, ⟨20, .ok [7]⟩] }
      [] {}
    let calls : List Call := [.byte 10, .exact 3 10, .exact 3 10, .byte 4, .purge 30]
    let s : Caller := Party.new .receiver { protocol := .xmodem, variant := .checksum } ⟨0, false⟩
      { calls } .next
    let run := Action.run env act 40 s w
    env.Timely ∧ s.phase = .doing .next ∧ s.moment = env.moment w ∧
    run.state.job.answers.map (fun a => (a.result, a.ended)) =
      [(some [1], 3), (some [2, 3, 4], 9), (none, 28), (none, 32), (none, 68)] ∧
    ∃ served : List Serving, run.state.job.answers = served.map (·.answer) ∧
      served.flatMap Serving.taken = [1, 2, 3, 4, 5, 6, 7] := by
  intro env w calls s
  dsimp only
  have htimely : env.Timely := Script.World.timely _
  obtain ⟨served, since, dropped, haccounts, -⟩ :=
    accounts_run (s := s) (w := w) htimely rfl rfl 40
  have hcalls : (Action.run env act 40 s w).state.job.calls = [] := by decide +kernel
  have htaken := haccounts.taken_eq hcalls (by decide +kernel)
  have hcome : s.pending ++ arrivals (Party.readings (timeline (Action.trace env act 40 s w)
      (Action.run env act 40 s w).state.moment.now)) = [1, 2, 3, 4, 5, 6, 7] := by
    decide +kernel
  exact ⟨htimely, rfl, rfl, by decide +kernel, served, haccounts.answers, htaken.trans hcome⟩

end Caller

end BlockTransfer
