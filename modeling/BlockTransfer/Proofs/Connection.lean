import BlockTransfer.Pipe
import BlockTransfer.Proofs.Seat
import BlockTransfer.Receiver
import BlockTransfer.Sender

/-!
# Two parties and the line between them

A sender and a receiver that are joined by two queues of messages. In each step one of the parties
makes a move of its own or takes in what is on its way to it, or the line does something: which
readings it allows, and whether it loses messages and lets readings fail, is told by its `Medium`.

Moves of the two parties commute with all that the other party and the line do. So an invariant
has to hold only where both parties read: `Connection.Converges` says that this is where all moves
lead, and it is preserved by every step.

## Main definitions

* `Connection.Step`: one step of the connection.
* `Connection.Inevitable`: whatever happens, the connection gets to some state.
* `Connection.Converges`: the moves of the parties lead to some states.

## Main results

* `Connection.Converges.step`: what all moves lead to is preserved by each step.
* `Connection.Inevitable.of_measure`: a measure that decreases with each step between two
  readings makes the end inevitable.
-/

namespace BlockTransfer

/-- A sender and a receiver, and the messages on their way. -/
structure Connection where
  /-- The sender with its files. -/
  sender : Seat Sender
  /-- The receiver with its sink. -/
  receiver : Seat Receiver
  /-- The messages on their way to the sender, in order. -/
  toSender : List Bytes
  /-- The messages on their way to the receiver, in order. -/
  toReceiver : List Bytes

/-- What a line does with messages on their way. -/
structure Medium where
  /-- A reading takes bytes from the front of a queue and leaves the rest. -/
  delivers : List Bytes → Bytes → List Bytes → Prop
  /-- A reading that is not in vain brings something. -/
  arrived_ne_nil : ∀ {queue arrived rest}, delivers queue arrived rest → arrived ≠ []
  /-- A reading does not depend on what has been queued later. -/
  delivers_append : ∀ {queue arrived rest} (more : List Bytes), delivers queue arrived rest →
    delivers (queue ++ more) arrived (rest ++ more)
  /-- Whether messages are lost and readings end in vain. -/
  lossy : Prop

namespace Medium

/-- A line that loses nothing. A reading brings any number of the bytes on their way, wherever one
message ends and the next one begins. -/
def lossless : Medium where
  delivers queue arrived rest := arrived ≠ [] ∧ arrived ++ rest.flatten = queue.flatten
  arrived_ne_nil h := h.1
  delivers_append more h := ⟨h.1, by
    rw [List.flatten_append, List.flatten_append, ← List.append_assoc, h.2]⟩
  lossy := False

/-- A line that may lose each message. A reading brings whole messages. -/
def losing : Medium where
  delivers queue arrived rest := arrived ≠ [] ∧
    ∃ messages, queue = messages ++ rest ∧ arrived = messages.flatten
  arrived_ne_nil h := h.1
  delivers_append more h := by
    obtain ⟨hne, messages, rfl, rfl⟩ := h
    exact ⟨hne, messages, List.append_assoc _ _ _, rfl⟩
  lossy := True

/-- All that is on its way may arrive at once. -/
theorem lossless_delivers_all {queue : List Bytes} (hne : queue.flatten ≠ []) :
    lossless.delivers queue queue.flatten [] :=
  ⟨hne, List.append_nil _⟩

/-- Of a line that may lose messages, too, all that is on its way may arrive at once. -/
theorem losing_delivers_all {queue : List Bytes} (hne : queue.flatten ≠ []) :
    losing.delivers queue queue.flatten [] :=
  ⟨hne, queue, (List.append_nil _).symm, rfl⟩

/-- A memory pipe delivers as a line that loses nothing: a reading brings all that is on its
way. -/
theorem delivers_of_read? {pipe pipe' : Pipe} {side : Pipe.Side} {bytes : Bytes}
    (h : pipe.read? side = some (.ok (some bytes), pipe')) (hne : bytes ≠ []) :
    lossless.delivers (pipe.get side).inbox bytes (pipe'.get side).inbox := by
  unfold Pipe.read? at h
  split at h
  · split at h
    · split at h <;> simp at h
    · simp only [Option.some.injEq, Prod.mk.injEq, Except.ok.injEq] at h
      obtain ⟨rfl, rfl⟩ := h
      refine ⟨hne, ?_⟩
      cases side <;> simp [Pipe.setInbox, Pipe.set, Pipe.get]
  · cases h

end Medium

namespace Connection

variable {m : Medium} {c c' : Connection}

/-- A party waits for the line or is through. -/
def Idle {σ : Type} (act : σ → Action σ) (s : Seat σ) : Prop :=
  (∃ timeout next, act s.party = .read timeout next) ∨ ∃ ending, act s.party = .stop ending

/-- A move of the sender. -/
def senderMoved (c : Connection) (said : List Bytes) (s : Seat Sender) : Connection :=
  { c with sender := s, toReceiver := c.toReceiver ++ said }

/-- A move of the receiver. -/
def receiverMoved (c : Connection) (said : List Bytes) (s : Seat Receiver) : Connection :=
  { c with receiver := s, toSender := c.toSender ++ said }

/-- One step of a connection. -/
inductive Step (m : Medium) (c : Connection) : Connection → Prop
  /-- The sender makes a move of its own. -/
  | senderMoves {said : List Bytes} {s : Seat Sender}
      (h : Seat.Moves Sender.act c.sender said s) : Step m c (c.senderMoved said s)
  /-- The receiver makes a move of its own. -/
  | receiverMoves {said : List Bytes} {s : Seat Receiver}
      (h : Seat.Moves Receiver.act c.receiver said s) : Step m c (c.receiverMoved said s)
  /-- Something arrives at the sender. -/
  | senderHears {timeout : Nat} {next : Except IoError Bytes → Moment → Sender} {arrived : Bytes}
      {rest : List Bytes} {moment : Moment}
      (h : Sender.act c.sender.party = .read timeout next)
      (hdelivers : m.delivers c.toSender arrived rest) (hcalm : moment.abort = false) :
      Step m c { c with
        sender := ⟨next (.ok arrived) moment, c.sender.desk⟩, toSender := rest }
  /-- Something arrives at the receiver. -/
  | receiverHears {timeout : Nat} {next : Except IoError Bytes → Moment → Receiver}
      {arrived : Bytes} {rest : List Bytes} {moment : Moment}
      (h : Receiver.act c.receiver.party = .read timeout next)
      (hdelivers : m.delivers c.toReceiver arrived rest) (hcalm : moment.abort = false) :
      Step m c { c with
        receiver := ⟨next (.ok arrived) moment, c.receiver.desk⟩, toReceiver := rest }
  /-- The sender looks for a signal in the middle of a stream, without waiting, and nothing has
  arrived. -/
  | senderPolls {piece : Bytes} {timeout : Nat} {next : Except IoError Bytes → Moment → Sender}
      {moment : Moment} (hphase : c.sender.party.phase = .doing (.drain piece))
      (h : Sender.act c.sender.party = .read timeout next) (hcalm : moment.abort = false) :
      Step m c { c with sender := ⟨next (.ok []) moment, c.sender.desk⟩ }
  /-- The sender waits in vain: nothing is on its way, and the receiver waits as well. -/
  | senderLapses {timeout : Nat} {next : Except IoError Bytes → Moment → Sender} {moment : Moment}
      (hlossy : m.lossy) (h : Sender.act c.sender.party = .read timeout next)
      (hother : Idle Receiver.act c.receiver) (htoSender : c.toSender = [])
      (htoReceiver : c.toReceiver = []) (hcalm : moment.abort = false) :
      Step m c { c with sender := ⟨next (.ok []) moment, c.sender.desk⟩ }
  /-- The receiver waits in vain: nothing is on its way, and the sender waits as well. -/
  | receiverLapses {timeout : Nat} {next : Except IoError Bytes → Moment → Receiver}
      {moment : Moment} (hlossy : m.lossy)
      (h : Receiver.act c.receiver.party = .read timeout next)
      (hother : Idle Sender.act c.sender) (htoSender : c.toSender = [])
      (htoReceiver : c.toReceiver = []) (hcalm : moment.abort = false) :
      Step m c { c with receiver := ⟨next (.ok []) moment, c.receiver.desk⟩ }
  /-- A message to the sender is lost. -/
  | toSenderLoses {before after : List Bytes} {message : Bytes} (hlossy : m.lossy)
      (h : c.toSender = before ++ message :: after) :
      Step m c { c with toSender := before ++ after }
  /-- A message to the receiver is lost. -/
  | toReceiverLoses {before after : List Bytes} {message : Bytes} (hlossy : m.lossy)
      (h : c.toReceiver = before ++ message :: after) :
      Step m c { c with toReceiver := before ++ after }

/-- The states that a connection can get to. -/
inductive Reachable (m : Medium) (start : Connection) : Connection → Prop
  /-- It starts there. -/
  | start : Reachable m start start
  /-- It gets there by a step. -/
  | step {c c' : Connection} (h : Reachable m start c) (hstep : Step m c c') :
      Reachable m start c'

/-- Whatever happens, the connection gets to a state with `goal`: there is always a step to be
made before, and no way to make steps for ever. -/
inductive Inevitable (m : Medium) (goal : Connection → Prop) : Connection → Prop
  /-- It is there. -/
  | now {c : Connection} (h : goal c) : Inevitable m goal c
  /-- Every step leads there. -/
  | later {c : Connection} (can : ∃ c', Step m c c')
      (next : ∀ c', Step m c c' → Inevitable m goal c') : Inevitable m goal c

/-- The moves of the two parties lead to states with `rest`. -/
inductive Converges (rest : Connection → Prop) : Connection → Prop
  /-- It is there. -/
  | here {c : Connection} (h : rest c) : Converges rest c
  /-- All moves of the sender lead there. -/
  | sender {c : Connection} (can : ∃ said s, Seat.Moves Sender.act c.sender said s)
      (next : ∀ said s, Seat.Moves Sender.act c.sender said s →
        Converges rest (c.senderMoved said s)) : Converges rest c
  /-- All moves of the receiver lead there. -/
  | receiver {c : Connection} (can : ∃ said s, Seat.Moves Receiver.act c.receiver said s)
      (next : ∀ said s, Seat.Moves Receiver.act c.receiver said s →
        Converges rest (c.receiverMoved said s)) : Converges rest c

theorem Reachable.of_step {c₁ c₂ : Connection} (h : Reachable m c₂ c) (hstep : Step m c₁ c₂) :
    Reachable m c₁ c := by
  induction h with
  | start => exact .step .start hstep
  | step _ hlast ih => exact .step ih hlast

theorem Reachable.trans {c₁ c₂ : Connection} (h : Reachable m c₁ c₂) (hlater : Reachable m c₂ c) :
    Reachable m c₁ c := by
  induction hlater with
  | start => exact h
  | step _ hstep ih => exact .step ih hstep

/-- What the sender settles to is reached. -/
theorem Reachable.exists_of_sender {start : Connection} {post : List Bytes → Seat Sender → Prop}
    (h : Reachable m start c) (hs : Seat.Settles Sender.act post c.sender) :
    ∃ said s, Reachable m start (c.senderMoved said s) ∧ post said s := by
  generalize hsender : c.sender = sender at hs
  induction hs generalizing c with
  | here hpost =>
    refine ⟨[], _, ?_, hpost⟩
    rw [senderMoved, List.append_nil, ← hsender]
    exact h
  | move can _ ih =>
    obtain ⟨news, s, hmove⟩ := can
    rw [← hsender] at hmove
    obtain ⟨more, s', hreachable, hpost⟩ := ih news s (by rwa [← hsender])
      (h.step (.senderMoves hmove)) rfl
    refine ⟨news ++ more, s', ?_, hpost⟩
    rwa [senderMoved, senderMoved, List.append_assoc] at hreachable

/-- What the receiver settles to is reached. -/
theorem Reachable.exists_of_receiver {start : Connection}
    {post : List Bytes → Seat Receiver → Prop} (h : Reachable m start c)
    (hs : Seat.Settles Receiver.act post c.receiver) :
    ∃ said s, Reachable m start (c.receiverMoved said s) ∧ post said s := by
  generalize hreceiver : c.receiver = receiver at hs
  induction hs generalizing c with
  | here hpost =>
    refine ⟨[], _, ?_, hpost⟩
    rw [receiverMoved, List.append_nil, ← hreceiver]
    exact h
  | move can _ ih =>
    obtain ⟨news, s, hmove⟩ := can
    rw [← hreceiver] at hmove
    obtain ⟨more, s', hreachable, hpost⟩ := ih news s (by rwa [← hreceiver])
      (h.step (.receiverMoves hmove)) rfl
    refine ⟨news ++ more, s', ?_, hpost⟩
    rwa [receiverMoved, receiverMoved, List.append_assoc] at hreachable

/-! ## Moves commute with other steps -/

/-- A party that can move is not idle. -/
theorem not_idle_of_moves {σ : Type} {act : σ → Action σ} {s s' : Seat σ} {said : List Bytes}
    (h : Seat.Moves act s said s') : ¬Idle act s := by
  -- An idle party reads or stops, and a move is neither.
  rintro (⟨timeout, next, hread⟩ | ⟨ending, hstop⟩)
  · cases h <;> simp_all
  · cases h <;> simp_all

theorem not_moves_of_read {σ : Type} {act : σ → Action σ} {s s' : Seat σ} {said : List Bytes}
    {timeout : Nat} {next : Except IoError Bytes → Moment → σ}
    (hread : act s.party = .read timeout next) : ¬Seat.Moves act s said s' :=
  fun h => not_idle_of_moves h (.inl ⟨timeout, next, hread⟩)

/-- A receiver that has stopped stays as it is. -/
theorem Step.receiver_eq_of_stop {ending : Ending} (hstep : Step m c c')
    (hstop : Receiver.act c.receiver.party = .stop ending) : c'.receiver = c.receiver := by
  cases hstep with
  | receiverMoves hmove => exact absurd (.inr ⟨_, hstop⟩) (not_idle_of_moves hmove)
  | receiverHears hread => cases hstop.symm.trans hread
  | receiverLapses _ hread => cases hstop.symm.trans hread
  | _ => rfl

theorem Reachable.receiver_eq_of_stop {ending : Ending} (h : Reachable m c c')
    (hstop : Receiver.act c.receiver.party = .stop ending) : c'.receiver = c.receiver := by
  induction h with
  | start => rfl
  | step _ hstep ih =>
    rw [hstep.receiver_eq_of_stop (by rw [ih, hstop]), ih]

/-- A step is a move of the sender, or it can be made after any move of the sender as well, with
the same effect. -/
theorem Step.commute_sender (hstep : Step m c c') :
    (∃ said s, Seat.Moves Sender.act c.sender said s ∧ c' = c.senderMoved said s) ∨
      ∀ said s, Seat.Moves Sender.act c.sender said s →
        c'.sender = c.sender ∧ Step m (c.senderMoved said s) (c'.senderMoved said s) := by
  cases hstep with
  | senderMoves h => exact .inl ⟨_, _, h, rfl⟩
  | receiverMoves h => exact .inr fun said s hmove => ⟨rfl, .receiverMoves h⟩
  -- A sender that can move does not read.
  | senderHears h => exact .inr fun said s hmove => absurd hmove (not_moves_of_read h)
  | receiverHears h hdelivers hcalm =>
    exact .inr fun said s hmove =>
      ⟨rfl, .receiverHears h (m.delivers_append said hdelivers) hcalm⟩
  | senderPolls hphase h => exact .inr fun said s hmove => absurd hmove (not_moves_of_read h)
  | senderLapses hlossy h => exact .inr fun said s hmove => absurd hmove (not_moves_of_read h)
  | receiverLapses hlossy h hother =>
    exact .inr fun said s hmove => absurd hother (not_idle_of_moves hmove)
  | toSenderLoses hlossy h => exact .inr fun said s hmove => ⟨rfl, .toSenderLoses hlossy h⟩
  | @toReceiverLoses before after message hlossy h =>
    refine .inr fun said s hmove => ⟨rfl, ?_⟩
    -- What the sender says comes after what is lost.
    have hqueue : (c.senderMoved said s).toReceiver = before ++ message :: (after ++ said) := by
      rw [senderMoved, h, List.append_assoc, List.cons_append]
    have hlost := Step.toReceiverLoses hlossy hqueue
    rw [← List.append_assoc] at hlost
    exact hlost

/-- A step is a move of the receiver, or it can be made after any move of the receiver as well,
with the same effect. -/
theorem Step.commute_receiver (hstep : Step m c c') :
    (∃ said s, Seat.Moves Receiver.act c.receiver said s ∧ c' = c.receiverMoved said s) ∨
      ∀ said s, Seat.Moves Receiver.act c.receiver said s →
        c'.receiver = c.receiver ∧ Step m (c.receiverMoved said s) (c'.receiverMoved said s) := by
  cases hstep with
  | senderMoves h => exact .inr fun said s hmove => ⟨rfl, .senderMoves h⟩
  | receiverMoves h => exact .inl ⟨_, _, h, rfl⟩
  | senderHears h hdelivers hcalm =>
    exact .inr fun said s hmove =>
      ⟨rfl, .senderHears h (m.delivers_append said hdelivers) hcalm⟩
  | receiverHears h => exact .inr fun said s hmove => absurd hmove (not_moves_of_read h)
  | senderPolls hphase h hcalm =>
    exact .inr fun said s hmove => ⟨rfl, .senderPolls hphase h hcalm⟩
  | senderLapses hlossy h hother =>
    exact .inr fun said s hmove => absurd hother (not_idle_of_moves hmove)
  | receiverLapses hlossy h => exact .inr fun said s hmove => absurd hmove (not_moves_of_read h)
  | @toSenderLoses before after message hlossy h =>
    refine .inr fun said s hmove => ⟨rfl, ?_⟩
    -- What the receiver says comes after what is lost.
    have hqueue : (c.receiverMoved said s).toSender = before ++ message :: (after ++ said) := by
      rw [receiverMoved, h, List.append_assoc, List.cons_append]
    have hlost := Step.toSenderLoses hlossy hqueue
    rw [← List.append_assoc] at hlost
    exact hlost
  | toReceiverLoses hlossy h => exact .inr fun said s hmove => ⟨rfl, .toReceiverLoses hlossy h⟩

/-! ## Invariants where both parties read -/

namespace Converges

variable {rest rest' : Connection → Prop}

theorem mono (h : Converges rest c) (hle : ∀ c, rest c → rest' c) : Converges rest' c := by
  induction h with
  | here h => exact .here (hle _ h)
  | sender can _ ih => exact .sender can ih
  | receiver can _ ih => exact .receiver can ih

/-- What the sender comes to is what the connection comes to. -/
theorem of_sender {post : List Bytes → Seat Sender → Prop}
    (hs : Seat.Settles Sender.act post c.sender)
    (h : ∀ said s, post said s → Converges rest (c.senderMoved said s)) : Converges rest c := by
  obtain ⟨s, r, ss, rs⟩ := c
  change Seat.Settles Sender.act post s at hs
  induction hs generalizing rs with
  | here hpost =>
    have hgo := h _ _ hpost
    simp only [senderMoved, List.append_nil] at hgo
    exact hgo
  | move can _ ih =>
    -- What is said in later moves comes after what is said in this one.
    refine .sender can fun said s' hmove => ih said s' hmove _ fun more s'' hpost => ?_
    have hgo := h _ _ hpost
    simp only [senderMoved, ← List.append_assoc] at hgo
    exact hgo

/-- What the receiver comes to is what the connection comes to. -/
theorem of_receiver {post : List Bytes → Seat Receiver → Prop}
    (hs : Seat.Settles Receiver.act post c.receiver)
    (h : ∀ said s, post said s → Converges rest (c.receiverMoved said s)) : Converges rest c := by
  obtain ⟨s, r, ss, rs⟩ := c
  change Seat.Settles Receiver.act post r at hs
  induction hs generalizing ss with
  | here hpost =>
    have hgo := h _ _ hpost
    simp only [receiverMoved, List.append_nil] at hgo
    exact hgo
  | move can _ ih =>
    refine .receiver can fun said s' hmove => ih said s' hmove _ fun more s'' hpost => ?_
    have hgo := h _ _ hpost
    simp only [receiverMoved, ← List.append_assoc] at hgo
    exact hgo

/-- What all moves lead to is preserved by each step if it is where both parties read. -/
theorem step (h : Converges rest c) (hrest : ∀ c c', rest c → Step m c c' → Converges rest c')
    (hstep : Step m c c') : Converges rest c' := by
  induction h generalizing c' with
  | here h => exact hrest _ _ h hstep
  | sender can next ih =>
    -- The step is one of the moves, or the moves are still there after it.
    rcases hstep.commute_sender with ⟨said, s, hmove, rfl⟩ | hother
    · exact next _ _ hmove
    · obtain ⟨said, s, hmove⟩ := can
      have hsender := (hother _ _ hmove).1
      refine .sender ⟨said, s, by rw [hsender]; exact hmove⟩ fun said' s' hmove' => ?_
      rw [hsender] at hmove'
      exact ih _ _ hmove' (hother _ _ hmove').2
  | receiver can next ih =>
    rcases hstep.commute_receiver with ⟨said, s, hmove, rfl⟩ | hother
    · exact next _ _ hmove
    · obtain ⟨said, s, hmove⟩ := can
      have hreceiver := (hother _ _ hmove).1
      refine .receiver ⟨said, s, by rw [hreceiver]; exact hmove⟩ fun said' s' hmove' => ?_
      rw [hreceiver] at hmove'
      exact ih _ _ hmove' (hother _ _ hmove').2

/-- What all moves lead to holds in every state that can be reached, up to moves. -/
theorem of_reachable {start : Connection} (hstart : Converges rest start)
    (hrest : ∀ c c', rest c → Step m c c' → Converges rest c') (h : Reachable m start c) :
    Converges rest c := by
  induction h with
  | start => exact hstart
  | step _ hstep ih => exact ih.step hrest hstep

/-- Where no party can move, the moves have led already. -/
theorem rest_of_idle (h : Converges rest c) (hsender : Idle Sender.act c.sender)
    (hreceiver : Idle Receiver.act c.receiver) : rest c := by
  cases h with
  | here h => exact h
  | sender can =>
    obtain ⟨said, s, hmove⟩ := can
    exact absurd hsender (not_idle_of_moves hmove)
  | receiver can =>
    obtain ⟨said, s, hmove⟩ := can
    exact absurd hreceiver (not_idle_of_moves hmove)

end Converges

/-! ## Ends that are inevitable -/

namespace Inevitable

variable {goal : Connection → Prop}

theorem mono {goal' : Connection → Prop} (h : Inevitable m goal c)
    (hle : ∀ c, goal c → goal' c) : Inevitable m goal' c := by
  induction h with
  | now h => exact .now (hle _ h)
  | later can _ ih => exact .later can ih

/-- What is inevitable stays inevitable. -/
theorem step (h : Inevitable m goal c) (hfinal : ∀ c c', goal c → ¬Step m c c')
    (hstep : Step m c c') : Inevitable m goal c' := by
  cases h with
  | now h => exact absurd hstep (hfinal _ _ h)
  | later can next => exact next _ hstep

/-- What is inevitable is inevitable in every state that can be reached. -/
theorem reachable (h : Inevitable m goal c) (hfinal : ∀ c c', goal c → ¬Step m c c')
    (hreachable : Reachable m c c') : Inevitable m goal c' := by
  induction hreachable with
  | start => exact h
  | step _ hstep ih => exact ih.step hfinal hstep

/-- What is inevitable is reached. -/
theorem exists_reachable (h : Inevitable m goal c) : ∃ c', Reachable m c c' ∧ goal c' := by
  induction h with
  | now h => exact ⟨_, .start, h⟩
  | later can _ ih =>
    obtain ⟨c', hstep⟩ := can
    obtain ⟨last, hreachable, hgoal⟩ := ih c' hstep
    exact ⟨last, hreachable.of_step hstep, hgoal⟩

/-- What is inevitable after the moves of the sender is inevitable before. -/
theorem of_sender (hfinal : ∀ c c', goal c → ¬Step m c c') {said : List Bytes} {s : Seat Sender}
    (hmove : Seat.Moves Sender.act c.sender said s)
    (hall : ∀ said s, Seat.Moves Sender.act c.sender said s →
      Inevitable m goal (c.senderMoved said s)) : Inevitable m goal c := by
  -- The induction is on how the goal is reached after one of the moves.
  have hchosen := hall _ _ hmove
  generalize hmoved : c.senderMoved said s = moved at hchosen
  induction hchosen generalizing c with
  | now hgoal =>
    refine .later ⟨_, .senderMoves hmove⟩ fun c' hstep => ?_
    rcases hstep.commute_sender with ⟨said', s', hmove', rfl⟩ | hother
    · exact hall _ _ hmove'
    · have hafter := (hother _ _ hmove).2
      rw [hmoved] at hafter
      exact absurd hafter (hfinal _ _ hgoal)
  | later can next ih =>
    refine .later ⟨_, .senderMoves hmove⟩ fun c' hstep => ?_
    rcases hstep.commute_sender with ⟨said', s', hmove', rfl⟩ | hother
    · exact hall _ _ hmove'
    · obtain ⟨hsender, hafter⟩ := hother _ _ hmove
      rw [hmoved] at hafter
      refine ih _ hafter (by rw [hsender]; exact hmove) (fun said' s' hmove' => ?_) rfl
      rw [hsender] at hmove'
      exact (hall _ _ hmove').step hfinal (hother _ _ hmove').2

/-- What is inevitable after the moves of the receiver is inevitable before. -/
theorem of_receiver (hfinal : ∀ c c', goal c → ¬Step m c c') {said : List Bytes}
    {s : Seat Receiver} (hmove : Seat.Moves Receiver.act c.receiver said s)
    (hall : ∀ said s, Seat.Moves Receiver.act c.receiver said s →
      Inevitable m goal (c.receiverMoved said s)) : Inevitable m goal c := by
  have hchosen := hall _ _ hmove
  generalize hmoved : c.receiverMoved said s = moved at hchosen
  induction hchosen generalizing c with
  | now hgoal =>
    refine .later ⟨_, .receiverMoves hmove⟩ fun c' hstep => ?_
    rcases hstep.commute_receiver with ⟨said', s', hmove', rfl⟩ | hother
    · exact hall _ _ hmove'
    · have hafter := (hother _ _ hmove).2
      rw [hmoved] at hafter
      exact absurd hafter (hfinal _ _ hgoal)
  | later can next ih =>
    refine .later ⟨_, .receiverMoves hmove⟩ fun c' hstep => ?_
    rcases hstep.commute_receiver with ⟨said', s', hmove', rfl⟩ | hother
    · exact hall _ _ hmove'
    · obtain ⟨hreceiver, hafter⟩ := hother _ _ hmove
      rw [hmoved] at hafter
      refine ih _ hafter (by rw [hreceiver]; exact hmove) (fun said' s' hmove' => ?_) rfl
      rw [hreceiver] at hmove'
      exact (hall _ _ hmove').step hfinal (hother _ _ hmove').2

/-- What is inevitable where the moves lead is inevitable. -/
theorem of_converges (hfinal : ∀ c c', goal c → ¬Step m c c')
    (h : Converges (Inevitable m goal) c) : Inevitable m goal c := by
  induction h with
  | here h => exact h
  | sender can _ ih =>
    obtain ⟨said, s, hmove⟩ := can
    exact of_sender hfinal hmove ih
  | receiver can _ ih =>
    obtain ⟨said, s, hmove⟩ := can
    exact of_receiver hfinal hmove ih

/-- The goal is inevitable if there is a measure of what is left to be done that decreases with
the moves of the parties and, where both of them read, with each step. -/
theorem of_measure {α : Type} {less : α → α → Prop} (hless : WellFounded less)
    {rest : α → Connection → Prop} (hfinal : ∀ c c', goal c → ¬Step m c c')
    (hrest : ∀ a c, rest a c →
      goal c ∨ Converges (fun c => ∃ b, less b a ∧ rest b c) c ∨
        (∃ c', Step m c c') ∧
          ∀ c', Step m c c' → Converges (fun c => ∃ b, less b a ∧ rest b c) c')
    {a : α} (h : Converges (rest a) c) : Inevitable m goal c := by
  have hall (a : α) : ∀ c, rest a c → Inevitable m goal c := by
    induction a using hless.induction with
    | _ a ih =>
      intro c hc
      -- Where the measure has decreased, the goal is inevitable by induction.
      have hlower (c' : Connection) (hc' : Converges (fun c => ∃ b, less b a ∧ rest b c) c') :
          Inevitable m goal c' := by
        refine of_converges hfinal (hc'.mono ?_)
        rintro c'' ⟨b, hb, hc''⟩
        exact ih b hb c'' hc''
      rcases hrest a c hc with hgoal | hmoves | ⟨hcan, hsteps⟩
      · exact .now hgoal
      · exact hlower c hmoves
      · exact .later hcan fun c' hstep => hlower c' (hsteps c' hstep)
  exact of_converges hfinal (h.mono (hall a))

end Inevitable

end Connection

end BlockTransfer
