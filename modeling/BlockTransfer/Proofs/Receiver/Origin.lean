import BlockTransfer.Proofs.Receiver.Dialogue
import BlockTransfer.Proofs.Receiver.Supply
import Mathlib.Data.List.Induction

/-!
# Where all that comes in a file stems from

A receiver hears nothing that has not been sent. Every block that comes in the middle of a file,
whether or not it is accepted, stands as a frame among the bytes that have arrived, every end mark
as a byte of its own, and they stand there in the order in which they come and without overlap.

## Main definitions

* `Receiver.Incoming.Spells`: the bytes with which something comes.
* `Receiver.comings`: all that has come in the middle of files, as it is seen in a run.

## Main results

* `Receiver.trace_originates`: the bytes of all that has come have arrived in order.
-/

namespace BlockTransfer.Receiver

/-! ## Bytes -/

/-- The bytes with which something comes: the frame of a block, or the byte of an end mark. What is
damaged or does not come at all has none. -/
def Incoming.Spells (trailer : Trailer) (bytes : Bytes) : Incoming → Prop
  | .block found => Block.decode bytes trailer = .ok found
  | .endOfFile => bytes = [Control.eot.byte]
  | .corrupt _ | .silence => bytes = []

/-- What has come in the middle of files in a run so far, with the block check that was in force. -/
def comings (past : List (Act Receiver)) : List (Trailer × Incoming) :=
  past.filterMap fun act => (came act.state).map (act.state.trailer, ·)

/-- All that has come has bytes of its own among the given ones, in order. -/
def Originates (comings : List (Trailer × Incoming)) (bytes : Bytes) : Prop :=
  ∃ pieces : List Bytes,
    List.Forall₂ (fun piece coming => coming.2.Spells coming.1 piece) pieces comings ∧
    InOrder pieces bytes

/-- The bytes that are being dealt with at a step: those that have come of a frame whose rest is
awaited, or those of something that has not been judged yet. -/
def Carries (trailer : Trailer) (bytes : Bytes) : Step → Prop
  | .collect _ frame _ _ => bytes = frame
  | .judge _ incoming | .openFile _ (some incoming) | .nextBlock (some incoming) =>
    incoming.Spells trailer bytes
  | _ => bytes = []

section Bytes

variable {comings : List (Trailer × Incoming)} {bytes : Bytes}

theorem Originates.append_right (h : Originates comings bytes) (more : Bytes) :
    Originates comings (bytes ++ more) := by
  obtain ⟨pieces, hspells, horder⟩ := h
  exact ⟨pieces, hspells, horder.append_right more⟩

theorem Originates.concat (h : Originates comings bytes) {trailer : Trailer} {incoming : Incoming}
    {piece : Bytes} (hpiece : incoming.Spells trailer piece) :
    Originates (comings ++ [(trailer, incoming)]) (bytes ++ piece) := by
  obtain ⟨pieces, hspells, horder⟩ := h
  exact ⟨pieces ++ [piece], List.rel_append hspells (.cons hpiece .nil), horder.concat piece⟩

end Bytes

/-! ## Acts -/

section Acts

variable {s s' : Receiver} {step step' : Step} {event : Event} {bytes : Bytes}

/-- A signal is written when everything has been dealt with. -/
theorem Says.carries {signal : Control} (h : Says s step signal s' step') (trailer : Trailer) :
    Carries trailer [] step' := by
  cases h <;> rfl

/-- A wait that goes on leaves its bytes in the queue. -/
theorem carries_rewait {task task' : Line.Task} {timeout : Nat} {left arrived pending : Bytes}
    {now : Nat} (hplaced : s.Placed step) (hcarries : Carries s.trailer bytes step)
    (htask : step.task? = some task)
    (hlook : task.look s.pending s.moment.now = .read timeout left)
    (hhear : task.hear left arrived now = .waiting task' pending) :
    ∃ used bytes', bytes ++ s.pending ++ arrived = used ++ bytes' ++ pending ∧
      Carries s.trailer bytes' (step.rewait task') := by
  obtain ⟨used, hused, hkeeps⟩ := Line.Task.look_read hlook
  obtain ⟨rfl, -⟩ := Line.Task.hear_waiting hhear
  cases step with
  | listen | purge =>
    obtain rfl : bytes = [] := hcarries
    exact ⟨used, [], by rw [hused]; simp, rfl⟩
  | collect =>
    -- Nothing is lost while the rest of a frame is awaited.
    obtain ⟨-, -, _, _, rfl⟩ := hplaced
    cases htask
    rw [hkeeps nofun] at hused
    exact ⟨[], bytes, by rw [hused]; simp, hcarries⟩
  | _ => cases htask

/-- A receiver takes bytes from the front of the queue, and is done with those of what it has
judged. -/
theorem Turns.carries (h : Turns s step event s' step') (hplaced : s.Placed step)
    (hcarries : Carries s.trailer bytes step) :
    ∃ used bytes', bytes ++ s.pending ++ event.arrived = used ++ bytes' ++ s'.pending ∧
      Carries s'.trailer bytes' step' ∧
      ∀ incoming, step = .judge .data incoming → used = bytes := by
  -- In most acts nothing arrives and nothing is taken from the queue.
  have hdone (hpending : s'.pending = s.pending) (harrived : event.arrived = [])
      (hnext : Carries s'.trailer [] step') :
      ∃ used bytes', bytes ++ s.pending ++ event.arrived = used ++ bytes' ++ s'.pending ∧
        Carries s'.trailer bytes' step' ∧
        ∀ incoming, step = .judge .data incoming → used = bytes :=
    ⟨bytes, [], by simp [hpending, harrived], hnext, fun _ _ => rfl⟩
  cases h with
  | speaks h => exact hdone h.pending_eq rfl (h.carries _)
  | arrival htask hlook hhear =>
    obtain ⟨used, bytes', hbytes, hnext⟩ := carries_rewait hplaced hcarries htask hlook hhear
    refine ⟨used, bytes', hbytes, hnext, ?_⟩
    rintro incoming rfl
    cases htask
  | endMark hpending =>
    obtain rfl : bytes = [] := hcarries
    exact ⟨[], [Control.eot.byte], by simp [hpending, Event.arrived], rfl, by rintro _ ⟨⟩⟩
  | @garbage purpose task byte pending hpending =>
    obtain rfl : bytes = [] := hcarries
    exact ⟨[byte], [], by simp [hpending, Event.arrived], rfl, by rintro _ ⟨⟩⟩
  | @marker purpose task byte pending size needed deadline hpending =>
    obtain rfl : bytes = [] := hcarries
    exact ⟨[], [byte], by simp [hpending, Event.arrived], rfl, by rintro _ ⟨⟩⟩
  | silence hpending => exact hdone hpending.symm rfl rfl
  | @block purpose frame needed idle deadline block hpending hdecode =>
    obtain rfl : bytes = frame := hcarries
    exact ⟨[], bytes ++ s.pending.take needed, by simp [Event.arrived], hdecode, by rintro _ ⟨⟩⟩
  | @damaged purpose frame needed idle deadline e hpending =>
    obtain rfl : bytes = frame := hcarries
    exact ⟨bytes ++ s.pending.take needed, [], by simp [Event.arrived], rfl, by rintro _ ⟨⟩⟩
  | halted | purged => exact ⟨bytes ++ s.pending, [], by simp [Event.arrived], rfl, by rintro _ ⟨⟩⟩
  | first | takeUp =>
    exact ⟨[], bytes, by simp [Event.arrived, Party.mapSession], hcarries, by rintro _ ⟨⟩⟩
  | @openFile header incoming =>
    refine ⟨[], bytes, by simp [Event.arrived], ?_, by rintro _ ⟨⟩⟩
    cases incoming <;> exact hcarries
  | unanswered =>
    refine hdone ?_ rfl rfl
    unfold fallBack
    dsimp only
    split <;> rfl
  | _ => exact hdone rfl rfl rfl

end Acts

/-! ## Runs -/

section Runs

variable {past : List (Act Receiver)} {s : Receiver} {step : Step} {event : Event}

theorem comings_concat (past : List (Act Receiver)) (act : Act Receiver) :
    comings (past ++ [act]) =
      comings past ++ ((came act.state).map (act.state.trailer, ·)).toList := by
  rw [comings, List.filterMap_append]
  cases hcame : came act.state <;> simp [comings, hcame]

/-- The bytes of all that has come have arrived, and after them those that are being dealt with and
the queue. -/
structure Traced (past : List (Act Receiver)) (s : Receiver) : Prop where
  originates : Originates (comings past) (arrivals past)
  doing : ∀ step, s.phase = .doing step → s.Placed step ∧ ∃ used bytes,
    arrivals past = used ++ bytes ++ s.pending ∧ Originates (comings past) used ∧
      Carries s.trailer bytes step

/-- What is judged in an act joins all that has come before. -/
theorem Originates.judged {used bytes : Bytes} (h : Originates (comings past) used)
    (hphase : s.phase = .doing step) (hcarries : Carries s.trailer bytes step) {more : Bytes}
    (hmore : ∀ incoming, step = .judge .data incoming → more = bytes) :
    Originates (comings (past ++ [⟨s, event⟩])) (used ++ more) := by
  rw [comings_concat]
  cases hcame : came s with
  | none =>
    rw [Option.map_none, Option.toList_none, List.append_nil]
    exact h.append_right more
  | some incoming =>
    have hjudge : step = .judge .data incoming :=
      Phase.doing.inj (hphase.symm.trans (came_eq_some_iff.mp hcame))
    rw [hmore incoming hjudge]
    subst hjudge
    exact h.concat hcarries

theorem traced_new (options : Options) (moment : Moment) : Traced [] (new options moment) where
  originates := ⟨[], .nil, trivial⟩
  doing := by
    rintro step ⟨⟩
    exact ⟨trivial, [], [], rfl, ⟨[], .nil, trivial⟩, rfl⟩

/-- Every act of a receiver keeps track of the bytes of all that comes. -/
theorem traced_act (h : Traced past s) :
    (act s).Ensures fun event next => Traced (past ++ [⟨s, event⟩]) next := by
  refine ensures_act_of_course (fun step hphase => (h.doing step hphase).1) ?_ ?_
  · intro step event next hphase hcourse
    obtain ⟨hplaced, used, bytes, harrivals, horiginates, hcarries⟩ := h.doing step hphase
    have hjudged : Originates (comings (past ++ [⟨s, event⟩])) (used ++ bytes) :=
      horiginates.judged hphase hcarries fun _ _ => rfl
    have hall : Originates (comings (past ++ [⟨s, event⟩])) (arrivals (past ++ [⟨s, event⟩])) := by
      rw [arrivals_concat, harrivals, List.append_assoc]
      exact hjudged.append_right _
    refine ⟨hall, ?_⟩
    rcases hcourse.turns_or_parted with ⟨s', step', rfl, hturns⟩ | hparted
    · rintro _ ⟨⟩
      obtain ⟨more, bytes', hbytes, hnext, hmore⟩ := hturns.carries hplaced hcarries
      refine ⟨hturns.placed hplaced, used ++ more, bytes', ?_,
        horiginates.judged hphase hcarries hmore, hnext⟩
      rw [arrivals_concat, harrivals]
      simp only [List.append_assoc] at hbytes ⊢
      rw [hbytes]
      rfl
    · exact fun step' hphase' => absurd hphase' (hparted.phase_ne step')
  · intro ending reply moment hphase
    have hcame : came s = none := by simp [came, hphase]
    refine ⟨?_, by rintro step ⟨⟩⟩
    rw [comings_concat, hcame, arrivals_concat, Option.map_none, Option.toList_none,
      List.append_nil]
    exact h.originates.append_right _

/-- Whatever the peer does, the bytes of all that comes in the middle of files have arrived, in the
same order and without overlap. -/
theorem trace_originates {ω : Type} (env : Surroundings ω) (options : Options) (moment : Moment)
    (w : ω) (acts : Nat) :
    Originates (comings (Action.trace env act acts (new options moment) w))
      (arrivals (Action.trace env act acts (new options moment) w)) := by
  have htraced : Traced (Action.trace env act acts (new options moment) w)
      (Action.run env act acts (new options moment) w).state :=
    Action.invariant_trace (fun _ _ => traced_act) env acts w (traced_new options moment)
  exact htraced.originates

/-- The exchanges about the current file are the latest of all that has come. -/
theorem incoming_dialogue_isSuffix (past : List (Act Receiver)) :
    (dialogue past).reverse.map Exchange.incoming <:+ (comings past).map Prod.snd := by
  induction past using List.reverseRecOn with
  | nil => exact List.nil_suffix
  | append_singleton past act ih =>
    rw [dialogue_concat, comings_concat, Exchange.after]
    split
    · exact List.nil_suffix
    · cases hcame : came act.state with
      | some incoming =>
        obtain ⟨before, hbefore⟩ := ih
        exact ⟨before, by simp [← hbefore]⟩
      | none =>
        -- What is said of something that has come before is no coming.
        have hsaid : ((dialogue past).modifyHead (·.say (uttered act))).map Exchange.incoming =
            (dialogue past).map Exchange.incoming := by
          cases dialogue past <;> rfl
        rw [Option.map_none, Option.toList_none, List.append_nil, List.map_reverse]
        dsimp only
        rw [hsaid, ← List.map_reverse]
        exact ih

end Runs

end BlockTransfer.Receiver
