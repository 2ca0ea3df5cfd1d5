import BlockTransfer.Proofs.Chunking.Queue
import BlockTransfer.Sink.Memory

/-!
# Bytes that come in chunks

It does not matter how the bytes on a channel are cut into chunks: if what arrives at one time is
brought in several pieces instead, a party reads more often, but it does just the same. Of two
parties that differ in this alone, one may have bytes in its queue of which the other one is still
owed some pieces. As soon as it misses them, it gets them.

## Main definitions

* `Script.Trails`: a party that is owed some pieces beside one that has got them already.

## Main results

* `Script.Trails.next`: a party that is owed some pieces gets one of them, or does the same as the
  other one.
* `Script.mirrors_of_cuts`: nothing can be seen of how bytes are cut into chunks.
-/

namespace BlockTransfer

/-! ## Two parties -/

namespace Script

section Trails

variable {δ φ κ : Type} {setup : Setup κ} {own : Party δ φ → φ → Action (Party δ φ)}
  {task? : φ → Option Line.Task} {placed : Party δ φ → φ → Prop} {owed : List Bytes}
  {s s' : Party δ φ} {w w' : World κ}

/-- A party that is owed some pieces, beside one that has got them already. Otherwise they are the
same. -/
structure Trails (setup : Setup κ) (task? : φ → Option Line.Task) (owed : List Bytes)
    (s : Party δ φ) (w : World κ) (s' : Party δ φ) (w' : World κ) : Prop where
  state : s' = s.holding s'.pending
  world : w.Owes owed w'
  moment : s.moment = w.moment
  pending : s.Hushes task? ∨ s.pending = s'.pending ++ owed.flatten
  /-- No pause has gone by since the pieces arrived. -/
  fresh : owed ≠ [] → s.Fresh task?
  punctual : owed ≠ [] → w.Punctual setup

/-- What the two parties do next. -/
inductive Trails.Next (setup : Setup κ) (own : Party δ φ → φ → Action (Party δ φ))
    (task? : φ → Option Line.Task) (owed : List Bytes) (s : Party δ φ) (w : World κ)
    (s' : Party δ φ) (w' : World κ) : Prop
  /-- Both have come to the same end. -/
  | stop (ending : Ending)
      (hstep : (s.act (own s)).step (World.surroundings setup) w = .error ending)
      (hstep' : (s'.act (own s')).step (World.surroundings setup) w' = .error ending)
  /-- Both go on. -/
  | both (owed₁ : List Bytes) (s₁ s₁' : Party δ φ) (w₁ w₁' : World κ)
      (hstep : (s.act (own s)).step (World.surroundings setup) w = .ok (s₁, w₁))
      (hstep' : (s'.act (own s')).step (World.surroundings setup) w' = .ok (s₁', w₁'))
      (h : Trails setup task? owed₁ s₁ w₁ s₁' w₁')
  /-- The one that is owed some pieces gets one of them. -/
  | behind (piece : Bytes) (rest : List Bytes) (s₁' : Party δ φ) (w₁' : World κ)
      (howed : owed = piece :: rest)
      (hstep' : (s'.act (own s')).step (World.surroundings setup) w' = .ok (s₁', w₁'))
      (h : Trails setup task? rest s w s₁' w₁')

/-- Where nothing is wanted of the line, both do the same. -/
theorem Trails.next_of_idle (huse : Party.UsesQueue own task? placed)
    (hplaced : ∀ step, s.phase = .doing step → placed s step)
    (h : Trails setup task? owed s w s' w')
    (hidle : ∀ step, s.phase = .doing step → task? step = none) :
    Trails.Next setup own task? owed s w s' w' := by
  have hensures := huse.ensures_act hplaced hidle
  have hact' : s'.act (own s') = (s.act (own s)).map (·.holding s'.pending) := by
    rw [h.state]
    exact huse.act_holding hidle _
  rcases h.world.step_map setup (fun s => s.holding s'.pending)
      (huse.act_ne_read hplaced hidle) with
    ⟨ending, hstep, hstep'⟩ | ⟨next, w₁, w₁', hstep, hstep', hworld⟩
  · rw [← hact'] at hstep'
    exact .stop ending hstep hstep'
  · rw [← hact'] at hstep'
    have hmoment : next.moment = w₁.moment := (h.moment ▸ huse.attentive s).moment_eq hstep
    refine .both owed next _ w₁ w₁' hstep hstep' ⟨rfl, hworld, hmoment, .inr ?_, ?_, ?_⟩
    · rw [huse.pending_eq hidle hstep]
      refine h.pending.resolve_left ?_
      -- Silence would be wanted of the line.
      rintro ⟨step, period, hphase, htask⟩
      cases (hidle step hphase).symm.trans htask
    · exact fun _ => (hensures.of_step hstep).2
    · intro howed
      exact (h.punctual howed).of_replies (Action.replies_of_step hstep) (hensures.of_step hstep).1

variable {step : φ} {task : Line.Task} {again : Line.Task → φ}
  {heard : Option Bytes → Party δ φ → Party δ φ}

/-- A piece that is owed is read as soon as it is wanted. -/
theorem Trails.next_of_owed {piece : Bytes} {rest : List Bytes} {timeout : Nat} {left : Bytes}
    (h : Trails setup task? (piece :: rest) s w s' w') (hphase : s.phase = .doing step)
    (htask : task? step = some task) (hlistens : Party.ListensTo own task? step task again heard)
    (hlook : task.look s'.pending s.moment.now = .read timeout left) :
    Trails.Next setup own task? (piece :: rest) s w s' w' := by
  obtain ⟨pending, rfl⟩ : ∃ pending, s' = s.holding pending := ⟨_, h.state⟩
  have hfresh := h.fresh (List.cons_ne_nil _ _)
  have hpunctual := h.punctual (List.cons_ne_nil _ _)
  obtain ⟨w₁', hread, hworld⟩ := h.world.read_piece hpunctual timeout
  have hpiece : piece ≠ [] := by
    rintro rfl
    exact h.world.wire.solid List.mem_cons_self
  have hmoment : w₁'.moment = s.moment := hworld.moment_eq.trans h.moment.symm
  have hhear : task.hear left piece w₁'.moment.now = .waiting task (left ++ piece) := by
    rw [hmoment]
    exact (hfresh step task hphase htask).hear hpiece
  -- The party is at the same step as before.
  have hback : ({ s with pending := left ++ piece, moment := w₁'.moment } : Party δ φ).goto
      (again task) = s.holding (left ++ piece) := by
    rw [hmoment, hlistens.again_task, Party.goto, ← hphase]
    rfl
  have hstep : ((s.holding pending).act (own (s.holding pending))).step (World.surroundings setup)
      w' = .ok (s.holding (left ++ piece), w₁') := by
    rw [← hback]
    exact hlistens.step_of_hear hphase hlook hread hhear
  refine .behind piece rest _ w₁' rfl hstep
    ⟨rfl, hworld, h.moment, ?_, fun _ => hfresh, fun _ => hpunctual⟩
  by_cases hquiet : ∃ period, task = .quiet period
  · obtain ⟨period, rfl⟩ := hquiet
    exact .inl ⟨step, period, hphase, htask⟩
  · have hhushes : ¬s.Hushes task? := by
      rintro ⟨step', period, hphase', htask'⟩
      cases hphase.symm.trans hphase'
      exact hquiet ⟨period, Option.some.inj (htask.symm.trans htask')⟩
    -- What is in the queue is kept.
    have hleft : pending = left := Line.Task.look_read_of_ne hlook hquiet
    have hpending : s.pending = pending ++ (piece :: rest).flatten :=
      h.pending.resolve_left hhushes
    refine .inr ?_
    rw [hpending, hleft, List.flatten_cons, ← List.append_assoc]
    rfl

/-- If nothing is owed, both listen to the line. -/
theorem Trails.next_of_read {timeout : Nat} {left : Bytes} (h : Trails setup task? [] s w s' w')
    (hattentive : (s.act (own s)).Attentive s.moment) (hphase : s.phase = .doing step)
    (hlistens : Party.ListensTo own task? step task again heard)
    (hlook : task.look s.pending s.moment.now = .read timeout left)
    (hlook' : task.look s'.pending s.moment.now = .read timeout left) :
    Trails.Next setup own task? [] s w s' w' := by
  obtain ⟨pending, rfl⟩ : ∃ pending, s' = s.holding pending := ⟨_, h.state⟩
  have hact' := hlistens.act_holding hphase hlook hlook'
  obtain ⟨owed, hbrings, hworld⟩ := h.world.read setup timeout
  generalize hread : w.read setup timeout = brought at hbrings hworld
  generalize hread' : w'.read setup timeout = brought' at hbrings hworld
  obtain ⟨content, w₁⟩ := brought
  obtain ⟨content', w₁'⟩ := brought'
  cases hbrings with
  | same =>
    -- The same reply at the same moment leads to the same state.
    obtain ⟨next, hnext⟩ : ∃ next, s.act (own s) = .read timeout next := by
      rw [hlistens.act_eq hphase, Party.listen, hlook]
      exact ⟨_, rfl⟩
    have hstep : (s.act (own s)).step (World.surroundings setup) w =
        .ok (next content w₁.moment, w₁) := by
      rw [hnext]
      simp only [Action.step, World.surroundings, hread]
    have hstep' : (s.act (own s)).step (World.surroundings setup) w' =
        .ok (next content w₁.moment, w₁') := by
      rw [hnext, ← hworld.moment_eq]
      simp only [Action.step, World.surroundings, hread']
    rw [← hact'] at hstep'
    refine .both [] _ _ w₁ w₁' hstep hstep' ⟨rfl, hworld, ?_, .inr ?_, ?_, ?_⟩
    · exact (h.moment ▸ hattentive).moment_eq hstep
    · exact (List.append_nil _).symm
    · exact fun hne => absurd rfl hne
    · exact fun hne => absurd rfl hne
  | piece first _ hfirst =>
    have hwhole : first ++ owed.flatten ≠ [] := List.append_ne_nil_of_left_ne_nil hfirst _
    obtain ⟨task', hhear, hhear'⟩ := task.hear_of_ne_nil left w₁.moment.now hwhole hfirst
    rw [← hworld.moment_eq] at hhear'
    have hstep : (s.act (own s)).step (World.surroundings setup) w =
        .ok ((({ s with pending := left ++ (first ++ owed.flatten), moment := w₁.moment } :
          Party δ φ).goto (again task')), w₁) :=
      hlistens.step_of_hear hphase hlook hread hhear
    have hstep' : ((s.holding pending).act (own (s.holding pending))).step
        (World.surroundings setup) w' =
          .ok ((({ s with pending := left ++ first, moment := w₁'.moment } : Party δ φ).goto
            (again task')), w₁') :=
      hlistens.step_of_hear hphase hlook' hread' hhear'
    rw [hworld.moment_eq] at hstep'
    refine .both owed _ _ w₁ w₁' hstep hstep' ⟨rfl, hworld, rfl, .inr ?_, ?_, ?_⟩
    · exact (List.append_assoc _ _ _).symm
    · intro _ step' task'' hstep'' htask''
      cases hstep''
      exact hlistens.fresh_again (Line.Task.fresh_of_hear hwhole hhear) htask''
    · intro _
      rw [show w₁ = (w.read setup timeout).2 by rw [hread]]
      exact World.punctual_read setup w timeout

/-- What both wait for may be there already. -/
theorem Trails.next_of_settled {r : Line.Settled} (h : Trails setup task? owed s w s' w')
    (hattentive : (s.act (own s)).Attentive s.moment) (hphase : s.phase = .doing step)
    (htask : task? step = some task) (hlistens : Party.ListensTo own task? step task again heard)
    (hlook : task.look s.pending s.moment.now = .settled ⟨r.result, r.pending ++ owed.flatten⟩)
    (hlook' : task.look s'.pending s.moment.now = .settled r) :
    Trails.Next setup own task? owed s w s' w' := by
  obtain ⟨pending, rfl⟩ : ∃ pending, s' = s.holding pending := ⟨_, h.state⟩
  have hstep := hlistens.step_of_settled hphase hlook (World.surroundings setup) w
  have hstep' : ((s.holding pending).act (own (s.holding pending))).step
      (World.surroundings setup) w' = .ok ((heard r.result s).holding r.pending, w') := by
    rw [@Party.ListensTo.step_of_settled _ _ _ _ _ _ _ _ (s.holding pending) _ _ hlistens hphase
      hlook' (World.surroundings setup) w', hlistens.heard_holding]
    rfl
  have hmoment := (h.moment ▸ hattentive).moment_eq hstep
  refine .both owed _ _ w w' hstep hstep' ⟨rfl, h.world, hmoment, .inr rfl, ?_, h.punctual⟩
  intro howed
  exact hlistens.fresh_heard (h.fresh howed step task hphase htask)

theorem Trails.next_of_listens (huse : Party.UsesQueue own task? placed)
    (h : Trails setup task? owed s w s' w') (hphase : s.phase = .doing step)
    (htask : task? step = some task) : Trails.Next setup own task? owed s w s' w' := by
  obtain ⟨again, heard, hlistens⟩ := huse.listens htask
  -- Silence is the only thing for which it does not matter what is in the queue.
  have hpending : (∃ period, task = .quiet period) ∨ s.pending = s'.pending ++ owed.flatten := by
    refine h.pending.imp_left ?_
    rintro ⟨step', period, hphase', htask'⟩
    cases hphase.symm.trans hphase'
    exact ⟨period, Option.some.inj (htask.symm.trans htask')⟩
  cases hlook' : task.look s'.pending s.moment.now with
  | settled r =>
    rcases hpending with ⟨period, rfl⟩ | hpending
    · cases hlook'
    · refine h.next_of_settled (huse.attentive s) hphase htask hlistens ?_ hlook'
      rw [hpending]
      exact Line.Task.look_append hlook' _
  | read timeout left =>
    cases owed with
    | cons piece rest => exact h.next_of_owed hphase htask hlistens hlook'
    | nil =>
      refine h.next_of_read (huse.attentive s) hphase hlistens ?_ hlook'
      rcases hpending with ⟨period, rfl⟩ | hpending
      · exact hlook'
      · rw [hpending, List.flatten_nil, List.append_nil]
        exact hlook'

/-- The party that is owed some pieces gets one of them, or both parties do the same. -/
theorem Trails.next (huse : Party.UsesQueue own task? placed)
    (hplaced : ∀ step, s.phase = .doing step → placed s step)
    (h : Trails setup task? owed s w s' w') : Trails.Next setup own task? owed s w s' w' := by
  by_cases hidle : ∀ step, s.phase = .doing step → task? step = none
  · exact h.next_of_idle huse hplaced hidle
  · push Not at hidle
    obtain ⟨step, hphase, htask⟩ := hidle
    obtain ⟨task, htask⟩ := Option.ne_none_iff_exists'.mp htask
    exact h.next_of_listens huse hphase htask

/-! ## Runs -/

theorem Trails.alike (h : Trails setup task? owed s w s' w') {ending : Option Ending} :
    Alike ⟨ending, s, w⟩ ⟨ending, s', w'⟩ := by
  refine ⟨rfl, ?_, ?_, ?_, h.world.wire.now⟩
  · rw [h.state]
    rfl
  · rw [h.world.others]
  · rw [h.world.others]

/-- Two parties of which the one is owed some pieces keep to this. It makes up for the readings of
these pieces. -/
theorem Trails.simulates (huse : Party.UsesQueue own task? placed) :
    Action.Simulates (World.surroundings setup) (fun s => s.act (own s)) (World.surroundings setup)
      (fun s => s.act (own s)) fun lag s w s' w' => ∃ owed : List Bytes, owed.length = lag ∧
        Trails setup task? owed s w s' w' ∧ ∀ step, s.phase = .doing step → placed s step := by
  rintro _ s w s' w' ⟨owed, rfl, h, hplaced⟩
  cases h.next huse hplaced with
  | stop ending hstep hstep' => exact .stop ending hstep hstep'
  | both owed₁ s₁ s₁' w₁ w₁' hstep hstep' hnext =>
    have hplaced₁ := (huse.placed_act hplaced).of_step hstep
    exact .both owed₁.length s₁ w₁ s₁' w₁' hstep hstep' ⟨owed₁, rfl, hnext, hplaced₁⟩
  | behind piece rest s₁' w₁' howed hstep' hnext =>
    refine .behind rest.length s₁' w₁' ?_ hstep' ⟨rest, rfl, hnext, hplaced⟩
    rw [howed]
    exact Nat.lt_succ_self _

end Trails

end Script

/-! ## Scripts -/

namespace Script

variable {κ : Type}

/-- A party at its start is owed nothing. -/
theorem trails_new {δ φ : Type} (setup : Setup κ) (task? : φ → Option Line.Task) {play play' : Play}
    (h : play.Cuts play') (sources : List Source) (sink : κ) {s : Party δ φ}
    (hmoment : s.moment = (World.new setup play sources sink).moment) :
    Trails setup task? [] s (World.new setup play sources sink) s
      (World.new setup play' sources sink) where
  state := rfl
  world := ⟨Wire.owes_ofPlay h, rfl⟩
  moment := hmoment
  pending := .inr (List.append_nil _).symm
  fresh := fun hne => absurd rfl hne
  punctual := fun hne => absurd rfl hne

/-- Nothing can be seen of how bytes are cut into chunks. -/
theorem mirrors_of_usesQueue {δ φ : Type} {own : Party δ φ → φ → Action (Party δ φ)}
    {task? : φ → Option Line.Task} {placed : Party δ φ → φ → Prop}
    (huse : Party.UsesQueue own task? placed) {setup : Setup κ} {play play' : Play}
    (h : play.Cuts play') (sources : List Source) (sink : κ) {s : Party δ φ}
    (hmoment : s.moment = (World.new setup play sources sink).moment)
    (hplaced : ∀ step, s.phase = .doing step → placed s step) :
    Mirrors
      (fun acts => Action.run (World.surroundings setup) (fun s => s.act (own s)) acts s
        (World.new setup play sources sink))
      (fun acts => Action.run (World.surroundings setup) (fun s => s.act (own s)) acts s
        (World.new setup play' sources sink)) := by
  have htrails := trails_new setup task? h sources sink hmoment
  refine mirrors_of_simulates (Trails.simulates huse) ?_ ⟨[], rfl, htrails, hplaced⟩
  rintro lag s w s' w' ⟨owed, -, htrails, -⟩ ending
  exact htrails.alike

/-- It does not matter how the bytes of a script are cut into chunks: a sender and a receiver come
to just the same, by the same acts at the same times. -/
theorem mirrors_of_cuts (setup : Setup κ) (options : Options) (files : List FileHeader)
    (sources : List Source) (sink : κ) {play play' : Play} (h : play.Cuts play') :
    let w := World.new setup play sources sink
    let w' := World.new setup play' sources sink
    Mirrors
        (fun acts => Action.run (World.surroundings setup) Sender.act acts
          (Sender.new options files w.moment) w)
        (fun acts => Action.run (World.surroundings setup) Sender.act acts
          (Sender.new options files w'.moment) w') ∧
      Mirrors
        (fun acts => Action.run (World.surroundings setup) Receiver.act acts
          (Receiver.new options w.moment) w)
        (fun acts => Action.run (World.surroundings setup) Receiver.act acts
          (Receiver.new options w'.moment) w') := by
  intro w w'
  have hmoment : w'.moment = w.moment :=
    (trails_new (s := Receiver.new options w.moment) setup Receiver.Step.task? h sources sink
      rfl).world.moment_eq
  rw [hmoment]
  constructor
  · refine mirrors_of_usesQueue Sender.usesQueue h sources sink rfl ?_
    rintro step ⟨⟩
    exact ⟨nofun, nofun⟩
  · refine mirrors_of_usesQueue Receiver.usesQueue h sources sink rfl ?_
    rintro step ⟨⟩
    trivial

/-- An answer to a block and an answer to the end mark come together, or one after the other, beside
a signal. -/
theorem mirrors_of_cuts_answers :
    let setup : Setup MemorySink := { sink := MemorySink.sink }
    let options : Options := { protocol := .xmodem, variant := .checksum }
    let play : Play := { initial := [⟨7, .ok [Control.nak.byte, Control.ack.byte,
      Control.ack.byte]⟩, ⟨0, .error ⟨.other, "gone"⟩⟩] }
    let play' : Play := { initial := [⟨7, .ok [Control.nak.byte]⟩,
      ⟨0, .ok [Control.ack.byte, Control.ack.byte]⟩, ⟨0, .error ⟨.other, "gone"⟩⟩] }
    let w := World.new setup play [{ remaining := [97] }] {}
    let w' := World.new setup play' [{ remaining := [97] }] {}
    play.Cuts play' ∧
      Mirrors
        (fun acts => Action.run (World.surroundings setup) Sender.act acts
          (Sender.new options [{ name := "a" }] w.moment) w)
        (fun acts => Action.run (World.surroundings setup) Sender.act acts
          (Sender.new options [{ name := "a" }] w'.moment) w') ∧
      Mirrors
        (fun acts => Action.run (World.surroundings setup) Receiver.act acts
          (Receiver.new options w.moment) w)
        (fun acts => Action.run (World.surroundings setup) Receiver.act acts
          (Receiver.new options w'.moment) w') := by
  intro setup options play play' w w'
  have hcuts : play.Cuts play' := by
    refine ⟨?_, .nil, .nil, rfl⟩
    exact @Cuts.cut _ _ _ 7 [Control.nak.byte] [[Control.ack.byte, Control.ack.byte]] _ _
      (by decide) (by decide) (.whole _ .nil)
  exact ⟨hcuts, mirrors_of_cuts setup options _ _ _ hcuts⟩

end Script

end BlockTransfer
