import BlockTransfer.Proofs.Chunking.Queue
import BlockTransfer.Sink.Memory
import Mathlib.Data.List.Forall2

/-!
# Noise on the line to a sender

A sender acts on five signals only. Any other byte that comes is noise: it is taken out of the queue
and nothing else happens, whatever the sender waits for. The deadline of a wait does not move, and
the bytes behind the noise are looked at in the same moment. So of two senders one of which hears
noise beside what the other one hears, the first one may have noise in its queue, and otherwise they
are the same.

## Main definitions

* `Sender.IsNoise`: a byte that means nothing to a sender.
* `Sender.Noisy`: the same bytes with noise among them.
* `Script.Play.Noisy`: the same script with noise among the bytes of some chunks.
* `Sender.Muddled`: a sender beside one that has noise in its queue.

## Main results

* `Sender.step_of_noise`: noise is taken out of the queue, and nothing else happens.
* `Sender.Muddled.abreast`: the two senders do the same, or the one with noise in its queue gets rid
  of some.
* `Script.mirrors_of_noise`: nothing can be seen of noise.
-/

namespace BlockTransfer

namespace Sender

/-- The signals that a sender acts on. -/
def signals : List Control :=
  [.ack, .nak, .can, .crcRequest, .streamRequest]

/-- A byte that means nothing to a sender. -/
def IsNoise (byte : UInt8) : Prop :=
  ∀ signal ∈ signals, byte ≠ signal.byte

instance (byte : UInt8) : Decidable (IsNoise byte) :=
  inferInstanceAs (Decidable (∀ signal ∈ signals, byte ≠ signal.byte))

/-- The same bytes with noise among them. -/
inductive Noisy : Bytes → Bytes → Prop
  | nil : Noisy [] []
  /-- A byte comes as before. -/
  | keep (byte : UInt8) {data data' : Bytes} (h : Noisy data data') :
    Noisy (byte :: data) (byte :: data')
  /-- Noise comes before the rest. -/
  | noise {byte : UInt8} {data data' : Bytes} (hbyte : IsNoise byte) (h : Noisy data data') :
    Noisy data (byte :: data')

/-- There need not be any noise. -/
theorem Noisy.refl : ∀ data : Bytes, Noisy data data
  | [] => .nil
  | byte :: data => .keep byte (refl data)

/-- Noise only adds to what comes. -/
theorem Noisy.ne_nil {data data' : Bytes} (h : Noisy data data') (hdata : data ≠ []) :
    data' ≠ [] := by
  cases h with
  | nil => exact hdata
  | keep | noise => exact List.cons_ne_nil _ _

/-- The only signal that noise may be is the end mark, which is for receivers. -/
theorem IsNoise.eq_eot {byte : UInt8} (h : IsNoise byte) {signal : Control}
    (hsignal : Control.ofByte? byte = some signal) : signal = .eot := by
  have hbyte := Control.ofByte?_eq_some_iff.mp hsignal
  cases signal with
  | eot => rfl
  | ack | nak | can | crcRequest | streamRequest => exact absurd hbyte (h _ (by decide))

end Sender

/-! ## Channels -/

namespace Script

open Sender (Noisy)

/-- What arrives at one time, with noise among the bytes if there are any. -/
inductive NoisyContent : Content → Content → Prop
  /-- It arrives as before. -/
  | same (content : Content) : NoisyContent content content
  /-- There is noise among the bytes. -/
  | noisy {data data' : Bytes} (hdata : data ≠ []) (h : Noisy data data') :
    NoisyContent (.ok data) (.ok data')

/-- A chunk with noise among its bytes, after the same gap. -/
def NoisyChunk (chunk chunk' : Chunk) : Prop :=
  chunk'.gap = chunk.gap ∧ NoisyContent chunk.content chunk'.content

/-- The same script with noise among the bytes of some chunks. -/
structure Play.Noisy (play play' : Play) : Prop where
  initial : List.Forall₂ NoisyChunk play.initial play'.initial
  replies : List.Forall₂ (List.Forall₂ NoisyChunk) play.replies play'.replies
  rest : List.Forall₂ NoisyChunk play.rest play'.rest
  faults : play'.faults = play.faults

namespace Wire

/-- What is on its way, with noise, arrives at the same times. -/
abbrev NoisyQueue : List (Nat × Content) → List (Nat × Content) → Prop :=
  List.Forall₂ fun part part' => part'.1 = part.1 ∧ NoisyContent part.2 part'.2

/-- A channel with noise. -/
structure Noisy (wire wire' : Wire) : Prop where
  now : wire'.now = wire.now
  writes : wire'.writes = wire.writes
  faults : wire'.faults = wire.faults
  replies : List.Forall₂ (List.Forall₂ NoisyChunk) wire.replies wire'.replies
  rest : List.Forall₂ NoisyChunk wire.rest wire'.rest
  queue : NoisyQueue wire.queue wire'.queue

variable {wire wire' : Wire}

theorem NoisyQueue.times_eq {queue queue' : List (Nat × Content)} (h : NoisyQueue queue queue') :
    queue'.map (·.1) = queue.map (·.1) := by
  induction h with
  | nil => rfl
  | cons hpart _ ih => rw [List.map_cons, List.map_cons, hpart.1, ih]

theorem Noisy.enqueue (h : Noisy wire wire') {chunk chunk' : Chunk}
    (hchunk : NoisyChunk chunk chunk') : Noisy (wire.enqueue chunk) (wire'.enqueue chunk') := by
  have hlast : wire'.queue.getLast?.map (·.1) = wire.queue.getLast?.map (·.1) := by
    rw [← List.getLast?_map, ← List.getLast?_map, h.queue.times_eq]
  refine ⟨h.now, h.writes, h.faults, h.replies, h.rest,
    List.rel_append h.queue (.cons ⟨?_, ?_⟩ .nil)⟩
  · rw [hlast, h.now, hchunk.1]
  · exact hchunk.2

theorem Noisy.foldl_enqueue {chunks chunks' : List Chunk}
    (hchunks : List.Forall₂ NoisyChunk chunks chunks') (h : Noisy wire wire') :
    Noisy (chunks.foldl Wire.enqueue wire) (chunks'.foldl Wire.enqueue wire') := by
  induction hchunks generalizing wire wire' with
  | nil => exact h
  | cons hchunk _ ih => exact ih (h.enqueue hchunk)

theorem noisy_ofPlay {play play' : Play} (h : play.Noisy play') :
    Noisy (ofPlay play) (ofPlay play') :=
  Noisy.foldl_enqueue h.initial ⟨rfl, rfl, h.faults, h.replies, h.rest, .nil⟩

/-- Noise is heard by reading only. -/
theorem covert_noisy : Covert Noisy where
  now h := h.now
  writes h := h.writes
  faults h := h.faults
  write {wire wire'} h data := by
    have hafter : Noisy
        { wire with writes := wire.writes + 1, replies := wire.replies.tail }
        { wire' with writes := wire'.writes + 1, replies := wire'.replies.tail } := by
      refine ⟨h.now, congrArg (· + 1) h.writes, h.faults, ?_, h.rest, h.queue⟩
      rw [← List.drop_one, ← List.drop_one]
      exact List.forall₂_drop 1 h.replies
    have hfault : wire'.nextFault? = wire.nextFault? := by
      rw [nextFault?, nextFault?, h.faults, h.writes]
    unfold Wire.write
    rw [hfault]
    cases wire.nextFault? with
    | none => exact ⟨rfl, hafter.foldl_enqueue (forall₂_headD h.replies h.rest)⟩
    | some fault => cases fault <;> exact ⟨rfl, hafter⟩

/-- A reading takes as long, and brings noise beside what it would have brought. -/
theorem Noisy.read (h : Noisy wire wire') (timeout : Nat) :
    NoisyContent (wire.read timeout).1 (wire'.read timeout).1 ∧
      Noisy (wire.read timeout).2 (wire'.read timeout).2 := by
  have hqueue := h.queue
  have hlate : Noisy { wire with now := wire.now + timeout }
      { wire' with now := wire.now + timeout } :=
    ⟨rfl, h.writes, h.faults, h.replies, h.rest, h.queue⟩
  generalize hbefore : wire.queue = queue at hqueue
  generalize hbefore' : wire'.queue = queue' at hqueue
  cases hqueue with
  | nil =>
    rw [hbefore, hbefore'] at hlate
    simp only [Wire.read, hbefore, hbefore', h.now]
    exact ⟨.same _, hlate⟩
  | @cons part part' queue queue' hpart hrest =>
    obtain ⟨arrival, content⟩ := part
    obtain ⟨arrival', content'⟩ := part'
    obtain ⟨rfl, hcontent⟩ : arrival' = arrival ∧ NoisyContent content content' := hpart
    rw [hbefore, hbefore'] at hlate
    simp only [Wire.read, hbefore, hbefore', h.now]
    split
    · exact ⟨hcontent, rfl, h.writes, h.faults, h.replies, h.rest, hrest⟩
    · exact ⟨.same _, hlate⟩

end Wire

end Script

/-! ## Senders -/

namespace Sender

open Script

variable {κ : Type} {setup : Setup κ} {lag : Nat} {s s' : Sender} {w w' : World κ} {step : Step}
  {task : Line.Task}

/-- Noise is taken out of the queue, and nothing else happens. -/
theorem step_of_noise {byte : UInt8} {pending : Bytes} (hphase : s.phase = .doing step)
    (hplaced : s.Placed step) (htask : step.task? = some task)
    (hpending : s.pending = byte :: pending) (hbyte : IsNoise byte) {ω : Type}
    (env : Surroundings ω) (w : ω) :
    (Sender.act s).step env w = .ok (s.holding pending, w) := by
  have hsingle := hplaced.single htask
  have hlook : task.look s.pending s.moment.now = .settled ⟨some [byte], pending⟩ := by
    rw [hpending]
    rcases hsingle with rfl | ⟨deadline, rfl⟩ <;> rfl
  -- The step is the same as before.
  have hback : ({ s with pending } : Sender).goto step = s.holding pending := by
    rw [Party.goto, ← hphase]
    rfl
  have hsignal := fun signal => @IsNoise.eq_eot byte hbyte signal
  rw [Sender.act, Party.act, hphase, ← hback]
  cases step with
  | listen invitation task' =>
    cases htask
    simp only [Sender.step, Party.listen, hlook, Action.step, heardInvitation]
    cases hfound : Control.ofByte? byte with
    | none => rfl
    | some signal =>
      obtain rfl := hsignal signal hfound
      rfl
  | answer item spare task' =>
    cases htask
    simp only [Sender.step, Party.listen, hlook, Action.step, heardAnswer]
    cases hfound : Control.ofByte? byte with
    | none => rfl
    | some signal =>
      obtain rfl := hsignal signal hfound
      rfl
  | drain piece =>
    cases htask
    simp only [Sender.step, Party.listen, hlook, Action.step, heardInStream]
    rw [if_neg (hbyte .can (by decide))]
  | _ => cases htask

/-- A sender beside one that has noise in its queue. Otherwise they are the same, and there is noise
in what the second one is still to hear. -/
structure Muddled (lag : Nat) (s : Sender) (w : World κ) (s' : Sender) (w' : World κ) : Prop where
  state : s' = s.holding s'.pending
  pending : Noisy s.pending s'.pending
  world : w.Twins Wire.Noisy Eq w'
  placed : ∀ step, s.phase = .doing step → s.Placed step
  /-- There is no more noise than bytes. -/
  length : s'.pending.length = lag

/-- Where nothing is wanted of the line, both do the same. -/
theorem Muddled.abreast_of_idle (h : Muddled lag s w s' w')
    (hidle : ∀ step, s.phase = .doing step → step.task? = none) :
    Action.Abreast Muddled lag s w ((Sender.act s).step (World.surroundings setup) w)
      ((Sender.act s').step (World.surroundings setup) w') := by
  have hact' : Sender.act s' = (Sender.act s).map (·.holding s'.pending) := by
    rw [h.state]
    exact usesQueue.act_holding hidle _
  have hread := usesQueue.act_ne_read h.placed hidle
  have hsame := h.world.step_map Wire.covert_noisy setup (·.holding s'.pending) (a := Sender.act s)
    (fun timeout next hact => absurd hact (hread timeout next))
    (fun file most _ _ => h.world.fetch file most)
  rw [← hact'] at hsame
  rcases hsame with ⟨ending, hstep, hstep'⟩ | ⟨next, w₁, w₁', hstep, hstep', hworld⟩
  · exact .stop ending hstep hstep'
  · refine .both lag next w₁ _ w₁' hstep hstep' ⟨rfl, ?_, hworld, ?_, h.length⟩
    · rw [usesQueue.pending_eq hidle hstep]
      exact h.pending
    · exact (usesQueue.placed_act h.placed).of_step hstep

/-- Where the line is read, what both are brought is taken in alike, but for noise in it. -/
theorem Muddled.abreast_of_read (h : Muddled lag s w s w') (hphase : s.phase = .doing step)
    (htask : step.task? = some task) (hqueue : s.pending = []) :
    Action.Abreast Muddled lag s w ((Sender.act s).step (World.surroundings setup) w)
      ((Sender.act s).step (World.surroundings setup) w') := by
  have hplaced : ∀ {next w₁}, (Sender.act s).step (World.surroundings setup) w = .ok (next, w₁) →
      ∀ step, next.phase = .doing step → next.Placed step :=
    (usesQueue.placed_act h.placed).of_step
  obtain ⟨again, heard, hlistens⟩ := usesQueue.listens htask
  obtain ⟨timeout, hlook⟩ : ∃ timeout, task.look s.pending s.moment.now = .read timeout [] := by
    rw [hqueue]
    rcases (h.placed step hphase).single htask with rfl | ⟨deadline, rfl⟩
    · exact ⟨0, rfl⟩
    · exact ⟨_, rfl⟩
  obtain ⟨hcontent, hwire⟩ := h.world.wire.read timeout
  have hworld := h.world.after_read Wire.covert_noisy setup hwire
  have hmoment := hworld.moment_eq Wire.covert_noisy
  generalize hread : w.read setup timeout = brought at hworld hmoment
  generalize hread' : w'.read setup timeout = brought' at hworld hmoment
  obtain ⟨content, w₁⟩ := brought
  obtain ⟨content', w₁'⟩ := brought'
  rw [show (w.wire.read timeout).1 = content from congrArg Prod.fst hread,
    show (w'.wire.read timeout).1 = content' from congrArg Prod.fst hread'] at hcontent
  cases hcontent with
  | same =>
    -- The same reply at the same moment leads to the same state.
    obtain ⟨next, hnext⟩ : ∃ next, Sender.act s = .read timeout next := by
      rw [Sender.act, hlistens.act_eq hphase, Party.listen, hlook]
      exact ⟨_, rfl⟩
    have hstep : (Sender.act s).step (World.surroundings setup) w =
        .ok (next content w₁.moment, w₁) := by
      rw [hnext]
      simp only [Action.step, World.surroundings, hread]
    have hstep' : (Sender.act s).step (World.surroundings setup) w' =
        .ok (next content w₁.moment, w₁') := by
      rw [hnext, ← hmoment]
      simp only [Action.step, World.surroundings, hread']
    exact .both _ _ w₁ _ w₁' hstep hstep' ⟨rfl, .refl _, hworld, hplaced hstep, rfl⟩
  | @noisy data data' hdata hnoisy =>
    obtain ⟨task', hhear, hhear'⟩ :=
      task.hear_of_ne_nil [] w₁.moment.now hdata (hnoisy.ne_nil hdata)
    rw [← hmoment] at hhear'
    have hstep : (Sender.act s).step (World.surroundings setup) w =
        .ok (({ s with pending := data, moment := w₁.moment } : Sender).goto (again task'), w₁) :=
      hlistens.step_of_hear hphase hlook hread hhear
    have hstep' : (Sender.act s).step (World.surroundings setup) w' =
        .ok (({ s with pending := data', moment := w₁'.moment } : Sender).goto (again task'),
          w₁') :=
      hlistens.step_of_hear hphase hlook hread' hhear'
    rw [hmoment] at hstep'
    exact .both _ _ w₁ _ w₁' hstep hstep' ⟨rfl, hnoisy, hworld, hplaced hstep, rfl⟩

/-- Where a byte is wanted of the line, noise is skipped, and any other byte or what is read is
taken in alike. -/
theorem Muddled.abreast_of_listens (h : Muddled lag s w s' w') (hphase : s.phase = .doing step)
    (htask : step.task? = some task) :
    Action.Abreast Muddled lag s w ((Sender.act s).step (World.surroundings setup) w)
      ((Sender.act s').step (World.surroundings setup) w') := by
  obtain ⟨pending, rfl⟩ : ∃ pending, s' = s.holding pending := ⟨_, h.state⟩
  have hplaced := h.placed step hphase
  have hpending : Noisy s.pending pending := h.pending
  generalize hqueue : s.pending = queue at hpending
  cases hpending with
  | @noise byte _ rest hbyte hrest =>
    -- The byte means nothing.
    have hstep' := @step_of_noise (s.holding (byte :: rest)) step task byte rest hphase
      ⟨hplaced.files_ne_nil, hplaced.timed⟩ htask rfl hbyte _ (World.surroundings setup) w'
    refine .behind rest.length _ w' ?_ hstep' ⟨rfl, hqueue ▸ hrest, h.world, h.placed, rfl⟩
    exact Nat.lt_of_lt_of_eq (Nat.lt_succ_self _) h.length
  | @keep byte rest rest' hrest =>
    -- Both find the same byte.
    obtain ⟨again, heard, hlistens⟩ := usesQueue.listens htask
    have hlook (rest : Bytes) :
        task.look (byte :: rest) s.moment.now = .settled ⟨some [byte], rest⟩ := by
      rcases hplaced.single htask with rfl | ⟨deadline, rfl⟩ <;> rfl
    have hstep := hlistens.step_of_settled hphase (hqueue ▸ hlook rest) (World.surroundings setup) w
    have hstep' := @Party.ListensTo.step_of_settled _ _ _ _ _ _ _ _ (s.holding (byte :: rest')) _ _
      hlistens hphase (hlook rest') (World.surroundings setup) w'
    rw [hlistens.heard_holding] at hstep'
    exact .both rest'.length _ w _ w' hstep hstep' ⟨rfl, hrest, h.world,
      (usesQueue.placed_act h.placed).of_step hstep, rfl⟩
  | nil =>
    have hsame : s.holding [] = s := by
      rw [← hqueue]
      rfl
    rw [hsame] at h ⊢
    exact h.abreast_of_read hphase htask hqueue

/-- The two senders do the same, or the one with noise in its queue gets rid of some. -/
theorem Muddled.abreast (h : Muddled lag s w s' w') :
    Action.Abreast Muddled lag s w ((Sender.act s).step (World.surroundings setup) w)
      ((Sender.act s').step (World.surroundings setup) w') := by
  by_cases hidle : ∀ step, s.phase = .doing step → step.task? = none
  · exact h.abreast_of_idle hidle
  · push Not at hidle
    obtain ⟨step, hphase, htask⟩ := hidle
    obtain ⟨task, htask⟩ := Option.ne_none_iff_exists'.mp htask
    exact h.abreast_of_listens hphase htask

theorem Muddled.alike (h : Muddled lag s w s' w') (ending : Option Ending) :
    Alike ⟨ending, s, w⟩ ⟨ending, s', w'⟩ := by
  refine ⟨rfl, ?_, ?_, ?_, h.world.wire.now⟩
  · rw [h.state]
    rfl
  · rw [h.world.others]
  · rw [h.world.others]

end Sender

/-! ## Scripts -/

/-- Noise on the line to a sender changes nothing of what can be seen: the sender comes to just the
same, by the same writes and reports at the same times. -/
theorem Script.mirrors_of_noise {κ : Type} (setup : Setup κ) (options : Options)
    (files : List FileHeader) (sources : List Source) (sink : κ) {play play' : Play}
    (h : play.Noisy play') :
    let w := World.new setup play sources sink
    let w' := World.new setup play' sources sink
    Mirrors
      (fun acts => Action.run (World.surroundings setup) Sender.act acts
        (Sender.new options files w.moment) w)
      (fun acts => Action.run (World.surroundings setup) Sender.act acts
        (Sender.new options files w'.moment) w') := by
  intro w w'
  have hworld : w.Twins Wire.Noisy Eq w' := ⟨Wire.noisy_ofPlay h, rfl, rfl⟩
  rw [show w'.moment = w.moment from hworld.moment_eq Wire.covert_noisy]
  have hstart : Sender.Muddled 0 (Sender.new options files w.moment) w
      (Sender.new options files w.moment) w' := by
    refine ⟨rfl, .nil, hworld, ?_, rfl⟩
    rintro step ⟨⟩
    exact ⟨nofun, nofun⟩
  exact mirrors_of_simulates Sender.Muddled.abreast (fun h => h.alike) hstart

/-- Noise comes before the invitation, and between the answers to a block and to the end mark. The
end mark itself is noise to a sender. -/
theorem Script.mirrors_of_noise_answers :
    let setup : Setup MemorySink := { sink := MemorySink.sink }
    let options : Options := { protocol := .xmodem, variant := .checksum }
    let play : Play := { initial := [⟨7, .ok [Control.nak.byte]⟩,
      ⟨0, .ok [Control.ack.byte, Control.ack.byte]⟩] }
    let play' : Play := { initial := [⟨7, .ok [0, 255, Control.nak.byte]⟩,
      ⟨0, .ok [Control.ack.byte, Control.eot.byte, Control.ack.byte, 0]⟩] }
    let w := World.new setup play [{ remaining := [97] }] {}
    let w' := World.new setup play' [{ remaining := [97] }] {}
    play.Noisy play' ∧
      Mirrors
        (fun acts => Action.run (World.surroundings setup) Sender.act acts
          (Sender.new options [{ name := "a" }] w.moment) w)
        (fun acts => Action.run (World.surroundings setup) Sender.act acts
          (Sender.new options [{ name := "a" }] w'.moment) w') := by
  intro setup options play play' w w'
  have hinvited : Sender.Noisy [Control.nak.byte] [0, 255, Control.nak.byte] :=
    .noise (by decide) (.noise (by decide) (.refl _))
  have hanswered : Sender.Noisy [Control.ack.byte, Control.ack.byte]
      [Control.ack.byte, Control.eot.byte, Control.ack.byte, 0] :=
    .keep _ (.noise (by decide) (.keep _ (.noise (by decide) .nil)))
  have hnoisy : play.Noisy play' := by
    refine ⟨.cons ⟨rfl, .noisy ?_ hinvited⟩ (.cons ⟨rfl, .noisy ?_ hanswered⟩ .nil),
      .nil, .nil, rfl⟩
    · exact List.cons_ne_nil _ _
    · exact List.cons_ne_nil _ _
  exact ⟨hnoisy, mirrors_of_noise setup options _ _ _ hnoisy⟩

end BlockTransfer
