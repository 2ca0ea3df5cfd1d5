import BlockTransfer.Proofs.Rehearsal
import BlockTransfer.Proofs.Rehearsal.Twins
import Mathlib.Data.List.Forall2

/-!
# Channels that owe pieces

A channel brings bytes in chunks. If what arrives at one time is brought in several pieces instead,
there are times at which the one channel has brought all of it, while the other one still owes some
pieces. These have arrived, so they are there at once when the channel is read. Everything else that
a channel and its surroundings do is the same.

## Main definitions

* `Script.Cuts`: what arrives at one time is cut into pieces.
* `Script.Play.Cuts`: the same script with some chunks cut into pieces.
* `Script.Wire.Owes`: a channel that still owes some pieces.

## Main results

* `Script.Wire.Owes.read_piece`: a piece that is owed is there at once.
* `Script.Wire.Owes.read`: if nothing is owed, a reading brings the same, or the first piece of it.
* `Script.World.Owes.step_map`: acts other than readings do the same.
-/

namespace BlockTransfer

/-! ## Channels -/

namespace Script

/-- Parts of a script or of a queue some of which are cut into pieces. A part is made from a time
and from what is brought at that time; the pieces after the first one have the time `later`. -/
inductive Cuts {α : Type} (part : Nat → Content → α) (later : Nat → Nat) : List α → List α → Prop
  /-- There are no parts. -/
  | nil : Cuts part later [] []
  /-- A part stays whole. -/
  | whole (a : α) {parts parts' : List α} (h : Cuts part later parts parts') :
    Cuts part later (a :: parts) (a :: parts')
  /-- A part is cut into pieces with something in each of them. -/
  | cut (time : Nat) {first : Bytes} {pieces : List Bytes} {parts parts' : List α}
      (hfirst : first ≠ []) (hpieces : [] ∉ pieces) (h : Cuts part later parts parts') :
    Cuts part later (part time (.ok (first ++ pieces.flatten)) :: parts)
      (part time (.ok first) :: (pieces.map fun piece => part (later time) (.ok piece)) ++ parts')

/-- Chunks some of which are cut into pieces that come right after each other. -/
abbrev ChunksCut : List Chunk → List Chunk → Prop :=
  Cuts Chunk.mk fun _ => 0

/-- What is on its way, some of it cut into pieces that arrive at the same time. -/
abbrev QueueCut : List (Nat × Content) → List (Nat × Content) → Prop :=
  Cuts Prod.mk id

/-- The same script with some of its chunks cut into pieces. -/
structure Play.Cuts (play play' : Play) : Prop where
  initial : ChunksCut play.initial play'.initial
  replies : List.Forall₂ ChunksCut play.replies play'.replies
  rest : ChunksCut play.rest play'.rest
  faults : play'.faults = play.faults

theorem Cuts.concat_whole {α : Type} {part : Nat → Content → α} {later : Nat → Nat}
    {parts parts' : List α} (h : Cuts part later parts parts') (a : α) :
    Cuts part later (parts ++ [a]) (parts' ++ [a]) := by
  induction h with
  | nil => exact .whole a .nil
  | whole b _ ih => exact .whole b ih
  | cut time hfirst hpieces _ ih =>
    simpa only [List.append_assoc, List.cons_append] using Cuts.cut time hfirst hpieces ih

theorem Cuts.concat_cut {α : Type} {part : Nat → Content → α} {later : Nat → Nat}
    {parts parts' : List α} (h : Cuts part later parts parts') (time : Nat) {first : Bytes}
    {pieces : List Bytes} (hfirst : first ≠ []) (hpieces : [] ∉ pieces) :
    Cuts part later (parts ++ [part time (.ok (first ++ pieces.flatten))])
      (parts' ++ part time (.ok first) ::
        pieces.map fun piece => part (later time) (.ok piece)) := by
  induction h with
  | nil =>
    rw [List.nil_append, List.nil_append, ← List.append_nil (List.map _ _), ← List.cons_append]
    exact .cut time hfirst hpieces .nil
  | whole b _ ih => exact .whole b ih
  | cut time' hfirst' hpieces' _ ih =>
    simpa only [List.append_assoc, List.cons_append] using Cuts.cut time' hfirst' hpieces' ih

/-- What comes last on the way arrives at the same time, whether or not it is cut. -/
theorem QueueCut.getLast? {queue queue' : List (Nat × Content)} (h : QueueCut queue queue') :
    queue'.getLast?.map (·.1) = queue.getLast?.map (·.1) := by
  simp only [← List.getLast?_map]
  induction h with
  | nil => rfl
  | whole part _ ih => simp only [List.map_cons, List.getLast?_cons, ih]
  | @cut time first pieces queue queue' _ _ _ ih =>
    -- All pieces have the time of what is cut.
    have hpieces : List.map (fun part : Nat × Content => part.1)
        ((time, .ok first) :: pieces.map fun piece => (id time, .ok piece)) =
          List.replicate (pieces.length + 1) time := by
      simp [List.replicate_succ, Function.comp_def, List.map_const']
    rw [List.map_append, hpieces, List.getLast?_append, ih,
      List.getLast?_replicate, List.map_cons, List.getLast?_cons]
    cases (queue.map fun part => part.1).getLast? <;> simp

namespace Wire

variable {owed pieces : List Bytes} {piece first : Bytes} {wire wire' : Wire}

/-- A channel that still owes some pieces which another one has brought already. The pieces have
arrived. Otherwise the two are the same, but that what is on its way is cut into pieces. -/
structure Owes (owed : List Bytes) (wire wire' : Wire) : Prop where
  now : wire'.now = wire.now
  writes : wire'.writes = wire.writes
  faults : wire'.faults = wire.faults
  replies : List.Forall₂ ChunksCut wire.replies wire'.replies
  rest : ChunksCut wire.rest wire'.rest
  solid : [] ∉ owed
  queue : ∃ arrival queue', arrival ≤ wire.now ∧
    wire'.queue = (owed.map fun piece => (arrival, .ok piece)) ++ queue' ∧
    QueueCut wire.queue queue'

/-- The time before which nothing that is queued arrives. -/
def latest (wire : Wire) : Nat :=
  max ((wire.queue.getLast?.map (·.1)).getD 0) wire.now

theorem Owes.latest_eq (h : Owes owed wire wire') : wire'.latest = wire.latest := by
  obtain ⟨arrival, queue', harrival, hqueue, hcut⟩ := h.queue
  rw [latest, latest, h.now, hqueue, List.getLast?_append]
  have hlast := hcut.getLast?
  cases hqueue' : queue'.getLast? with
  | some part =>
    rw [hqueue'] at hlast
    rw [Option.some_or, hlast]
  | none =>
    -- Nothing is on its way, and what is owed has arrived.
    rw [hqueue'] at hlast
    rw [← hlast, Option.none_or]
    cases howed : (owed.map fun piece => (arrival, (.ok piece : Content))).getLast? with
    | none => rfl
    | some part =>
      obtain ⟨piece, -, rfl⟩ := List.mem_map.mp (List.mem_of_getLast? howed)
      simpa using harrival

theorem Owes.enqueue (h : Owes owed wire wire') (chunk : Chunk) :
    Owes owed (wire.enqueue chunk) (wire'.enqueue chunk) := by
  obtain ⟨arrival, queue', harrival, hqueue, hcut⟩ := h.queue
  have hlatest := h.latest_eq
  refine ⟨h.now, h.writes, h.faults, h.replies, h.rest, h.solid,
    arrival, queue' ++ [(wire.latest + chunk.gap, chunk.content)], harrival, ?_,
    hcut.concat_whole _⟩
  rw [← hlatest, ← List.append_assoc, ← hqueue]
  rfl

/-- Pieces without gaps arrive at the same time as what is before them. -/
theorem foldl_enqueue_pieces {before : List (Nat × Content)} {arrival : Nat} {content : Content}
    (hqueue : wire.queue = before ++ [(arrival, content)]) (hnow : wire.now ≤ arrival) :
    (pieces.map fun piece => Chunk.mk 0 (.ok piece)).foldl Wire.enqueue wire =
      { wire with queue := wire.queue ++ pieces.map fun piece => (arrival, .ok piece) } := by
  induction pieces generalizing wire before content with
  | nil => simp
  | cons piece pieces ih =>
    have hnext : wire.enqueue ⟨0, .ok piece⟩ =
        { wire with queue := wire.queue ++ [(arrival, .ok piece)] } := by
      simp [Wire.enqueue, hqueue, hnow]
    rw [List.map_cons, List.foldl_cons, hnext,
      @ih { wire with queue := wire.queue ++ [(arrival, .ok piece)] } _ _ rfl hnow]
    simp

theorem Owes.enqueue_cut (h : Owes owed wire wire') (gap : Nat) (hfirst : first ≠ [])
    (hpieces : [] ∉ pieces) :
    Owes owed (wire.enqueue ⟨gap, .ok (first ++ pieces.flatten)⟩)
      ((⟨gap, .ok first⟩ :: pieces.map fun piece => Chunk.mk 0 (.ok piece)).foldl Wire.enqueue
        wire') := by
  obtain ⟨arrival, queue', harrival, hqueue, hcut⟩ := h.queue
  have hfold : (⟨gap, .ok first⟩ :: pieces.map fun piece => Chunk.mk 0 (.ok piece)).foldl
      Wire.enqueue wire' = { wire' with
        queue := wire'.queue ++ (wire.latest + gap, .ok first) ::
          pieces.map fun piece => (wire.latest + gap, .ok piece) } := by
    rw [List.foldl_cons, foldl_enqueue_pieces rfl, ← h.latest_eq]
    · simp [Wire.enqueue, latest]
    · exact (Nat.le_max_right _ _).trans (Nat.le_add_right _ _)
  rw [hfold]
  refine ⟨h.now, h.writes, h.faults, h.replies, h.rest, h.solid, arrival, _, harrival, ?_,
    hcut.concat_cut (wire.latest + gap) hfirst hpieces⟩
  rw [← List.append_assoc, ← hqueue]
  rfl

/-- What is owed stays the same when more is queued. -/
theorem Owes.foldl_enqueue {chunks chunks' : List Chunk} (hchunks : ChunksCut chunks chunks')
    (h : Owes owed wire wire') :
    Owes owed (chunks.foldl Wire.enqueue wire) (chunks'.foldl Wire.enqueue wire') := by
  induction hchunks generalizing wire wire' with
  | nil => exact h
  | whole chunk _ ih => exact ih (h.enqueue chunk)
  | cut gap hfirst hpieces _ ih =>
    rw [List.foldl_cons, List.foldl_append]
    exact ih (h.enqueue_cut gap hfirst hpieces)

/-- At the beginning nothing is owed. -/
theorem owes_ofPlay {play play' : Play} (h : play.Cuts play') :
    Owes [] (ofPlay play) (ofPlay play') := by
  refine Owes.foldl_enqueue h.initial ⟨rfl, rfl, h.faults, h.replies, h.rest, List.not_mem_nil, ?_⟩
  exact ⟨0, [], Nat.le_refl _, rfl, .nil⟩

theorem forall₂_headD {α β : Type} {r : α → β → Prop} {l : List α} {l' : List β} {a : α} {b : β}
    (h : List.Forall₂ r l l') (hdefault : r a b) : r (l.headD a) (l'.headD b) := by
  cases h with
  | nil => exact hdefault
  | cons hfirst _ => exact hfirst

/-- A write queues the same for both. -/
theorem Owes.write (h : Owes owed wire wire') (data : Bytes) :
    (wire'.write data).1 = (wire.write data).1 ∧
      Owes owed (wire.write data).2 (wire'.write data).2 := by
  have hafter : Owes owed
      { wire with writes := wire.writes + 1, replies := wire.replies.tail }
      { wire' with writes := wire'.writes + 1, replies := wire'.replies.tail } := by
    refine ⟨h.now, congrArg (· + 1) h.writes, h.faults, ?_, h.rest, h.solid, h.queue⟩
    rw [← List.drop_one, ← List.drop_one]
    exact List.forall₂_drop 1 h.replies
  have hreply := forall₂_headD h.replies h.rest
  have hfault : wire'.nextFault? = wire.nextFault? := by
    rw [nextFault?, nextFault?, h.faults, h.writes]
  unfold Wire.write
  rw [hfault]
  cases wire.nextFault? with
  | none => exact ⟨rfl, hafter.foldl_enqueue hreply⟩
  | some fault => cases fault <;> exact ⟨rfl, hafter⟩

/-- What a channel owes is seen by reading only. -/
theorem covert_owes (owed : List Bytes) : Covert (Owes owed) where
  now h := h.now
  writes h := h.writes
  faults h := h.faults
  write h := h.write

/-- A piece that is owed is there at once. -/
theorem Owes.read_piece (h : Owes (piece :: owed) wire wire') (timeout : Nat) :
    ∃ wire'', wire'.read timeout = (.ok piece, wire'') ∧ Owes owed wire wire'' := by
  obtain ⟨arrival, queue', harrival, hqueue, hcut⟩ := h.queue
  have htime : arrival ≤ wire'.now + timeout := by
    rw [h.now]
    omega
  refine ⟨{ wire' with
      now := max wire'.now arrival
      queue := (owed.map fun piece => (arrival, .ok piece)) ++ queue' },
    by simp [Wire.read, hqueue, htime], ?_, h.writes, h.faults, h.replies, h.rest,
    fun hmem => h.solid (List.mem_cons_of_mem _ hmem), arrival, queue', harrival, rfl, hcut⟩
  rw [h.now]
  exact Nat.max_eq_left harrival

/-- What two channels bring of which one is cut: the same, or the first piece of it. -/
inductive Brings : Content → Content → List Bytes → Prop
  /-- They bring the same. -/
  | same (content : Content) : Brings content content []
  /-- The second one brings a piece only. -/
  | piece (first : Bytes) (pieces : List Bytes) (hfirst : first ≠ []) :
    Brings (.ok (first ++ pieces.flatten)) (.ok first) pieces

/-- If nothing is owed, both channels bring the same at the same time, or the second one brings the
first piece of it and owes the others. -/
theorem Owes.read (h : Owes [] wire wire') (timeout : Nat) :
    ∃ owed, Brings (wire.read timeout).1 (wire'.read timeout).1 owed ∧
      Owes owed (wire.read timeout).2 (wire'.read timeout).2 := by
  obtain ⟨_, queue', -, hqueue, hcut⟩ := h.queue
  rw [List.map_nil, List.nil_append] at hqueue
  have hlate : Owes [] { wire with now := wire.now + timeout }
      { wire' with now := wire.now + timeout } :=
    ⟨rfl, h.writes, h.faults, h.replies, h.rest, List.not_mem_nil, 0, queue', Nat.zero_le _,
      hqueue, hcut⟩
  rw [hqueue] at hlate
  generalize hbefore : wire.queue = queue at hcut hlate
  cases hcut with
  | nil =>
    simp only [Wire.read, hqueue, hbefore, h.now]
    exact ⟨[], .same _, hlate⟩
  | whole part hrest =>
    obtain ⟨arrival, content⟩ := part
    simp only [Wire.read, hqueue, hbefore, h.now]
    split
    · exact ⟨[], .same _, rfl, h.writes, h.faults, h.replies, h.rest, List.not_mem_nil,
        0, _, Nat.zero_le _, rfl, hrest⟩
    · exact ⟨[], .same _, hlate⟩
  | @cut arrival first pieces _ _ hfirst hpieces hrest =>
    simp only [Wire.read, hqueue, hbefore, h.now, List.cons_append]
    split
    · exact ⟨pieces, .piece first pieces hfirst, rfl, h.writes, h.faults, h.replies, h.rest,
        hpieces, arrival, _, Nat.le_max_right _ _, rfl, hrest⟩
    · exact ⟨[], .same _, hlate⟩

end Wire

/-! ## Surroundings -/

namespace World

variable {κ : Type} {setup : Setup κ} {owed : List Bytes} {piece : Bytes} {w w' : World κ}

/-- Surroundings that differ in that a channel still owes some pieces. -/
structure Owes (owed : List Bytes) (w w' : World κ) : Prop where
  wire : w.wire.Owes owed w'.wire
  others : w' = { w with wire := w'.wire }

/-- A stop is requested if it is so late that it should be. -/
def Punctual (setup : Setup κ) (w : World κ) : Prop :=
  ∀ millis, setup.trigger = some (.time millis) → millis ≤ w.wire.now → w.abort = true

/-- Surroundings that differ in that a channel still owes some pieces read their files alike. -/
theorem Owes.twins (h : w.Owes owed w') : w.Twins (Wire.Owes owed) Eq w' where
  wire := h.wire
  sources := by rw [h.others]
  others := by
    conv_lhs => rw [h.others]
    rw [h.others]

theorem owes_of_twins (h : w.Twins (Wire.Owes owed) Eq w') : w.Owes owed w' where
  wire := h.wire
  others := by
    conv_lhs => rw [h.others, ← h.sources]

theorem Owes.moment_eq (h : w.Owes owed w') : w'.moment = w.moment :=
  h.twins.moment_eq (Wire.covert_owes owed)

/-- Whether it is so late that a stop is requested is found out with every reading. -/
theorem punctual_read (setup : Setup κ) (w : World κ) (timeout : Nat) :
    (w.read setup timeout).2.Punctual setup := by
  intro millis htrigger hmillis
  have hlate : millis ≤ (w.wire.read timeout).2.now := hmillis
  simp [World.read, abortIf, htrigger, hlate]

/-- Time goes by only over readings. -/
theorem Punctual.of_replies {event : Event} (h : w.Punctual setup)
    (hreplies : (surroundings setup).Replies w event w')
    (hread : ∀ timeout reply, event ≠ .read timeout reply) : w'.Punctual setup := by
  have hnow : w'.wire.now = w.wire.now := by
    rcases wire_of_replies hreplies with
      ⟨timeout, hevent, -⟩ | ⟨data, reply, -, hwire⟩ | ⟨-, -, hwire⟩
    · exact absurd hevent (hread _ _)
    · rw [hwire, Wire.now_write]
    · rw [hwire]
  intro millis htrigger hmillis
  rw [hnow] at hmillis
  exact abort_of_replies hreplies (h millis htrigger hmillis)

/-- A piece that is owed is there at once, and no stop is requested meanwhile. -/
theorem Owes.read_piece (h : w.Owes (piece :: owed) w') (hpunctual : w.Punctual setup)
    (timeout : Nat) :
    ∃ w'', w'.read setup timeout = (.ok piece, w'') ∧ w.Owes owed w'' := by
  obtain ⟨wire, hread, hwire⟩ := h.wire.read_piece timeout
  refine ⟨{ w with wire }, ?_, hwire, rfl⟩
  rw [h.others]
  simp only [World.read, hread, abortIf, hwire.now, Prod.mk.injEq, true_and, World.mk.injEq,
    and_true, Bool.or_eq_left_iff_imp]
  -- It is not later than before.
  cases htrigger : setup.trigger with
  | none => exact Bool.noConfusion
  | some trigger =>
    cases trigger with
    | time millis => exact fun hlate => hpunctual millis htrigger (of_decide_eq_true hlate)
    | start | write | report | store => exact Bool.noConfusion

/-- If nothing is owed, a reading brings the same, or the first piece of it. -/
theorem Owes.read (h : w.Owes [] w') (setup : Setup κ) (timeout : Nat) :
    ∃ owed, Wire.Brings (w.read setup timeout).1 (w'.read setup timeout).1 owed ∧
      (w.read setup timeout).2.Owes owed (w'.read setup timeout).2 := by
  obtain ⟨owed, hbrings, hwire⟩ := h.wire.read timeout
  exact ⟨owed, hbrings, owes_of_twins (h.twins.after_read (Wire.covert_owes owed) setup hwire)⟩

/-- Acts other than readings do the same on both sides. -/
theorem Owes.step_map {σ τ : Type} (h : w.Owes owed w') (setup : Setup κ) (f : σ → τ) {a : Action σ}
    (hread : ∀ timeout next, a ≠ .read timeout next) :
    (∃ ending, a.step (surroundings setup) w = .error ending ∧
        (a.map f).step (surroundings setup) w' = .error ending) ∨
      ∃ next w₁ w₁', a.step (surroundings setup) w = .ok (next, w₁) ∧
        (a.map f).step (surroundings setup) w' = .ok (f next, w₁') ∧ w₁.Owes owed w₁' := by
  have hsame := h.twins.step_map (Wire.covert_owes owed) setup f (a := a)
    (fun timeout next hact => absurd hact (hread timeout next))
    (fun file most _ _ => h.twins.fetch file most)
  refine hsame.imp_right ?_
  rintro ⟨next, w₁, w₁', hstep, hstep', htwins⟩
  exact ⟨next, w₁, w₁', hstep, hstep', owes_of_twins htwins⟩

end World

end Script

end BlockTransfer
