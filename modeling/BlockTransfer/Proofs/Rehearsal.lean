import BlockTransfer.Proofs.Patience
import BlockTransfer.Script.Rehearsal
import Mathlib.Algebra.GroupWithZero.Nat

/-!
# Rehearsals are patient

The script of a channel lays down finitely many bytes for each write, and a scripted file has
finitely many bytes. So a rehearsal keeps no party waiting for ever, if there is something in
everything that arrives.

## Main definitions

* `Wire.Substantial`: there is something in everything that arrives.
* `Wire.queued`: the number of bytes on their way.
* `World.supply`: what is left to be read of the files.

## Main results

* `World.patient` and `World.supplies`: the surroundings of a rehearsal are patient and finite.
-/

namespace BlockTransfer.Script

/-! ## Channels -/

namespace Wire

/-- The number of bytes on their way. -/
def queued (wire : Wire) : Nat :=
  (wire.queue.map fun part => match part.2 with
    | .ok data => data.length
    | .error _ => 0).sum

/-- There is something in everything that arrives. -/
structure Substantial (wire : Wire) : Prop where
  queue : ∀ part ∈ wire.queue, part.2 ≠ .ok []
  replies : ∀ chunks ∈ wire.replies, ∀ chunk ∈ chunks, chunk.content ≠ .ok []
  rest : ∀ chunk ∈ wire.rest, chunk.content ≠ .ok []

theorem Substantial.enqueue {wire : Wire} (h : wire.Substantial) {chunk : Chunk}
    (hchunk : chunk.content ≠ .ok []) : (wire.enqueue chunk).Substantial := by
  refine ⟨?_, h.replies, h.rest⟩
  exact List.forall_mem_append.mpr ⟨h.queue, List.forall_mem_singleton.mpr hchunk⟩

theorem Substantial.foldl_enqueue {wire : Wire} (h : wire.Substantial) {chunks : List Chunk}
    (hchunks : ∀ chunk ∈ chunks, chunk.content ≠ .ok []) :
    (chunks.foldl Wire.enqueue wire).Substantial := by
  induction chunks generalizing wire with
  | nil => exact h
  | cons chunk chunks ih =>
    have hfirst := hchunks chunk List.mem_cons_self
    exact ih (h.enqueue hfirst) fun chunk hchunk => hchunks chunk (List.mem_cons_of_mem _ hchunk)

/-- A channel that begins to follow a script with something in everything. -/
theorem substantial_ofPlay {play : Play} (hinitial : ∀ chunk ∈ play.initial, chunk.content ≠ .ok [])
    (hreplies : ∀ chunks ∈ play.replies, ∀ chunk ∈ chunks, chunk.content ≠ .ok [])
    (hrest : ∀ chunk ∈ play.rest, chunk.content ≠ .ok []) : (ofPlay play).Substantial := by
  refine Substantial.foldl_enqueue ⟨?_, hreplies, hrest⟩ hinitial
  exact List.forall_mem_nil _

theorem Substantial.write {wire : Wire} (h : wire.Substantial) (data : Bytes) :
    (wire.write data).2.Substantial := by
  -- The script of this write is used up before anything is sent on its way.
  have hafter : ({ wire with writes := wire.writes + 1, replies := wire.replies.tail } :
      Wire).Substantial :=
    ⟨h.queue, fun chunks hchunks => h.replies chunks (List.mem_of_mem_tail hchunks), h.rest⟩
  unfold Wire.write
  dsimp only
  split
  · exact hafter
  · exact hafter
  · refine hafter.foldl_enqueue ?_
    cases hreplies : wire.replies with
    | nil => exact h.rest
    | cons reply replies => exact h.replies reply (by simp [hreplies])

/-- A reading leaves what it does not bring. -/
theorem Substantial.read {wire : Wire} (h : wire.Substantial) (timeout : Nat) :
    (wire.read timeout).2.Substantial := by
  unfold Wire.read
  split
  · rename_i arrival content queue hqueue
    split
    · refine ⟨fun part hpart => h.queue part ?_, h.replies, h.rest⟩
      rw [hqueue]
      exact List.mem_cons_of_mem _ hpart
    · exact ⟨h.queue, h.replies, h.rest⟩
  · exact ⟨h.queue, h.replies, h.rest⟩

theorem queued_read_le (wire : Wire) (timeout : Nat) :
    (wire.read timeout).2.queued +
      (Event.read timeout (wire.read timeout).1).arrived.length ≤ wire.queued := by
  unfold Wire.read
  split
  · rename_i arrival content queue hqueue
    split
    · simp only [queued, hqueue, List.map_cons, List.sum_cons]
      cases content <;> simp [Event.arrived, Nat.add_comm]
    · exact Nat.le_refl _
  · exact Nat.le_refl _

/-- A reading that brings nothing has taken all the time that it may. -/
theorem Substantial.now_read {wire : Wire} (h : wire.Substantial) {timeout : Nat}
    (hvain : (wire.read timeout).1 = .ok []) :
    (wire.read timeout).2.now = wire.now + timeout := by
  unfold Wire.read at hvain ⊢
  split
  · rename_i arrival content queue hqueue
    rw [hqueue] at hvain
    dsimp only at hvain
    split
    · -- Something is on its way that is there in time, and there is something in it.
      rename_i harrival
      rw [if_pos harrival] at hvain
      exact absurd hvain (h.queue (arrival, content) (by simp [hqueue]))
    · rfl
  · rfl

theorem now_foldl_enqueue (wire : Wire) (chunks : List Chunk) :
    (chunks.foldl Wire.enqueue wire).now = wire.now := by
  induction chunks generalizing wire with
  | nil => rfl
  | cons chunk chunks ih => exact ih (wire.enqueue chunk)

/-- No time goes by over a write. -/
theorem now_write (wire : Wire) (data : Bytes) : (wire.write data).2.now = wire.now := by
  unfold Wire.write
  split
  · rfl
  · rfl
  · exact now_foldl_enqueue _ _

end Wire

/-! ## Files -/

namespace Source

/-- What is left to be read of a file: its bytes, and the failures on the way. -/
def supply (source : Source) : Nat :=
  source.remaining.length + source.faults.length

/-- A reading that brings something or is interrupted leaves less to be read. -/
theorem supply_fetch_le (source : Source) (file most : Nat) :
    (source.fetch most).2.supply +
      (Event.fetch file most (source.fetch most).1).feeds.toNat ≤ source.supply := by
  have hgive : ∀ data : Bytes, data = source.remaining.take (source.limit most) →
      (source.remaining.drop data.length).length + (!data.isEmpty).toNat ≤
        source.remaining.length := by
    rintro data hdata
    have hle : data.length ≤ source.remaining.length := by
      rw [hdata]
      exact List.length_take_le' _ _
    rw [List.length_drop]
    cases data with
    | nil => simp
    | cons byte data =>
      simp only [List.length_cons] at hle ⊢
      simp only [List.isEmpty_cons, Bool.not_false, Bool.toNat_true]
      omega
  have hgive' := hgive _ rfl
  unfold fetch
  split
  · simp only [supply, Event.feeds]
    omega
  · rename_i place e faults hfaults
    split
    · -- The failure is used up, and nothing has been read.
      have hinterrupted := Bool.toNat_le (decide (e.kind = .interrupted))
      simp only [supply, Event.feeds, hfaults, List.length_cons]
      omega
    · simp only [supply, Event.feeds]
      omega

end Source

/-! ## Surroundings -/

/-- What becomes of a sum if one term is replaced. -/
theorem sum_map_set {α : Type} (f : α → Nat) {l : List α} {i : Nat} {a : α} (h : l[i]? = some a)
    (b : α) : ((l.set i b).map f).sum + f a = (l.map f).sum + f b := by
  induction l generalizing i with
  | nil => cases h
  | cons c l ih =>
    cases i with
    | zero =>
      cases h
      simp only [List.set_cons_zero, List.map_cons, List.sum_cons]
      omega
    | succ i =>
      have hrest := ih h
      simp only [List.set_cons_succ, List.map_cons, List.sum_cons]
      omega

namespace World

variable {κ : Type}

/-- What is left to be read of the files. -/
def supply (w : World κ) : Nat :=
  (w.sources.map Source.supply).sum

theorem wire_call (setup : Setup κ) (w : World κ) (call : Call) (entry : Entry)
    (run : κ → Except IoError Unit × κ) : (w.call setup call entry run).2.wire = w.wire := by
  unfold World.call
  dsimp only
  split
  · rfl
  · dsimp only
    split <;> rfl

theorem sources_call (setup : Setup κ) (w : World κ) (call : Call) (entry : Entry)
    (run : κ → Except IoError Unit × κ) : (w.call setup call entry run).2.sources = w.sources := by
  unfold World.call
  dsimp only
  split
  · rfl
  · dsimp only
    split <;> rfl

theorem wire_report (setup : Setup κ) (w : World κ) (progress : Progress) :
    (w.report setup progress).wire = w.wire := by
  unfold World.report
  split <;> rfl

theorem sources_report (setup : Setup κ) (w : World κ) (progress : Progress) :
    (w.report setup progress).sources = w.sources := by
  unfold World.report
  split <;> rfl

theorem wire_fetch (w : World κ) (file most : Nat) : (w.fetch file most).2.wire = w.wire := by
  unfold World.fetch
  split <;> rfl

/-- What is left to be read depends on the files only. -/
theorem supply_congr {w w' : World κ} (h : w'.sources = w.sources) : w'.supply = w.supply := by
  rw [supply, supply, h]

/-- A file stays as it is unless it is read. -/
theorem sources_of_replies {setup : Setup κ} {w w' : World κ} {event : Event}
    (h : (surroundings setup).Replies w event w') {file : Nat}
    (hfetch : ∀ most reply, event ≠ .fetch file most reply) :
    w'.sources[file]? = w.sources[file]? := by
  cases h with
  | silent | read | write => rfl
  | fetch file' most =>
    have hne : file' ≠ file := by
      rintro rfl
      exact hfetch most _ rfl
    change (w.fetch file' most).2.sources[file]? = _
    unfold World.fetch
    cases w.sources[file']? with
    | none => rfl
    | some source => exact List.getElem?_set_ne hne
  | report progress => exact congrArg (·[file]?) (sources_report setup w progress)
  | openFile | store | closeFile => exact congrArg (·[file]?) (sources_call setup _ _ _ _)

/-- Only reading and writing change the channel. -/
theorem wire_of_replies {setup : Setup κ} {w w' : World κ} {event : Event}
    (h : (surroundings setup).Replies w event w') :
    (∃ timeout, event = .read timeout (w.wire.read timeout).1 ∧
        w'.wire = (w.wire.read timeout).2) ∨
      (∃ data reply, event = .write data reply ∧ w'.wire = (w.wire.write data).2) ∨
      event.arrived = [] ∧ (∀ timeout reply, event ≠ .read timeout reply) ∧ w'.wire = w.wire := by
  cases h with
  | silent => exact .inr (.inr ⟨rfl, nofun, rfl⟩)
  | read timeout => exact .inl ⟨timeout, rfl, rfl⟩
  | write data => exact .inr (.inl ⟨data, _, rfl, rfl⟩)
  | report progress => exact .inr (.inr ⟨rfl, nofun, wire_report setup w progress⟩)
  | fetch file most => exact .inr (.inr ⟨rfl, nofun, wire_fetch w file most⟩)
  | openFile | store | closeFile => exact .inr (.inr ⟨rfl, nofun, wire_call setup _ _ _ _⟩)

/-- A rehearsal keeps no party waiting for ever. -/
theorem patient (setup : Setup κ) :
    (surroundings setup).Patient (fun w => w.wire.Substantial) fun w => w.wire.queued where
  good_of_replies hgood h := by
    rcases wire_of_replies h with ⟨timeout, -, hwire⟩ | ⟨data, reply, -, hwire⟩ | ⟨-, -, hwire⟩
    · rw [hwire]
      exact hgood.read timeout
    · rw [hwire]
      exact hgood.write data
    · rwa [hwire]
  queued_le hgood h hevent := by
    rcases wire_of_replies h with
      ⟨timeout, rfl, hwire⟩ | ⟨data, reply, rfl, -⟩ | ⟨harrived, -, hwire⟩
    · rw [hwire]
      exact Wire.queued_read_le _ timeout
    · exact absurd rfl (hevent data reply)
    · rw [hwire, harrived]
      exact Nat.le_refl _
  now_eq hgood h := by
    rcases wire_of_replies h with
      ⟨timeout, hevent, hwire⟩ | ⟨data, reply, hevent, -⟩ | ⟨-, hevent, -⟩
    · have hmoment : ∀ w : World κ, ((surroundings setup).moment w).now = w.wire.now := fun _ => rfl
      simp only [Event.read.injEq] at hevent
      obtain ⟨rfl, hvain⟩ := hevent
      rw [hmoment, hmoment, hwire]
      exact hgood.now_read hvain.symm
    · cases hevent
    · exact absurd rfl (hevent _ _)

theorem abort_call (setup : Setup κ) (w : World κ) (call : Call) (entry : Entry)
    (run : κ → Except IoError Unit × κ) : (w.call setup call entry run).2.abort = w.abort := by
  unfold World.call
  dsimp only
  split
  · rfl
  · dsimp only
    split <;> rfl

/-- A request to stop that has been made in a rehearsal stays. -/
theorem abort_of_replies {setup : Setup κ} {w w' : World κ} {event : Event}
    (h : (surroundings setup).Replies w event w') (habort : w.abort = true) : w'.abort = true := by
  cases h with
  | silent => exact habort
  | read timeout => exact Bool.or_eq_true_iff.mpr (.inl habort)
  | write data => exact Bool.or_eq_true_iff.mpr (.inl habort)
  | report progress =>
    simp only [surroundings, World.report]
    split
    · exact Bool.or_eq_true_iff.mpr (.inl habort)
    · exact habort
  | fetch file most =>
    simp only [surroundings, World.fetch]
    split <;> exact habort
  | openFile | closeFile => rwa [surroundings, abort_call]
  | store data =>
    simp only [surroundings, World.store]
    rw [abort_call]
    exact Bool.or_eq_true_iff.mpr (.inl habort)

/-- A reading that brings something or is interrupted leaves less to be read. -/
theorem supply_fetch_le (w : World κ) (file most : Nat) :
    (w.fetch file most).2.supply +
      (Event.fetch file most (w.fetch file most).1).feeds.toNat ≤ w.supply := by
  unfold World.fetch
  cases hsource : w.sources[file]? with
  | none => exact Nat.le_refl _
  | some source =>
    have hsum := sum_map_set Source.supply hsource (source.fetch most).2
    have hless := source.supply_fetch_le file most
    simp only [supply]
    omega

/-- The files of a rehearsal come to an end. -/
theorem supplies (setup : Setup κ) (good : World κ → Prop) :
    (surroundings setup).Supplies good supply where
  supply_le := by
    intro w w' event _ h
    cases h with
    | silent | read | write => exact Nat.le_refl _
    | fetch file most => exact supply_fetch_le w file most
    | report progress => exact (supply_congr (sources_report setup w progress)).le
    | openFile | store | closeFile => exact (supply_congr (sources_call setup _ _ _ _)).le

end World

/-! ## Requests while a file is read -/

section StopInFetch

variable {ω : Type} {env : Surroundings ω} {number : Nat} {w w' : ω × Nat} {event : Event}

/-- The readings of files are counted beside what the surroundings do. -/
theorem replies_of_stopInFetch (h : (stopInFetch env number).Replies w event w') :
    env.Replies w.1 event w'.1 ∧ w.2 ≤ w'.2 := by
  cases h with
  | silent => exact ⟨.silent, Nat.le_refl _⟩
  | read timeout => exact ⟨.read timeout, Nat.le_refl _⟩
  | write data => exact ⟨.write data, Nat.le_refl _⟩
  | report progress => exact ⟨.report progress, Nat.le_refl _⟩
  | fetch file most => exact ⟨.fetch file most, Nat.le_succ _⟩
  | openFile header => exact ⟨.openFile header, Nat.le_refl _⟩
  | store data => exact ⟨.store data, Nat.le_refl _⟩
  | closeFile file => exact ⟨.closeFile file, Nat.le_refl _⟩

theorem patient_stopInFetch {good : ω → Prop} {queued : ω → Nat} (h : env.Patient good queued)
    (number : Nat) : (stopInFetch env number).Patient (fun w => good w.1) fun w => queued w.1 where
  good_of_replies hgood hreplies := h.good_of_replies hgood (replies_of_stopInFetch hreplies).1
  queued_le hgood hreplies := h.queued_le hgood (replies_of_stopInFetch hreplies).1
  now_eq hgood hreplies := h.now_eq hgood (replies_of_stopInFetch hreplies).1

theorem supplies_stopInFetch {good : ω → Prop} {supply : ω → Nat} (h : env.Supplies good supply)
    (number : Nat) : (stopInFetch env number).Supplies (fun w => good w.1) fun w => supply w.1 where
  supply_le hgood hreplies := h.supply_le hgood (replies_of_stopInFetch hreplies).1

/-- A request stays if those stay that the surroundings show anyway. -/
theorem abort_of_stopInFetch
    (hstays : ∀ {w w' : ω} {event : Event}, env.Replies w event w' →
      (env.moment w).abort = true → (env.moment w').abort = true)
    (h : (stopInFetch env number).Replies w event w')
    (habort : ((stopInFetch env number).moment w).abort = true) :
    ((stopInFetch env number).moment w').abort = true := by
  obtain ⟨hreplies, hle⟩ := replies_of_stopInFetch h
  simp only [stopInFetch, Bool.or_eq_true, decide_eq_true_eq] at habort ⊢
  rcases habort with hshown | hcount
  · exact .inl (hstays hreplies hshown)
  · exact .inr (Nat.lt_of_lt_of_le hcount hle)

end StopInFetch

end BlockTransfer.Script
