import BlockTransfer.Proofs.Simulation

/-!
# Rehearsals that differ in what they bring

The channels of two rehearsals may bring different things, and their files may be read differently.
A party can tell the one from the other by what it reads and fetches only: all its other acts are
replied to alike, at the same times, and are recorded alike.

## Main definitions

* `Script.Wire.Covert`: a difference between channels that only readings can show.
* `Script.World.Twins`: surroundings that differ in their channels and files.

## Main results

* `Script.World.Twins.step_map`: acts that are replied to alike do the same.
-/

namespace BlockTransfer.Script

/-- A difference between channels that only readings can show. -/
structure Wire.Covert (channels : Wire → Wire → Prop) : Prop where
  now {wire wire' : Wire} : channels wire wire' → wire'.now = wire.now
  writes {wire wire' : Wire} : channels wire wire' → wire'.writes = wire.writes
  faults {wire wire' : Wire} : channels wire wire' → wire'.faults = wire.faults
  write {wire wire' : Wire} : channels wire wire' → ∀ data,
    (wire'.write data).1 = (wire.write data).1 ∧ channels (wire.write data).2 (wire'.write data).2

/-- No difference at all is shown by nothing. -/
theorem Wire.covert_eq : Wire.Covert Eq where
  now h := h ▸ rfl
  writes h := h ▸ rfl
  faults h := h ▸ rfl
  write h := by
    rw [← h]
    exact fun _ => ⟨rfl, rfl⟩

namespace World

variable {κ : Type} {channels : Wire → Wire → Prop} {files : List Source → List Source → Prop}
  {w w' : World κ}

/-- Surroundings that differ in their channels and files. -/
structure Twins (channels : Wire → Wire → Prop) (files : List Source → List Source → Prop)
    (w w' : World κ) : Prop where
  wire : channels w.wire w'.wire
  sources : files w.sources w'.sources
  others : w' = { w with wire := w'.wire, sources := w'.sources }

theorem Twins.moment_eq (h : w.Twins channels files w') (hcovert : Wire.Covert channels) :
    w'.moment = w.moment := by
  rw [h.others, moment, moment, ← hcovert.now h.wire]

/-- The sink is called alike. -/
theorem Twins.call (h : w.Twins channels files w') (setup : Setup κ) (call : Call) (entry : Entry)
    (run : κ → Except IoError Unit × κ) :
    (w'.call setup call entry run).1 = (w.call setup call entry run).1 ∧
      (w.call setup call entry run).2.Twins channels files (w'.call setup call entry run).2 := by
  rw [h.others]
  by_cases hfault : setup.sinkFaults.contains (call, w.calls.of call)
  · simp only [World.call, hfault, if_true]
    exact ⟨trivial, h.wire, h.sources, rfl⟩
  · simp only [World.call, hfault]
    by_cases hrecords : setup.recordsSink
    · simp only [hrecords, if_true]
      exact ⟨rfl, h.wire, h.sources, rfl⟩
    · simp only [hrecords]
      exact ⟨rfl, h.wire, h.sources, rfl⟩

/-- Data is stored alike. -/
theorem Twins.store (h : w.Twins channels files w') (setup : Setup κ) (data : Bytes) :
    (w'.store setup data).1 = (w.store setup data).1 ∧
      (w.store setup data).2.Twins channels files (w'.store setup data).2 := by
  have hcalls : w'.calls = w.calls := by rw [h.others]
  have hbefore : (w.abortIf (setup.trigger = some (.store w.calls.store))).Twins channels files
      (w'.abortIf (setup.trigger = some (.store w'.calls.store))) := by
    refine ⟨h.wire, h.sources, ?_⟩
    rw [hcalls]
    conv => lhs; rw [h.others]
    rfl
  exact hbefore.call setup .store (.stored data.length) (setup.sink.store · data)

/-- A write is taken alike. -/
theorem Twins.write (h : w.Twins channels files w') (hcovert : Wire.Covert channels)
    (setup : Setup κ) (data : Bytes) :
    (w'.write setup data).1 = (w.write setup data).1 ∧
      (w.write setup data).2.Twins channels files (w'.write setup data).2 := by
  obtain ⟨hreply, hwire⟩ := hcovert.write h.wire data
  refine ⟨hreply, hwire, h.sources, ?_⟩
  rw [h.others]
  simp only [World.write, note, abortIf, hcovert.now h.wire, hcovert.writes h.wire,
    Wire.nextFault?, hcovert.faults h.wire]

/-- Progress is heard of alike. -/
theorem Twins.report (h : w.Twins channels files w') (hcovert : Wire.Covert channels)
    (setup : Setup κ) (progress : Progress) :
    (w.report setup progress).Twins channels files (w'.report setup progress) := by
  rw [h.others]
  by_cases hlistening : setup.listening
  · simp only [World.report, hlistening, if_true, note, abortIf, hcovert.now h.wire]
    exact ⟨h.wire, h.sources, rfl⟩
  · simp only [World.report, hlistening]
    exact ⟨h.wire, h.sources, rfl⟩

/-- Files that are the same are read alike. -/
theorem Twins.fetch (h : w.Twins channels Eq w') (file most : Nat) :
    (w'.fetch file most).1 = (w.fetch file most).1 ∧
      (w.fetch file most).2.Twins channels Eq (w'.fetch file most).2 := by
  rw [h.others, ← h.sources]
  cases hsource : w.sources[file]? with
  | none =>
    simp only [World.fetch, hsource]
    exact ⟨trivial, h.wire, rfl, rfl⟩
  | some source =>
    simp only [World.fetch, hsource]
    exact ⟨trivial, h.wire, rfl, rfl⟩

/-- Whether a stop is requested after a reading does not depend on what it brings. -/
theorem Twins.after_read (h : w.Twins channels files w') {channels' : Wire → Wire → Prop}
    (hcovert : Wire.Covert channels') (setup : Setup κ) {timeout : Nat}
    (hwire : channels' (w.wire.read timeout).2 (w'.wire.read timeout).2) :
    (w.read setup timeout).2.Twins channels' files (w'.read setup timeout).2 := by
  refine ⟨hwire, h.sources, ?_⟩
  rw [h.others]
  simp only [World.read, abortIf, hcovert.now hwire]

/-- Channels that are the same are read alike. -/
theorem Twins.read (h : w.Twins Eq files w') (setup : Setup κ) (timeout : Nat) :
    (w'.read setup timeout).1 = (w.read setup timeout).1 ∧
      (w.read setup timeout).2.Twins Eq files (w'.read setup timeout).2 := by
  rw [h.others, ← h.wire]
  exact ⟨rfl, rfl, h.sources, rfl⟩

/-- Files may become different by being read. -/
theorem Twins.withSources (h : w.Twins channels files w')
    {files' : List Source → List Source → Prop} {sources sources' : List Source}
    (hfiles : files' sources sources') :
    ({ w with sources } : World κ).Twins channels files' { w' with sources := sources' } := by
  refine ⟨h.wire, hfiles, ?_⟩
  rw [h.others]

/-- Acts do the same on both sides if they are replied to alike. -/
theorem Twins.step_map {σ τ : Type} (h : w.Twins channels files w')
    (hcovert : Wire.Covert channels) (setup : Setup κ) (f : σ → τ) {a : Action σ}
    (hread : ∀ timeout next, a = .read timeout next →
      (w'.read setup timeout).1 = (w.read setup timeout).1 ∧
        (w.read setup timeout).2.Twins channels files (w'.read setup timeout).2)
    (hfetch : ∀ file most next, a = .fetch file most next →
      (w'.fetch file most).1 = (w.fetch file most).1 ∧
        (w.fetch file most).2.Twins channels files (w'.fetch file most).2) :
    (∃ ending, a.step (surroundings setup) w = .error ending ∧
        (a.map f).step (surroundings setup) w' = .error ending) ∨
      ∃ next w₁ w₁', a.step (surroundings setup) w = .ok (next, w₁) ∧
        (a.map f).step (surroundings setup) w' = .ok (f next, w₁') ∧
        w₁.Twins channels files w₁' := by
  -- The replies are the same, and so is the moment that comes with them.
  have hreplied : ∀ {α : Type} {reply : α × World κ} {reply' : α × World κ}
      (next : α → Moment → σ), reply'.1 = reply.1 ∧ reply.2.Twins channels files reply'.2 →
      f (next reply'.1 reply'.2.moment) = f (next reply.1 reply.2.moment) := by
    rintro α reply reply' next ⟨hreply, htwins⟩
    rw [hreply, htwins.moment_eq hcovert]
  cases a with
  | stop ending => exact .inl ⟨ending, rfl, rfl⟩
  | silent next => exact .inr ⟨next, w, w', rfl, rfl, h⟩
  | read timeout next =>
    have hreply := hread timeout next rfl
    exact .inr ⟨_, _, _, rfl, congrArg (fun s => Except.ok (s, _)) (hreplied next hreply), hreply.2⟩
  | write data next =>
    have hreply := h.write hcovert setup data
    exact .inr ⟨_, _, _, rfl, congrArg (fun s => Except.ok (s, _)) (hreplied next hreply), hreply.2⟩
  | report progress next =>
    have hreport := h.report hcovert setup progress
    refine .inr ⟨_, _, _, rfl, congrArg (fun m => Except.ok (f (next m), _)) ?_, hreport⟩
    exact hreport.moment_eq hcovert
  | fetch file most next =>
    have hreply := hfetch file most next rfl
    exact .inr ⟨_, _, _, rfl, congrArg (fun s => Except.ok (s, _)) (hreplied next hreply), hreply.2⟩
  | openFile header next =>
    have hreply := h.call setup .openFile (.opened header) (setup.sink.openFile · header)
    exact .inr ⟨_, _, _, rfl, congrArg (fun s => Except.ok (s, _)) (hreplied next hreply), hreply.2⟩
  | store data next =>
    have hreply := h.store setup data
    exact .inr ⟨_, _, _, rfl, congrArg (fun s => Except.ok (s, _)) (hreplied next hreply), hreply.2⟩
  | closeFile file next =>
    have hreply := h.call setup .closeFile (.closed file) (setup.sink.closeFile · file)
    exact .inr ⟨_, _, _, rfl, congrArg (fun s => Except.ok (s, _)) (hreplied next hreply), hreply.2⟩

end World

end BlockTransfer.Script
