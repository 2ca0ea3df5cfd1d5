import BlockTransfer.Proofs.Rehearsal.Twins
import Mathlib.Data.List.GetD

/-!
# What is read of a scripted file

A scripted file gives its bytes in parts, in the order in which they are, and a reading of it may be
interrupted. At last it comes to its end, or to an error. If every reading that is not interrupted
brings something before that, then only the bytes and how they end matter to a reader who does not
stop at interruptions.

## Main definitions

* `Script.Source.Holds`: some bytes are still to be read of a file, and then its end or an error.
* `Script.Source.Fetched`: what a reading of such a file comes to.
* `Script.Source.Steady` and `Script.Source.BreaksAt`: files that are read to their end, and files
  whose reading fails.
* `Script.Source.Plain`: a file of which every reading brings all that is asked for.

## Main results

* `Script.Source.Holds.fetched`: every reading of such a file comes to this.
* `Script.Source.Plain.fetch`: what a reading of a file comes to that is read at once.
* `Script.World.fetch_eq`: a reading changes just the file that is read.
-/

namespace BlockTransfer.Script

namespace Source

variable {source : Source} {most : Nat} {rest : Bytes} {last : Option IoError}

/-! ## Single readings -/

/-- Whether the reading of a file fails now. -/
def Due (source : Source) : Prop :=
  ∃ fault faults, source.faults = fault :: faults ∧ fault.1 ≤ source.position

theorem fetch_of_due {place : Nat} {e : IoError} {faults : List (Nat × IoError)}
    (h : source.faults = (place, e) :: faults) (hplace : place ≤ source.position) :
    source.fetch most = (.error e, { source with faults }) := by
  simp only [fetch, h, hplace, if_true]

theorem fetch_of_not_due (h : ¬source.Due) :
    source.fetch most =
      (.ok (source.remaining.take (source.limit most)),
        { source with
          remaining := source.remaining.drop (source.remaining.take (source.limit most)).length
          position := source.position + (source.remaining.take (source.limit most)).length
          reads := source.reads + 1 }) := by
  unfold fetch
  cases hfaults : source.faults with
  | nil => rfl
  | cons fault faults =>
    have hplace : ¬fault.1 ≤ source.position := fun hplace => h ⟨fault, faults, hfaults, hplace⟩
    simp only [hplace, if_false]

theorem limit_le (source : Source) (most : Nat) : source.limit most ≤ most := by
  unfold limit
  dsimp only
  split <;> split <;> omega

/-- A reading stops short of the next failure. -/
theorem limit_le_of_faults {place : Nat} {e : IoError} {faults : List (Nat × IoError)}
    (h : source.faults = (place, e) :: faults) (most : Nat) :
    source.limit most ≤ place - source.position := by
  unfold limit
  rw [h]
  exact Nat.min_le_right _ _

/-- If no failure is ahead, a reading brings something if its size is positive. -/
theorem limit_pos_of_faults_eq_nil (hfaults : source.faults = [])
    (hsizes : ∀ size ∈ source.sizes, 0 < size) (hmost : 0 < most) : 0 < source.limit most := by
  unfold limit
  rw [hfaults]
  dsimp only
  split
  · exact hmost
  · rename_i hne
    have hindex : source.reads % source.sizes.length < source.sizes.length :=
      Nat.mod_lt _ (List.length_pos_iff.mpr hne)
    rw [List.getD_eq_getElem _ _ hindex]
    exact Nat.lt_min.mpr ⟨hmost, hsizes _ (List.getElem_mem hindex)⟩

/-- A reading brings something if its size is positive and no failure is due. -/
theorem limit_pos (hsizes : ∀ size ∈ source.sizes, 0 < size) (h : ¬source.Due) (hmost : 0 < most) :
    0 < source.limit most := by
  cases hfaults : source.faults with
  | nil => exact limit_pos_of_faults_eq_nil hfaults hsizes hmost
  | cons fault faults =>
    have hplace : ¬fault.1 ≤ source.position := fun hplace => h ⟨fault, faults, hfaults, hplace⟩
    have hcalm : 0 < ({ source with faults := [] } : Source).limit most :=
      limit_pos_of_faults_eq_nil rfl hsizes hmost
    have hlimit : source.limit most =
        min (({ source with faults := [] } : Source).limit most) (fault.1 - source.position) := by
      unfold limit
      rw [hfaults]
    rw [hlimit]
    exact Nat.lt_min.mpr ⟨hcalm, by omega⟩

/-! ## Files without empty readings -/

/-- What is still to be read of a file, and with what it ends. -/
inductive Fate (source : Source) : Bytes → Option IoError → Prop
  /-- All of it is read. -/
  | ends (hcalm : ∀ fault ∈ source.faults, fault.2.kind = .interrupted) :
    Fate source source.remaining none
  /-- Its reading fails behind some bytes. -/
  | fails {rest : Bytes} {e : IoError} {calm more : List (Nat × IoError)}
      (hrest : rest <+: source.remaining)
      (hfaults : source.faults = calm ++ (source.position + rest.length, e) :: more)
      (hcalm : ∀ fault ∈ calm,
        fault.1 ≤ source.position + rest.length ∧ fault.2.kind = .interrupted) :
    Fate source rest (some e)

/-- Some bytes are still to be read of a file, and then it comes to its end or to an error. Every
reading before that brings something or is interrupted. -/
structure Holds (source : Source) (rest : Bytes) (last : Option IoError) : Prop where
  sizes_pos : ∀ size ∈ source.sizes, 0 < size
  fate : source.Fate rest last

/-- What a reading of at most so many bytes comes to, and the file after it. -/
inductive Fetched (source : Source) (most : Nat) (rest : Bytes) (last : Option IoError) :
    Except IoError Bytes → Source → Prop
  /-- It is interrupted. -/
  | interrupted {e : IoError} {after : Source} (hkind : e.kind = .interrupted)
      (h : after.Holds rest last) : Fetched source most rest last (.error e) after
  /-- It brings some bytes. -/
  | data {data left : Bytes} {after : Source} (hne : data ≠ []) (hlength : data.length ≤ most)
      (hrest : rest = data ++ left) (h : after.Holds left last) :
    Fetched source most rest last (.ok data) after
  /-- It comes to the end of the file. -/
  | ended {after : Source} (hrest : rest = []) (hlast : last = none) (h : after.Holds [] none) :
    Fetched source most rest last (.ok []) after
  /-- It comes to the error. -/
  | failed {e : IoError} {after : Source} (hrest : rest = []) (hlast : last = some e) :
    Fetched source most rest last (.error e) after

/-- A reading that does not fail brings something, or comes to the end. -/
theorem Holds.fetched_of_not_due (h : source.Holds rest last) (hmost : 0 < most)
    (hdue : ¬source.Due) :
    source.Fetched most rest last (source.fetch most).1 (source.fetch most).2 := by
  have hpos := limit_pos h.sizes_pos hdue hmost
  have hle := limit_le source most
  rw [fetch_of_not_due hdue]
  cases h.fate with
  | ends hcalm =>
    by_cases hnil : source.remaining = []
    · simp only [hnil, List.take_nil, List.drop_nil]
      exact .ended rfl rfl ⟨h.sizes_pos, .ends hcalm⟩
    · refine .data ?_ (Nat.le_trans (List.length_take_le _ _) hle) ?_
        ⟨h.sizes_pos, .ends hcalm⟩
      · rw [ne_eq, List.take_eq_nil_iff, not_or]
        exact ⟨Nat.ne_of_gt hpos, hnil⟩
      · exact (List.prefix_iff_eq_append.mp (List.take_prefix _ _)).symm
  | @fails rest e calm more hrest hfaults hcalm =>
    -- The reading stops short of the error, so it brings a part of what comes before that.
    have hshort : source.limit most ≤ rest.length := by
      cases calm with
      | nil =>
        have := limit_le_of_faults hfaults most
        omega
      | cons fault calm =>
        have := limit_le_of_faults hfaults most
        have := (hcalm fault List.mem_cons_self).1
        omega
    obtain ⟨tail, htail⟩ := hrest
    have htake : source.remaining.take (source.limit most) = rest.take (source.limit most) := by
      rw [← htail, List.take_append_of_le_length hshort]
    rw [htake]
    have hsplit := List.prefix_iff_eq_append.mp (List.take_prefix (source.limit most) rest)
    have hlengths := congrArg List.length hsplit
    rw [List.length_append] at hlengths
    refine .data ?_ (Nat.le_trans (List.length_take_le _ _) hle) hsplit.symm ⟨h.sizes_pos, ?_⟩
    · rw [ne_eq, List.take_eq_nil_iff, not_or]
      refine ⟨Nat.ne_of_gt hpos, ?_⟩
      rintro rfl
      exact Nat.not_lt_of_le hshort hpos
    · refine @Fate.fails _ _ e calm more ⟨tail, ?_⟩ ?_ ?_
      · dsimp only
        rw [← htail, List.drop_append_of_le_length (List.length_take_le' _ _)]
      · dsimp only
        rw [hfaults, Nat.add_assoc, hlengths]
      · dsimp only
        rwa [Nat.add_assoc, hlengths]

/-- Every reading brings some of the bytes, is interrupted, or comes to the end or the error. -/
theorem Holds.fetched (h : source.Holds rest last) (hmost : 0 < most) :
    source.Fetched most rest last (source.fetch most).1 (source.fetch most).2 := by
  by_cases hdue : source.Due
  · obtain ⟨⟨place, e⟩, faults, hfaults, hplace⟩ := hdue
    rw [fetch_of_due hfaults hplace]
    cases h.fate with
    | ends hcalm =>
      rw [hfaults] at hcalm
      obtain ⟨hkind, hcalm⟩ := List.forall_mem_cons.mp hcalm
      exact .interrupted hkind ⟨h.sizes_pos, .ends hcalm⟩
    | @fails rest e' calm more hrest hfaults' hcalm =>
      rw [hfaults] at hfaults'
      cases calm with
      | nil =>
        cases hfaults'
        refine .failed (List.eq_nil_of_length_eq_zero ?_) rfl
        dsimp only at hplace
        omega
      | cons fault calm =>
        cases hfaults'
        obtain ⟨⟨-, hkind⟩, hcalm⟩ := List.forall_mem_cons.mp hcalm
        exact .interrupted hkind ⟨h.sizes_pos, .fails hrest rfl hcalm⟩
  · exact h.fetched_of_not_due hmost hdue

/-- Every reading of a file that is not interrupted brings something, until the file ends. -/
structure Steady (source : Source) : Prop where
  sizes_pos : ∀ size ∈ source.sizes, 0 < size
  calm : ∀ fault ∈ source.faults, fault.2.kind = .interrupted

/-- The reading of a file fails with an error at some position in it. Every reading before that
brings something or is interrupted. -/
structure BreaksAt (source : Source) (offset : Nat) (e : IoError) : Prop where
  unread : source.position = 0
  sizes_pos : ∀ size ∈ source.sizes, 0 < size
  within : offset ≤ source.remaining.length
  kind_ne : e.kind ≠ .interrupted
  faults : ∃ calm more, source.faults = calm ++ (offset, e) :: more ∧
    ∀ fault ∈ calm, fault.1 ≤ offset ∧ fault.2.kind = .interrupted

theorem Steady.holds {source : Source} (h : source.Steady) :
    source.Holds source.remaining none :=
  ⟨h.sizes_pos, .ends h.calm⟩

theorem BreaksAt.holds {source : Source} {offset : Nat} {e : IoError}
    (h : source.BreaksAt offset e) : source.Holds (source.remaining.take offset) (some e) := by
  obtain ⟨calm, more, hfaults, hcalm⟩ := h.faults
  have hlength : source.position + (source.remaining.take offset).length = offset := by
    rw [h.unread, Nat.zero_add, List.length_take_of_le h.within]
  refine ⟨h.sizes_pos, @Fate.fails _ _ e calm more (List.take_prefix _ _) ?_ ?_⟩
  · rw [hlength, hfaults]
  · rwa [hlength]

/-! ## Files that are read at once -/

/-- Every reading of a file brings all that is asked for, as far as it is there. -/
structure Plain (source : Source) : Prop where
  sizes : source.sizes = []
  faults : source.faults = []

theorem Plain.fetch (h : source.Plain) (most : Nat) :
    (source.fetch most).1 = .ok (source.remaining.take most) ∧ (source.fetch most).2.Plain ∧
      (source.fetch most).2.remaining = source.remaining.drop most := by
  have hdue : ¬source.Due := by
    rintro ⟨fault, faults, hfaults, -⟩
    cases h.faults.symm.trans hfaults
  have hlimit : source.limit most = most := by
    unfold limit
    rw [h.sizes, h.faults]
  rw [fetch_of_not_due hdue, hlimit]
  refine ⟨rfl, ⟨h.sizes, h.faults⟩, ?_⟩
  rw [List.length_take]
  rcases Nat.le_total most source.remaining.length with hle | hle
  · rw [Nat.min_eq_left hle]
  · rw [Nat.min_eq_right hle, List.drop_length, List.drop_of_length_le hle]

/-- The same contents, read at once. -/
def plain (source : Source) : Source where
  remaining := source.remaining

theorem plain_plain (source : Source) : source.plain.Plain :=
  ⟨rfl, rfl⟩

end Source

/-! ## The files of a rehearsal -/

namespace World

variable {κ : Type} {w : World κ} {file : Nat}

/-- A reading changes just the file that is read. -/
theorem fetch_eq {source : Source} (h : w.sources[file]? = some source) (most : Nat) :
    w.fetch file most = ((source.fetch most).1,
      { w with sources := w.sources.set file (source.fetch most).2 }) := by
  simp only [fetch, h]

/-- There is nothing in a file that is not there. -/
theorem fetch_eq_of_none (h : w.sources[file]? = none) (most : Nat) :
    w.fetch file most = (.ok [], w) := by
  simp only [fetch, h]

theorem moment_fetch (w : World κ) (file most : Nat) : (w.fetch file most).2.moment = w.moment := by
  unfold fetch
  split <;> rfl

end World

end BlockTransfer.Script
