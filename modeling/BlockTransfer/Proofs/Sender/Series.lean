import BlockTransfer.Proofs.Sender.Reactions
import BlockTransfer.Proofs.Trace
import Mathlib.Algebra.GroupWithZero.Nat
import Mathlib.Order.Basic

/-!
# Series of attempts

A sender makes its attempts in series: it attempts the same thing, to be invited or to get the same
bytes acknowledged, until it succeeds or has failed too often. The first refusal of an end mark does
not count as a failure.

## Main definitions

* `Sender.Subject`: what a sender attempts.
* `Sender.Note`: what happens to its attempts, and `Sender.note?`, which reads it off an act.
* `Sender.Series`: a series of attempts.
* `Sender.Orderly`: series that have succeeded.
* `Sender.Balances`: what the notes of a run amount to.

## Main results

* `Sender.Series.attempts_le`: how many attempts there are in a series.
* `Sender.countP_flatMap_le`: how often an end mark is written.
* `Sender.Orderly.balances` and `Sender.Orderly.balances_concat`: what orderly series amount to.
-/

namespace BlockTransfer

namespace Sender

/-! ## Notes -/

/-- What a sender attempts. -/
inductive Subject
  /-- To be invited. -/
  | window (invitation : Invitation)
  /-- To get bytes acknowledged that belong to a file and a stage. -/
  | frame (file : Nat) (stage : Stage) (data : Bytes)

namespace Subject

/-- The stage of an attempt. -/
def stage : Subject → Stage
  | window invitation => invitation.stage
  | frame _ stage _ => stage

/-- The file whose end is to be acknowledged. -/
def ended? : Subject → Option Nat
  | frame file .endOfFile _ => some file
  | _ => none

end Subject

/-- What happens to the attempts of a sender. -/
inductive Note
  /-- An attempt is made. -/
  | opens (subject : Subject)
  /-- The attempt has failed, because it was refused or because there was no answer in time. -/
  | misses (refused : Bool)
  /-- The attempt has succeeded. -/
  | settles

/-- Whether the end mark of a file is written. -/
def Note.ends (file : Nat) : Note → Bool
  | .opens subject => subject.ended? = some file
  | _ => false

/-- The note of an act at a step. -/
def noted (s : Sender) : Step → Event → Option Note
  -- No attempt is made any more once a stop is requested.
  | .attempt invitation, _ =>
    if s.moment.abort then none else some (.opens (.window invitation))
  | .offer item _, .write data _ => some (.opens (.frame s.job.index (stage s item) data))
  -- Nothing has come until the deadline.
  | .listen _ _, .read _ (.ok []) | .answer _ _ _, .read _ (.ok []) => some (.misses false)
  -- A byte that is waiting in the queue is looked at.
  | .listen _ _, .silent =>
    match s.pending with
    | byte :: _ => if ((Control.ofByte? byte).bind mode?).isSome then some .settles else none
    | [] => none
  | .answer _ _ _, .silent =>
    match s.pending with
    | byte :: _ =>
      if byte = Control.ack.byte then some .settles
      else if byte = Control.nak.byte then some (.misses true)
      else none
    | [] => none
  | _, _ => none

/-- The note of an act. -/
def note? (a : Act Sender) : Option Note :=
  match a.state.phase with
  | .doing step => noted a.state step a.event
  | _ => none

/-! ## Series -/

/-- How far a series of attempts has got. -/
inductive Stretch
  /-- The latest attempt has failed. -/
  | paused
  /-- The latest attempt has been made. -/
  | pending
  /-- The latest attempt has succeeded. -/
  | settled
  deriving DecidableEq

/-- A series of attempts at the same thing. -/
structure Series where
  /-- What is attempted. -/
  subject : Subject
  /-- The failures, and whether each of them was a refusal. -/
  misses : List Bool
  /-- How far the series has got. -/
  course : Stretch

namespace Series

/-- The notes of a series. -/
def notes (x : Series) : List Note :=
  x.misses.flatMap (fun refused => [.opens x.subject, .misses refused]) ++
    match x.course with
    | .paused => []
    | .pending => [.opens x.subject]
    | .settled => [.opens x.subject, .settles]

/-- The number of attempts. -/
def attempts (x : Series) : Nat :=
  x.misses.length + if x.course = .paused then 0 else 1

/-- Whether the next refusal does not count. -/
def spare (x : Series) : Bool :=
  x.subject.ended?.isSome && !x.misses.contains true

/-- Whether one of the failures does not count: the first refusal of an end mark. -/
def excused (x : Series) : Bool :=
  x.subject.ended?.isSome && x.misses.contains true

/-- The number of failures that count. -/
def charged (x : Series) : Nat :=
  x.misses.length - x.excused.toNat

/-- The series after its latest attempt has failed. -/
def miss (x : Series) (refused : Bool) : Series :=
  { x with misses := x.misses ++ [refused], course := .paused }

variable {x : Series} {max : Nat}

theorem charged_nil (subject : Subject) (course : Stretch) :
    charged ⟨subject, [], course⟩ = 0 :=
  Nat.zero_sub _

theorem notes_open (h : x.course = .paused) :
    { x with course := .pending }.notes = x.notes ++ [.opens x.subject] := by
  simp [notes, h]

theorem notes_settle (h : x.course = .pending) :
    { x with course := .settled }.notes = x.notes ++ [.settles] := by
  simp [notes, h]

theorem notes_miss (h : x.course = .pending) (refused : Bool) :
    (x.miss refused).notes = x.notes ++ [.misses refused] := by
  simp [notes, miss, h]

theorem excused_le_length (x : Series) : x.excused.toNat ≤ x.misses.length := by
  unfold excused
  cases hmisses : x.misses with
  | nil => simp
  | cons => exact (Bool.toNat_le _).trans (Nat.le_add_left 1 _)

theorem attempts_eq (x : Series) :
    x.attempts = x.charged + x.excused.toNat + if x.course = .paused then 0 else 1 := by
  have hle := x.excused_le_length
  unfold attempts charged
  omega

/-- There is one attempt for each failure that is allowed, and one more for the end of a file. -/
theorem attempts_le (h : (x.charged + if x.course = .paused then 0 else 1) ≤ max) :
    x.attempts ≤ max + x.subject.ended?.isSome.toNat := by
  have hexcused : x.excused.toNat ≤ x.subject.ended?.isSome.toNat := by
    unfold excused
    cases x.subject.ended?.isSome <;> simp [Bool.toNat_le]
  have hattempts := x.attempts_eq
  omega

/-- A failure counts, unless it is the first refusal of an end mark. -/
theorem charged_miss {refused : Bool} (h : refused = true → x.spare = false) :
    (x.miss refused).charged = x.charged + 1 := by
  have hle := x.excused_le_length
  -- Only the first refusal of an end mark makes one of the failures excused.
  have hexcused : (x.miss refused).excused = x.excused := by
    cases refused with
    | false => simp [miss, excused]
    | true =>
      have hspare := h rfl
      unfold spare at hspare
      cases hended : x.subject.ended?.isSome <;> simp_all [miss, excused]
  have hlength : (x.miss refused).misses.length = x.misses.length + 1 := by simp [miss]
  unfold charged
  rw [hexcused, hlength]
  omega

theorem charged_miss_of_spare (h : x.spare = true) : (x.miss true).charged = x.charged := by
  unfold spare at h
  simp_all [charged, miss, excused]

theorem spare_miss {refused : Bool} (h : refused = true → x.spare = false) :
    (x.miss refused).spare = x.spare := by
  cases refused with
  | false => simp [miss, spare]
  | true =>
    have hspare := h rfl
    unfold spare at hspare ⊢
    cases hended : x.subject.ended?.isSome <;> simp_all [miss]

/-- The end mark of a file is written as often as there are attempts to get it acknowledged. -/
theorem countP_notes (x : Series) (file : Nat) :
    x.notes.countP (Note.ends file) = if x.subject.ended? = some file then x.attempts else 0 := by
  have hmisses : ∀ l : List Bool,
      (l.flatMap fun refused => [Note.opens x.subject, .misses refused]).countP (Note.ends file) =
        if x.subject.ended? = some file then l.length else 0 := by
    intro l
    induction l with
    | nil => simp
    | cons refused l ih =>
      rw [List.flatMap_cons, List.countP_append, ih]
      by_cases hended : x.subject.ended? = some file
      · simp [Note.ends, hended, Nat.add_comm]
      · simp [Note.ends, hended]
  unfold notes attempts
  rw [List.countP_append, hmisses]
  by_cases hended : x.subject.ended? = some file
  · cases x.course <;> simp [Note.ends, hended]
  · cases x.course <;> simp [Note.ends, hended]

end Series

theorem countP_flatMap_eq_zero {series : List Series} {file : Nat}
    (h : file ∉ series.filterMap (·.subject.ended?)) :
    (series.flatMap Series.notes).countP (Note.ends file) = 0 := by
  induction series with
  | nil => rfl
  | cons x series ih =>
    rw [List.mem_filterMap] at h
    push Not at h
    rw [List.flatMap_cons, List.countP_append, x.countP_notes, if_neg (h x List.mem_cons_self),
      Nat.zero_add]
    refine ih ?_
    rw [List.mem_filterMap]
    rintro ⟨y, hy, hended⟩
    exact h y (List.mem_cons_of_mem _ hy) hended

/-- If there is at most one series for the end of a file, its end mark is written as often as there
are attempts in it. -/
theorem countP_flatMap_le {series : List Series} {file n : Nat}
    (hnodup : (series.filterMap (·.subject.ended?)).Nodup)
    (hle : ∀ x ∈ series, x.subject.ended? = some file → x.attempts ≤ n) :
    (series.flatMap Series.notes).countP (Note.ends file) ≤ n := by
  induction series with
  | nil => exact Nat.zero_le n
  | cons x series ih =>
    rw [List.flatMap_cons, List.countP_append, x.countP_notes]
    have hrest : ∀ y ∈ series, y.subject.ended? = some file → y.attempts ≤ n :=
      fun y hy => hle y (List.mem_cons_of_mem _ hy)
    by_cases hended : x.subject.ended? = some file
    · -- This is the one series, and the end mark is written in none of the others.
      simp only [List.filterMap_cons, hended] at hnodup
      rw [if_pos hended, countP_flatMap_eq_zero (List.nodup_cons.mp hnodup).1]
      exact hle x List.mem_cons_self hended
    · rw [if_neg hended, Nat.zero_add]
      refine ih ?_ hrest
      cases hother : x.subject.ended? with
      | none => simpa only [List.filterMap_cons, hother] using hnodup
      | some other =>
        simp only [List.filterMap_cons, hother] at hnodup
        exact (List.nodup_cons.mp hnodup).2

/-! ## Series one after the other -/

/-- Series that have succeeded: within the limit, and at most one for the end of each file that has
been acknowledged. -/
structure Orderly (max filed : Nat) (done : List Series) : Prop where
  /-- They have succeeded. -/
  settled : ∀ x ∈ done, x.course = .settled
  /-- They have not failed too often before. -/
  charged_lt : ∀ x ∈ done, x.charged < max
  /-- They are for the ends of different files, as far as they are for the end of a file. -/
  nodup : (done.filterMap (·.subject.ended?)).Nodup
  /-- These are files that are done with. -/
  lt_filed : ∀ x ∈ done, ∀ file, x.subject.ended? = some file → file < filed

/-- What the notes of a run amount to that has come to an ending, or has not come to its end. -/
structure Balances (max : Nat) (notes : List Note) (ending : Option Ending)
    (series : List Series) : Prop where
  /-- The notes are those of the series. -/
  notes_eq : notes = series.flatMap Series.notes
  /-- A new series begins only when the last one has succeeded. -/
  settled : ∀ x ∈ series.dropLast, x.course = .settled
  /-- There are at most `max` attempts in a series, and one more if it is for the end of a file. -/
  attempts_le : ∀ x ∈ series, x.attempts ≤ max + x.subject.ended?.isSome.toNat
  /-- The end mark of a file is written at most once more than that. -/
  ends_le : ∀ file, notes.countP (Note.ends file) ≤ max + 1
  /-- A run that ends because there was no success has seen just as many failures of the stage in a
  row as are allowed. -/
  timeout : ∀ stage attempts, ending = some (.error (.timeout stage attempts)) →
    attempts = max ∧ ∃ x, series.getLast? = some x ∧ x.course = .paused ∧
      x.subject.stage = stage ∧ x.charged = max
  /-- If the transfer is complete, every series has succeeded, and the failures are reported. -/
  completed : ∀ summary, ending = some (.ok (.completed summary)) →
    (∀ x ∈ series, x.course = .settled) ∧ summary.retries = (series.map Series.charged).sum

section Orderly

variable {max filed : Nat} {done : List Series} {x : Series} {notes : List Note}

theorem orderly_nil (max filed : Nat) : Orderly max filed [] :=
  ⟨List.forall_mem_nil _, List.forall_mem_nil _, List.nodup_nil, List.forall_mem_nil _⟩

theorem Orderly.mono (h : Orderly max filed done) {filed' : Nat} (hle : filed ≤ filed') :
    Orderly max filed' done :=
  ⟨h.settled, h.charged_lt, h.nodup,
    fun x hx file hended => (h.lt_filed x hx file hended).trans_le hle⟩

theorem Orderly.notMem (h : Orderly max filed done) {file : Nat} (hle : filed ≤ file) :
    file ∉ done.filterMap (·.subject.ended?) := by
  rw [List.mem_filterMap]
  rintro ⟨y, hy, hended⟩
  exact absurd (h.lt_filed y hy file hended) (Nat.not_lt_of_le hle)

/-- The ends of files are acknowledged one after the other. -/
theorem Orderly.nodup_concat (h : Orderly max filed done)
    (hle : ∀ file, x.subject.ended? = some file → filed ≤ file) :
    ((done ++ [x]).filterMap (·.subject.ended?)).Nodup := by
  rw [List.filterMap_append]
  cases hended : x.subject.ended? with
  | none => simpa [hended] using h.nodup
  | some file =>
    have hnew := h.notMem (hle file hended)
    simp only [List.filterMap_cons, List.filterMap_nil, hended]
    rw [List.nodup_append]
    refine ⟨h.nodup, by simp, ?_⟩
    rintro other hother file' hfile rfl
    rw [List.mem_singleton.mp hfile] at hother
    exact hnew hother

theorem Orderly.concat (h : Orderly max filed done) {filed' : Nat} (hfiled : filed ≤ filed')
    (hsettled : x.course = .settled) (hcharged : x.charged < max)
    (hended : ∀ file, x.subject.ended? = some file → filed ≤ file ∧ file < filed') :
    Orderly max filed' (done ++ [x]) := by
  refine ⟨?_, ?_, h.nodup_concat fun file hfile => (hended file hfile).1, ?_⟩
  · exact List.forall_mem_append.mpr ⟨h.settled, List.forall_mem_singleton.mpr hsettled⟩
  · exact List.forall_mem_append.mpr ⟨h.charged_lt, List.forall_mem_singleton.mpr hcharged⟩
  · intro y hy file hfile
    rcases List.mem_append.mp hy with hy | hy
    · exact (h.lt_filed y hy file hfile).trans_le hfiled
    · rw [List.mem_singleton.mp hy] at hfile
      exact (hended file hfile).2

theorem Orderly.attempts_le (h : Orderly max filed done) (hx : x ∈ done) :
    x.attempts ≤ max + x.subject.ended?.isSome.toNat := by
  have hlt := h.charged_lt x hx
  refine Series.attempts_le ?_
  rw [h.settled x hx]
  exact hlt

/-- The end mark of a file is written once more than there may be failures, at most. -/
theorem countP_flatMap_le_succ {series : List Series}
    (hnodup : (series.filterMap (·.subject.ended?)).Nodup)
    (hle : ∀ x ∈ series, x.attempts ≤ max + x.subject.ended?.isSome.toNat) (file : Nat) :
    (series.flatMap Series.notes).countP (Note.ends file) ≤ max + 1 := by
  refine countP_flatMap_le hnodup fun x hx _ => (hle x hx).trans ?_
  exact Nat.add_le_add_left (Bool.toNat_le _) _

/-- What the notes amount to when there is nothing more to come. -/
theorem Orderly.balances (h : Orderly max filed done) {ending : Option Ending}
    (htimeout : ∀ stage attempts, ending ≠ some (.error (.timeout stage attempts)))
    (hcompleted : ∀ summary, ending = some (.ok (.completed summary)) →
      summary.retries = (done.map Series.charged).sum) :
    Balances max (done.flatMap Series.notes) ending done where
  notes_eq := rfl
  settled := fun x hx => h.settled x (List.dropLast_subset _ hx)
  attempts_le := fun _ hx => h.attempts_le hx
  ends_le := countP_flatMap_le_succ h.nodup fun _ hx => h.attempts_le hx
  timeout := fun stage attempts hending => absurd hending (htimeout stage attempts)
  completed := fun summary hending => ⟨h.settled, hcompleted summary hending⟩

/-- What the notes amount to when a series has not succeeded. -/
theorem Orderly.balances_concat (h : Orderly max filed done) {ending : Option Ending}
    (hended : ∀ file, x.subject.ended? = some file → filed ≤ file)
    (hcharged : (x.charged + if x.course = .paused then 0 else 1) ≤ max)
    (htimeout : ∀ stage attempts, ending = some (.error (.timeout stage attempts)) →
      attempts = max ∧ x.course = .paused ∧ x.subject.stage = stage ∧ x.charged = max)
    (hcompleted : ∀ summary, ending ≠ some (.ok (.completed summary))) :
    Balances max (done.flatMap Series.notes ++ x.notes) ending (done ++ [x]) := by
  have hnotes : done.flatMap Series.notes ++ x.notes = (done ++ [x]).flatMap Series.notes := by
    rw [List.flatMap_append, List.flatMap_singleton]
  have hattempts : ∀ y ∈ done ++ [x], y.attempts ≤ max + y.subject.ended?.isSome.toNat :=
    List.forall_mem_append.mpr
      ⟨fun _ => h.attempts_le, List.forall_mem_singleton.mpr (Series.attempts_le hcharged)⟩
  refine ⟨hnotes, ?_, hattempts, ?_, ?_, ?_⟩
  · -- Only the last series is in hand.
    rw [List.dropLast_concat]
    exact h.settled
  · rw [hnotes]
    exact countP_flatMap_le_succ (h.nodup_concat hended) hattempts
  · intro stage attempts hending
    obtain ⟨hmax, hrest⟩ := htimeout stage attempts hending
    exact ⟨hmax, x, List.getLast?_concat, hrest⟩
  · exact fun summary hending => absurd hending (hcompleted summary)

/-- What comes to its end has not ended before. -/
theorem Balances.of_some {ending : Ending} {series : List Series}
    (h : Balances max notes (some ending) series) : Balances max notes none series :=
  ⟨h.notes_eq, h.settled, h.attempts_le, h.ends_le, nofun, nofun⟩

end Orderly

end Sender

end BlockTransfer
