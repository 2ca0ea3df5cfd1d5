import BlockTransfer.Proofs.Patience
import Mathlib.Algebra.GroupWithZero.Nat

/-!
# The books of a session

A session counts blocks and bytes as they come, and corrects the count when a file ends, because the
blocks of a file may hold more than is delivered in the end. What it has counted is what someone
finds who keeps a list of the files that are complete and a list of the blocks of the current file,
and adds up.

## Main definitions

* `reports`: the reports of progress in a run.
* `Session.tally`: what a session has counted.
* `Session.Books`: a session has counted what is in the lists.
* `Party.Counts`: an act that leaves the tally alone.

## Main results

* `Session.Books.finishFile`: the count is right again after it has been corrected.
* `Session.Books.fileBytes_le`: what is taken off in a correction has been added before.
* `Session.Books.summary`: a summary says what is in the lists.
-/

namespace BlockTransfer

/-- The reports of progress in a run so far. -/
def reports {σ : Type} (past : List (Act σ)) : List Progress :=
  past.filterMap fun act =>
    match act.event with
    | .report progress => some progress
    | _ => none

/-- Whether progress is reported. -/
def Event.reports : Event → Bool
  | .report _ => true
  | _ => false

theorem reports_concat {σ : Type} {past : List (Act σ)} {act : Act σ}
    (h : act.event.reports = false) : reports (past ++ [act]) = reports past := by
  obtain ⟨s, event⟩ := act
  rw [reports, List.filterMap_append]
  cases event <;> simp_all [reports, Event.reports]

theorem reports_concat_report {σ : Type} (past : List (Act σ)) (s : σ) (progress : Progress) :
    reports (past ++ [⟨s, .report progress⟩]) = reports past ++ [progress] := by
  rw [reports, List.filterMap_append]
  rfl

/-- A condition holds of every report in a run so far, with the acts before it and the state of the
party. -/
def EachReport {σ : Type} (spec : List (Act σ) → σ → Progress → Prop)
    (past : List (Act σ)) : Prop :=
  ∀ before after s progress, past = before ++ ⟨s, .report progress⟩ :: after →
    spec before s progress

theorem eachReport_nil {σ : Type} (spec : List (Act σ) → σ → Progress → Prop) :
    EachReport spec [] := by
  intro before after s progress hpast
  exact absurd hpast.symm (List.append_ne_nil_of_right_ne_nil _ (List.cons_ne_nil _ _))

theorem EachReport.concat {σ : Type} {spec : List (Act σ) → σ → Progress → Prop}
    {past : List (Act σ)} {act : Act σ} (h : EachReport spec past)
    (hact : ∀ progress, act.event = .report progress → spec past act.state progress) :
    EachReport spec (past ++ [act]) := by
  intro before after s progress hpast
  -- The report is the last act or an earlier one.
  rcases List.eq_nil_or_concat after with rfl | ⟨between, last, rfl⟩
  · obtain ⟨rfl, hlast⟩ := List.append_inj' hpast rfl
    obtain rfl : act = ⟨s, .report progress⟩ := List.singleton_inj.mp hlast
    exact hact progress rfl
  · rw [List.concat_eq_append, ← List.cons_append, ← List.append_assoc] at hpast
    exact h before between s progress (List.append_inj' hpast rfl).1

namespace Session

/-- What a session has counted. -/
structure Tally where
  /-- The name of the current file, if known. -/
  fileName : Option String
  /-- The declared length of the current file, if known. -/
  fileLength : Option Nat
  /-- The number of blocks of the current file. -/
  fileBlocks : Nat
  /-- The number of bytes of the current file. -/
  fileBytes : Nat
  /-- The number of blocks. -/
  totalBlocks : Nat
  /-- The number of bytes. -/
  totalBytes : Nat
  /-- The files that are complete, latest first. -/
  filesDone : List FileReport

/-- What a session has counted. -/
def tally (s : Session) : Tally where
  fileName := s.fileName
  fileLength := s.fileLength
  fileBlocks := s.fileBlocks
  fileBytes := s.fileBytes
  totalBlocks := s.totalBlocks
  totalBytes := s.totalBytes
  filesDone := s.filesDone

/-- A session has counted the files that are complete, and the useful bytes of each block of the
current file. So many blocks have been reported. -/
structure Books (done : List FileReport) (reported : Nat) (useful : List Nat) (s : Session) :
    Prop where
  filesDone_eq : s.filesDone = done.reverse
  totalBlocks_eq : s.totalBlocks = reported
  totalBytes_eq : s.totalBytes = (done.map (·.bytes)).sum + useful.sum
  fileBlocks_eq : s.fileBlocks = useful.length
  fileBytes_eq : s.fileBytes = useful.sum

variable {done : List FileReport} {reported : Nat} {useful : List Nat} {s s' : Session}

theorem books_new (role : Role) (started : Nat) : Books [] 0 [] { role, started } :=
  ⟨rfl, rfl, rfl, rfl, rfl⟩

/-- The books do not change with anything else. -/
theorem Books.of_tally (h : Books done reported useful s) (htally : s'.tally = s.tally) :
    Books done reported useful s' where
  filesDone_eq := (congrArg Tally.filesDone htally).trans h.filesDone_eq
  totalBlocks_eq := (congrArg Tally.totalBlocks htally).trans h.totalBlocks_eq
  totalBytes_eq := (congrArg Tally.totalBytes htally).trans h.totalBytes_eq
  fileBlocks_eq := (congrArg Tally.fileBlocks htally).trans h.fileBlocks_eq
  fileBytes_eq := (congrArg Tally.fileBytes htally).trans h.fileBytes_eq

/-- Between two files a new one may begin. -/
theorem Books.beginFile (h : Books done reported [] s) (name : Option String)
    (length : Option Nat) : Books done reported [] (s.beginFile name length) :=
  ⟨h.filesDone_eq, h.totalBlocks_eq, h.totalBytes_eq, rfl, rfl⟩

/-- A block is counted. -/
theorem Books.completeBlock (h : Books done reported useful s) (bytes : Nat) :
    Books done (reported + 1) (useful ++ [bytes]) (s.completeBlock bytes) where
  filesDone_eq := h.filesDone_eq
  totalBlocks_eq := congrArg (· + 1) h.totalBlocks_eq
  totalBytes_eq := by
    rw [List.sum_append, List.sum_singleton, ← Nat.add_assoc, ← h.totalBytes_eq]
    rfl
  fileBlocks_eq := by
    rw [List.length_append, ← h.fileBlocks_eq]
    rfl
  fileBytes_eq := by
    rw [List.sum_append, List.sum_singleton, ← h.fileBytes_eq]
    rfl

/-- What is taken off at the end of a file has been added before. -/
theorem Books.fileBytes_le (h : Books done reported useful s) : s.fileBytes ≤ s.totalBytes := by
  rw [h.fileBytes_eq, h.totalBytes_eq]
  exact Nat.le_add_left _ _

/-- A file is complete, and it counts with what has been delivered. -/
theorem Books.finishFile (h : Books done reported useful s) (bytes : Nat) :
    Books (done ++ [⟨s.fileName, bytes⟩]) reported [] (s.finishFile bytes) where
  filesDone_eq := by
    rw [List.reverse_append, ← h.filesDone_eq]
    rfl
  totalBlocks_eq := h.totalBlocks_eq
  totalBytes_eq := by
    show s.totalBytes - s.fileBytes + bytes = _
    rw [h.totalBytes_eq, h.fileBytes_eq, Nat.add_sub_cancel]
    simp
  fileBlocks_eq := rfl
  fileBytes_eq := rfl

theorem Books.progress_completeBlock (h : Books done reported useful s) (bytes : Nat) :
    (s.completeBlock bytes).progress =
      ⟨s.fileName, s.fileLength, (useful ++ [bytes]).length, (useful ++ [bytes]).sum⟩ := by
  rw [progress, (h.completeBlock bytes).fileBlocks_eq, (h.completeBlock bytes).fileBytes_eq]
  rfl

/-- A summary between two files says what is in the books. -/
theorem Books.summary (h : Books done reported [] s) (now : Nat) :
    (s.summary now).files = done ∧ (s.summary now).blocks = reported ∧
      (s.summary now).bytes = (done.map (·.bytes)).sum := by
  refine ⟨?_, h.totalBlocks_eq, h.totalBytes_eq⟩
  show s.filesDone.reverse = done
  rw [h.filesDone_eq, List.reverse_reverse]

end Session

namespace Party

variable {δ φ : Type} {s s' next : Party δ φ}

/-- A party tells, or has told, that every file went through. -/
def Claims (s : Party δ φ) (summary : Summary) : Prop :=
  s.phase = .cancelling (.ok (.completed summary)) ∨ s.phase = .over (.ok (.completed summary))

/-- An act that does not count anything. If it completes the transfer, which it may do only if
`closing`, the summary is that of the session. -/
structure Counts (closing : Bool) (s next : Party δ φ) : Prop where
  tally_eq : next.session.tally = s.session.tally
  claims : ∀ summary, next.Claims summary →
    closing = true ∧ ∃ now, summary = next.session.summary now

/-- A party that fails does not tell that every file went through. -/
theorem not_claims_fail (s : Party δ φ) (e : TransferError) (summary : Summary) :
    ¬(s.fail e).Claims summary := by
  rintro (hphase | hphase) <;>
    rcases s.phase_fail e with hfail | hfail <;> cases hphase.symm.trans hfail

variable {closing : Bool} (h : s'.session.tally = s.session.tally)

include h

theorem counts_goto (step : φ) : Counts closing s (s'.goto step) :=
  ⟨h, by rintro summary (hphase | hphase) <;> cases hphase⟩

theorem counts_fail (e : TransferError) : Counts closing s (s'.fail e) :=
  ⟨h, fun summary hclaims => absurd hclaims (s'.not_claims_fail e summary)⟩

theorem counts_abort : Counts closing s s'.abort :=
  ⟨h, by rintro summary (hphase | hphase) <;> cases hphase⟩

theorem counts_reject (e : TransferError) : Counts closing s (s'.reject e) :=
  ⟨h, by rintro summary (hphase | hphase) <;> cases hphase⟩

theorem counts_complete : Counts true s s'.complete := by
  refine ⟨h, ?_⟩
  rintro summary (hphase | hphase)
  · cases hphase
  · cases hphase
    exact ⟨rfl, s'.moment.now, rfl⟩

theorem counts_retry (stage : Stage) (step : φ) : Counts closing s (s'.retry stage step) :=
  retry_induction stage step (@counts_fail _ _ s (s'.mapSession Session.recordRetry) closing h)
    (@counts_goto _ _ s (s'.mapSession Session.recordRetry) closing h step)

theorem ensures_write_counts (data : Bytes) (step : φ) :
    (s'.write data step).Ensures fun _ next => Counts closing s next := by
  refine ensures_write ?_ ?_
  · intro reply moment e
    exact @counts_fail _ _ s { s' with moment } closing h e
  · intro moment
    exact @counts_goto _ _ s { s' with moment } closing h step

theorem ensures_unlessAborted_counts {act : Action (Party δ φ)}
    (hact : act.Ensures fun _ next => Counts closing s next) :
    (s'.unlessAborted act).Ensures fun _ next => Counts closing s next :=
  ensures_unlessAborted (counts_abort h) hact

omit h in
theorem ensures_listen_counts {task : Line.Task} {again : Line.Task → φ}
    {heard : Option Bytes → Party δ φ → Party δ φ}
    (hheard : ∀ result s', s'.session.tally = s.session.tally →
      Counts closing s (heard result s')) :
    (s.listen task again heard).Ensures fun _ next => Counts closing s next := by
  refine ensures_listen ?_ ?_ ?_ ?_
  · intro used pending _ _
    exact hheard (some used) _ rfl
  · intro timeout e e' moment pending
    exact @counts_fail _ _ s { s with pending, moment } closing rfl e'
  · intro timeout arrived moment used pending _
    exact hheard none _ rfl
  · intro timeout arrived moment used pending task' _ _ _
    exact @counts_goto _ _ s { s with pending, moment } closing rfl (again task')

end Party

end BlockTransfer
