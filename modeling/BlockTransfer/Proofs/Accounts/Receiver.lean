import BlockTransfer.Proofs.Accounts.Session
import BlockTransfer.Proofs.Receiver.Delivery

/-!
# The accounts of a receiver

Someone who sees which files a receiver begins, which blocks it accepts and which files it closes
can keep accounts of the transfer. A block counts with the bytes that belong to the file as far as
is known when it comes: all of them, unless the length of the file was declared. The receiver
reports after each block what is in these accounts, and its session has counted the same.

## Main definitions

* `Receiver.usefulBytes`: the bytes of blocks that belong to a file.
* `Receiver.book`: the blocks of the current file, as they are seen in a run.
* `Receiver.closings`: the files that have been closed in a run.

## Main results

* `Receiver.audited_act`: the accounts are right after every act if they were right before it.
* `Receiver.audited_trace`: the accounts are right in every run.
-/

namespace BlockTransfer.Receiver

/-! ## Useful bytes -/

/-- How many bytes of a payload belong to a file. If the length of the file was declared, what comes
after it does not; so many bytes have come before. -/
def useful (length? : Option Nat) (before : Nat) (payload : Bytes) : Nat :=
  match length? with
  | none => payload.length
  | some length => min payload.length (length - before)

/-- How many bytes of each payload belong to a file. -/
def usefulBytes (length? : Option Nat) (before : Nat) : List Bytes → List Nat
  | [] => []
  | payload :: payloads =>
    useful length? before payload :: usefulBytes length? (before + payload.length) payloads

theorem usefulBytes_concat (length? : Option Nat) (before : Nat) (payloads : List Bytes)
    (payload : Bytes) :
    usefulBytes length? before (payloads ++ [payload]) =
      usefulBytes length? before payloads ++
        [useful length? (before + payloads.flatten.length) payload] := by
  induction payloads generalizing before with
  | nil => rfl
  | cons first payloads ih =>
    simp only [List.cons_append, usefulBytes, ih, List.flatten_cons, List.length_append,
      Nat.add_assoc]

/-! ## What is seen of files -/

/-- What is seen of the current file. -/
structure Book where
  /-- The header, if there is one. -/
  header : Option FileHeader
  /-- The payloads of the blocks that have been accepted. -/
  payloads : List Bytes := []
  /-- The number of reports. -/
  reported : Nat := 0

namespace Book

/-- How many bytes of each block belong to the file. -/
def useful (book : Book) : List Nat :=
  usefulBytes (declaredLength book.header) 0 book.payloads

/-- What is to be reported of the file. -/
def progress (book : Book) : Progress where
  fileName := book.header.map FileHeader.name
  fileLength := declaredLength book.header
  blocks := book.payloads.length
  bytes := book.useful.sum

/-- A file with one more block. -/
def accept (book : Book) (payload : Bytes) : Book :=
  { book with payloads := book.payloads ++ [payload] }

/-- A file with one more report. -/
def report (book : Book) : Book :=
  { book with reported := book.reported + 1 }

/-- What is seen of the current file after one more act. -/
def after (book : Option Book) (act : Act Receiver) : Option Book :=
  match act.event with
  | .openFile header _ => some { header }
  | .report _ => book.map report
  | _ =>
    match acceptance act.state with
    | some accepted => book.map (·.accept accepted.2.payload)
    | none => book

end Book

/-- What is seen of the current file in a run so far. -/
def book (past : List (Act Receiver)) : Option Book :=
  past.foldl Book.after none

/-- The file that has been closed, if one has. -/
def closed? : Event → Option ReceivedFile
  | .closeFile file (.ok ()) => some file
  | .closeFile _ (.error _) | .silent | .read _ _ | .write _ _ | .report _ | .fetch _ _ _
  | .openFile _ _ | .store _ _ => none

/-- The files that have been closed in a run so far. -/
def closings (past : List (Act Receiver)) : List ReceivedFile :=
  past.filterMap fun act => closed? act.event

/-- What is to be reported of a file that has been closed. -/
def fileReport (file : ReceivedFile) : FileReport where
  name := file.header.map FileHeader.name
  bytes := file.bytes

theorem length_usefulBytes (length? : Option Nat) (before : Nat) (payloads : List Bytes) :
    (usefulBytes length? before payloads).length = payloads.length := by
  induction payloads generalizing before with
  | nil => rfl
  | cons payload payloads ih => simp only [usefulBytes, List.length_cons, ih]

theorem book_concat (past : List (Act Receiver)) (act : Act Receiver) :
    book (past ++ [act]) = Book.after (book past) act := by
  rw [book, List.foldl_append]
  rfl

theorem closings_concat {past : List (Act Receiver)} {act : Act Receiver}
    (h : closed? act.event = none) : closings (past ++ [act]) = closings past := by
  rw [closings, List.filterMap_append]
  simp [closings, h]

theorem closings_concat_closeFile (past : List (Act Receiver)) (s : Receiver)
    (file : ReceivedFile) :
    closings (past ++ [⟨s, .closeFile file (.ok ())⟩]) = closings past ++ [file] := by
  rw [closings, List.filterMap_append]
  rfl

/-- Whether nothing can be seen in an event that belongs to the accounts. -/
def offBooks : Event → Bool
  | .silent | .read _ _ | .write _ _ | .store _ _ => true
  | _ => false

theorem book_concat_of_offBooks {past : List (Act Receiver)} {s : Receiver} {event : Event}
    (hevent : offBooks event = true) (haccept : acceptance s = none) :
    book (past ++ [⟨s, event⟩]) = book past := by
  rw [book_concat, Book.after]
  cases event <;> simp_all [offBooks]

/-! ## Acts that do not count anything -/

/-- Whether something is counted at a step. -/
def Step.counts : Step → Bool
  | .openFile _ _ | .counted _ | .closeFile => true
  | _ => false

/-- Whether the transfer may be complete after a step. -/
def Step.closes : Step → Bool
  | .finish => true
  | _ => false

section Counts

variable {s s' : Receiver} {closing : Bool}

theorem counts_heardStart (purpose : Purpose) (heard : Option Bytes)
    (h : s'.session.tally = s.session.tally) :
    Party.Counts closing s (heardStart purpose heard s') :=
  heardStart_induction purpose heard (Party.counts_fail h _)
    (fun _ _ _ => Party.counts_goto h _) fun _ => Party.counts_goto h _

theorem counts_heardRest (purpose : Purpose) (frame : Bytes) (needed : Nat)
    (heard : Option Bytes) (h : s'.session.tally = s.session.tally) :
    Party.Counts closing s (heardRest purpose frame needed heard s') :=
  heardRest_induction purpose frame needed heard (fun _ _ _ => Party.counts_goto h _)
    fun _ => Party.counts_goto h _

theorem ensures_judgeSolicited_counts (s : Receiver) (stage : Stage) (incoming : Incoming) :
    (judgeSolicited s stage incoming).Ensures fun _ next => Party.Counts closing s next := by
  unfold judgeSolicited
  cases incoming with
  | block block =>
    have hreset : (s.mapSession Session.resetRetries).session.tally = s.session.tally := rfl
    dsimp only
    split
    · exact Party.counts_goto hreset _
    · unfold readHeader
      split
      · exact Party.counts_fail hreset _
      · split
        · exact Party.counts_fail hreset _
        · exact Party.ensures_write_counts hreset _ _
        · exact Party.counts_goto hreset _
  | endOfFile =>
    dsimp only
    split
    · exact @Party.counts_goto _ _ s (s.mapSession Session.resetRetries) closing rfl _
    · exact Party.ensures_write_counts rfl _ _
  | corrupt e => exact @Party.counts_goto _ _ s s closing rfl _
  | silence =>
    refine Party.counts_goto ?_ _
    unfold fallBack
    dsimp only
    split <;> rfl

theorem counts_take (s : Receiver) (payload : Bytes) : Party.Counts closing s (take s payload) := by
  unfold take
  split
  · exact Party.counts_goto rfl _
  · dsimp only
    split
    · exact @Party.counts_goto _ _ s { s with job := { s.job with held := some payload } } closing
        rfl _
    · exact @Party.counts_goto _ _ s { s with job := { s.job with held := some payload } } closing
        rfl _

theorem ensures_judgeData_counts (s : Receiver) (incoming : Incoming) :
    (judgeData s incoming).Ensures fun _ next => Party.Counts closing s next := by
  unfold judgeData
  cases incoming with
  | block block =>
    dsimp only
    split
    · exact counts_take s _
    · split
      · exact Party.ensures_write_counts rfl _ _
      · exact Party.counts_fail rfl _
  | endOfFile =>
    have hended : (s.mapSession (·.enter .awaitEotAck)).session.tally = s.session.tally := rfl
    dsimp only
    split
    · refine Party.ensures_write_counts ?_ _ _
      exact hended
    · exact Party.ensures_write_counts hended _ _
  | corrupt e =>
    dsimp only
    split
    · exact Party.counts_fail rfl _
    · exact @Party.counts_goto _ _ s s closing rfl _
  | silence =>
    dsimp only
    split
    · exact Party.counts_fail rfl _
    · split
      · exact Party.ensures_write_counts rfl _ _
      · exact Party.ensures_write_counts rfl _ _

theorem ensures_keep_counts (s : Receiver) (data : Bytes) (step : Step) :
    (keep s data step).Ensures fun _ next => Party.Counts closing s next := by
  intro reply moment
  cases reply with
  | error e => exact @Party.counts_fail _ _ s { s with moment } closing rfl _
  | ok =>
    refine @Party.counts_goto _ _ s { s with
      moment
      job := { s.job with delivered := s.job.delivered + data.length } } closing rfl step

/-- What a receiver has counted does not change at most steps. -/
theorem ensures_counts (s : Receiver) {step : Step} (hstep : step.counts = false) :
    (Receiver.step s step).Ensures fun _ next => Party.Counts step.closes s next := by
  cases step with
  | start =>
    simp only [Receiver.step, Action.Ensures, start]
    split
    · exact Party.counts_reject rfl _
    · split
      · exact Party.counts_goto rfl _
      · exact Party.counts_goto rfl _
  | solicit stage =>
    exact @Party.counts_goto _ _ s
      (s.mapSession fun session => (session.enter .awaitHandshake).resetRetries) _ rfl _
  | attempt stage prompt =>
    refine Party.ensures_unlessAborted_counts rfl ?_
    split
    · exact Party.ensures_write_counts rfl _ _
    · exact Party.counts_goto rfl _
  | expect purpose => exact @Party.counts_goto _ _ s s _ rfl _
  | listen purpose task =>
    exact Party.ensures_listen_counts fun result _ => counts_heardStart purpose result
  | collect purpose frame needed task =>
    exact Party.ensures_listen_counts fun result _ => counts_heardRest purpose frame needed result
  | judge purpose incoming =>
    cases purpose with
    | solicited stage => exact ensures_judgeSolicited_counts s stage incoming
    | data => exact ensures_judgeData_counts s incoming
  | purge purpose task =>
    unfold Receiver.step
    exact Party.ensures_listen_counts fun _ _ h => Party.counts_goto h _
  | refuse purpose => exact Party.ensures_write_counts rfl _ _
  | missed purpose prompt =>
    cases purpose with
    | solicited stage => exact Party.counts_retry rfl _ _
    | data => exact Party.counts_retry rfl _ _
  | announced header =>
    simp only [Receiver.step]
    split
    · exact Party.ensures_write_counts rfl _ _
    · exact Party.ensures_write_counts rfl _ _
  | signal header => exact Party.ensures_write_counts rfl _ _
  | nextBlock first => exact Party.ensures_unlessAborted_counts rfl (Party.counts_goto rfl _)
  | store data useful => exact ensures_keep_counts s data _
  | accept useful =>
    simp only [Receiver.step]
    split
    · exact @Party.counts_goto _ _ s s _ rfl _
    · exact Party.ensures_write_counts rfl _ _
  | repeated number =>
    simp only [Receiver.step]
    split
    · exact Party.ensures_write_counts rfl _ _
    · exact @Party.counts_goto _ _ s s _ rfl _
  | settle =>
    simp only [Receiver.step, Action.Ensures, settle]
    split
    · exact Party.counts_goto rfl _
    · exact Party.counts_goto rfl _
  | storeLast data => exact ensures_keep_counts s data _
  | finish => exact @Party.counts_complete _ _ s s rfl
  | openFile | counted | closeFile => cases hstep

end Counts

/-! ## Accounts -/

namespace Step

/-- Whether a file is in hand at a step. -/
def inFile (step : Step) : Bool :=
  match step.region with
  | .between => false
  | _ => true

/-- The useful bytes of a block that has been accepted and not been counted. -/
def due : Step → List Nat
  | .store _ due | .accept due | .counted due => [due]
  | _ => []

/-- The number of bytes that are still to be stored of a block that has been accepted. -/
def unstored : Step → Nat
  | .store data _ => data.length
  | _ => 0

/-- Whether all blocks of a file have come. -/
def ended : Step → Bool
  | .storeLast _ | .closeFile => true
  | _ => false

end Step

/-- A receiver keeps what is seen of its file, of which the blocks with the given useful bytes have
been counted. -/
structure Book.Open (b : Book) (s : Receiver) (counted : List Nat) (step : Step) : Prop where
  header_eq : s.job.header = b.header
  name_eq : s.session.fileName = b.header.map FileHeader.name
  length_eq : s.session.fileLength = declaredLength b.header
  reported_eq : b.reported = counted.length
  useful_eq : b.useful = counted ++ step.due
  /-- Of a file of declared length all is stored that belongs to it. -/
  delivered_eq : step.ended = false → ∀ length, declaredLength b.header = some length →
    s.job.delivered + step.unstored = min length b.payloads.flatten.length

/-- What a receiver has counted of the current file at a step. -/
def Counted (book? : Option Book) (s : Receiver) (counted : List Nat) (step : Step) : Prop :=
  if step.inFile then ∃ b, book? = some b ∧ b.Open s counted step else counted = []

/-- A report after a block says what is seen of the current file, which has one block more than
reports. -/
def ReportedRight (before : List (Act Receiver)) (_ : Receiver) (progress : Progress) : Prop :=
  ∃ b, book before = some b ∧ b.payloads.length = b.reported + 1 ∧ progress = b.progress

/-- The accounts of a receiver are right: its session has counted the files that have been closed
and the useful bytes of the blocks that have been reported, and every report was right. -/
structure Audited (past : List (Act Receiver)) (s : Receiver) (counted : List Nat) : Prop where
  books : s.session.Books ((closings past).map fileReport) (reports past).length counted
  at_step : ∀ step, s.phase = .doing step → Counted (book past) s counted step
  claims : ∀ summary, s.Claims summary →
    counted = [] ∧ ∃ now, summary = s.session.summary now
  reported : EachReport ReportedRight past

section Audits

variable {past : List (Act Receiver)} {s next : Receiver} {counted : List Nat}
  {step step' : Step} {event : Event} {b : Book}

theorem Counted.exists_open (h : Counted (book past) s counted step) (hstep : step.inFile = true) :
    ∃ b, book past = some b ∧ b.Open s counted step := by
  rwa [Counted, if_pos hstep] at h

theorem Counted.eq_nil (h : Counted (book past) s counted step) (hstep : step.inFile = false) :
    counted = [] := by
  rwa [Counted, hstep, if_neg Bool.false_ne_true] at h

theorem counted_nil {book? : Option Book} (hstep : step.inFile = false) :
    Counted book? s [] step := by
  rw [Counted, hstep, if_neg Bool.false_ne_true]

theorem counted_of_open (h : b.Open s counted step) (hstep : step.inFile = true) :
    Counted (some b) s counted step := by
  rw [Counted, if_pos hstep]
  exact ⟨b, rfl, h⟩

/-- Unless a block or the end of a file is being dealt with, a receiver is between two files or
between two blocks. -/
theorem region_of_handlesFile (h : step.handlesFile = false)
    (haccept : ∀ due, step ≠ .accept due) :
    step.region = .between ∨ step.region = .within := by
  cases step with
  | accept due => exact absurd rfl (haccept due)
  | expect purpose | listen purpose | collect purpose | judge purpose | purge purpose
  | refuse purpose | missed purpose =>
    cases purpose with
    | solicited stage => exact .inl rfl
    | data => exact .inr rfl
  | nextBlock | repeated => exact .inr rfl
  | openFile | store | counted | settle | storeLast | closeFile => cases h
  | _ => exact .inl rfl

/-- Between two blocks nothing is due. -/
theorem due_of_within (h : step.region = .within) :
    step.due = [] ∧ step.unstored = 0 ∧ step.ended = false := by
  cases step with
  | store | accept | counted | storeLast | closeFile => cases h
  | _ => exact ⟨rfl, rfl, rfl⟩

/-- A receiver goes on without another block. -/
theorem Book.Open.onward (h : b.Open s counted step) (hheader : next.job.header = s.job.header)
    (htally : next.session.tally = s.session.tally) (hdue : step'.due = step.due)
    (hdelivered : step'.ended = false → step.ended = false ∧
      next.job.delivered + step'.unstored = s.job.delivered + step.unstored) :
    b.Open next counted step' where
  header_eq := hheader.trans h.header_eq
  name_eq := (congrArg Session.Tally.fileName htally).trans h.name_eq
  length_eq := (congrArg Session.Tally.fileLength htally).trans h.length_eq
  reported_eq := h.reported_eq
  useful_eq := by rw [hdue, h.useful_eq]
  delivered_eq hended length hlength := by
    rw [(hdelivered hended).2]
    exact h.delivered_eq (hdelivered hended).1 length hlength

/-- An act that reports nothing and closes no file. -/
theorem Audited.concat (h : Audited past s counted) (hreport : event.reports = false)
    (hclose : closed? event = none)
    (hbooks : next.session.Books ((closings past).map fileReport) (reports past).length counted)
    (hstep : ∀ step', next.phase = .doing step' →
      Counted (book (past ++ [⟨s, event⟩])) next counted step')
    (hclaims : ∀ summary, next.Claims summary →
      counted = [] ∧ ∃ now, summary = next.session.summary now) :
    Audited (past ++ [⟨s, event⟩]) next counted where
  books := by
    rw [closings_concat hclose, reports_concat hreport]
    exact hbooks
  at_step := hstep
  claims := hclaims
  reported := by
    refine h.reported.concat ?_
    rintro progress rfl
    cases hreport

/-- A receiver that fails has nothing more to account for. -/
theorem Audited.fail (h : Audited past s counted) {s' : Receiver} (hreport : event.reports = false)
    (hclose : closed? event = none)
    (hbooks : s'.session.Books ((closings past).map fileReport) (reports past).length counted)
    (e : TransferError) : Audited (past ++ [⟨s, event⟩]) (s'.fail e) counted := by
  refine h.concat hreport hclose (hbooks.of_tally rfl) ?_ ?_
  · intro step' hphase
    exact absurd hphase ((Party.parted_fail s' e).phase_ne step')
  · exact fun summary hclaims => absurd hclaims (s'.not_claims_fail e summary)

/-- A receiver that goes on. -/
theorem Audited.goto (h : Audited past s counted) {s' : Receiver} (hreport : event.reports = false)
    (hclose : closed? event = none)
    (hbooks : s'.session.Books ((closings past).map fileReport) (reports past).length counted)
    (hstep : Counted (book (past ++ [⟨s, event⟩])) (s'.goto step') counted step') :
    Audited (past ++ [⟨s, event⟩]) (s'.goto step') counted := by
  refine h.concat hreport hclose hbooks ?_ ?_
  · rintro step ⟨⟩
    exact hstep
  · rintro summary (hphase | hphase) <;> cases hphase

/-- A receiver that stays in its file. -/
theorem Audited.onward (h : Audited past s counted) {s' : Receiver} (hevent : offBooks event = true)
    (haccept : acceptance s = none) (htally : s'.session.tally = s.session.tally)
    (hstep : step'.inFile = true)
    (hopen : ∃ b, book past = some b ∧ b.Open (s'.goto step') counted step') :
    Audited (past ++ [⟨s, event⟩]) (s'.goto step') counted := by
  obtain ⟨b, hbook, hopen⟩ := hopen
  refine h.goto ?_ ?_ (h.books.of_tally htally) ?_
  · cases event <;> simp_all [offBooks, Event.reports]
  · cases event <;> simp_all [offBooks, closed?]
  · rw [book_concat_of_offBooks hevent haccept, hbook]
    exact counted_of_open hopen hstep

/-- Acts that do nothing with files leave the accounts alone. -/
theorem Audited.quiet (h : Audited past s counted) (hphase : s.phase = .doing step)
    (hregion : step.region = .between ∨ step.region = .within) (haccept : acceptance s = none)
    (hremains : Remains s step.region event next) (hcounts : Party.Counts step.closes s next) :
    Audited (past ++ [⟨s, event⟩]) next counted := by
  obtain ⟨hquiet, hnext⟩ := hremains
  have hcounted := h.at_step step hphase
  have hevent : offBooks event = true := by
    cases event <;> simp_all [Receiver.quiet, offBooks]
  refine h.concat ?_ ?_ (h.books.of_tally hcounts.tally_eq) ?_ ?_
  · cases event <;> simp_all [offBooks, Event.reports]
  · cases event <;> simp_all [offBooks, closed?]
  · intro step' hphase'
    obtain ⟨step'', hphase'', hregion'', hkept⟩ := hnext.resolve_left fun hparted =>
      hparted.phase_ne step' hphase'
    obtain rfl : step'' = step' := by
      rw [hphase''] at hphase'
      exact Phase.doing.inj hphase'
    rw [book_concat_of_offBooks hevent haccept]
    rcases hregion with hregion | hregion
    · have hstep : step.inFile = false := by rw [Step.inFile, hregion]
      have hstep'' : step''.inFile = false := by rw [Step.inFile, hregion'', hregion]
      rw [hcounted.eq_nil hstep]
      exact counted_nil hstep''
    · have hstep : step.inFile = true := by rw [Step.inFile, hregion]
      have hstep'' : step''.inFile = true := by rw [Step.inFile, hregion'', hregion]
      obtain ⟨b, hbook, hopen⟩ := hcounted.exists_open hstep
      -- Nothing is due before the act or after it.
      have hdue := due_of_within hregion
      have hdue'' := due_of_within (hregion''.trans hregion)
      rw [hbook]
      refine counted_of_open (hopen.onward ?_ hcounts.tally_eq ?_ ?_) hstep''
      · exact congrArg Kept.header hkept
      · rw [hdue.1, hdue''.1]
      · rw [hdue.2.1, hdue''.2.1]
        exact fun _ => ⟨hdue.2.2, congrArg Kept.delivered hkept⟩
  · intro summary hclaims
    obtain ⟨hcloses, now, hsummary⟩ := hcounts.claims summary hclaims
    cases step with
    | finish => exact ⟨hcounted.eq_nil rfl, now, hsummary⟩
    | _ => cases hcloses

/-- The accounts are right when a file is begun. -/
theorem Audited.ensures_openFile (h : Audited past s counted) {header : Option FileHeader}
    {first : Option Incoming} (hphase : s.phase = .doing (.openFile header first)) :
    (Receiver.step s (.openFile header first)).Ensures fun event next =>
      Audited (past ++ [⟨s, event⟩]) next counted := by
  obtain rfl : counted = [] := (h.at_step _ hphase).eq_nil rfl
  have hbooks : (begun s header).session.Books ((closings past).map fileReport)
      (reports past).length [] := (h.books.beginFile _ _).of_tally rfl
  rw [Receiver.step, begin_eq]
  intro reply moment
  cases reply with
  | error e => exact h.fail (by rfl) (by rfl) (by exact hbooks) _
  | ok =>
    refine h.goto (by rfl) (by rfl) (by exact hbooks) ?_
    rw [book_concat]
    have hopen : Book.Open { header }
        { begun s header with moment, phase := .doing (.nextBlock first) } []
        (.nextBlock first) := by
      refine ⟨rfl, rfl, rfl, rfl, rfl, ?_⟩
      intro _ length _
      show 0 = min length 0
      rw [Nat.min_zero]
    exact counted_of_open hopen rfl

/-- A payload counts with what belongs to the file. -/
theorem Book.useful_accept (b : Book) (payload : Bytes) :
    (b.accept payload).useful = b.useful ++
      [Receiver.useful (declaredLength b.header) b.payloads.flatten.length payload] := by
  rw [Book.useful, Book.accept, usefulBytes_concat, Nat.zero_add]
  rfl

/-- A block is due when it has been accepted. -/
theorem Book.Open.accept (h : b.Open s counted step) (hregion : step.region = .within)
    {payload : Bytes} (hheader : next.job.header = s.job.header)
    (hsession : next.session = s.session)
    (hdue : step'.due =
      [Receiver.useful (declaredLength b.header) b.payloads.flatten.length payload])
    (hdelivered : ∀ length, declaredLength b.header = some length →
      next.job.delivered + step'.unstored =
        min length (b.payloads.flatten.length + payload.length)) :
    (b.accept payload).Open next counted step' where
  header_eq := hheader.trans h.header_eq
  name_eq := (congrArg Session.fileName hsession).trans h.name_eq
  length_eq := (congrArg Session.fileLength hsession).trans h.length_eq
  reported_eq := h.reported_eq
  useful_eq := by
    rw [Book.useful_accept, h.useful_eq, (due_of_within hregion).1, hdue, List.append_nil]
  delivered_eq _ length hlength := by
    rw [Book.accept, List.flatten_append, List.flatten_singleton, List.length_append]
    exact hdelivered length hlength

/-- The accounts are right when a block is accepted. -/
theorem Audited.ensures_accept (h : Audited past s counted) {accepted : Trailer × Block}
    (haccept : acceptance s = some accepted) (hphase : s.phase = .doing step) :
    (Receiver.step s step).Ensures fun event next =>
      Audited (past ++ [⟨s, event⟩]) next counted := by
  obtain ⟨block, hblock, hnumber, rfl⟩ := phase_of_acceptance haccept
  obtain rfl : step = .judge .data (.block block) := Phase.doing.inj (hphase.symm.trans hblock)
  obtain ⟨b, hbook, hopen⟩ := (h.at_step _ hphase).exists_open rfl
  have hbook' : book (past ++ [⟨s, .silent⟩]) = some (b.accept block.payload) := by
    rw [book_concat, hbook, Book.after]
    simp only [haccept]
    rfl
  have hdeclared : declared s = declaredLength b.header := by
    rw [declared, hopen.header_eq]
    rfl
  rw [Receiver.step, judgeData, if_pos hnumber]
  show Audited (past ++ [⟨s, .silent⟩]) (take s block.payload) counted
  rw [take, hdeclared]
  cases hlength : declaredLength b.header with
  | some length =>
    -- So much of the payload belongs to the file as is still missing.
    have hdelivered : s.job.delivered = min length b.payloads.flatten.length :=
      hopen.delivered_eq rfl length hlength
    refine h.goto rfl rfl h.books ?_
    rw [hbook']
    refine counted_of_open (hopen.accept rfl rfl rfl ?_ ?_) rfl
    · simp only [Step.due, Receiver.useful, hlength, List.length_take, hdelivered]
      congr 1
      omega
    · rintro _ hlength'
      obtain rfl : length = _ := Option.some.inj (hlength.symm.trans hlength')
      simp only [Step.unstored, List.length_take, Party.goto, hdelivered]
      omega
  | none =>
    have hundeclared : ∀ length, declaredLength b.header ≠ some length := by
      simp [hlength]
    have hdue : [block.payload.length] =
        [Receiver.useful (declaredLength b.header) b.payloads.flatten.length block.payload] := by
      rw [hlength, Receiver.useful]
    dsimp only
    split
    · refine h.goto rfl rfl h.books ?_
      rw [hbook']
      refine counted_of_open (hopen.accept rfl rfl rfl hdue ?_) rfl
      exact fun length hlength => absurd hlength (hundeclared length)
    · refine h.goto rfl rfl h.books ?_
      rw [hbook']
      refine counted_of_open (hopen.accept rfl rfl rfl hdue ?_) rfl
      exact fun length hlength => absurd hlength (hundeclared length)

/-- The accounts are right when data is stored. -/
theorem Audited.ensures_keep (h : Audited past s counted) (haccept : acceptance s = none)
    {data : Bytes} (hstep : step'.inFile = true)
    (hopen : ∀ moment, ∃ b, book past = some b ∧ b.Open { s with
      moment
      job := { s.job with delivered := s.job.delivered + data.length }
      phase := .doing step' } counted step') :
    (keep s data step').Ensures fun event next =>
      Audited (past ++ [⟨s, event⟩]) next counted := by
  intro reply moment
  cases reply with
  | error e => exact h.fail (by rfl) (by rfl) (by exact h.books) _
  | ok => exact h.onward (by rfl) haccept (by rfl) hstep (hopen moment)

/-- The accounts are right when a block is answered. -/
theorem Audited.ensures_answer (h : Audited past s counted) {due : Nat}
    (hphase : s.phase = .doing (.accept due)) (haccept : acceptance s = none) :
    (Receiver.step s (.accept due)).Ensures fun event next =>
      Audited (past ++ [⟨s, event⟩]) next counted := by
  obtain ⟨b, hbook, hopen⟩ := (h.at_step _ hphase).exists_open rfl
  simp only [Receiver.step]
  split
  · refine h.onward rfl haccept rfl rfl ⟨b, hbook, ?_⟩
    exact hopen.onward rfl rfl rfl fun _ => ⟨rfl, rfl⟩
  · refine Party.ensures_write ?_ ?_
    · intro reply moment e
      exact h.fail rfl rfl (by exact h.books) e
    · intro moment
      refine h.onward rfl haccept (by rfl) rfl ⟨b, hbook, ?_⟩
      exact hopen.onward rfl rfl rfl fun _ => ⟨rfl, rfl⟩

/-- The accounts are right when the end of a file is settled. -/
theorem Audited.settle (h : Audited past s counted) (hphase : s.phase = .doing .settle)
    (haccept : acceptance s = none) :
    Audited (past ++ [⟨s, .silent⟩]) (Receiver.settle s) counted := by
  obtain ⟨b, hbook, hopen⟩ := (h.at_step _ hphase).exists_open rfl
  unfold Receiver.settle
  split
  · refine h.onward rfl haccept rfl rfl ⟨b, hbook, hopen.onward rfl rfl rfl ?_⟩
    simp [Step.ended]
  · refine h.onward rfl haccept rfl rfl ⟨b, hbook, hopen.onward rfl rfl rfl ?_⟩
    simp [Step.ended]

/-- The accounts are right when a block is reported. -/
theorem Audited.ensures_counted (h : Audited past s counted) {due : Nat}
    (hphase : s.phase = .doing (.counted due)) :
    (Receiver.step s (.counted due)).Ensures fun event next =>
      Audited (past ++ [⟨s, event⟩]) next (counted ++ [due]) := by
  obtain ⟨b, hbook, hopen⟩ := (h.at_step _ hphase).exists_open rfl
  have huseful : b.useful = counted ++ [due] := hopen.useful_eq
  have hprogress := h.books.progress_completeBlock due
  rw [hopen.name_eq, hopen.length_eq, ← huseful] at hprogress
  have hlength : b.useful.length = b.payloads.length := length_usefulBytes _ _ _
  intro moment
  refine ⟨?_, ?_, ?_, ?_⟩
  · rw [closings_concat rfl, reports_concat_report, List.length_append]
    exact h.books.completeBlock due
  · rintro step ⟨⟩
    rw [book_concat, hbook]
    have hopen' : b.report.Open { s with
        session := s.session.completeBlock due, moment, phase := .doing (.nextBlock none) }
        (counted ++ [due]) (.nextBlock none) := by
      refine ⟨hopen.header_eq, hopen.name_eq, hopen.length_eq, ?_, ?_, hopen.delivered_eq⟩
      · rw [List.length_append, ← hopen.reported_eq]
        rfl
      · show b.useful = counted ++ [due] ++ []
        rw [List.append_nil]
        exact huseful
    exact counted_of_open hopen' rfl
  · rintro summary (hphase | hphase) <;> cases hphase
  · refine h.reported.concat ?_
    rintro progress ⟨⟩
    refine ⟨b, hbook, ?_, ?_⟩
    · rw [← hlength, huseful, List.length_append, hopen.reported_eq]
      rfl
    · rw [Book.progress, ← hlength]
      exact hprogress

/-- The accounts are right when a file is closed. -/
theorem Audited.ensures_closeFile (h : Audited past s counted)
    (hphase : s.phase = .doing .closeFile) :
    (Receiver.step s .closeFile).Ensures fun event next =>
      ∃ counted, Audited (past ++ [⟨s, event⟩]) next counted := by
  obtain ⟨b, hbook, hopen⟩ := (h.at_step _ hphase).exists_open rfl
  intro reply moment
  cases reply with
  | error e => exact ⟨counted, h.fail (by rfl) (by rfl) (by exact h.books) _⟩
  | ok =>
    refine ⟨[], ?_⟩
    let act : Act Receiver := ⟨s, .closeFile ⟨s.job.header, s.job.delivered⟩ (.ok ())⟩
    have hreport : (⟨s.session.fileName, s.job.delivered⟩ : FileReport) =
        fileReport ⟨s.job.header, s.job.delivered⟩ := by
      rw [fileReport, hopen.name_eq, hopen.header_eq]
    have hbooks : (s.session.finishFile s.job.delivered).Books
        ((closings (past ++ [act])).map fileReport) (reports (past ++ [act])).length [] := by
      rw [closings_concat_closeFile, List.map_append, List.map_singleton, ← hreport,
        reports_concat rfl]
      exact h.books.finishFile s.job.delivered
    have hreported : EachReport _ (past ++ [act]) := h.reported.concat nofun
    dsimp only
    split
    · refine ⟨hbooks.of_tally rfl, ?_, ?_, hreported⟩
      · rintro step ⟨⟩
      · rintro summary (hphase' | hphase') <;> cases hphase'
        exact ⟨rfl, _, rfl⟩
    · refine ⟨hbooks, ?_, ?_, hreported⟩
      · rintro step ⟨⟩
        exact counted_nil rfl
      · rintro summary (hphase' | hphase') <;> cases hphase'

/-- The accounts of a receiver are right after every act. -/
theorem audited_act (h : Audited past s counted) :
    (act s).Ensures fun event next =>
      ∃ counted, Audited (past ++ [⟨s, event⟩]) next counted := by
  refine Party.ensures_act ?_ ?_
  · intro step hphase
    have hcounted := h.at_step step hphase
    cases haccept : acceptance s with
    | some accepted =>
      refine (h.ensures_accept haccept hphase).mono ?_
      exact fun _ _ haudited => ⟨counted, haudited⟩
    | none =>
      cases step with
      | openFile header first =>
        refine (h.ensures_openFile hphase).mono ?_
        exact fun _ _ haudited => ⟨counted, haudited⟩
      | store data due =>
        obtain ⟨b, hbook, hopen⟩ := hcounted.exists_open rfl
        refine (h.ensures_keep haccept rfl fun moment => ⟨b, hbook, ?_⟩).mono ?_
        · exact hopen.onward rfl rfl rfl fun _ => ⟨rfl, rfl⟩
        · exact fun _ _ haudited => ⟨counted, haudited⟩
      | accept due =>
        refine (h.ensures_answer hphase haccept).mono ?_
        exact fun _ _ haudited => ⟨counted, haudited⟩
      | counted due =>
        refine (h.ensures_counted hphase).mono ?_
        exact fun _ _ haudited => ⟨_, haudited⟩
      | settle => exact ⟨counted, h.settle hphase haccept⟩
      | storeLast data =>
        obtain ⟨b, hbook, hopen⟩ := hcounted.exists_open rfl
        refine (h.ensures_keep haccept rfl fun moment => ⟨b, hbook, ?_⟩).mono ?_
        · exact hopen.onward rfl rfl rfl (by simp [Step.ended])
        · exact fun _ _ haudited => ⟨counted, haudited⟩
      | closeFile => exact h.ensures_closeFile hphase
      | _ =>
        -- Nothing is done with files.
        refine ((ensures_remains hphase haccept rfl).and (ensures_counts s rfl)).mono ?_
        intro event next hnext
        refine ⟨counted, h.quiet hphase (region_of_handlesFile rfl ?_) haccept hnext.1 hnext.2⟩
        simp
  · intro ending reply moment hphase
    refine ⟨counted, h.concat rfl rfl (by exact h.books) ?_ ?_⟩
    · rintro step ⟨⟩
    · rintro summary (hphase' | hphase')
      · cases hphase'
      · obtain rfl : ending = .ok (.completed summary) := Phase.over.inj hphase'
        exact h.claims summary (.inl hphase)

theorem audited_new (options : Options) (moment : Moment) :
    Audited [] (new options moment) [] where
  books := Session.books_new _ _
  at_step step hphase := by
    obtain rfl : Step.start = step := Phase.doing.inj hphase
    exact counted_nil rfl
  claims := by rintro summary (hphase | hphase) <;> cases hphase
  reported := eachReport_nil _

/-- The accounts of a receiver are right in every run. -/
theorem audited_trace {ω : Type} (env : Surroundings ω) (options : Options) (moment : Moment)
    (w : ω) (acts : Nat) :
    ∃ counted, Audited (Action.trace env act acts (new options moment) w)
      (Action.run env act acts (new options moment) w).state counted :=
  @Action.invariant_trace _ _ act (fun past s => ∃ counted, Audited past s counted)
    (fun _ _ h => by
      obtain ⟨counted, haudited⟩ := h
      exact audited_act haudited)
    env acts [] (new options moment) w ⟨[], audited_new options moment⟩

end Audits

end BlockTransfer.Receiver
