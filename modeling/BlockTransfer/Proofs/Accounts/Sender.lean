import BlockTransfer.Proofs.Accounts.Session
import BlockTransfer.Proofs.Sender.Course
import BlockTransfer.Proofs.Sender.Words

/-!
# The accounts of a sender

Someone who sees what is read from the files of a sender, and which pieces of them make up its
blocks, can keep accounts of the transfer. A block counts with the bytes of its piece, without
padding. The sender reports after each block what is in these accounts, and its session has counted
the same. What it has counted of a file in the end is what has been read from it.

## Main definitions

* `Sender.seen`: what is seen of a file in a run.
* `Sender.sentReports`: what is to be reported of files that have been sent.

## Main results

* `Sender.audited_act`: the accounts are right after every act if they were right before it.
* `Sender.audited_trace`: the accounts are right in every run.
-/

namespace BlockTransfer.Sender

/-! ## What is seen of files -/

/-- The acts of a run so far while a file is the current one. -/
def actsOf (file : Nat) (past : List (Act Sender)) : List (Act Sender) :=
  past.filter fun act => act.state.job.index = file

/-- The piece for a block that has been fetched completely when an act is done. -/
def piece? (act : Act Sender) : Option Bytes :=
  match act.state.phase with
  | .doing (.gathered piece) => if piece.isEmpty then none else some piece
  | _ => none

/-- The pieces of a file that have been fetched for its blocks in a run so far. -/
def pieces (file : Nat) (past : List (Act Sender)) : List Bytes :=
  (actsOf file past).filterMap piece?

/-- The reports after blocks of a file in a run so far. -/
def reportsOf (file : Nat) (past : List (Act Sender)) : List Progress :=
  reports (actsOf file past)

/-- What is seen of a file. -/
structure Seen where
  /-- What has been read from it. -/
  content : Bytes := []
  /-- The pieces that have been fetched for its blocks. -/
  pieces : List Bytes := []
  /-- The number of reports. -/
  reported : Nat := 0

/-- What is seen of a file in a run so far. -/
def seen (file : Nat) (past : List (Act Sender)) : Seen where
  content := (readings file past).flatten
  pieces := pieces file past
  reported := (reportsOf file past).length

/-- What is to be reported of files that have been sent. -/
def sentReports (headers : List FileHeader) (past : List (Act Sender)) : List FileReport :=
  headers.mapIdx fun file header => ⟨some header.name, (readings file past).flatten.length⟩

/-- Whether nothing can be seen of files in an event. -/
def offBooks : Event → Bool
  | .report _ | .fetch _ _ (.ok _) => false
  | _ => true

section Seen

variable {past : List (Act Sender)} {act : Act Sender} {file : Nat} {s : Sender} {event : Event}
  {piece : Bytes}

theorem readings_concat (past : List (Act Sender)) (act : Act Sender) (file : Nat) :
    readings file (past ++ [act]) = readings file past ++ readings file [act] :=
  List.filterMap_append

theorem seen_concat (past : List (Act Sender)) (act : Act Sender) (file : Nat) :
    seen file (past ++ [act]) =
      ⟨(seen file past).content ++ (seen file [act]).content,
        (seen file past).pieces ++ (seen file [act]).pieces,
        (seen file past).reported + (seen file [act]).reported⟩ := by
  simp only [seen, readings_concat, pieces, reportsOf, reports, actsOf, List.filter_append,
    List.filterMap_append, List.flatten_append, List.length_append]

theorem readings_of_offBooks (h : offBooks act.event = true) (file : Nat) :
    readings file [act] = [] := by
  obtain ⟨s, event⟩ := act
  unfold offBooks at h
  split at h <;> simp_all [readings]

theorem reportsOf_of_offBooks (h : offBooks act.event = true) (file : Nat) :
    reportsOf file [act] = [] := by
  obtain ⟨s, event⟩ := act
  have hreport : reports [(⟨s, event⟩ : Act Sender)] = [] := by
    unfold offBooks at h
    split at h <;> simp_all [reports]
  by_cases hindex : s.job.index = file
  · simp [reportsOf, actsOf, hindex, hreport]
  · simp [reportsOf, actsOf, hindex, reports]

/-- Nothing is seen of any file in most acts. -/
theorem seen_concat_of_offBooks (h : offBooks act.event = true) (hpiece : piece? act = none)
    (file : Nat) : seen file (past ++ [act]) = seen file past := by
  have hpieces : pieces file [act] = [] := by
    by_cases hindex : act.state.job.index = file
    · simp [pieces, actsOf, hindex, hpiece]
    · simp [pieces, actsOf, hindex]
  rw [seen_concat]
  simp [seen, readings_of_offBooks h, reportsOf_of_offBooks h, hpieces]

/-- Nothing is seen of other files than the current one. -/
theorem seen_concat_of_ne (h : file ≠ act.state.job.index)
    (hreadings : readings file [act] = []) :
    seen file (past ++ [act]) = seen file past := by
  have hacts : actsOf file [act] = [] := by
    simp [actsOf, h.symm]
  rw [seen_concat]
  simp [seen, pieces, reportsOf, hacts, hreadings, reports]

/-- A block is reported. -/
theorem seen_concat_report (hphase : s.phase = .doing (.counted piece)) (progress : Progress) :
    seen s.job.index (past ++ [⟨s, .report progress⟩]) =
      { seen s.job.index past with reported := (seen s.job.index past).reported + 1 } := by
  rw [seen_concat]
  simp [seen, readings, pieces, piece?, reportsOf, reports, actsOf, hphase]

/-- A part of the file is read. -/
theorem seen_concat_fetch (hphase : s.phase = .doing (.gather piece)) (most : Nat) (data : Bytes) :
    seen s.job.index (past ++ [⟨s, .fetch s.job.index most (.ok data)⟩]) =
      { seen s.job.index past with
        content := (seen s.job.index past).content ++ data.take most } := by
  rw [seen_concat]
  simp [seen, readings, pieces, piece?, reportsOf, reports, actsOf, hphase]

/-- A piece is complete. -/
theorem seen_concat_gathered (hphase : s.phase = .doing (.gathered piece)) (hpiece : piece ≠ [])
    (hevent : offBooks event = true) :
    seen s.job.index (past ++ [⟨s, event⟩]) =
      { seen s.job.index past with pieces := (seen s.job.index past).pieces ++ [piece] } := by
  have hreadings := @readings_of_offBooks ⟨s, event⟩ hevent s.job.index
  have hreports := @reportsOf_of_offBooks ⟨s, event⟩ hevent s.job.index
  rw [seen_concat]
  simp [seen, hreadings, hreports, pieces, piece?, actsOf, hphase, hpiece]

end Seen

/-! ## Acts that end a run -/

/-- Whether the transfer may be complete after a step. -/
def Step.closes : Step → Bool
  | .nextFile | .acknowledged .endOfBatch => true
  | _ => false

section Counts

variable {s s' : Sender} {closing : Bool}

theorem counts_heardInvitation (invitation : Invitation) (task : Line.Task)
    (heard : Option Bytes) (h : s'.session.tally = s.session.tally) :
    Party.Counts closing s (heardInvitation invitation task heard s') := by
  unfold heardInvitation
  split
  · split
    · exact Party.counts_fail h _
    · rw [negotiate?_eq]
      cases mode? _ with
      | none => exact Party.counts_goto h _
      | some mode => exact Party.counts_goto (by exact h) _
    · exact Party.counts_goto h _
  · exact Party.counts_retry h _ _

theorem counts_heardAnswer (item : Item) (spare : Bool) (task : Line.Task)
    (heard : Option Bytes) (h : s'.session.tally = s.session.tally) :
    Party.Counts closing s (heardAnswer item spare task heard s') := by
  unfold heardAnswer refused
  split
  · split
    · exact Party.counts_fail h _
    · exact Party.counts_goto h _
    · split
      · exact Party.counts_goto h _
      · exact Party.counts_retry h _ _
    · exact Party.counts_goto h _
  · exact Party.counts_retry h _ _

theorem counts_heardInStream (piece : Bytes) (heard : Option Bytes)
    (h : s'.session.tally = s.session.tally) :
    Party.Counts closing s (heardInStream piece heard s') := by
  unfold heardInStream
  split
  · split
    · exact Party.counts_fail h _
    · exact Party.counts_goto h _
  · exact Party.counts_goto h _

theorem counts_fetched (piece : Bytes) (most : Nat) (reply : Except IoError Bytes)
    (h : s'.session.tally = s.session.tally) :
    Party.Counts closing s (fetched s' piece most reply) := by
  unfold fetched
  cases reply with
  | error e =>
    dsimp only
    split
    · exact Party.counts_goto h _
    · exact Party.counts_fail h _
  | ok data =>
    dsimp only
    split
    · exact Party.counts_goto h _
    · exact Party.counts_goto h _

theorem not_parted_goto (s : Sender) (step : Step) : ¬(s.goto step).Parted :=
  fun hparted => hparted.phase_ne step rfl

theorem not_parted_beginData (s : Sender) : ¬(beginData s).Parted := by
  unfold beginData
  split
  · exact not_parted_goto _ _
  · exact not_parted_goto _ _

theorem not_parted_invited (s : Sender) (invitation : Invitation) :
    ¬(invited s invitation).Parted := by
  unfold invited
  split
  · split
    · exact not_parted_beginData s
    · dsimp only
      split
      · exact not_parted_goto _ _
      · exact not_parted_goto _ _
  · exact not_parted_beginData s
  · exact not_parted_goto _ _

/-- What a sender has counted does not change when its run comes to an end. -/
theorem ensures_counts_of_parted (s : Sender) (step : Step) :
    (Sender.step s step).Ensures fun _ next =>
      next.Parted → Party.Counts step.closes s next := by
  cases step with
  | start =>
    intro _
    unfold start
    split
    · exact Party.counts_reject rfl _
    · split
      · exact Party.counts_reject rfl _
      · exact Party.counts_goto rfl _
  | nextFile =>
    intro _
    unfold nextFile
    split
    · exact Party.counts_goto rfl _
    · exact Party.counts_goto rfl _
    · exact Party.counts_complete rfl
  | await | sent => exact fun hparted => absurd hparted (not_parted_goto _ _)
  | attempt invitation =>
    refine (Party.ensures_unlessAborted_counts rfl ?_).mono fun _ _ h _ => h
    exact Party.counts_goto rfl _
  | listen invitation task =>
    refine (Party.ensures_listen_counts ?_).mono fun _ _ h _ => h
    exact fun heard _ h => counts_heardInvitation invitation task heard h
  | invited invitation => exact fun hparted => absurd hparted (not_parted_invited s invitation)
  | streamHeader | offer =>
    refine (Party.ensures_unlessAborted_counts rfl ?_).mono fun _ _ h _ => h
    exact Party.ensures_write_counts rfl _ _
  | answer item spare task =>
    refine (Party.ensures_listen_counts ?_).mono fun _ _ h _ => h
    exact fun heard _ h => counts_heardAnswer item spare task heard h
  | acknowledged item =>
    intro _
    cases item with
    | endOfBatch =>
      exact @Party.counts_complete _ _ s (s.mapSession Session.resetRetries) rfl
    | header | block | endOfFile => exact Party.counts_goto (by rfl) _
  | nextPiece =>
    refine (Party.ensures_unlessAborted_counts rfl ?_).mono fun _ _ h _ => h
    exact Party.counts_goto rfl _
  | gather piece => exact fun reply moment _ => counts_fetched piece _ reply (by rfl)
  | gathered piece =>
    show (gathered s piece).Ensures _
    unfold gathered
    split
    · exact fun hparted => absurd hparted (not_parted_goto _ _)
    · split
      · exact (Party.ensures_write_counts rfl _ _).mono fun _ _ h _ => h
      · exact fun hparted => absurd hparted (not_parted_goto _ _)
  | drain piece =>
    refine (Party.ensures_listen_counts ?_).mono fun _ _ h _ => h
    exact fun heard _ h => counts_heardInStream piece heard h
  | counted piece => exact fun _ hparted => absurd hparted (not_parted_goto _ _)

end Counts

/-! ## Accounts -/

/-- Where a sender is in a file. -/
inductive Stand
  /-- The data of the file has not been begun, or there is no file. -/
  | before
  /-- So much has been read for the next block. -/
  | reading (piece : Bytes)
  /-- A block with this piece is under way. -/
  | sending (piece : Bytes)
  /-- The end of the file has been read. -/
  | ended
  deriving DecidableEq

/-- Where a sender is in a file while it sends an item. -/
def Item.stand : Item → Stand
  | .header | .endOfBatch => .before
  | .block piece => .sending piece
  | .endOfFile => .ended

/-- Where a sender is in a file at a step. -/
def Step.stand : Step → Stand
  | .start | .nextFile | .await _ | .attempt _ | .listen _ _ | .invited _ | .streamHeader => .before
  | .offer item _ | .sent item _ | .answer item _ _ | .acknowledged item => item.stand
  | .nextPiece => .reading []
  | .gather piece | .gathered piece => .reading piece
  | .drain piece | .counted piece => .sending piece

/-- Whether a step belongs to the end of a batch. -/
def Step.ofEnd : Step → Bool
  | .await invitation | .attempt invitation | .listen invitation _ | .invited invitation =>
    invitation = .endOfBatch
  | .offer item _ | .sent item _ | .answer item _ _ | .acknowledged item => item = .endOfBatch
  | _ => false

namespace Stand

/-- The number of files that count as sent, if so many have been sent before the current one. -/
def finished (index : Nat) : Stand → Nat
  | ended => index + 1
  | _ => index

/-- The number of files that have been begun, if so many have been sent before the current one. -/
def begun (index : Nat) : Stand → Nat
  | before => index
  | _ => index + 1

/-- The piece of a block that has not been counted. -/
def due : Stand → List Bytes
  | sending piece => [piece]
  | _ => []

/-- What has been read and is not in a block. -/
def unblocked : Stand → Bytes
  | reading piece => piece
  | _ => []

/-- Whether data of a file is being sent. -/
def inData : Stand → Bool
  | reading _ | sending _ => true
  | _ => false

end Stand

/-- A sender keeps what is seen of the current file, of which blocks with the given pieces have been
counted. -/
structure Seen.Open (file : Seen) (header : FileHeader) (s : Sender) (counted : List Bytes)
    (stand : Stand) : Prop where
  name_eq : s.session.fileName = some header.name
  length_eq : s.session.fileLength = header.length.map UInt64.toNat
  pieces_eq : file.pieces = counted ++ stand.due
  content_eq : file.content = file.pieces.flatten ++ stand.unblocked
  reported_eq : file.reported = counted.length
  sent_eq : s.job.sent = counted.flatten.length

/-- What a sender has counted when it is somewhere in a file. -/
structure Stands (headers : List FileHeader) (past : List (Act Sender)) (s : Sender)
    (done : List FileReport) (counted : List Bytes) (stand : Stand) : Prop where
  files_eq : s.job.files = headers.drop s.job.index
  done_eq : done = sentReports (headers.take (stand.finished s.job.index)) past
  unseen : ∀ file, stand.begun s.job.index ≤ file → seen file past = {}
  counted_eq : stand.inData = false → counted = []
  open_data : stand.inData = true → ∃ header ∈ s.job.files.head?,
    (seen s.job.index past).Open header s counted stand

/-- A report after a block says what is seen of the current file, which has one block more than
reports. Its blocks hold all that has been read from it so far. -/
def ReportedRight (headers : List FileHeader) (before : List (Act Sender)) (s : Sender)
    (progress : Progress) : Prop :=
  ∃ header, headers[s.job.index]? = some header ∧
    (pieces s.job.index before).length = (reportsOf s.job.index before).length + 1 ∧
    (pieces s.job.index before).flatten = (readings s.job.index before).flatten ∧
    progress = ⟨some header.name, header.length.map UInt64.toNat,
      (pieces s.job.index before).length,
      ((pieces s.job.index before).map List.length).sum⟩

/-- The accounts of a sender are right: its session has counted the files that have been sent and
the pieces of the blocks that have been reported, and every report was right. -/
structure Audited (headers : List FileHeader) (past : List (Act Sender)) (s : Sender)
    (done : List FileReport) (counted : List Bytes) : Prop where
  books : s.session.Books done (reports past).length (counted.map List.length)
  at_step : ∀ step, s.phase = .doing step → s.Placed step ∧
    Stands headers past s done counted step.stand ∧ (step.ofEnd = true → s.job.files = [])
  claims : ∀ summary, s.Claims summary → counted = [] ∧ done = sentReports headers past ∧
    ∃ now, summary = s.session.summary now
  reported : EachReport (ReportedRight headers) past

section Audits

variable {headers : List FileHeader} {past : List (Act Sender)} {s s' next : Sender}
  {done : List FileReport} {counted : List Bytes} {step step' : Step} {event : Event}
  {stand stand' : Stand}

/-- What has been counted of files does not change when nothing is seen of them. -/
theorem sentReports_congr {past past' : List (Act Sender)} {headers : List FileHeader}
    (h : ∀ file < headers.length, seen file past' = seen file past) :
    sentReports headers past' = sentReports headers past := by
  refine List.mapIdx_eq_mapIdx_iff.mpr ?_
  intro file hfile
  have hcontent : (readings file past').flatten = (readings file past).flatten :=
    congrArg Seen.content (h file hfile)
  rw [hcontent]

/-- One more file has been sent. -/
theorem sentReports_take_succ {index : Nat} {header : FileHeader}
    (h : (headers.drop index).head? = some header) :
    sentReports (headers.take (index + 1)) past =
      sentReports (headers.take index) past ++
        [⟨some header.name, (seen index past).content.length⟩] := by
  rw [List.head?_drop] at h
  obtain ⟨hlt, -⟩ := List.getElem?_eq_some_iff.mp h
  have hlength : (headers.take index).length = index := by
    rw [List.length_take]
    omega
  rw [List.take_add_one, h, Option.toList_some, sentReports, List.mapIdx_append, hlength]
  simp [sentReports, seen]

/-- Nothing that belongs to the accounts changes. -/
theorem Stands.congr (h : Stands headers past s done counted stand) {past' : List (Act Sender)}
    (hseen : ∀ file, seen file past' = seen file past) (hjob : s'.job = s.job)
    (htally : s'.session.tally = s.session.tally) :
    Stands headers past' s' done counted stand where
  files_eq := by rw [hjob, h.files_eq]
  done_eq := by rw [hjob, h.done_eq, sentReports_congr fun file _ => hseen file]
  unseen file hfile := by
    rw [hjob] at hfile
    rw [hseen, h.unseen file hfile]
  counted_eq := h.counted_eq
  open_data hdata := by
    obtain ⟨header, hheader, hopen⟩ := h.open_data hdata
    rw [hseen, hjob]
    refine ⟨header, hheader, ?_, ?_, hopen.pieces_eq, hopen.content_eq, hopen.reported_eq, ?_⟩
    · exact (congrArg Session.Tally.fileName htally).trans hopen.name_eq
    · exact (congrArg Session.Tally.fileLength htally).trans hopen.length_eq
    · rw [hjob, hopen.sent_eq]

/-- The data of a file is begun. -/
theorem Stands.begin (h : Stands headers past s done counted .before) {header : FileHeader}
    (hheader : header ∈ s.job.files.head?) {past' : List (Act Sender)}
    (hseen : ∀ file, seen file past' = seen file past) (hfiles : s'.job.files = s.job.files)
    (hindex : s'.job.index = s.job.index) (hsent : s'.job.sent = 0)
    (hname : s'.session.fileName = some header.name)
    (hlength : s'.session.fileLength = header.length.map UInt64.toNat) :
    Stands headers past' s' done counted (.reading []) where
  files_eq := by rw [hfiles, hindex, h.files_eq]
  done_eq := by
    rw [hindex, h.done_eq, sentReports_congr fun file _ => hseen file]
    rfl
  unseen file hfile := by
    rw [hindex] at hfile
    rw [hseen, h.unseen file (Nat.le_of_succ_le hfile)]
  counted_eq _ := h.counted_eq rfl
  open_data _ := by
    have hunseen : seen s.job.index past = {} := h.unseen s.job.index le_rfl
    rw [hseen, hfiles, hindex, hunseen, h.counted_eq rfl]
    exact ⟨header, hheader, hname, hlength, rfl, rfl, rfl, hsent⟩

/-- What is read and written while data of a file is sent belongs to that file. -/
theorem Stands.proceed (h : Stands headers past s done counted stand)
    (hdata : stand.inData = true) {counted' : List Bytes} {past' : List (Act Sender)}
    (hothers : ∀ file ≠ s.job.index, seen file past' = seen file past)
    (hfiles : s'.job.files = s.job.files) (hindex : s'.job.index = s.job.index)
    (hdata' : stand'.inData = true)
    (hopen : ∀ header, (seen s.job.index past).Open header s counted stand →
      (seen s.job.index past').Open header s' counted' stand') :
    Stands headers past' s' done counted' stand' where
  files_eq := by rw [hfiles, hindex, h.files_eq]
  done_eq := by
    have hfinished : stand'.finished s.job.index = stand.finished s.job.index := by
      cases stand <;> cases stand' <;> simp_all [Stand.inData, Stand.finished]
    have hindex' : stand.finished s.job.index = s.job.index := by
      cases stand <;> simp_all [Stand.inData, Stand.finished]
    rw [hindex, hfinished, h.done_eq]
    refine (sentReports_congr fun file hfile => hothers file ?_).symm
    rw [List.length_take] at hfile
    omega
  unseen file hfile := by
    have hbegun : stand'.begun s.job.index = stand.begun s.job.index := by
      cases stand <;> cases stand' <;> simp_all [Stand.inData, Stand.begun]
    have hindex' : stand.begun s.job.index = s.job.index + 1 := by
      cases stand <;> simp_all [Stand.inData, Stand.begun]
    rw [hindex, hbegun] at hfile
    rw [hothers file (by omega), h.unseen file hfile]
  counted_eq hdata'' := absurd (hdata''.symm.trans hdata') Bool.false_ne_true
  open_data _ := by
    obtain ⟨header, hheader, hopened⟩ := h.open_data hdata
    rw [hfiles, hindex]
    exact ⟨header, hheader, hopen header hopened⟩

/-- The end of a file has been read. -/
theorem Stands.finish (h : Stands headers past s done counted (.reading []))
    {past' : List (Act Sender)} (hseen : ∀ file, seen file past' = seen file past)
    (hjob : s'.job = s.job) :
    Stands headers past' s' (done ++ [⟨s.session.fileName, s.job.sent⟩]) [] .ended where
  files_eq := by rw [hjob, h.files_eq]
  done_eq := by
    obtain ⟨header, hheader, hopen⟩ := h.open_data rfl
    rw [h.files_eq] at hheader
    have hcontent : (seen s.job.index past).content = counted.flatten := by
      rw [hopen.content_eq, hopen.pieces_eq]
      simp [Stand.due, Stand.unblocked]
    rw [hjob, sentReports_congr fun file _ => hseen file]
    show _ = sentReports (headers.take (s.job.index + 1)) past
    rw [sentReports_take_succ hheader, hcontent, h.done_eq, hopen.name_eq, hopen.sent_eq]
    rfl
  unseen file hfile := by
    rw [hjob] at hfile
    rw [hseen, h.unseen file hfile]
  counted_eq _ := rfl
  open_data hdata := nomatch hdata

/-- The next file is taken up. -/
theorem Stands.advance (h : Stands headers past s done counted .ended)
    {past' : List (Act Sender)} (hseen : ∀ file, seen file past' = seen file past)
    (hfiles : s'.job.files = s.job.files.tail) (hindex : s'.job.index = s.job.index + 1) :
    Stands headers past' s' done counted .before where
  files_eq := by rw [hfiles, hindex, h.files_eq, List.tail_drop]
  done_eq := by
    rw [hindex, h.done_eq, sentReports_congr fun file _ => hseen file]
    rfl
  unseen file hfile := by
    rw [hindex] at hfile
    rw [hseen, h.unseen file hfile]
  counted_eq _ := h.counted_eq rfl
  open_data hdata := nomatch hdata

/-- When there are no more files, all have been reported. -/
theorem Stands.done_eq_of_nil (h : Stands headers past s done counted .before)
    (hfiles : s.job.files = []) : done = sentReports headers past := by
  have hlength : headers.length ≤ s.job.index := List.drop_eq_nil_iff.mp (h.files_eq ▸ hfiles)
  have hall : headers.take (Stand.before.finished s.job.index) = headers :=
    List.take_of_length_le hlength
  rw [h.done_eq, hall]

/-! ## Acts -/

theorem piece?_eq_none (hphase : s.phase = .doing step)
    (hstep : ∀ piece, step = .gathered piece → piece = []) : piece? ⟨s, event⟩ = none := by
  unfold piece?
  rw [hphase]
  cases step with
  | gathered piece => simp [hstep piece rfl]
  | _ => rfl

theorem reports_eq_of_offBooks (h : offBooks event = true) : event.reports = false := by
  cases event with
  | report => cases h
  | _ => rfl

/-- An act in which nothing is seen. -/
theorem Audited.concat (h : Audited headers past s done counted) {done' : List FileReport}
    {counted' : List Bytes} (hreport : event.reports = false)
    (hbooks : next.session.Books done' (reports past).length (counted'.map List.length))
    (hstep : ∀ step', next.phase = .doing step' → next.Placed step' ∧
      Stands headers (past ++ [⟨s, event⟩]) next done' counted' step'.stand ∧
      (step'.ofEnd = true → next.job.files = []))
    (hclaims : ∀ summary, next.Claims summary → counted' = [] ∧
      done' = sentReports headers (past ++ [⟨s, event⟩]) ∧
      ∃ now, summary = next.session.summary now) :
    Audited headers (past ++ [⟨s, event⟩]) next done' counted' where
  books := by
    rw [reports_concat hreport]
    exact hbooks
  at_step := hstep
  claims := hclaims
  reported := by
    refine h.reported.concat ?_
    rintro progress rfl
    cases hreport

/-- A sender that goes on. -/
theorem Audited.goto (h : Audited headers past s done counted) {done' : List FileReport}
    {counted' : List Bytes} (hreport : event.reports = false)
    (hbooks : s'.session.Books done' (reports past).length (counted'.map List.length))
    (hplaced : s'.Placed step')
    (hstands : Stands headers (past ++ [⟨s, event⟩]) s' done' counted' step'.stand)
    (hend : step'.ofEnd = true → s'.job.files = []) :
    Audited headers (past ++ [⟨s, event⟩]) (s'.goto step') done' counted' := by
  refine h.concat hreport hbooks ?_ ?_
  · rintro step ⟨⟩
    refine ⟨⟨hplaced.files_ne_nil, hplaced.timed⟩, ?_, hend⟩
    exact hstands.congr (fun _ => rfl) rfl rfl
  · rintro summary (hphase | hphase) <;> cases hphase

/-- Acts that do nothing with files leave the accounts alone. -/
theorem Audited.plain (h : Audited headers past s done counted) (hphase : s.phase = .doing step)
    (hplaced : s'.Placed step') (hevent : offBooks event = true)
    (hpiece : ∀ piece, step = .gathered piece → piece = []) (hjob : s'.job = s.job)
    (htally : s'.session.tally = s.session.tally) (hstand : step'.stand = step.stand)
    (hend : step'.ofEnd = true → s.job.files = []) :
    ∃ done counted, Audited headers (past ++ [⟨s, event⟩]) (s'.goto step') done counted := by
  have hseen (file : Nat) : seen file (past ++ [⟨s, event⟩]) = seen file past :=
    seen_concat_of_offBooks hevent (piece?_eq_none hphase hpiece) file
  refine ⟨done, counted, h.goto (reports_eq_of_offBooks hevent) (h.books.of_tally htally) hplaced
    ?_ ?_⟩
  · rw [hstand]
    exact (h.at_step step hphase).2.1.congr hseen hjob htally
  · rwa [hjob]

/-- The accounts are right when a part of a file is read. -/
theorem Audited.fetch (h : Audited headers past s done counted) {piece data : Bytes} {most : Nat}
    (hphase : s.phase = .doing (.gather piece)) (hplaced : s'.Placed step')
    (hsession : s'.session = s.session) (hjob : s'.job = s.job)
    (hstand : step'.stand = .reading (piece ++ data.take most)) (hend : step'.ofEnd = false) :
    Audited headers (past ++ [⟨s, .fetch s.job.index most (.ok data)⟩]) (s'.goto step') done
      counted := by
  have hseen := @seen_concat_fetch past s piece hphase most data
  have hbooks := h.books
  rw [← hsession] at hbooks
  refine h.goto rfl hbooks hplaced ?_ fun hofEnd => absurd (hofEnd.symm.trans hend) nofun
  rw [hstand]
  refine (h.at_step _ hphase).2.1.proceed rfl ?_ (by rw [hjob]) (by rw [hjob]) rfl ?_
  · intro file hfile
    refine seen_concat_of_ne hfile ?_
    simp [readings, hfile.symm]
  · intro header hopen
    rw [hseen]
    refine ⟨?_, ?_, hopen.pieces_eq, ?_, hopen.reported_eq, ?_⟩
    · rw [hsession, hopen.name_eq]
    · rw [hsession, hopen.length_eq]
    · show _ ++ _ = _ ++ (piece ++ data.take most)
      rw [hopen.content_eq, List.append_assoc]
      rfl
    · rw [hjob, hopen.sent_eq]

/-- The accounts are right when a piece is complete. -/
theorem Audited.block (h : Audited headers past s done counted) {piece : Bytes}
    (hphase : s.phase = .doing (.gathered piece)) (hpiece : piece ≠ [])
    (hplaced : s'.Placed step') (hevent : offBooks event = true)
    (htally : s'.session.tally = s.session.tally) (hjob : s'.job = s.job)
    (hstand : step'.stand = .sending piece) (hend : step'.ofEnd = false) :
    Audited headers (past ++ [⟨s, event⟩]) (s'.goto step') done counted := by
  have hseen := @seen_concat_gathered past s event piece hphase hpiece hevent
  refine h.goto (reports_eq_of_offBooks hevent) (h.books.of_tally htally) hplaced ?_
    fun hofEnd => absurd (hofEnd.symm.trans hend) nofun
  rw [hstand]
  refine (h.at_step _ hphase).2.1.proceed rfl ?_ (by rw [hjob]) (by rw [hjob]) rfl ?_
  · exact fun file hfile => seen_concat_of_ne hfile (readings_of_offBooks hevent file)
  · intro header hopen
    rw [hseen]
    refine ⟨?_, ?_, ?_, ?_, hopen.reported_eq, ?_⟩
    · exact (congrArg Session.Tally.fileName htally).trans hopen.name_eq
    · exact (congrArg Session.Tally.fileLength htally).trans hopen.length_eq
    · show _ ++ [piece] = counted ++ [piece]
      rw [hopen.pieces_eq]
      exact congrArg (· ++ [piece]) (List.append_nil counted)
    · show _ = (_ ++ [piece]).flatten ++ []
      rw [hopen.content_eq, List.flatten_append, List.flatten_singleton, List.append_nil]
      rfl
    · rw [hjob, hopen.sent_eq]

/-- The accounts are right when a block is reported. -/
theorem Audited.report (h : Audited headers past s done counted) {piece : Bytes}
    (hphase : s.phase = .doing (.counted piece)) (hplaced : s'.Placed .nextPiece)
    (hsession : s'.session = s.session.completeBlock piece.length)
    (hjob : s'.job = { s.job with sent := s.job.sent + piece.length }) :
    Audited headers (past ++ [⟨s, .report (s.session.completeBlock piece.length).progress⟩])
      (s'.goto .nextPiece) done (counted ++ [piece]) := by
  obtain ⟨-, hstands, -⟩ := h.at_step _ hphase
  obtain ⟨header, hheader, hopen⟩ := hstands.open_data rfl
  have hseen := @seen_concat_report past s piece hphase
    (s.session.completeBlock piece.length).progress
  have hpieces : (seen s.job.index past).pieces = counted ++ [piece] := hopen.pieces_eq
  have hlengths : (counted ++ [piece]).map List.length =
      counted.map List.length ++ [piece.length] := List.map_append
  refine ⟨?_, ?_, ?_, h.reported.concat ?_⟩
  · rw [reports_concat_report, List.length_append, hlengths]
    have hbooks := h.books.completeBlock piece.length
    rw [← hsession] at hbooks
    exact hbooks
  · rintro step ⟨⟩
    refine ⟨⟨hplaced.files_ne_nil, hplaced.timed⟩, ?_, nofun⟩
    have hfiles : s'.job.files = s.job.files := by rw [hjob]
    have hindex : s'.job.index = s.job.index := by rw [hjob]
    refine hstands.proceed rfl ?_ hfiles hindex rfl ?_
    · intro file hfile
      refine seen_concat_of_ne hfile ?_
      simp [readings]
    · intro header hopen
      rw [hseen]
      refine ⟨?_, ?_, ?_, hopen.content_eq, ?_, ?_⟩
      · exact (congrArg Session.fileName hsession).trans hopen.name_eq
      · exact (congrArg Session.fileLength hsession).trans hopen.length_eq
      · show _ = counted ++ [piece] ++ []
        rw [List.append_nil]
        exact hpieces
      · rw [List.length_append, ← hopen.reported_eq]
        rfl
      · rw [List.flatten_append, List.flatten_singleton, List.length_append, ← hopen.sent_eq]
        exact congrArg Job.sent hjob
  · rintro summary (hphase' | hphase') <;> cases hphase'
  · rintro progress ⟨⟩
    rw [hstands.files_eq, List.head?_drop] at hheader
    refine ⟨header, hheader, ?_, ?_, ?_⟩
    · show (seen s.job.index past).pieces.length = (seen s.job.index past).reported + 1
      rw [hpieces, hopen.reported_eq, List.length_append]
      rfl
    · show (seen s.job.index past).pieces.flatten = (seen s.job.index past).content
      rw [hopen.content_eq]
      exact (List.append_nil _).symm
    · show _ = Progress.mk _ _ (seen s.job.index past).pieces.length
        ((seen s.job.index past).pieces.map List.length).sum
      rw [h.books.progress_completeBlock, hopen.name_eq, hopen.length_eq, hpieces, hlengths,
        ← hlengths, List.length_map]

/-- The accounts of a sender that goes on are right. -/
theorem Audited.turns (h : Audited headers past s done counted) (hphase : s.phase = .doing step)
    (hturns : Turns s step event s' step') :
    ∃ done counted, Audited headers (past ++ [⟨s, event⟩]) (s'.goto step') done counted := by
  obtain ⟨hplaced, hstands, hend⟩ := h.at_step step hphase
  have hplaced' := hturns.placed hplaced
  cases hturns with
  | endBatch hfiles =>
    exact h.plain hphase hplaced' rfl nofun rfl rfl rfl fun _ => hfiles
  | noise htask =>
    refine h.plain hphase hplaced' rfl ?_ rfl rfl rfl hend
    rintro piece rfl
    exact absurd rfl htask
  | arrival htask =>
    refine h.plain hphase hplaced' rfl ?_ rfl rfl rfl hend
    rintro piece rfl
    cases htask
  | beginData hfiles hdata =>
    obtain rfl : counted = [] := hstands.counted_eq rfl
    have hbooks : (s.session.enter .exchangingBlocks).Books done (reports past).length [] :=
      h.books.of_tally rfl
    refine ⟨done, [], h.goto rfl (hbooks.beginFile _ _) hplaced' ?_ nofun⟩
    refine hstands.begin ?_ (seen_concat_of_offBooks rfl (piece?_eq_none hphase nofun)) rfl rfl
      rfl rfl rfl
    rw [hfiles]
    rfl
  | gathered | gather => exact ⟨done, counted, h.fetch hphase hplaced' rfl rfl rfl rfl⟩
  | beginEndOfFile =>
    refine ⟨_, [], h.goto rfl ((h.books.finishFile s.job.sent).of_tally rfl) hplaced' ?_ nofun⟩
    refine hstands.finish (seen_concat_of_offBooks rfl (piece?_eq_none hphase ?_)) rfl
    rintro piece ⟨⟩
    rfl
  | beginBlock hpiece | streamed hpiece =>
    exact ⟨done, counted, h.block hphase hpiece hplaced' rfl rfl rfl rfl rfl⟩
  | counted => exact ⟨done, _, h.report hphase hplaced' rfl rfl⟩
  | fileDone =>
    refine ⟨done, counted, h.goto rfl (h.books.of_tally rfl) hplaced' ?_ nofun⟩
    exact hstands.advance (seen_concat_of_offBooks rfl (piece?_eq_none hphase nofun)) rfl rfl
  | start | nextFile | beginStream | headerDone =>
    exact h.plain hphase hplaced' rfl nofun rfl rfl rfl nofun
  | _ => exact h.plain hphase hplaced' rfl nofun rfl rfl rfl hend

/-- The accounts of a sender that comes to an end are right. -/
theorem Audited.parts (h : Audited headers past s done counted) (hphase : s.phase = .doing step)
    (hcourse : Course s step event next) (hparted : next.Parted)
    (hcounts : Party.Counts step.closes s next) :
    Audited headers (past ++ [⟨s, event⟩]) next done counted := by
  obtain ⟨hplaced, hstands, hend⟩ := h.at_step step hphase
  have hreport : event.reports = false := by
    cases hcourse with
    | turns => exact absurd hparted (not_parted_goto _ _)
    | breaks hbreaks => cases hbreaks <;> rfl
    | _ => rfl
  refine h.concat hreport (h.books.of_tally hcounts.tally_eq) ?_ ?_
  · exact fun step' hphase' => absurd hphase' (hparted.phase_ne step')
  · intro summary hclaims
    obtain ⟨-, now, hsummary⟩ := hcounts.claims summary hclaims
    -- The transfer is complete only when there are no more files.
    cases hcourse with
    | turns => exact absurd hparted (not_parted_goto _ _)
    | completes hcompletes =>
      have hseen (file : Nat) : seen file (past ++ [⟨s, .silent⟩]) = seen file past :=
        seen_concat_of_offBooks rfl (piece?_eq_none hphase (by cases hcompletes <;> nofun)) file
      rw [sentReports_congr fun file _ => hseen file]
      cases hcompletes with
      | single hfiles =>
        exact ⟨hstands.counted_eq rfl, hstands.done_eq_of_nil hfiles, now, hsummary⟩
      | batch =>
        exact ⟨hstands.counted_eq rfl, hstands.done_eq_of_nil (hend rfl), now, hsummary⟩
    | breaks => exact absurd hclaims (Party.not_claims_fail _ _ summary)
    | aborts | rejects => rcases hclaims with hphase' | hphase' <;> cases hphase'

/-- The accounts of a sender are right after every act. -/
theorem audited_act (h : Audited headers past s done counted) :
    (act s).Ensures fun event next =>
      ∃ done counted, Audited headers (past ++ [⟨s, event⟩]) next done counted := by
  refine Party.ensures_act ?_ ?_
  · intro step hphase
    have hplaced := (h.at_step step hphase).1
    refine ((ensures_course hplaced).and (ensures_counts_of_parted s step)).mono ?_
    rintro event next ⟨hcourse, hcounts⟩
    rcases hcourse.turns_or_parted with ⟨s', step', rfl, hturns⟩ | hparted
    · exact h.turns hphase hturns
    · exact ⟨done, counted, h.parts hphase hcourse hparted (hcounts hparted)⟩
  · intro ending reply moment hphase
    have hpiece : piece? ⟨s, .write [Control.can.byte, Control.can.byte] reply⟩ = none := by
      rw [piece?, hphase]
    refine ⟨done, counted, h.concat rfl (by exact h.books) ?_ ?_⟩
    · rintro step ⟨⟩
    · rintro summary (hphase' | hphase')
      · cases hphase'
      · obtain rfl : ending = .ok (.completed summary) := Phase.over.inj hphase'
        rw [sentReports_congr fun file _ => seen_concat_of_offBooks rfl hpiece file]
        exact h.claims summary (.inl hphase)

theorem audited_new (options : Options) (headers : List FileHeader) (moment : Moment) :
    Audited headers [] (new options headers moment) [] [] where
  books := Session.books_new _ _
  at_step step hphase := by
    obtain rfl : Step.start = step := Phase.doing.inj hphase
    refine ⟨⟨nofun, nofun⟩, ⟨rfl, rfl, fun _ _ => rfl, fun _ => rfl, nofun⟩, nofun⟩
  claims := by rintro summary (hphase | hphase) <;> cases hphase
  reported := eachReport_nil _

/-- The accounts of a sender are right in every run. -/
theorem audited_trace {ω : Type} (env : Surroundings ω) (options : Options)
    (headers : List FileHeader) (moment : Moment) (w : ω) (acts : Nat) :
    ∃ done counted, Audited headers (Action.trace env act acts (new options headers moment) w)
      (Action.run env act acts (new options headers moment) w).state done counted :=
  @Action.invariant_trace _ _ act
    (fun past s => ∃ done counted, Audited headers past s done counted)
    (fun _ _ h => by
      obtain ⟨done, counted, haudited⟩ := h
      exact audited_act haudited)
    env acts [] (new options headers moment) w ⟨[], [], audited_new options headers moment⟩

end Audits

end BlockTransfer.Sender
