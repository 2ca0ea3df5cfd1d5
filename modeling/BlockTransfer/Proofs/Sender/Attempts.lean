import BlockTransfer.Proofs.Endings
import BlockTransfer.Proofs.Rehearsal
import BlockTransfer.Proofs.Sender.Progress
import BlockTransfer.Proofs.Sender.Series
import BlockTransfer.Sink.Memory

/-!
# The attempts of a sender

The session of a sender counts the failures of the series of attempts in hand and of all of them.
So a series comes to an end in time, and what is reported of the failures is what has happened.

## Main definitions

* `Sender.Enters`: what an act has to do with the attempts.
* `Sender.Tally`: the account that the session keeps of the attempts.
* `Sender.Writes`: what a sender writes.

## Main results

* `Sender.Turns.enters`: what an act of a sender that goes on has to do with its attempts.
* `Sender.Tally.enter`: the account is kept with every act.
* `Sender.exists_ending_and_balances`: a sender comes to its end, and its attempts are bounded.
-/

namespace BlockTransfer

namespace Sender

/-! ## What an act has to do with the attempts -/

/-- What is being attempted at a step, and how far it has got. -/
def open? (s : Sender) : Step → Option (Subject × Stretch)
  | .attempt invitation => some (.window invitation, .paused)
  | .listen invitation _ => some (.window invitation, .pending)
  | .offer item _ => some (.frame s.job.index (stage s item) (frame s item), .paused)
  | .sent item _ | .answer item _ _ =>
    some (.frame s.job.index (stage s item) (frame s item), .pending)
  | _ => none

namespace Step

/-- Whether the next refusal does not count. -/
def spares : Step → Bool
  | .offer _ spare | .sent _ spare | .answer _ spare _ => spare
  | _ => false

end Step

/-- The number of files whose end has been acknowledged. -/
def filed (s : Sender) : Step → Nat
  | .acknowledged .endOfFile => s.job.index + 1
  | _ => s.job.index

/-- What an act of a sender that goes on has to do with its attempts, and the note of the act. -/
inductive Enters (s : Sender) (step : Step) (s' : Sender) (step' : Step) : Option Note → Prop
  /-- Nothing is being attempted. -/
  | idles (hopen : s.open? step = none) (hopen' : s'.open? step' = none)
      (htotal : s'.session.totalRetries = s.session.totalRetries) : Enters s step s' step' none
  /-- A series is to begin. -/
  | begins {subject : Subject} (hopen : s.open? step = none)
      (hopen' : s'.open? step' = some (subject, .paused)) (hretries : s'.session.retries = 0)
      (htotal : s'.session.totalRetries = s.session.totalRetries)
      (hspares : step'.spares = subject.ended?.isSome) : Enters s step s' step' none
  /-- An attempt is made. -/
  | opens {subject : Subject} (hopen : s.open? step = some (subject, .paused))
      (hopen' : s'.open? step' = some (subject, .pending)) (hsession : s'.session = s.session)
      (hspares : step'.spares = step.spares) : Enters s step s' step' (some (.opens subject))
  /-- The answer is awaited. -/
  | waits {subject : Subject} (hopen : s.open? step = some (subject, .pending))
      (hopen' : s'.open? step' = some (subject, .pending)) (hsession : s'.session = s.session)
      (hspares : step'.spares = step.spares) : Enters s step s' step' none
  /-- The attempt has succeeded. -/
  | settles {subject : Subject} (hopen : s.open? step = some (subject, .pending))
      (hopen' : s'.open? step' = none)
      (htotal : s'.session.totalRetries = s.session.totalRetries)
      (hfiled : ∀ file, subject.ended? = some file → file < s'.filed step') :
    Enters s step s' step' (some .settles)
  /-- The attempt has failed, and this counts. -/
  | misses {subject : Subject} {refused : Bool} (hopen : s.open? step = some (subject, .pending))
      (hopen' : s'.open? step' = some (subject, .paused))
      (hretries : s'.session.retries = s.session.retries + 1)
      (htotal : s'.session.totalRetries = s.session.totalRetries + 1)
      (hcounts : refused = true → step.spares = false) (hspares : step'.spares = step.spares) :
    Enters s step s' step' (some (.misses refused))
  /-- The attempt has failed, and this does not count. -/
  | spared {subject : Subject} (hopen : s.open? step = some (subject, .pending))
      (hopen' : s'.open? step' = some (subject, .paused)) (hsession : s'.session = s.session)
      (hspares : step.spares = true) (hspares' : step'.spares = false) :
    Enters s step s' step' (some (.misses true))

section Turns

variable {s s' : Sender} {step step' : Step} {event : Event}

/-- Nothing is noted of a byte that means nothing. -/
theorem noted_of_noise {byte : UInt8} {pending : Bytes} (hpending : s.pending = byte :: pending)
    (htask : step.task? ≠ none)
    (hnoise : ∀ signal, Control.ofByte? byte = some signal → step.heeds signal = false) :
    noted s step .silent = none := by
  cases step with
  | listen invitation task =>
    simp only [noted, hpending]
    cases hsignal : Control.ofByte? byte with
    | none => rfl
    | some signal =>
      have hheeds := hnoise signal hsignal
      simp only [Step.heeds, Bool.or_eq_false_iff] at hheeds
      simp [hheeds.2]
  | answer item spare task =>
    have hack : byte ≠ Control.ack.byte := by
      intro hbyte
      cases hnoise .ack (Control.ofByte?_eq_some_iff.mpr hbyte)
    have hnak : byte ≠ Control.nak.byte := by
      intro hbyte
      cases hnoise .nak (Control.ofByte?_eq_some_iff.mpr hbyte)
    simp only [noted, hpending]
    rw [if_neg hack, if_neg hnak]
  | drain => rfl
  | _ => exact absurd rfl htask

/-- Nothing is noted of bytes that have arrived. -/
theorem noted_of_arrival {task : Line.Task} {timeout : Nat} {arrived : Bytes}
    (htask : step.task? = some task) (harrived : arrived ≠ []) :
    noted s step (.read timeout (.ok arrived)) = none := by
  cases step with
  | listen | answer =>
    cases arrived with
    | nil => exact absurd rfl harrived
    | cons => rfl
  | drain => rfl
  | _ => cases htask

/-- Nothing is noted of the signal that cancels the transfer. -/
theorem noted_of_cancelled {pending : Bytes} (htask : step.task? ≠ none)
    (hpending : s.pending = Control.can.byte :: pending) : noted s step .silent = none := by
  cases step with
  | listen | answer =>
    simp only [noted, hpending]
    rfl
  | drain => rfl
  | _ => exact absurd rfl htask

/-- Nothing is noted of a line that cannot be read. -/
theorem noted_of_unread {timeout : Nat} {e : IoError} (htask : step.task? ≠ none) :
    noted s step (.read timeout (.error e)) = none := by
  cases step with
  | listen | answer | drain => rfl
  | _ => exact absurd rfl htask

/-- What an act of a sender that goes on has to do with its attempts. -/
theorem Turns.enters (h : Turns s step event s' step') (hpunctual : s.Punctual event s') :
    Enters s step s' step' (noted s step event) := by
  cases h with
  | noise htask hpending hnoise =>
    rw [noted_of_noise hpending htask hnoise]
    cases step with
    | listen | answer => exact .waits rfl rfl rfl rfl
    | drain => exact .idles rfl rfl rfl
    | _ => exact absurd rfl htask
  | @arrival _ task timeout arrived moment htask hpending hlook hhear =>
    -- A reading in vain takes until the deadline, and then the wait would be over.
    have harrived : arrived ≠ [] := by
      rintro rfl
      rw [hpunctual timeout rfl] at hhear
      exact Line.Task.ne_nil_of_hear_waiting hlook hhear rfl
    rw [noted_of_arrival htask harrived]
    cases step with
    | listen | answer => exact .waits rfl rfl rfl rfl
    | drain => exact .idles rfl rfl rfl
    | _ => cases htask
  | attempt invitation hcalm =>
    have hnoted : noted s (.attempt invitation) .silent = some (.opens (.window invitation)) := by
      simp [noted, hcalm]
    rw [hnoted]
    exact .opens rfl rfl rfl rfl
  | @invited invitation task byte signal pending trailer streaming hpending hsignal hmode =>
    have hnoted : noted s (.listen invitation task) .silent = some .settles := by
      simp [noted, hpending, hsignal, hmode]
    rw [hnoted]
    exact .settles rfl rfl rfl nofun
  | lapse => exact .misses rfl rfl rfl rfl nofun rfl
  | offer => exact .opens rfl rfl rfl rfl
  | sent => exact .waits rfl rfl rfl rfl
  | @acknowledged item spare task pending hpending =>
    have hnoted : noted s (.answer item spare task) .silent = some .settles := by
      simp [noted, hpending]
    rw [hnoted]
    refine .settles rfl rfl rfl ?_
    intro file hended
    cases item with
    | endOfFile =>
      cases hended
      exact Nat.lt_succ_self _
    | header | block | endOfBatch => cases hended
  | @spared item task pending hpending =>
    have hnoted : noted s (.answer item true task) .silent = some (.misses true) := by
      simp [noted, hpending, Control.byte]
    rw [hnoted]
    exact .spared rfl rfl rfl rfl rfl
  | @refused item task pending hpending =>
    have hnoted : noted s (.answer item false task) .silent = some (.misses true) := by
      simp [noted, hpending, Control.byte]
    rw [hnoted]
    exact .misses rfl rfl rfl rfl (fun _ => rfl) rfl
  | unanswered => exact .misses rfl rfl rfl rfl nofun rfl
  | await | beginHeader | beginEndOfBatch | beginEndOfFile | beginBlock =>
    exact .begins rfl rfl rfl rfl rfl
  | _ => exact .idles rfl rfl rfl

/-- A file whose end has been acknowledged stays so. -/
theorem Turns.filed_le (h : Turns s step event s' step') : s.filed step ≤ s'.filed step' := by
  cases h with
  | noise htask =>
    cases step with
    | listen | answer | drain => exact le_rfl
    | _ => exact absurd rfl htask
  | arrival htask =>
    cases step with
    | listen | answer | drain => exact le_rfl
    | _ => cases htask
  | @acknowledged item =>
    cases item with
    | endOfFile => exact Nat.le_succ _
    | _ => exact le_rfl
  | _ => exact le_rfl

/-- The file whose end is to be acknowledged is the current one. -/
theorem filed_le_of_open {subject : Subject} {course : Stretch} {file : Nat}
    (hopen : s.open? step = some (subject, course)) (hended : subject.ended? = some file) :
    s.filed step ≤ file := by
  cases step with
  | attempt | listen =>
    cases hopen
    cases hended
  | offer item | sent item | answer item =>
    cases hopen
    cases item with
    | endOfFile =>
      cases hended
      exact le_rfl
    | header | block | endOfBatch => cases hended
  | _ => cases hopen

end Turns

/-! ## The account of the session -/

/-- What the notes of a sender amount to while it goes on. -/
inductive Tally (s : Sender) (step : Step) (notes : List Note) : Prop
  /-- Nothing is being attempted. -/
  | between (done : List Series) (hopen : s.open? step = none)
      (hdone : Orderly s.options.config.maxRetries.toNat (s.filed step) done)
      (hnotes : notes = done.flatMap Series.notes)
      (htotal : s.session.totalRetries = (done.map Series.charged).sum)
  /-- The session counts the failures of the series in hand. -/
  | during (done : List Series) (x : Series) (hopen : s.open? step = some (x.subject, x.course))
      (hdone : Orderly s.options.config.maxRetries.toNat (s.filed step) done)
      (hnotes : notes = done.flatMap Series.notes ++ x.notes)
      (hretries : s.session.retries = x.charged)
      (htotal : s.session.totalRetries = (done.map Series.charged).sum + x.charged)
      (hspares : step.spares = x.spare)

section Tally

variable {s s' : Sender} {step step' : Step} {event : Event} {notes : List Note}

/-- A sender that attempts something has retries left. -/
theorem retries_lt_of_open (h : s.Paced .start step) {attempt : Subject × Stretch}
    (hopen : s.open? step = some attempt) :
    s.session.retries < s.options.config.maxRetries.toNat := by
  -- Nothing is attempted before options and files have been looked at.
  refine h.resolve_right ?_
  rintro ⟨rfl, -⟩
  cases hopen

/-- The account while nothing is being attempted. -/
theorem Tally.exists_between (h : Tally s step notes) (hopen : s.open? step = none) :
    ∃ done, Orderly s.options.config.maxRetries.toNat (s.filed step) done ∧
      notes = done.flatMap Series.notes ∧
      s.session.totalRetries = (done.map Series.charged).sum := by
  cases h with
  | between done _ hdone hnotes htotal => exact ⟨done, hdone, hnotes, htotal⟩
  | during done x hx =>
    rw [hopen] at hx
    cases hx

/-- The account in the middle of a series. -/
theorem Tally.exists_during (h : Tally s step notes) {subject : Subject} {course : Stretch}
    (hopen : s.open? step = some (subject, course)) :
    ∃ (done : List Series) (x : Series), x.subject = subject ∧ x.course = course ∧
      Orderly s.options.config.maxRetries.toNat (s.filed step) done ∧
      notes = done.flatMap Series.notes ++ x.notes ∧ s.session.retries = x.charged ∧
      s.session.totalRetries = (done.map Series.charged).sum + x.charged ∧
      step.spares = x.spare := by
  cases h with
  | between done hnone =>
    rw [hopen] at hnone
    cases hnone
  | during done x hx hdone hnotes hcharged htotal hspares =>
    rw [hopen] at hx
    cases hx
    exact ⟨done, x, rfl, rfl, hdone, hnotes, hcharged, htotal, hspares⟩

/-- The account is kept with every act. -/
theorem Tally.enter (h : Tally s step notes) {note : Option Note}
    (henters : Enters s step s' step' note) (hoptions : s'.options = s.options)
    (hpaced : s.Paced .start step) (hfiled : s.filed step ≤ s'.filed step') :
    Tally s' step' (notes ++ note.toList) := by
  cases henters with
  | idles hopen hopen' htotal' =>
    obtain ⟨done, hdone, hnotes, htotal⟩ := h.exists_between hopen
    rw [← hoptions] at hdone
    rw [Option.toList_none, List.append_nil]
    exact .between done hopen' (hdone.mono hfiled) hnotes (htotal'.trans htotal)
  | @begins subject hopen hopen' hretries' htotal' hspares' =>
    obtain ⟨done, hdone, hnotes, htotal⟩ := h.exists_between hopen
    have hcharged := Series.charged_nil subject .paused
    rw [← hoptions] at hdone
    rw [Option.toList_none, List.append_nil]
    refine .during done ⟨subject, [], .paused⟩ hopen' (hdone.mono hfiled) ?_ ?_ ?_ ?_
    · simpa [Series.notes] using hnotes
    · rw [hretries', hcharged]
    · rw [htotal', htotal, hcharged, Nat.add_zero]
    · simpa [Series.spare] using hspares'
  | opens hopen hopen' hsession hspares' =>
    obtain ⟨done, x, rfl, hpaused, hdone, hnotes, hcharged, htotal, hspares⟩ :=
      h.exists_during hopen
    rw [← hoptions] at hdone
    rw [← hsession] at hcharged htotal
    refine .during done { x with course := .pending } hopen' (hdone.mono hfiled) ?_ hcharged htotal
      (hspares'.trans hspares)
    rw [hnotes, List.append_assoc, Series.notes_open hpaused]
    rfl
  | waits hopen hopen' hsession hspares' =>
    obtain ⟨done, x, rfl, hpending, hdone, hnotes, hcharged, htotal, hspares⟩ :=
      h.exists_during hopen
    rw [← hoptions] at hdone
    rw [← hsession] at hcharged htotal
    rw [← hpending] at hopen'
    rw [Option.toList_none, List.append_nil]
    exact .during done x hopen' (hdone.mono hfiled) hnotes hcharged htotal (hspares'.trans hspares)
  | settles hopen hopen' htotal' hlt =>
    obtain ⟨done, x, rfl, hpending, hdone, hnotes, hcharged, htotal, -⟩ := h.exists_during hopen
    -- The series joins those that have succeeded.
    refine .between (done ++ [{ x with course := .settled }]) hopen' ?_ ?_ ?_
    · rw [hoptions]
      refine hdone.concat hfiled rfl ?_ fun file hended =>
        ⟨filed_le_of_open hopen hended, hlt file hended⟩
      exact hcharged.symm.trans_lt (retries_lt_of_open hpaced hopen)
    · rw [hnotes, List.append_assoc, List.flatMap_append, List.flatMap_singleton,
        Series.notes_settle hpending]
      rfl
    · rw [htotal', htotal, List.map_append, List.sum_append]
      rfl
  | @misses _ refused hopen hopen' hretries' htotal' hcounts hspares' =>
    obtain ⟨done, x, rfl, hpending, hdone, hnotes, hcharged, htotal, hspares⟩ :=
      h.exists_during hopen
    rw [hspares] at hcounts
    rw [← hoptions] at hdone
    refine .during done (x.miss refused) hopen' (hdone.mono hfiled) ?_ ?_ ?_ ?_
    · rw [hnotes, List.append_assoc, Series.notes_miss hpending]
      rfl
    · rw [hretries', hcharged, Series.charged_miss hcounts]
    · rw [htotal', htotal, Series.charged_miss hcounts, Nat.add_assoc]
    · rw [hspares', hspares, Series.spare_miss hcounts]
  | spared hopen hopen' hsession hspares' hspares'' =>
    -- The failure appears in the series, but not in the counts of the session.
    obtain ⟨done, x, rfl, hpending, hdone, hnotes, hcharged, htotal, hspares⟩ :=
      h.exists_during hopen
    rw [hspares] at hspares'
    rw [← hoptions] at hdone
    refine .during done (x.miss true) hopen' (hdone.mono hfiled) ?_ ?_ ?_ ?_
    · rw [hnotes, List.append_assoc, Series.notes_miss hpending]
      rfl
    · rw [hsession, hcharged, Series.charged_miss_of_spare hspares']
    · rw [hsession, htotal, Series.charged_miss_of_spare hspares']
    · rw [hspares'']
      simp [Series.miss, Series.spare]

/-- What the notes of a sender amount to that goes on. -/
theorem Tally.exists_balances (h : Tally s step notes) (hpaced : s.Paced .start step)
    (ending : Option Ending)
    (htimeout : ∀ stage attempts, ending ≠ some (.error (.timeout stage attempts)))
    (hcompleted : ∀ summary, ending ≠ some (.ok (.completed summary))) :
    ∃ series, Balances s.options.config.maxRetries.toNat notes ending series := by
  cases h with
  | between done hopen hdone hnotes =>
    rw [hnotes]
    exact ⟨done, hdone.balances htimeout fun summary hending => absurd hending (hcompleted summary)⟩
  | during done x hopen hdone hnotes hcharged =>
    have hlt := retries_lt_of_open hpaced hopen
    rw [hnotes]
    refine ⟨done ++ [x], hdone.balances_concat ?_ ?_ ?_ hcompleted⟩
    · exact fun file => filed_le_of_open hopen
    · split <;> omega
    · exact fun stage attempts hending => absurd hending (htimeout stage attempts)

/-- What the notes of a sender amount to that has failed for the last time. -/
theorem Tally.exists_balances_of_miss (h : Tally s step notes) {subject : Subject} {refused : Bool}
    (hopen : s.open? step = some (subject, .pending)) (hpaced : s.Paced .start step)
    (hlast : s.options.config.maxRetries.toNat ≤ s.session.retries + 1)
    (hcounts : refused = true → step.spares = false) :
    ∃ series, Balances s.options.config.maxRetries.toNat (notes ++ [.misses refused])
      (some (.error (.timeout subject.stage (s.session.retries + 1)))) series := by
  have hlt := retries_lt_of_open hpaced hopen
  obtain ⟨done, x, rfl, hpending, hdone, hnotes, hcharged, -, hspares⟩ := h.exists_during hopen
  rw [hspares] at hcounts
  have hmiss := Series.charged_miss hcounts
  have hpaused : (x.miss refused).course = .paused := rfl
  rw [hnotes, List.append_assoc, ← Series.notes_miss hpending]
  refine ⟨_, hdone.balances_concat (fun file => filed_le_of_open hopen) ?_ ?_ nofun⟩
  · rw [if_pos hpaused, hmiss]
    omega
  · rintro stage attempts ⟨⟩
    exact ⟨by omega, rfl, rfl, by omega⟩

/-- What the notes of a sender amount to that has made an attempt and fails. -/
theorem Tally.exists_balances_of_opens (h : Tally s step notes) {subject : Subject}
    (hopen : s.open? step = some (subject, .paused)) (hpaced : s.Paced .start step)
    {ending : Option Ending}
    (htimeout : ∀ stage attempts, ending ≠ some (.error (.timeout stage attempts)))
    (hcompleted : ∀ summary, ending ≠ some (.ok (.completed summary))) :
    ∃ series, Balances s.options.config.maxRetries.toNat (notes ++ [.opens subject]) ending
      series := by
  obtain ⟨done, x, rfl, hpaused, hdone, hnotes, hcharged, -⟩ := h.exists_during hopen
  rw [hnotes, List.append_assoc, ← Series.notes_open hpaused]
  refine ⟨_, hdone.balances_concat (fun file => filed_le_of_open hopen) ?_ ?_ hcompleted⟩
  · exact hcharged.symm.trans_lt (retries_lt_of_open hpaced hopen)
  · exact fun stage attempts hending => absurd hending (htimeout stage attempts)

/-- What the notes of a sender amount to that fails. -/
theorem Tally.exists_balances_of_breaks (h : Tally s step notes) {e : TransferError}
    (hbreaks : Breaks s step event e) (hpaced : s.Paced .start step) :
    ∃ series, Balances s.options.config.maxRetries.toNat
      (notes ++ (noted s step event).toList) (some (.error e)) series := by
  cases hbreaks with
  | cancelled htask hpending =>
    rw [noted_of_cancelled htask hpending, Option.toList_none, List.append_nil]
    exact h.exists_balances hpaced _ nofun nofun
  | unread htask =>
    rw [noted_of_unread htask, Option.toList_none, List.append_nil]
    exact h.exists_balances hpaced _ nofun nofun
  | @unwritten _ item reply _ hitem hrefuses =>
    have htimeout : ∀ stage attempts, some (.error e) ≠
        some (Except.error (.timeout stage attempts) : Ending) := by
      cases hrefuses <;> nofun
    cases step with
    | offer =>
      -- The attempt has been made, whether or not the line takes it.
      cases hitem
      exact h.exists_balances_of_opens rfl hpaced htimeout nofun
    | streamHeader | gathered =>
      cases hitem
      simpa [noted] using h.exists_balances hpaced _ htimeout nofun
    | _ => cases hitem
  | @unfetched piece most e hkind =>
    have hnoted : noted s (.gather piece) (.fetch s.job.index most (.error e)) = none := rfl
    rw [hnoted, Option.toList_none, List.append_nil]
    exact h.exists_balances hpaced _ nofun nofun
  | lapse _ hlast | unanswered _ hlast =>
    exact h.exists_balances_of_miss rfl hpaced hlast nofun
  | @refused item task pending hpending hlast =>
    have hnoted : noted s (.answer item false task) .silent = some (.misses true) := by
      simp [noted, hpending, Control.byte]
    rw [hnoted]
    exact h.exists_balances_of_miss rfl hpaced hlast fun _ => rfl

/-- What the notes of a sender amount to that completes the transfer. -/
theorem Tally.exists_balances_of_completes (h : Tally s step notes) (hcompletes : Completes s step)
    (summary : Summary) (hretries : summary.retries = s.session.totalRetries) :
    ∃ series, Balances s.options.config.maxRetries.toNat notes (some (.ok (.completed summary)))
      series := by
  -- The last item has been acknowledged, or there was none.
  have hnone : s.open? step = none := by
    cases hcompletes <;> rfl
  obtain ⟨done, hdone, hnotes, htotal⟩ := h.exists_between hnone
  rw [hnotes]
  refine ⟨done, hdone.balances nofun ?_⟩
  rintro _ ⟨⟩
  exact hretries.trans htotal

/-- An account does not depend on what is done next. -/
theorem Tally.goto (h : Tally s step notes) (next : Step) : Tally (s.goto next) step notes := by
  cases h with
  | between done hopen hdone hnotes htotal => exact .between done hopen hdone hnotes htotal
  | during done x hopen hdone hnotes hretries htotal hspares =>
    exact .during done x hopen hdone hnotes hretries htotal hspares

end Tally

/-! ## Runs -/

/-- What a sender writes in an act. -/
inductive Writes (a : Act Sender) : Bytes → Prop
  /-- It makes an attempt. -/
  | attempt {file : Nat} {stage : Stage} {data : Bytes}
      (hnote : note? a = some (.opens (.frame file stage data))) : Writes a data
  /-- It writes a header or a block into a stream. -/
  | stream {item : Item} (hstreaming : a.state.streaming = true)
      (hitem : item = .header ∨ ∃ piece, item = .block piece) : Writes a (frame a.state item)
  /-- It gives the transfer up. -/
  | cancel {ending : Ending} (hphase : a.state.phase = .cancelling ending) :
    Writes a [Control.can.byte, Control.can.byte]

/-- A sender keeps account of its attempts until it has come to its end. -/
inductive Accounted (options : Options) (notes : List Note) (s : Sender) : Prop
  /-- It goes on. -/
  | doing {step : Step} (hphase : s.phase = .doing step) (hoptions : s.options = options)
      (hplaced : s.Placed step) (hpaced : s.Paced .start step)
      (hheader : step = .streamHeader → s.streaming = true) (htally : Tally s step notes)
  /-- It has come to its end. -/
  | parted {ending : Ending} (hphase : s.phase = .cancelling ending ∨ s.phase = .over ending)
      (series : List Series)
      (hbalances : Balances options.config.maxRetries.toNat notes (some ending) series)

section Runs

variable {options : Options} {notes : List Note} {s s' : Sender} {step step' : Step} {event : Event}

theorem accounted_new (options : Options) (files : List FileHeader) (moment : Moment) :
    Accounted options [] (new options files moment) :=
  .doing rfl rfl ⟨nofun, nofun⟩ (.inr ⟨rfl, rfl⟩) nofun (.between [] rfl (orderly_nil _ _) rfl rfl)

/-- A header goes without an answer only into a stream. -/
theorem Turns.streaming_of_eq (h : Turns s step event s' step') (hstep : step' = .streamHeader) :
    s'.streaming = true := by
  cases h with
  | beginStream _ hstreaming => exact hstreaming
  | noise htask =>
    rw [hstep] at htask
    exact absurd rfl htask
  | arrival htask =>
    rw [hstep] at htask
    cases htask
  | _ => cases hstep

/-- Nothing is written but what is to be written at a step. -/
theorem Course.exists_item {data : Bytes} {reply : Except IoError Nat} {next : Sender}
    (h : Course s step (.write data reply) next) :
    ∃ item, step.item? = some item ∧ data = frame s item := by
  cases h with
  | turns h =>
    cases h with
    | streamHeader | offer | streamed => exact ⟨_, rfl, rfl⟩
  | breaks h =>
    cases h with
    | unwritten hitem => exact ⟨_, hitem, rfl⟩

/-- A sender writes only to make an attempt, into a stream, or to give the transfer up. -/
theorem Accounted.ensures_writes (h : Accounted options notes s) :
    (Sender.act s).Ensures fun event _ => ∀ data reply, event = .write data reply →
      Writes ⟨s, event⟩ data := by
  refine Party.ensures_act ?_ ?_
  · intro step hphase
    cases h with
    | doing hdoing hoptions hplaced hpaced hheader =>
      rw [hphase] at hdoing
      cases hdoing
      refine ((ensures_course hplaced).and (ensures_streaming_of_writes s step)).mono ?_
      rintro event next ⟨hcourse, hstreaming⟩ data reply rfl
      obtain ⟨item, hitem, rfl⟩ := hcourse.exists_item
      cases step with
      | streamHeader =>
        cases hitem
        exact .stream (hheader rfl) (.inl rfl)
      | gathered piece =>
        cases hitem
        exact .stream (hstreaming piece rfl rfl) (.inr ⟨piece, rfl⟩)
      | offer item spare =>
        cases hitem
        have hnote : note? ⟨s, .write (frame s item) reply⟩ =
            some (.opens (.frame s.job.index (stage s item) (frame s item))) := by
          simp only [note?, hphase, noted]
        exact .attempt hnote
      | _ => cases hitem
    | parted hparted => exact absurd hphase (Party.Parted.phase_ne ⟨_, hparted⟩ step)
  · rintro ending reply moment hphase _ _ ⟨⟩
    exact .cancel hphase

/-- Nothing is noted where a stop is requested. -/
theorem noted_of_aborts (hhalts : step.halts = true) (habort : s.moment.abort = true) :
    noted s step .silent = none := by
  cases step with
  | attempt => exact if_pos habort
  | streamHeader | offer | nextPiece => rfl
  | _ => cases hhalts

/-- A sender keeps account of what comes of its acts. -/
theorem Tally.accounted_of_course (h : Tally s step notes) (hoptions : s.options = options)
    (hplaced : s.Placed step) (hpaced : s.Paced .start step) {next : Sender}
    (hcourse : Course s step event next) (hpunctual : s.Punctual event next) :
    Accounted options (notes ++ (noted s step event).toList) next := by
  subst hoptions
  cases hcourse with
  | turns hturns =>
    have hplaced' := hturns.placed hplaced
    have htally' := h.enter (hturns.enters hpunctual) hturns.options_eq hpaced hturns.filed_le
    exact .doing rfl hturns.options_eq ⟨hplaced'.files_ne_nil, hplaced'.timed⟩
      (.inl (hturns.retries_lt hpaced)) hturns.streaming_of_eq (htally'.goto _)
  | breaks hbreaks =>
    obtain ⟨series, hbalances⟩ := h.exists_balances_of_breaks hbreaks hpaced
    exact .parted (Party.phase_fail _ _) series hbalances
  | @completes _ s' hcompletes htotal =>
    have hnoted : noted s step .silent = none := by
      cases hcompletes <;> rfl
    obtain ⟨series, hbalances⟩ := h.exists_balances_of_completes hcompletes
      ((s'.session.enter .done).summary s'.moment.now) htotal
    rw [hnoted, Option.toList_none, List.append_nil]
    exact .parted (.inr rfl) series hbalances
  | aborts hhalts habort =>
    obtain ⟨series, hbalances⟩ := h.exists_balances hpaced (some (.ok .aborted)) nofun nofun
    rw [noted_of_aborts hhalts habort, Option.toList_none, List.append_nil]
    exact .parted (.inl rfl) series hbalances
  | @rejects text =>
    have hnoted : noted s .start .silent = none := rfl
    obtain ⟨series, hbalances⟩ :=
      h.exists_balances hpaced (some (.error (.invalidArgument text))) nofun nofun
    rw [hnoted, Option.toList_none, List.append_nil]
    exact .parted (.inr rfl) series hbalances

/-- A sender keeps account with every act. -/
theorem Accounted.ensures_accounted (h : Accounted options notes s) :
    (Sender.act s).Ensures fun event next => s.Punctual event next →
      Accounted options (notes ++ (note? ⟨s, event⟩).toList) next := by
  cases h with
  | doing hphase hoptions hplaced hpaced hheader htally =>
    refine ensures_act_of_course ?_ ?_ ?_
    · intro step hstep
      rw [hphase] at hstep
      cases hstep
      exact hplaced
    · intro step event next hstep hcourse hpunctual
      have hnote : note? ⟨s, event⟩ = noted s step event := by
        simp only [note?, hstep]
      rw [hphase] at hstep
      cases hstep
      rw [hnote]
      exact htally.accounted_of_course hoptions hplaced hpaced hcourse hpunctual
    · intro ending reply moment hcancelling
      rw [hphase] at hcancelling
      cases hcancelling
  | parted hphase series hbalances =>
    refine ensures_act_of_course ?_ ?_ ?_
    · exact fun step hstep => absurd hstep (Party.Parted.phase_ne ⟨_, hphase⟩ step)
    · exact fun step event next hstep => absurd hstep (Party.Parted.phase_ne ⟨_, hphase⟩ step)
    · intro ending reply moment hcancelling _
      rcases hphase with hphase | hphase
      · have hnote : ∀ event, note? ⟨s, event⟩ = none := by
          intro event
          simp only [note?, hphase]
        rw [hphase] at hcancelling
        cases hcancelling
        rw [hnote, Option.toList_none, List.append_nil]
        exact .parted (.inr rfl) series hbalances
      · rw [hphase] at hcancelling
        cases hcancelling

/-- What the account of a sender amounts to. -/
theorem Accounted.exists_balances (h : Accounted options notes s) {ending : Option Ending}
    (hending : ∀ e, ending = some e → s.phase = .over e) :
    ∃ series, Balances options.config.maxRetries.toNat notes ending series := by
  cases h with
  | doing hphase hoptions hplaced hpaced hheader htally =>
    -- A run that has come to an ending has left the sender there.
    have hnone : ending = none := by
      refine Option.eq_none_iff_forall_ne_some.mpr fun e he => ?_
      rw [hending e he] at hphase
      cases hphase
    rw [hnone, ← hoptions]
    exact htally.exists_balances hpaced none nofun nofun
  | @parted e hphase series hbalances =>
    cases ending with
    | none => exact ⟨series, hbalances.of_some⟩
    | some e' =>
      rw [hending e' rfl] at hphase
      rcases hphase with hphase | hphase
      · cases hphase
      · cases hphase
        exact ⟨series, hbalances⟩

variable {ω : Type} {env : Surroundings ω} {good : ω → Prop} {queued supply : ω → Nat} {w : ω}

/-- A sender comes to its end in patient surroundings with finite files, and its attempts are
bounded: it attempts one thing after the other, and each of them no more often than is allowed. What
it writes is an attempt, unless it goes into a stream or gives the transfer up. -/
theorem exists_ending_and_balances (henv : env.Patient good queued)
    (hfinite : env.Supplies good supply) (options : Options) (files : List FileHeader)
    (hw : good w) :
    let start := new options files (env.moment w)
    (∃ acts, (Action.run env act acts start w).ending ≠ none) ∧
      ∀ acts, (∀ a ∈ Action.trace env act acts start w, ∀ data reply,
          a.event = .write data reply → Writes a data) ∧
        ∃ series, Balances options.config.maxRetries.toNat
          ((Action.trace env act acts start w).filterMap note?)
          (Action.run env act acts start w).ending series := by
  intro start
  refine ⟨(going_new options files _).exists_ending henv hfinite hw rfl, fun acts => ?_⟩
  have hrun := @Surroundings.Patient.invariant_run _ _ _ env good queued act henv attentive_act
    (fun past s => (∀ a ∈ past, ∀ data reply, a.event = .write data reply → Writes a data) ∧
      Accounted options (past.filterMap note?) s) ?_ acts [] start w hw rfl
    ⟨List.forall_mem_nil _, accounted_new options files _⟩
  · obtain ⟨hwrites, haccounted⟩ := hrun
    exact ⟨hwrites, haccounted.exists_balances fun e he => Party.phase_of_ending step_ne_stop he⟩
  · rintro past s ⟨hwrites, haccounted⟩
    refine (haccounted.ensures_writes.and haccounted.ensures_accounted).mono ?_
    rintro event next ⟨hwrites', hnext⟩ hpunctual
    constructor
    · exact List.forall_mem_append.mpr ⟨hwrites, List.forall_mem_singleton.mpr hwrites'⟩
    · have hlast : [(⟨s, event⟩ : Act Sender)].filterMap note? = (note? ⟨s, event⟩).toList := by
        cases hnote : note? ⟨s, event⟩ <;> simp [hnote]
      rw [List.filterMap_append, hlast]
      exact hnext hpunctual

/-- A sender of three bytes whose receiver refuses the first end mark. -/
theorem exists_ending_and_balances_three_bytes :
    let setup : Script.Setup MemorySink := { sink := MemorySink.sink }
    let options : Options := { protocol := .xmodem, variant := .checksum }
    let play : Script.Play :=
      { initial := [⟨0, .ok [Control.nak.byte]⟩]
        replies := [[⟨0, .ok [Control.ack.byte]⟩], [⟨0, .ok [Control.nak.byte]⟩]]
        rest := [⟨0, .ok [Control.ack.byte]⟩] }
    let env := Script.World.surroundings setup
    let w := Script.World.new setup play [{ remaining := [97, 98, 99] }] {}
    let start := new options [{ name := "a" }] (env.moment w)
    w.wire.Substantial ∧
    (∃ acts, (Action.run env act acts start w).ending ≠ none) ∧
      ∀ acts, (∀ a ∈ Action.trace env act acts start w, ∀ data reply,
          a.event = .write data reply → Writes a data) ∧
        ∃ series, Balances 10 ((Action.trace env act acts start w).filterMap note?)
          (Action.run env act acts start w).ending series := by
  intro setup options play env w start
  have hsubstantial : w.wire.Substantial :=
    Script.Wire.substantial_ofPlay (by decide) (by decide) (by decide)
  exact ⟨hsubstantial, exists_ending_and_balances (Script.World.patient setup)
    (Script.World.supplies setup _) options [{ name := "a" }] hsubstantial⟩

end Runs

end Sender

end BlockTransfer
