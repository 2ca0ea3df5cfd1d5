import BlockTransfer.Proofs.Sender.Words
import BlockTransfer.Script.Rehearsal
import BlockTransfer.Sink.Memory

/-!
# What every run of a sender says

At each step of a sender some words may follow on the line. Every act of the sender leads to a step
whose words, with the deed of the act in front, are words of the step before it. So the deeds of a
run are the beginning of a word that may follow on its first step, whatever the receiver does and
however the files are read.

## Main definitions

* `Sender.Outlook`: what decides what may follow on a step.
* `Sender.Outlook.AtStep`: the words that may follow on a step.

## Main results

* `Sender.ensures_step_advances`: what every act of a sender preserves.
* `Sender.trace_follows`: the deeds of every run are the beginning of a word.
-/

namespace BlockTransfer.Sender

/-! ## What lies ahead of a sender -/

/-- What decides what a sender may still do on the line, beside its step. -/
structure Outlook where
  /-- The options. -/
  options : Options
  /-- The block check in force. -/
  trailer : Trailer
  /-- Whether blocks follow each other without answers. -/
  streaming : Bool
  /-- The headers of the files still to be sent, the current one first. -/
  headers : List FileHeader
  /-- The index of the current file. -/
  index : Nat
  /-- The number of the next block. -/
  number : Nat
  /-- What is left of each file. -/
  unread : Nat → List Bytes

/-- The outlook of a sender whose files give what is unread. -/
def outlook (s : Sender) (unread : Nat → List Bytes) : Outlook where
  options := s.options
  trailer := s.trailer
  streaming := s.streaming
  headers := s.job.files
  index := s.job.index
  number := s.session.blockNumber.toNat
  unread := unread

namespace Outlook

/-- What is left of the current file. -/
def current (o : Outlook) : List Bytes :=
  o.unread o.index

/-- The bytes of an item. -/
def message (o : Outlook) : Item → Bytes
  | .header =>
    match o.headers with
    | [] => []
    | header :: _ => header.toBlock.encode o.trailer
  | .block piece => (pieceBlock o.options o.number piece).encode o.trailer
  | .endOfFile => [Control.eot.byte]
  | .endOfBatch => FileHeader.endOfBatch.encode o.trailer

/-- What may be done when the given blocks of the current file are still to be sent. -/
def WithBlocks (o : Outlook) (blocks : List Block) (word : List Deed) : Prop :=
  ∃ data rest, DataWord o.trailer o.streaming blocks data ∧
    BatchWord o.options o.unread (o.index + 1) o.headers.tail rest ∧ word = data ++ rest

/-- What may be done when the data of the current file is to be sent. -/
def WithData (o : Outlook) (word : List Deed) : Prop :=
  o.WithBlocks (fileBlocks o.options 1 o.current) word

/-- What may be done when the block with the next number is followed by the rest of the current
file. -/
def AfterBlock (o : Outlook) (word : List Deed) : Prop :=
  o.WithBlocks (fileBlocks o.options (o.number + 1) o.current) word

/-- What may be done when an invitation is awaited. -/
def Awaiting (o : Outlook) (word : List Deed) : Invitation → Prop
  | .file => o.headers ≠ [] → BatchWord o.options o.unread o.index o.headers word
  | .data => o.headers ≠ [] → ∃ signal trailer streaming rest,
    mode? signal = some (trailer, streaming) ∧ { o with trailer, streaming }.WithData rest ∧
    word = .invited signal :: rest
  | .endOfBatch => ∃ signal trailer streaming again, mode? signal = some (trailer, streaming) ∧
    word = .invited signal :: repeated (again + 1) (FileHeader.endOfBatch.encode trailer)

/-- What may be done when the receiver has asked for something. -/
def Invited (o : Outlook) (word : List Deed) : Invitation → Prop
  | .file => o.headers ≠ [] →
    match o.options.protocol with
    | .xmodem => o.WithData word
    | .ymodem => ∃ first rest, Said o.streaming (o.message .header) first ∧
      o.Awaiting rest .data ∧ word = first ++ rest
  | .data => o.headers ≠ [] → o.WithData word
  | .endOfBatch => ∃ again, word = repeated (again + 1) (o.message .endOfBatch)

/-- What may be done when an item has been acknowledged. -/
def AfterItem (o : Outlook) (word : List Deed) : Item → Prop
  | .header => o.Awaiting word .data
  | .block _ => o.AfterBlock word
  | .endOfFile => BatchWord o.options o.unread (o.index + 1) o.headers.tail word
  | .endOfBatch => word = []

/-- What may be done when an item is written at least so many times from now on. -/
def Repeats (o : Outlook) (least : Nat) (word : List Deed) (item : Item) : Prop :=
  ∃ more rest, o.AfterItem rest item ∧ word = repeated (least + more) (o.message item) ++ rest

/-- What may be done from a step on. -/
def AtStep (o : Outlook) (word : List Deed) : Step → Prop
  | .start | .nextFile => BatchWord o.options o.unread o.index o.headers word
  | .await invitation | .attempt invitation | .listen invitation _ => o.Awaiting word invitation
  | .invited invitation => o.Invited word invitation
  | .streamHeader => ∃ rest, o.Awaiting rest .data ∧ word = .wrote (o.message .header) :: rest
  | .offer item _ => o.Repeats 1 word item
  | .sent item _ | .answer item _ _ => o.Repeats 0 word item
  | .acknowledged item => o.AfterItem word item
  | .nextPiece => o.WithBlocks (fileBlocks o.options o.number o.current) word
  | .gather piece => piece.length < o.options.variant.blockSize.length →
    o.WithBlocks (fileBlocks o.options o.number (resume piece o.current)) word
  | .gathered piece => o.WithBlocks (gatheredBlocks o.options o.number piece o.current) word
  | .drain _ | .counted _ => o.AfterBlock word

variable {o : Outlook} {word : List Deed} {signal : Control} {trailer : Trailer}
  {streaming : Bool} {piece : Bytes} {item : Item} {invitation : Invitation} {least : Nat}

/-! ### There is always something that may be done -/

theorem exists_withBlocks (o : Outlook) (blocks : List Block) :
    ∃ word, o.WithBlocks blocks word := by
  obtain ⟨data, hdata⟩ := exists_dataWord o.trailer o.streaming blocks
  obtain ⟨rest, hrest⟩ := exists_batchWord o.options o.unread (o.index + 1) o.headers.tail
  exact ⟨_, data, rest, hdata, hrest, rfl⟩

theorem exists_awaiting (o : Outlook) (invitation : Invitation) :
    ∃ word, o.Awaiting word invitation := by
  cases invitation with
  | file =>
    obtain ⟨word, hword⟩ := exists_batchWord o.options o.unread o.index o.headers
    exact ⟨word, fun _ => hword⟩
  | data =>
    obtain ⟨rest, hrest⟩ := exists_withBlocks { o with trailer := .checksum, streaming := false } _
    exact ⟨_, fun _ => ⟨_, _, _, rest, mode?_nak, hrest, rfl⟩⟩
  | endOfBatch => exact ⟨_, _, _, _, 0, mode?_nak, rfl⟩

theorem exists_invited (o : Outlook) (invitation : Invitation) :
    ∃ word, o.Invited word invitation := by
  cases invitation with
  | file =>
    cases hprotocol : o.options.protocol with
    | xmodem =>
      obtain ⟨word, hword⟩ := exists_withBlocks o _
      refine ⟨word, fun _ => ?_⟩
      rwa [hprotocol]
    | ymodem =>
      obtain ⟨first, hfirst⟩ := exists_said o.streaming (o.message .header)
      obtain ⟨rest, hrest⟩ := exists_awaiting o .data
      refine ⟨first ++ rest, fun _ => ?_⟩
      rw [hprotocol]
      exact ⟨first, rest, hfirst, hrest, rfl⟩
  | data =>
    obtain ⟨word, hword⟩ := exists_withBlocks o _
    exact ⟨word, fun _ => hword⟩
  | endOfBatch => exact ⟨_, 0, rfl⟩

theorem exists_afterItem (o : Outlook) (item : Item) : ∃ word, o.AfterItem word item := by
  cases item with
  | header => exact exists_awaiting o .data
  | block => exact exists_withBlocks o _
  | endOfFile => exact exists_batchWord _ _ _ _
  | endOfBatch => exact ⟨[], rfl⟩

theorem exists_repeats (o : Outlook) (least : Nat) (item : Item) :
    ∃ word, o.Repeats least word item := by
  obtain ⟨rest, hrest⟩ := exists_afterItem o item
  exact ⟨_, 0, rest, hrest, rfl⟩

/-- There is always something that may be done. -/
theorem exists_atStep (o : Outlook) (step : Step) : ∃ word, o.AtStep word step := by
  cases step with
  | start | nextFile => exact exists_batchWord _ _ _ _
  | await invitation | attempt invitation | listen invitation =>
    exact exists_awaiting o invitation
  | invited invitation => exact exists_invited o invitation
  | streamHeader =>
    obtain ⟨rest, hrest⟩ := exists_awaiting o .data
    exact ⟨_, rest, hrest, rfl⟩
  | offer item | sent item | answer item => exact exists_repeats o _ item
  | acknowledged item => exact exists_afterItem o item
  | nextPiece | gathered | drain | counted => exact exists_withBlocks o _
  | gather =>
    obtain ⟨word, hword⟩ := exists_withBlocks o _
    exact ⟨word, fun _ => hword⟩

/-! ### What a deed leaves to be done -/

/-- A signal that asks for blocks decides how they are sent. -/
theorem awaiting_invited (hmode : mode? signal = some (trailer, streaming))
    (h : { o with trailer, streaming }.Invited word invitation) :
    o.Awaiting (.invited signal :: word) invitation := by
  cases invitation with
  | file =>
    intro hheaders
    obtain ⟨header, headers, hfiles⟩ := List.exists_cons_of_ne_nil hheaders
    have hinvited := h hheaders
    rw [hfiles]
    split at hinvited
    · rename_i hprotocol
      obtain ⟨data, rest, hdata, hrest, rfl⟩ := hinvited
      simp only [hfiles, List.tail_cons] at hrest
      exact .file (.xmodem hprotocol hmode hdata) hrest
    · rename_i hprotocol
      obtain ⟨first, last, hfirst, hlast, rfl⟩ := hinvited
      obtain ⟨signal', trailer', streaming', last, hmode', ⟨data, rest, hdata, hrest, rfl⟩, rfl⟩ :=
        hlast hheaders
      simp only [hfiles, List.tail_cons] at hrest
      simp only [message, hfiles] at hfirst
      have hfile := BatchWord.file (.ymodem hprotocol hmode hfirst hmode' hdata) hrest
      simpa using hfile
  | data => exact fun hheaders => ⟨signal, trailer, streaming, word, hmode, h hheaders, rfl⟩
  | endOfBatch =>
    obtain ⟨again, rfl⟩ := h
    exact ⟨signal, trailer, streaming, again, hmode, rfl⟩

/-- An item is written once more. -/
theorem Repeats.wrote (h : o.Repeats least word item) :
    o.Repeats (least + 1) (.wrote (o.message item) :: word) item := by
  obtain ⟨more, rest, hrest, rfl⟩ := h
  refine ⟨more, rest, hrest, ?_⟩
  rw [Nat.add_right_comm, repeated_succ, List.cons_append]

/-- An item is acknowledged. -/
theorem repeats_acknowledged (h : o.AfterItem word item) :
    o.Repeats 0 (.acknowledged :: word) item :=
  ⟨0, word, h, rfl⟩

/-- An item that is written again is written. -/
theorem Repeats.of_succ (h : o.Repeats (least + 1) word item) : o.Repeats least word item := by
  obtain ⟨more, rest, hrest, rfl⟩ := h
  refine ⟨more + 1, rest, hrest, ?_⟩
  rw [Nat.add_assoc, Nat.add_comm 1]

/-- A file is ended by an empty piece. -/
theorem atStep_gathered_nil (h : o.Repeats 1 word .endOfFile) : o.AtStep word (.gathered []) := by
  obtain ⟨more, rest, hrest, rfl⟩ := h
  rw [Nat.add_comm]
  exact ⟨_, rest, .endOfFile more, hrest, rfl⟩

/-- A block that is answered is followed by the others. -/
theorem atStep_gathered_repeats (hne : piece ≠ []) (hstreaming : o.streaming = false)
    (h : o.Repeats 1 word (.block piece)) : o.AtStep word (.gathered piece) := by
  obtain ⟨more, rest, ⟨data, rest, hdata, hrest, rfl⟩, rfl⟩ := h
  rw [Nat.add_comm 1 more, AtStep, gatheredBlocks, if_neg hne]
  exact ⟨_, rest, .block (said_repeated hstreaming more _) hdata, hrest,
    (List.append_assoc _ _ _).symm⟩

/-- A block in a stream is followed by the others. -/
theorem atStep_gathered_wrote (hne : piece ≠ []) (hstreaming : o.streaming = true)
    (h : o.AfterBlock word) :
    o.AtStep (.wrote (o.message (.block piece)) :: word) (.gathered piece) := by
  obtain ⟨data, rest, hdata, hrest, rfl⟩ := h
  rw [AtStep, gatheredBlocks, if_neg hne]
  exact ⟨_, rest, .block (said_wrote hstreaming _) hdata, hrest, rfl⟩

/-- The outlook after a reading of the current file. -/
def read (o : Outlook) (reading : Bytes) : Outlook :=
  { o with unread := Function.update o.unread o.index (leftAfter o.current reading) }

@[simp]
theorem current_read (o : Outlook) (reading : Bytes) :
    (o.read reading).current = leftAfter o.current reading :=
  Function.update_self _ _ _

/-- A reading of the current file does not matter to the files after it. -/
theorem WithBlocks.of_read {reading : Bytes} {blocks : List Block}
    (h : (o.read reading).WithBlocks blocks word) : o.WithBlocks blocks word := by
  obtain ⟨data, rest, hdata, hrest, rfl⟩ := h
  refine ⟨data, rest, hdata, hrest.congr ?_, rfl⟩
  intro file hfile
  have hne : file ≠ o.index := by
    change o.index + 1 ≤ file at hfile
    omega
  exact (Function.update_of_ne hne _ _).symm

/-- A reading that completes a piece. -/
theorem atStep_gathered {reading : Bytes} (hgives : Gives o.current reading)
    (hcomplete : reading = [] ∨
      reading ≠ [] ∧ (piece ++ reading).length = o.options.variant.blockSize.length)
    (h : (o.read reading).AtStep word (.gathered (piece ++ reading))) :
    o.AtStep word (.gather piece) := by
  intro hshort
  simp only [AtStep, current_read] at h
  rcases hcomplete with rfl | ⟨hne, hfull⟩
  · rw [← gatheredBlocks_of_nil hgives hshort]
    rw [List.append_nil] at h
    exact h.of_read
  · rw [← gatheredBlocks_of_length_eq hgives hne hfull]
    exact h.of_read

/-- A reading that does not complete a piece. -/
theorem atStep_gather {reading : Bytes} (hgives : Gives o.current reading) (hne : reading ≠ [])
    (hshort : (piece ++ reading).length < o.options.variant.blockSize.length)
    (h : (o.read reading).AtStep word (.gather (piece ++ reading))) :
    o.AtStep word (.gather piece) := by
  intro _
  simp only [AtStep, current_read, resume_append hgives hne] at h
  exact (h hshort).of_read

end Outlook

/-! ## Acts -/

/-- An event fits what is left of the files. -/
def Fits (unread : Nat → List Bytes) : Event → Prop
  | .fetch file most (.ok data) => Gives (unread file) (data.take most)
  | _ => True

/-- What is left of the files after an event. -/
def leftOver (unread : Nat → List Bytes) : Event → Nat → List Bytes
  | .fetch file most (.ok data) =>
    Function.update unread file (leftAfter (unread file) (data.take most))
  | _ => unread

/-- What a sender does at a step may be done there: it comes to an end, or it goes on with another
step, and what may be done from there on may be done after it. -/
def Advances (s : Sender) (step : Step) (unread : Nat → List Bytes) (event : Event)
    (next : Sender) : Prop :=
  Fits unread event →
    (next.Parted ∧ ∃ word,
      (outlook s unread).AtStep ((deed ⟨s, event⟩).toList ++ word) step) ∨
    ∃ step', next.phase = .doing step' ∧
      ∀ word, (outlook next (leftOver unread event)).AtStep word step' →
        (outlook s unread).AtStep ((deed ⟨s, event⟩).toList ++ word) step

section Acts

variable {s s' : Sender} {step step' : Step} {unread : Nat → List Bytes} {event : Event}

/-- A sender may always come to an end without a deed. -/
theorem advances_of_parted (hparted : s'.Parted) (hdeed : deed ⟨s, event⟩ = none) :
    Advances s step unread event s' := by
  intro _
  obtain ⟨word, hword⟩ := (outlook s unread).exists_atStep step
  exact .inl ⟨hparted, word, by rwa [hdeed]⟩

/-- A sender goes on without a deed, and nothing has changed that decides what it may do. -/
theorem advances_goto (hdeed : deed ⟨s, event⟩ = none) (hleft : leftOver unread event = unread)
    (hsame : ∀ word, (outlook s' unread).AtStep word step' →
      (outlook s unread).AtStep word step) :
    Advances s step unread event (s'.goto step') := by
  intro _
  refine .inr ⟨step', rfl, fun word hword => ?_⟩
  rw [hleft] at hword
  rw [hdeed]
  exact hsame word hword

/-- A sender writes what may be written. -/
theorem ensures_write_advances {data : Bytes}
    (hsame : ∀ word, (outlook s' unread).AtStep word step' →
      (outlook s unread).AtStep (.wrote data :: word) step) :
    (s'.write data step').Ensures (Advances s step unread) := by
  apply Party.ensures_write
  · intro reply moment e _
    obtain ⟨word, hword⟩ := (outlook s' unread).exists_atStep step'
    exact .inl ⟨Party.parted_fail _ _, word, hsame word hword⟩
  · intro moment _
    exact .inr ⟨step', rfl, hsame⟩

/-- A failed attempt is followed by another one, or the sender comes to an end. -/
theorem advances_retry (stage : Stage) (hdeed : deed ⟨s, event⟩ = none)
    (hleft : leftOver unread event = unread)
    (hsame : ∀ word, (outlook s' unread).AtStep word step' →
      (outlook s unread).AtStep word step) :
    Advances s step unread event (s'.retry stage step') := by
  apply Party.retry_induction
  · exact fun e => advances_of_parted (Party.parted_fail _ _) hdeed
  · exact advances_goto hdeed hleft hsame

/-- What a sender hears while it waits for an invitation. -/
theorem advances_heardInvitation {invitation : Invitation} {task : Line.Task}
    {heard : Option Bytes}
    (hdeed : deed ⟨s, event⟩ = ((heard.bind List.head?).bind Control.ofByte?).bind fun signal =>
      (mode? signal).map fun _ => .invited signal)
    (hleft : leftOver unread event = unread) (hsame : outlook s' unread = outlook s unread) :
    Advances s (.listen invitation task) unread event
      (heardInvitation invitation task heard s') := by
  have hstay (h : deed ⟨s, event⟩ = none) : Advances s (.listen invitation task) unread event
      (s'.goto (.listen invitation task)) := by
    refine advances_goto h hleft fun word hword => ?_
    rwa [← hsame]
  unfold heardInvitation
  split
  · rename_i byte rest
    simp only [Option.bind_some, List.head?_cons] at hdeed
    split
    · rename_i hcan
      simp only [hcan, Option.bind_some, mode?, Option.map_none] at hdeed
      exact advances_of_parted (Party.parted_fail _ _) hdeed
    · rename_i signal hother hsignal
      simp only [hsignal, Option.bind_some] at hdeed
      cases hmode : mode? signal with
      | none =>
        rw [hmode] at hdeed
        rw [negotiate?_eq, hmode]
        exact hstay hdeed
      | some mode =>
        rw [hmode, Option.map_some] at hdeed
        rw [negotiate?_eq, hmode]
        refine fun _ => .inr ⟨.invited invitation, rfl, fun word hword => ?_⟩
        rw [hleft] at hword
        rw [hdeed, ← hsame]
        exact Outlook.awaiting_invited hmode hword
    · rename_i hnone
      simp only [hnone, Option.bind_none] at hdeed
      exact hstay hdeed
  · rename_i hvain
    have hnone : deed ⟨s, event⟩ = none := by
      rcases heard with _ | _ | ⟨byte, rest⟩
      · exact hdeed
      · exact hdeed
      · exact absurd rfl (hvain byte rest)
    refine advances_retry _ hnone hleft fun word hword => ?_
    rwa [← hsame]

/-- What a sender hears while it waits for an answer. -/
theorem advances_heardAnswer {item : Item} {spare : Bool} {task : Line.Task}
    {heard : Option Bytes}
    (hdeed : deed ⟨s, event⟩ = ((heard.bind List.head?).bind Control.ofByte?).bind fun signal =>
      if signal = .ack then some .acknowledged else none)
    (hleft : leftOver unread event = unread) (hsame : outlook s' unread = outlook s unread) :
    Advances s (.answer item spare task) unread event (heardAnswer item spare task heard s') := by
  have hrefused (h : deed ⟨s, event⟩ = none) : Advances s (.answer item spare task) unread event
      (refused s' item spare) := by
    refine advances_retry _ h hleft fun word hword => ?_
    rw [← hsame]
    exact hword.of_succ
  unfold heardAnswer
  split
  · rename_i byte rest
    simp only [Option.bind_some, List.head?_cons] at hdeed
    split
    · rename_i hcan
      simp only [hcan, Option.bind_some] at hdeed
      exact advances_of_parted (Party.parted_fail _ _) hdeed
    · rename_i hack
      simp only [hack, Option.bind_some, if_true] at hdeed
      refine fun _ => .inr ⟨.acknowledged item, rfl, fun word hword => ?_⟩
      rw [hleft] at hword
      rw [hdeed, ← hsame]
      exact Outlook.repeats_acknowledged hword
    · rename_i hnak
      simp only [hnak, Option.bind_some] at hdeed
      split
      · refine advances_goto hdeed hleft fun word hword => ?_
        rw [← hsame]
        exact hword.of_succ
      · exact hrefused hdeed
    · rename_i hother
      have hnone : deed ⟨s, event⟩ = none := by
        rw [hdeed]
        cases hsignal : Control.ofByte? byte with
        | none => rfl
        | some signal =>
          rw [Option.bind_some, if_neg]
          rintro rfl
          simp_all
      refine advances_goto hnone hleft fun word hword => ?_
      rwa [← hsame]
  · rename_i hvain
    apply hrefused
    rcases heard with _ | _ | ⟨byte, rest⟩
    · exact hdeed
    · exact hdeed
    · exact absurd rfl (hvain byte rest)

/-- A sender that waits for an invitation. -/
theorem ensures_listen_advances {invitation : Invitation} {task : Line.Task}
    (hphase : s.phase = .doing (.listen invitation task)) :
    (Sender.step s (.listen invitation task)).Ensures
      (Advances s (.listen invitation task) unread) := by
  apply Party.ensures_listen_of_look
  · intro r hlook
    refine advances_heardInvitation ?_ rfl rfl
    simp only [deed, signalled, found?, hphase, hlook]
    cases (r.result.bind List.head?).bind Control.ofByte? with
    | none => rfl
    | some signal => cases hmode : mode? signal <;> simp [hmode]
  · intro timeout left e e' moment _
    exact advances_of_parted (Party.parted_fail _ _) rfl
  · intro timeout left arrived moment r _ _
    exact advances_heardInvitation rfl rfl rfl
  · intro timeout left arrived moment task' left' _ _
    exact advances_goto rfl rfl fun word hword => hword

/-- A sender that waits for an answer. -/
theorem ensures_answer_advances {item : Item} {spare : Bool} {task : Line.Task}
    (hphase : s.phase = .doing (.answer item spare task)) :
    (Sender.step s (.answer item spare task)).Ensures
      (Advances s (.answer item spare task) unread) := by
  apply Party.ensures_listen_of_look
  · intro r hlook
    refine advances_heardAnswer ?_ rfl rfl
    simp only [deed, signalled, found?, hphase, hlook]
    cases (r.result.bind List.head?).bind Control.ofByte? with
    | none => rfl
    | some signal => cases signal <;> rfl
  · intro timeout left e e' moment _
    exact advances_of_parted (Party.parted_fail _ _) rfl
  · intro timeout left arrived moment r _ _
    exact advances_heardAnswer rfl rfl rfl
  · intro timeout left arrived moment task' left' _ _
    exact advances_goto rfl rfl fun word hword => hword

/-- A sender in a stream that looks for a cancel signal. -/
theorem ensures_drain_advances {piece : Bytes} (hphase : s.phase = .doing (.drain piece)) :
    (Sender.step s (.drain piece)).Ensures (Advances s (.drain piece) unread) := by
  have hnone : deed ⟨s, .silent⟩ = none := by simp [deed, signalled, hphase]
  apply Party.ensures_listen_of_look
  · intro r _
    unfold heardInStream
    split
    · split
      · exact advances_of_parted (Party.parted_fail _ _) hnone
      · exact advances_goto hnone rfl fun word hword => hword
    · exact advances_goto hnone rfl fun word hword => hword
  · intro timeout left e e' moment _
    exact advances_of_parted (Party.parted_fail _ _) rfl
  · intro timeout left arrived moment r _ _
    exact advances_goto rfl rfl fun word hword => hword
  · intro timeout left arrived moment task' left' _ _
    exact advances_goto rfl rfl fun word hword => hword

/-- The data of the current file is begun, if there is one. -/
theorem advances_beginData (hnone : deed ⟨s, .silent⟩ = none)
    (hsame : ∀ word, (s.job.files ≠ [] → (outlook s unread).WithData word) →
      (outlook s unread).AtStep word step) :
    Advances s step unread .silent (beginData s) := by
  unfold beginData
  cases hfiles : s.job.files with
  | nil =>
    refine advances_goto hnone rfl fun word _ => hsame word fun hne => ?_
    exact absurd hfiles hne
  | cons file files =>
    -- The blocks of every file are numbered from 1 on.
    exact advances_goto hnone rfl fun word hword => hsame word fun _ => hword

/-- What a sender does when it has been invited. -/
theorem advances_invited {invitation : Invitation} (hnone : deed ⟨s, .silent⟩ = none) :
    Advances s (.invited invitation) unread .silent (invited s invitation) := by
  cases invitation with
  | file =>
    unfold invited
    dsimp only
    cases hprotocol : s.options.protocol with
    | xmodem =>
      refine advances_beginData hnone fun word hword hheaders => ?_
      have hoptions : (outlook s unread).options.protocol = .xmodem := hprotocol
      rw [hoptions]
      exact hword hheaders
    | ymodem =>
      have hoptions : (outlook s unread).options.protocol = .ymodem := hprotocol
      dsimp only
      split
      · rename_i hstreaming
        refine advances_goto hnone rfl fun word hword hheaders => ?_
        obtain ⟨rest, hrest, rfl⟩ := hword
        rw [hoptions]
        exact ⟨_, rest, said_wrote hstreaming _, hrest, rfl⟩
      · rename_i hstreaming
        refine advances_goto hnone rfl fun word hword hheaders => ?_
        obtain ⟨more, rest, hrest, rfl⟩ := hword
        have hanswered : (outlook s unread).streaming = false := Bool.eq_false_iff.mpr hstreaming
        rw [hoptions, Nat.add_comm]
        exact ⟨_, rest, said_repeated hanswered more _, hrest, rfl⟩
  | data => exact advances_beginData hnone fun word hword => hword
  | endOfBatch =>
    refine advances_goto hnone rfl fun word hword => ?_
    obtain ⟨more, rest, rfl, rfl⟩ := hword
    refine ⟨more, ?_⟩
    rw [List.append_nil, Nat.add_comm]
    rfl

/-- What a sender does when an item has been acknowledged. -/
theorem advances_acknowledged {item : Item} (hnone : deed ⟨s, .silent⟩ = none) :
    Advances s (.acknowledged item) unread .silent (acknowledged s item) := by
  cases item with
  | header | block | endOfFile => exact advances_goto hnone rfl fun word hword => hword
  | endOfBatch => exact advances_of_parted (Party.parted_complete _) hnone

/-- What a sender does when it takes up the next file. -/
theorem advances_nextFile (hnone : deed ⟨s, .silent⟩ = none) :
    Advances s .nextFile unread .silent (nextFile s) := by
  unfold nextFile
  split
  · rename_i file files hfiles
    refine advances_goto hnone rfl fun word hword => hword ?_
    simp [outlook, hfiles]
  · rename_i hfiles hprotocol
    refine advances_goto hnone rfl fun word hword => ?_
    obtain ⟨signal, trailer, streaming, again, hmode, rfl⟩ := hword
    have hheaders : (outlook s unread).headers = [] := hfiles
    rw [Outlook.AtStep, hheaders]
    exact .endOfBatch hprotocol hmode again
  · exact advances_of_parted (Party.parted_complete _) hnone

/-- What a sender does when a part of the file has been fetched. -/
theorem advances_fetched {piece : Bytes} {most : Nat} {reply : Except IoError Bytes}
    {moment : Moment} (hmost : most = s.options.variant.blockSize.length - piece.length) :
    Advances s (.gather piece) unread (.fetch s.job.index most reply)
      (fetched { s with moment } piece most reply) := by
  cases reply with
  | error e =>
    unfold fetched
    dsimp only
    split
    · exact advances_goto rfl rfl fun word hword => hword
    · exact advances_of_parted (Party.parted_fail _ _) rfl
  | ok data =>
    intro hfits
    have hgives : Gives (outlook s unread).current (data.take most) := hfits
    simp only [fetched]
    split
    · rename_i hcomplete
      refine .inr ⟨.gathered (piece ++ data.take most), rfl, fun word hword hshort => ?_⟩
      change piece.length < s.options.variant.blockSize.length at hshort
      -- The reading has come to the end of a stretch, or it fills a block.
      have hcases : data.take most = [] ∨ data.take most ≠ [] ∧
          (piece ++ data.take most).length = s.options.variant.blockSize.length := by
        rcases hcomplete with hempty | hfull
        · exact .inl (by simp [List.isEmpty_iff.mp hempty])
        · right
          rw [← List.length_pos_iff, List.length_append, List.length_take_of_le hfull]
          omega
      exact Outlook.atStep_gathered hgives hcases hword hshort
    · rename_i hmore
      have hne : data ≠ [] := fun hnil => hmore (.inl (by simp [hnil]))
      have hlength : data.length < most := Nat.lt_of_not_le fun hle => hmore (.inr hle)
      have htake : data.take most = data := List.take_of_length_le hlength.le
      refine .inr ⟨.gather (piece ++ data.take most), rfl, fun word hword => ?_⟩
      refine Outlook.atStep_gather hgives (by rwa [htake]) ?_ hword
      change (piece ++ data.take most).length < s.options.variant.blockSize.length
      rw [htake, List.length_append]
      omega

/-- The message of an item is what a sender writes for it. -/
theorem message_outlook (s : Sender) (unread : Nat → List Bytes) (item : Item) :
    (outlook s unread).message item = frame s item := by
  cases item with
  | header | endOfFile | endOfBatch => rfl
  | block piece =>
    have hnumber : s.session.blockNumber = UInt8.ofNat s.session.blockNumber.toNat := by simp
    rw [frame, dataBlock_eq hnumber]
    rfl

/-- What a sender does when a piece has been fetched. -/
theorem ensures_gathered_advances {piece : Bytes} (hnone : deed ⟨s, .silent⟩ = none) :
    (gathered s piece).Ensures (Advances s (.gathered piece) unread) := by
  unfold gathered
  split
  · rename_i hempty
    obtain rfl := List.isEmpty_iff.mp hempty
    exact advances_goto hnone rfl fun word hword => Outlook.atStep_gathered_nil hword
  · rename_i hfull
    have hne : piece ≠ [] := by simpa using hfull
    split
    · rename_i hstreaming
      apply ensures_write_advances
      intro word hword
      rw [← message_outlook s unread]
      exact Outlook.atStep_gathered_wrote hne hstreaming hword
    · rename_i hstreaming
      have hanswered : (outlook s unread).streaming = false := Bool.eq_false_iff.mpr hstreaming
      exact advances_goto hnone rfl fun word hword =>
        Outlook.atStep_gathered_repeats hne hanswered hword

/-- The block after the next one has the next number. -/
theorem advances_counted {piece : Bytes} {moment : Moment} {progress : Progress} {sent : Nat} :
    Advances s (.counted piece) unread (.report progress)
      (({ s with
        session := s.session.completeBlock piece.length
        moment
        job := { s.job with sent } } : Sender).goto .nextPiece) := by
  refine advances_goto rfl rfl fun word hword => ?_
  have hnumber : UInt8.ofNat (s.session.blockNumber + 1).toNat =
      UInt8.ofNat (s.session.blockNumber.toNat + 1) := by
    rw [UInt8.ofNat_toNat, UInt8.ofNat_add, UInt8.ofNat_toNat]
    rfl
  have hblocks : fileBlocks s.options (s.session.blockNumber + 1).toNat (unread s.job.index) =
      fileBlocks s.options (s.session.blockNumber.toNat + 1) (unread s.job.index) :=
    fileBlocks_congr hnumber
  rw [Outlook.AtStep, Outlook.AfterBlock]
  exact hblocks.subst (motive := fun blocks => (outlook s unread).WithBlocks blocks word) hword

/-- Whatever a sender does may be done. -/
theorem ensures_step_advances (hphase : s.phase = .doing step) :
    (Sender.step s step).Ensures (Advances s step unread) := by
  have hnone (h : ∀ invitation task, step ≠ .listen invitation task)
      (h' : ∀ item spare task, step ≠ .answer item spare task) : deed ⟨s, .silent⟩ = none := by
    cases step <;> simp_all [deed, signalled]
  have habort (hnone : deed ⟨s, .silent⟩ = none) : Advances s step unread .silent s.abort :=
    advances_of_parted (Party.parted_abort s) hnone
  cases step with
  | start =>
    have hquiet := hnone (by simp) (by simp)
    simp only [Sender.step, start]
    split
    · exact advances_of_parted (Party.parted_reject _ _) hquiet
    · split
      · exact advances_of_parted (Party.parted_reject _ _) hquiet
      · exact advances_goto hquiet rfl fun word hword => hword
  | nextFile => exact advances_nextFile (hnone (by simp) (by simp))
  | await invitation => exact advances_goto (hnone (by simp) (by simp)) rfl fun word hword => hword
  | attempt invitation =>
    have hquiet := hnone (by simp) (by simp)
    apply Party.ensures_unlessAborted (habort hquiet)
    exact advances_goto hquiet rfl fun word hword => hword
  | listen invitation task => exact ensures_listen_advances hphase
  | invited invitation => exact advances_invited (hnone (by simp) (by simp))
  | streamHeader =>
    apply Party.ensures_unlessAborted (habort (hnone (by simp) (by simp)))
    apply ensures_write_advances
    intro word hword
    exact ⟨word, hword, rfl⟩
  | offer item spare =>
    apply Party.ensures_unlessAborted (habort (hnone (by simp) (by simp)))
    apply ensures_write_advances
    intro word hword
    rw [← message_outlook s unread]
    exact hword.wrote
  | sent item spare => exact advances_goto (hnone (by simp) (by simp)) rfl fun word hword => hword
  | answer item spare task => exact ensures_answer_advances hphase
  | acknowledged item => exact advances_acknowledged (hnone (by simp) (by simp))
  | nextPiece =>
    have hquiet := hnone (by simp) (by simp)
    apply Party.ensures_unlessAborted (habort hquiet)
    refine advances_goto hquiet rfl fun word hword => ?_
    have hdata := hword (blockSize_pos s.options)
    rwa [fileBlocks_resume_nil] at hdata
  | gather piece =>
    intro reply moment
    exact advances_fetched rfl
  | gathered piece => exact ensures_gathered_advances (hnone (by simp) (by simp))
  | drain piece => exact ensures_drain_advances hphase
  | counted piece =>
    intro moment
    exact advances_counted

end Acts

/-! ## Runs -/

/-- A record of deeds is a part of a word, but for the signals at the end that tell the peer to give
up. -/
def Follows (record word : List Deed) : Prop :=
  ∃ said, said <+: word ∧
    (record = said ∨ record = said ++ [.wrote [Control.can.byte, Control.can.byte]])

theorem Follows.append {record word : List Deed} (h : Follows record word) (first : List Deed) :
    Follows (first ++ record) (first ++ word) := by
  obtain ⟨said, hsaid, hrecord⟩ := h
  refine ⟨first ++ said, (List.prefix_append_right_inj first).mpr hsaid, ?_⟩
  rcases hrecord with rfl | rfl <;> simp

section Runs

variable {ω : Type} {env : Surroundings ω} {options : Options} {moment : Moment} {w : ω}
  {acts : Nat} {s : Sender} {step : Step} {unread : Nat → List Bytes}

theorem deeds_cons (act : Act Sender) (past : List (Act Sender)) :
    deeds (act :: past) = (deed act).toList ++ deeds past := by
  cases hdeed : deed act <;> simp [deeds, hdeed]

/-- A file gives its stretches from the first reading on, and what is left of it after that. -/
theorem yields_cons {act : Act Sender} {past : List (Act Sender)}
    (h : ∀ file, Yields (unread file) (readings file (act :: past))) :
    Fits unread act.event ∧
      ∀ file, Yields (leftOver unread act.event file) (readings file past) := by
  -- What does not bring anything of a file leaves everything as it is.
  have hother (hfits : Fits unread act.event) (hleft : leftOver unread act.event = unread)
      (hreadings : ∀ file, readings file (act :: past) = readings file past) :
      Fits unread act.event ∧
        ∀ file, Yields (leftOver unread act.event file) (readings file past) := by
    refine ⟨hfits, fun file => ?_⟩
    rw [hleft, ← hreadings]
    exact h file
  obtain ⟨s, event⟩ := act
  cases event with
  | fetch current most reply =>
    cases reply with
    | error e => exact hother trivial rfl fun _ => rfl
    | ok data =>
      have hcurrent := h current
      simp only [readings, List.filterMap_cons, if_true, Yields] at hcurrent
      refine ⟨hcurrent.1, fun file => ?_⟩
      by_cases hfile : file = current
      · subst hfile
        rw [leftOver, Function.update_self]
        exact hcurrent.2
      · have hsame := h file
        simp only [readings, List.filterMap_cons, if_neg (Ne.symm hfile)] at hsame
        rw [leftOver, Function.update_of_ne hfile]
        exact hsame
  | _ => exact hother trivial rfl fun _ => rfl

/-- A run that is over has no deeds. -/
theorem deeds_trace_of_over {ending : Ending} (h : s.phase = .over ending) :
    deeds (Action.trace env act acts s w) = [] := by
  cases acts with
  | zero => rfl
  | succ acts =>
    simp only [Action.trace, act, Party.act, h, Action.step]
    rfl

/-- A sender that has come to an end only tells the peer of it. -/
theorem follows_of_parted (h : s.Parted) (word : List Deed) :
    Follows (deeds (Action.trace env act acts s w)) word := by
  refine ⟨[], List.nil_prefix, ?_⟩
  obtain ⟨ending, hphase | hphase⟩ := h
  · cases acts with
    | zero => exact .inl rfl
    | succ acts =>
      right
      simp only [Action.trace, act, Party.act, hphase, Action.step, deeds_cons]
      rw [deeds_trace_of_over rfl]
      rfl
  · exact .inl (deeds_trace_of_over hphase)

/-- From each step on a sender follows what may be done there. -/
theorem exists_follows (hphase : s.phase = .doing step)
    (hyields : ∀ file, Yields (unread file)
      (readings file (Action.trace env act acts s w))) :
    ∃ word, (outlook s unread).AtStep word step ∧
      Follows (deeds (Action.trace env act acts s w)) word := by
  -- By induction on the acts: what may be done after an act is continued to its front.
  induction acts generalizing s w step unread with
  | zero =>
    obtain ⟨word, hword⟩ := (outlook s unread).exists_atStep step
    exact ⟨word, hword, [], List.nil_prefix, .inl rfl⟩
  | succ acts ih =>
    have hact : act s = Sender.step s step := by simp only [act, Party.act, hphase]
    rw [Action.trace, hact] at hyields ⊢
    cases hstep : (Sender.step s step).step env w with
    | error ending =>
      obtain ⟨word, hword⟩ := (outlook s unread).exists_atStep step
      exact ⟨word, hword, [], List.nil_prefix, .inl rfl⟩
    | ok next =>
      rw [hstep] at hyields
      obtain ⟨hfits, hleft⟩ := yields_cons hyields
      have hadvances := (ensures_step_advances hphase).of_step hstep hfits
      rcases hadvances with ⟨hparted, word, hword⟩ | ⟨step', hphase', hsame⟩
      · refine ⟨_, hword, ?_⟩
        rw [deeds_cons]
        exact (follows_of_parted hparted word).append _
      · obtain ⟨word, hword, hfollows⟩ := ih hphase' hleft
        refine ⟨_, hsame word hword, ?_⟩
        rw [deeds_cons]
        exact hfollows.append _

end Runs

/-- Whatever the receiver does, whenever a stop is requested and however the files are read: what a
sender does on the line is, but for the signals at its end that tell the receiver to give up, the
beginning of a word for its files. Each file is announced, sent block by block and ended; each
message is written once in a stream, and otherwise as often as it takes until it is acknowledged;
and the latest signal that asks for blocks decides the block check and the flow. The blocks are cut
from the stretches in which the files are given. Every file is given in some stretches, and in one
if it is read in vain only after its end. -/
theorem trace_follows {ω : Type} (env : Surroundings ω) (options : Options)
    (headers : List FileHeader) (moment : Moment) (w : ω) (acts : Nat) :
    let run := Action.trace env act acts (new options headers moment) w
    (∃ files : Nat → List Bytes, ∀ file, Yields (files file) (readings file run)) ∧
    (∀ files : Nat → List Bytes, (∀ file, Yields (files file) (readings file run)) →
      ∃ word, BatchWord options files 0 headers word ∧ Follows (deeds run) word) ∧
    ∀ contents : Nat → Bytes, (∀ file, Brings (contents file) (readings file run)) →
      ∃ word, BatchWord options (fun file => [contents file]) 0 headers word ∧
        Follows (deeds run) word := by
  intro run
  have hfollows (files : Nat → List Bytes)
      (hyields : ∀ file, Yields (files file) (readings file run)) :
      ∃ word, BatchWord options files 0 headers word ∧ Follows (deeds run) word := by
    have hphase : (new options headers moment).phase = .doing .start := rfl
    exact exists_follows hphase hyields
  refine ⟨?_, hfollows, ?_⟩
  · exact Classical.skolem.mp fun file => exists_yields (readings file run)
  · intro contents hbrings
    exact hfollows _ fun file => (hbrings file).yields

/-- A reading that brings nothing in the middle of a file ends a block there, so the first block
does not hold what the file begins with as far as it would fit. -/
theorem rehearseSend_of_pausing_file :
    let options : Options := { protocol := .xmodem, variant := .checksum }
    let setup : Script.Setup MemorySink := { sink := MemorySink.sink }
    let play : Script.Play :=
      { initial := [⟨0, .ok [Control.nak.byte]⟩], rest := [⟨0, .ok [Control.ack.byte]⟩] }
    let run := Script.rehearseSend setup options [{ name := "a" }]
      (Script.World.new setup play [{ remaining := [97, 98, 99], sizes := [1, 0] }] {})
    run.ending = some (.ok (.completed ⟨[⟨some "a", 3⟩], 3, 3, 0, 0⟩)) ∧
      run.world.written = [(pieceBlock options 1 [97]).encode .checksum,
        (pieceBlock options 2 [98]).encode .checksum,
        (pieceBlock options 3 [99]).encode .checksum, [Control.eot.byte]] ∧
      (blocksFrom options 1 [97, 98, 99]).head?.map (·.encode .checksum) ≠
        run.world.written.head? := by
  decide +kernel

end BlockTransfer.Sender
