import BlockTransfer.Party
import BlockTransfer.Sink.Memory
import Mathlib.Data.List.Basic

/-!
# Parties between two readings

A party that is not waiting for the line goes on by itself: it writes, fetches, stores and
reports until it has to read again. `Seat.Moves` is one such act, with files that are read and a
sink that stores without fault, and with no request to stop. `Seat.Settles` says that, whatever
the times of the replies and the sizes of the readings, the party comes to a certain state after a
bounded number of acts, and what it has written by then.

## Main definitions

* `Seat`: a party together with its files and its sink.
* `Seat.Moves`: one act that does not read.
* `Seat.Settles`: the party comes to a state without reading.

## Main results

* `Seat.Settles.trans`: what is reached from a state that is reached, is reached.
* One rule for each kind of act, and the rules for `Party.write` and `Party.listen`.
-/

namespace BlockTransfer

theorem Moment.abort_mk (now : Nat) : (⟨now, false⟩ : Moment).abort = false :=
  rfl

/-- What a party has at hand beside the line. -/
structure Desk where
  /-- The rest of each file to send that has not been fetched yet. -/
  sources : List Bytes
  /-- The files received. -/
  sink : MemorySink := {}

/-- A party with states `σ` and what it has at hand. -/
structure Seat (σ : Type) where
  /-- The party. -/
  party : σ
  /-- What it has at hand. -/
  desk : Desk

/-- A reading of at most `most` bytes brings `data` and leaves `rest`. Nothing is brought only at
the end. -/
structure Serves (content : Bytes) (most : Nat) (data rest : Bytes) : Prop where
  /-- Nothing is lost. -/
  eq_append : content = data ++ rest
  /-- No more is brought than was asked for. -/
  length_le : data.length ≤ most
  /-- There is no end before the end. -/
  eq_nil : data = [] → rest = []

/-- What is wanted of a file is what a reading brought and a part of what is left. -/
theorem Serves.take_eq {content data rest : Bytes} {most : Nat}
    (h : Serves content most data rest) :
    content.take most = data ++ rest.take (most - data.length) := by
  obtain ⟨rfl, hle, -⟩ := h
  rw [List.take_append, List.take_of_length_le hle]

/-- What is not wanted of a file is what is not wanted of what is left. -/
theorem Serves.drop_eq {content data rest : Bytes} {most : Nat}
    (h : Serves content most data rest) :
    content.drop most = rest.drop (most - data.length) := by
  obtain ⟨rfl, hle, -⟩ := h
  rw [List.drop_append, List.drop_of_length_le hle, List.nil_append]

namespace Seat

variable {σ : Type} {act : σ → Action σ}

/-- One act of a party that does not read, and what is written by it. -/
inductive Moves (act : σ → Action σ) (s : Seat σ) : List Bytes → Seat σ → Prop
  /-- Nothing that can be seen. -/
  | silent {next : σ} (h : act s.party = .silent next) : Moves act s [] ⟨next, s.desk⟩
  /-- A write that is taken as a whole. -/
  | write {data : Bytes} {next : Except IoError Nat → Moment → σ} {moment : Moment}
      (h : act s.party = .write data next) (hcalm : moment.abort = false) :
      Moves act s [data] ⟨next (.ok data.length) moment, s.desk⟩
  /-- A report. -/
  | report {progress : Progress} {next : Moment → σ} {moment : Moment}
      (h : act s.party = .report progress next) (hcalm : moment.abort = false) :
      Moves act s [] ⟨next moment, s.desk⟩
  /-- A reading from a file. -/
  | fetch {file most : Nat} {next : Except IoError Bytes → Moment → σ} {moment : Moment}
      {content data rest : Bytes} (h : act s.party = .fetch file most next)
      (hfile : s.desk.sources[file]? = some content) (hserves : Serves content most data rest)
      (hcalm : moment.abort = false) :
      Moves act s []
        ⟨next (.ok data) moment, { s.desk with sources := s.desk.sources.set file rest }⟩
  /-- The begin of a file in the sink. -/
  | openFile {header : Option FileHeader} {next : Except IoError Unit → Moment → σ}
      {moment : Moment} (h : act s.party = .openFile header next) (hcalm : moment.abort = false) :
      Moves act s []
        ⟨next (s.desk.sink.openFile header).1 moment,
          { s.desk with sink := (s.desk.sink.openFile header).2 }⟩
  /-- Data for the sink. -/
  | store {data : Bytes} {next : Except IoError Unit → Moment → σ} {moment : Moment}
      (h : act s.party = .store data next) (hcalm : moment.abort = false) :
      Moves act s []
        ⟨next (s.desk.sink.store data).1 moment,
          { s.desk with sink := (s.desk.sink.store data).2 }⟩
  /-- The end of a file in the sink. -/
  | closeFile {file : ReceivedFile} {next : Except IoError Unit → Moment → σ} {moment : Moment}
      (h : act s.party = .closeFile file next) (hcalm : moment.abort = false) :
      Moves act s []
        ⟨next (s.desk.sink.closeFile file).1 moment,
          { s.desk with sink := (s.desk.sink.closeFile file).2 }⟩

/-- Whatever the replies are, the party comes to a state with `post` without reading. The first
argument of `post` is what has been written by then. -/
inductive Settles (act : σ → Action σ) : (List Bytes → Seat σ → Prop) → Seat σ → Prop
  /-- The party is there. -/
  | here {post : List Bytes → Seat σ → Prop} {s : Seat σ} (h : post [] s) : Settles act post s
  /-- The party can move, and comes there after every move. -/
  | move {post : List Bytes → Seat σ → Prop} {s : Seat σ} (can : ∃ said s', Moves act s said s')
      (next : ∀ said s', Moves act s said s' →
        Settles act (fun more => post (said ++ more)) s') : Settles act post s

namespace Settles

variable {post post' : List Bytes → Seat σ → Prop} {s : Seat σ}

theorem mono (hs : Settles act post s) (h : ∀ said s', post said s' → post' said s') :
    Settles act post' s := by
  induction hs generalizing post' with
  | here hpost => exact .here (h _ _ hpost)
  | move can _ ih => exact .move can fun said s' hmove => ih said s' hmove fun _ _ => h _ _

/-- What is reached from a state that is reached, is reached. -/
theorem trans (hs : Settles act post s)
    (h : ∀ said s', post said s' → Settles act (fun more => post' (said ++ more)) s') :
    Settles act post' s := by
  induction hs generalizing post' with
  | here hpost => exact h _ _ hpost
  | move can _ ih =>
    refine .move can fun said s' hmove => ih said s' hmove fun more s'' hpost => ?_
    have hrest := h _ _ hpost
    simp only [List.append_assoc] at hrest
    exact hrest

/-! ## Rules for acts -/

/-- The rule for silent acts. -/
theorem silent {next : σ} (h : act s.party = .silent next)
    (hs : Settles act post ⟨next, s.desk⟩) : Settles act post s := by
  refine .move ⟨_, _, .silent h⟩ fun said s' hmove => ?_
  cases hmove <;> simp_all

/-- The rule for writes. -/
theorem write {data : Bytes} {next : Except IoError Nat → Moment → σ}
    (h : act s.party = .write data next)
    (hs : ∀ moment : Moment, moment.abort = false →
      Settles act (fun more => post (data :: more)) ⟨next (.ok data.length) moment, s.desk⟩) :
    Settles act post s := by
  refine .move ⟨_, _, .write h (Moment.abort_mk 0)⟩ fun said s' hmove => ?_
  cases hmove <;> simp_all

/-- The rule for reports. -/
theorem report {progress : Progress} {next : Moment → σ}
    (h : act s.party = .report progress next)
    (hs : ∀ moment : Moment, moment.abort = false → Settles act post ⟨next moment, s.desk⟩) :
    Settles act post s := by
  refine .move ⟨_, _, .report h (Moment.abort_mk 0)⟩ fun said s' hmove => ?_
  cases hmove <;> simp_all

/-- The rule for readings from a file. -/
theorem fetch {file most : Nat} {next : Except IoError Bytes → Moment → σ} {content : Bytes}
    (h : act s.party = .fetch file most next) (hfile : s.desk.sources[file]? = some content)
    (hmost : 0 < most)
    (hs : ∀ (moment : Moment) (data rest : Bytes), moment.abort = false →
      Serves content most data rest →
      Settles act post
        ⟨next (.ok data) moment, { s.desk with sources := s.desk.sources.set file rest }⟩) :
    Settles act post s := by
  -- A source can always bring as much as was asked for, so there is a move.
  have hserves : Serves content most (content.take most) (content.drop most) := by
    refine ⟨(List.take_append_drop _ _).symm, List.length_take_le _ _, fun hnil => ?_⟩
    rcases List.take_eq_nil_iff.mp hnil with hzero | hnil
    · omega
    · rw [hnil, List.drop_nil]
  refine .move ⟨_, _, .fetch h hfile hserves (Moment.abort_mk 0)⟩ fun said s' hmove => ?_
  cases hmove <;> simp_all

/-- The rule for beginning a file. -/
theorem openFile {header : Option FileHeader} {next : Except IoError Unit → Moment → σ}
    (h : act s.party = .openFile header next)
    (hs : ∀ moment : Moment, moment.abort = false →
      Settles act post
        ⟨next (.ok ()) moment, { s.desk with sink := { s.desk.sink with current := some [] } }⟩) :
    Settles act post s := by
  refine .move ⟨_, _, .openFile h (Moment.abort_mk 0)⟩ fun said s' hmove => ?_
  cases hmove <;> simp_all [MemorySink.openFile]

/-- The rule for storing data. -/
theorem store {data stored : Bytes} {next : Except IoError Unit → Moment → σ}
    (h : act s.party = .store data next) (hopen : s.desk.sink.current = some stored)
    (hs : ∀ moment : Moment, moment.abort = false →
      Settles act post
        ⟨next (.ok ()) moment,
          { s.desk with sink := { s.desk.sink with current := some (stored ++ data) } }⟩) :
    Settles act post s := by
  refine .move ⟨_, _, .store h (Moment.abort_mk 0)⟩ fun said s' hmove => ?_
  cases hmove <;> simp_all [MemorySink.store]

/-- The rule for ending a file. -/
theorem closeFile {file : ReceivedFile} {stored : Bytes}
    {next : Except IoError Unit → Moment → σ}
    (h : act s.party = .closeFile file next) (hopen : s.desk.sink.current = some stored)
    (hs : ∀ moment : Moment, moment.abort = false →
      Settles act post
        ⟨next (.ok ()) moment,
          { s.desk with sink := ⟨s.desk.sink.files ++ [(file, stored)], none⟩ }⟩) :
    Settles act post s := by
  refine .move ⟨_, _, .closeFile h (Moment.abort_mk 0)⟩ fun said s' hmove => ?_
  cases hmove <;> simp_all [MemorySink.closeFile]

end Settles

end Seat

/-! ## Acts of parties -/

namespace Party

variable {δ φ : Type} {s : Party δ φ}

/-- A party goes on if no stop is requested. -/
theorem unlessAborted_of_calm (hcalm : s.moment.abort = false) (act : Action (Party δ φ)) :
    s.unlessAborted act = act := by
  rw [unlessAborted, hcalm]
  rfl

/-- The rule for a step before which a party looks for a request to stop. -/
theorem settles_unlessAborted {act : Party δ φ → Action (Party δ φ)}
    {post : List Bytes → Seat (Party δ φ) → Prop} {seat : Seat (Party δ φ)} {next : Party δ φ}
    (h : act seat.party = s.unlessAborted (.silent next)) (hcalm : s.moment.abort = false)
    (hs : Seat.Settles act post ⟨next, seat.desk⟩) : Seat.Settles act post seat :=
  .silent (h.trans (unlessAborted_of_calm hcalm _)) hs

/-- The rule for writes of a party. -/
theorem settles_write {act : Party δ φ → Action (Party δ φ)}
    {post : List Bytes → Seat (Party δ φ) → Prop} {seat : Seat (Party δ φ)} {data : Bytes}
    {step : φ} (h : act seat.party = s.write data step)
    (hs : ∀ moment : Moment, moment.abort = false →
      Seat.Settles act (fun more => post (data :: more))
        ⟨{ s with moment }.goto step, seat.desk⟩) :
    Seat.Settles act post seat := by
  refine .write h fun moment hcalm => ?_
  simp only [if_true]
  exact hs moment hcalm

/-- The rule for reports of a party. -/
theorem settles_report {act : Party δ φ → Action (Party δ φ)}
    {post : List Bytes → Seat (Party δ φ) → Prop} {seat : Seat (Party δ φ)} {step : φ}
    (h : act seat.party = s.report step)
    (hs : ∀ moment : Moment, moment.abort = false →
      Seat.Settles act post ⟨{ s with moment }.goto step, seat.desk⟩) :
    Seat.Settles act post seat :=
  .report h hs

/-- A party has given up. -/
def Lost (s : Party δ φ) : Prop :=
  ∃ error, s.phase = .cancelling (.error error) ∨ s.phase = .over (.error error)

/-- A party whose attempt has failed gives up or goes on. -/
theorem lost_or_retry_eq (s : Party δ φ) (stage : Stage) (step : φ) :
    (s.retry stage step).Lost ∨
      s.retry stage step = (s.mapSession Session.recordRetry).goto step := by
  unfold retry
  dsimp only
  split
  · exact .inr rfl
  · exact .inl ⟨_, .inl rfl⟩

/-- A party that has given up does not change its mind. -/
theorem Lost.of_moves {act : Party δ φ → Action (Party δ φ)} {own : φ → Action (Party δ φ)}
    {seat seat' : Seat (Party δ φ)} {said : List Bytes} (h : seat.party.Lost)
    (hact : act seat.party = seat.party.act own) (hmove : Seat.Moves act seat said seat') :
    seat'.party.Lost := by
  obtain ⟨error, hphase | hphase⟩ := h
  · simp only [Party.act, hphase] at hact
    -- The peer is told of the end, and that is all.
    cases hmove <;> simp_all [Lost]
  · simp only [Party.act, hphase] at hact
    cases hmove <;> simp_all

/-- A party that has given up does not read. -/
theorem Lost.not_read {act : Party δ φ → Action (Party δ φ)} {own : φ → Action (Party δ φ)}
    {timeout : Nat} {next : Except IoError Bytes → Moment → Party δ φ} (h : s.Lost)
    (hact : act s = s.act own) : act s ≠ .read timeout next := by
  obtain ⟨error, hphase | hphase⟩ := h
  · simp [hact, Party.act, hphase]
  · simp [hact, Party.act, hphase]

/-- The next byte is taken if it has arrived. -/
theorem listen_byte_cons {deadline : Nat} {byte : UInt8} {rest : Bytes}
    (again : Line.Task → φ) (heard : Option Bytes → Party δ φ → Party δ φ)
    (hpending : s.pending = byte :: rest) :
    s.listen (.byte deadline) again heard =
      .silent (heard (some [byte]) { s with pending := rest }) := by
  simp only [listen, Line.Task.look, hpending]

/-- So many bytes are taken if they have arrived. -/
theorem listen_exact_of_le {count idle deadline : Nat}
    (again : Line.Task → φ) (heard : Option Bytes → Party δ φ → Party δ φ)
    (hcount : count ≤ s.pending.length) :
    s.listen (.exact count idle deadline) again heard =
      .silent (heard (some (s.pending.take count))
        { s with pending := s.pending.drop count }) := by
  simp only [listen, Line.Task.look, hcount, if_true]

/-- A party that waits for the next byte reads if it has not arrived. -/
theorem exists_listen_byte_eq_read {deadline : Nat} (again : Line.Task → φ)
    (heard : Option Bytes → Party δ φ → Party δ φ) (hpending : s.pending = []) :
    ∃ timeout next, s.listen (.byte deadline) again heard = .read timeout next := by
  simp only [listen, Line.Task.look, hpending]
  exact ⟨_, _, rfl⟩

/-- A party that waits for so many bytes reads if they have not arrived. -/
theorem exists_listen_exact_eq_read {count idle deadline : Nat} (again : Line.Task → φ)
    (heard : Option Bytes → Party δ φ → Party δ φ) (hpending : s.pending.length < count) :
    ∃ timeout next, s.listen (.exact count idle deadline) again heard = .read timeout next := by
  have hcount : ¬count ≤ s.pending.length := by omega
  simp only [listen, Line.Task.look, hcount, if_false]
  exact ⟨_, _, rfl⟩

/-- A party that looks for a byte reads if nothing has arrived. -/
theorem exists_listen_poll_eq_read (again : Line.Task → φ)
    (heard : Option Bytes → Party δ φ → Party δ φ) (hpending : s.pending = []) :
    ∃ timeout next, s.listen .poll again heard = .read timeout next := by
  simp only [listen, Line.Task.look, hpending]
  exact ⟨_, _, rfl⟩

/-- While the next byte has not arrived the line is read. What arrives is looked at, and a reading
in vain may be the end of the wait. -/
theorem listen_byte_eq_read {deadline timeout : Nat} {again : Line.Task → φ}
    {heard : Option Bytes → Party δ φ → Party δ φ}
    {next : Except IoError Bytes → Moment → Party δ φ}
    (h : s.listen (.byte deadline) again heard = .read timeout next) :
    s.pending = [] ∧
      (∀ (arrived : Bytes) (moment : Moment), arrived ≠ [] → next (.ok arrived) moment =
        { s with pending := arrived, moment }.goto (again (.byte deadline))) ∧
      (∀ moment : Moment,
        next (.ok []) moment = { s with pending := [], moment }.goto (again (.byte deadline)) ∨
          next (.ok []) moment = heard none { s with pending := [], moment }) := by
  cases hpending : s.pending with
  | cons byte rest =>
    rw [listen_byte_cons again heard hpending] at h
    cases h
  | nil =>
    simp only [listen, Line.Task.look, hpending, Action.read.injEq] at h
    obtain ⟨rfl, rfl⟩ := h
    refine ⟨rfl, fun arrived moment hne => ?_, fun moment => ?_⟩
    · simp [Line.Task.hear, hne]
    · -- The wait goes on until the deadline.
      by_cases hlate : deadline ≤ moment.now
      · exact .inr (by simp [Line.Task.hear, hlate])
      · exact .inl (by simp [Line.Task.hear, hlate])

/-- While bytes are missing the line is read, and what arrives is added. -/
theorem listen_exact_eq_read {count idle deadline timeout : Nat} {again : Line.Task → φ}
    {heard : Option Bytes → Party δ φ → Party δ φ}
    {next : Except IoError Bytes → Moment → Party δ φ}
    (h : s.listen (.exact count idle deadline) again heard = .read timeout next) :
    s.pending.length < count ∧
      ∀ (arrived : Bytes) (moment : Moment), arrived ≠ [] → next (.ok arrived) moment =
        { s with pending := s.pending ++ arrived, moment }.goto
          (again (.exact count idle (moment.now + idle))) := by
  rcases Nat.lt_or_ge s.pending.length count with hmissing | hcount
  · have hcount : ¬count ≤ s.pending.length := by omega
    simp only [listen, Line.Task.look, hcount, if_false, Action.read.injEq] at h
    obtain ⟨rfl, rfl⟩ := h
    refine ⟨hmissing, fun arrived moment hne => ?_⟩
    simp [Line.Task.hear, hne]
  · rw [listen_exact_of_le again heard hcount] at h
    cases h

/-- A party that looks for a byte finds none if nothing has arrived. -/
theorem listen_poll_eq_read {timeout : Nat} {again : Line.Task → φ}
    {heard : Option Bytes → Party δ φ → Party δ φ}
    {next : Except IoError Bytes → Moment → Party δ φ}
    (h : s.listen .poll again heard = .read timeout next) :
    s.pending = [] ∧
      ∀ moment : Moment, next (.ok []) moment = heard none { s with pending := [], moment } := by
  cases hpending : s.pending with
  | cons byte rest =>
    simp only [listen, Line.Task.look, hpending] at h
    cases h
  | nil =>
    simp only [listen, Line.Task.look, hpending, Action.read.injEq] at h
    obtain ⟨rfl, rfl⟩ := h
    exact ⟨rfl, fun moment => rfl⟩

end Party

end BlockTransfer
