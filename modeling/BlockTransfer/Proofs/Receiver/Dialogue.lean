import BlockTransfer.Proofs.Receiver.Intake
import BlockTransfer.Proofs.Receiver.Progress

/-!
# What is said about a file

From the begin of a file to its end a receiver hears one thing after the other: blocks, end marks,
damaged blocks, or nothing in time. What it has heard makes, with what it has written in answer, a
dialogue about the file. How it answers depends on nothing but the dialogue so far.

## Main definitions

* `Receiver.Exchange`: something that has come, and the answer to it.
* `Receiver.dialogue`: the exchanges about the current file, as they are seen in a run.
* `Receiver.Fits`: how a receiver answers, after the exchanges so far.
* `Receiver.Conversation`: every exchange fits those before it.

## Main results

* `Receiver.conversant_act`: every act of a receiver keeps to this.
* `Receiver.fits_of_dialogue`: so every exchange of every run does.
-/

namespace BlockTransfer.Receiver

/-! ## Exchanges -/

/-- Something that has come in the middle of a file, and the answer to it. -/
structure Exchange where
  /-- What has come. -/
  incoming : Incoming
  /-- Whether it is a block that is accepted. -/
  accepted : Bool
  /-- What has been written in answer. -/
  answer : List Bytes := []
  deriving DecidableEq

namespace Exchange

/-- The block of an exchange, if it is accepted. -/
def block? (x : Exchange) : Option Block :=
  match x.incoming, x.accepted with
  | .block block, true => some block
  | _, _ => none

/-- Whether an end mark has come. -/
def isMark (x : Exchange) : Bool :=
  match x.incoming with
  | .endOfFile => true
  | _ => false

/-- An exchange in which more has been written. -/
def say (x : Exchange) (data : List Bytes) : Exchange :=
  { x with answer := x.answer ++ data }

@[simp]
theorem say_nil (x : Exchange) : x.say [] = x := by
  simp [say]

end Exchange

/-- The blocks that are accepted in some exchanges. -/
def blocksOf (exchanges : List Exchange) : List Block :=
  exchanges.filterMap Exchange.block?

/-- The number of end marks in some exchanges. -/
def marksOf (exchanges : List Exchange) : Nat :=
  exchanges.countP Exchange.isMark

section Cons

variable {block : Block} {answer : List Bytes} {earlier : List Exchange}

@[simp]
theorem blocksOf_accepted :
    blocksOf (⟨.block block, true, answer⟩ :: earlier) = block :: blocksOf earlier :=
  rfl

theorem blocksOf_cons {x : Exchange} (h : x.accepted = false) :
    blocksOf (x :: earlier) = blocksOf earlier := by
  rw [blocksOf, List.filterMap_cons_none]
  · rfl
  · unfold Exchange.block?
    split
    · simp_all
    · rfl

theorem marksOf_cons (x : Exchange) :
    marksOf (x :: earlier) = marksOf earlier + x.isMark.toNat := by
  cases hmark : x.isMark <;> simp [marksOf, hmark]

end Cons

/-! ## Dialogues -/

/-- What has come in the middle of a file and is about to be dealt with. -/
def came (s : Receiver) : Option Incoming :=
  match s.phase with
  | .doing (.judge .data incoming) => some incoming
  | _ => none

theorem came_eq_some_iff {s : Receiver} {incoming : Incoming} :
    came s = some incoming ↔ s.phase = .doing (.judge .data incoming) := by
  unfold came
  split
  · rename_i hphase
    simp [hphase]
  · rename_i hphase
    simpa using hphase incoming

/-- What is written in an act, apart from the cancel signal. -/
def uttered (act : Act Receiver) : List Bytes :=
  match act.state.phase, act.event with
  | .doing _, .write data _ => [data]
  | _, _ => []

/-- Whether a file begins or ends. -/
def bounds : Event → Bool
  | .openFile _ _ | .closeFile _ _ => true
  | _ => false

/-- The exchanges about the current file after one more act, latest first. -/
def Exchange.after (exchanges : List Exchange) (act : Act Receiver) : List Exchange :=
  if bounds act.event then []
  else
    match came act.state with
    | some incoming => ⟨incoming, (acceptance act.state).isSome, uttered act⟩ :: exchanges
    -- What is written without anything new having come belongs to what came before.
    | none => exchanges.modifyHead (·.say (uttered act))

/-- The exchanges about the current file in a run so far, latest first. -/
def dialogue (past : List (Act Receiver)) : List Exchange :=
  past.foldl Exchange.after []

theorem dialogue_concat (past : List (Act Receiver)) (act : Act Receiver) :
    dialogue (past ++ [act]) = Exchange.after (dialogue past) act := by
  rw [dialogue, List.foldl_append]
  rfl

section After

variable {s : Receiver} {step : Step} {event : Event} {incoming : Incoming} {data : Bytes}
  {reply : Except IoError Nat} {exchanges : List Exchange}

theorem after_of_bounds (h : bounds event = true) : Exchange.after exchanges ⟨s, event⟩ = [] :=
  if_pos h

/-- If nothing comes and nothing is written the dialogue stays as it is. -/
theorem after_of_quiet (hcame : came s = none) (hwrites : event.writes = false)
    (hbounds : bounds event = false) : Exchange.after exchanges ⟨s, event⟩ = exchanges := by
  have huttered : uttered ⟨s, event⟩ = [] := by
    unfold uttered
    cases event <;> simp_all [Event.writes]
  simp only [Exchange.after, hbounds, hcame, huttered]
  cases exchanges <;> simp

theorem after_of_write (hphase : s.phase = .doing step) (hcame : came s = none) :
    Exchange.after exchanges ⟨s, .write data reply⟩ = exchanges.modifyHead (·.say [data]) := by
  simp [Exchange.after, bounds, hcame, uttered, hphase]

/-- The cancel signal is no answer. -/
theorem after_of_cancelling {ending : Ending} (hphase : s.phase = .cancelling ending) :
    Exchange.after exchanges ⟨s, event⟩ = if bounds event then [] else exchanges := by
  have hcame : came s = none := by simp [came, hphase]
  have huttered : uttered ⟨s, event⟩ = [] := by simp [uttered, hphase]
  simp only [Exchange.after, hcame, huttered]
  cases exchanges <;> simp

theorem after_of_came (hphase : s.phase = .doing (.judge .data incoming)) :
    Exchange.after exchanges ⟨s, .silent⟩ =
      ⟨incoming, (acceptance s).isSome, []⟩ :: exchanges := by
  simp [Exchange.after, bounds, came, uttered, hphase]

theorem after_of_came_write (hphase : s.phase = .doing (.judge .data incoming)) :
    Exchange.after exchanges ⟨s, .write data reply⟩ =
      ⟨incoming, (acceptance s).isSome, [data]⟩ :: exchanges := by
  simp [Exchange.after, bounds, came, uttered, hphase]

/-- While the line is listened to nothing has come. -/
theorem came_of_task {task : Line.Task} (hphase : s.phase = .doing step)
    (htask : step.task? = some task) : came s = none := by
  unfold came
  rw [hphase]
  cases step with
  | judge => cases htask
  | _ => rfl

theorem isSome_acceptance {block : Block}
    (hphase : s.phase = .doing (.judge .data (.block block))) :
    (acceptance s).isSome = decide (block.number = s.session.blockNumber) := by
  by_cases hnumber : block.number = s.session.blockNumber <;> simp [acceptance, hphase, hnumber]

end After

/-! ## How a receiver answers -/

/-- How a receiver answers what comes in the middle of a file, after the exchanges so far. -/
inductive Fits (options : Options) (earlier : List Exchange) : Exchange → Prop
  /-- The next block is accepted. -/
  | accepted {block : Block} {answer : List Bytes}
      (hnumber : block.number = UInt8.ofNat ((blocksOf earlier).length + 1))
      (hanswer : answer <+: [[Control.ack.byte]]) :
    Fits options earlier ⟨.block block, true, answer⟩
  /-- A block with the number before that is acknowledged again. -/
  | repeated {block : Block} (hstreaming : options.variant.isStreaming = false)
      (hnumber : block.number = UInt8.ofNat (blocksOf earlier).length) :
    Fits options earlier ⟨.block block, false, [[Control.ack.byte]]⟩
  /-- In a batch the data is asked for again if that number is 0. -/
  | repeatedZero {block : Block} (hstreaming : options.variant.isStreaming = false)
      (hnumber : block.number = UInt8.ofNat (blocksOf earlier).length)
      (hprotocol : options.protocol = .ymodem) (hzero : block.number = 0) :
    Fits options earlier ⟨.block block, false,
      [[Control.ack.byte], [options.variant.handshake.byte]]⟩
  /-- Every other block is left without an answer. -/
  | stray {block : Block}
      (hnext : block.number ≠ UInt8.ofNat ((blocksOf earlier).length + 1))
      (hrepeated : block.number = UInt8.ofNat (blocksOf earlier).length →
        options.variant.isStreaming = true) : Fits options earlier ⟨.block block, false, []⟩
  /-- In a batch the first end mark of a file is refused. -/
  | firstMark (hprotocol : options.protocol = .ymodem) (hmarks : marksOf earlier = 0) :
    Fits options earlier ⟨.endOfFile, false, [[Control.nak.byte]]⟩
  /-- The last end mark is acknowledged. -/
  | lastMark (hmarks : options.protocol = .ymodem → marksOf earlier = 1) :
    Fits options earlier ⟨.endOfFile, false, [[Control.ack.byte]]⟩
  /-- A damaged block is refused. -/
  | corrupt {e : FrameError} {answer : List Bytes} (hanswer : answer <+: [[Control.nak.byte]]) :
    Fits options earlier ⟨.corrupt e, false, answer⟩
  /-- In a stream nothing is asked for again. -/
  | silence (hstreaming : options.variant.isStreaming = true) :
    Fits options earlier ⟨.silence, false, []⟩
  /-- The next block is asked for again. -/
  | overdue (hstreaming : options.variant.isStreaming = false) :
    Fits options earlier ⟨.silence, false, [[Control.nak.byte]]⟩
  /-- In a batch the data is asked for again as long as there was no block. -/
  | unbegun (hstreaming : options.variant.isStreaming = false)
      (hprotocol : options.protocol = .ymodem) (hblocks : blocksOf earlier = []) :
    Fits options earlier ⟨.silence, false, [[options.variant.handshake.byte]]⟩

/-- Every exchange fits those before it, and there is none after two end marks. -/
inductive Conversation (options : Options) : List Exchange → Prop
  | nil : Conversation options []
  | cons {x : Exchange} {earlier : List Exchange} (h : Conversation options earlier)
      (hopen : marksOf earlier ≤ 1) (hfits : Fits options earlier x) :
    Conversation options (x :: earlier)

namespace Conversation

variable {options : Options} {later earlier : List Exchange} {x : Exchange}

theorem head (h : Conversation options (x :: earlier)) : Fits options earlier x := by
  cases h with
  | cons _ _ hfits => exact hfits

theorem tail (h : Conversation options (x :: earlier)) : Conversation options earlier := by
  cases h with
  | cons h _ _ => exact h

/-- What has been said fits as far as it had been said at any time. -/
theorem of_append (h : Conversation options (later ++ earlier)) : Conversation options earlier := by
  induction later with
  | nil => exact h
  | cons y later ih => exact ih h.tail

theorem fits (h : Conversation options (later ++ x :: earlier)) : Fits options earlier x :=
  h.of_append.head

/-- The latest of the blocks that were accepted has the number that their count gives it. -/
theorem number_eq {latest : Block} {more : List Block} (h : Conversation options earlier)
    (hblocks : blocksOf earlier = latest :: more) :
    latest.number = UInt8.ofNat (blocksOf earlier).length := by
  induction h with
  | nil => cases hblocks
  | cons h _ hfits ih =>
    cases hfits with
    | accepted hnumber =>
      rw [blocksOf_accepted] at hblocks ⊢
      cases hblocks
      exact hnumber
    | _ => exact ih hblocks

end Conversation

/-! ## Where a receiver is in a dialogue -/

/-- What is kept follows from the exchanges so far: the number of the next block, the number of
blocks, and whether an end mark has come. -/
structure Keeps (exchanges : List Exchange) (session : Session) (endSeen : Bool) : Prop where
  number_eq : session.blockNumber = UInt8.ofNat ((blocksOf exchanges).length + 1)
  count_eq : session.fileBlocks = (blocksOf exchanges).length
  marks_eq : marksOf exchanges = endSeen.toNat

/-- The dialogue while a block is awaited. Between two files there is none. -/
def Awaits (exchanges : List Exchange) (session : Session) (endSeen : Bool) : Purpose → Prop
  | .solicited _ => exchanges = []
  | .data => Keeps exchanges session endSeen

/-- The dialogue at a step. -/
def Talks (exchanges : List Exchange) (s : Receiver) : Step → Prop
  | .expect purpose | .listen purpose _ | .collect purpose _ _ _ | .judge purpose _
  | .missed purpose _ => Awaits exchanges s.session s.job.endSeen purpose
  | .purge purpose _ | .refuse purpose =>
    Awaits exchanges s.session s.job.endSeen purpose ∧
      (purpose = .data → ∃ e earlier, exchanges = ⟨.corrupt e, false, []⟩ :: earlier)
  | .nextBlock _ => Keeps exchanges s.session s.job.endSeen
  | .repeated number =>
    Keeps exchanges s.session s.job.endSeen ∧ ∃ block earlier,
      exchanges = ⟨.block block, false, [[Control.ack.byte]]⟩ :: earlier ∧ block.number = number
  -- A block that is accepted has come, but is not counted yet.
  | .store _ _ | .accept _ =>
    ∃ block earlier, exchanges = ⟨.block block, true, []⟩ :: earlier ∧
      Keeps earlier s.session s.job.endSeen
  | .counted _ =>
    ∃ block answer earlier, exchanges = ⟨.block block, true, answer⟩ :: earlier ∧
      Keeps earlier s.session s.job.endSeen
  | .settle | .storeLast _ | .closeFile =>
    ∃ earlier, exchanges = ⟨.endOfFile, false, [[Control.ack.byte]]⟩ :: earlier
  | _ => exchanges = []

/-- What a receiver keeps from its begin on. -/
structure Settled (options : Options) (s : Receiver) : Prop where
  options_eq : s.options = options
  streaming_eq : s.streaming = options.variant.isStreaming
  handshake_eq : options.protocol = .ymodem → s.job.handshake = options.variant.handshake

section Acts

variable {options : Options} {exchanges earlier : List Exchange} {s s' : Receiver}
  {step step' : Step} {event : Event} {signal : Control} {session : Session} {endSeen : Bool}

theorem Settled.of_turns (h : Settled options s) (hturns : Turns s step event s' step') :
    Settled options s' where
  options_eq := hturns.options_eq.trans h.options_eq
  streaming_eq := hturns.streaming_eq.trans h.streaming_eq
  handshake_eq hprotocol := by
    rw [hturns.handshake_eq (by rw [h.options_eq, hprotocol]), h.handshake_eq hprotocol]

/-- What is kept stays the same after something that is neither a block that is accepted nor an end
mark. -/
theorem Keeps.cons (h : Keeps exchanges session endSeen) {x : Exchange}
    (haccepted : x.accepted = false) (hmark : x.isMark = false) :
    Keeps (x :: exchanges) session endSeen := by
  have hblocks : blocksOf (x :: exchanges) = blocksOf exchanges := blocksOf_cons haccepted
  refine ⟨?_, ?_, ?_⟩
  · rw [hblocks, h.number_eq]
  · rw [hblocks, h.count_eq]
  · rw [marksOf_cons, hmark, h.marks_eq]
    rfl

/-- What is kept does not depend on the answers. -/
theorem Keeps.say {x : Exchange} (h : Keeps (x :: earlier) session endSeen) (data : List Bytes) :
    Keeps (x.say data :: earlier) session endSeen :=
  ⟨h.number_eq, h.count_eq, h.marks_eq⟩

/-- A block that is accepted has been counted. -/
theorem Keeps.counted {block : Block} {answer : List Bytes} (h : Keeps earlier session endSeen)
    (useful : Nat) :
    Keeps (⟨.block block, true, answer⟩ :: earlier) (session.completeBlock useful) endSeen where
  number_eq := by
    change session.blockNumber + 1 = _
    rw [h.number_eq, blocksOf_accepted, List.length_cons]
    exact (UInt8.ofNat_add _ 1).symm
  count_eq := congrArg (· + 1) h.count_eq
  marks_eq := h.marks_eq

theorem Keeps.marks_le (h : Keeps exchanges session endSeen) : marksOf exchanges ≤ 1 := by
  rw [h.marks_eq]
  exact Bool.toNat_le endSeen

/-- The number of the block before the next one. -/
theorem Keeps.number_sub_one (h : Keeps exchanges session endSeen) :
    session.blockNumber - 1 = UInt8.ofNat (blocksOf exchanges).length := by
  rw [h.number_eq, UInt8.ofNat_add]
  exact UInt8.add_sub_cancel _ _

theorem sub_one_ne_self (number : UInt8) : number - 1 ≠ number := by
  rw [ne_eq, UInt8.sub_eq_iff_eq_add]
  simp

/-- A block with the number before the next one is not the next one. -/
theorem acceptance_of_sub_one {block : Block}
    (hphase : s.phase = .doing (.judge .data (.block block)))
    (hnumber : block.number = s.session.blockNumber - 1) : (acceptance s).isSome = false := by
  rw [isSome_acceptance hphase, hnumber, decide_eq_false_iff_not]
  exact sub_one_ne_self _

/-- What a receiver writes fits the exchanges so far, whether or not the channel takes it. -/
theorem Says.talks (h : Says s step signal s' step') (hphase : s.phase = .doing step)
    (hsettled : Settled options s) (hsound : Conversation options exchanges)
    (htalks : Talks exchanges s step) (reply : Except IoError Nat) :
    Conversation options (Exchange.after exchanges ⟨s, .write [signal.byte] reply⟩) ∧
      ∀ moment, Talks (Exchange.after exchanges ⟨s, .write [signal.byte] reply⟩)
        { s' with moment } step' := by
  have hprotocol_eq := congrArg Options.protocol hsettled.options_eq
  -- Between two files there is no dialogue to which anything could be added.
  have hbetween (hcame : came s = none) (hnil : exchanges = []) :
      Exchange.after exchanges ⟨s, .write [signal.byte] reply⟩ = [] := by
    rw [after_of_write hphase hcame, hnil, List.modifyHead_nil]
  cases h with
  | prompt | endOfBatch | endAgain | announced | announcedStream | signal =>
    rw [hbetween (by simp [came, hphase]) htalks]
    exact ⟨.nil, fun _ => rfl⟩
  | @refuse purpose =>
    cases purpose with
    | solicited stage =>
      rw [hbetween (by simp [came, hphase]) htalks.1]
      exact ⟨.nil, fun _ => rfl⟩
    | data =>
      obtain ⟨hkeeps, hrefused⟩ := htalks
      obtain ⟨e, earlier, rfl⟩ := hrefused rfl
      rw [after_of_write hphase (by simp [came, hphase])]
      cases hsound with
      | cons hearlier hopen _ =>
        exact ⟨.cons hearlier hopen (.corrupt List.prefix_rfl), fun _ => Keeps.say hkeeps _⟩
  | again hnumber hstreaming =>
    rw [after_of_came_write hphase, acceptance_of_sub_one hphase hnumber]
    refine ⟨.cons hsound (Keeps.marks_le htalks) (.repeated ?_ ?_), fun _ => ⟨?_, _, _, rfl, rfl⟩⟩
    · rw [← hsettled.streaming_eq, hstreaming]
    · rw [hnumber, Keeps.number_sub_one htalks]
    · exact Keeps.cons htalks rfl rfl
  | repeated hprotocol =>
    obtain ⟨hkeeps, block, earlier, rfl, hzero⟩ := htalks
    rw [after_of_write hphase (by simp [came, hphase])]
    cases hsound with
    | cons hearlier hopen hfits =>
      refine ⟨.cons hearlier hopen ?_, fun _ => hkeeps.say _⟩
      cases hfits with
      | repeated hstreaming hnumber =>
        have hymodem : options.protocol = .ymodem := hprotocol_eq ▸ hprotocol
        rw [hsettled.handshake_eq hymodem]
        exact .repeatedZero hstreaming hnumber hymodem hzero
  | endRefused hprotocol hfirst =>
    rw [after_of_came_write hphase]
    have hmarks : marksOf exchanges = 0 := by rw [htalks.marks_eq, hfirst]; rfl
    have haccept : (acceptance s).isSome = false := by simp [acceptance, hphase]
    rw [haccept]
    refine ⟨.cons hsound (Keeps.marks_le htalks)
      (.firstMark (hprotocol_eq ▸ hprotocol) hmarks), fun _ => ?_⟩
    exact ⟨htalks.number_eq, htalks.count_eq, by rw [marksOf_cons, hmarks]; rfl⟩
  | endTaken hlast =>
    rw [after_of_came_write hphase]
    have haccept : (acceptance s).isSome = false := by simp [acceptance, hphase]
    rw [haccept]
    refine ⟨.cons hsound (Keeps.marks_le htalks) (.lastMark ?_), fun _ => ⟨exchanges, rfl⟩⟩
    intro hprotocol
    rw [htalks.marks_eq, hlast (hprotocol_eq.trans hprotocol)]
    rfl
  | overdue hstreaming hsignal =>
    rw [after_of_came_write hphase]
    have haccept : (acceptance s).isSome = false := by simp [acceptance, hphase]
    have hanswers : options.variant.isStreaming = false := by
      rw [← hsettled.streaming_eq, hstreaming]
    rw [haccept]
    refine ⟨.cons hsound (Keeps.marks_le htalks) ?_, fun _ => Keeps.cons htalks rfl rfl⟩
    rcases hsignal with rfl | ⟨rfl, hprotocol, hblocks⟩
    · exact .overdue hanswers
    · have hymodem : options.protocol = .ymodem := hprotocol_eq ▸ hprotocol
      rw [hsettled.handshake_eq hymodem]
      exact .unbegun hanswers hymodem (List.length_eq_zero_iff.mp (htalks.count_eq ▸ hblocks))
  | accept hstreaming =>
    obtain ⟨block, earlier, rfl, hkeeps⟩ := htalks
    rw [after_of_write hphase (by simp [came, hphase])]
    cases hsound with
    | cons hearlier hopen hfits =>
      refine ⟨.cons hearlier hopen ?_, fun _ => ⟨block, _, earlier, rfl, hkeeps⟩⟩
      cases hfits with
      | accepted hnumber _ => exact .accepted hnumber List.prefix_rfl

/-- A wait that goes on belongs to the same dialogue. -/
theorem Talks.rewait (h : Talks exchanges s step) (task : Line.Task) (pending : Bytes)
    (moment : Moment) : Talks exchanges { s with pending, moment } (step.rewait task) := by
  cases step with
  | listen purpose | collect purpose | purge purpose => cases purpose <;> exact h
  | _ => exact h

/-- What a receiver goes on with fits the exchanges so far. -/
theorem Turns.talks (h : Turns s step event s' step') (hphase : s.phase = .doing step)
    (hsettled : Settled options s) (hsound : Conversation options exchanges)
    (htalks : Talks exchanges s step) :
    Conversation options (Exchange.after exchanges ⟨s, event⟩) ∧
      Talks (Exchange.after exchanges ⟨s, event⟩) s' step' := by
  -- At most steps nothing comes and nothing is written.
  have hquiet (hcame : came s = none) (hwrites : event.writes = false)
      (hbounds : bounds event = false) (hnext : Talks exchanges s' step') :
      Conversation options (Exchange.after exchanges ⟨s, event⟩) ∧
        Talks (Exchange.after exchanges ⟨s, event⟩) s' step' := by
    rw [after_of_quiet hcame hwrites hbounds]
    exact ⟨hsound, hnext⟩
  -- A block that is accepted is one more exchange.
  have haccepts {block : Block} (hstep : step = .judge .data (.block block))
      (hevent : event = .silent) (hnumber : block.number = s.session.blockNumber) :
      Conversation options (Exchange.after exchanges ⟨s, event⟩) ∧
        Exchange.after exchanges ⟨s, event⟩ = ⟨.block block, true, []⟩ :: exchanges ∧
          Keeps exchanges s.session s.job.endSeen := by
    subst hstep hevent
    rw [after_of_came hphase, isSome_acceptance hphase, decide_eq_true hnumber]
    refine ⟨.cons hsound (Keeps.marks_le htalks) (.accepted ?_ List.nil_prefix), rfl, htalks⟩
    rw [hnumber, htalks.number_eq]
  cases h with
  | speaks h =>
    obtain ⟨hsound', htalks'⟩ := h.talks hphase hsettled hsound htalks _
    exact ⟨hsound', htalks' _⟩
  | start | solicit | attempt | expect | endMark | garbage | marker | silence | block | damaged
  | halted | missedAnswer | unanswered | first | header | takeUp | nextBlock | store | settled
  | settle | storeLast =>
    exact hquiet (by simp [came, hphase]) rfl rfl htalks
  | arrival htask => exact hquiet (came_of_task hphase htask) rfl rfl (htalks.rewait _ _ _)
  | missedBlock =>
    exact hquiet (by simp [came, hphase]) rfl rfl
      ⟨htalks.number_eq, htalks.count_eq, htalks.marks_eq⟩
  | purged => exact hquiet (by simp [came, hphase]) rfl rfl htalks
  | repeated => exact hquiet (by simp [came, hphase]) rfl rfl htalks.1
  | accept =>
    obtain ⟨block, earlier, hexchanges, hkeeps⟩ := htalks
    exact hquiet (by simp [came, hphase]) rfl rfl ⟨block, _, earlier, hexchanges, hkeeps⟩
  | counted =>
    obtain ⟨block, answer, earlier, rfl, hkeeps⟩ := htalks
    exact hquiet (by simp [came, hphase]) rfl rfl (hkeeps.counted _)
  | openFile =>
    rw [after_of_bounds rfl]
    exact ⟨.nil, rfl, rfl, rfl⟩
  | closeFile =>
    rw [after_of_bounds rfl]
    exact ⟨.nil, rfl⟩
  | bounded hnumber =>
    obtain ⟨hsound', hafter, hkeeps⟩ := haccepts rfl rfl hnumber
    exact ⟨hsound', _, exchanges, hafter, hkeeps⟩
  | held hnumber =>
    obtain ⟨hsound', hafter, hkeeps⟩ := haccepts rfl rfl hnumber
    exact ⟨hsound', _, exchanges, hafter, hkeeps⟩
  | released hnumber =>
    obtain ⟨hsound', hafter, hkeeps⟩ := haccepts rfl rfl hnumber
    exact ⟨hsound', _, exchanges, hafter, hkeeps⟩
  | @purge purpose e =>
    cases purpose with
    | solicited stage => exact hquiet (by simp [came, hphase]) rfl rfl ⟨htalks, nofun⟩
    | data =>
      rw [after_of_came hphase]
      have haccept : (acceptance s).isSome = false := by simp [acceptance, hphase]
      rw [haccept]
      exact ⟨.cons hsound (Keeps.marks_le htalks) (.corrupt List.nil_prefix),
        Keeps.cons htalks rfl rfl, fun _ => ⟨e, exchanges, rfl⟩⟩

/-- What comes before a receiver fails fits the exchanges so far. -/
theorem Breaks.conversation {e : TransferError} (h : Breaks s step event e)
    (hphase : s.phase = .doing step) (hsettled : Settled options s)
    (hsound : Conversation options exchanges) (htalks : Talks exchanges s step) :
    Conversation options (Exchange.after exchanges ⟨s, event⟩) := by
  have hquiet (hcame : came s = none) (hwrites : event.writes = false)
      (hbounds : bounds event = false) :
      Conversation options (Exchange.after exchanges ⟨s, event⟩) := by
    rw [after_of_quiet hcame hwrites hbounds]
    exact hsound
  cases h with
  | unwritten h => exact (h.talks hphase hsettled hsound htalks _).1
  | unread htask =>
    obtain ⟨task, htask⟩ := Option.ne_none_iff_exists'.mp htask
    exact hquiet (came_of_task hphase htask) rfl rfl
  | cancelled | headless | invalidHeader | exhausted | unstored | unsettled =>
    exact hquiet (by simp [came, hphase]) rfl rfl
  | unopened | unclosed =>
    rw [after_of_bounds rfl]
    exact .nil
  | outOfSequence hnumber hrepeated =>
    rw [after_of_came hphase, isSome_acceptance hphase, decide_eq_false hnumber]
    refine .cons hsound (Keeps.marks_le htalks) (.stray ?_ ?_)
    · rwa [← Keeps.number_eq htalks]
    · intro hsame
      rw [← hsettled.streaming_eq]
      exact hrepeated (hsame.trans (Keeps.number_sub_one htalks).symm)
  | streamCorrupted =>
    rw [after_of_came hphase]
    have haccept : (acceptance s).isSome = false := by simp [acceptance, hphase]
    rw [haccept]
    exact .cons hsound (Keeps.marks_le htalks) (.corrupt List.nil_prefix)
  | streamHalted hstreaming =>
    rw [after_of_came hphase]
    have haccept : (acceptance s).isSome = false := by simp [acceptance, hphase]
    rw [haccept]
    exact .cons hsound (Keeps.marks_le htalks)
      (.silence (by rw [← hsettled.streaming_eq, hstreaming]))

end Acts

/-! ## Runs -/

/-- What a receiver has said about the current file fits, and as long as it has not come to its end
it keeps what follows from that. -/
structure Conversant (options : Options) (past : List (Act Receiver)) (s : Receiver) : Prop where
  sound : Conversation options (dialogue past)
  doing : ∀ step, s.phase = .doing step →
    s.Placed step ∧ Settled options s ∧ Talks (dialogue past) s step

section Runs

variable {options : Options} {past : List (Act Receiver)} {s next : Receiver} {event : Event}

theorem conversant_new (options : Options) (moment : Moment) :
    Conversant options [] (new options moment) where
  sound := .nil
  doing := by
    rintro step ⟨⟩
    exact ⟨trivial, ⟨rfl, rfl, fun _ => rfl⟩, rfl⟩

/-- A receiver that has come to its end says nothing more. -/
theorem conversant_of_parted (hparted : next.Parted)
    (hsound : Conversation options (Exchange.after (dialogue past) ⟨s, event⟩)) :
    Conversant options (past ++ [⟨s, event⟩]) next where
  sound := by
    rw [dialogue_concat]
    exact hsound
  doing step hphase := absurd hphase (hparted.phase_ne step)

/-- Every act of a receiver fits the exchanges so far. -/
theorem conversant_act (h : Conversant options past s) :
    (act s).Ensures fun event next => Conversant options (past ++ [⟨s, event⟩]) next := by
  refine ensures_act_of_course (fun step hphase => (h.doing step hphase).1) ?_ ?_
  · intro step event next hphase hcourse
    obtain ⟨hplaced, hsettled, htalks⟩ := h.doing step hphase
    cases hcourse with
    | turns hturns =>
      obtain ⟨hsound, htalks'⟩ := hturns.talks hphase hsettled h.sound htalks
      have hsettled' := hsettled.of_turns hturns
      rw [← dialogue_concat] at hsound htalks'
      refine ⟨hsound, ?_⟩
      rintro _ ⟨⟩
      exact ⟨hturns.placed hplaced,
        ⟨hsettled'.options_eq, hsettled'.streaming_eq, hsettled'.handshake_eq⟩, htalks'⟩
    | breaks hbreaks =>
      exact conversant_of_parted (Party.parted_fail _ _)
        (hbreaks.conversation hphase hsettled h.sound htalks)
    | completes hcompletes =>
      refine conversant_of_parted (Party.parted_complete _) ?_
      cases hcompletes with
      | single =>
        rw [after_of_bounds rfl]
        exact .nil
      | batch =>
        rw [after_of_quiet (by simp [came, hphase]) rfl rfl]
        exact h.sound
    | aborts hhalts =>
      refine conversant_of_parted (Party.parted_abort _) ?_
      have hcame : came s = none := by
        unfold came
        rw [hphase]
        cases step with
        | judge => cases hhalts
        | _ => rfl
      rw [after_of_quiet hcame rfl rfl]
      exact h.sound
    | rejects =>
      refine conversant_of_parted (Party.parted_reject _ _) ?_
      rw [after_of_quiet (by simp [came, hphase]) rfl rfl]
      exact h.sound
  · intro ending reply moment hphase
    refine conversant_of_parted ⟨ending, .inr rfl⟩ ?_
    rw [after_of_cancelling hphase]
    exact h.sound

variable {ω : Type} {env : Surroundings ω} {moment : Moment} {w : ω} {acts : Nat}

theorem conversant_run (env : Surroundings ω) (options : Options) (moment : Moment) (w : ω)
    (acts : Nat) :
    Conversant options (Action.trace env act acts (new options moment) w)
      (Action.run env act acts (new options moment) w).state :=
  Action.invariant_trace (fun _ _ => conversant_act) env acts w (conversant_new options moment)

/-- In a run that is cut at some act all that has been said before it fits. -/
theorem conversant_of_trace_eq {before after : List (Act Receiver)} {a : Act Receiver}
    (h : Action.trace env act acts (new options moment) w = before ++ a :: after) :
    Conversant options before a.state := by
  obtain ⟨sofar, _, _, _, _, rfl, hstate, -⟩ := Action.exists_step_of_trace_eq h
  rw [← hstate]
  exact conversant_run env options moment w sofar

/-- Whatever the peer does, a receiver answers all that comes in the middle of a file as it fits
what has come before. -/
theorem fits_of_dialogue {later earlier : List Exchange} {x : Exchange}
    (h : dialogue (Action.trace env act acts (new options moment) w) = later ++ x :: earlier) :
    Fits options earlier x := by
  have hsound := (conversant_run env options moment w acts).sound
  rw [h] at hsound
  exact hsound.fits

end Runs

end BlockTransfer.Receiver
