import BlockTransfer.Proofs.Receiver.Closing
import BlockTransfer.Proofs.Receiver.Origin

/-!
# The two end marks of a file

In a batch an end mark may be noise on the line, so a receiver refuses the first one of a file and
takes the file to be over when a second one comes. It keeps no more than that there has been one:
the blocks that come after it do not count, so two end marks that are both noise end a file that
goes on.

## Main results

* `Receiver.trace_endMarks`: how end marks are answered, and what has come when a file is closed.
-/

namespace BlockTransfer.Receiver

variable {ω : Type} {options : Options} {exchanges earlier later : List Exchange} {x : Exchange}

/-! ## End marks in a dialogue -/

theorem Exchange.isMark_iff : x.isMark = true ↔ x.incoming = .endOfFile := by
  obtain ⟨incoming, accepted, answer⟩ := x
  cases incoming <;> simp [Exchange.isMark]

/-- Among exchanges with one end mark there is none before it and none after it. -/
theorem exists_mark_of_marksOf (h : marksOf exchanges = 1) :
    ∃ between x first, exchanges = between ++ x :: first ∧ x.incoming = .endOfFile ∧
      marksOf between = 0 ∧ marksOf first = 0 := by
  induction exchanges with
  | nil => cases h
  | cons y rest ih =>
    rw [marksOf_cons] at h
    cases hmark : y.isMark with
    | true =>
      rw [hmark] at h
      exact ⟨[], y, rest, rfl, Exchange.isMark_iff.mp hmark, rfl, Nat.succ.inj h⟩
    | false =>
      rw [hmark] at h
      obtain ⟨between, x, first, rfl, hincoming, hbetween, hfirst⟩ := ih h
      refine ⟨y :: between, x, first, rfl, hincoming, ?_, hfirst⟩
      rw [marksOf_cons, hmark, hbetween]
      rfl

/-- In a batch the first end mark of a file is refused and the second one is acknowledged. -/
theorem Fits.mark (h : Fits options earlier x) (hbatch : options.protocol = .ymodem)
    (hincoming : x.incoming = .endOfFile) :
    marksOf earlier = 0 ∧ x = ⟨.endOfFile, false, [[Control.nak.byte]]⟩ ∨
      marksOf earlier = 1 ∧ x = ⟨.endOfFile, false, [[Control.ack.byte]]⟩ := by
  cases h with
  | firstMark _ hmarks => exact .inl ⟨hmarks, rfl⟩
  | lastMark hmarks => exact .inr ⟨hmarks hbatch, rfl⟩
  | _ => cases hincoming

namespace Conversation

/-- Nothing is said after two end marks. -/
theorem later_eq_nil (h : Conversation options (later ++ x :: earlier))
    (hincoming : x.incoming = .endOfFile) (hmarks : marksOf earlier = 1) : later = [] := by
  cases later using List.reverseRecOn with
  | nil => rfl
  | append_singleton later next =>
    rw [List.append_assoc, List.singleton_append] at h
    cases h.of_append with
    | cons _ hopen _ =>
      rw [marksOf_cons, hmarks, Exchange.isMark_iff.mpr hincoming] at hopen
      exact absurd hopen (by decide)

end Conversation

/-! ## End marks in a run -/

section Runs

variable {env : Surroundings ω} {moment : Moment} {w : ω} {acts : Nat}

/-- Whatever the peer does: in a batch the first end mark of a file is refused and the second one
is acknowledged, and nothing more is heard in the file. It is closed only then. Nothing else
matters: any blocks may have been accepted between the two. Each end mark, like every block, stands
among the bytes that have arrived, in the same order. -/
theorem trace_endMarks (hbatch : options.protocol = .ymodem) :
    let run := Action.trace env act acts (new options moment) w
    (∀ later x earlier, dialogue run = later ++ x :: earlier → x.incoming = .endOfFile →
      marksOf earlier = 0 ∧ x.answer = [[Control.nak.byte]] ∨
        marksOf earlier = 1 ∧ x.answer = [[Control.ack.byte]] ∧ later = []) ∧
    (∀ before a after file reply, run = before ++ a :: after → a.event = .closeFile file reply →
      ∃ between first,
        dialogue before = ⟨.endOfFile, false, [[Control.ack.byte]]⟩ ::
          (between ++ ⟨.endOfFile, false, [[Control.nak.byte]]⟩ :: first) ∧
        marksOf between = 0 ∧ marksOf first = 0) ∧
    Originates (comings run) (arrivals run) ∧
    (dialogue run).reverse.map Exchange.incoming <:+ (comings run).map Prod.snd := by
  intro run
  refine ⟨?_, ?_, trace_originates env options moment w acts, incoming_dialogue_isSuffix run⟩
  · intro later x earlier hdialogue hincoming
    have hsound := (conversant_run env options moment w acts).sound
    rw [hdialogue] at hsound
    rcases hsound.fits.mark hbatch hincoming with ⟨hmarks, rfl⟩ | ⟨hmarks, rfl⟩
    · exact .inl ⟨hmarks, rfl⟩
    · exact .inr ⟨hmarks, rfl, hsound.later_eq_nil hincoming hmarks⟩
  · intro before a after file reply htrace hclose
    obtain ⟨_, _, _, _, _, -, -, hstep, hevent, -⟩ := Action.exists_step_of_trace_eq htrace
    obtain ⟨hphase, -⟩ :=
      (ensures_closeFile a.state).of_step hstep file reply (hevent.symm.trans hclose)
    have hconversant := conversant_of_trace_eq htrace
    obtain ⟨earlier, hdialogue⟩ : ∃ earlier, dialogue before = _ :: earlier :=
      (hconversant.doing _ hphase).2.2
    have hsound := hconversant.sound
    rw [hdialogue] at hsound ⊢
    -- The file is closed at a second end mark, so there has been just one before.
    rcases hsound.head.mark hbatch rfl with ⟨-, hrefused⟩ | ⟨hmarks, -⟩
    · exact absurd (congrArg Exchange.answer hrefused) (by decide)
    obtain ⟨between, x, first, rfl, hincoming, hbetween, hfirst⟩ := exists_mark_of_marksOf hmarks
    rcases hsound.tail.fits.mark hbatch hincoming with ⟨-, rfl⟩ | ⟨hone, -⟩
    · exact ⟨between, first, rfl, hbetween, hfirst⟩
    · exact absurd (hfirst.symm.trans hone) (by decide)

/-- A peer that sends a file of three blocks, with noise after each of the first two that looks like
an end mark. -/
def noisy (options : Options) : Script.Play :=
  let header : FileHeader := { name := "a" }
  let block (number : Nat) : Script.Chunk :=
    ⟨0, .ok ((Sender.pieceBlock options number [97, 98, 99]).encode options.variant.trailer)⟩
  let mark : Script.Chunk := ⟨0, .ok [Control.eot.byte]⟩
  { replies :=
      [[⟨0, .ok (header.toBlock.encode options.variant.trailer)⟩], [], [block 1], [mark], [block 2],
        [mark], [block 3], [mark], [mark], [],
        [⟨0, .ok (FileHeader.endOfBatch.encode options.variant.trailer)⟩]] }

/-- A file is closed with a block between its two end marks. -/
theorem trace_endMarks_noisy :
    let setup : Script.Setup MemorySink := { sink := MemorySink.sink }
    let options : Options := { protocol := .ymodem, variant := .checksum }
    options.protocol = .ymodem ∧
    ∃ (before after : List (Act Receiver)) (a : Act Receiver) (file : ReceivedFile)
      (reply : Except IoError Unit) (between first : List Exchange),
      Action.trace (Script.World.surroundings setup) act 80 (new options ⟨0, false⟩)
        (Script.World.new setup (noisy options) [] {}) = before ++ a :: after ∧
      a.event = .closeFile file reply ∧
      dialogue before = ⟨.endOfFile, false, [[Control.ack.byte]]⟩ ::
        (between ++ ⟨.endOfFile, false, [[Control.nak.byte]]⟩ :: first) ∧
      blocksOf between = [Sender.pieceBlock options 2 [97, 98, 99]] ∧
      blocksOf first = [Sender.pieceBlock options 1 [97, 98, 99]] := by
  intro setup options
  let run := Action.trace (Script.World.surroundings setup) act 80 (new options ⟨0, false⟩)
    (Script.World.new setup (noisy options) [] {})
  let accepted (number : Nat) : Exchange :=
    ⟨.block (Sender.pieceBlock options number [97, 98, 99]), true, [[Control.ack.byte]]⟩
  have hsaid : dialogue (run.take 40) =
      [⟨.endOfFile, false, [[Control.ack.byte]]⟩, accepted 2,
        ⟨.endOfFile, false, [[Control.nak.byte]]⟩, accepted 1] := by
    decide +kernel
  have hclosed : (run.drop 40).head?.any (fun a =>
      match a.event with | .closeFile _ _ => true | _ => false) = true := by
    decide +kernel
  obtain ⟨a, hhead, hclosed⟩ := (Option.any_eq_true _ _).mp hclosed
  obtain ⟨after, hafter⟩ := List.head?_eq_some_iff.mp hhead
  have htrace : run = run.take 40 ++ a :: after := by
    rw [← hafter, List.take_append_drop]
  split at hclosed
  · rename_i file reply hevent
    obtain ⟨between, first, hdialogue, hbetween, -⟩ :=
      (trace_endMarks rfl).2.1 _ a after file reply htrace hevent
    refine ⟨rfl, _, after, a, file, reply, between, first, htrace, hevent, hdialogue, ?_⟩
    rw [hsaid] at hdialogue
    -- Between the two marks there is the second block and nothing else.
    match between, hdialogue, hbetween with
    | [], hdialogue, _ => exact absurd hdialogue (by simp [accepted])
    | [_], hdialogue, _ =>
      cases hdialogue
      exact ⟨rfl, rfl⟩
    | _ :: _ :: _, hdialogue, hbetween =>
      simp only [List.cons_append, List.cons.injEq] at hdialogue
      obtain ⟨-, rfl, rfl, -⟩ := hdialogue
      simp [marksOf, accepted, Exchange.isMark] at hbetween
  · cases hclosed

/-- A file of three blocks is closed after the second one: the first noise that looks like an end
mark is refused, but the second one is acknowledged, although a block has been accepted in between.
The third block comes where a header is expected, and the transfer fails. -/
theorem rehearseReceive_noisy :
    let setup : Script.Setup MemorySink := { sink := MemorySink.sink }
    let options : Options := { protocol := .ymodem, variant := .checksum }
    let run := Script.rehearseReceive setup options (Script.World.new setup (noisy options) [] {})
    run.ending = some (.error (.outOfSequence 0 3)) ∧
      run.world.sink.files.map Prod.fst = [⟨some { name := "a" }, 131⟩] ∧
      run.world.written =
        [[Control.nak.byte], [Control.ack.byte], [Control.nak.byte], [Control.ack.byte],
          [Control.nak.byte], [Control.ack.byte], [Control.ack.byte], [Control.nak.byte],
          [Control.can.byte, Control.can.byte]] := by
  decide +kernel

end Runs

end BlockTransfer.Receiver
