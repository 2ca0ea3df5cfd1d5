import BlockTransfer.Proofs.Chunking.Queue
import BlockTransfer.Proofs.Endings
import BlockTransfer.Proofs.Receiver.Supply
import BlockTransfer.Script.Rehearsal
import BlockTransfer.Sink.Memory
import Mathlib.Data.List.Infix

/-!
# Senders that cancel

A receiver that finds the cancel signal where it waits for a block gives up at once and does not
answer. It looks for the signal nowhere else: what comes while it waits for the line to be silent,
before it refuses a damaged block, is thrown away unseen. So a signal behind a damaged frame may be
lost. It is not lost if the line falls silent between two frames whenever a block is refused.

## Main definitions

* `Receiver.Full`: a frame of full length.
* `Receiver.Between`: a receiver has taken up some frames.
* `Receiver.Cancels`: frames come over the line, and then the cancel signal.
* `Receiver.Aligned`: where a receiver stands among the frames.
* `Receiver.Excused`: how its run may end.

## Main results

* `Receiver.Heeding.ensures_heeding`: every act keeps a receiver aligned with the frames.
* `Receiver.exists_ending_and_heeds_cancel`: a receiver heeds the cancel signal.
* `Receiver.rehearseReceive_of_cancel_behind_damage`: a signal that is lost.
-/

namespace BlockTransfer

namespace Action

variable {σ ω : Type}

/-- The acts of a run are the first ones of a run that has come to its end. -/
theorem trace_isPrefix_of_ending {env : Surroundings ω} {act : σ → Action σ} {all : Nat} {s : σ}
    {w : ω} {ending : Ending} (h : (run env act all s w).ending = some ending) (acts : Nat) :
    trace env act acts s w <+: trace env act all s w := by
  have hrest : trace env act acts (run env act all s w).state (run env act all s w).world = [] := by
    cases acts with
    | zero => rfl
    | succ acts => rw [trace, act_eq_stop_of_ending h, step]
  have hsame : trace env act (acts + all) s w = trace env act all s w := by
    rw [Nat.add_comm, trace_add, hrest, List.append_nil]
  rw [← hsame, trace_add]
  exact List.prefix_append _ _

end Action

namespace Receiver

/-! ## What comes over the line -/

/-- A frame of full length, which may be damaged anywhere but in its marker. -/
def Full (trailer : Trailer) (frame : Bytes) : Prop :=
  ∃ size body, frame = BlockSize.marker size :: body ∧
    body.length + 1 = Block.frameLength size trailer

/-- The signal with which a sender cancels. -/
def cancelSignal : Bytes :=
  [Control.can.byte, Control.can.byte]

/-- Of what has arrived, some frames have been taken up, and the rest is waiting. -/
def Between (frames : List Bytes) (arrived pending : Bytes) : Prop :=
  ∃ count ≤ frames.length, (frames.take count).flatten ++ pending = arrived

/-- Whether a block is about to be refused. -/
def refuses (s : Receiver) : Bool :=
  match s.phase with
  | .doing (.refuse _) => true
  | _ => false

/-- What has arrived in a run so far are frames and then the cancel signal, as far as they have
come. Bytes are taken up with the check with which the frames are full. Whenever a block is refused,
the line has fallen silent between two frames. -/
structure Cancels (trailer : Trailer) (frames : List Bytes) (past : List (Act Receiver)) :
    Prop where
  full : ∀ frame ∈ frames, Full trailer frame
  stream : arrivals past <+: frames.flatten ++ cancelSignal
  trailer_eq : ∀ a ∈ past, a.state.pending ≠ [] → a.state.trailer = trailer
  refusals : ∀ before a, before ++ [a] <+: past → refuses a.state = true →
    Between frames (arrivals before) []

section Stream

variable {trailer : Trailer} {frames : List Bytes} {past : List (Act Receiver)}
  {arrived pending : Bytes} {byte : UInt8}

theorem full_encode (block : Block) (trailer : Trailer) : Full trailer (block.encode trailer) :=
  ⟨block.size, _, rfl, block.length_encode trailer⟩

/-- A frame that is damaged behind its marker is still a full one. -/
theorem Full.set {frame : Bytes} (h : Full trailer frame) (i : Nat) (byte : UInt8) :
    Full trailer (frame.set (i + 1) byte) := by
  obtain ⟨size, body, rfl, hlength⟩ := h
  refine ⟨size, body.set i byte, rfl, ?_⟩
  rw [List.length_set]
  exact hlength

/-- The marker of a full frame tells its length. -/
theorem Full.length_eq {marker : UInt8} {body : Bytes} {size : BlockSize}
    (h : Full trailer (marker :: body)) (hmarker : BlockSize.ofMarker? marker = some size) :
    body.length = Block.frameLength size trailer - 1 := by
  obtain ⟨size', body', hframe, hlength⟩ := h
  obtain ⟨rfl, rfl⟩ := List.cons.inj hframe
  rw [BlockSize.ofMarker?_marker] at hmarker
  obtain rfl := Option.some.inj hmarker
  exact Nat.eq_sub_of_add_eq hlength

/-- What has arrived earlier in a run comes first of what arrives. -/
theorem arrivals_mono {before : List (Act Receiver)} (h : before <+: past) :
    arrivals before <+: arrivals past := by
  obtain ⟨after, rfl⟩ := h
  unfold arrivals
  rw [List.flatMap_append]
  exact List.prefix_append _ _

/-- What is known of a run is known of what has happened of it earlier. -/
theorem Cancels.mono (h : Cancels trailer frames past) {before : List (Act Receiver)}
    (hbefore : before <+: past) : Cancels trailer frames before where
  full := h.full
  stream := (arrivals_mono hbefore).trans h.stream
  trailer_eq a ha := h.trailer_eq a (hbefore.subset ha)
  refusals first a hfirst := h.refusals first a (hfirst.trans hbefore)

theorem Between.append (h : Between frames arrived pending) (more : Bytes) :
    Between frames (arrived ++ more) (pending ++ more) := by
  obtain ⟨count, hcount, rfl⟩ := h
  exact ⟨count, hcount, by rw [List.append_assoc]⟩

/-- The byte that is waiting after some frames begins the next one or the cancel signal. -/
theorem Between.head (h : Between frames arrived (byte :: pending))
    (hfull : ∀ frame ∈ frames, Full trailer frame)
    (hstream : arrived <+: frames.flatten ++ cancelSignal) :
    byte = Control.can.byte ∨ ∃ count body, frames[count]? = some (byte :: body) ∧
      (frames.take count).flatten ++ byte :: pending = arrived := by
  obtain ⟨count, hcount, rfl⟩ := h
  have hrest : byte :: pending <+: (frames.drop count).flatten ++ cancelSignal := by
    rw [← List.take_append_drop count frames, List.flatten_append, List.append_assoc,
      List.take_append_drop] at hstream
    exact (List.prefix_append_right_inj _).mp hstream
  cases hdrop : frames.drop count with
  | nil =>
    rw [hdrop] at hrest
    obtain ⟨rfl, -⟩ := List.cons_prefix_cons.mp hrest
    exact .inl rfl
  | cons frame frames' =>
    have hframe : frames[count]? = some frame := by
      rw [← List.head?_drop, hdrop]
      rfl
    obtain ⟨size, body, rfl, -⟩ := hfull frame (List.mem_of_getElem? hframe)
    rw [hdrop] at hrest
    obtain ⟨rfl, -⟩ := List.cons_prefix_cons.mp hrest
    exact .inr ⟨count, body, hframe, rfl⟩

/-- A frame of which enough bytes have come is taken up. -/
theorem between_drop {front body : Bytes} {count needed : Nat}
    (hframe : frames[count]? = some (front ++ body)) (hneeded : body.length = needed)
    (harrived : (frames.take count).flatten ++ (front ++ pending) = arrived)
    (hstream : arrived <+: frames.flatten ++ cancelSignal) (hpending : needed ≤ pending.length) :
    Between frames arrived (pending.drop needed) := by
  obtain ⟨hcount, hget⟩ := List.getElem?_eq_some_iff.mp hframe
  subst hneeded harrived
  refine ⟨count + 1, hcount, ?_⟩
  -- The bytes that have come begin with the rest of the frame.
  have hbody : body <+: pending := by
    rw [← List.take_append_drop count frames, List.flatten_append, List.append_assoc,
      List.take_append_drop, List.prefix_append_right_inj, List.drop_eq_getElem_cons hcount,
      hget, List.flatten_cons, List.append_assoc, List.append_assoc,
      List.prefix_append_right_inj] at hstream
    exact List.prefix_of_prefix_length_le (List.prefix_append _ _) hstream hpending
  obtain ⟨rest, rfl⟩ := hbody
  rw [List.take_add_one, hframe, List.drop_left]
  simp

end Stream

/-! ## Where a receiver stands among the frames -/

/-- What is known when something has come. Nothing is if it was damaged: bytes may have been thrown
away then. -/
def Incoming.Aligned (frames : List Bytes) (arrived pending : Bytes) : Incoming → Prop
  | .block _ => Between frames arrived pending
  | .endOfFile => False
  | .corrupt _ => True
  | .silence => Between frames arrived pending ∧ pending = []

/-- Where a receiver stands among the frames at a step. -/
def Aligned (frames : List Bytes) (arrived pending : Bytes) : Step → Prop
  | .collect _ front needed _ =>
    ∃ count body, frames[count]? = some (front ++ body) ∧ body.length = needed ∧
      (frames.take count).flatten ++ (front ++ pending) = arrived
  | .judge _ incoming => incoming.Aligned frames arrived pending
  | .openFile _ (some incoming) | .nextBlock (some incoming) =>
    Between frames arrived pending ∧ incoming.Aligned frames arrived pending
  | .purge _ _ => True
  | .refuse _ => pending = []
  | .missed _ _ => Between frames arrived pending ∧ pending = []
  | _ => Between frames arrived pending

/-- Where a receiver stands before an act. If it is about to refuse a block, the line has fallen
silent between two frames. -/
structure Poised (frames : List Bytes) (arrived : Bytes) (s : Receiver) (step : Step) : Prop where
  aligned : Aligned frames arrived s.pending step
  silent : ∀ purpose, step = .refuse purpose → Between frames arrived s.pending

/-- How a run may end: the receiver has heard the cancel signal, the line has failed, or the end has
come before the receiver got to the signal. If it has given up waiting, nothing was left in its
queue. -/
inductive Excused (frames : List Bytes) (arrived pending : Bytes) : Ending → Prop
  | cancelled : Excused frames arrived pending (.error .peerCancelled)
  | channel (e : IoError) : Excused frames arrived pending (.error (.channel e))
  | early {ending : Ending} (hbetween : Between frames arrived pending)
      (htimeout : ∀ stage attempts, ending = .error (.timeout stage attempts) → pending = []) :
    Excused frames arrived pending ending

section Alignment

variable {trailer : Trailer} {frames : List Bytes} {past : List (Act Receiver)}
  {s s' : Receiver} {step step' : Step} {event : Event} {arrived : Bytes}

/-- Nothing changes if nothing has arrived. -/
theorem aligned_of_vain {pending : Bytes} (hevent : event.arrived = [])
    (h : Aligned frames arrived pending step) :
    Aligned frames (arrived ++ event.arrived) pending step := by
  rwa [hevent, List.append_nil]

/-- A receiver that writes a signal has taken up whole frames. -/
theorem Says.between {signal : Control} (h : Says s step signal s' step')
    (hpoised : Poised frames arrived s step) : Between frames arrived s.pending := by
  have haligned := hpoised.aligned
  cases h with
  | endAgain | endRefused | endTaken => exact haligned.elim
  | refuse => exact hpoised.silent _ rfl
  | overdue => exact haligned.1
  | _ => exact haligned

/-- A receiver that writes a signal stays where it is among the frames. -/
theorem Says.aligned {signal : Control} (h : Says s step signal s' step')
    (hpoised : Poised frames arrived s step) : Aligned frames arrived s'.pending step' := by
  have hbetween := h.between hpoised
  have haligned := hpoised.aligned
  cases h with
  | endAgain | endRefused | endTaken => exact haligned.elim
  | refuse => exact ⟨hbetween, haligned⟩
  | overdue => exact haligned
  | _ => exact hbetween

/-- A wait that goes on leaves a receiver where it is among the frames. -/
theorem aligned_rewait {task task' : Line.Task} {timeout now now' : Nat}
    {left came pending pending' : Bytes} (htask : step.task? = some task) (hplaced : s.Placed step)
    (hlook : task.look pending now = .read timeout left)
    (hhear : task.hear left came now' = .waiting task' pending')
    (haligned : Aligned frames arrived pending step) :
    Aligned frames (arrived ++ came) pending' (step.rewait task') := by
  obtain ⟨rfl, -⟩ := Line.Task.hear_waiting hhear
  cases step with
  | listen =>
    obtain ⟨deadline, rfl⟩ := hplaced
    cases htask
    obtain rfl := Line.Task.look_read_of_ne hlook nofun
    exact haligned.append came
  | collect =>
    obtain ⟨-, -, idle, deadline, rfl⟩ := hplaced
    cases htask
    obtain rfl := Line.Task.look_read_of_ne hlook nofun
    obtain ⟨count, body, hframe, hneeded, rfl⟩ := haligned
    exact ⟨count, body, hframe, hneeded, by simp⟩
  | purge => trivial
  | _ => cases htask

/-- A receiver that goes on stays aligned with the frames. -/
theorem Turns.aligned (h : Turns s step event s' step') (hplaced : s.Placed step)
    (hpoised : Poised frames arrived s step) (hfull : ∀ frame ∈ frames, Full trailer frame)
    (hstream : arrived <+: frames.flatten ++ cancelSignal)
    (htrailer : s.pending ≠ [] → s.trailer = trailer) :
    Aligned frames (arrived ++ event.arrived) s'.pending step' := by
  have haligned := hpoised.aligned
  cases h with
  | arrival htask hlook hhear => exact aligned_rewait htask hplaced hlook hhear haligned
  | speaks h => exact aligned_of_vain rfl (h.aligned hpoised)
  | silence hpending =>
    refine aligned_of_vain rfl ⟨?_, rfl⟩
    rw [hpending] at haligned
    exact haligned
  | halted | damaged | purge | garbage => trivial
  | purged => rfl
  | endMark hpending =>
    -- Neither a frame nor the cancel signal begins like that.
    rw [hpending] at haligned
    rcases haligned.head hfull hstream with hbyte | ⟨count, body, hframe, -⟩
    · cases hbyte
    · obtain ⟨size, body', hbody, -⟩ := hfull _ (List.mem_of_getElem? hframe)
      cases size <;> cases hbody
  | marker hpending hmarker hneeded =>
    rw [hpending] at haligned
    rcases haligned.head hfull hstream with rfl | ⟨count, body, hframe, harrived⟩
    · cases hmarker
    · rw [htrailer (by simp [hpending])] at hneeded
      refine aligned_of_vain rfl ⟨count, body, hframe, ?_, harrived⟩
      rw [hneeded]
      exact (hfull _ (List.mem_of_getElem? hframe)).length_eq hmarker
  | block hpending =>
    obtain ⟨count, body, hframe, hneeded, harrived⟩ := haligned
    exact aligned_of_vain rfl (between_drop hframe hneeded harrived hstream hpending)
  | missedAnswer | missedBlock => exact aligned_of_vain rfl haligned.1
  | unanswered =>
    refine aligned_of_vain rfl ?_
    unfold fallBack
    dsimp only
    split <;> exact haligned
  | first hprotocol hincoming =>
    rcases hincoming with rfl | ⟨block, rfl⟩
    · exact haligned.elim
    · exact aligned_of_vain rfl ⟨haligned, haligned⟩
  | @openFile header incoming =>
    refine aligned_of_vain rfl ?_
    cases incoming <;> exact haligned
  | takeUp => exact aligned_of_vain rfl haligned.2
  | _ => exact aligned_of_vain rfl haligned

/-- Nothing arrives with an act that fails. -/
theorem Breaks.arrived_eq_nil {e : TransferError} (h : Breaks s step event e) :
    event.arrived = [] := by
  cases h <;> rfl

/-- How a receiver fails while it is aligned with the frames. -/
theorem Breaks.excused {e : TransferError} {pending : Bytes} (h : Breaks s step event e)
    (hpoised : Poised frames arrived s step) (hanswered : s.streaming = false)
    (hpending : step.task? = none → pending = s.pending) :
    Excused frames arrived pending (.error e) := by
  have haligned := hpoised.aligned
  cases h with
  | cancelled => exact .cancelled
  | unread => exact .channel _
  | unwritten h hrefuses =>
    have hkept : pending = s.pending := by
      refine hpending ?_
      cases h <;> rfl
    rw [hkept]
    cases hrefuses with
    | broken e => exact .channel e
    | short => exact .early (h.between hpoised) nofun
  | streamCorrupted hstreaming | streamHalted hstreaming =>
    -- Blocks do not come in a stream.
    rw [hanswered] at hstreaming
    cases hstreaming
  | exhausted =>
    rw [hpending rfl]
    exact .early haligned.1 fun _ _ _ => haligned.2
  | @unopened header first =>
    rw [hpending rfl]
    cases first with
    | none => exact .early haligned nofun
    | some => exact .early haligned.1 nofun
  | headless | invalidHeader | outOfSequence | unstored | unsettled | unclosed =>
    rw [hpending rfl]
    exact .early haligned nofun

/-- Where nothing is wanted of the line the queue stays as it is. -/
theorem ensures_pending_eq (s : Receiver) (step : Step) :
    (Receiver.step s step).Ensures fun _ next => step.task? = none → next.pending = s.pending := by
  by_cases htask : step.task? = none
  · have hholding := usesQueue.holding htask s s.pending
    refine (Action.ensures_of_map_eq hholding.symm).mono fun event next hnext _ => ?_
    rw [← hnext]
    rfl
  · exact Action.ensures_of_forall (fun _ _ h => absurd h htask) _

/-! ## Runs -/

/-- What is known of a receiver in a run as long as the line falls silent between frames. -/
structure Heeding (trailer : Trailer) (frames : List Bytes) (past : List (Act Receiver))
    (s : Receiver) : Prop where
  placed : ∀ step, s.phase = .doing step → s.Placed step
  answered : ∀ step, s.phase = .doing step → s.streaming = false
  aligned : Cancels trailer frames past → ∀ step, s.phase = .doing step →
    Aligned frames (arrivals past) s.pending step
  excused : Cancels trailer frames past → ∀ ending,
    s.phase = .cancelling ending ∨ s.phase = .over ending →
    Excused frames (arrivals past) s.pending ending

theorem heeding_new (options : Options) (moment : Moment)
    (hanswered : options.variant.isStreaming = false) :
    Heeding trailer frames [] (new options moment) where
  placed := by
    rintro step ⟨⟩
    trivial
  answered := by
    rintro step ⟨⟩
    exact hanswered
  aligned := by
    rintro - step ⟨⟩
    exact ⟨0, Nat.zero_le _, rfl⟩
  excused := by
    rintro - ending (⟨⟨⟩⟩ | ⟨⟨⟩⟩)

/-- What is known of a receiver that has come to an end with an act with which nothing arrives. -/
theorem heeding_of_ending {next : Receiver} {ending : Ending}
    (hending : next.phase = .cancelling ending ∨ next.phase = .over ending)
    (hevent : event.arrived = [])
    (hexcused : Cancels trailer frames (past ++ [⟨s, event⟩]) →
      Excused frames (arrivals past) next.pending ending) :
    Heeding trailer frames (past ++ [⟨s, event⟩]) next := by
  have hparted : next.Parted := ⟨ending, hending⟩
  refine ⟨fun step hphase => absurd hphase (hparted.phase_ne step),
    fun step hphase => absurd hphase (hparted.phase_ne step),
    fun _ step hphase => absurd hphase (hparted.phase_ne step), ?_⟩
  intro hcancels ending' hending'
  have hsame : ending' = ending := by
    rcases hending with hphase | hphase <;> rw [hphase] at hending' <;>
      rcases hending' with hphase' | hphase' <;> cases hphase' <;> rfl
  rw [hsame, arrivals_concat, hevent, List.append_nil]
  exact hexcused hcancels

/-- Where a receiver stands before an act, as long as the line falls silent between frames. -/
theorem Heeding.before (h : Heeding trailer frames past s) (hphase : s.phase = .doing step)
    (hcancels : Cancels trailer frames (past ++ [⟨s, event⟩])) :
    Poised frames (arrivals past) s step := by
  have haligned := h.aligned (hcancels.mono (List.prefix_append _ _)) step hphase
  refine ⟨haligned, ?_⟩
  rintro purpose rfl
  -- Everything has been thrown away before a block is refused.
  rw [show s.pending = [] from haligned]
  refine hcancels.refusals past ⟨s, event⟩ List.prefix_rfl ?_
  rw [refuses, hphase]

/-- Every act keeps a receiver aligned with the frames. -/
theorem Heeding.ensures_heeding (h : Heeding trailer frames past s) :
    (Receiver.act s).Ensures fun event next =>
      Heeding trailer frames (past ++ [⟨s, event⟩]) next := by
  refine Party.ensures_act ?_ ?_
  · intro step hphase
    have hplaced := h.placed step hphase
    have hanswered := h.answered step hphase
    refine ((ensures_course hplaced).and (ensures_pending_eq s step)).mono ?_
    rintro event next ⟨hcourse, hpending⟩
    cases hcourse with
    | turns hturns =>
      refine ⟨?_, ?_, ?_, ?_⟩
      · rintro _ ⟨⟩
        exact hturns.placed hplaced
      · rintro _ ⟨⟩
        exact hturns.streaming_eq.trans hanswered
      · rintro hcancels _ ⟨⟩
        have hearlier := hcancels.mono (List.prefix_append _ _)
        rw [arrivals_concat]
        exact hturns.aligned hplaced (h.before hphase hcancels) hcancels.full
          hearlier.stream (hcancels.trailer_eq ⟨s, event⟩ (by simp))
      · rintro - ending (⟨⟨⟩⟩ | ⟨⟨⟩⟩)
    | breaks hbreaks =>
      refine heeding_of_ending (Party.phase_fail _ _) hbreaks.arrived_eq_nil fun hcancels => ?_
      exact hbreaks.excused (h.before hphase hcancels) hanswered hpending
    | completes hcompletes =>
      cases hcompletes with
      | single | batch =>
        refine heeding_of_ending (.inr rfl) rfl fun hcancels => ?_
        rw [hpending rfl]
        exact .early (h.before hphase hcancels).aligned nofun
    | aborts hhalts =>
      refine heeding_of_ending (.inl rfl) rfl fun hcancels => ?_
      have haligned := (h.before hphase hcancels).aligned
      cases step with
      | attempt => exact .early haligned nofun
      | nextBlock first =>
        cases first with
        | none => exact .early haligned nofun
        | some => exact .early haligned.1 nofun
      | _ => cases hhalts
    | rejects =>
      refine heeding_of_ending (.inr rfl) rfl fun hcancels => ?_
      exact .early (h.before hphase hcancels).aligned nofun
  · intro ending reply moment hphase
    refine heeding_of_ending (.inr rfl) rfl fun hcancels => ?_
    exact h.excused (hcancels.mono (List.prefix_append _ _)) ending (.inl hphase)

end Alignment

/-! ## The cancel signal -/

section Signal

variable {ω : Type} {env : Surroundings ω} {good : ω → Prop} {queued : ω → Nat} {w : ω}

/-- A receiver to which frames are sent and then the cancel signal, and which answers blocks, comes
to its end in patient surroundings. Either it has heard the signal, and then it does not answer it,
or the line has failed, or it has come to its end before it got to the signal; and it does not give
up waiting while there is something in its queue. This holds as long as the line falls silent
between two frames whenever a block is refused, for what comes until then is thrown away. -/
theorem exists_ending_and_heeds_cancel (henv : env.Patient good queued) (options : Options)
    (hanswered : options.variant.isStreaming = false) (hw : good w) {trailer : Trailer}
    {frames : List Bytes}
    (hcancels : ∀ acts, Cancels trailer frames
      (Action.trace env act acts (new options (env.moment w)) w)) :
    (∃ acts, (Action.run env act acts (new options (env.moment w)) w).ending ≠ none) ∧
    ∀ acts ending,
      let past := Action.trace env act acts (new options (env.moment w)) w
      let r := Action.run env act acts (new options (env.moment w)) w
      r.ending = some ending →
        (ending = .error .peerCancelled ∨ (∃ e, ending = .error (.channel e)) ∨
          Between frames (arrivals past) r.state.pending ∧
            ∀ stage attempts, ending = .error (.timeout stage attempts) → r.state.pending = []) ∧
        (ending = .error .peerCancelled → ∀ a ∈ past, a.event.cancels = false) := by
  refine ⟨?_, ?_⟩
  · -- No more can come than the frames and the signal.
    have hbound := fun acts => (hcancels acts).stream.length_le
    exact exists_ending_of_arrivals_le henv options hw hbound
  · intro acts ending past r hending
    have hheeding := @Action.invariant_trace _ _ act (Heeding trailer frames)
      (fun _ _ h => h.ensures_heeding) env acts [] (new options (env.moment w)) w
      (heeding_new options (env.moment w) hanswered)
    have hexcused := hheeding.excused (hcancels acts) ending
      (.inr (Party.phase_of_ending step_ne_stop hending))
    refine ⟨?_, ?_⟩
    · cases hexcused with
      | cancelled => exact .inl rfl
      | channel e => exact .inr (.inl ⟨e, rfl⟩)
      | early hbetween htimeout => exact .inr (.inr ⟨hbetween, htimeout⟩)
    · rintro rfl a ha
      refine Bool.eq_false_iff.mpr fun hcancels => ?_
      have hconcludes := concludes options (env.moment w) env acts w
      cases (hconcludes.cancels_iff _ hending).mp ⟨a, ha, hcancels⟩

/-- A block with three bytes of data. -/
def abc : Block :=
  Block.padded 1 [97, 98, 99] .short 0

/-- Its frame, with damage in the payload. -/
def damaged : Bytes :=
  (abc.encode .checksum).set 3 0

/-- A sender that sends a damaged frame and then a good one, and cancels. The line falls silent
after each. -/
def patientCancel : Script.Play where
  replies :=
    [[⟨0, .ok damaged⟩], [⟨0, .ok (abc.encode .checksum)⟩], [⟨0, .ok cancelSignal⟩]]

/-- The cancel signal is heard after a damaged frame if the line falls silent after the frame. -/
theorem exists_ending_and_heeds_cancel_after_damage :
    let setup : Script.Setup MemorySink := { sink := MemorySink.sink }
    let options : Options := { protocol := .xmodem, variant := .checksum }
    let frames := [damaged, abc.encode .checksum]
    let env := Script.World.surroundings setup
    let w := Script.World.new setup patientCancel [] {}
    let r := Action.run env act 60 (new options (env.moment w)) w
    w.wire.Substantial ∧ options.variant.isStreaming = false ∧
    (∀ acts, Cancels .checksum frames
      (Action.trace env act acts (new options (env.moment w)) w)) ∧
    r.ending = some (.error .peerCancelled) ∧ arrivals (Action.trace env act 60
      (new options (env.moment w)) w) = frames.flatten ++ cancelSignal ∧
    (∀ a ∈ Action.trace env act 60 (new options (env.moment w)) w, a.event.cancels = false) := by
  intro setup options frames env w r
  have hsubstantial : w.wire.Substantial :=
    Script.Wire.substantial_ofPlay (by decide) (by decide) (by decide)
  have hending : r.ending = some (.error .peerCancelled) := by decide +kernel
  have harrivals : arrivals (Action.trace env act 60 (new options (env.moment w)) w) =
      frames.flatten ++ cancelSignal := by
    decide +kernel
  have htrailer : ∀ a ∈ Action.trace env act 60 (new options (env.moment w)) w,
      a.state.trailer = .checksum := by
    decide +kernel
  -- Only the first frame is refused.
  have hrefusals : ∀ past ∈ (Action.trace env act 60 (new options (env.moment w)) w).inits,
      past.getLast?.all (fun a => !refuses a.state || arrivals past.dropLast = damaged) = true := by
    decide +kernel
  have hall : Cancels .checksum frames
      (Action.trace env act 60 (new options (env.moment w)) w) := by
    refine ⟨?_, harrivals ▸ List.prefix_rfl, fun a ha _ => htrailer a ha, ?_⟩
    · intro frame hframe
      rcases List.mem_pair.mp hframe with rfl | rfl
      · exact (full_encode _ _).set 2 0
      · exact full_encode _ _
    · intro before a hbefore hrefuses
      have hfirst := hrefusals _ ((List.mem_inits _ _).mpr hbefore)
      simp [hrefuses] at hfirst
      exact ⟨1, by decide, by simp [frames, hfirst]⟩
  have hcancels := fun acts => hall.mono (Action.trace_isPrefix_of_ending hending acts)
  refine ⟨hsubstantial, rfl, hcancels, hending, harrivals, ?_⟩
  obtain ⟨-, hheeds⟩ := exists_ending_and_heeds_cancel (Script.World.patient setup) options rfl
    hsubstantial hcancels
  exact (hheeds 60 _ hending).2 rfl

/-- A cancel signal that comes right behind a damaged block is thrown away with it. The receiver
asks for the block in vain, and it tells the peer that has cancelled when it gives up. -/
theorem rehearseReceive_of_cancel_behind_damage :
    let setup : Script.Setup MemorySink := { sink := MemorySink.sink }
    let options : Options :=
      { protocol := .xmodem, variant := .checksum, config := { maxRetries := 2 } }
    let play : Script.Play := { replies := [[⟨0, .ok (damaged ++ cancelSignal)⟩]] }
    let run := Script.rehearseReceive setup options (Script.World.new setup play [] {})
    Full .checksum damaged ∧ run.ending = some (.error (.timeout .handshake 2)) ∧
      run.world.written = [[Control.nak.byte], [Control.nak.byte], cancelSignal] := by
  refine ⟨(full_encode _ _).set 2 0, ?_⟩
  decide +kernel

end Signal

end Receiver

end BlockTransfer
