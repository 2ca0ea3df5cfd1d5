import BlockTransfer.Proofs.Line.Flow
import BlockTransfer.Proofs.Receiver.Course
import BlockTransfer.Sink.Memory

/-!
# Frames on the line

A receiver that expects a block takes the bytes of one frame from the line and leaves what follows
them in the queue, wherever the line has cut the stream into pieces. It decodes what has come of the
frame, and waits for as many bytes as it is told are missing. They are known from the marker alone,
so a frame is decoded at most twice. What the receiver comes to is what comes of the same attempts
on bytes that are all at hand.

## Main definitions

* `Receiver.reassemble`: the attempts to decode a frame, made on the bytes of a line.
* `Receiver.Begins`, `Receiver.Continues`: what comes over the line where a block is expected.
* `Receiver.concluded`: a receiver that goes on with what has come.

## Main results

* `Receiver.reassemble_marker_append`, `Receiver.reassemble_marker_of_lt`: a frame is decoded at
  most twice.
* `Receiver.leadsTo_concluded`: how the wait for a block comes to its end.
-/

namespace BlockTransfer

namespace Receiver

open Party

/-! ## Reassembly -/

/-- What becomes of the beginning of a frame and the bytes that follow on the line. -/
structure Reassembly where
  /-- What is read. -/
  incoming : Incoming
  /-- The bytes that are left on the line. -/
  left : Bytes
  /-- How often it was tried to decode the frame. -/
  decodings : Nat

/-- Decodes a frame of which only the beginning has come, and tries again with as many bytes from
the line as are missing. If the line does not hold them, what it holds is thrown away. -/
def reassemble (trailer : Trailer) (frame line : Bytes) : Reassembly :=
  match _ : Block.decode frame trailer with
  | .ok block => ⟨.block block, line, 1⟩
  | .error (.incomplete needed) =>
    if needed ≤ line.length then
      let later := reassemble trailer (frame ++ line.take needed) (line.drop needed)
      { later with decodings := later.decodings + 1 }
    else ⟨.corrupt (.incomplete needed), [], 1⟩
  | .error e => ⟨.corrupt e, line, 1⟩
termination_by line.length
decreasing_by
  -- At least one byte is missing each time, so the line gets shorter.
  rename_i hdecode _
  have hneeded := Block.pos_of_decode_eq_incomplete hdecode
  rw [List.length_drop]
  omega

section Reassembly

variable {trailer : Trailer} {frame line body : Bytes} {size : BlockSize}
  {needed : Nat}

/-- A frame that can be judged is decoded once, and nothing more is taken from the line. -/
theorem reassemble_of_complete
    (h : ∀ needed, Block.decode frame trailer ≠ .error (.incomplete needed)) (line : Bytes) :
    reassemble trailer frame line = ⟨.ofDecoded (Block.decode frame trailer), line, 1⟩ := by
  unfold reassemble
  split
  · rename_i hdecode
    rw [hdecode, Incoming.ofDecoded]
  · rename_i hdecode
    exact absurd hdecode (h _)
  · rename_i hdecode
    rw [hdecode, Incoming.ofDecoded]

/-- A frame of which bytes are missing is decoded again with these bytes. If the line does not hold
them, it is cleared. -/
theorem reassemble_of_incomplete (h : Block.decode frame trailer = .error (.incomplete needed))
    (line : Bytes) :
    reassemble trailer frame line =
      if needed ≤ line.length then
        let later := reassemble trailer (frame ++ line.take needed) (line.drop needed)
        { later with decodings := later.decodings + 1 }
      else ⟨.corrupt (.incomplete needed), [], 1⟩ := by
  rw [reassemble]
  split
  · rename_i hdecode
    rw [h] at hdecode
    cases hdecode
  · rename_i hdecode
    rw [h] at hdecode
    cases hdecode
    rfl
  · rename_i hother hdecode
    rw [h] at hdecode
    cases hdecode
    exact absurd rfl (hother _)

/-- If as many bytes follow a marker as it tells, they are decoded with it, and what comes after
them is left on the line. -/
theorem reassemble_marker_append (hbody : body.length = Block.frameLength size trailer - 1)
    (rest : Bytes) :
    reassemble trailer [size.marker] (body ++ rest) =
      ⟨.ofDecoded (Block.decode (size.marker :: body) trailer), rest, 2⟩ := by
  have hframe : Block.frameLength size trailer ≤ (size.marker :: body).length := by
    rw [List.length_cons]
    omega
  have hline : Block.frameLength size trailer - 1 ≤ (body ++ rest).length := by
    rw [List.length_append]
    omega
  rw [reassemble_of_incomplete (Block.decode_marker size trailer), if_pos hline, ← hbody,
    List.take_left, List.drop_left, List.singleton_append,
    reassemble_of_complete (Block.decode_ne_incomplete_of_le hframe)]

/-- If fewer bytes follow a marker, they are thrown away. -/
theorem reassemble_marker_of_lt (hline : line.length < Block.frameLength size trailer - 1) :
    reassemble trailer [size.marker] line =
      ⟨.corrupt (.incomplete (Block.frameLength size trailer - 1)), [], 1⟩ := by
  rw [reassemble_of_incomplete (Block.decode_marker size trailer), if_neg (Nat.not_le.mpr hline)]

end Reassembly

/-! ## What comes -/

variable {ω : Type} {env : Surroundings ω} {s : Receiver} {purpose : Purpose} {w w₁ w₂ : ω}
  {size : BlockSize} {byte : UInt8} {queue line data : Bytes} {supply : Supply}

/-- Where a block is expected a byte comes in time, if there is none in the queue, and leaves
others behind it. -/
def Begins (env : Surroundings ω) (s : Receiver) (purpose : Purpose) (w : ω) (byte : UInt8)
    (queue : Bytes) (w₁ : ω) : Prop :=
  ∃ data, env.Flows (patience s purpose) (1 - s.pending.length) s.moment.now w data .enough w₁ ∧
    s.pending ++ data = byte :: queue

/-- What comes behind the marker of a block, with the bytes of the queue in front, and how it ends
to wait for as many bytes as follow the marker. -/
def Continues (env : Surroundings ω) (s : Receiver) (size : BlockSize) (queue : Bytes) (w₁ : ω)
    (line : Bytes) (supply : Supply) (w₂ : ω) : Prop :=
  ∃ data, env.Flows s.options.config.charTimeout.toNat
    (Block.frameLength size s.trailer - 1 - queue.length) (env.moment w₁).now w₁ data supply w₂ ∧
    line = queue ++ data

/-- A receiver that goes on with what has come, or fails, and the bytes that stay in its queue. -/
def concluded (s : Receiver) (purpose : Purpose) (result : Except TransferError Incoming)
    (left : Bytes) (moment : Moment) : Receiver :=
  match result with
  | .ok incoming => { s with pending := left, moment }.goto (.judge purpose incoming)
  | .error e => { s with pending := left, moment }.fail e

/-! ## Listening -/

theorem heardStart_goto (purpose : Purpose) (heard : Option Bytes) (s : Receiver) (step : Step) :
    heardStart purpose heard (s.goto step) = heardStart purpose heard s := rfl

theorem heardRest_goto (purpose : Purpose) (frame : Bytes) (needed : Nat) (heard : Option Bytes)
    (s : Receiver) (step : Step) :
    heardRest purpose frame needed heard (s.goto step) =
      heardRest purpose frame needed heard s := rfl

/-- A receiver waits for the first byte of a block, and takes it in. -/
theorem leadsTo_heardStart (hphase : s.phase = .doing (.expect purpose))
    (hmoment : s.moment = env.moment w)
    (h : env.Flows (patience s purpose) (1 - s.pending.length) s.moment.now w data supply w₁) :
    Action.LeadsTo env act s w (s.listened (heardStart purpose) 1 data (env.moment w₁) supply)
      w₁ := by
  let task := Line.Task.byte (s.moment.now + patience s purpose)
  have hstep : (act s).step env w = .ok (s.goto (.listen purpose task), w) := by
    rw [act, Party.act, hphase]
    rfl
  have hact (s : Receiver) (task) (hphase : s.phase = .doing (.listen purpose task)) :
      act s = s.listen task (.listen purpose) (heardStart purpose) := by
    rw [act, Party.act, hphase]
    rfl
  have hleads := leadsTo_listened hact (heardStart_goto purpose) h
    (s := s.goto (.listen purpose task)) rfl hmoment (Line.Task.seeks_byte _ _ _) rfl
  rw [listened_goto (heardStart_goto purpose)] at hleads
  exact (Action.LeadsTo.of_step hstep).trans hleads

/-- A receiver waits for the rest of a block, and takes it in. -/
theorem leadsTo_heardRest {frame : Bytes} {needed idle : Nat}
    (hphase : s.phase =
      .doing (.collect purpose frame needed (.exact needed idle (s.moment.now + idle))))
    (hmoment : s.moment = env.moment w)
    (h : env.Flows idle (needed - s.pending.length) s.moment.now w data supply w₁) :
    Action.LeadsTo env act s w
      (s.listened (heardRest purpose frame needed) needed data (env.moment w₁) supply) w₁ := by
  have hact (s : Receiver) (task)
      (hphase : s.phase = .doing (.collect purpose frame needed task)) :
      act s = s.listen task (.collect purpose frame needed) (heardRest purpose frame needed) := by
    rw [act, Party.act, hphase]
    rfl
  exact leadsTo_listened hact (heardRest_goto purpose frame needed) h hphase hmoment
    (Line.Task.seeks_exact _ _ _ _) rfl

/-- The first byte is taken from the line, and no other one. -/
theorem Begins.leadsTo (h : Begins env s purpose w byte queue w₁)
    (hphase : s.phase = .doing (.expect purpose)) (hmoment : s.moment = env.moment w) :
    Action.LeadsTo env act s w
      (heardStart purpose (some [byte]) { s with pending := queue, moment := env.moment w₁ })
      w₁ := by
  obtain ⟨data, hflows, hbyte⟩ := h
  have hleads := leadsTo_heardStart hphase hmoment hflows
  rwa [listened, hbyte] at hleads

/-- A byte that stands in the queue does not have to come. -/
theorem Begins.of_pending (h : s.pending = byte :: queue) :
    Begins env s purpose w byte queue w := by
  refine ⟨[], ?_, by rw [h, List.append_nil]⟩
  rw [h, List.length_cons, Nat.sub_eq_zero_of_le (Nat.le_add_left _ _)]
  exact .enough

/-- What a byte means that begins no block. -/
theorem heardStart_of_no_marker (hbyte : BlockSize.ofMarker? byte = none) (s : Receiver) :
    heardStart purpose (some [byte]) s =
      s.concluded purpose
        (if byte = Control.can.byte then .error .peerCancelled
          else if byte = Control.eot.byte then .ok .endOfFile
          else .ok (.corrupt (.invalidMarker byte))) s.pending s.moment := by
  rw [heardStart]
  split
  · rfl
  · split
    · rfl
    · rw [hbyte]
      rfl

theorem Continues.le_length (h : Continues env s size queue w₁ line .enough w₂) :
    Block.frameLength size s.trailer - 1 ≤ line.length := by
  obtain ⟨data, hflows, rfl⟩ := h
  have hlength := hflows.le_length
  rw [List.length_append]
  omega

theorem Continues.length_lt (h : Continues env s size queue w₁ line .halted w₂) :
    line.length < Block.frameLength size s.trailer - 1 := by
  obtain ⟨data, hflows, rfl⟩ := h
  have hlength := hflows.length_lt
  rw [List.length_append]
  omega

/-- A block is read that has begun, or all that has come of it is thrown away, if the line is not
broken. -/
theorem Continues.leadsTo (hbegins : Begins env s purpose w size.marker queue w₁)
    (h : Continues env s size queue w₁ line supply w₂)
    (hphase : s.phase = .doing (.expect purpose)) (hmoment : s.moment = env.moment w) :
    Action.LeadsTo env act s w
      (match supply with
      | .broken e => s.concluded purpose (.error (.channel e)) line (env.moment w₂)
      | _ =>
        let read := reassemble s.trailer [size.marker] line
        s.concluded purpose (.ok read.incoming) read.left (env.moment w₂)) w₂ := by
  have hstart := hbegins.leadsTo hphase hmoment
  rw [heardStart_marker, collect_marker rfl] at hstart
  have ⟨data, hflows, hline⟩ := h
  subst hline
  -- The receiver that waits for the rest.
  let needed := Block.frameLength size s.trailer - 1
  let idle := s.options.config.charTimeout.toNat
  let collecting : Receiver := { s with pending := queue, moment := env.moment w₁ }.goto
    (.collect purpose [size.marker] needed (.exact needed idle ((env.moment w₁).now + idle)))
  have hrest := leadsTo_heardRest (s := collecting) rfl rfl hflows
  refine hstart.trans ?_
  cases supply with
  | enough =>
    have hbody : ((queue ++ data).take needed).length = needed := List.length_take_of_le h.le_length
    have hread := reassemble_marker_append hbody ((queue ++ data).drop needed)
    rw [List.take_append_drop] at hread
    have hframe : Block.frameLength size s.trailer ≤
        (size.marker :: (queue ++ data).take needed).length := by
      rw [List.length_cons, hbody]
      omega
    have hjudged : collecting.listened (heardRest purpose [size.marker] needed) needed data
        (env.moment w₂) .enough = s.concluded purpose
          (.ok (.ofDecoded (Block.decode (size.marker :: (queue ++ data).take needed) s.trailer)))
          ((queue ++ data).drop needed) (env.moment w₂) :=
      collect_of_complete (Block.decode_ne_incomplete_of_le hframe)
    simp only [hread]
    rwa [hjudged] at hrest
  | halted =>
    simp only [reassemble_marker_of_lt h.length_lt]
    exact hrest
  | broken e => exact hrest

/-- The wait for a block comes to its end on a line on which no reading comes back early with
nothing. -/
theorem exists_leadsTo_concluded {good : ω → Prop} (htimely : env.Timely)
    (hwaits : env.WaitsOut good) (hw : good w) (hphase : s.phase = .doing (.expect purpose))
    (hmoment : s.moment = env.moment w) :
    ∃ result left w', Action.LeadsTo env act s w
      (s.concluded purpose result left (env.moment w')) w' := by
  have hnow : (env.moment w).now ≤ s.moment.now + patience s purpose := by
    rw [hmoment]
    exact Nat.le_add_right _ _
  obtain ⟨data, supply, w₁, hw₁, hflows⟩ :=
    htimely.exists_flows hwaits _ (1 - s.pending.length) hw hnow
  cases supply with
  | halted => exact ⟨.ok .silence, [], w₁, leadsTo_heardStart hphase hmoment hflows⟩
  | broken e =>
    exact ⟨.error (.channel e), s.pending ++ data, w₁, leadsTo_heardStart hphase hmoment hflows⟩
  | enough =>
    have hlength : 0 < (s.pending ++ data).length := by
      have hmissing := hflows.le_length
      rw [List.length_append]
      omega
    obtain ⟨byte, queue, hbyte⟩ := List.exists_cons_of_length_pos hlength
    have hbegins : Begins env s purpose w byte queue w₁ := ⟨data, hflows, hbyte⟩
    -- Only a marker makes the receiver wait any longer.
    cases hmarker : BlockSize.ofMarker? byte with
    | none =>
      have hleads := hbegins.leadsTo hphase hmoment
      rw [heardStart_of_no_marker hmarker] at hleads
      exact ⟨_, queue, w₁, hleads⟩
    | some size =>
      obtain rfl := BlockSize.ofMarker?_eq_some_iff.mp hmarker
      obtain ⟨more, supply, w₂, -, hmore⟩ := htimely.exists_flows hwaits
        s.options.config.charTimeout.toNat (Block.frameLength size s.trailer - 1 - queue.length)
        hw₁ (Nat.le_add_right (env.moment w₁).now _)
      have hcontinues : Continues env s size queue w₁ (queue ++ more) supply w₂ :=
        ⟨more, hmore, rfl⟩
      have hleads := hcontinues.leadsTo hbegins hphase hmoment
      cases supply with
      | enough | halted => exact ⟨.ok _, _, w₂, hleads⟩
      | broken e => exact ⟨_, _, w₂, hleads⟩

/-- A receiver that expects a block takes the bytes of one frame from the line. If a marker comes
and as many bytes as belong to the frame follow it without a long pause, the receiver goes on with
what is read of just these bytes, as if it had tried twice to decode them, and all that has come
after them stays in the queue. If the line comes to a halt before, the receiver goes on with the
number of bytes that follow the marker, and those that have come are thrown away. Any other byte is
taken alone. The wait comes to its end if no reading comes back early with nothing. -/
theorem leadsTo_concluded (hphase : s.phase = .doing (.expect purpose))
    (hmoment : s.moment = env.moment w) :
    (∀ {size queue w₁}, Begins env s purpose w (BlockSize.marker size) queue w₁ →
      let needed := Block.frameLength size s.trailer - 1
      (∀ {body rest w₂}, Continues env s size queue w₁ (body ++ rest) .enough w₂ →
        body.length = needed →
        let incoming := Incoming.ofDecoded (Block.decode (size.marker :: body) s.trailer)
        reassemble s.trailer [size.marker] (body ++ rest) = ⟨incoming, rest, 2⟩ ∧
        Action.LeadsTo env act s w
          (s.concluded purpose (.ok incoming) rest (env.moment w₂)) w₂) ∧
      (∀ {line w₂}, Continues env s size queue w₁ line .halted w₂ →
        line.length < needed ∧
        reassemble s.trailer [size.marker] line = ⟨.corrupt (.incomplete needed), [], 1⟩ ∧
        Action.LeadsTo env act s w
          (s.concluded purpose (.ok (.corrupt (.incomplete needed))) [] (env.moment w₂)) w₂)) ∧
    (∀ {byte queue w₁}, Begins env s purpose w byte queue w₁ → BlockSize.ofMarker? byte = none →
      Action.LeadsTo env act s w
        (s.concluded purpose
          (if byte = Control.can.byte then .error .peerCancelled
            else if byte = Control.eot.byte then .ok .endOfFile
            else .ok (.corrupt (.invalidMarker byte))) queue (env.moment w₁)) w₁) ∧
    (∀ {good : ω → Prop}, env.Timely → env.WaitsOut good → good w →
      ∃ result left w', Action.LeadsTo env act s w
        (s.concluded purpose result left (env.moment w')) w') := by
  refine ⟨fun {size queue w₁} hbegins => ⟨?_, ?_⟩, ?_, ?_⟩
  · intro body rest w₂ hcontinues hbody incoming
    have hread := reassemble_marker_append hbody rest
    have hleads := hcontinues.leadsTo hbegins hphase hmoment
    rw [hread] at hleads
    exact ⟨hread, hleads⟩
  · intro line w₂ hcontinues
    have hline := hcontinues.length_lt
    have hread := reassemble_marker_of_lt hline
    have hleads := hcontinues.leadsTo hbegins hphase hmoment
    rw [hread] at hleads
    exact ⟨hline, hread, hleads⟩
  · intro byte queue w₁ hbegins hbyte
    have hleads := hbegins.leadsTo hphase hmoment
    rwa [heardStart_of_no_marker hbyte] at hleads
  · intro good htimely hwaits hw
    exact exists_leadsTo_concluded htimely hwaits hw hphase hmoment

set_option maxRecDepth 10000 in
/-- The last two bytes of a frame come in two pieces, with the end mark behind them. On a silent
line the frame is given up and the wait comes to its end; the cancel byte is taken alone. -/
theorem leadsTo_concluded_two_pieces :
    let env := Script.World.surroundings { sink := MemorySink.sink }
    let play (chunks : List Script.Chunk) :=
      Script.World.new { sink := MemorySink.sink } { initial := chunks } [] {}
    let pieces := play [⟨5, .ok []⟩, ⟨4, .ok [0]⟩, ⟨9, .ok [38, Control.eot.byte]⟩]
    let block := Block.padded 1 [97, 98, 99] .short 0
    let options : Options :=
      { protocol := .xmodem, variant := .checksum, config := { charTimeout := 10 } }
    let s (pending : Bytes) : Receiver :=
      { new options ⟨0, false⟩ with pending, phase := .doing (.expect .data) }
    (∃ w', Action.LeadsTo env act (s ((block.encode .checksum).take 130)) pieces
      ((s []).concluded .data (.ok (.block block)) [Control.eot.byte] (env.moment w')) w') ∧
    (∃ w', Action.LeadsTo env act (s ((block.encode .checksum).take 130)) (play [])
      ((s []).concluded .data (.ok (.corrupt (.incomplete 131))) [] (env.moment w')) w') ∧
    Action.LeadsTo env act (s [Control.can.byte, 97]) (play [])
      ((s []).concluded .data (.error .peerCancelled) [97] ⟨0, false⟩) (play []) ∧
    ∃ result left w', Action.LeadsTo env act (s []) (play [])
      ((s []).concluded .data result left (env.moment w')) w' := by
  intro env play pieces block options s
  let front := (block.encode .checksum).take 130
  have hphase (pending) : (s pending).phase = .doing (.expect .data) := rfl
  have hfront (w) : Begins env (s front) .data w BlockSize.short.marker front.tail w :=
    .of_pending rfl
  have hlength : front.tail.length = 129 := by decide +kernel
  refine ⟨?_, ?_, ?_, ?_⟩
  · let w₁ := (env.read pieces 10).2
    let w₂ := (env.read w₁ 5).2
    let w₃ := (env.read w₂ 10).2
    have hnothing : env.read pieces 10 = (.ok [], w₁) := rfl
    have hpayload : env.read w₁ 5 = (.ok [0], w₂) := rfl
    have hcheck : env.read w₂ 10 = (.ok [38, Control.eot.byte], w₃) := rfl
    have hflows : env.Flows 10 2 0 pieces ([0] ++ ([38, Control.eot.byte] ++ [])) .enough w₃ := by
      refine .early (by decide) hnothing (by decide) ?_
      refine .arrival (by decide) hpayload (by decide) (by decide) ?_
      refine .arrival (by decide) hcheck (by decide) (by decide) ?_
      exact .enough
    have hcontinues : Continues env (s front) .short front.tail pieces
        (front.tail ++ [0, 38] ++ [Control.eot.byte]) .enough w₃ := by
      refine ⟨_, ?_, List.append_assoc _ _ _⟩
      rw [hlength]
      exact hflows
    obtain ⟨hblock, -⟩ := (leadsTo_concluded (hphase front) rfl).1 (hfront pieces)
    obtain ⟨-, hleads⟩ := hblock hcontinues (by decide +kernel)
    have hframe : BlockSize.short.marker :: (front.tail ++ [0, 38]) = block.encode .checksum := by
      decide +kernel
    rw [hframe, show (s front).trailer = .checksum from rfl, Block.decode_encode] at hleads
    exact ⟨w₃, hleads⟩
  · have hcontinues : Continues env (s front) .short front.tail (play [])
        (front.tail ++ []) .halted (env.read (play []) 10).2 := by
      refine ⟨[], ?_, rfl⟩
      rw [hlength]
      exact .halted (by decide) rfl (by decide)
    obtain ⟨-, hgiven⟩ := (leadsTo_concluded (hphase front) rfl).1 (hfront (play []))
    obtain ⟨-, -, hleads⟩ := hgiven hcontinues
    exact ⟨_, hleads⟩
  · exact (leadsTo_concluded (hphase _) rfl).2.1 (.of_pending rfl) (by decide)
  · refine (leadsTo_concluded (hphase []) rfl).2.2 (Script.World.timely _)
      (Script.World.patient _).waitsOut ?_
    exact Script.Wire.substantial_ofPlay (by simp) (by simp) (by simp)

end Receiver

end BlockTransfer
