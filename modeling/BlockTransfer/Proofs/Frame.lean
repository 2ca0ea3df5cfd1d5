import BlockTransfer.Block
import Mathlib.Data.List.Basic

/-!
# Reading frames back

What `Block.encode` writes is read back by `Block.decode` as the same block, whatever follows it
on the line, and nothing else is read as a block. The marker alone fixes how long a frame is: until
it is complete the number of missing bytes is all that is told, and then the bytes behind it do not
matter any more.

## Main results

* `Trailer.read_write_compute`, `Trailer.write_read`: a block check and its bytes.
* `Block.decode_encode_append`: a frame at the front of a buffer is read back.
* `Block.decode_eq_ok_iff`: a block is read just where its frame stands in front.
* `Block.decode_append`, `Block.decode_ne_incomplete`: a complete frame settles what is read.
* `Block.decode_encode_and_resumes`: all this in one.
-/

namespace BlockTransfer

namespace Trailer

/-- A word of 16 bits is put together again from its two halves. -/
theorem shiftLeft_or_toUInt8 (value : UInt16) :
    ((((0 : UInt16) <<< 8 ||| (value >>> 8).toUInt8.toUInt16) <<< 8) |||
      value.toUInt8.toUInt16) = value := by
  apply UInt16.toBitVec_inj.mp
  simp only [UInt16.toBitVec_or, UInt16.toBitVec_shiftLeft, UInt8.toBitVec_toUInt16,
    UInt16.toBitVec_toUInt8, UInt16.toBitVec_shiftRight]
  ext i hi
  -- The lower bits come from the second byte and the upper ones from the first.
  by_cases h : i < 8
  · simp [h, BitVec.getLsbD_eq_getElem hi]
  · have hlow : i - 8 < 8 := by omega
    have hsum : 8 + (i - 8) = i := by omega
    simp [h, hlow, hsum, BitVec.getLsbD_eq_getElem hi]

/-- The check over a payload is read back from its bytes. -/
@[simp]
theorem read_write_compute (trailer : Trailer) (payload : Bytes) :
    read (trailer.write (trailer.compute payload)) = trailer.compute payload := by
  cases trailer with
  | checksum =>
    simp only [compute, write, read, List.foldl_cons, List.foldl_nil, UInt8.toUInt8_toUInt16]
    simp
  | crc => exact shiftLeft_or_toUInt8 _

/-- The two halves of a word are told apart again. -/
theorem toUInt8_shiftLeft_or (upper lower : UInt8) :
    (((upper.toUInt16 <<< 8) ||| lower.toUInt16) >>> 8).toUInt8 = upper ∧
      ((upper.toUInt16 <<< 8) ||| lower.toUInt16).toUInt8 = lower := by
  constructor
  · apply UInt8.toBitVec_inj.mp
    simp only [UInt16.toBitVec_or, UInt16.toBitVec_shiftLeft, UInt8.toBitVec_toUInt16,
      UInt16.toBitVec_toUInt8, UInt16.toBitVec_shiftRight]
    ext i hi
    have hupper : 8 + i < 16 := by omega
    simp [BitVec.getLsbD_eq_getElem hi, hupper]
  · apply UInt8.toBitVec_inj.mp
    simp only [UInt16.toBitVec_or, UInt16.toBitVec_shiftLeft, UInt8.toBitVec_toUInt16,
      UInt16.toBitVec_toUInt8]
    ext i hi
    simp

/-- Bytes in the place of a check are those that are written for the check that they denote. -/
theorem write_read {trailer : Trailer} {bytes : Bytes} (h : bytes.length = trailer.length) :
    trailer.write (read bytes) = bytes := by
  cases trailer with
  | checksum =>
    obtain ⟨sum, rfl⟩ := List.length_eq_one_iff.mp h
    simp [write, read]
  | crc =>
    obtain ⟨upper, lower, rfl⟩ := List.length_eq_two.mp h
    obtain ⟨hupper, hlower⟩ := toUInt8_shiftLeft_or upper lower
    simp [write, read, hupper, hlower]

end Trailer

namespace Block

/-- A frame at the front of a buffer is read back as its block. -/
@[simp]
theorem decode_encode_append (block : Block) (trailer : Trailer) (tail : Bytes) :
    decode (block.encode trailer ++ tail) trailer = .ok block := by
  have hlength : ¬(block.encode trailer ++ tail).length < frameLength block.size trailer := by
    rw [List.length_append, length_encode]
    omega
  -- The payload has the length that the marker tells, so it can be cut out.
  have hpayload : (block.payload ++ trailer.write (trailer.compute block.payload) ++ tail).take
      block.size.length = block.payload := by
    rw [List.append_assoc, ← block.length_payload, List.take_left]
  have htrailer : ((block.payload ++ trailer.write (trailer.compute block.payload) ++ tail).drop
      block.size.length).take trailer.length = trailer.write (trailer.compute block.payload) := by
    rw [List.append_assoc, ← block.length_payload, List.drop_left,
      ← Trailer.length_write trailer (trailer.compute block.payload), List.take_left]
  simp only [encode, List.cons_append] at hlength ⊢
  simp only [decode, BlockSize.ofMarker?_marker, if_neg hlength, hpayload, htrailer,
    Trailer.read_write_compute, UInt8.not_not, ne_eq, not_true_eq_false, if_false]
  rw [dif_pos block.length_payload]

@[simp]
theorem decode_encode (block : Block) (trailer : Trailer) :
    decode (block.encode trailer) trailer = .ok block := by
  have h := decode_encode_append block trailer []
  rwa [List.append_nil] at h

/-! ## Complete frames -/

section Complete

variable {trailer : Trailer} {data more front : Bytes} {size : BlockSize} {rest : Bytes}
  {block : Block} {needed : Nat}

/-- A buffer that is not empty begins with a marker or with a byte that is none. -/
theorem exists_marker_or (hdata : data ≠ []) :
    (∃ size rest, data = BlockSize.marker size :: rest) ∨
      ∃ byte rest, data = byte :: rest ∧ BlockSize.ofMarker? byte = none := by
  obtain ⟨byte, rest, rfl⟩ := List.exists_cons_of_ne_nil hdata
  cases hbyte : BlockSize.ofMarker? byte with
  | none => exact .inr ⟨byte, rest, rfl, hbyte⟩
  | some size => exact .inl ⟨size, rest, by rw [BlockSize.ofMarker?_eq_some_iff.mp hbyte]⟩

/-- Nothing is read behind a byte that announces no size. -/
theorem decode_of_no_marker {byte : UInt8} (h : BlockSize.ofMarker? byte = none) (rest : Bytes)
    (trailer : Trailer) : decode (byte :: rest) trailer = .error (.invalidMarker byte) := by
  simp only [decode, h]

/-- Of a frame that is not complete only the number of missing bytes is told. -/
theorem decode_of_lt (h : (size.marker :: rest).length < frameLength size trailer) :
    decode (size.marker :: rest) trailer =
      .error (.incomplete (frameLength size trailer - (size.marker :: rest).length)) := by
  simp only [decode, BlockSize.ofMarker?_marker, if_pos h]

/-- A marker alone tells how many bytes follow it. -/
theorem decode_marker (size : BlockSize) (trailer : Trailer) :
    decode [size.marker] trailer = .error (.incomplete (frameLength size trailer - 1)) := by
  refine decode_of_lt ?_
  simp only [frameLength, List.length_singleton]
  omega

/-- A complete frame has a number, its complement, a payload and a check. -/
theorem exists_body_of_le (h : frameLength size trailer ≤ (size.marker :: rest).length) :
    ∃ number complement body, rest = number :: complement :: body ∧
      size.length + trailer.length ≤ body.length := by
  match rest, h with
  | number :: complement :: body, h =>
    refine ⟨number, complement, body, rfl, ?_⟩
    simp only [frameLength, List.length_cons] at h
    omega
  | [_], h | [], h =>
    -- The payload alone is longer.
    cases size <;> simp only [frameLength, BlockSize.length, List.length_cons,
      List.length_nil] at h <;> omega

/-- How a complete frame is judged. -/
theorem decode_of_le {number complement : UInt8} {body : Bytes}
    (h : size.length + trailer.length ≤ body.length) :
    let payload := body.take size.length
    let actual := Trailer.read ((body.drop size.length).take trailer.length)
    decode (size.marker :: number :: complement :: body) trailer =
      if number ≠ ~~~complement then .error (.sequenceComplement number complement)
      else if actual ≠ trailer.compute payload then
        .error (.checksumMismatch (trailer.compute payload) actual)
      else .ok ⟨number, size, payload, List.length_take_of_le (by omega)⟩ := by
  intro payload actual
  have hlength : ¬(size.marker :: number :: complement :: body).length <
      frameLength size trailer := by
    simp only [frameLength, List.length_cons]
    omega
  have hpayload : (body.take size.length).length = size.length :=
    List.length_take_of_le (by omega)
  simp only [decode, BlockSize.ofMarker?_marker, if_neg hlength, dif_pos hpayload]
  rfl

/-- What stands behind a complete frame does not matter. -/
theorem decode_append_of_le (h : frameLength size trailer ≤ (size.marker :: rest).length)
    (more : Bytes) :
    decode (size.marker :: rest ++ more) trailer = decode (size.marker :: rest) trailer := by
  obtain ⟨number, complement, body, rfl, hbody⟩ := exists_body_of_le h
  have hmore : size.length + trailer.length ≤ (body ++ more).length := by
    rw [List.length_append]
    omega
  have hpayload : (body ++ more).take size.length = body.take size.length :=
    List.take_append_of_le_length (by omega)
  have hcheck : ((body ++ more).drop size.length).take trailer.length =
      (body.drop size.length).take trailer.length := by
    rw [List.drop_append_of_le_length (by omega)]
    apply List.take_append_of_le_length
    rw [List.length_drop]
    omega
  simp only [List.cons_append, decode_of_le hmore, decode_of_le hbody, hpayload, hcheck]

/-- Nothing is missing of a complete frame. -/
theorem decode_ne_incomplete_of_le (h : frameLength size trailer ≤ (size.marker :: rest).length)
    (needed : Nat) : decode (size.marker :: rest) trailer ≠ .error (.incomplete needed) := by
  obtain ⟨number, complement, body, rfl, hbody⟩ := exists_body_of_le h
  rw [decode_of_le hbody]
  split
  · simp
  · split <;> simp

/-- Something is missing just of a frame that is not complete. -/
theorem decode_eq_incomplete_iff (hdata : data ≠ []) :
    decode data trailer = .error (.incomplete needed) ↔
      ∃ size rest, data = BlockSize.marker size :: rest ∧
        data.length + needed = frameLength size trailer ∧ 0 < needed := by
  constructor
  · intro h
    rcases exists_marker_or hdata with ⟨size, rest, rfl⟩ | ⟨byte, rest, rfl, hbyte⟩
    · rcases Nat.lt_or_ge (size.marker :: rest).length (frameLength size trailer) with hlt | hle
      · rw [decode_of_lt hlt] at h
        cases h
        exact ⟨size, rest, rfl, by omega, by omega⟩
      · exact absurd h (decode_ne_incomplete_of_le hle needed)
    · rw [decode_of_no_marker hbyte] at h
      cases h
  · rintro ⟨size, rest, rfl, hlength, hneeded⟩
    rw [decode_of_lt (by omega), show frameLength size trailer - (size.marker :: rest).length =
      needed by omega]

/-- Something is missing of every frame that is not complete. -/
theorem pos_of_decode_eq_incomplete (h : decode data trailer = .error (.incomplete needed)) :
    0 < needed := by
  by_cases hdata : data = []
  · subst hdata
    cases h
    exact Nat.one_pos
  · obtain ⟨-, -, -, -, hneeded⟩ := (decode_eq_incomplete_iff hdata).mp h
    exact hneeded

/-! ## What is read -/

/-- A block is read only from its frame. -/
theorem encode_isPrefix_of_decode (h : decode data trailer = .ok block) :
    block.encode trailer <+: data := by
  have hdata : data ≠ [] := by
    rintro rfl
    cases h
  rcases exists_marker_or hdata with ⟨size, rest, rfl⟩ | ⟨byte, rest, rfl, hbyte⟩
  · rcases Nat.lt_or_ge (size.marker :: rest).length (frameLength size trailer) with hlt | hle
    · rw [decode_of_lt hlt] at h
      cases h
    obtain ⟨number, complement, body, rfl, hbody⟩ := exists_body_of_le hle
    rw [decode_of_le hbody] at h
    split at h
    · cases h
    rename_i hcomplement
    split at h
    · cases h
    rename_i hcheck
    cases h
    -- The check that is written for the payload is the one that was found behind it.
    have hwritten : trailer.write (trailer.compute (body.take size.length)) =
        (body.drop size.length).take trailer.length := by
      rw [← Decidable.not_not.mp hcheck]
      apply Trailer.write_read
      rw [List.length_take, List.length_drop]
      omega
    have hnumber : ~~~number = complement := by
      rw [Decidable.not_not.mp hcomplement, UInt8.not_not]
    simp only [encode, hwritten, hnumber, List.prefix_cons_inj]
    refine ⟨(body.drop size.length).drop trailer.length, ?_⟩
    rw [List.append_assoc, List.take_append_drop, List.take_append_drop]
  · rw [decode_of_no_marker hbyte] at h
    cases h

/-- A block is read just where its frame stands in front. -/
theorem decode_eq_ok_iff : decode data trailer = .ok block ↔ block.encode trailer <+: data := by
  constructor
  · exact encode_isPrefix_of_decode
  · rintro ⟨tail, rfl⟩
    exact decode_encode_append block trailer tail

/-- Of the first bytes of a frame, which are not all of it, the missing ones are told. -/
theorem decode_of_isPrefix (h : front <+: block.encode trailer) (hfront : front ≠ [])
    (hproper : front ≠ block.encode trailer) :
    decode front trailer =
      .error (.incomplete ((block.encode trailer).length - front.length)) := by
  have hlt : front.length < (block.encode trailer).length := by
    refine Nat.lt_of_le_of_ne h.length_le fun hlength => hproper ?_
    exact h.eq_of_length hlength
  obtain ⟨byte, rest, rfl⟩ := List.exists_cons_of_ne_nil hfront
  obtain rfl : byte = block.size.marker := by
    obtain ⟨tail, htail⟩ := h
    exact (List.cons.inj htail).1
  rw [length_encode] at hlt ⊢
  exact decode_of_lt hlt

/-- What has been read of a buffer does not change with what comes after it. -/
theorem decode_append (h : ∀ needed, decode data trailer ≠ .error (.incomplete needed))
    (more : Bytes) : decode (data ++ more) trailer = decode data trailer := by
  have hdata : data ≠ [] := by
    rintro rfl
    exact h 1 rfl
  rcases exists_marker_or hdata with ⟨size, rest, rfl⟩ | ⟨byte, rest, rfl, hbyte⟩
  · rcases Nat.lt_or_ge (size.marker :: rest).length (frameLength size trailer) with hlt | hle
    · exact absurd (decode_of_lt hlt) (h _)
    · exact decode_append_of_le hle more
  · rw [List.cons_append, decode_of_no_marker hbyte, decode_of_no_marker hbyte]

/-- Once the missing bytes have come nothing is missing any more. -/
theorem decode_ne_incomplete (hdata : data ≠ [])
    (h : decode data trailer = .error (.incomplete more.length)) (needed : Nat) :
    decode (data ++ more) trailer ≠ .error (.incomplete needed) := by
  obtain ⟨size, rest, rfl, hlength, -⟩ := (decode_eq_incomplete_iff hdata).mp h
  rw [← List.length_append, List.cons_append] at hlength
  exact decode_ne_incomplete_of_le (Nat.le_of_eq hlength.symm) needed

/-- Frames can be read from a line piece by piece. Every frame is read back as its block, whatever
follows it, and nothing but the frame of a block is read as that block. Of the first bytes of a
frame the number of the missing ones is told. What has been read does not change with what comes
after it, and once the bytes that are missing have come, whatever they are, none is missing any
more. -/
theorem decode_encode_and_resumes (trailer : Trailer) :
    (∀ (block : Block) tail, decode (block.encode trailer ++ tail) trailer = .ok block) ∧
    (∀ (block : Block) front, front <+: block.encode trailer → front ≠ [] →
      front ≠ block.encode trailer →
      decode front trailer =
        .error (.incomplete ((block.encode trailer).length - front.length))) ∧
    (∀ data block, decode data trailer = .ok block →
      frameLength block.size trailer = 3 + block.payload.length + trailer.length ∧
        (block.encode trailer).length = frameLength block.size trailer ∧
        block.encode trailer = data.take (frameLength block.size trailer)) ∧
    (∀ data tail, (∀ needed, decode data trailer ≠ .error (.incomplete needed)) →
      decode (data ++ tail) trailer = decode data trailer) ∧
    (∀ data more needed, data ≠ [] → decode data trailer = .error (.incomplete needed) →
      more.length = needed →
      ∀ needed', decode (data ++ more) trailer ≠ .error (.incomplete needed')) := by
  refine ⟨fun block tail => decode_encode_append block trailer tail, ?_, ?_, ?_, ?_⟩
  · intro block front hfront hne hproper
    exact decode_of_isPrefix hfront hne hproper
  · intro data block hdecode
    refine ⟨by rw [frameLength, block.length_payload], block.length_encode trailer, ?_⟩
    rw [← block.length_encode trailer]
    exact List.prefix_iff_eq_take.mp (decode_eq_ok_iff.mp hdecode)
  · intro data tail hsettled
    exact decode_append hsettled tail
  · rintro data more needed hdata hdecode rfl
    exact decode_ne_incomplete hdata hdecode

/-- The frame of a short block is told to be 129 bytes longer than its first three bytes. It is read
once they have come, and with one of them changed it is refused; more bytes do not matter. -/
theorem decode_encode_and_resumes_three_bytes :
    let block : Block := .padded 1 [97, 98, 99] .short 0
    let front : Bytes := [0x01, 0x01, 0xFE]
    let body := (block.encode .checksum).drop 3
    front <+: block.encode .checksum ∧ front ≠ [] ∧ front ≠ block.encode .checksum ∧
    decode front .checksum = .error (.incomplete 129) ∧ body.length = 129 ∧
    decode (front ++ body ++ [0x04]) .checksum = .ok block ∧
    (∀ needed, decode (front ++ body.set 0 0) .checksum ≠ .error (.incomplete needed)) ∧
    decode (front ++ body.set 0 0 ++ body) .checksum = decode (front ++ body.set 0 0) .checksum ∧
    block.encode .checksum = (front ++ body ++ [0x04]).take (frameLength .short .checksum) := by
  intro block front body
  obtain ⟨hreads, htells, hreadsOnly, hkeeps, hresumes⟩ := decode_encode_and_resumes .checksum
  have hfront : front <+: block.encode .checksum := by decide
  have hframe : front ++ body ++ [0x04] = block.encode .checksum ++ [0x04] := by
    decide +kernel
  have htold : decode front .checksum = .error (.incomplete 129) :=
    htells block front hfront (by decide) (by decide)
  have hblock : decode (front ++ body ++ [0x04]) .checksum = .ok block := by
    rw [hframe]
    exact hreads block [0x04]
  have hdamaged := hresumes front (body.set 0 0) 129 (by decide) htold (by decide +kernel)
  exact ⟨hfront, by decide, by decide, htold, by decide +kernel, hblock, hdamaged,
    hkeeps _ body hdamaged, (hreadsOnly _ block hblock).2.2⟩

end Complete

end Block

end BlockTransfer
