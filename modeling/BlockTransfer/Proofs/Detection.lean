import BlockTransfer.Proofs.Checksum
import BlockTransfer.Proofs.Frame

/-!
# Damage that a frame shows

Payload and cyclic check together, as one string of bits, are a multiple of the polynomial of the
check. What damage leaves of them is read as a block only if the bits that it has changed are a
multiple as well. The polynomial has a constant term, so it divides nothing that stands in a window
of its own width, and `X + 1` divides it, so it divides nothing with an odd number of bits. The
number of the block is kept twice, and a sum shows the change of a single byte. The marker is
outside of the check: it says how much is looked at.

## Main definitions

* `Bytes.flips`: the bits in which two messages differ.
* `Burst`: all bits that are set stand in a window.

## Main results

* `Checksum.dvd_bitPoly_iff`: a cyclic check fits just if the polynomial divides.
* `Block.decode_of_flips`: damage behind the marker that a frame shows.
* `Block.decode_of_marker`: how a frame with another marker is read.
-/

namespace BlockTransfer

/-- The bits in which two messages differ. -/
def Bytes.flips (sent received : Bytes) : List Bool :=
  sent.bits.zipWith (· ^^ ·) received.bits

/-- All bits that are set stand in a window of some width. -/
def Burst (width : Nat) (bits : List Bool) : Prop :=
  ∃ start, ∀ i, bits[i]? = some true → start ≤ i ∧ i < start + width

theorem Burst.mono {width width' : Nat} {bits : List Bool} (h : Burst width bits)
    (hle : width ≤ width') : Burst width' bits := by
  obtain ⟨start, hstart⟩ := h
  refine ⟨start, fun i hi => ?_⟩
  have := hstart i hi
  omega

/-- Where only the middle has bits that are set, they are a burst. -/
theorem burst_append {front middle back : List Bool} (hfront : true ∉ front)
    (hback : true ∉ back) : Burst middle.length (front ++ middle ++ back) := by
  refine ⟨front.length, fun i hi => ?_⟩
  rw [List.append_assoc] at hi
  rcases Nat.lt_or_ge i front.length with hbefore | hin
  · rw [List.getElem?_append_left hbefore] at hi
    exact absurd (List.mem_of_getElem? hi) hfront
  · rw [List.getElem?_append_right hin] at hi
    rcases Nat.lt_or_ge (i - front.length) middle.length with hmiddle | hbehind
    · omega
    · rw [List.getElem?_append_right hbehind] at hi
      exact absurd (List.mem_of_getElem? hi) hback

/-! ## Bits -/

namespace Bytes

@[simp]
theorem bits_append (front back : Bytes) : bits (front ++ back) = bits front ++ bits back :=
  List.flatMap_append

theorem bits_cons (byte : UInt8) (data : Bytes) :
    bits (byte :: data) = Checksum.highFirst byte.toBitVec ++ bits data :=
  rfl

@[simp]
theorem length_bits (data : Bytes) : data.bits.length = 8 * data.length := by
  induction data with
  | nil => rfl
  | cons byte data ih =>
    rw [bits_cons, List.length_append, Checksum.length_highFirst, ih, List.length_cons]
    omega

/-- A message is known from its bits. -/
theorem bits_injective : Function.Injective bits := by
  intro sent
  induction sent with
  | nil =>
    intro received h
    have hlength := congrArg List.length h
    simp only [length_bits, List.length_nil] at hlength
    exact (List.length_eq_zero_iff.mp (by omega)).symm
  | cons byte sent ih =>
    intro received h
    cases received with
    | nil =>
      have hlength := congrArg List.length h
      simp [bits, Checksum.highFirst] at hlength
    | cons other received =>
      rw [bits_cons, bits_cons] at h
      -- The first eight bits are those of the first byte.
      obtain ⟨hbyte, hrest⟩ := List.append_inj h (by simp)
      have hword : byte.toBitVec = other.toBitVec := by
        apply Checksum.wordPoly_injective
        rw [← Checksum.bitPoly_highFirst, ← Checksum.bitPoly_highFirst, hbyte]
      rw [UInt8.toBitVec_inj.mp hword, ih hrest]

/-- A bit is flipped if the messages differ in it. -/
theorem getElem?_flips_eq_true_iff {sent received : Bytes} {i : Nat} :
    (flips sent received)[i]? = some true ↔
      ∃ bit, sent.bits[i]? = some bit ∧ received.bits[i]? = some (!bit) := by
  rw [flips, List.getElem?_zipWith_eq_some]
  constructor
  · rintro ⟨bit, other, hbit, hother, hxor⟩
    refine ⟨bit, hbit, ?_⟩
    cases bit <;> cases other <;> simp_all
  · rintro ⟨bit, hbit, hother⟩
    exact ⟨bit, !bit, hbit, hother, by simp⟩

/-- Between messages of the same length that differ some bit is flipped. -/
theorem true_mem_flips {sent received : Bytes} (hlength : sent.length = received.length)
    (hne : sent ≠ received) : true ∈ flips sent received := by
  by_contra hnone
  apply hne
  apply bits_injective
  apply List.ext_getElem (by simp [hlength])
  intro i hi hi'
  by_contra hdiffer
  apply hnone
  rw [List.mem_iff_getElem?]
  refine ⟨i, getElem?_flips_eq_true_iff.mpr ⟨sent.bits[i], List.getElem?_eq_getElem hi, ?_⟩⟩
  rw [List.getElem?_eq_getElem hi', ← Bool.eq_not.mpr (Ne.symm hdiffer)]

theorem flips_append {sent received : Bytes} (h : sent.length = received.length)
    (rest rest' : Bytes) :
    flips (sent ++ rest) (received ++ rest') = flips sent received ++ flips rest rest' := by
  rw [flips, bits_append, bits_append, List.zipWith_append (by simp [h])]
  rfl

/-- Where nothing has changed no bit is flipped. -/
theorem true_notMem_flips (data : Bytes) : true ∉ flips data data := by
  intro hmem
  obtain ⟨i, hi⟩ := List.mem_iff_getElem?.mp hmem
  obtain ⟨bit, hbit, hother⟩ := getElem?_flips_eq_true_iff.mp hi
  rw [hbit] at hother
  simp at hother

/-- Bytes that have changed side by side are a burst of their bits. -/
theorem burst_flips {old new : Bytes} (h : old.length = new.length) (front back : Bytes) :
    Burst (8 * old.length) (flips (front ++ old ++ back) (front ++ new ++ back)) := by
  have hlength : (flips old new).length = 8 * old.length := by
    simp [flips, h]
  rw [flips_append (by simp [h]), flips_append rfl, ← hlength]
  exact burst_append (true_notMem_flips front) (true_notMem_flips back)

end Bytes

namespace Checksum

open Polynomial

variable {n : Nat} {bits : List Bool} {word : BitVec n}

/-! ## What a generator does not divide -/

theorem bitPoly_zipWith_xor {sent received : List Bool} (h : sent.length = received.length) :
    bitPoly (sent.zipWith (· ^^ ·) received) = bitPoly sent + bitPoly received := by
  induction sent generalizing received with
  | nil =>
    obtain rfl := List.length_eq_zero_iff.mp h.symm
    simp [bitPoly]
  | cons bit sent ih =>
    obtain ⟨other, received, rfl⟩ := List.exists_cons_of_length_eq_add_one h.symm
    have hlength : sent.length = received.length := by simpa using h
    -- Two bits that are both set cancel.
    have hbit : (if bit ^^ other then X ^ received.length else 0 : (ZMod 2)[X]) =
        (if bit then X ^ received.length else 0) + if other then X ^ received.length else 0 := by
      cases bit <;> cases other <;> simp [CharTwo.add_self_eq_zero]
    rw [List.zipWith_cons_cons, bitPoly, bitPoly, bitPoly, ih hlength, List.length_zipWith,
      hlength, Nat.min_self, hbit]
    ring

theorem bitPoly_eq_zero_iff : bitPoly bits = 0 ↔ true ∉ bits := by
  constructor
  · intro hzero hmem
    rw [← List.mem_reverse, List.mem_iff_getElem?] at hmem
    obtain ⟨i, hi⟩ := hmem
    have hcoeff := coeff_bitPoly bits i
    rw [hzero, hi] at hcoeff
    simp at hcoeff
  · intro hnone
    ext i
    rw [coeff_bitPoly, coeff_zero, if_neg]
    intro hi
    apply hnone
    rw [← List.mem_reverse, List.mem_iff_getElem?]
    refine ⟨i, ?_⟩
    cases hbit : bits.reverse[i]? <;> simp_all

theorem degree_bitPoly_lt (bits : List Bool) : (bitPoly bits).degree < bits.length := by
  rw [degree_lt_iff_coeff_zero]
  intro i hi
  have hnone : bits.reverse[i]? = none := by simpa using hi
  simp [coeff_bitPoly, hnone]

theorem eval_one_bitPoly (bits : List Bool) :
    (bitPoly bits).eval 1 = (bits.count true : ZMod 2) := by
  induction bits with
  | nil => simp [bitPoly]
  | cons bit bits ih =>
    rw [bitPoly, eval_add, ih]
    cases bit <;> simp [add_comm]

/-- A generator with a constant term has nothing in common with a power of `X`. -/
theorem isCoprime_generator_X_pow (hone : (generator word).coeff 0 = 1) (k : Nat) :
    IsCoprime (generator word) (X ^ k) := by
  refine IsCoprime.pow_right ⟨1, -divX (generator word), ?_⟩
  have hdiv := divX_mul_X_add (generator word)
  rw [hone, C_1] at hdiv
  linear_combination -hdiv

/-- A generator with a constant term does not divide what stands in a window of its width. -/
theorem not_dvd_of_burst (hone : (generator word).coeff 0 = 1) (hburst : Burst n bits)
    (hmem : true ∈ bits) : ¬generator word ∣ bitPoly bits := by
  obtain ⟨start, hwindow⟩ := hburst
  let window := (bits.drop start).take n
  let back := (bits.drop start).drop n
  have hbits : bits = bits.take start ++ (window ++ back) := by
    rw [List.take_append_drop, List.take_append_drop]
  have hfront : true ∉ bits.take start := by
    intro h
    obtain ⟨i, hi⟩ := List.mem_iff_getElem?.mp h
    rw [List.getElem?_take] at hi
    split at hi
    · have := (hwindow i hi).1
      omega
    · cases hi
  have hback : true ∉ back := by
    intro h
    obtain ⟨i, hi⟩ := List.mem_iff_getElem?.mp h
    rw [List.getElem?_drop, List.getElem?_drop] at hi
    have := (hwindow _ hi).2
    omega
  -- What stands behind the window multiplies it by a power of `X`, and nothing else.
  have hpoly : bitPoly bits = bitPoly window * X ^ back.length := by
    rw [hbits, bitPoly_append, bitPoly_append, bitPoly_eq_zero_iff.mpr hfront,
      bitPoly_eq_zero_iff.mpr hback, zero_mul, zero_add, add_zero]
  have hnonzero : bitPoly bits ≠ 0 := fun hzero => bitPoly_eq_zero_iff.mp hzero hmem
  have hdegree : (bitPoly window).degree < (generator word).degree := by
    rw [degree_generator]
    refine (degree_bitPoly_lt window).trans_le ?_
    exact_mod_cast List.length_take_le n (bits.drop start)
  intro hdvd
  rw [hpoly] at hdvd hnonzero
  have hdvd' := (isCoprime_generator_X_pow hone _).dvd_of_dvd_mul_right hdvd
  exact (monic_generator word).not_dvd_of_degree_lt (left_ne_zero_of_mul hnonzero) hdegree hdvd'

/-- A generator that `X + 1` divides does not divide what has an odd number of bits. -/
theorem not_dvd_of_odd (heven : (generator word).eval 1 = 0) (hodd : bits.count true % 2 = 1) :
    ¬generator word ∣ bitPoly bits := by
  rintro ⟨q, hq⟩
  have heval := congrArg (eval 1) hq
  rw [eval_mul, heven, zero_mul, eval_one_bitPoly, ← ZMod.natCast_mod, hodd] at heval
  exact absurd heval (by decide)

/-! ## The cyclic check of a frame -/

/-- The two bytes of a cyclic check have its bits. -/
theorem bits_write_crc (value : UInt16) :
    Bytes.bits (Trailer.crc.write value) = highFirst value.toBitVec := by
  have hupper : highFirst (value >>> 8).toUInt8.toBitVec =
      (List.range 8).map value.toBitVec.getMsbD := by
    apply List.map_congr_left
    intro i hi
    rw [List.mem_range] at hi
    have hindex : 8 + (8 - 1 - i) = 16 - 1 - i := by omega
    have hbyte : 8 - 1 - i < 8 := by omega
    have hword : i < 16 := by omega
    simp [BitVec.getMsbD_eq_getLsbD, hi, hbyte, hword, hindex]
  have hlower : highFirst value.toUInt8.toBitVec =
      (List.range 8).map fun i => value.toBitVec.getMsbD (8 + i) := by
    apply List.map_congr_left
    intro i hi
    rw [List.mem_range] at hi
    have hindex : 16 - 1 - (8 + i) = 8 - 1 - i := by omega
    have hbyte : 8 - 1 - i < 8 := by omega
    have hword : 8 + i < 16 := by omega
    simp [BitVec.getMsbD_eq_getLsbD, hi, hbyte, hword, hindex]
  rw [Trailer.write, Bytes.bits_cons, Bytes.bits_cons, hupper, hlower]
  change _ = (List.range (8 + 8)).map _
  rw [List.range_add, List.map_append, List.map_map]
  simp [Bytes.bits]

/-- A cyclic check fits just if its polynomial divides payload and check together. -/
theorem dvd_bitPoly_iff (payload : Bytes) (value : UInt16) :
    generator 0x1021#16 ∣ bitPoly (Bytes.bits (payload ++ Trailer.crc.write value)) ↔
      value = ccitt payload := by
  have hmonic := monic_generator 0x1021#16
  have hccitt : wordPoly (ccitt payload).toBitVec =
      (bitPoly payload.bits * X ^ 16) %ₘ generator 0x1021#16 := by
    rw [← remainder_of_zero]
    exact wordPoly_ccittFrom 0 payload
  have hvalue : wordPoly value.toBitVec %ₘ generator 0x1021#16 = wordPoly value.toBitVec := by
    rw [modByMonic_eq_self_iff hmonic, degree_generator]
    exact degree_wordPoly_lt _
  rw [Bytes.bits_append, bits_write_crc, bitPoly_append, bitPoly_highFirst, length_highFirst,
    ← modByMonic_eq_zero_iff_dvd hmonic, add_modByMonic, ← hccitt, hvalue,
    CharTwo.add_eq_zero, wordPoly_injective.eq_iff, UInt16.toBitVec_inj, eq_comm]

end Checksum

/-- A sum shows the change of a byte. -/
theorem Bytes.sumAll_ne {byte value : UInt8} (h : byte ≠ value) (front back : Bytes) :
    Bytes.sumAll (front ++ byte :: back) ≠ Bytes.sumAll (front ++ value :: back) := by
  intro heq
  have hsum := congrArg UInt8.toNat heq
  rw [Checksum.toNat_sumAll, Checksum.toNat_sumAll] at hsum
  simp only [List.map_append, List.map_cons, List.sum_append, List.sum_cons] at hsum
  have hbyte : byte.toNat < 256 := byte.toNat_lt
  have hvalue : value.toNat < 256 := value.toNat_lt
  apply h
  apply UInt8.toNat_inj.mp
  omega

/-- Bytes in the place of a check are that of a payload if they denote it. -/
theorem Trailer.write_compute_eq_iff {trailer : Trailer} {bytes : Bytes}
    (h : bytes.length = trailer.length) (payload : Bytes) :
    trailer.write (trailer.compute payload) = bytes ↔ read bytes = trailer.compute payload := by
  constructor
  · intro hwrite
    rw [← hwrite, read_write_compute]
  · intro hread
    rw [← hread]
    exact write_read h

/-- A byte other than the marker of a size is no marker, or that of the other size. -/
theorem BlockSize.of_ne_marker {size : BlockSize} {byte : UInt8} (h : byte ≠ size.marker) :
    BlockSize.ofMarker? byte = none ∨ (size = .short ∧ byte = longMarker) ∨
      (size = .long ∧ byte = shortMarker) := by
  cases hbyte : BlockSize.ofMarker? byte with
  | none => exact .inl rfl
  | some other =>
    obtain rfl := BlockSize.ofMarker?_eq_some_iff.mp hbyte
    right
    cases size <;> cases other
    · exact absurd rfl h
    · exact .inl ⟨rfl, rfl⟩
    · exact .inr ⟨rfl, rfl⟩
    · exact absurd rfl h

namespace Block

open Checksum

variable {block : Block} {trailer : Trailer} {body received : Bytes}

/-- What the check of a frame covers, and the check. -/
def checked (block : Block) (trailer : Trailer) : Bytes :=
  block.payload ++ trailer.write (trailer.compute block.payload)

theorem encode_eq (block : Block) (trailer : Trailer) :
    block.encode trailer =
      block.size.marker :: block.number :: ~~~block.number :: block.checked trailer :=
  rfl

theorem length_checked (block : Block) (trailer : Trailer) :
    (block.checked trailer).length = block.size.length + trailer.length := by
  rw [checked, List.length_append, block.length_payload, Trailer.length_write]

/-- A frame that begins like that of a block, and whose check does not fit, is refused. -/
theorem decode_of_read_ne (hlength : body.length = (block.checked trailer).length)
    (hcheck : Trailer.read (body.drop block.size.length) ≠
      trailer.compute (body.take block.size.length)) :
    decode (block.size.marker :: block.number :: ~~~block.number :: body) trailer =
      .error (.checksumMismatch (trailer.compute (body.take block.size.length))
        (Trailer.read (body.drop block.size.length))) := by
  rw [length_checked] at hlength
  have hdrop : (body.drop block.size.length).take trailer.length =
      body.drop block.size.length := by
    apply List.take_of_length_le
    rw [List.length_drop]
    omega
  rw [decode_of_le (Nat.le_of_eq hlength.symm), if_neg (by simp), hdrop, if_pos hcheck]

/-- A cyclic check fits just if its polynomial divides. -/
theorem read_eq_compute_iff (hlength : body.length = (block.checked .crc).length) :
    Trailer.read (body.drop block.size.length) =
        Trailer.crc.compute (body.take block.size.length) ↔
      generator 0x1021#16 ∣ bitPoly body.bits := by
  have hwrite : Trailer.crc.write (Trailer.read (body.drop block.size.length)) =
      body.drop block.size.length := by
    apply Trailer.write_read
    rw [List.length_drop, hlength, length_checked]
    omega
  have hdvd := dvd_bitPoly_iff (body.take block.size.length)
    (Trailer.read (body.drop block.size.length))
  rw [hwrite, List.take_append_drop] at hdvd
  exact hdvd.symm

/-- Damage behind the first three bytes is shown by a cyclic check if its polynomial does not
divide the bits that have been flipped. -/
theorem decode_of_not_dvd (hlength : body.length = (block.checked .crc).length)
    (hflips : ¬generator 0x1021#16 ∣ bitPoly (Bytes.flips (block.checked .crc) body)) :
    ∃ expected actual,
      decode (block.size.marker :: block.number :: ~~~block.number :: body) .crc =
        .error (.checksumMismatch expected actual) := by
  refine ⟨_, _, decode_of_read_ne hlength fun hcheck => hflips ?_⟩
  have hsent : generator 0x1021#16 ∣ bitPoly (block.checked .crc).bits :=
    (dvd_bitPoly_iff block.payload _).mpr rfl
  have hreceived := (read_eq_compute_iff hlength).mp hcheck
  rw [Bytes.flips, bitPoly_zipWith_xor (by simp [hlength])]
  exact dvd_add hsent hreceived

theorem coeff_generator_ccitt : (generator 0x1021#16).coeff 0 = 1 := by
  rw [generator_ccitt]
  simp [Polynomial.coeff_one]

theorem eval_generator_ccitt : (generator 0x1021#16).eval 1 = 0 := by
  rw [generator_ccitt]
  simp
  decide

/-- A cyclic check shows every burst of its own width. -/
theorem not_dvd_flips_of_burst {sent : Bytes} (hlength : sent.length = received.length)
    (hne : sent ≠ received) (hburst : Burst 16 (Bytes.flips sent received)) :
    ¬generator 0x1021#16 ∣ bitPoly (Bytes.flips sent received) :=
  not_dvd_of_burst coeff_generator_ccitt hburst (Bytes.true_mem_flips hlength hne)

/-- A sum fits just if it is that of the payload. -/
theorem read_checksum_iff {payload : Bytes} {sum : UInt8} :
    Trailer.read [sum] = Trailer.checksum.compute payload ↔ sum = payload.sumAll := by
  have hread : Trailer.read [sum] = sum.toUInt16 := by simp [Trailer.read]
  rw [hread, Trailer.compute, UInt8.toUInt16_inj]

/-- A byte of the payload that has changed, or of the check behind it, makes the check fail, of
whatever kind it is. -/
theorem decode_of_byte_ne {front back : Bytes} {byte value : UInt8}
    (hsent : block.checked trailer = front ++ byte :: back) (hne : byte ≠ value) :
    ∃ expected actual,
      decode (block.size.marker :: block.number :: ~~~block.number ::
        (front ++ value :: back)) trailer = .error (.checksumMismatch expected actual) := by
  have hlength : (front ++ value :: back).length = (block.checked trailer).length := by
    rw [hsent, List.length_append, List.length_append, List.length_cons, List.length_cons]
  cases trailer with
  | crc =>
    have hdiffer : block.checked .crc ≠ front ++ value :: back := by
      rw [hsent]
      simpa using hne
    have hburst : Burst 16 (Bytes.flips (block.checked .crc) (front ++ value :: back)) := by
      -- The bits of one byte are a burst.
      have hbyte : [byte].length = [value].length := rfl
      rw [hsent, List.append_cons, List.append_cons front value]
      exact (Bytes.burst_flips hbyte front back).mono (by simp)
    exact decode_of_not_dvd hlength (not_dvd_flips_of_burst hlength.symm hdiffer hburst)
  | checksum =>
    refine ⟨_, _, decode_of_read_ne hlength ?_⟩
    have hpayload := block.length_payload
    rw [checked, Trailer.write, Trailer.compute, UInt8.toUInt8_toUInt16] at hsent
    rcases List.eq_nil_or_concat back with rfl | ⟨rest, sum, rfl⟩
    · -- The sum has changed.
      obtain ⟨rfl, hbyte⟩ := List.append_inj' hsent rfl
      rw [List.cons.injEq] at hbyte
      rw [← hpayload, List.drop_left, List.take_left, ne_eq, read_checksum_iff, hbyte.1]
      exact hne.symm
    · -- A byte of the payload has changed, and the sum has not.
      rw [List.concat_eq_append, ← List.cons_append, ← List.append_assoc] at hsent ⊢
      obtain ⟨hfront, hsum⟩ := List.append_inj' hsent rfl
      rw [List.cons.injEq] at hsum
      have hsize : (front ++ value :: rest).length = block.size.length := by
        rw [← hpayload, hfront, List.length_append, List.length_append, List.length_cons,
          List.length_cons]
      rw [← hsize, List.drop_left, List.take_left, ne_eq, read_checksum_iff, ← hsum.1, hfront]
      exact Bytes.sumAll_ne hne front rest

/-- A number that does not fit its complement is told. -/
theorem decode_of_number_ne {number complement : UInt8} (h : number ≠ ~~~complement) :
    decode (block.size.marker :: number :: complement :: block.checked trailer) trailer =
      .error (.sequenceComplement number complement) := by
  rw [decode_of_le (Nat.le_of_eq (length_checked block trailer).symm), if_pos h]

/-- Damage that a frame shows. Behind the first three bytes a cyclic check shows every burst of up
to 16 bits, and every odd number of bits wherever they are. With either check every byte behind
the marker may have changed: the number and its complement show it, or the check does. -/
theorem decode_of_flips (block : Block) :
    (∀ received : Bytes, received.length = (block.encode .crc).length →
      received.take 3 = (block.encode .crc).take 3 → received ≠ block.encode .crc →
      Burst 16 (Bytes.flips ((block.encode .crc).drop 3) (received.drop 3)) ∨
        (Bytes.flips ((block.encode .crc).drop 3) (received.drop 3)).count true % 2 = 1 →
      ∃ expected actual, decode received .crc = .error (.checksumMismatch expected actual)) ∧
    (∀ trailer index value, 0 < index → index < (block.encode trailer).length →
      (block.encode trailer)[index]? ≠ some value →
      (index < 3 → ∃ number complement, decode ((block.encode trailer).set index value) trailer =
        .error (.sequenceComplement number complement)) ∧
      (3 ≤ index → ∃ expected actual, decode ((block.encode trailer).set index value) trailer =
        .error (.checksumMismatch expected actual))) := by
  constructor
  · intro received hlength htake hne hflips
    have hreceived : received = block.size.marker :: block.number :: ~~~block.number ::
        received.drop 3 := by
      nth_rewrite 1 [← List.take_append_drop 3 received]
      rw [htake, encode_eq]
      rfl
    generalize received.drop 3 = body at hreceived hflips
    subst hreceived
    rw [encode_eq] at hlength hne hflips
    simp only [List.length_cons, Nat.add_right_cancel_iff] at hlength
    refine decode_of_not_dvd hlength ?_
    rcases hflips with hburst | hodd
    · refine not_dvd_flips_of_burst hlength.symm ?_ hburst
      rintro rfl
      exact hne rfl
    · exact not_dvd_of_odd eval_generator_ccitt hodd
  · intro trailer index value hpos hindex hvalue
    rw [encode_eq] at hindex hvalue ⊢
    match index, hpos with
    | 1, _ =>
      -- The number has changed, and its complement has not.
      refine ⟨fun _ => ⟨value, ~~~block.number, decode_of_number_ne ?_⟩, by omega⟩
      rw [UInt8.not_not]
      rintro rfl
      exact hvalue rfl
    | 2, _ =>
      -- The complement has changed, and the number has not.
      refine ⟨fun _ => ⟨block.number, value, decode_of_number_ne ?_⟩, by omega⟩
      intro hnumber
      apply hvalue
      rw [hnumber, UInt8.not_not]
      rfl
    | index + 3, _ =>
      -- A byte of the payload has changed, or one of the check.
      refine ⟨by omega, fun _ => ?_⟩
      have h : index < (block.checked trailer).length := by
        simpa using hindex
      obtain ⟨front, back, hsent, -, hset⟩ : ∃ front back,
          block.checked trailer = front ++ (block.checked trailer)[index] :: back ∧
            front.length = index ∧
              (block.checked trailer).set index value = front ++ value :: back :=
        List.exists_of_set h
      rw [List.set_cons_succ, List.set_cons_succ, List.set_cons_succ, hset]
      refine decode_of_byte_ne hsent ?_
      rintro rfl
      exact hvalue (List.getElem?_eq_getElem h)

/-- Two bytes side by side that have changed, and three bits far from each other, are shown by the
cyclic check of a short block. The change of its sum is shown as well. -/
theorem decode_of_flips_three_bytes :
    let block : Block := .padded 1 [97, 98, 99] .short 0
    let summed := block.encode .checksum
    (∃ rest : Bytes,
      let frame := [0x01, 0x01, 0xFE, 97, 98, 99, 0, 0] ++ rest
      let burst := [0x01, 0x01, 0xFE, 97, 0x9D, 0x9C, 0, 0] ++ rest
      let odd := [0x01, 0x01, 0xFE, 0x60, 98, 99, 0, 0x81] ++ rest
      block.encode .crc = frame ∧
      (burst.length = frame.length ∧ burst.take 3 = frame.take 3 ∧ burst ≠ frame ∧
        Burst 16 (Bytes.flips (frame.drop 3) (burst.drop 3)) ∧
        ∃ expected actual, decode burst .crc = .error (.checksumMismatch expected actual)) ∧
      (odd.length = frame.length ∧ odd.take 3 = frame.take 3 ∧ odd ≠ frame ∧
        (Bytes.flips (frame.drop 3) (odd.drop 3)).count true % 2 = 1 ∧
        ∃ expected actual, decode odd .crc = .error (.checksumMismatch expected actual))) ∧
    0 < 131 ∧ 131 < summed.length ∧ summed[131]? ≠ some 0 ∧
    (∃ expected actual,
      decode (summed.set 131 0) .checksum = .error (.checksumMismatch expected actual)) := by
  have hburst (rest : Bytes) : Burst 16 (Bytes.flips ([97, 98, 99, 0, 0] ++ rest)
      ([97, 0x9D, 0x9C, 0, 0] ++ rest)) := by
    have hpair : ([98, 99] : Bytes).length = ([0x9D, 0x9C] : Bytes).length := rfl
    have hmiddle := Bytes.burst_flips hpair [97] ([0, 0] ++ rest)
    exact hmiddle
  have hodd (rest : Bytes) : (Bytes.flips ([97, 98, 99, 0, 0] ++ rest)
      ([0x60, 98, 99, 0, 0x81] ++ rest)).count true % 2 = 1 := by
    have hfive : ([97, 98, 99, 0, 0] : Bytes).length =
        ([0x60, 98, 99, 0, 0x81] : Bytes).length := rfl
    rw [Bytes.flips_append hfive, List.count_append,
      List.count_eq_zero.mpr (Bytes.true_notMem_flips rest)]
    decide
  intro block summed
  obtain ⟨hbits, hbytes⟩ := decode_of_flips block
  constructor
  · -- What has changed stands before the cyclic check, so that need not be known.
    have hfront : (block.encode .crc).take 8 = [0x01, 0x01, 0xFE, 97, 98, 99, 0, 0] := by
      decide +kernel
    generalize block.encode .crc = frame at hbits hfront ⊢
    obtain ⟨rest, rfl⟩ : ∃ rest : Bytes, frame = [0x01, 0x01, 0xFE, 97, 98, 99, 0, 0] ++ rest :=
      ⟨frame.drop 8, by rw [← hfront, List.take_append_drop]⟩
    exact ⟨rest, rfl,
      ⟨rfl, rfl, by simp, hburst rest, hbits _ rfl rfl (by simp) (.inl (hburst rest))⟩,
      ⟨rfl, rfl, by simp, hodd rest, hbits _ rfl rfl (by simp) (.inr (hodd rest))⟩⟩
  · have hlast : summed[131]? ≠ some 0 := by decide +kernel
    have hlength : 131 < summed.length := by decide +kernel
    exact ⟨by decide, hlength, hlast,
      (hbytes .checksum 131 0 (by decide) hlength hlast).2 (by decide)⟩

/-! ## Damage of the marker -/

/-- A short frame with the marker of a long block in front lacks most of it. -/
theorem decode_of_short (h : block.size = .short) (trailer : Trailer) :
    decode (longMarker :: block.number :: ~~~block.number :: block.checked trailer) trailer =
      .error (.incomplete 896) := by
  have hlength : (BlockSize.long.marker :: block.number :: ~~~block.number ::
      block.checked trailer).length + 896 = frameLength .long trailer := by
    simp only [frameLength, List.length_cons, length_checked, h, BlockSize.length]
    omega
  have hlt : (BlockSize.long.marker :: block.number :: ~~~block.number ::
      block.checked trailer).length < frameLength .long trailer := by
    omega
  have hdecode := decode_of_lt hlt
  rw [← hlength, Nat.add_sub_cancel_left] at hdecode
  exact hdecode

/-- A long payload begins with a short one. -/
theorem length_take_payload (h : block.size = .long) :
    (block.payload.take 128).length = BlockSize.short.length := by
  apply List.length_take_of_le
  rw [block.length_payload, h]
  decide

/-- With the marker of a short block in front, a long frame is judged by what it begins with: the
check is looked for behind the first 128 bytes of the payload. -/
theorem decode_of_long (h : block.size = .long) (trailer : Trailer) :
    let front := block.payload.take 128
    let behind := (block.payload.drop 128).take trailer.length
    decode (shortMarker :: block.number :: ~~~block.number :: block.checked trailer) trailer =
      if trailer.write (trailer.compute front) = behind then
        .ok ⟨block.number, .short, front, length_take_payload h⟩
      else .error (.checksumMismatch (trailer.compute front) (Trailer.read behind)) := by
  intro front behind
  have hpayload : block.payload.length = 1024 := by
    rw [block.length_payload, h]
    rfl
  have htrailer : trailer.length ≤ 2 := by
    cases trailer <;> decide
  have hlength : BlockSize.short.length + trailer.length ≤ (block.checked trailer).length := by
    rw [length_checked, h]
    exact Nat.add_le_add_right (by decide) _
  have hfront : (block.checked trailer).take BlockSize.short.length = front :=
    List.take_append_of_le_length (by rw [hpayload]; decide)
  -- The check of the short frame still lies in the payload of the long one.
  have hrest : trailer.length ≤ (block.payload.drop 128).length := by
    rw [List.length_drop, hpayload]
    omega
  have hbehind : ((block.checked trailer).drop BlockSize.short.length).take trailer.length =
      behind := by
    rw [checked, List.drop_append_of_le_length (by rw [hpayload]; decide)]
    exact List.take_append_of_le_length hrest
  have hfits : trailer.write (trailer.compute front) = behind ↔
      Trailer.read behind = trailer.compute front :=
    Trailer.write_compute_eq_iff (List.length_take_of_le hrest) front
  have hdecode := @decode_of_le trailer .short block.number (~~~block.number) _ hlength
  simp only [hfront, hbehind, UInt8.not_not, ne_eq, not_true_eq_false, if_false, ite_not]
    at hdecode
  simp only [hfits]
  exact hdecode

/-- How a frame with another marker is read. A byte that is no marker is told. Too little of a short
frame is there to be a long one. A long frame is read as a short block if what follows the first
128 bytes of its payload is the check over them, since the marker is outside of the check. -/
theorem decode_of_marker (block : Block) (trailer : Trailer) {marker : UInt8}
    (h : marker ≠ block.size.marker) :
    let received := (block.encode trailer).set 0 marker
    let front := block.payload.take 128
    let behind := (block.payload.drop 128).take trailer.length
    (∀ read, decode received trailer = .ok read ↔
      block.size = .long ∧ marker = shortMarker ∧
        trailer.write (trailer.compute front) = behind ∧
        read.number = block.number ∧ read.size = .short ∧ read.payload = front) ∧
    (BlockSize.ofMarker? marker = none →
      decode received trailer = .error (.invalidMarker marker)) ∧
    (block.size = .short → marker = longMarker →
      decode received trailer = .error (.incomplete 896)) ∧
    (block.size = .long → marker = shortMarker →
      trailer.write (trailer.compute front) ≠ behind →
      decode received trailer =
        .error (.checksumMismatch (trailer.compute front) (Trailer.read behind))) := by
  intro received front behind
  have hnone (hmarker : BlockSize.ofMarker? marker = none) :
      decode received trailer = .error (.invalidMarker marker) :=
    decode_of_no_marker hmarker _ trailer
  have hshort (hsize : block.size = .short) (hmarker : marker = longMarker) :
      decode received trailer = .error (.incomplete 896) := by
    subst hmarker
    exact decode_of_short hsize trailer
  have hlong (hsize : block.size = .long) (hmarker : marker = shortMarker) :
      decode received trailer =
        if trailer.write (trailer.compute front) = behind then
          .ok ⟨block.number, .short, front, length_take_payload hsize⟩
        else .error (.checksumMismatch (trailer.compute front) (Trailer.read behind)) := by
    subst hmarker
    exact decode_of_long hsize trailer
  refine ⟨fun read => ⟨fun hread => ?_, ?_⟩, hnone, hshort, ?_⟩
  · rcases BlockSize.of_ne_marker h with hmarker | ⟨hsize, hmarker⟩ | ⟨hsize, hmarker⟩
    · rw [hnone hmarker] at hread
      cases hread
    · rw [hshort hsize hmarker] at hread
      cases hread
    · rw [hlong hsize hmarker] at hread
      split at hread
      · rename_i hcheck
        cases hread
        exact ⟨hsize, hmarker, hcheck, rfl, rfl, rfl⟩
      · cases hread
  · rintro ⟨hsize, hmarker, hcheck, hnumber, hread, hpayload⟩
    rw [hlong hsize hmarker, if_pos hcheck]
    obtain ⟨number, size, payload, hlength⟩ := read
    obtain rfl : number = block.number := hnumber
    obtain rfl : size = .short := hread
    obtain rfl : payload = front := hpayload
    rfl
  · intro hsize hmarker hcheck
    rw [hlong hsize hmarker, if_neg hcheck]

/-- A long block of zeros passes as a short one with the marker of that in front. -/
theorem decode_of_marker_zeros :
    let block : Block := .padded 1 [] .long 0
    shortMarker ≠ block.size.marker ∧
    decode ((block.encode .checksum).set 0 shortMarker) .checksum =
      .ok (.padded 1 [] .short 0) := by
  decide +kernel

/-- A byte that is no marker before a long block, the marker of a long block before a short one, and
that of a short block before a long one that does not pass and before one that passes. -/
theorem decode_of_marker_letters :
    let long : Block := .padded 1 [97, 98, 99] .long 0
    let short : Block := .padded 1 [97, 98, 99] .short 0
    let zeros : Block := .padded 1 [] .long 0
    (67 ≠ long.size.marker ∧ BlockSize.ofMarker? 67 = none ∧
      decode ((long.encode .crc).set 0 67) .crc = .error (.invalidMarker 67)) ∧
    (longMarker ≠ short.size.marker ∧ short.size = .short ∧
      decode ((short.encode .crc).set 0 longMarker) .crc = .error (.incomplete 896)) ∧
    (shortMarker ≠ long.size.marker ∧ long.size = .long ∧
      Trailer.checksum.write (Trailer.checksum.compute (long.payload.take 128)) ≠
        (long.payload.drop 128).take Trailer.checksum.length ∧
      decode ((long.encode .checksum).set 0 shortMarker) .checksum =
        .error (.checksumMismatch (Trailer.checksum.compute (long.payload.take 128))
          (Trailer.read ((long.payload.drop 128).take Trailer.checksum.length)))) ∧
    shortMarker ≠ zeros.size.marker ∧
    decode ((zeros.encode .checksum).set 0 shortMarker) .checksum =
      .ok (.padded 1 [] .short 0) := by
  intro long short zeros
  have hlong := decode_of_marker long
  have hshort := decode_of_marker short
  have hzeros := decode_of_marker zeros
  have hcheck : Trailer.checksum.write (Trailer.checksum.compute (long.payload.take 128)) ≠
      (long.payload.drop 128).take Trailer.checksum.length := by
    decide +kernel
  exact ⟨⟨by decide, by decide, (hlong .crc (by decide)).2.1 (by decide)⟩,
    ⟨by decide, rfl, (hshort .crc (by decide)).2.2.1 rfl rfl⟩,
    ⟨by decide, rfl, hcheck, (hlong .checksum (by decide)).2.2.2 rfl rfl hcheck⟩, by decide,
    ((hzeros .checksum (by decide)).1 _).mpr
      ⟨rfl, rfl, by decide +kernel, rfl, rfl, by decide +kernel⟩⟩

end Block

end BlockTransfer
