import BlockTransfer.Block
import BlockTransfer.Proofs.Checksum.Polynomial

/-!
# Checks and their definitions

Every check is what its definition says. The sums are those of the bytes and of their bits. A
cyclic check is the remainder of the message by its polynomial, with the bits of each byte taken
from the highest or from the lowest one on: the loops that shift to the right run the same register
as those that shift to the left, seen from its other end, and it is the same whether a byte is
added before its eight shifts or bit by bit.

## Main definitions

* `Bytes.bits` and `Bytes.reflectedBits`: a message as a string of bits.
* `Checksum.Kind.reference`: the value of a check by its definition.

## Main results

* `Checksum.wordPoly_ccittFrom`, `Checksum.wordPoly_reflectedFrom` and
  `Checksum.wordPoly_oneWire`: each loop leaves a remainder.
* `Checksum.Kind.over_eq_reference`: every check over a range is that of its definition.
* `Checksum.Kind.over_eq_none_iff`: which ranges have a check.
-/

namespace BlockTransfer

namespace Checksum

/-- The bits of a word, the lowest one first. -/
def lowFirst {n : Nat} (word : BitVec n) : List Bool :=
  (List.range n).map word.getLsbD

end Checksum

/-- The bits of a message, those of each byte from the highest one on. -/
def Bytes.bits (data : Bytes) : List Bool :=
  data.flatMap fun byte => Checksum.highFirst byte.toBitVec

/-- The bits of a message, those of each byte from the lowest one on. -/
def Bytes.reflectedBits (data : Bytes) : List Bool :=
  data.flatMap fun byte => Checksum.lowFirst byte.toBitVec

namespace Checksum

open Polynomial

variable {n : Nat}

/-! ## Registers that shift to the left -/

theorem and_twoPow_ne_zero_iff (word : BitVec n) {i : Nat} (hi : i < n) :
    word &&& BitVec.twoPow n i ≠ 0#n ↔ word.getLsbD i = true := by
  rw [BitVec.and_twoPow]
  split
  · have hbit : (BitVec.twoPow n i).getLsbD i = true := by simp [hi]
    constructor
    · intro _
      assumption
    · intro _ hzero
      rw [hzero] at hbit
      simp at hbit
  · simp_all

theorem toBitVec_shiftLeftBit (polynomial register : UInt16) :
    (shiftLeftBit polynomial register).toBitVec =
      shiftOut polynomial.toBitVec register.toBitVec := by
  have hbit : (register &&& 0x8000 ≠ 0) ↔ register.toBitVec.msb = true := by
    rw [ne_eq, ← UInt16.toBitVec_inj, UInt16.toBitVec_and, BitVec.msb_eq_getLsbD_last]
    exact and_twoPow_ne_zero_iff register.toBitVec (by decide : 15 < 16)
  unfold shiftLeftBit shiftOut
  simp only [hbit]
  split <;> rfl

theorem toBitVec_repeat_shiftLeftBit (polynomial register : UInt16) (k : Nat) :
    (Nat.repeat (shiftLeftBit polynomial) k register).toBitVec =
      Nat.repeat (shiftOut polynomial.toBitVec) k register.toBitVec := by
  induction k with
  | zero => rfl
  | succ k ih => rw [Nat.repeat, toBitVec_shiftLeftBit, ih, Nat.repeat]

theorem toBitVec_ccittByte (register : UInt16) (byte : UInt8) :
    (ccittByte register byte).toBitVec = feed 0x1021#16 register.toBitVec byte.toBitVec :=
  toBitVec_repeat_shiftLeftBit 0x1021 _ 8

/-- The CCITT check leaves a remainder, from whatever register it is carried on. -/
theorem wordPoly_ccittFrom (register : UInt16) (data : Bytes) :
    wordPoly (ccittFrom register data).toBitVec =
      remainder 0x1021#16 register.toBitVec data.bits := by
  have hfold : (ccittFrom register data).toBitVec =
      (data.map UInt8.toBitVec).foldl (feed 0x1021#16) register.toBitVec := by
    rw [List.foldl_map]
    exact (List.foldl_hom UInt16.toBitVec fun r b => (toBitVec_ccittByte r b).symm).symm
  rw [hfold, wordPoly_foldl_feed (by decide), List.flatMap_map]
  rfl

/-! ## Registers that shift to the right -/

/-- One shift of a register to the right. The word is added if a bit falls out at the bottom. -/
def shiftDown (word register : BitVec n) : BitVec n :=
  if register.getLsbD 0 then (register >>> 1) ^^^ word else register >>> 1

theorem reverse_xor (v w : BitVec n) : (v ^^^ w).reverse = v.reverse ^^^ w.reverse := by
  apply BitVec.eq_of_getLsbD_eq
  intro i _
  simp [BitVec.getLsbD_reverse, BitVec.getMsbD_xor]

theorem reverse_ushiftRight_one (word : BitVec n) :
    (word >>> 1).reverse = word.reverse <<< 1 := by
  apply BitVec.eq_of_getLsbD_eq
  intro i hi
  rw [BitVec.getLsbD_reverse, BitVec.getLsbD_shiftLeft, BitVec.getLsbD_reverse,
    BitVec.getMsbD_ushiftRight]
  simp [hi]

/-- From its other end a register that shifts to the right is one that shifts to the left. -/
theorem reverse_shiftDown (word register : BitVec n) :
    (shiftDown word register).reverse = shiftOut word.reverse register.reverse := by
  unfold shiftDown shiftOut
  rw [BitVec.msb_reverse]
  split
  · rw [reverse_xor, reverse_ushiftRight_one]
  · rw [reverse_ushiftRight_one]

theorem reverse_repeat_shiftDown (word register : BitVec n) (k : Nat) :
    (Nat.repeat (shiftDown word) k register).reverse =
      Nat.repeat (shiftOut word.reverse) k register.reverse := by
  induction k with
  | zero => rfl
  | succ k ih => rw [Nat.repeat, reverse_shiftDown, ih, Nat.repeat]

/-- From the other end a byte at the bottom is its reverse at the top. -/
theorem reverse_setWidth (h : 8 ≤ n) (byte : BitVec 8) :
    (byte.setWidth n).reverse = byte.reverse.setWidth n <<< (n - 8) := by
  apply BitVec.eq_of_getLsbD_eq
  intro i hi
  rw [BitVec.getLsbD_reverse, BitVec.getMsbD_eq_getLsbD, BitVec.getLsbD_setWidth,
    BitVec.getLsbD_shiftLeft, BitVec.getLsbD_setWidth, BitVec.getLsbD_reverse,
    BitVec.getMsbD_eq_getLsbD]
  rcases Nat.lt_or_ge i (n - 8) with hlow | hhigh
  · have hbit : byte.getLsbD (n - 1 - i) = false := BitVec.getLsbD_of_ge byte _ (by omega)
    simp [hlow, hbit]
  · have hindex : 8 - 1 - (i - (n - 8)) = n - 1 - i := by omega
    have hbit : i - (n - 8) < 8 := by omega
    have hlt : n - 1 - i < n := by omega
    have hlt' : i - (n - 8) < n := by omega
    simp [hi, hindex, hbit, hlt, hlt', Nat.not_lt.mpr hhigh]

/-- A byte that is added at the bottom and shifted out there. -/
theorem reverse_feed_low (h : 8 ≤ n) (word register : BitVec n) (byte : BitVec 8) :
    (Nat.repeat (shiftDown word) 8 (register ^^^ byte.setWidth n)).reverse =
      feed word.reverse register.reverse byte.reverse := by
  rw [reverse_repeat_shiftDown, reverse_xor, reverse_setWidth h, feed]

theorem highFirst_reverse (word : BitVec n) : highFirst word.reverse = lowFirst word := by
  apply List.map_congr_left
  intro i _
  exact BitVec.getMsbD_reverse

theorem toBitVec_shiftRightBit (polynomial register : UInt16) :
    (shiftRightBit polynomial register).toBitVec =
      shiftDown polynomial.toBitVec register.toBitVec := by
  have hbit : (register &&& 1 ≠ 0) ↔ register.toBitVec.getLsbD 0 = true := by
    rw [ne_eq, ← UInt16.toBitVec_inj, UInt16.toBitVec_and]
    exact and_twoPow_ne_zero_iff register.toBitVec (by decide : 0 < 16)
  unfold shiftRightBit shiftDown
  simp only [hbit]
  split <;> rfl

theorem toBitVec_repeat_shiftRightBit (polynomial register : UInt16) (k : Nat) :
    (Nat.repeat (shiftRightBit polynomial) k register).toBitVec =
      Nat.repeat (shiftDown polynomial.toBitVec) k register.toBitVec := by
  induction k with
  | zero => rfl
  | succ k ih => rw [Nat.repeat, toBitVec_shiftRightBit, ih, Nat.repeat]

theorem reverse_reflectedByte (polynomial register : UInt16) (byte : UInt8) :
    (reflectedByte polynomial register byte).toBitVec.reverse =
      feed polynomial.toBitVec.reverse register.toBitVec.reverse byte.toBitVec.reverse := by
  rw [reflectedByte, toBitVec_repeat_shiftRightBit]
  exact reverse_feed_low (by decide) _ _ _

/-- Fed from its other end, a register is the remainder of the bits in reflected order. -/
theorem wordPoly_foldl_feed_reverse (h : 8 ≤ n) (word register : BitVec n) (data : Bytes) :
    wordPoly ((data.map fun byte => byte.toBitVec.reverse).foldl (feed word) register) =
      remainder word register data.reflectedBits := by
  rw [wordPoly_foldl_feed h, List.flatMap_map]
  simp only [highFirst_reverse]
  rfl

/-- A reflected check leaves a remainder, reflected like its polynomial and its register. -/
theorem wordPoly_reflectedFrom (polynomial register : UInt16) (data : Bytes) :
    wordPoly (reflectedFrom polynomial register data).toBitVec.reverse =
      remainder polynomial.toBitVec.reverse register.toBitVec.reverse data.reflectedBits := by
  rw [← wordPoly_foldl_feed_reverse (by decide), List.foldl_map]
  congr 1
  exact (List.foldl_hom (fun r : UInt16 => r.toBitVec.reverse)
    fun r b => (reverse_reflectedByte polynomial r b).symm).symm

/-! ## The 1-Wire check -/

/-- Register and byte together are shifted like a register to which the byte has been added. -/
theorem xor_step (state : OneWire) :
    state.step.register.toBitVec ^^^ state.step.bits.toBitVec =
      shiftDown 0x8C#8 (state.register.toBitVec ^^^ state.bits.toBitVec) := by
  have hbit : ((state.register ^^^ state.bits) &&& 1 ≠ 0) ↔
      (state.register.toBitVec ^^^ state.bits.toBitVec).getLsbD 0 = true := by
    rw [ne_eq, ← UInt8.toBitVec_inj, UInt8.toBitVec_and]
    exact and_twoPow_ne_zero_iff (state.register ^^^ state.bits).toBitVec (by decide : 0 < 8)
  unfold OneWire.step shiftDown
  simp only [hbit]
  rw [BitVec.ushiftRight_xor_distrib]
  split
  · change (state.register.toBitVec >>> 1 ^^^ 0x8C#8) ^^^ state.bits.toBitVec >>> 1 = _
    ac_rfl
  · rfl

theorem xor_repeat_step (state : OneWire) (k : Nat) :
    (Nat.repeat OneWire.step k state).register.toBitVec ^^^
        (Nat.repeat OneWire.step k state).bits.toBitVec =
      Nat.repeat (shiftDown 0x8C#8) k (state.register.toBitVec ^^^ state.bits.toBitVec) := by
  induction k with
  | zero => rfl
  | succ k ih => rw [Nat.repeat, xor_step, ih, Nat.repeat]

theorem bits_repeat_step (state : OneWire) (k : Nat) :
    (Nat.repeat OneWire.step k state).bits.toBitVec = state.bits.toBitVec >>> k := by
  induction k with
  | zero => rfl
  | succ k ih => rw [BitVec.shiftRight_add, ← ih]; rfl

theorem reverse_oneWireByte (register byte : UInt8) :
    (oneWireByte register byte).toBitVec.reverse =
      feed 0x31#8 register.toBitVec.reverse byte.toBitVec.reverse := by
  have hbits : (Nat.repeat OneWire.step 8 ⟨register, byte⟩).bits.toBitVec = 0#8 := by
    rw [bits_repeat_step]
    exact BitVec.ushiftRight_eq_zero (Nat.le_refl 8)
  -- When the byte has been shifted out, the register alone is left.
  have hregister := xor_repeat_step ⟨register, byte⟩ 8
  rw [hbits, BitVec.xor_zero] at hregister
  have hfeed := reverse_feed_low (Nat.le_refl 8) 0x8C#8 register.toBitVec byte.toBitVec
  rw [BitVec.setWidth_eq] at hfeed
  rw [oneWireByte, hregister, hfeed]
  rfl

/-- The 1-Wire check leaves a reflected remainder. -/
theorem wordPoly_oneWire (data : Bytes) :
    wordPoly (oneWire data).toBitVec.reverse = remainder 0x31#8 0#8 data.reflectedBits := by
  rw [← wordPoly_foldl_feed_reverse (by decide), List.foldl_map]
  congr 1
  exact (List.foldl_hom (fun r : UInt8 => r.toBitVec.reverse)
    fun r b => (reverse_oneWireByte r b).symm).symm

/-! ## Sums -/

theorem toNat_sumAll (data : Bytes) :
    data.sumAll.toNat = (data.map UInt8.toNat).sum % 256 := by
  have hfold (acc : UInt8) : (data.foldl (· + ·) acc).toNat =
      (acc.toNat + (data.map UInt8.toNat).sum) % 256 := by
    induction data generalizing acc with
    | nil => simp
    | cons byte data ih =>
      rw [List.foldl_cons, ih, List.map_cons, List.sum_cons, UInt8.toNat_add]
      omega
  rw [Bytes.sumAll, hfold]
  simp

/-- A bit of the longitudinal sum is set if it is set in an odd number of bytes. -/
theorem testBit_xorAll (data : Bytes) (i : Nat) :
    data.xorAll.toNat.testBit i =
      decide ((data.countP fun byte => byte.toNat.testBit i) % 2 = 1) := by
  have hfold (acc : UInt8) : (data.foldl (· ^^^ ·) acc).toNat.testBit i =
      (acc.toNat.testBit i ^^
        decide ((data.countP fun byte => byte.toNat.testBit i) % 2 = 1)) := by
    induction data generalizing acc with
    | nil => simp
    | cons byte data ih =>
      rw [List.foldl_cons, ih, UInt8.toNat_xor, Nat.testBit_xor, List.countP_cons]
      rcases Nat.mod_two_eq_zero_or_one (data.countP fun byte => byte.toNat.testBit i) with h | h
      · cases byte.toNat.testBit i <;> simp [h, Nat.add_mod]
      · cases byte.toNat.testBit i <;> simp [h, Nat.add_mod]
  rw [Bytes.xorAll, hfold]
  simp

/-! ## Definitions -/

/-- The number of `n` bits that a polynomial denotes, its constant the lowest bit. -/
noncomputable def number (n : Nat) (p : (ZMod 2)[X]) : Nat :=
  Nat.ofBits fun i : Fin n => decide (p.coeff i = 1)

/-- The number of `n` bits that a polynomial denotes, its constant the highest bit. -/
noncomputable def reflectedNumber (n : Nat) (p : (ZMod 2)[X]) : Nat :=
  Nat.ofBits fun i : Fin n => decide (p.coeff i.rev = 1)

theorem number_wordPoly (word : BitVec n) : number n (wordPoly word) = word.toNat := by
  have hbits : (fun i : Fin n => decide ((wordPoly word).coeff i = 1)) =
      fun i : Fin n => word.toNat.testBit i := by
    funext i
    rw [coeff_wordPoly, BitVec.testBit_toNat]
    cases word.getLsbD i <;> simp
  rw [number, hbits, Nat.ofBits_testBit, Nat.mod_eq_of_lt word.isLt]

theorem reflectedNumber_wordPoly (word : BitVec n) :
    reflectedNumber n (wordPoly word.reverse) = word.toNat := by
  have hbits : (fun i : Fin n => decide ((wordPoly word.reverse).coeff i.rev = 1)) =
      fun i : Fin n => word.toNat.testBit i := by
    funext i
    have hindex : n - 1 - (i.rev : Nat) = i := by
      rw [Fin.val_rev]
      omega
    have hn : n ≠ 0 := i.pos.ne'
    rw [coeff_wordPoly, BitVec.testBit_toNat, BitVec.getLsbD_reverse, BitVec.getMsbD_eq_getLsbD,
      hindex]
    cases word.getLsbD i <;> simp [hn]
  rw [reflectedNumber, hbits, Nat.ofBits_testBit, Nat.mod_eq_of_lt word.isLt]

/-- The value of a check over a message by its definition. -/
noncomputable def Kind.reference (kind : Kind) (message : Bytes) : Nat :=
  match kind with
  | .sum => (message.map UInt8.toNat).sum % 256
  -- Each bit counts the bytes in which it is set.
  | .longitudinal =>
    Nat.ofBits fun i : Fin 8 =>
      decide ((message.countP fun byte => byte.toNat.testBit i) % 2 = 1)
  | .oneWire =>
    reflectedNumber 8 ((bitPoly message.reflectedBits * X ^ 8) %ₘ (X ^ 8 + X ^ 5 + X ^ 4 + 1))
  | .arc => reflectedNumber 16 (remainder 0x8005#16 0x0000#16 message.reflectedBits)
  | .ccitt =>
    number 16 ((bitPoly message.bits * X ^ 16) %ₘ (X ^ 16 + X ^ 12 + X ^ 5 + 1))
  | .dnp =>
    let complement :=
      0xFFFF - reflectedNumber 16 (remainder 0x3D65#16 0x0000#16 message.reflectedBits)
    complement % 256 * 256 + complement / 256
  | .modbus => reflectedNumber 16 (remainder 0x8005#16 0xFFFF#16 message.reflectedBits)

theorem generator_ccitt : generator 0x1021#16 = X ^ 16 + X ^ 12 + X ^ 5 + 1 := by
  simp [generator, wordPoly, Finset.sum_range_succ]
  ring

theorem generator_oneWire : generator 0x31#8 = X ^ 8 + X ^ 5 + X ^ 4 + 1 := by
  simp [generator, wordPoly, Finset.sum_range_succ]
  ring

theorem remainder_of_zero (word : BitVec n) (message : List Bool) :
    remainder word 0#n message = (bitPoly message * X ^ n) %ₘ generator word := by
  rw [remainder, wordPoly_zero, zero_mul, zero_add]

theorem toNat_swapHalves (word : UInt16) :
    (swapHalves word).toNat = word.toNat % 256 * 256 + word.toNat / 256 := by
  have hword : word.toNat < 65536 := word.toNat_lt
  have hupper : (word <<< 8).toNat = (word.toNat % 256) <<< 8 := by
    rw [UInt16.toNat_shiftLeft, Nat.shiftLeft_eq, Nat.shiftLeft_eq]
    change word.toNat * 256 % 65536 = word.toNat % 256 * 256
    omega
  have hlower : (word >>> 8).toNat = word.toNat / 256 := by
    rw [UInt16.toNat_shiftRight, Nat.shiftRight_eq_div_pow]
    rfl
  rw [swapHalves, UInt16.toNat_or, hupper, hlower,
    ← Nat.shiftLeft_add_eq_or_of_lt (by omega : word.toNat / 256 < 2 ^ 8), Nat.shiftLeft_eq]

/-- The value of a reflected check by its definition. -/
theorem toNat_reflectedFrom (polynomial register : UInt16) (data : Bytes) :
    (reflectedFrom polynomial register data).toNat = reflectedNumber 16
      (remainder polynomial.toBitVec.reverse register.toBitVec.reverse data.reflectedBits) := by
  rw [← wordPoly_reflectedFrom, reflectedNumber_wordPoly]
  rfl

/-- Every check over a message is that of its definition. -/
theorem Kind.of_eq_reference (kind : Kind) (message : Bytes) :
    kind.of message = kind.reference message := by
  have harc : (0xA001 : UInt16).toBitVec.reverse = 0x8005#16 := by decide
  have hdnp : (0xA6BC : UInt16).toBitVec.reverse = 0x3D65#16 := by decide
  have hzeros : (0 : UInt16).toBitVec.reverse = 0#16 := by decide
  have hones : (0xFFFF : UInt16).toBitVec.reverse = 0xFFFF#16 := by decide
  cases kind with
  | sum => exact toNat_sumAll message
  | longitudinal =>
    have hlt : message.xorAll.toNat < 2 ^ 8 := message.xorAll.toNat_lt
    rw [Kind.of, Kind.reference, ← Nat.mod_eq_of_lt hlt, ← Nat.ofBits_testBit]
    simp only [testBit_xorAll]
  | oneWire =>
    rw [Kind.reference, ← generator_oneWire, ← remainder_of_zero, ← wordPoly_oneWire,
      reflectedNumber_wordPoly]
    rfl
  | arc => rw [Kind.of, Kind.reference, Checksum.arc, toNat_reflectedFrom, harc, hzeros]
  | ccitt =>
    rw [Kind.reference, ← generator_ccitt, ← remainder_of_zero]
    rw [Kind.of, Checksum.ccitt, ← UInt16.toNat_toBitVec, ← number_wordPoly, wordPoly_ccittFrom]
    rfl
  | dnp =>
    have hcomplement : (~~~reflectedFrom 0xA6BC 0 message).toNat =
        0xFFFF - (reflectedFrom 0xA6BC 0 message).toNat := UInt16.toNat_not _
    rw [Kind.of, Kind.reference, Checksum.dnp, toNat_swapHalves, hcomplement,
      toNat_reflectedFrom, hdnp, hzeros]
  | modbus => rw [Kind.of, Kind.reference, Checksum.modbus, toNat_reflectedFrom, harc, hones]

/-! ## Ranges -/

/-- A range inside of a buffer exists. -/
theorem range?_of_le {data : Bytes} {first last : Nat} (h : first ≤ last)
    (hlast : last < data.length) :
    range? data first last = some ((data.take (last + 1)).drop first) := by
  rw [range?, if_pos ⟨by omega, by omega⟩]

/-- A range consists of the bytes at its positions. -/
theorem range?_congr {data other : Bytes} {first last : Nat} (h : first ≤ last)
    (hlast : last < data.length)
    (hbytes : ∀ i, first ≤ i → i ≤ last → other[i]? = data[i]?) :
    range? other first last = range? data first last := by
  have hother : last < other.length := by
    have hbyte := hbytes last h (Nat.le_refl last)
    rw [List.getElem?_eq_getElem hlast] at hbyte
    exact (List.getElem?_eq_some_iff.mp hbyte).1
  rw [range?_of_le h hlast, range?_of_le h hother]
  congr 1
  apply List.ext_getElem?
  intro i
  rw [List.getElem?_drop, List.getElem?_drop]
  rcases Nat.lt_or_ge last (first + i) with hpast | hin
  · rw [List.getElem?_take_eq_none hpast, List.getElem?_take_eq_none hpast]
  · rw [List.getElem?_take_of_lt (by omega), List.getElem?_take_of_lt (by omega)]
    exact hbytes (first + i) (by omega) hin

/-- A range that is the whole message is the message. -/
theorem range?_whole {message : Bytes} (h : message ≠ []) :
    range? message 0 (message.length - 1) = some message := by
  have hlength := List.length_pos_of_ne_nil h
  rw [range?_of_le (by omega) (by omega), Nat.sub_add_cancel hlength, List.take_length,
    List.drop_zero]

/-- The checks are those of their definitions. Over any range inside of a buffer each of them is
the value that its definition gives to the bytes in the range, and it does not depend on any other
byte. The CCITT check can be carried on from the bytes before, and the checks of a frame are those
over the whole of its payload. -/
theorem Kind.over_eq_reference {data : Bytes} {first last : Nat} (h : first ≤ last)
    (hlast : last < data.length) :
    (∀ kind : Kind,
      kind.over data first last = some (kind.reference ((data.take (last + 1)).drop first)) ∧
      ∀ other : Bytes, (∀ i, first ≤ i → i ≤ last → other[i]? = data[i]?) →
        kind.over other first last = kind.over data first last) ∧
    (∀ register front back,
      ccittFrom (ccittFrom register front) back = ccittFrom register (front ++ back)) ∧
    (∀ payload : Bytes, payload ≠ [] →
      Kind.sum.over payload 0 (payload.length - 1) =
          some (Trailer.checksum.compute payload).toNat ∧
        Kind.ccitt.over payload 0 (payload.length - 1) =
          some (Trailer.crc.compute payload).toNat) := by
  refine ⟨fun kind => ⟨?_, ?_⟩, ?_, ?_⟩
  · rw [Kind.over, range?_of_le h hlast, Option.map_some, Kind.of_eq_reference]
  · intro other hbytes
    rw [Kind.over, Kind.over, range?_congr h hlast hbytes]
  · intro register front back
    exact (ccittFrom_append register front back).symm
  · intro payload hpayload
    rw [Kind.over, Kind.over, range?_whole hpayload]
    exact ⟨congrArg some (UInt8.toNat_toUInt16 _).symm, rfl⟩

/-- The digits from 1 to 9 inside of a longer buffer have the checks by which the checks are
tabulated, and so have their definitions. A byte outside of the range does not matter. -/
theorem Kind.over_eq_reference_digits :
    let digits : Bytes := [0x31, 0x32, 0x33, 0x34, 0x35, 0x36, 0x37, 0x38, 0x39]
    let data : Bytes := 0xEE :: digits ++ [0xEE]
    let other : Bytes := 0x00 :: digits
    1 ≤ 9 ∧ 9 < data.length ∧ (∀ i, 1 ≤ i → i ≤ 9 → other[i]? = data[i]?) ∧ digits ≠ [] ∧
    Kind.sum.reference digits = 0xDD ∧ Kind.longitudinal.reference digits = 0x31 ∧
    Kind.oneWire.reference digits = 0xA1 ∧ Kind.arc.reference digits = 0xBB3D ∧
    Kind.ccitt.reference digits = 0x31C3 ∧ Kind.dnp.reference digits = 0x82EA ∧
    Kind.modbus.reference digits = 0x4B37 ∧
    Kind.ccitt.over other 1 9 = some 0x31C3 ∧ (Trailer.crc.compute digits).toNat = 0x31C3 := by
  intro digits data other
  have hother : ∀ i, 1 ≤ i → i ≤ 9 → other[i]? = data[i]? := by
    intro i _ _
    interval_cases i <;> rfl
  obtain ⟨hkinds, -, hwhole⟩ :=
    Kind.over_eq_reference (by decide : 1 ≤ 9) (by decide : 9 < data.length)
  have hreference (kind : Kind) (value : Nat) (h : kind.over data 1 9 = some value) :
      kind.reference digits = value :=
    Option.some.inj ((hkinds kind).1.symm.trans h)
  have hover : Kind.ccitt.over data 1 9 = some 0x31C3 := by decide +kernel
  have hpayload : Kind.ccitt.over digits 0 8 = some 0x31C3 := by decide +kernel
  refine ⟨by decide, by decide, hother, by decide, hreference .sum _ ?_,
    hreference .longitudinal _ ?_, hreference .oneWire _ ?_, hreference .arc _ ?_,
    hreference .ccitt _ hover, hreference .dnp _ ?_, hreference .modbus _ ?_,
    ((hkinds .ccitt).2 other hother).trans hover,
    Option.some.inj ((hwhole digits (by decide)).2.symm.trans hpayload)⟩
  all_goals decide +kernel

/-! ## Ranges that do not exist -/

/-- A range exists as soon as its last position does, unless it starts even behind the position
after that one. -/
theorem range?_eq_none_iff {data : Bytes} {first last : Nat} :
    range? data first last = none ↔ last + 1 < first ∨ data.length ≤ last := by
  unfold range?
  split
  · simp only [reduceCtorEq, false_iff]
    omega
  · simp only [true_iff]
    omega

/-- A range that starts right behind its end is empty. -/
theorem range?_succ_left {data : Bytes} {last : Nat} (hlast : last < data.length) :
    range? data (last + 1) last = some [] := by
  rw [range?, if_pos ⟨Nat.le_refl _, hlast⟩, List.drop_take_self]

/-- The value of a check over no bytes at all. -/
def Kind.blank : Kind → Nat
  | .dnp | .modbus => 0xFFFF
  | .sum | .longitudinal | .oneWire | .arc | .ccitt => 0

theorem Kind.of_nil (kind : Kind) : kind.of [] = kind.blank := by
  cases kind <;> rfl

/-- Which ranges have a check, and which one. No range has that ends outside of the buffer, or that
starts behind its end, with one exception for each end: a range that starts right behind its end has
the check of no bytes at all. Where it has bytes, the check is that of the definition. So the rule
by which a pair of positions is refused if the first one is behind the last one, or the last one is
outside of the buffer, holds everywhere but at these ranges. -/
theorem Kind.over_eq_none_iff (kind : Kind) (data : Bytes) (first last : Nat) :
    (kind.over data first last = none ↔ last + 1 < first ∨ data.length ≤ last) ∧
    (∀ value, kind.over data first last = some value ↔
      last < data.length ∧
        (first ≤ last ∧ value = kind.reference ((data.take (last + 1)).drop first) ∨
          first = last + 1 ∧ value = kind.blank)) ∧
    ((kind.over data first last = none ↔ last < first ∨ data.length ≤ last) ↔
      ¬(first = last + 1 ∧ last < data.length)) := by
  have hnone : kind.over data first last = none ↔ last + 1 < first ∨ data.length ≤ last := by
    rw [Kind.over, Option.map_eq_none_iff, range?_eq_none_iff]
  refine ⟨hnone, ?_, ?_⟩
  · intro value
    rcases Nat.lt_or_ge last data.length with hlast | hlast
    · rcases Nat.lt_trichotomy first (last + 1) with hlt | rfl | hgt
      · have hle : first ≤ last := Nat.le_of_lt_succ hlt
        have hover : kind.over data first last =
            some (kind.reference ((data.take (last + 1)).drop first)) := by
          rw [Kind.over, range?_of_le hle hlast, Option.map_some, Kind.of_eq_reference]
        rw [hover, Option.some.injEq]
        simp only [hlast, hle, hlt.ne, true_and, false_and, or_false, eq_comm]
      · have hover : kind.over data (last + 1) last = some kind.blank := by
          rw [Kind.over, range?_succ_left hlast, Option.map_some, Kind.of_nil]
        rw [hover, Option.some.injEq]
        simp only [hlast, Nat.not_succ_le_self, true_and, false_and, false_or, eq_comm]
      · rw [hnone.mpr (.inl hgt)]
        simp only [reduceCtorEq, false_iff]
        omega
    · rw [hnone.mpr (.inr hlast)]
      simp only [reduceCtorEq, false_iff]
      omega
  · rw [hnone]
    omega

/-- The first position is behind the last one, and yet every check has a value. -/
theorem Kind.over_backwards :
    0 < 1 ∧ Kind.sum.over [1, 2, 3] 1 0 = some 0 ∧ Kind.longitudinal.over [1, 2, 3] 1 0 = some 0 ∧
      Kind.oneWire.over [1, 2, 3] 1 0 = some 0 ∧ Kind.arc.over [1, 2, 3] 1 0 = some 0 ∧
      Kind.ccitt.over [1, 2, 3] 1 0 = some 0 ∧ Kind.dnp.over [1, 2, 3] 1 0 = some 0xFFFF ∧
      Kind.modbus.over [1, 2, 3] 1 0 = some 0xFFFF := by
  decide

end Checksum

end BlockTransfer
