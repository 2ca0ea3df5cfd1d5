import BlockTransfer.Bytes
import Mathlib

/-!
# Cyclic checks as remainders

A string of bits is a polynomial over the field with two elements, its last bit the constant term,
and so is a word. A register that shifts to the left, and takes off a fixed word whenever a bit
falls out at the top, then multiplies by `X` modulo a generator. So bytes that are fed to it one by
one leave the remainder of their polynomial.

## Main definitions

* `wordPoly` and `bitPoly`: the polynomials of words and of strings of bits.
* `generator`: the polynomial that a register divides by.
* `shiftOut` and `feed`: what one shift and what one byte do to a register.
* `remainder`: the remainder that a message leaves.

## Main results

* `wordPoly_foldl_feed`: a register into which bytes have been fed is that remainder.
-/

namespace BlockTransfer.Checksum

open Polynomial

variable {n : Nat}

/-! ## Words -/

/-- The polynomial of a word. Its bits are the coefficients, the lowest one the constant. -/
noncomputable def wordPoly (word : BitVec n) : (ZMod 2)[X] :=
  ∑ i ∈ Finset.range n, if word.getLsbD i then X ^ i else 0

theorem coeff_wordPoly (word : BitVec n) (i : Nat) :
    (wordPoly word).coeff i = if word.getLsbD i then 1 else 0 := by
  rw [wordPoly, finsetSum_coeff, Finset.sum_eq_single i]
  · split <;> simp
  · intro j _ hj
    split
    · rw [coeff_X_pow, if_neg hj.symm]
    · rfl
  · intro hi
    rw [Finset.mem_range, not_lt] at hi
    simp [BitVec.getLsbD_of_ge word i hi]

/-- A word is known from its polynomial. -/
theorem wordPoly_injective : Function.Injective (wordPoly (n := n)) := by
  intro v w h
  apply BitVec.eq_of_getLsbD_eq
  intro i _
  have hi := congrArg (coeff · i) h
  simp only [coeff_wordPoly] at hi
  cases hv : v.getLsbD i <;> cases hw : w.getLsbD i <;> simp_all

@[simp]
theorem wordPoly_zero : wordPoly (0#n) = 0 := by
  ext i
  simp [coeff_wordPoly]

theorem wordPoly_xor (v w : BitVec n) : wordPoly (v ^^^ w) = wordPoly v + wordPoly w := by
  ext i
  simp only [coeff_wordPoly, coeff_add, BitVec.getLsbD_xor]
  cases v.getLsbD i <;> cases w.getLsbD i <;> decide

theorem degree_wordPoly_lt (word : BitVec n) : (wordPoly word).degree < n := by
  rw [degree_lt_iff_coeff_zero]
  intro i hi
  simp [coeff_wordPoly, BitVec.getLsbD_of_ge word i hi]

theorem coeff_ite_X_pow (b : Bool) (n i : Nat) :
    (if b then X ^ n else 0 : (ZMod 2)[X]).coeff i = if b ∧ i = n then 1 else 0 := by
  cases b <;> simp [coeff_X_pow]

/-- A shift to the left multiplies by `X`, but for the bit that falls out at the top. -/
theorem wordPoly_shiftLeft_one (word : BitVec n) :
    wordPoly (word <<< 1) = X * wordPoly word + if word.msb then X ^ n else 0 := by
  ext i
  rw [coeff_add, coeff_ite_X_pow, coeff_wordPoly, BitVec.getLsbD_shiftLeft]
  cases i with
  | zero =>
    have hmsb : ¬(word.msb = true ∧ 0 = n) := by
      rintro ⟨hmsb, rfl⟩
      simp [BitVec.msb, BitVec.getMsbD] at hmsb
    simp [hmsb]
  | succ i =>
    rw [coeff_X_mul, coeff_wordPoly, Nat.add_sub_cancel]
    rcases Nat.lt_trichotomy (i + 1) n with h | h | h
    · simp [h, h.ne]
    · -- The bit that falls out is counted twice, so it is gone.
      subst h
      have hmsb : word.msb = word.getLsbD i := BitVec.msb_eq_getLsbD_last word
      rw [hmsb]
      cases word.getLsbD i <;> simp [CharTwo.add_self_eq_zero]
    · have hi : word.getLsbD i = false := BitVec.getLsbD_of_ge word i (by omega)
      simp [h.ne', hi]

/-- A byte that is moved up in a wider word, none of its bits falling out. -/
theorem wordPoly_setWidth_shiftLeft (byte : BitVec 8) {k : Nat} (h : 8 + k ≤ n) :
    wordPoly (byte.setWidth n <<< k) = X ^ k * wordPoly byte := by
  ext i
  rw [coeff_X_pow_mul', coeff_wordPoly, coeff_wordPoly, BitVec.getLsbD_shiftLeft,
    BitVec.getLsbD_setWidth]
  by_cases hk : k ≤ i
  · by_cases hi : i < n
    · have hsub : i - k < n := by omega
      simp [hk, hi, hsub, Nat.not_lt.mpr hk]
    · have hbyte : byte.getLsbD (i - k) = false := BitVec.getLsbD_of_ge byte _ (by omega)
      simp [hbyte]
  · simp [hk, Nat.lt_of_not_le hk]

/-! ## Strings of bits -/

/-- The polynomial of a string of bits. The last bit is the constant. -/
noncomputable def bitPoly : List Bool → (ZMod 2)[X]
  | [] => 0
  | bit :: bits => (if bit then X ^ bits.length else 0) + bitPoly bits

theorem bitPoly_append (front back : List Bool) :
    bitPoly (front ++ back) = bitPoly front * X ^ back.length + bitPoly back := by
  induction front with
  | nil => rw [List.nil_append, bitPoly, zero_mul, zero_add]
  | cons bit front ih =>
    rw [List.cons_append, bitPoly, bitPoly, ih, List.length_append]
    split <;> ring

theorem coeff_bitPoly (bits : List Bool) (i : Nat) :
    (bitPoly bits).coeff i = if bits.reverse[i]?.getD false then 1 else 0 := by
  induction bits with
  | nil => simp [bitPoly]
  | cons bit bits ih =>
    rw [bitPoly, coeff_add, coeff_ite_X_pow, ih, List.reverse_cons]
    rcases Nat.lt_trichotomy i bits.length with h | rfl | h
    · have hi : i < bits.reverse.length := by rwa [List.length_reverse]
      simp [List.getElem?_append_left hi, h.ne]
    · simp
    · have hlong : (bits.reverse ++ [bit])[i]? = none := by
        simp
        omega
      have hshort : bits.reverse[i]? = none := by
        simp
        omega
      simp [hlong, hshort, h.ne']

/-- The bits of a word, the highest one first. -/
def highFirst (word : BitVec n) : List Bool :=
  (List.range n).map word.getMsbD

@[simp]
theorem length_highFirst (word : BitVec n) : (highFirst word).length = n := by
  rw [highFirst, List.length_map, List.length_range]

/-- The bits of a word have the polynomial of the word. -/
theorem bitPoly_highFirst (word : BitVec n) : bitPoly (highFirst word) = wordPoly word := by
  ext i
  rw [coeff_bitPoly, coeff_wordPoly]
  rcases Nat.lt_or_ge i n with h | h
  · have hbit : (highFirst word).reverse[i]? = some (word.getMsbD (n - 1 - i)) := by
      rw [List.getElem?_reverse (by simpa using h), length_highFirst, highFirst,
        List.getElem?_map, List.getElem?_range (by omega), Option.map_some]
    have hlt : n - 1 - i < n := by omega
    have hsub : n - 1 - (n - 1 - i) = i := by omega
    rw [hbit, Option.getD_some, BitVec.getMsbD_eq_getLsbD, hsub]
    simp [hlt]
  · have hbit : (highFirst word).reverse[i]? = none := by simp [h]
    rw [hbit, BitVec.getLsbD_of_ge word i h, Option.getD_none]

/-! ## Registers -/

/-- The polynomial that a register of `n` bits divides by: `X ^ n` and the powers below it that
are given by a word. -/
noncomputable def generator (word : BitVec n) : (ZMod 2)[X] :=
  X ^ n + wordPoly word

theorem monic_generator (word : BitVec n) : (generator word).Monic :=
  monic_X_pow_add (degree_wordPoly_lt word)

theorem degree_generator (word : BitVec n) : (generator word).degree = n := by
  rw [generator, degree_add_eq_left_of_degree_lt, degree_X_pow]
  rw [degree_X_pow]
  exact degree_wordPoly_lt word

/-- One shift of a register to the left. The word of the generator is added if a bit falls out at
the top. -/
def shiftOut (word register : BitVec n) : BitVec n :=
  if register.msb then (register <<< 1) ^^^ word else register <<< 1

theorem wordPoly_shiftOut (word register : BitVec n) :
    wordPoly (shiftOut word register) =
      X * wordPoly register + if register.msb then generator word else 0 := by
  unfold shiftOut
  split
  · rw [wordPoly_xor, wordPoly_shiftLeft_one, if_pos ‹_›, generator, add_assoc]
  · rw [wordPoly_shiftLeft_one, if_neg ‹_›]

/-- A shift multiplies by `X` modulo the generator. -/
theorem mk_shiftOut (word register : BitVec n) :
    AdjoinRoot.mk (generator word) (wordPoly (shiftOut word register)) =
      AdjoinRoot.root (generator word) * AdjoinRoot.mk (generator word) (wordPoly register) := by
  rw [wordPoly_shiftOut, map_add, map_mul, AdjoinRoot.mk_X]
  split
  · rw [AdjoinRoot.mk_self, add_zero]
  · rw [map_zero, add_zero]

theorem mk_repeat_shiftOut (word register : BitVec n) (k : Nat) :
    AdjoinRoot.mk (generator word) (wordPoly (Nat.repeat (shiftOut word) k register)) =
      AdjoinRoot.root (generator word) ^ k *
        AdjoinRoot.mk (generator word) (wordPoly register) := by
  induction k with
  | zero => rw [Nat.repeat, pow_zero, one_mul]
  | succ k ih => rw [Nat.repeat, mk_shiftOut, ih, pow_succ', mul_assoc]

/-- What a byte does to a register: it is added at the top, and eight bits are shifted out. -/
def feed (word register : BitVec n) (byte : BitVec 8) : BitVec n :=
  Nat.repeat (shiftOut word) 8 (register ^^^ byte.setWidth n <<< (n - 8))

theorem mk_feed (h : 8 ≤ n) (word register : BitVec n) (byte : BitVec 8) :
    AdjoinRoot.mk (generator word) (wordPoly (feed word register byte)) =
      AdjoinRoot.mk (generator word) (X ^ 8 * wordPoly register + X ^ n * wordPoly byte) := by
  have hn : 8 + (n - 8) = n := by omega
  rw [feed, mk_repeat_shiftOut, wordPoly_xor, wordPoly_setWidth_shiftLeft byte (by omega),
    ← AdjoinRoot.mk_X, ← map_pow, ← map_mul, mul_add, ← mul_assoc, ← pow_add, hn]

/-- What bytes do to a register, modulo the generator. -/
theorem mk_foldl_feed (h : 8 ≤ n) (word register : BitVec n) (bytes : List (BitVec 8)) :
    AdjoinRoot.mk (generator word) (wordPoly (bytes.foldl (feed word) register)) =
      AdjoinRoot.mk (generator word)
        (wordPoly register * X ^ (bytes.flatMap highFirst).length +
          bitPoly (bytes.flatMap highFirst) * X ^ n) := by
  induction bytes generalizing register with
  | nil => simp [bitPoly]
  | cons byte bytes ih =>
    rw [List.foldl_cons, ih, List.flatMap_cons, bitPoly_append, bitPoly_highFirst,
      List.length_append, length_highFirst]
    simp only [map_add, map_mul, mk_feed h, map_pow]
    ring

/-- The remainder of a message, moved up by the width of the register so that there is room for
the check behind it. What the register holds at first is added to the front of the message. -/
noncomputable def remainder (word initial : BitVec n) (message : List Bool) : (ZMod 2)[X] :=
  (wordPoly initial * X ^ message.length + bitPoly message * X ^ n) %ₘ generator word

/-- A register into which a message has been fed is its remainder. -/
theorem wordPoly_foldl_feed (h : 8 ≤ n) (word register : BitVec n) (bytes : List (BitVec 8)) :
    wordPoly (bytes.foldl (feed word) register) =
      remainder word register (bytes.flatMap highFirst) := by
  have hmonic := monic_generator word
  have hdegree : (wordPoly (bytes.foldl (feed word) register)).degree < (generator word).degree :=
    (degree_wordPoly_lt _).trans_eq (degree_generator word).symm
  -- A polynomial that is small enough is its own remainder.
  rw [← (modByMonic_eq_self_iff hmonic).mpr hdegree, remainder]
  apply modByMonic_eq_of_dvd_sub hmonic
  rw [← AdjoinRoot.mk_eq_mk]
  exact mk_foldl_feed h word register bytes

end BlockTransfer.Checksum
