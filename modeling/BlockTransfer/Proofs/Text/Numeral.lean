import BlockTransfer.Text.Numeral
import Mathlib.Tactic.IntervalCases

/-!
# Reading numerals back

A number that is written in some base up to 10 and read under a bound above it is the same
number.

## Main results

* `read_digits`: reading the digits of a number gives the number.
-/

namespace BlockTransfer.Numeral

variable {base bound : Nat}

/-- The digits of a number are digits, so no sign is among them. -/
theorem isDigit_of_mem_digits {n : Nat} {c : Char} (hlo : 1 < base) (hhi : base ≤ 10)
    (h : c ∈ digits base n) : c.isDigit :=
  Nat.isDigit_of_mem_toDigits (by omega) hhi h

theorem digits_ne_nil (base n : Nat) : digits base n ≠ [] :=
  Nat.toDigits_ne_nil

/-- A number with more than one digit is written as its quotient followed by its remainder. -/
theorem digits_of_le {n : Nat} (hlo : 1 < base) (h : base ≤ n) :
    digits base n = digits base (n / base) ++ [(n % base).digitChar] :=
  Nat.toDigits_of_base_le hlo h

/-- A digit has the value that it stands for. -/
theorem digitValue?_digitChar {d : Nat} (hhi : base ≤ 10) (hd : d < base) :
    digitValue? base d.digitChar = some d := by
  have hten : d < 10 := by omega
  have hvalue : d.digitChar.toNat - '0'.toNat = d :=
    Nat.toNat_digitChar_sub_48_of_lt_ten hten
  have hzero : '0' ≤ d.digitChar := by
    interval_cases d <;> decide
  rw [digitValue?, hvalue]
  simp [hzero, hd]

/-- A digit is read as long as the number stays below the bound. -/
theorem push_digitChar {n d : Nat} (hhi : base ≤ 10) (hd : d < base)
    (h : n * base + d < bound) :
    push base bound n d.digitChar = .ok (n * base + d) := by
  simp only [push, digitValue?_digitChar hhi hd, h, if_true]

/-- Reading the digits of a number from left to right gives the number. -/
theorem foldlM_push_digits {n : Nat} (hlo : 1 < base) (hhi : base ≤ 10) (h : n < bound) :
    (digits base n).foldlM (push base bound) 0 = .ok n := by
  induction n using Nat.strong_induction_on with
  | _ n ih =>
    rcases Nat.lt_or_ge n base with hsmall | hlarge
    · rw [digits, Nat.toDigits_of_lt_base hsmall, List.foldlM_cons,
        push_digitChar hhi hsmall (by omega)]
      simp only [Nat.zero_mul, Nat.zero_add]
      rfl
    · -- All digits but the last one are those of the quotient.
      have hquot : n / base < n := Nat.div_lt_self (by omega) hlo
      have hsum : n / base * base + n % base = n := Nat.div_add_mod' n base
      rw [digits_of_le hlo hlarge, List.foldlM_append, ih _ hquot (by omega)]
      change List.foldlM (push base bound) (n / base) [(n % base).digitChar] = _
      rw [List.foldlM_cons, push_digitChar hhi (Nat.mod_lt _ (by omega)) (by omega), hsum]
      rfl

/-- A text that does not start with a sign is read digit by digit. -/
theorem read_eq_foldlM {cs : List Char} (hne : cs ≠ []) (hsign : ∀ c ∈ cs, c ≠ '+') :
    read base bound cs = cs.foldlM (push base bound) 0 := by
  cases cs with
  | nil => exact absurd rfl hne
  | cons c cs =>
    have hc : c ≠ '+' := hsign c List.mem_cons_self
    unfold read
    split
    · rename_i heq
      cases heq
    · -- A sign would have been skipped.
      rename_i heq
      exact absurd (List.cons.inj heq).1 hc
    · rename_i heq
      exact absurd (List.cons.inj heq).1 hc
    · rfl

/-- Reading the digits of a number gives the number. -/
theorem read_digits {n : Nat} (hlo : 1 < base) (hhi : base ≤ 10) (h : n < bound) :
    read base bound (digits base n) = .ok n := by
  rw [read_eq_foldlM (digits_ne_nil base n), foldlM_push_digits hlo hhi h]
  rintro c hc rfl
  exact absurd (isDigit_of_mem_digits hlo hhi hc) (by decide)

end BlockTransfer.Numeral
