import BlockTransfer.Proofs.Text.Numeral
import BlockTransfer.Proofs.Text.Words
import BlockTransfer.Proofs.Time.Calendar
import BlockTransfer.Time.Rfc3339

/-!
# Reading timestamps back

Every timestamp is read back from its written form: in any year of the range, with its
nanoseconds, and in a leap second. Each part of the written form is shown to be read back whatever
text follows, as far as the part has an end of its own.

## Main results

* `read?_write`: a written timestamp is read back.
-/

namespace BlockTransfer.Rfc3339

open Calendar

variable {rest : List Char} {width n : Nat}

/-! ## Digits -/

/-- A text does not go on with a digit. -/
def NoDigit (rest : List Char) : Prop :=
  ∀ c ∈ rest.head?, c.isDigit = false

theorem noDigit_cons {c : Char} (h : c.isDigit = false) (rest : List Char) :
    NoDigit (c :: rest) := by
  rintro d ⟨⟩
  exact h

/-- A numeral is digits only, with or without zeros in front. -/
theorem isDigit_of_mem_decimalPadded {c : Char}
    (h : c ∈ (Numeral.decimalPadded width n).toList) : c.isDigit = true := by
  simp only [Numeral.decimalPadded, String.toList_ofList, List.mem_append, List.mem_replicate] at h
  rcases h with ⟨-, rfl⟩ | h
  · decide
  · exact Numeral.isDigit_of_mem_digits (by decide) (by decide) h

/-- A numeral has digits. -/
theorem decimalPadded_ne_nil (width n : Nat) : (Numeral.decimalPadded width n).toList ≠ [] := by
  simp [Numeral.decimalPadded, Numeral.digits_ne_nil]

/-- A numeral that is short enough has just the width asked for. -/
theorem length_decimalPadded (hwidth : 0 < width) (h : n < Nat.pow 10 width) :
    (Numeral.decimalPadded width n).toList.length = width := by
  have hdigits : (Numeral.digits 10 n).length ≤ width :=
    (Nat.length_toDigits_le_iff (by decide) hwidth).mpr h
  simp only [Numeral.decimalPadded, String.toList_ofList, List.length_append,
    List.length_replicate]
  omega

/-- A numeral has the value that it was written for. -/
theorem valueOf_decimalPadded : valueOf (Numeral.decimalPadded width n).toList = n := by
  have hvalue : ∀ ds : List Char, valueOf ds = Nat.ofDigitChars 10 ds 0 := by
    intro ds
    simp only [valueOf, Nat.ofDigitChars, Nat.mul_comm 10]
  rw [hvalue, Numeral.decimalPadded, String.toList_ofList, Nat.ofDigitChars_append,
    Nat.ofDigitChars_replicate_zero, Nat.mul_zero, Numeral.digits, Nat.ofDigitChars_ten_toDigits]

/-- As many digits are read as there are and as may be. -/
theorem digits?_append {most : Nat} {ds : List Char} (hne : ds ≠ [])
    (hdigits : ∀ c ∈ ds, c.isDigit = true) (hmost : ds.length ≤ most)
    (hend : ds.length = most ∨ NoDigit rest) : digits? most (ds ++ rest) = some (ds, rest) := by
  have hstop : (rest.take (most - ds.length)).takeWhile Char.isDigit = [] := by
    rcases hend with rfl | hend
    · simp
    · cases rest with
      | nil => simp
      | cons c rest =>
        cases most - ds.length with
        | zero => simp
        | succ k => simp [hend c rfl]
  have htaken : ((ds ++ rest).take most).takeWhile Char.isDigit = ds := by
    rw [List.take_append, List.take_of_length_le hmost, List.takeWhile_append_of_pos hdigits,
      hstop, List.append_nil]
  rw [digits?, htaken]
  simp [hne]

/-- A numeral is read up to its end. -/
theorem digits?_decimalPadded {most : Nat}
    (hmost : (Numeral.decimalPadded width n).toList.length ≤ most)
    (hend : (Numeral.decimalPadded width n).toList.length = most ∨ NoDigit rest) :
    digits? most ((Numeral.decimalPadded width n).toList ++ rest) =
      some ((Numeral.decimalPadded width n).toList, rest) :=
  digits?_append (decimalPadded_ne_nil width n) (fun _ => isDigit_of_mem_decimalPadded) hmost hend

/-! ## Parts of the written form -/

/-- Nothing is skipped in front of a character that is not white space. -/
theorem skipBlanks_cons {c : Char} (h : Text.isBlank c = false) (rest : List Char) :
    skipBlanks (c :: rest) = c :: rest := by
  rw [skipBlanks, List.dropWhile_cons_of_neg (by simp [h])]

/-- Nothing is skipped in front of a numeral. -/
theorem skipBlanks_decimalPadded :
    skipBlanks ((Numeral.decimalPadded width n).toList ++ rest) =
      (Numeral.decimalPadded width n).toList ++ rest := by
  obtain ⟨c, cs, h⟩ := List.exists_cons_of_ne_nil (decimalPadded_ne_nil width n)
  have hc : c.isDigit = true := isDigit_of_mem_decimalPadded (h ▸ List.mem_cons_self)
  rw [h, List.cons_append, skipBlanks_cons (Text.isBlank_of_isDigit hc)]

/-- A field of two digits is read back. -/
theorem field?_decimalPadded (h : n < 100) :
    field? ((Numeral.decimalPadded 2 n).toList ++ rest) = some (n, rest) := by
  have hlength : (Numeral.decimalPadded 2 n).toList.length = 2 :=
    length_decimalPadded (by decide) h
  rw [field?, skipBlanks_decimalPadded, digits?_decimalPadded (by omega) (.inl hlength)]
  simp only [Option.map_some, valueOf_decimalPadded]

/-- A mark is read where it stands. -/
theorem expect?_cons (c : Char) (hc : Text.isBlank c = false) (rest : List Char) :
    expect? c (skipBlanks (c :: rest)) = some rest := by
  rw [skipBlanks_cons hc, expect?, if_pos rfl]

/-- A numeral does not begin with a sign. -/
theorem decimalPadded_append_ne {c : Char} (hc : c.isDigit = false) (cs : List Char) :
    (Numeral.decimalPadded width n).toList ++ rest ≠ c :: cs := by
  intro heq
  obtain ⟨d, ds, h⟩ := List.exists_cons_of_ne_nil (decimalPadded_ne_nil width n)
  have hd : d.isDigit = true := isDigit_of_mem_decimalPadded (h ▸ List.mem_cons_self)
  rw [h, List.cons_append, List.cons.injEq] at heq
  rw [heq.1, hc] at hd
  exact Bool.noConfusion hd

/-- A year without a sign has four digits. -/
theorem year?_decimalPadded (h : n < 10000) :
    year? ((Numeral.decimalPadded 4 n).toList ++ rest) = some ((n : Int), rest) := by
  have hlength : (Numeral.decimalPadded 4 n).toList.length = 4 :=
    length_decimalPadded (by decide) h
  rw [year?, skipBlanks_decimalPadded]
  split
  · rename_i heq
    exact absurd heq (decimalPadded_append_ne (by decide) _)
  · rename_i heq
    exact absurd heq (decimalPadded_append_ne (by decide) _)
  · rw [digits?_decimalPadded (by omega) (.inl hlength)]
    simp only [Option.map_some, valueOf_decimalPadded]

/-- After a sign a year has all the digits that follow. -/
theorem digits?_length_decimalPadded (hrest : NoDigit rest) :
    digits? ((Numeral.decimalPadded width n).toList ++ rest).length
      ((Numeral.decimalPadded width n).toList ++ rest) =
        some ((Numeral.decimalPadded width n).toList, rest) :=
  digits?_decimalPadded (by simp) (.inr hrest)

/-- A year is read back. -/
theorem year?_writeYear (year : Int) (hrest : NoDigit rest) :
    year? ((writeYear year).toList ++ rest) = some (year, rest) := by
  rw [writeYear]
  split
  · rename_i hyear
    have hvalue : (year.toNat : Int) = year := by omega
    rw [year?_decimalPadded (by omega), hvalue]
  split
  · rename_i hnegative
    have hvalue : -(year.natAbs : Int) = year := by omega
    simp only [String.toList_append, String.reduceToList, List.cons_append, List.nil_append]
    rw [year?, skipBlanks_cons (by decide)]
    simp only [digits?_length_decimalPadded hrest, Option.map_some, valueOf_decimalPadded, hvalue]
  · rename_i hnegative
    have hvalue : (year.natAbs : Int) = year := by omega
    simp only [String.toList_append, String.reduceToList, List.cons_append, List.nil_append]
    rw [year?, skipBlanks_cons (by decide)]
    simp only [digits?_length_decimalPadded hrest, Option.map_some, valueOf_decimalPadded, hvalue]

/-- The written form of a date. -/
def dateText (date : Date) : List Char :=
  (writeYear date.year ++ "-" ++ Numeral.decimalPadded 2 date.month ++ "-" ++
    Numeral.decimalPadded 2 date.day).toList

/-- A date that exists and is in range is read back. -/
theorem date?_dateText {date : Date} (hvalid : date.isValid = true)
    (hyear : -262143 ≤ date.year ∧ date.year ≤ 262142) (rest : List Char) :
    date? (dateText date ++ rest) = some (date, rest) := by
  obtain ⟨hmonth, hday⟩ := Date.lt_of_isValid hvalid
  have hdash : NoDigit ('-' :: ((Numeral.decimalPadded 2 date.month).toList ++
    '-' :: ((Numeral.decimalPadded 2 date.day).toList ++ rest))) := noDigit_cons (by decide) _
  simp only [dateText, String.toList_append, String.reduceToList, List.append_assoc,
    List.cons_append, List.nil_append]
  rw [date?, year?_writeYear date.year hdash]
  simp only [Option.bind_eq_bind, Option.bind_some, expect?_cons '-' (by decide),
    field?_decimalPadded hmonth, field?_decimalPadded hday, hyear.1, hyear.2, hvalid, and_self,
    if_true]

/-! ## The time of day -/

/-- A fraction is read back. -/
theorem fraction?_decimalPadded (hwidth : 0 < width ∧ width ≤ 9) (h : n < Nat.pow 10 width)
    (hrest : NoDigit rest) :
    fraction? ('.' :: ((Numeral.decimalPadded width n).toList ++ rest)) =
      some (n * Nat.pow 10 (9 - width), rest) := by
  have hlength := length_decimalPadded hwidth.1 h
  have hskip : rest.dropWhile Char.isDigit = rest := by
    cases rest with
    | nil => rfl
    | cons c rest => simp [hrest c rfl]
  rw [fraction?, digits?_decimalPadded (by omega) (.inr hrest)]
  simp only [Option.map_some, valueOf_decimalPadded, hlength, hskip]

/-- The nanoseconds of a second are read back. -/
theorem fraction?_writeFraction {nanos : Nat} (h : nanos < 1000000000) (rest : List Char) :
    fraction? ((writeFraction nanos).toList ++ 'Z' :: rest) = some (nanos, 'Z' :: rest) := by
  have hend : NoDigit ('Z' :: rest) := noDigit_cons (by decide) rest
  have hread : ∀ {width n : Nat}, 0 < width ∧ width ≤ 9 → n < Nat.pow 10 width →
      n * Nat.pow 10 (9 - width) = nanos →
      fraction? (("." ++ Numeral.decimalPadded width n).toList ++ 'Z' :: rest) =
        some (nanos, 'Z' :: rest) := by
    intro width n hwidth hn hvalue
    simp only [String.toList_append, String.reduceToList, List.cons_append, List.nil_append]
    rw [← hvalue]
    exact fraction?_decimalPadded hwidth hn hend
  rw [writeFraction]
  split
  · rename_i hzero
    rw [hzero]
    rfl
  split
  · exact hread (by decide) (show nanos / 1000000 < 1000 by omega)
      (show nanos / 1000000 * 1000000 = nanos by omega)
  split
  · exact hread (by decide) (show nanos / 1000 < 1000000 by omega)
      (show nanos / 1000 * 1000 = nanos by omega)
  · exact hread (by decide) h (Nat.mul_one nanos)

/-- The written form of a time of day. -/
def clockText (hour minute second nanos : Nat) : List Char :=
  (Numeral.decimalPadded 2 hour ++ ":" ++ Numeral.decimalPadded 2 minute ++ ":" ++
    Numeral.decimalPadded 2 second ++ writeFraction nanos).toList

/-- A time of day is read back; the second 60 is a leap second. -/
theorem clock?_clockText {hour minute second nanos : Nat} (hhour : hour ≤ 23)
    (hminute : minute ≤ 59) (hsecond : second ≤ 60) (hnanos : nanos < 1000000000)
    (rest : List Char) :
    clock? (clockText hour minute second nanos ++ 'Z' :: rest) =
      some (if second = 60 then ⟨hour * 3600 + minute * 60 + 59, nanos + 1000000000⟩
        else ⟨hour * 3600 + minute * 60 + second, nanos⟩, 'Z' :: rest) := by
  simp only [clockText, String.toList_append, String.reduceToList, List.append_assoc,
    List.cons_append, List.nil_append]
  rw [clock?, field?_decimalPadded (by omega)]
  simp only [Option.bind_eq_bind, Option.bind_some, expect?_cons ':' (by decide),
    field?_decimalPadded (show minute < 100 by omega),
    field?_decimalPadded (show second < 100 by omega), fraction?_writeFraction hnanos, hhour,
    hminute, hsecond, and_self, if_true]
  split <;> rfl

/-! ## Timestamps -/

/-- The days of timestamps lie in the years that are read. -/
theorem year_mem (t : Timestamp) :
    -262143 ≤ (Date.ofDays (t.seconds / 86400)).year ∧
      (Date.ofDays (t.seconds / 86400)).year ≤ 262142 := by
  have hfirst : Timestamp.firstSecond ≤ t.seconds := t.seconds_mem.1
  have hlast : t.seconds ≤ Timestamp.lastSecond := t.seconds_mem.2
  rw [Timestamp.firstSecond] at hfirst
  rw [Timestamp.lastSecond] at hlast
  have hyears : (Date.ofDays (-96465292)).year = -262143 ∧
      (Date.ofDays 95026236).year = 262142 := by decide
  rw [← hyears.1, ← hyears.2]
  exact ⟨Date.year_ofDays_le (by omega), Date.year_ofDays_le (by omega)⟩

/-- The time of day of a timestamp is read back. -/
theorem clock?_write (t : Timestamp) (rest : List Char) :
    let second := (t.seconds % 86400).toNat
    let leap := 1000000000 ≤ t.nanos
    clock? (clockText (second / 3600) (second / 60 % 60)
      (second % 60 + if leap then 1 else 0) (if leap then t.nanos - 1000000000 else t.nanos) ++
        'Z' :: rest) = some (⟨second, t.nanos⟩, 'Z' :: rest) := by
  intro second leap
  have hfit : Timestamp.nanosFit t.seconds t.nanos := t.nanos_fit
  rw [Timestamp.nanosFit] at hfit
  have hsecond : second < 86400 := by omega
  by_cases hleap : leap
  · -- The leap second follows the second 59.
    have hlast : second % 60 = 59 := by omega
    have hnanos : t.nanos - 1000000000 + 1000000000 = t.nanos := Nat.sub_add_cancel hleap
    have htotal : second / 3600 * 3600 + second / 60 % 60 * 60 + 59 = second := by omega
    rw [if_pos hleap, if_pos hleap, hlast,
      clock?_clockText (by omega) (by omega) (by omega) (by omega), if_pos rfl, htotal, hnanos]
  · have hnanos : t.nanos < 1000000000 := Nat.lt_of_not_le hleap
    have htotal : second / 3600 * 3600 + second / 60 % 60 * 60 + second % 60 = second := by omega
    rw [if_neg hleap, if_neg hleap, Nat.add_zero,
      clock?_clockText (by omega) (by omega) (by omega) hnanos, if_neg (by omega), htotal]

/-- A timestamp is made of its own parts. -/
theorem ofParts?_self (t : Timestamp) : Timestamp.ofParts? t.seconds t.nanos = some t := by
  rw [Timestamp.ofParts?, dif_pos t.seconds_mem, dif_pos t.nanos_fit]

/-- A written timestamp is a date, a mark, a time of day and the mark of universal time. -/
theorem toList_write (t : Timestamp) :
    let second := (t.seconds % 86400).toNat
    let leap := 1000000000 ≤ t.nanos
    (write t).toList = dateText (Date.ofDays (t.seconds / 86400)) ++
      'T' :: (clockText (second / 3600) (second / 60 % 60)
        (second % 60 + if leap then 1 else 0)
        (if leap then t.nanos - 1000000000 else t.nanos) ++ ['Z']) := by
  simp only [write, dateText, clockText, String.toList_append, String.reduceToList,
    List.append_assoc, List.cons_append, List.nil_append]

/-- A written timestamp is read back. -/
theorem read?_write (t : Timestamp) : read? (write t).toList = some t := by
  have hseconds : t.seconds / 86400 * 86400 + (t.seconds % 86400).toNat - 0 = t.seconds := by
    omega
  have hend : skipBlanks ['Z'] = ['Z'] := skipBlanks_cons (by decide) []
  rw [toList_write t, read?, date?_dateText (Date.isValid_ofDays _) (year_mem t)]
  simp only [Option.bind_eq_bind, Option.bind_some, separator?, clock?_write t, hend, offset?,
    Date.toDays_ofDays, hseconds]
  exact ofParts?_self t

end BlockTransfer.Rfc3339
