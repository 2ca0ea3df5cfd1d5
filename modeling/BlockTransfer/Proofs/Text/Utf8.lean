import BlockTransfer.Text.Utf8
import Mathlib.Data.List.Basic

/-!
# Reading characters back from their bytes

The decoder takes the bytes of a character one by one and is between characters again after the
last of them, with that character read. So the bytes of a text are read as that text, by the
strict reader as well as by the lenient one.

## Main results

* `scalars_encodeChars`: the bytes of a text hold its characters and nothing ill-formed.
* `decode?_encodeChars` and `decodeLossy_encodeChars`: both readers give the text back.
* `zero_notMem_encodeChars`: a text without the character zero has no byte zero.
* `length_encode`: a text takes as many bytes as it has as a string.
-/

namespace BlockTransfer.Utf8

/-- A continuation byte in range is taken, and its six bits are added to the value. -/
theorem step_continuation {p : Partial} {done : List (Option Char)} {n : Nat}
    (hlow : p.low ≤ n) (hhigh : p.high < 256) (hn : n ≤ p.high) :
    Decoder.step ⟨some p, done⟩ (UInt8.ofNat n) =
      if p.owed = 1 then ⟨none, some (Char.ofNat (p.value * 64 + (n - 0x80))) :: done⟩
      else ⟨some ⟨p.owed - 1, 0x80, 0xBF, p.value * 64 + (n - 0x80)⟩, done⟩ := by
  have hbyte : (UInt8.ofNat n).toNat = n := by
    rw [UInt8.toNat_ofNat']
    omega
  simp only [Decoder.step, hbyte, hlow, hn, and_self, if_true]

/-- A byte between characters is classified. -/
theorem step_lead {done : List (Option Char)} {n : Nat} (h : n < 256) :
    Decoder.step ⟨none, done⟩ (UInt8.ofNat n) = Decoder.start done n := by
  have hbyte : (UInt8.ofNat n).toNat = n := by
    rw [UInt8.toNat_ofNat']
    omega
  simp only [Decoder.step, hbyte]

/-- The first byte of a character of two bytes. -/
theorem lead_two {n : Nat} (hlo : 0x80 ≤ n) (hhi : n < 0x800) :
    lead (0xC0 + n / 64) = .opens ⟨1, 0x80, 0xBF, n / 64⟩ := by
  have h1 : ¬(0xC0 + n / 64 < 0x80) := by omega
  have h2 : ¬(0xC0 + n / 64 < 0xC2) := by omega
  have h3 : 0xC0 + n / 64 < 0xE0 := by omega
  have h4 : 0xC0 + n / 64 - 0xC0 = n / 64 := by omega
  simp only [lead, h1, h2, h3, h4, if_true, if_false]

/-- The first byte of a character of three bytes. The next byte must not be so low that two bytes
would have done, nor may it lead to a surrogate. -/
theorem lead_three {n : Nat} (hlo : 0x800 ≤ n) (hhi : n < 0x10000)
    (hsurrogate : n < 0xD800 ∨ 0xDFFF < n) :
    ∃ low high, lead (0xE0 + n / 4096) = .opens ⟨2, low, high, n / 4096⟩ ∧
      low ≤ 0x80 + n / 64 % 64 ∧ 0x80 + n / 64 % 64 ≤ high ∧ high < 256 := by
  have h1 : ¬(0xE0 + n / 4096 < 0x80) := by omega
  have h2 : ¬(0xE0 + n / 4096 < 0xC2) := by omega
  have h3 : ¬(0xE0 + n / 4096 < 0xE0) := by omega
  have h4 : 0xE0 + n / 4096 < 0xF0 := by omega
  have h5 : 0xE0 + n / 4096 - 0xE0 = n / 4096 := by omega
  by_cases hfirst : 0xE0 + n / 4096 = 0xE0
  · -- Lower second bytes would make an overlong sequence.
    refine ⟨0xA0, 0xBF, ?_, by omega, by omega, by omega⟩
    have hzero : n / 4096 = 0 := by omega
    rw [hzero]
    rfl
  · by_cases hlast : 0xE0 + n / 4096 = 0xED
    · -- Higher second bytes would make a surrogate.
      refine ⟨0x80, 0x9F, ?_, by omega, by omega, by omega⟩
      have hthirteen : n / 4096 = 0xD := by omega
      rw [hthirteen]
      rfl
    · refine ⟨0x80, 0xBF, ?_, by omega, by omega, by omega⟩
      simp only [lead, h1, h2, h3, h4, h5, hfirst, hlast, if_true, if_false]

/-- The first byte of a character of four bytes. The next byte must not be so low that three bytes
would have done, nor may it lead past the last character. -/
theorem lead_four {n : Nat} (hlo : 0x10000 ≤ n) (hhi : n < 0x110000) :
    ∃ low high, lead (0xF0 + n / 262144) = .opens ⟨3, low, high, n / 262144⟩ ∧
      low ≤ 0x80 + n / 4096 % 64 ∧ 0x80 + n / 4096 % 64 ≤ high ∧ high < 256 := by
  have hquot : n / 262144 ≤ 4 := by omega
  by_cases hfirst : n / 262144 = 0
  · -- Lower second bytes would make an overlong sequence.
    refine ⟨0x90, 0xBF, ?_, by omega, by omega, by omega⟩
    rw [hfirst]
    rfl
  · by_cases hlast : n / 262144 = 4
    · -- Higher second bytes would lead past the last character.
      refine ⟨0x80, 0x8F, ?_, by omega, by omega, by omega⟩
      rw [hlast]
      rfl
    · refine ⟨0x80, 0xBF, ?_, by omega, by omega, by omega⟩
      obtain h | h | h : n / 262144 = 1 ∨ n / 262144 = 2 ∨ n / 262144 = 3 := by omega
      all_goals
        rw [h]
        rfl

/-- The bytes of a character bring the decoder back between characters. -/
theorem foldl_step_encodeChar (c : Char) (done : List (Option Char)) :
    (encodeChar c).foldl Decoder.step ⟨none, done⟩ = ⟨none, some c :: done⟩ := by
  have hvalid : c.toNat < 0xD800 ∨ (0xDFFF < c.toNat ∧ c.toNat < 0x110000) := c.valid
  have hchar : Char.ofNat c.toNat = c := Char.ofNat_toNat c
  generalize hn : c.toNat = n at hvalid hchar
  simp only [encodeChar, hn]
  split
  · -- One byte.
    rename_i h
    simp only [List.foldl_cons, List.foldl_nil]
    rw [step_lead (by omega)]
    simp only [Decoder.start, lead, h, if_true, hchar]
  · split
    · -- Two bytes.
      simp only [List.foldl_cons, List.foldl_nil]
      rw [step_lead (by omega), Decoder.start, lead_two (by omega) (by omega)]
      dsimp only
      rw [step_continuation (by dsimp only; omega) (by dsimp only; omega) (by dsimp only; omega)]
      have hvalue : n / 64 * 64 + (0x80 + n % 64 - 0x80) = n := by omega
      simp only [hvalue, hchar, if_true]
    · split
      · -- Three bytes.
        obtain ⟨low, high, hlead, h1, h2, h3⟩ :=
          lead_three (n := n) (by omega) (by omega) (by omega)
        simp only [List.foldl_cons, List.foldl_nil]
        rw [step_lead (by omega), Decoder.start, hlead]
        dsimp only
        rw [step_continuation h1 h3 h2]
        simp only [Nat.reduceEqDiff, if_false, Nat.reduceSub]
        rw [step_continuation (by dsimp only; omega) (by dsimp only; omega) (by dsimp only; omega)]
        have hvalue : (n / 4096 * 64 + (0x80 + n / 64 % 64 - 0x80)) * 64 +
            (0x80 + n % 64 - 0x80) = n := by omega
        simp only [hvalue, hchar, if_true]
      · -- Four bytes.
        obtain ⟨low, high, hlead, h1, h2, h3⟩ := lead_four (n := n) (by omega) (by omega)
        simp only [List.foldl_cons, List.foldl_nil]
        rw [step_lead (by omega), Decoder.start, hlead]
        dsimp only
        rw [step_continuation h1 h3 h2]
        simp only [Nat.reduceEqDiff, if_false, Nat.reduceSub]
        rw [step_continuation (by dsimp only; omega) (by dsimp only; omega) (by dsimp only; omega)]
        simp only [Nat.reduceEqDiff, if_false, Nat.reduceSub]
        rw [step_continuation (by dsimp only; omega) (by dsimp only; omega) (by dsimp only; omega)]
        have hvalue : ((n / 262144 * 64 + (0x80 + n / 4096 % 64 - 0x80)) * 64 +
            (0x80 + n / 64 % 64 - 0x80)) * 64 + (0x80 + n % 64 - 0x80) = n := by omega
        simp only [hvalue, hchar, if_true]

/-- The bytes of a text are read character by character. -/
theorem foldl_step_encodeChars (cs : List Char) (done : List (Option Char)) :
    (encodeChars cs).foldl Decoder.step ⟨none, done⟩ = ⟨none, (cs.map some).reverse ++ done⟩ := by
  induction cs generalizing done with
  | nil => rfl
  | cons c cs ih =>
    rw [encodeChars, List.flatMap_cons, List.foldl_append, foldl_step_encodeChar]
    change (encodeChars cs).foldl Decoder.step _ = _
    rw [ih]
    simp

/-- The bytes of a text hold its characters and nothing ill-formed. -/
theorem scalars_encodeChars (cs : List Char) : scalars (encodeChars cs) = cs.map some := by
  rw [scalars, foldl_step_encodeChars]
  simp [Decoder.finish]

/-- The strict reader gives a text back. -/
@[simp]
theorem decode?_encodeChars (cs : List Char) : decode? (encodeChars cs) = some cs := by
  rw [decode?, scalars_encodeChars]
  induction cs with
  | nil => rfl
  | cons c cs ih => simp [List.mapM_cons, ih]

/-- The lenient reader gives a text back. -/
@[simp]
theorem decodeLossy_encodeChars (cs : List Char) : decodeLossy (encodeChars cs) = cs := by
  rw [decodeLossy, scalars_encodeChars, List.map_map]
  exact List.map_id cs

/-- Only the character zero has a byte zero. -/
theorem zero_notMem_encodeChar {c : Char} (h : c.toNat ≠ 0) : (0 : UInt8) ∉ encodeChar c := by
  have hvalid : c.toNat < 0xD800 ∨ (0xDFFF < c.toNat ∧ c.toNat < 0x110000) := c.valid
  -- Every byte is written as a number between 1 and 255.
  have hne (n : Nat) (hpos : 0 < n) (hlt : n < 256) : (0 : UInt8) ≠ UInt8.ofNat n := by
    intro hzero
    have htoNat := congrArg UInt8.toNat hzero
    rw [UInt8.toNat_ofNat'] at htoNat
    change 0 = n % 256 at htoNat
    omega
  unfold encodeChar
  dsimp only
  split
  · simp only [List.mem_singleton]
    exact hne _ (by omega) (by omega)
  · split
    · simp only [List.mem_cons, List.not_mem_nil, or_false, not_or]
      exact ⟨hne _ (by omega) (by omega), hne _ (by omega) (by omega)⟩
    · split
      · simp only [List.mem_cons, List.not_mem_nil, or_false, not_or]
        exact ⟨hne _ (by omega) (by omega), hne _ (by omega) (by omega),
          hne _ (by omega) (by omega)⟩
      · simp only [List.mem_cons, List.not_mem_nil, or_false, not_or]
        exact ⟨hne _ (by omega) (by omega), hne _ (by omega) (by omega),
          hne _ (by omega) (by omega), hne _ (by omega) (by omega)⟩

/-- A text without the character zero has no byte zero. -/
theorem zero_notMem_encodeChars {cs : List Char} (h : ∀ c ∈ cs, c.toNat ≠ 0) :
    (0 : UInt8) ∉ encodeChars cs := by
  intro hmem
  obtain ⟨c, hc, hzero⟩ := List.mem_flatMap.mp hmem
  exact zero_notMem_encodeChar (h c hc) hzero

/-- The bytes of a text that is not empty are not empty. -/
theorem encodeChars_ne_nil {cs : List Char} (h : cs ≠ []) : encodeChars cs ≠ [] := by
  cases cs with
  | nil => exact absurd rfl h
  | cons c cs =>
    have hpos := (length_encodeChar_mem c).1
    rw [encodeChars, List.flatMap_cons]
    intro hnil
    rw [(List.append_eq_nil_iff.mp hnil).1] at hpos
    exact absurd hpos (by decide)

/-! ## Lengths -/

/-- A character takes as many bytes as in a string. -/
theorem length_encodeChar (c : Char) : (encodeChar c).length = c.utf8Size := by
  have hsize : c.utf8Size = if c.toNat < 0x80 then 1 else if c.toNat < 0x800 then 2
      else if c.toNat < 0x10000 then 3 else 4 := by
    have hval : c.val.toNat = c.toNat := rfl
    simp only [Char.utf8Size, UInt32.le_iff_toNat_le, UInt32.toNat_ofNatLT, hval,
      Nat.le_iff_lt_add_one]
  rw [hsize, encodeChar]
  split_ifs <;> rfl

/-- Characters take as many bytes as the string of them. -/
theorem length_encodeChars (cs : List Char) :
    (encodeChars cs).length = (String.ofList cs).utf8ByteSize := by
  induction cs with
  | nil => rfl
  | cons c cs ih =>
    rw [String.ofList_cons, String.utf8ByteSize_append, String.utf8ByteSize_singleton, ← ih,
      encodeChars, List.flatMap_cons, List.length_append, length_encodeChar]
    rfl

/-- A text takes as many bytes as it has as a string. -/
theorem length_encode (text : String) : (encode text).length = text.utf8ByteSize := by
  rw [encode, length_encodeChars, String.ofList_toList]

end BlockTransfer.Utf8
