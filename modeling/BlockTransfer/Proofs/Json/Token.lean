import BlockTransfer.Json.Quoted
import BlockTransfer.Json.Token
import BlockTransfer.Proofs.Text.Numeral
import Mathlib.Data.List.Chain

/-!
# Writing tokens

Every token has a written form, and a text that is put together from written forms is read as
those tokens, as long as no number follows another one directly: a number has no end of its own.

## Main definitions

* `Token.write`: the written form of a token.
* `Token.Apart`: two tokens may be written one after the other.
* `Lexer.After`: a lexer has just read some tokens.

## Main results

* `tokens?_flatMap_write`: written tokens are read back.
-/

namespace BlockTransfer.Json

/-- The written form of a token. A string that is no text is written as half a surrogate pair,
and a number without a plain value as minus zero. -/
def Token.write : Token → List Char
  | .openObject => ['{']
  | .closeObject => ['}']
  | .openArray => ['[']
  | .closeArray => [']']
  | .colon => [':']
  | .comma => [',']
  | .text (some cs) => '"' :: cs.flatMap quoteChar ++ ['"']
  | .text none => ['"', '\\', 'u', 'd', '8', '0', '0', '"']
  | .number (some n) => Numeral.digits 10 n
  | .number none => ['-', '0']
  | .truth true => ['t', 'r', 'u', 'e']
  | .truth false => ['f', 'a', 'l', 's', 'e']
  | .null => ['n', 'u', 'l', 'l']

/-- Whether a token is a number. -/
def Token.isNumber : Token → Bool
  | .number _ => true
  | _ => false

/-- Whether a token may stand directly behind another: only numbers run into each other. -/
def Token.Apart (a b : Token) : Prop :=
  a.isNumber = true → b.isNumber = false

namespace Lexer

/-- A lexer has just read the last of some tokens, given latest first. It may still be inside
that token if it is a number. -/
inductive After : Lexer → List Token → Prop
  | between (done : List Token) : After ⟨.idle, done⟩ done
  | inNumber {part : NumberPart} (plain : Option Nat) (done : List Token)
    (complete : part.complete = true) : After ⟨.number part plain, done⟩ (.number plain :: done)

/-- A text may end after a token. -/
theorem After.finish? {lexer : Lexer} {done : List Token} (h : lexer.After done) :
    lexer.finish? = some done.reverse := by
  cases h with
  | between => rfl
  | inNumber plain done complete => simp only [Lexer.finish?, complete, if_true]

/-- Whether a character cannot be part of a number that has begun. -/
def ends (c : Char) : Prop :=
  ∀ part : NumberPart, part.complete = true → part.step? c = none

/-- A number goes on with digits, a point or the letter of an exponent only. -/
theorem ends_of_ne {c : Char}
    (hc : c.isDigit = false ∧ c ≠ '.' ∧ c ≠ 'e' ∧ c ≠ 'E') : ends c := by
  obtain ⟨hdigit, hpoint, he, hE⟩ := hc
  intro part hpart
  cases part <;>
    simp [NumberPart.complete, NumberPart.step?, NumberPart.step?.afterWhole, hdigit, hpoint, he,
      hE] at hpart ⊢

/-- After a token, a character that is no part of it begins the next one. -/
theorem After.step? {lexer : Lexer} {done : List Token} {c : Char} (h : lexer.After done)
    (hc : (∃ t ∈ done.head?, t.isNumber = true) → ends c) :
    lexer.step? c = Lexer.step? ⟨.idle, done⟩ c := by
  cases h with
  | between => rfl
  | inNumber plain done complete =>
    have hend : ends c := hc ⟨_, rfl, rfl⟩
    simp only [Lexer.step?, hend _ complete, complete, if_true]

end Lexer

/-! ## Strings -/

/-- The pieces of a text, latest first. -/
def pieces (cs : List Char) : List Piece :=
  (cs.map Piece.char).reverse

/-- The pieces of a text denote the text. -/
theorem Piece.join?_pieces (cs : List Char) : Piece.join? (pieces cs) = some cs := by
  have hgo : ∀ (back done : List Char),
      Piece.join?.go done (back.map Piece.char) = some (back.reverse ++ done) := by
    intro back
    induction back with
    | nil => exact fun _ => rfl
    | cons c back ih =>
      intro done
      rw [List.map_cons, Piece.join?.go, ih, List.reverse_cons, List.append_assoc]
      rfl
  rw [pieces, ← List.map_reverse, Piece.join?, hgo]
  simp

/-- A hexadecimal digit has the value that it stands for. -/
theorem hexValue?_digitChar {d : Nat} (hd : d < 16) : hexValue? d.digitChar = some d := by
  interval_cases d <;> decide

/-- A character that is not half of a surrogate pair is denoted by its own code point. -/
theorem Piece.ofUnit_toNat {c : Char} (hc : c.toNat < 0x20) :
    Piece.ofUnit c.toNat = .char c := by
  have hhigh : isHighHalf c.toNat = false := by
    rw [isHighHalf, Bool.and_eq_false_iff, decide_eq_false_iff_not]
    omega
  have hlow : isLowHalf c.toNat = false := by
    rw [isLowHalf, Bool.and_eq_false_iff, decide_eq_false_iff_not]
    omega
  rw [Piece.ofUnit, hhigh, hlow]
  simp

variable {done : List Token}

/-- A control character is read back from the escape with its code point. -/
theorem foldlM_escape {c : Char} (hc : c.toNat < 0x20) (before : List Piece) :
    ['\\', 'u', '0', '0', Nat.digitChar (c.toNat / 16), Nat.digitChar (c.toNat % 16)].foldlM
      Lexer.step? ⟨.text before, done⟩ = some ⟨.text (.char c :: before), done⟩ := by
  have hfirst : hexValue? (Nat.digitChar (c.toNat / 16)) = some (c.toNat / 16) :=
    hexValue?_digitChar (by omega)
  have hsecond : hexValue? (Nat.digitChar (c.toNat % 16)) = some (c.toNat % 16) :=
    hexValue?_digitChar (by omega)
  have hzero : hexValue? '0' = some 0 := by decide
  have hvalue : c.toNat / 16 * 16 + c.toNat % 16 = c.toNat := by omega
  simp [Lexer.step?, hzero, hfirst, hsecond, hvalue, Piece.ofUnit_toNat hc]

/-- A character of a string is read back. -/
theorem foldlM_quoteChar (c : Char) (before : List Piece) :
    (quoteChar c).foldlM Lexer.step? ⟨.text before, done⟩ =
      some ⟨.text (.char c :: before), done⟩ := by
  unfold quoteChar
  split
  -- The escapes with one letter.
  iterate 7 rfl
  · rename_i hquote hbackslash _ _ _ _ _
    split
    · exact foldlM_escape ‹_› before
    · rename_i hc
      simp [Lexer.step?, hc, show c ≠ '"' from hquote, show c ≠ '\\' from hbackslash]

/-- The characters of a string are read back. -/
theorem foldlM_flatMap_quoteChar (cs before : List Char) :
    (cs.flatMap quoteChar).foldlM Lexer.step? ⟨.text (pieces before), done⟩ =
      some ⟨.text (pieces (before ++ cs)), done⟩ := by
  induction cs generalizing before with
  | nil => simp
  | cons c cs ih =>
    have hpieces : Piece.char c :: pieces before = pieces (before ++ [c]) := by
      simp [pieces]
    rw [List.flatMap_cons, List.foldlM_append, foldlM_quoteChar, hpieces]
    simpa using ih (before ++ [c])

/-- A string is read back. -/
theorem foldlM_quoted (cs : List Char) :
    ('"' :: cs.flatMap quoteChar ++ ['"']).foldlM Lexer.step? ⟨.idle, done⟩ =
      some ⟨.idle, .text (some cs) :: done⟩ := by
  have hopen : Lexer.step? ⟨.idle, done⟩ '"' = some ⟨.text (pieces []), done⟩ := rfl
  rw [List.cons_append, List.foldlM_cons, hopen]
  change ((cs.flatMap quoteChar) ++ ['"']).foldlM Lexer.step? ⟨.text (pieces []), done⟩ = _
  rw [List.foldlM_append, foldlM_flatMap_quoteChar]
  simp [Lexer.step?, Piece.join?_pieces]

/-! ## Numbers -/

/-- The digits of a positive number are read back. -/
theorem foldlM_digits_of_pos {n : Nat} (hn : 0 < n) :
    (Numeral.digits 10 n).foldlM Lexer.step? ⟨.idle, done⟩ =
      some ⟨.number .whole (some n), done⟩ := by
  induction n using Nat.strong_induction_on with
  | _ n ih =>
    rcases Nat.lt_or_ge n 10 with hsmall | hlarge
    · rw [Numeral.digits, Nat.toDigits_of_lt_base hsmall]
      interval_cases n <;> rfl
    · -- All digits but the last one are those of the quotient.
      have hdigit : (n % 10).digitChar.isDigit = true := by
        rw [Nat.isDigit_digitChar, decide_eq_true_iff]
        omega
      rw [Numeral.digits_of_le (by omega) hlarge, List.foldlM_append, ih _ (by omega) (by omega)]
      have hlast : (n % 10).digitChar.toNat - '0'.toNat = n % 10 :=
        Nat.toNat_digitChar_sub_48_of_lt_ten (by omega)
      have hvalue : n / 10 * 10 + ((n % 10).digitChar.toNat - '0'.toNat) = n := by
        rw [hlast]
        omega
      simp only [Option.bind_eq_bind, Option.bind_some, List.foldlM_cons, List.foldlM_nil,
        Lexer.step?, NumberPart.step?, hdigit, if_true, extendPlain, Option.map_some, hvalue]
      rfl

/-- The digits of a number are read back. -/
theorem foldlM_digits (n : Nat) :
    ∃ lexer, (Numeral.digits 10 n).foldlM Lexer.step? ⟨.idle, done⟩ = some lexer ∧
      lexer.After (.number (some n) :: done) := by
  rcases Nat.eq_zero_or_pos n with rfl | hpos
  · exact ⟨⟨.number .zero (some 0), done⟩, rfl, .inNumber _ done rfl⟩
  · exact ⟨_, foldlM_digits_of_pos hpos, .inNumber _ done rfl⟩

/-! ## Tokens -/

/-- Written between other tokens, a token is read back. -/
theorem foldlM_write (t : Token) :
    ∃ lexer, t.write.foldlM Lexer.step? ⟨.idle, done⟩ = some lexer ∧
      lexer.After (t :: done) := by
  cases t with
  | openObject | closeObject | openArray | closeArray | colon | comma | null =>
    exact ⟨_, rfl, .between _⟩
  | truth b => cases b <;> exact ⟨_, rfl, .between _⟩
  | text contents =>
    cases contents with
    | none => exact ⟨_, rfl, .between _⟩
    | some cs => exact ⟨_, foldlM_quoted cs, .between _⟩
  | number plain =>
    cases plain with
    | none => exact ⟨_, rfl, .inNumber none done rfl⟩
    | some n => exact foldlM_digits n

/-- The written form of a token begins with a character that is part of no number, unless the
token is a number. -/
theorem exists_write_eq_cons (t : Token) :
    ∃ c cs, t.write = c :: cs ∧ (t.isNumber = false → Lexer.ends c) := by
  cases t with
  | openObject | closeObject | openArray | closeArray | colon | comma | null =>
    exact ⟨_, _, rfl, fun _ => Lexer.ends_of_ne (by decide)⟩
  | truth b => cases b <;> exact ⟨_, _, rfl, fun _ => Lexer.ends_of_ne (by decide)⟩
  | text contents =>
    cases contents <;> exact ⟨_, _, rfl, fun _ => Lexer.ends_of_ne (by decide)⟩
  | number plain =>
    have hwrite : (Token.number plain).write ≠ [] := by
      cases plain with
      | none => exact List.cons_ne_nil _ _
      | some n => exact Numeral.digits_ne_nil 10 n
    obtain ⟨c, cs, h⟩ := List.exists_cons_of_ne_nil hwrite
    exact ⟨c, cs, h, fun hno => Bool.noConfusion hno⟩

/-- Written after other tokens, a token that may stand there is read back. -/
theorem Lexer.After.foldlM_write {lexer : Lexer} (h : lexer.After done) {t : Token}
    (hapart : ∀ a ∈ done.head?, a.Apart t) :
    ∃ next, t.write.foldlM Lexer.step? lexer = some next ∧ next.After (t :: done) := by
  obtain ⟨c, cs, hwrite, hends⟩ := exists_write_eq_cons t
  obtain ⟨next, hnext, hafter⟩ : ∃ next, t.write.foldlM Lexer.step? ⟨.idle, done⟩ = some next ∧
    next.After (t :: done) := Json.foldlM_write t
  refine ⟨next, ?_, hafter⟩
  rw [hwrite, List.foldlM_cons] at hnext ⊢
  rw [h.step? fun ⟨a, ha, hnumber⟩ => hends (hapart a ha hnumber)]
  exact hnext

/-- Written tokens are read after others. -/
theorem Lexer.After.foldlM_flatMap_write {lexer : Lexer} (h : lexer.After done)
    (ts : List Token) (hfirst : ∀ a ∈ done.head?, ∀ b ∈ ts.head?, a.Apart b)
    (hapart : ts.IsChain Token.Apart) :
    ∃ next, (ts.flatMap Token.write).foldlM Lexer.step? lexer = some next ∧
      next.After (ts.reverse ++ done) := by
  induction ts generalizing lexer done with
  | nil => exact ⟨lexer, rfl, h⟩
  | cons t ts ih =>
    obtain ⟨next, hnext, hafter⟩ := h.foldlM_write fun a ha => hfirst a ha t rfl
    obtain ⟨hhead, htail⟩ := List.isChain_cons.mp hapart
    obtain ⟨last, hlast, hdone⟩ := ih hafter (by rintro a ⟨⟩; exact hhead) htail
    refine ⟨last, ?_, by simpa using hdone⟩
    rw [List.flatMap_cons, List.foldlM_append, hnext]
    exact hlast

/-- Written tokens are read back. -/
theorem tokens?_flatMap_write {ts : List Token} (h : ts.IsChain Token.Apart) :
    tokens? (ts.flatMap Token.write) = some ts := by
  obtain ⟨last, hlast, hafter⟩ :=
    (Lexer.After.between []).foldlM_flatMap_write ts (by rintro a ⟨⟩) h
  rw [tokens?, hlast, Option.bind_some, hafter.finish?]
  simp

end BlockTransfer.Json
