/-!
# White space

The characters with the Unicode property `White_Space`, and the words they separate.
-/

namespace BlockTransfer.Text

/-- Whether a character has the Unicode property `White_Space`. -/
def isBlank (c : Char) : Bool :=
  let n := c.toNat
  (9 ≤ n && n ≤ 13) || n == 0x20 || n == 0x85 || n == 0xA0 || n == 0x1680 ||
    (0x2000 ≤ n && n ≤ 0x200A) || n == 0x2028 || n == 0x2029 || n == 0x202F || n == 0x205F ||
    n == 0x3000

/-- Words being split off a text: those that are complete, latest first, and the letters of the
one being read, latest first. -/
structure Splitting where
  /-- The complete words. -/
  done : List (List Char)
  /-- The letters of the word being read. -/
  current : List Char

/-- Completes the word being read, if it has letters. -/
def Splitting.close (s : Splitting) : Splitting :=
  if s.current.isEmpty then s else ⟨s.current.reverse :: s.done, []⟩

/-- Takes in one more character. -/
def Splitting.step (s : Splitting) (c : Char) : Splitting :=
  if isBlank c then s.close else { s with current := c :: s.current }

/-- The maximal runs of characters that are not white space, in order. -/
def words (text : List Char) : List (List Char) :=
  (text.foldl Splitting.step ⟨[], []⟩).close.done.reverse

end BlockTransfer.Text
