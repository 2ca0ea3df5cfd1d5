import BlockTransfer.Text.Blank
import Mathlib.Data.List.Basic

/-!
# Words and the spaces between them

Words that are joined by single spaces are found again when the text is split.

## Main results

* `words_intercalate`: splitting the words of a list, joined by spaces, gives the list.
-/

namespace BlockTransfer.Text

/-- A word: at least one character, and no white space. -/
def IsWord (w : List Char) : Prop :=
  w ≠ [] ∧ ∀ c ∈ w, isBlank c = false

/-- A digit is not white space. -/
theorem isBlank_of_isDigit {c : Char} (h : c.isDigit) : isBlank c = false := by
  have hc : 48 ≤ c.toNat ∧ c.toNat ≤ 57 := by
    simpa [Char.isDigit, UInt32.le_iff_toNat_le] using h
  unfold isBlank
  simp only [Bool.or_eq_false_iff, Bool.and_eq_false_iff, decide_eq_false_iff_not,
    beq_eq_false_iff_ne]
  omega

/-- The characters of a word are collected, the latest first. -/
theorem foldl_step_of_forall {w : List Char} (h : ∀ c ∈ w, isBlank c = false)
    (done : List (List Char)) (current : List Char) :
    w.foldl Splitting.step ⟨done, current⟩ = ⟨done, w.reverse ++ current⟩ := by
  induction w generalizing current with
  | nil => rfl
  | cons c w ih =>
    have hc : isBlank c = false := h c List.mem_cons_self
    rw [List.foldl_cons, Splitting.step, hc]
    simp only [Bool.false_eq_true, if_false]
    rw [ih fun d hd => h d (List.mem_cons_of_mem c hd)]
    simp

/-- The words that are complete do not influence how the text goes on. -/
theorem foldl_step_done (text : List Char) (done : List (List Char)) (current : List Char) :
    text.foldl Splitting.step ⟨done, current⟩ =
      ⟨(text.foldl Splitting.step ⟨[], current⟩).done ++ done,
        (text.foldl Splitting.step ⟨[], current⟩).current⟩ := by
  induction text generalizing done current with
  | nil => rfl
  | cons c text ih =>
    simp only [List.foldl_cons, Splitting.step, Splitting.close]
    split
    · split
      · exact ih done current
      · -- The word that ends here joins those that are complete.
        rw [ih (current.reverse :: done) [], ih [current.reverse] []]
        simp
    · exact ih done (c :: current)

/-- A word alone is found. -/
theorem words_of_isWord {w : List Char} (h : IsWord w) : words w = [w] := by
  rw [words, foldl_step_of_forall h.2]
  have hne : w.reverse.isEmpty = false := by simp [h.1]
  simp [Splitting.close, hne]

/-- A word before a space is found, and the rest of the text is split by itself. -/
theorem words_append_space {w : List Char} (h : IsWord w) (text : List Char) :
    words (w ++ ' ' :: text) = w :: words text := by
  have hne : w.reverse.isEmpty = false := by simp [h.1]
  have hspace : Splitting.step ⟨[], w.reverse⟩ ' ' = ⟨[w], []⟩ := by
    have hblank : isBlank ' ' = true := by decide
    rw [Splitting.step, hblank]
    simp [Splitting.close, hne]
  rw [words, List.foldl_append, foldl_step_of_forall h.2, List.append_nil, List.foldl_cons,
    hspace, foldl_step_done]
  simp only [words, Splitting.close]
  split <;> simp

/-- Words that are joined by spaces are found again. -/
theorem words_intercalate (ws : List (List Char)) (h : ∀ w ∈ ws, IsWord w) :
    words ([' '].intercalate ws) = ws := by
  induction ws with
  | nil => rfl
  | cons w ws ih =>
    have hw : IsWord w := h w List.mem_cons_self
    have hrest := ih fun v hv => h v (List.mem_cons_of_mem w hv)
    -- The last word has no space behind it.
    cases ws with
    | nil =>
      rw [List.intercalate_singleton]
      exact words_of_isWord hw
    | cons v ws =>
      rw [List.intercalate_cons_cons, List.append_assoc, List.singleton_append,
        words_append_space hw, hrest]

/-- What stands in joined words stands in one of them or in the separator. -/
theorem mem_or_mem_of_mem_intercalate {α : Type} {sep : List α} {ws : List (List α)} {c : α}
    (h : c ∈ sep.intercalate ws) : c ∈ sep ∨ ∃ w ∈ ws, c ∈ w := by
  induction ws with
  | nil => simp at h
  | cons w ws ih =>
    cases ws with
    | nil => exact .inr ⟨w, List.mem_singleton_self w, by simpa using h⟩
    | cons v ws =>
      simp only [List.intercalate_cons_cons, List.mem_append] at h
      rcases h with (h | h) | h
      · exact .inr ⟨w, List.mem_cons_self, h⟩
      · exact .inl h
      · rcases ih h with h | ⟨u, hu, hc⟩
        · exact .inl h
        · exact .inr ⟨u, List.mem_cons_of_mem w hu, hc⟩

end BlockTransfer.Text
