import Quire.Text.Band

/-!
# Blank characters and trimming

A character is blank when Unicode gives it the property White_Space: the five controls from tab to
carriage return, the space, next line, the no-break space and the wide spaces. Trimming takes the
blank characters off one end or off both. **A text that was trimmed starts with no blank.**
-/

namespace Quire.Text

/-! ## 1. The class -/

/-- The edges of the blank characters. -/
def blankBands : List Nat :=
   [0x9, 0xe, 0x20, 0x21, 0x85, 0x86, 0xa0, 0xa1, 0x1680, 0x1681, 0x2000, 0x200b, 0x2028, 0x202a,
    0x202f, 0x2030, 0x205f, 0x2060, 0x3000, 0x3001]

/-- Whether a character is blank. -/
def isBlank (c : Char) : Bool :=
  inBands blankBands c.toNat

/-- Every character the standard library calls white space is blank here. -/
theorem isBlank_of_isWhitespace {c : Char} (h : c.isWhitespace = true) : isBlank c = true := by
  simp only [Char.isWhitespace, Bool.or_eq_true, decide_eq_true_eq] at h
  rcases h with ((rfl | rfl) | rfl) | rfl <;> decide

/-! ## 2. Trimming -/

/-- The text without the blanks it starts with. -/
def trimStart (s : List Char) : List Char :=
  s.dropWhile isBlank

/-- The text without the blanks it ends with. -/
def trimEnd (s : List Char) : List Char :=
  (s.reverse.dropWhile isBlank).reverse

/-- The text without the blanks at either end. -/
def trim (s : List Char) : List Char :=
  trimEnd (trimStart s)

/-- A trimmed string. -/
def trimmed (s : String) : String :=
  String.ofList (trim s.toList)

/-- **What is left after trimming the start is empty or starts with no blank.** -/
theorem isBlank_head_trimStart {s : List Char} {c : Char} {r : List Char}
    (h : trimStart s = c :: r) : isBlank c = false := by
  induction s with
  | nil => simp [trimStart] at h
  | cons d ds ih =>
    simp only [trimStart, List.dropWhile_cons] at h
    split at h
    · exact ih h
    · rename_i hd
      simp only [List.cons.injEq] at h
      rw [← h.1]
      simpa using hd

end Quire.Text
