import Quire.Text.Mark

/-!
# Emphasis

Strong and light emphasis are written by marks around a text and become tags around it. Strong
emphasis has two stars or two low lines at either end, light emphasis one. A text between marks is
the shortest there is, lies on one line, and may be empty. Marks are read from left to right, and
what has become a tag is not read again.

A line of low lines, of hyphens or of stars alone is no text but a rule.
-/

namespace Quire.Document

open Quire.Text

/-! ## 1. Styles -/

/-- A kind of emphasis: the marks that enclose it, each closed by itself, and the tags it becomes. -/
structure Style where
  marks : List (List Char)
  openTag : List Char
  closeTag : List Char
  /-- No mark is empty. -/
  marks_ne : ∀ m ∈ marks, 0 < m.length := by decide

namespace Style

/-- Strong emphasis. -/
def bold : Style where
  marks := [['*', '*'], ['_', '_']]
  openTag := ['<', 'b', '>']
  closeTag := ['<', '/', 'b', '>']

/-- Light emphasis. -/
def italic : Style where
  marks := [['*'], ['_']]
  openTag := ['<', 'i', '>']
  closeTag := ['<', '/', 'i', '>']

/-- The text that the first fitting mark encloses at the front of `s`, and what follows it. -/
def enclosed? : List (List Char) → List Char → Option (List Char × List Char)
  | [], _ => none
  | m :: ms, s =>
    match (dropMark? m s).bind (upTo? m) with
    | some found => some found
    | none => enclosed? ms s

/-- What follows an enclosed text is shorter than the text it was read from. -/
theorem length_lt_of_enclosed? {marks : List (List Char)} (hm : ∀ m ∈ marks, 0 < m.length)
    {s a rest : List Char} (h : enclosed? marks s = some (a, rest)) : rest.length < s.length := by
  induction marks with
  | nil => simp [enclosed?] at h
  | cons m ms ih =>
    simp only [enclosed?] at h
    split at h
    · rename_i found hf
      simp only [Option.some.injEq] at h
      subst h
      obtain ⟨t, ht, hu⟩ := Option.bind_eq_some_iff.1 hf
      have h1 := length_of_dropMark? ht
      have h2 := length_of_upTo? hu
      have h3 := hm m (by simp)
      omega
    · exact ih (fun m' h' => hm m' (by simp [h'])) h

/-- A text with every enclosed part of it between tags. -/
def apply (style : Style) : List Char → List Char
  | [] => []
  | c :: cs =>
    match _h : enclosed? style.marks (c :: cs) with
    | some (a, rest) => style.openTag ++ a ++ style.closeTag ++ apply style rest
    | none => c :: apply style cs
  termination_by s => s.length
  decreasing_by
    · exact length_lt_of_enclosed? style.marks_ne _h
    · simp

end Style

/-! ## 2. Rules -/

/-- Whether a text is one mark of the three, repeated. -/
def isRule (s : List Char) : Bool :=
  !s.isEmpty && (s.all (· == '_') || s.all (· == '-') || s.all (· == '*'))

end Quire.Document
