/-!
# Marks in a line

Inline marks are short runs of characters that open and close something on one line. This file fixes
how a mark is taken off the front of a text (`dropMark?`) and how the text up to the next mark is
read (`upTo?`): **the shortest text before the mark, on one line.** Both hand on what follows, and
what follows is never longer than what was read.
-/

namespace Quire.Text

/-- What follows a mark at the front of a text. -/
def dropMark? : List Char → List Char → Option (List Char)
  | [], s => some s
  | _ :: _, [] => none
  | m :: ms, c :: cs => if m = c then dropMark? ms cs else none

/-- The text up to the first place where a mark stands, and what follows the mark. A line feed ends
the search. -/
def upTo? (mark : List Char) : List Char → Option (List Char × List Char)
  | [] => (dropMark? mark []).map ([], ·)
  | c :: cs =>
    match dropMark? mark (c :: cs) with
    | some rest => some ([], rest)
    | none => if c = '\n' then none else (upTo? mark cs).map fun (a, rest) => (c :: a, rest)

/-- **A mark that is taken off is what the text began with.** -/
theorem eq_append_of_dropMark? {mark s rest : List Char} (h : dropMark? mark s = some rest) :
    s = mark ++ rest := by
  induction mark generalizing s with
  | nil => simpa [dropMark?] using h
  | cons m ms ih =>
    cases s with
    | nil => simp [dropMark?] at h
    | cons c cs =>
      simp only [dropMark?] at h
      split at h
      · rename_i hm
        subst hm
        simp [ih h]
      · simp at h

/-- **What is read up to a mark, the mark and what follows make up the text.** -/
theorem eq_append_of_upTo? {mark s a rest : List Char} (h : upTo? mark s = some (a, rest)) :
    s = a ++ mark ++ rest := by
  induction s generalizing a with
  | nil =>
    simp only [upTo?, Option.map_eq_some_iff, Prod.mk.injEq] at h
    obtain ⟨r, hr, rfl, rfl⟩ := h
    simpa using eq_append_of_dropMark? hr
  | cons c cs ih =>
    simp only [upTo?] at h
    split at h
    · rename_i hr
      simp only [Option.some.injEq, Prod.mk.injEq] at h
      obtain ⟨rfl, rfl⟩ := h
      simpa using eq_append_of_dropMark? hr
    · split at h
      · simp at h
      · simp only [Option.map_eq_some_iff, Prod.mk.injEq] at h
        obtain ⟨⟨b, r⟩, hr, rfl, rfl⟩ := h
        simp [ih hr]

/-- What follows a mark is shorter by the mark. -/
theorem length_of_dropMark? {mark s rest : List Char} (h : dropMark? mark s = some rest) :
    s.length = mark.length + rest.length := by
  rw [eq_append_of_dropMark? h, List.length_append]

/-- What follows the next mark is shorter by what was read and the mark. -/
theorem length_of_upTo? {mark s a rest : List Char} (h : upTo? mark s = some (a, rest)) :
    s.length = a.length + mark.length + rest.length := by
  rw [eq_append_of_upTo? h, List.length_append, List.length_append]

end Quire.Text
