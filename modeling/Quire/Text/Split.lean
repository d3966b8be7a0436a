/-!
# Splitting text at a character

The parts of a text between the places where one character stands. There is always one part more
than there are such places. **Joining the parts with that character gives the text back.**
-/

namespace Quire.Text

/-- The parts of a text between the places where `sep` stands. -/
def splitOn (sep : Char) : List Char → List (List Char)
  | [] => [[]]
  | c :: cs =>
    match splitOn sep cs with
    | part :: parts => if c = sep then [] :: part :: parts else (c :: part) :: parts
    | [] => [[c]]

/-- There is always a first part. -/
theorem splitOn_ne_nil (sep : Char) (s : List Char) : splitOn sep s ≠ [] := by
  cases s with
  | nil => simp [splitOn]
  | cons c cs =>
    unfold splitOn
    split
    · split <;> simp
    · simp

/-- **Joining the parts gives the text back.** -/
theorem intercalate_splitOn (sep : Char) (s : List Char) :
    [sep].intercalate (splitOn sep s) = s := by
  induction s with
  | nil => rfl
  | cons c cs ih =>
    unfold splitOn
    split
    · rename_i part parts hp
      rw [hp] at ih
      split
      · rename_i hc
        subst hc
        cases parts <;> simpa [List.intercalate, List.intersperse] using ih
      · cases parts <;> simpa [List.intercalate, List.intersperse] using ih
    · rename_i hp
      exact absurd hp (splitOn_ne_nil sep cs)

/-- No part has the character at which the text was split. -/
theorem not_mem_of_mem_splitOn {sep : Char} {s part : List Char} (h : part ∈ splitOn sep s) :
    sep ∉ part := by
  induction s generalizing part with
  | nil => simp only [splitOn, List.mem_singleton] at h; simp [h]
  | cons c cs ih =>
    unfold splitOn at h
    split at h
    · rename_i first parts hp
      rw [hp] at ih
      split at h
      · simp only [List.mem_cons] at h
        rcases h with rfl | h
        · simp
        · exact ih (by simpa using h)
      · rename_i hc
        simp only [List.mem_cons] at h
        rcases h with rfl | h
        · have : sep ∉ first := ih (by simp)
          simp only [List.mem_cons, not_or]
          exact ⟨fun e => hc e.symm, this⟩
        · exact ih (by simp [h])
    · rename_i hp
      exact absurd hp (splitOn_ne_nil sep cs)

end Quire.Text
