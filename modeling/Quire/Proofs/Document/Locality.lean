import Quire.Proofs.Document.Nested

/-!
# Documents in parts

A document is read line by line, so the lines of a first part decide what is read of it, but for the
block that is still open where the part ends. Only that block can take lines of the next part: a list
takes items, a table takes rows, and code takes every line (`OpenBlock.EndsBefore`).

**Where nothing is taken, two parts are read as each of them alone**; and whatever follows a part, all
of its blocks but the last one stay as they are (`read_parts`).
-/

namespace Quire.Document

open Quire.Highlight (Language)

variable {language : Language}

/-! ## 1. Where a part ends -/

/-- What is open after lines, if nothing was open before them. -/
def openAfter (language : Language) (lines : List String) : OpenBlock :=
  (readLines language .nothing (lines.map String.toList)).2

/-- Whether what is open takes none of the lines that follow: the first of them is no item if it is a
list, and no row if it is a table. Code may take any line. -/
def OpenBlock.EndsBefore : OpenBlock → List String → Prop
  | nothing, _ => True
  | list _, lines => ∀ line ∈ lines.head?, itemLine? line.toList = none
  | code _ _, _ => False
  | table _ _, lines => ∀ line ∈ lines.head?, rowLine? line.toList = none

/-- What ends before a line does not go on with it. -/
theorem OpenBlock.EndsBefore.continue?_eq_none {o : OpenBlock} {line : String} {lines : List String}
    (h : o.EndsBefore (line :: lines)) : o.continue? (.of (.ofRaw line.toList)) = none := by
  cases o with
  | nothing => rfl
  | code fence source => cases h
  | list items =>
      have hline : itemLine? line.toList = none := h line rfl
      rw [continue?_list, hline, Option.map_none]
  | table header rows =>
      have hline : rowLine? line.toList = none := h line rfl
      rw [continue?_table, hline, Option.map_none]

/-! ## 2. Two parts -/

/-- Lines are read up to the end of a first part, and then on from what is open there. -/
theorem finish_append (o : OpenBlock) (a b : List (List Char)) :
    finish language o (a ++ b) =
      (readLines language o a).1 ++ finish language (readLines language o a).2 b := by
  rw [finish, finish, readLines_append]
  exact List.append_assoc _ _ _

theorem blocksOfLines_append (a b : List String) :
    blocksOfLines language (a ++ b) =
      (readLines language .nothing (a.map String.toList)).1 ++
        finish language (openAfter language a) (b.map String.toList) := by
  rw [blocksOfLines_eq_finish, List.map_append, finish_append]
  rfl

/-- **What ends before lines is closed there, and the lines are read with nothing open.** -/
theorem finish_of_endsBefore {o : OpenBlock} {lines : List String} (h : o.EndsBefore lines) :
    finish language o (lines.map String.toList) =
      o.close language ++ blocksOfLines language lines := by
  cases lines with
  | nil => exact (List.append_nil _).symm
  | cons line lines =>
      have hcode : ∀ kind source, o ≠ .code kind source := by
        rintro kind source rfl
        cases h
      exact finish_of_continue?_eq_none (lines.map String.toList) hcode h.continue?_eq_none

/-- **Two parts are read as each of them alone**, if what is open after the first takes nothing of the
second. -/
theorem blocksOfLines_append_of_endsBefore {a b : List String}
    (h : (openAfter language a).EndsBefore b) :
    blocksOfLines language (a ++ b) = blocksOfLines language a ++ blocksOfLines language b := by
  rw [blocksOfLines_append, finish_of_endsBefore h, ← List.append_assoc]
  rfl

/-- What is open is closed as one block at most. -/
theorem OpenBlock.close_eq (language : Language) (o : OpenBlock) :
    o.close language = [] ∨ ∃ b, o.close language = [b] := by
  cases o with
  | nothing => exact .inl rfl
  | list items => exact .inr ⟨_, rfl⟩
  | code fence source => exact .inr ⟨_, rfl⟩
  | table header rows => exact .inr ⟨_, rfl⟩

/-- **All blocks of lines but the last one are finished when the lines are read.** -/
theorem dropLast_finish_isPrefix (o : OpenBlock) (lines : List (List Char)) :
    (finish language o lines).dropLast <+: (readLines language o lines).1 := by
  rw [finish]
  rcases (readLines language o lines).2.close_eq language with h | ⟨b, h⟩
  · rw [h, List.append_nil]
    exact List.dropLast_prefix _
  · rw [h]
    exact ⟨[], (List.append_nil _).trans List.dropLast_concat⟩

/-- **Reading is local.** If what is open after a first part takes no line of the second, the two come
to the blocks of the first and then those of the second. And whatever follows, the blocks of the first
part are there, with the exception of its last one. -/
theorem read_parts (language : Language) (a b : List String) :
    ((openAfter language a).EndsBefore b →
      blocksOfLines language (a ++ b) = blocksOfLines language a ++ blocksOfLines language b) ∧
    (blocksOfLines language a).dropLast <+: blocksOfLines language (a ++ b) := by
  constructor
  · exact blocksOfLines_append_of_endsBefore
  · rw [blocksOfLines_append]
    exact (dropLast_finish_isPrefix .nothing (a.map String.toList)).trans (List.prefix_append _ _)

/-- A list ends before a row. -/
theorem read_parts_list :
    (openAfter .csharp ["# A", "- x"]).EndsBefore ["|1|", "- y"] ∧
      blocksOfLines .csharp ["# A", "- x", "|1|", "- y"] =
        blocksOfLines .csharp ["# A", "- x"] ++ blocksOfLines .csharp ["|1|", "- y"] := by
  have hopen : openAfter .csharp ["# A", "- x"] = .list ["x"] := by decide +kernel
  have hrow : itemLine? "|1|".toList = none := by decide +kernel
  have hends : (openAfter .csharp ["# A", "- x"]).EndsBefore ["|1|", "- y"] := by
    rw [hopen]
    rintro line ⟨⟩
    exact hrow
  exact ⟨hends, (read_parts .csharp ["# A", "- x"] ["|1|", "- y"]).1 hends⟩

end Quire.Document
