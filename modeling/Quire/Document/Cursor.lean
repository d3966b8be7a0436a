import Quire.Text.Lines

/-!
# Line cursors

A cursor goes over lines in one direction. Before the first step it stands on nothing, and its
current line is empty; a step past the last line is refused and leaves it where it is.
-/

namespace Quire.Document

/-- A cursor over lines: those that are behind it, the last one first, and those ahead. -/
structure Cursor where
  passed : List String
  ahead : List String
  deriving Repr, DecidableEq

namespace Cursor

/-- The cursor before lines. -/
def ofLines (lines : List String) : Cursor :=
  ⟨[], lines⟩

/-- The cursor before the lines of a text. -/
def ofString (text : String) : Cursor :=
  ofLines (Text.lines text)

/-- The cursor before the lines of a text in pieces. -/
def ofRope (text : Text.Rope) : Cursor :=
  ofLines text.lines

/-- The line last read; empty if none has been. -/
def current (c : Cursor) : String :=
  c.passed.head?.getD ""

/-- The number of the current line, counted from one; zero before the first. -/
def lineNumber (c : Cursor) : Nat :=
  c.passed.length

/-- Whether every line has been read. -/
def isExhausted (c : Cursor) : Bool :=
  c.ahead.isEmpty

/-- One step: whether there was a line to read, and the cursor after it. -/
def advance (c : Cursor) : Bool × Cursor :=
  match c.ahead with
  | [] => (false, c)
  | line :: rest => (true, ⟨line :: c.passed, rest⟩)

/-- **A step neither loses a line nor changes the order of lines.** -/
theorem advance_lines (c : Cursor) :
    c.advance.2.passed.reverse ++ c.advance.2.ahead = c.passed.reverse ++ c.ahead := by
  unfold advance
  split <;> simp_all

end Cursor

end Quire.Document
