/-!
# Lines

A text is read as lines. A line ends at a line feed, and a carriage return directly before that
line feed belongs to the ending too. What follows the last line feed is a line only if it is not
empty, so a text that ends in a line feed has no empty line after it. A carriage return anywhere
else is text.

A long text may be kept as a `Rope`, in pieces that are cut without regard to lines. Reading the
pieces gives the lines of the whole: a line carries over from one piece into the next.
-/

namespace Quire.Text

/-! ## 1. The lines of a text -/

/-- A line without the carriage return that was part of its ending. -/
def dropReturn (line : List Char) : List Char :=
  match line.reverse with
  | '\r' :: r => r.reverse
  | _ => line

/-- The lines of `s`, where `held` is what the first of them already holds, last character
first. -/
def linesFrom (held : List Char) : List Char → List (List Char)
  | [] => if held.isEmpty then [] else [held.reverse]
  | c :: rest =>
    if c = '\n' then dropReturn held.reverse :: linesFrom [] rest
    else linesFrom (c :: held) rest

/-- The lines of a text. -/
def lines (s : String) : List String :=
  (linesFrom [] s.toList).map String.ofList

/-- **A finished line is followed by the lines of the rest.** -/
theorem linesFrom_append_newline (l held rest : List Char) (h : '\n' ∉ l) :
    linesFrom held (l ++ '\n' :: rest)
      = dropReturn (held.reverse ++ l) :: linesFrom [] rest := by
  induction l generalizing held with
  | nil => simp [linesFrom]
  | cons c cs ih =>
    simp only [List.mem_cons, not_or] at h
    simp only [List.cons_append, linesFrom]
    rw [if_neg (fun e => h.1 e.symm), ih (c :: held) h.2]
    simp

/-! ## 2. Text kept in pieces -/

/-- A text kept in pieces. -/
structure Rope where
  pieces : List String

namespace Rope

/-- The most characters one piece of a rope is given when a text is cut up. -/
def pieceLength : Nat := 512

/-- The characters of a text in pieces of at most `pieceLength`. The first argument bounds the
number of pieces. -/
def cut : Nat → List Char → List String
  | 0, s => [String.ofList s]
  | _ + 1, [] => []
  | n + 1, s => String.ofList (s.take pieceLength) :: cut n (s.drop pieceLength)

/-- A text cut into pieces. -/
def ofString (s : String) : Rope :=
  ⟨cut s.length s.toList⟩

/-- The whole text of a rope. -/
def text (r : Rope) : String :=
  String.join r.pieces

/-- The line that is open after a piece, last character first, and the lines the piece finished. -/
def feed (held : List Char) : List Char → List (List Char) × List Char
  | [] => ([], held)
  | c :: rest =>
    if c = '\n' then
      let (done, open') := feed [] rest
      (dropReturn held.reverse :: done, open')
    else feed (c :: held) rest

/-- The lines of the remaining pieces, where `held` is the line left open by those before. -/
def linesOf (held : List Char) : List String → List (List Char)
  | [] => if held.isEmpty then [] else [held.reverse]
  | p :: ps =>
    let (done, open') := feed held p.toList
    done ++ linesOf open' ps

/-- The lines of a rope. -/
def lines (r : Rope) : List String :=
  (linesOf [] r.pieces).map String.ofList

end Rope

end Quire.Text
