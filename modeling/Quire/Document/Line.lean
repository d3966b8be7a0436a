import Quire.Document.Emphasis
import Quire.Text.Blank
import Quire.Text.Split

/-!
# Lines of a document

What a line is, judged on its own. A line is first trimmed; if it is a rule it is nothing else, and
otherwise its emphasis is turned into tags (`MarkedLine.ofRaw`). Then the first test that fits says
what it is (`LineClass.of`): a list item, a heading of one of three levels, a fence, a quote, a table
row, and text if nothing else fits.

The tests are functions of their own, since a fence is closed, and a table read, by the same tests.
-/

namespace Quire.Document

open Quire.Text

/-! ## 1. Marked lines -/

/-- A line that is trimmed and has its emphasis in tags. -/
inductive MarkedLine where
  | rule
  | text (s : List Char)
  deriving Repr, DecidableEq

/-- A line as it was written, marked. -/
def MarkedLine.ofRaw (raw : List Char) : MarkedLine :=
  let s := trim raw
  if isRule s then .rule else .text (Style.italic.apply (Style.bold.apply s))

/-! ## 2. What a line may open -/

/-- The text of a list item: what follows a star or a hyphen, trimmed. -/
def listItem? : List Char → Option (List Char)
  | '*' :: rest => some (trim rest)
  | '-' :: rest => some (trim rest)
  | _ => none

/-- The deepest heading there is. -/
def maxHeadingLevel : Nat := 3

/-- The level and the text of a heading: one to three number signs, and then nothing or a blank and
the text. -/
def heading? (s : List Char) : Option (Nat × List Char) :=
  let level := (s.takeWhile (· == '#')).length
  let rest := s.dropWhile (· == '#')
  if level = 0 || maxHeadingLevel < level then none
  else
    match rest with
    | [] => some (level, [])
    | c :: _ => if isBlank c then some (level, trim rest) else none

/-- The marks of which a fence may be made. -/
inductive Fence where
  | backticks
  | tildes
  deriving Repr, DecidableEq

/-- The characters of a fence. -/
def Fence.mark : Fence → List Char
  | backticks => ['\x60', '\x60', '\x60']
  | tildes => ['~', '~', '~']

/-- The fence that a line is, whatever follows its mark. -/
def fence? (s : List Char) : Option Fence :=
  [Fence.backticks, Fence.tildes].find? fun f => (dropMark? f.mark (trim s)).isSome

/-- Whether a line closes a fence: it is a fence of the same kind. -/
def Fence.closes (f : Fence) (s : List Char) : Bool :=
  fence? s == some f

/-- The text of a quote: what follows an angle bracket, trimmed. -/
def quote? : List Char → Option (List Char)
  | '>' :: rest => some (trim rest)
  | _ => none

/-- Whether a line is a table row. -/
def isTableRow : List Char → Bool
  | '|' :: _ => true
  | _ => false

/-- The cells of a table row: its parts between bars, trimmed, without the empty ones. -/
def cells (s : List Char) : List (List Char) :=
  ((splitOn '|' s).map trim).filter fun cell => !cell.isEmpty

/-- Whether a table row separates a header from what follows: bars at both ends, and between two bars
nothing but hyphens, at least one. -/
def isSeparator (s : List Char) : Bool :=
  match splitOn '|' s with
  | [] :: parts =>
    match parts.reverse with
    | [] :: inner => !inner.isEmpty && inner.all fun p => !p.isEmpty && p.all (· == '-')
    | _ => false
  | _ => false

/-! ## 3. Classes -/

/-- What a marked line is. -/
inductive LineClass where
  | rule
  | listItem (text : List Char)
  | heading (level : Nat) (text : List Char)
  | fence (kind : Fence)
  | quote (text : List Char)
  | tableRow (row : List Char)
  | text (s : List Char)
  deriving Repr, DecidableEq

/-- The class of a text that is no rule: the first test that fits decides. -/
def LineClass.ofText (s : List Char) : LineClass :=
  match listItem? s with
  | some item => .listItem item
  | none =>
    match heading? s with
    | some (level, title) => .heading level title
    | none =>
      match fence? s with
      | some kind => .fence kind
      | none =>
        match quote? s with
        | some body => .quote body
        | none => if isTableRow s then .tableRow s else .text s

/-- The class of a marked line. -/
def LineClass.of : MarkedLine → LineClass
  | .rule => .rule
  | .text s => .ofText s

end Quire.Document
