import Quire.Document.Block
import Quire.Document.Line
import Quire.Document.Link
import Quire.Notice
import Quire.Text.Lines

/-!
# Reading a document

A document is read line by line. Lists, code and tables take several lines and stay open
(`OpenBlock`) while lines go on with them; every other line is a block, or several, by itself. A line
that does not go on with what is open closes it and is then read as a fresh line, so nothing is lost
between two blocks. Within code, lines are kept as they were written until a fence of the same kind
closes it, and that fence is used up.

* `OpenBlock.push` is what one line does: the blocks it finishes, and what is open after it;
* `readLines` pushes the lines one after another, and `blocksOfLines` closes what is open at the end.
-/

namespace Quire.Document

open Quire.Highlight (Language)

/-! ## 1. What is open between two lines -/

/-- A block that may go on. -/
inductive OpenBlock where
  | nothing
  | list (items : List String)
  | code (fence : Fence) (source : String)
  | table (header : List String) (rows : List (List String))
  deriving Repr, DecidableEq

/-- The blocks of a text that is no other block: a paragraph with its links turned into anchors; or,
if it has images, these and the texts between them. -/
def textBlocks (s : List Char) : List Block :=
  match splitImages? s with
  | none => [.paragraph (String.ofList (substitute s))]
  | some pieces =>
    pieces.map fun
      | .text t => .paragraph (String.ofList (substitute t))
      | .image alt path => .image (String.ofList alt) (String.ofList path)

/-- A table with one more row. A separator makes the last row the header, if there is one, and drops
the rows before it. -/
def addRow (header : List String) (rows : List (List String)) (row : List Char) :
    List String × List (List String) :=
  if isSeparator row then
    match rows.getLast? with
    | some last => (last, [])
    | none => (header, [])
  else (header, rows ++ [(cells row).map String.ofList])

namespace OpenBlock

/-- The block that is finished when what is open is closed. -/
def close (language : Language) : OpenBlock → List Block
  | nothing => []
  | list items => [.unorderedList items]
  | code _ source => [.code language source]
  | table header rows => [.table header rows]

/-- What is open after a line that goes on with it; none if the line does not. -/
def continue? : OpenBlock → LineClass → Option OpenBlock
  | list items, .listItem item => some (list (items ++ [String.ofList item]))
  | table header rows, .tableRow row =>
    let (header, rows) := addRow header rows row
    some (table header rows)
  | _, _ => none

/-- The blocks of a fresh line, and what is open after it. -/
def opening : LineClass → List Block × OpenBlock
  | .rule => ([.horizontalRule], nothing)
  | .listItem item => ([], list [String.ofList item])
  | .heading level text => ([.heading level (String.ofList text)], nothing)
  | .fence kind => ([], code kind "")
  | .quote text => ([.blockQuote (String.ofList text)], nothing)
  | .tableRow row =>
    let (header, rows) := addRow [] [] row
    ([], table header rows)
  | .text s => (textBlocks s, nothing)

/-- The blocks that a line outside code finishes, and what is open after it. -/
def pushClass (language : Language) (o : OpenBlock) (c : LineClass) : List Block × OpenBlock :=
  match o.continue? c with
  | some o' => ([], o')
  | none =>
    let (blocks, o') := opening c
    (o.close language ++ blocks, o')

/-- The blocks that a line finishes, and what is open after it. -/
def push (language : Language) (o : OpenBlock) (raw : List Char) : List Block × OpenBlock :=
  match o with
  | code fence source =>
    if fence.closes raw then (o.close language, nothing)
    else ([], code fence (source ++ String.ofList raw ++ "\n"))
  | o => o.pushClass language (.of (.ofRaw raw))

end OpenBlock

/-! ## 2. Many lines -/

/-- The blocks that lines finish, and what is open after them. -/
def readLines (language : Language) : OpenBlock → List (List Char) → List Block × OpenBlock
  | o, [] => ([], o)
  | o, line :: lines =>
    let (blocks, o) := o.push language line
    let (more, o) := readLines language o lines
    (blocks ++ more, o)

/-- The blocks of a document that is given as lines. -/
def blocksOfLines (language : Language) (lines : List String) : List Block :=
  let (blocks, o) := readLines language .nothing (lines.map String.toList)
  blocks ++ o.close language

/-- **Lines are read one part after the other.** -/
theorem readLines_append (language : Language) (o : OpenBlock) (a b : List (List Char)) :
    readLines language o (a ++ b) =
      ((readLines language o a).1 ++ (readLines language (readLines language o a).2 b).1,
        (readLines language (readLines language o a).2 b).2) := by
  induction a generalizing o with
  | nil => simp [readLines]
  | cons l ls ih => simp [readLines, ih]

/-! ## 3. Documents -/

/-- The blocks of a text. -/
def ofString (language : Language) (text : String) : List Block :=
  blocksOfLines language (Text.lines text)

/-- The blocks of a text that is kept in pieces. -/
def ofRope (language : Language) (text : Text.Rope) : List Block :=
  blocksOfLines language text.lines

/-! ## 4. What there is to report -/

/-- What there is to report about the reading of a document. -/
inductive Report where
  /-- The text ended within code; this many bytes of it had been read. -/
  | codeLeftOpen (bytes : Nat)
  /-- So many lines came to so many blocks. -/
  | parsed (lines blocks : Nat)
  deriving Repr, DecidableEq

/-- A report in words. -/
def Report.notice : Report → Notice
  | codeLeftOpen bytes => ⟨.debug, s!"code fence left open at end of input ({bytes} bytes)"⟩
  | parsed lines blocks => ⟨.trace, s!"parsed {lines} lines into {blocks} blocks"⟩

/-- What there is to report of a block that is open when the lines are at an end. -/
def OpenBlock.endReports : OpenBlock → List Report
  | code _ source => [.codeLeftOpen source.utf8ByteSize]
  | _ => []

/-- The blocks of a document that is given as lines, and what there is to report. -/
def read (language : Language) (lines : List String) : List Block × List Report :=
  let (blocks, o) := readLines language .nothing (lines.map String.toList)
  let blocks := blocks ++ o.close language
  (blocks, o.endReports ++ [.parsed lines.length blocks.length])

end Quire.Document
