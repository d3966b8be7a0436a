import Quire.Document.Block
import Quire.Text.Quoted

/-!
# Well-formed documents

What every document that was read from a text satisfies: headings have one of the three levels; the
texts of headings, paragraphs, quotes and list items are single lines; no list is empty; the source
of a code block ends in a line feed unless it is empty; and no cell of a table is empty or holds a
bar. `violation?` finds the first breach in reading order.
-/

namespace Quire.Document

open Quire.Text (quoted)

/-- A breach of form in a block. -/
inductive Breach where
  | levelOutOfRange (level : Nat)
  | textSpansLines (text : String)
  | emptyList
  | sourceNotTerminated (source : String)
  | badCell (cell : String)
  deriving Repr, DecidableEq

/-- What is said of a breach in the block with the given number. -/
def Breach.message (number : Nat) : Breach → String
  | levelOutOfRange level => s!"block {number}: heading level {level} out of range"
  | textSpansLines text => s!"block {number}: text spans lines: {quoted text}"
  | emptyList => s!"block {number}: empty list"
  | sourceNotTerminated source =>
    s!"block {number}: code source not line-terminated: {quoted source}"
  | badCell cell => s!"block {number}: bad table cell {quoted cell}"

/-- The breach of a text that is to be one line. -/
def spansLines? (text : String) : Option Breach :=
  if '\n' ∈ text.toList then some (.textSpansLines text) else none

/-- The breach of a table cell. -/
def badCell? (cell : String) : Option Breach :=
  if cell.isEmpty || cell.toList.contains '|' then some (.badCell cell) else none

/-- The first breach in a block. -/
def Block.breach? : Block → Option Breach
  | heading level text =>
    if 1 ≤ level ∧ level ≤ 3 then spansLines? text else some (.levelOutOfRange level)
  | paragraph text => spansLines? text
  | blockQuote text => spansLines? text
  | unorderedList items =>
    if items.isEmpty then some .emptyList else items.findSome? spansLines?
  | codeBlock _ source _ =>
    if source.isEmpty || source.toList.getLast? == some '\n' then none
    else some (.sourceNotTerminated source)
  | table header rows => (header ++ rows.flatten).findSome? badCell?
  | orderedList _ _ => none
  | definitionList _ _ => none
  | horizontalRule => none
  | image _ _ => none

/-- The first breach in the blocks from number `n` on, with the number of its block. -/
def violationFrom? (n : Nat) : List Block → Option (Nat × Breach)
  | [] => none
  | b :: bs =>
    match b.breach? with
    | some e => some (n, e)
    | none => violationFrom? (n + 1) bs

/-- The first breach in a document, with the number of its block. -/
def violation? (blocks : List Block) : Option (Nat × Breach) :=
  violationFrom? 0 blocks

end Quire.Document
