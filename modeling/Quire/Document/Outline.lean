import Quire.Document.Block
import Quire.Text.Quoted

/-!
# Outlines

An outline shows a document with one line for each block: the kind of the block and then its texts,
quoted, so that whatever they hold the lines stay apart. Lists stand in brackets and pairs in
parentheses. Of a code block the source is shown and not the markup.
-/

namespace Quire.Document

open Quire.Text (quoted)

/-- The members of a list, written by `write`, in brackets. -/
def bracketed {α : Type} (write : α → String) (xs : List α) : String :=
  "[" ++ ", ".intercalate (xs.map write) ++ "]"

/-- A list of texts. -/
def quotedList (xs : List String) : String :=
  bracketed quoted xs

/-- A pair of texts. -/
def quotedPair (p : String × String) : String :=
  s!"({quoted p.1}, {quoted p.2})"

/-- The line of a block. -/
def Block.outline (b : Block) : String :=
  match b with
  | heading level text => s!"h{level} {quoted text}"
  | paragraph text => s!"{b.kindName} {quoted text}"
  | blockQuote text => s!"{b.kindName} {quoted text}"
  | unorderedList items => s!"{b.kindName} {quotedList items}"
  | orderedList title items => s!"{b.kindName} {quoted title} {quotedList items}"
  | definitionList title pairs =>
    s!"{b.kindName} {quoted title} {bracketed quotedPair pairs}"
  | codeBlock language source _ => s!"{b.kindName} {language.name} {quoted source}"
  | table header rows => s!"{b.kindName} {quotedList header} {bracketed quotedList rows}"
  | horizontalRule => b.kindName
  | image alt path => s!"{b.kindName} {quoted alt} {quoted path}"

/-- The outline of a document. -/
def outline (blocks : List Block) : String :=
  "\n".intercalate (blocks.map Block.outline)

end Quire.Document
