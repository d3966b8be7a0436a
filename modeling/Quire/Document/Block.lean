import Quire.Highlight.Language

/-!
# Blocks

A document is a list of blocks in reading order. The texts of a block carry their emphasis and links
as tags already and are not escaped again; a code block has its source, and the same source as
markup. Ordered lists and definition lists are there for documents that are put together by hand:
reading a text yields neither.
-/

namespace Quire.Document

open Quire.Highlight (Language)

/-- A block of a document. -/
inductive Block where
  | heading (level : Nat) (text : String)
  | paragraph (text : String)
  | unorderedList (items : List String)
  | orderedList (title : String) (items : List String)
  | definitionList (title : String) (pairs : List (String × String))
  | codeBlock (language : Language) (source highlighted : String)
  | blockQuote (text : String)
  /-- Every row keeps its own number of cells. -/
  | table (header : List String) (rows : List (List String))
  | horizontalRule
  | image (alt path : String)
  deriving Repr, DecidableEq

namespace Block

/-- The name of a kind of block. -/
def kindName : Block → String
  | heading .. => "heading"
  | paragraph .. => "paragraph"
  | unorderedList .. => "unordered-list"
  | orderedList .. => "ordered-list"
  | definitionList .. => "definition-list"
  | codeBlock .. => "code-block"
  | blockQuote .. => "block-quote"
  | table .. => "table"
  | horizontalRule => "horizontal-rule"
  | image .. => "image"

/-- A code block whose markup is that of its source. -/
def code (language : Language) (source : String) : Block :=
  codeBlock language source (Highlight.highlight source language)

end Block

end Quire.Document
