import Quire.Html.Escape
import Quire.Highlight.Scan

/-!
# Scanned text as markup

A scanned source is written as markup in which each token stands in a span that names its category
and gaps stand bare. The text of both is escaped, so no angle bracket of the source can be taken for
one of a span.
-/

namespace Quire.Highlight

/-- A segment as markup, its text written by `escape`. -/
def Segment.markup (escape : String → String) : Segment → String
  | gap text => escape text
  | token t => s!"<span class=\"{t.category.className}\">{escape t.text}</span>"

/-- A source as markup with the given tokens marked, its text written by `escape`. -/
def markupWith (escape : String → String) (source : String) (tokens : List Token) : String :=
  String.join ((segments source tokens).map (·.markup escape))

/-- A source as markup with the given tokens marked. -/
def markup (source : String) (tokens : List Token) : String :=
  markupWith Html.escape source tokens

/-- A source as markup with the tokens marked that a lexer finds. -/
def Lexer.highlight (l : Lexer) (source : String) : String :=
  markup source (l.tokenize source)

end Quire.Highlight
