import Quire.Highlight.Grammar

/-!
# The html grammar

The grammar of markup itself. A tag is punctuation as a whole; a bare attribute name, which an equals
sign must follow, is a keyword; quoted values are strings and character references are numbers.
-/

namespace Quire.Highlight

/-- The html grammar. -/
def Grammar.html : Grammar where
  name := "html"
  aliases := ["htm", "xml"]
  patterns :=
    [ ⟨"comment", .fixed .comment,
        "<!--[\\s\\S]*?-->", none⟩,
      ⟨"tag", .fixed .punctuation,
        "</?[a-zA-Z][a-zA-Z0-9\\-]*(?:\\s+[^>]*)?>", none⟩,
      ⟨"attribute", .fixed .keyword,
        "\\b[a-zA-Z\\-][a-zA-Z0-9\\-]*", some (.requires "\\s*=")⟩,
      ⟨"string", .fixed .string,
        "\"[^\"]*\"|'[^']*'", none⟩,
      ⟨"entity", .fixed .number,
        "&[a-zA-Z][a-zA-Z0-9]*;", none⟩,
      ⟨"numeric-entity", .fixed .number,
        "&#[0-9]+;|&#[xX][0-9a-fA-F]+;", none⟩ ]
  keywords := []
  builtinTypes := []
  ignoreCase := false

end Quire.Highlight
