import Quire.Highlight.Grammar

/-!
# The typescript grammar

The grammar of a scripting language with types and decorators: comments, template literals, strings,
decorators, numbers in four bases with separators, identifiers and punctuation.
-/

namespace Quire.Highlight

/-- The typescript grammar. -/
def Grammar.typescript : Grammar where
  name := "typescript"
  aliases := ["ts", "tsx", "angular"]
  patterns :=
    [ ⟨"comment", .fixed .comment,
        "//[^\\r\\n]*", none⟩,
      ⟨"block-comment", .fixed .comment,
        "/\\*[\\s\\S]*?\\*/", none⟩,
      ⟨"template", .fixed .template,
        "`(?:\\\\.|[^\\\\`])*`", none⟩,
      ⟨"string", .fixed .string,
        "\"(?:\\\\.|[^\"\\\\])*\"|'(?:\\\\.|[^'\\\\])*'", none⟩,
      ⟨"decorator", .fixed .decorator,
        "@[$A-Za-z_][$A-Za-z0-9_]*", none⟩,
      ⟨"number", .fixed .number,
        "\\b0[xX][0-9A-Fa-f]+n?\\b|\\b0[bB][01]+n?\\b|\\b0[oO][0-7]+n?\\b|\\b\\d+(?:_\\d+)*(?:\\.\\d+(?:_\\d+)*)?(?:[eE][+-]?\\d+)?n?\\b", none⟩,
      ⟨"identifier", .identifier,
        "\\b[$A-Za-z_][$A-Za-z0-9_]*\\b", none⟩,
      ⟨"punctuation", .fixed .punctuation,
        "[\x7b\x7d()\\[\\];.,:?~!%^&|+\\-*/=<>@]", none⟩ ]
  keywords :=
      ["import", "export", "from", "as", "default", "class", "interface", "enum", "type",
       "extends", "implements", "abstract", "declare", "public", "private", "protected",
       "readonly", "static", "override", "function", "constructor", "return", "if", "else",
       "switch", "case", "for", "while", "do", "break", "continue", "throw", "try", "catch",
       "finally", "let", "const", "var", "new", "this", "super", "true", "false", "null",
       "undefined", "typeof", "instanceof", "void", "delete", "yield", "await", "async", "in",
       "of", "namespace", "module"]
  builtinTypes :=
      ["string", "number", "boolean", "bigint", "symbol", "object", "any", "console", "unknown",
       "never", "void", "null", "undefined"]
  ignoreCase := false

end Quire.Highlight
