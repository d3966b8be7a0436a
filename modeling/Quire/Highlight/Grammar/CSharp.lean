import Quire.Highlight.Grammar

/-!
# The csharp grammar

The grammar of a curly-brace language with classes: line and block comments, plain and verbatim
strings, characters, numbers, identifiers and punctuation. In a string two double quotes are one
that does not end it, and an at sign may stand before the opening one.
-/

namespace Quire.Highlight

/-- The csharp grammar. -/
def Grammar.csharp : Grammar where
  name := "csharp"
  aliases := ["cs", "c#"]
  patterns :=
    [ ⟨"comment", .fixed .comment,
        "//[^\\r\\n]*", none⟩,
      ⟨"block-comment", .fixed .comment,
        "/\\*[\\s\\S]*?\\*/", none⟩,
      ⟨"string", .fixed .string,
        "@?\"(?:[^\"]|\"\")*\"", none⟩,
      ⟨"char", .fixed .string,
        "'(?:\\\\.|[^'\\\\])'", none⟩,
      ⟨"number", .fixed .number,
        "\\b\\d+(?:\\.\\d+)?\\b", none⟩,
      ⟨"identifier", .identifier,
        "\\b[_A-Za-z][_A-Za-z0-9]*\\b", none⟩,
      ⟨"punctuation", .fixed .punctuation,
        "[\x7b\x7d()\\[\\];.,:+\\-*/%&|^!~?<>=]", none⟩ ]
  keywords :=
      ["namespace", "using", "class", "struct", "enum", "interface", "public", "private",
       "protected", "internal", "static", "readonly", "const", "new", "return", "void", "var",
       "this", "base", "if", "else", "switch", "case", "default", "for", "foreach", "while", "do",
       "break", "continue", "try", "catch", "finally", "throw", "true", "false", "null", "in",
       "out", "ref", "params", "yield", "async", "await", "operator", "implicit", "explicit",
       "partial", "record"]
  builtinTypes :=
      ["bool", "byte", "sbyte", "short", "ushort", "int", "uint", "long", "ulong", "float",
       "double", "decimal", "char", "string", "object"]
  ignoreCase := false

end Quire.Highlight
