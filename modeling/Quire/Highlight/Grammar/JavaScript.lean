import Quire.Highlight.Grammar

/-!
# The javascript grammar

The grammar of a scripting language: comments, template literals, strings, expressions between
slashes, numbers in four bases, identifiers and punctuation. Whatever stands between two slashes on
one line is taken for an expression, a division between two divisions too.
-/

namespace Quire.Highlight

/-- The javascript grammar. -/
def Grammar.javascript : Grammar where
  name := "javascript"
  aliases := ["js", "mjs", "jsx"]
  patterns :=
    [ ⟨"comment", .fixed .comment,
        "//[^\\r\\n]*", none⟩,
      ⟨"block-comment", .fixed .comment,
        "/\\*[\\s\\S]*?\\*/", none⟩,
      ⟨"template", .fixed .template,
        "`(?:\\\\.|[^\\\\`])*`", none⟩,
      ⟨"string", .fixed .string,
        "\"(?:\\\\.|[^\"\\\\])*\"|'(?:\\\\.|[^'\\\\])*'", none⟩,
      ⟨"regex", .fixed .punctuation,
        "/(?:[^/\\\\\\r\\n]|\\\\.)+/[gimsuvy]*", none⟩,
      ⟨"number", .fixed .number,
        "\\b(?:0[xX][0-9a-fA-F]+|0[oO][0-7]+|0[bB][01]+|\\d+(?:\\.\\d+)?(?:[eE][+-]?\\d+)?)\\b", none⟩,
      ⟨"identifier", .identifier,
        "\\b[_$A-Za-z][_$A-Za-z0-9]*\\b", none⟩,
      ⟨"punctuation", .fixed .punctuation,
        "[\x7b\x7d()\\[\\];:,.=<>!&|^~?+\\-*/%]", none⟩ ]
  keywords :=
      ["var", "let", "const", "if", "else", "switch", "case", "default", "for", "while", "do",
       "break", "continue", "try", "catch", "finally", "throw", "function", "return", "class",
       "extends", "super", "this", "new", "delete", "typeof", "instanceof", "async", "await",
       "yield", "import", "export", "from", "as", "true", "false", "null", "undefined", "in", "of",
       "void", "static", "get", "set", "constructor", "globalThis", "BigInt"]
  builtinTypes :=
      ["Object", "Array", "String", "Number", "Boolean", "Symbol", "Function", "Date", "RegExp",
       "Error", "TypeError", "ReferenceError", "SyntaxError", "RangeError", "EvalError",
       "URIError", "console", "window", "document", "navigator", "location", "Promise", "Map",
       "Set", "WeakMap", "WeakSet", "ArrayBuffer", "DataView", "Int8Array", "Uint8Array",
       "Int16Array", "Uint16Array", "Int32Array", "Uint32Array", "Float32Array", "Float64Array",
       "BigInt64Array", "BigUint64Array", "JSON", "Math", "Reflect", "Proxy"]
  ignoreCase := false

end Quire.Highlight
