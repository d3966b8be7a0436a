import Quire.Highlight.Grammar

/-!
# The css grammar

The grammar of style sheets. The name of a property, which a colon must follow, is the only
identifier that is looked up, without regard to case; selectors stay bare. A number with a unit is
refused as a whole when a letter or a hyphen follows it, so `12pxa` holds no token.
-/

namespace Quire.Highlight

/-- The css grammar. -/
def Grammar.css : Grammar where
  name := "css"
  aliases := ["scss", "stylesheet"]
  patterns :=
    [ ⟨"comment", .fixed .comment,
        "/\\*[\\s\\S]*?\\*/", none⟩,
      ⟨"hex-color", .fixed .number,
        "#(?:[0-9a-fA-F]\x7b3\x7d|[0-9a-fA-F]\x7b6\x7d|[0-9a-fA-F]\x7b8\x7d)\\b", none⟩,
      ⟨"rgb-color", .fixed .number,
        "rgba?\\s*\\([^)]*\\)", none⟩,
      ⟨"property", .identifier,
        "\\b[a-z\\-]+", some (.requires "\\s*:")⟩,
      ⟨"string", .fixed .string,
        "\"[^\"]*\"|'[^']*'", none⟩,
      ⟨"dimension", .fixed .number,
        "\\b\\d+(?:\\.\\d+)?(?:px|em|rem|%|ch|cm|mm|in|pt|pc|vh|vw|vmin|vmax|deg|rad|turn|s|ms|hz|khz)?", some (.forbids "[a-z\\-]")⟩,
      ⟨"number", .fixed .number,
        "\\b\\d+(?:\\.\\d+)?\\b", none⟩ ]
  keywords :=
      ["display", "position", "float", "clear", "width", "height", "top", "right", "bottom",
       "left", "z-index", "margin", "margin-top", "margin-right", "margin-bottom", "margin-left",
       "padding", "padding-top", "padding-right", "padding-bottom", "padding-left", "border",
       "border-top", "border-right", "border-bottom", "border-left", "border-width",
       "border-style", "border-color", "border-radius", "box-sizing", "box-shadow", "overflow",
       "overflow-x", "overflow-y", "background", "background-color", "background-image",
       "background-position", "background-size", "background-repeat", "background-attachment",
       "color", "font", "font-family", "font-size", "font-weight", "font-style", "text-align",
       "text-decoration", "text-transform", "text-shadow", "line-height", "letter-spacing",
       "word-spacing", "flex", "flex-direction", "flex-wrap", "justify-content", "align-items",
       "align-content", "flex-grow", "flex-shrink", "flex-basis", "grid", "grid-template-columns",
       "grid-template-rows", "grid-gap", "grid-column", "grid-row", "grid-area", "transform",
       "transition", "animation", "opacity", "visibility", "content", "cursor", "list-style",
       "outline", "appearance", "min-width", "max-width", "min-height", "max-height",
       "vertical-align", "white-space", "word-wrap", "word-break"]
  builtinTypes := []
  ignoreCase := true

end Quire.Highlight
