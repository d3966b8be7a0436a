import Quire.Document.Block
import Quire.Html.Escape
import Quire.Page.Context

/-!
# Blocks as markup

The markup of one block. Texts of blocks carry their tags already and are written as they are; the
name of an image and its alternative text are escaped. Images are all staged into one directory, so
of the path of an image only what follows its last slash or backslash counts.
-/

namespace Quire.Page

open Quire.Document (Block)

/-! ## 1. Parts -/

/-- A text between the tags of an element. -/
def element (tag text : String) : String :=
  s!"<{tag}>{text}</{tag}>"

/-- Items between the tags of a list, each on a line of its own. -/
def listMarkup (tag title : String) (items : List String) : String :=
  s!"<{tag}>{title}\n" ++ String.join (items.map fun i => element "li" i ++ "\n") ++ s!"</{tag}>"

/-- Terms with their definitions, each pair on a line of its own. -/
def definitionMarkup (title : String) (pairs : List (String × String)) : String :=
  s!"<dl>{title}\n"
    ++ String.join (pairs.map fun p => element "dt" p.1 ++ element "dd" p.2 ++ "\n") ++ "</dl>"

/-- A table row on a line of its own. -/
def rowMarkup (cellTag : String) (cells : List String) : String :=
  element "tr" (String.join (cells.map (element cellTag))) ++ "\n"

/-- A table, with a head if there is a header. -/
def tableMarkup (header : List String) (rows : List (List String)) : String :=
  let head :=
    if header.isEmpty then "" else "<thead>\n" ++ rowMarkup "th" header ++ "</thead>\n"
  "<table>\n" ++ head ++ "<tbody>\n" ++ String.join (rows.map (rowMarkup "td"))
    ++ "</tbody>\n</table>"

/-- A code block with a button that copies it. -/
def codeMarkup (language highlighted : String) : String :=
  "<div class=\"code-container\">\n"
    ++ "<button class=\"copy-btn\" type=\"button\" aria-label=\"Copy code\">Copy</button>\n"
    ++ s!"<pre class=\"code-block\"><code class=\"language-{language}\">{highlighted}</code></pre>\n"
    ++ "</div>"

/-- What follows the last slash or backslash of a path. -/
def imageName (path : String) : String :=
  String.ofList (path.toList.reverse.takeWhile fun c => c != '/' && c != '\\').reverse

/-- An image among the staged ones. -/
def imageMarkup (c : Context) (alt path : String) : String :=
  s!"<img src=\"{c.images}/{Html.escape (imageName path)}\" alt=\"{Html.escape alt}\" />"

/-! ## 2. Blocks -/

/-- The markup of a block on a page. -/
def blockMarkup (c : Context) : Block → String
  | .heading level text => element s!"h{level}" text
  | .paragraph text => element "p" text
  | .unorderedList items => listMarkup "ul" "" items
  | .orderedList title items => listMarkup "ol" title items
  | .definitionList title pairs => definitionMarkup title pairs
  | .codeBlock language _ highlighted => codeMarkup language.name highlighted
  | .blockQuote text => element "blockquote" text
  | .table header rows => tableMarkup header rows
  | .horizontalRule => "<hr>"
  | .image alt path => imageMarkup c alt path

end Quire.Page
