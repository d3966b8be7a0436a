import Quire.Document.Link
import Quire.Page.Assets
import Quire.Page.Block
import Quire.Site.Toc

/-!
# Pages

A page is the markup of a document with a title, between a head that refers to the style sheet and a
reference to the script, after the navigation. The navigation has a group for every folder of the
table of contents and in it a link for every document. Titles, folder names and the targets of links
are escaped.
-/

namespace Quire.Page

open Quire.Document (Block)
open Quire.Site (MarkdownFile Toc)

/-! ## 1. Navigation -/

/-- A link with a label, as markup. -/
def linkMarkup (label target : String) : String :=
  String.ofList (Document.anchor label.toList target.toList)

/-- The line of a document in the navigation. -/
def entryMarkup (c : Context) (file : MarkdownFile) : String :=
  element "li" (linkMarkup (Html.escape file.displayName) (c.page file.displayName)) ++ "\n"

/-- The group of a folder in the navigation. -/
def folderMarkup (c : Context) (folder : String) (files : List MarkdownFile) : String :=
  s!"<details>\n<summary>{Html.escape folder}</summary>\n<ul>\n"
    ++ String.join (files.map (entryMarkup c)) ++ "</ul>\n</details>\n"

/-- The navigation. -/
def navigation (c : Context) (toc : Toc) : String :=
  "<aside>\n<nav aria-label=\"Contents\">\n"
    ++ String.join (toc.folders.map fun (folder, files) => folderMarkup c folder files)
    ++ "</nav>\n</aside>"

/-! ## 2. Pages -/

/-- The head of a page. -/
def headMarkup (c : Context) (title : String) : String :=
  "<head>\n  <meta charset=\"UTF-8\">\n"
    ++ "  <meta name=\"viewport\" content=\"width=device-width, initial-scale=1\">\n"
    ++ s!"  <link href=\"{c.resources}/{styleFile}\" rel=\"stylesheet\" />\n"
    ++ s!"  <title>{Html.escape title}</title>\n</head>\n"

/-- The blocks of a page, one below the other. -/
def mainMarkup (c : Context) (blocks : List Block) : String :=
  "\n".intercalate (blocks.map (blockMarkup c))

/-- A whole page. -/
def pageMarkup (c : Context) (title : String) (blocks : List Block) (toc : Toc) : String :=
  "<!DOCTYPE html>\n<html lang=\"en\">\n" ++ headMarkup c title
    ++ s!"<body>\n{navigation c toc}\n<main>\n{mainMarkup c blocks}\n</main>\n"
    ++ s!"<script src=\"{c.resources}/{scriptFile}\"></script>\n</body>\n</html>\n"

end Quire.Page
