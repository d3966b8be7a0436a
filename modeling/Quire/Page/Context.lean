import Quire.Site.MarkdownFile

/-!
# Where a page stands

Pages stand in two places: the index at the source directory, and one content page for each document
inside the output directory. What a page refers to is written relative to where it stands, so the
same block is written differently in the two places. The names of the files and directories that
pages refer to are fixed here, once for the pages and for the staging that puts them there.
-/

namespace Quire.Page

/-! ## 1. Names -/

/-- The directory of the style sheet and the script. -/
def resourceDir : String := "Res"

/-- The directory of the images. -/
def imageDir : String := "Img"

/-- The directory of the content pages. -/
def contentDir : String := "Content"

/-- The file of the style sheet. -/
def styleFile : String := "Style.css"

/-- The file of the script. -/
def scriptFile : String := "JS.js"

/-- The file of the index. -/
def indexFile : String := "Index.html"

/-! ## 2. References -/

/-- Where a page stands. -/
inductive Context where
  /-- At the source directory, above the output directory of this name. -/
  | index (output : String)
  /-- Among the content pages. -/
  | content
  deriving Repr, DecidableEq

namespace Context

/-- The reference to a directory inside the output directory. -/
def toOutput (c : Context) (dir : String) : String :=
  match c with
  | index output => s!"{output}/{dir}"
  | content => s!"../{dir}"

/-- The reference to the directory of the style sheet and the script. -/
def resources (c : Context) : String :=
  c.toOutput resourceDir

/-- The reference to the directory of the images. -/
def images (c : Context) : String :=
  c.toOutput imageDir

/-- The reference to the page with a title. -/
def page (c : Context) (title : String) : String :=
  match c with
  | index output => s!"{output}/{contentDir}/{Site.MarkdownFile.pageFile title}"
  | content => Site.MarkdownFile.pageFile title

end Context

end Quire.Page
