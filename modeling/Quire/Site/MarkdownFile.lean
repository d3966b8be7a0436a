import Quire.Path.Basic

/-!
# Documents of a site

A document is known by its path under the source directory. The stem of its file name is the title
of its page and, with the ending for pages, the name of the file the page is written to. A path that
ends in no name gives a document without a title of its own.
-/

namespace Quire.Site

/-- A document, by its path under the source directory. -/
structure MarkdownFile where
  path : String
  deriving Repr, DecidableEq

namespace MarkdownFile

/-- The title of a document whose path ends in no name. -/
def untitled : String := "Untitled"

/-- The stem of the file name: the title of the page. -/
def displayName (f : MarkdownFile) : String :=
  match Path.fileName? f.path with
  | some name => name.stem
  | none => untitled

/-- The name of the file a page with a given title is written to. -/
def pageFile (title : String) : String :=
  s!"{title}.html"

/-- The name of the file the page is written to. -/
def pageFileName (f : MarkdownFile) : String :=
  pageFile f.displayName

/-- Whether one document comes strictly before another: by their paths, and if these are equal in
their components by their titles. -/
def lt (a b : MarkdownFile) : Bool :=
  Path.lt a.path b.path ||
    (!Path.lt b.path a.path && decide (a.displayName < b.displayName))

/-- Documents in order. Those that compare equal keep the order they had. -/
def sort (files : List MarkdownFile) : List MarkdownFile :=
  files.mergeSort fun a b => !b.lt a

end MarkdownFile

end Quire.Site
