import Quire.Site.Source
import Quire.Site.Toc

/-!
# Finding the documents of a source

A document is a file whose name ends in `.md`. All documents under the source directory are found,
however deep they lie, except those under a directory with an excluded name and those with a name
that is skipped. The table of contents has the directories right under the source directory, except
those excluded, and in each the documents right inside it.
-/

namespace Quire.Site

open Quire.Path (Name)
open Quire.Tree (Directory Entry Place pathOf)

/-! ## 1. Documents -/

/-- What is left out: directories by their names, and files by theirs. -/
structure Filter where
  excludedDirectories : List String
  skippedFiles : List String
  deriving Repr, DecidableEq

/-- Whether a file of a name is a document. -/
def isDocumentName (name : Name) : Bool :=
  name.extension? == some "md"

/-- The places of the documents in a directory and below, as they are listed, behind the names that
lead to the directory. -/
def Filter.collect (f : Filter) (above : Place) : Directory → List Place
  | .nil => []
  | .file n _ rest =>
    if isDocumentName n && !f.skippedFiles.contains n.text then
      (above ++ [n]) :: f.collect above rest
    else f.collect above rest
  | .dir n i rest =>
    if f.excludedDirectories.contains n.text then f.collect above rest
    else f.collect (above ++ [n]) i ++ f.collect above rest

/-- Whether one place comes strictly before another: by the first names in which they differ. -/
def placeLt (p q : Place) : Bool :=
  Path.componentsLt (p.map .name) (q.map .name)

/-- The documents in a directory and below, in order. -/
def Filter.documents (f : Filter) (d : Directory) : List MarkdownFile :=
  ((f.collect [] d).mergeSort fun p q => !placeLt q p).map fun p => ⟨pathOf p⟩

/-- The documents under a source directory. -/
def documents (root : String) (f : Filter) (t : Tree) : Except AccessError (List MarkdownFile) :=
  (sourceDirectory root t).map f.documents

/-! ## 2. Contents -/

/-- The table with the documents among some entries added to a folder. -/
def addDocuments (folder : Name) (toc : Toc) (entries : List (Name × Entry)) : Toc :=
  entries.foldl
    (fun toc (name, e) =>
      if !e.isDirectory && isDocumentName name then
        toc.addFile folder.text ⟨pathOf [folder, name]⟩
      else toc)
    toc

/-- The table of contents of a directory. -/
def contentsOf (excluded : List String) (d : Directory) : Toc :=
  d.sorted.foldl
    (fun toc (name, e) =>
      match e with
      | .file _ => toc
      | .directory inside =>
        if excluded.contains name.text then toc
        else addDocuments name (toc.addFolder name.text) inside.sorted)
    .empty

/-- The table of contents of a source directory. -/
def contents (root : String) (excluded : List String) (t : Tree) : Except AccessError Toc :=
  (sourceDirectory root t).map (contentsOf excluded)

end Quire.Site
