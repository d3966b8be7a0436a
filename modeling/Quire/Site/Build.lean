import Quire.Document.Reading
import Quire.Page.Layout
import Quire.Site.Options
import Quire.Site.Scan
import Quire.Site.Staging

/-!
# Building a site

The output directory is staged, every document is converted to a content page, and the last
document once more to the index at the source directory. Pages go by the names of the documents
alone, so of two documents with one name the later page replaces the earlier one, which the report
says.
-/

namespace Quire.Site

open Quire.Document (Block)
open Quire.Highlight (Language)

/-! ## 1. Failures and report -/

/-- Why a site could not be built. -/
inductive BuildError where
  | staging (cause : AccessError)
  | document (path : String) (cause : AccessError)
  | access (cause : AccessError)
  deriving Repr, DecidableEq

namespace BuildError

/-- The words for a failure. -/
def message : BuildError → String
  | staging cause => s!"Failed to prepare output directory: {cause.message}"
  | document path cause => s!"Failed to convert {path}: {cause.message}"
  | access cause => cause.message

/-- The words for a failure, and those for what caused it. -/
def messages (e : BuildError) : List String :=
  match e with
  | staging cause => e.message :: cause.messages
  | document _ cause => e.message :: cause.messages
  | access cause => cause.messages

end BuildError

/-- What was built. -/
structure BuildReport where
  /-- The content pages, in the order in which they were written. -/
  pages : List String := []
  imagesCopied : Nat := 0
  /-- The index, if there was a document. -/
  index : Option String := none
  /-- The documents whose pages were replaced by those of later documents. -/
  overwritten : List String := []
  deriving Repr, DecidableEq

/-! ## 2. Notices -/

/-- What is noted while a site is built. -/
inductive BuildNotice where
  | staged (root : String) (images : Nat)
  | converting (documents : Nat)
  | replaced (document previous page : String)
  | wrote (page : String) (blocks : Nat)
  | wroteIndex (index : String)
  | noDocuments (root : String)
  deriving Repr, DecidableEq

/-- What the journal gets. -/
def BuildNotice.notice : BuildNotice → Notice
  | staged root images => ⟨.info, s!"staged {root} (copied {images} images)"⟩
  | converting documents => ⟨.info, s!"converting {documents} documents"⟩
  | replaced document previous page => ⟨.warn, s!"{document} replaces {previous} at {page}"⟩
  | wrote page blocks => ⟨.debug, s!"wrote {page} ({blocks} blocks)"⟩
  | wroteIndex index => ⟨.info, s!"wrote index {index}"⟩
  | noDocuments root => ⟨.warn, s!"no markdown documents under {root}"⟩

/-- A notice added to the journal. -/
def announce (n : BuildNotice) : Action BuildError Unit :=
  Action.note n.notice

/-! ## 3. Documents -/

/-- The blocks of a document, read from its file. -/
def loadDocument (source : String) (language : Language) (file : MarkdownFile) :
    Action BuildError (List Block) := do
  let text ← Action.onFailure (Action.ask (readText source file.path)) (.document file.path)
  let (blocks, reports) := Document.read language (Text.Rope.ofString text).lines
  reports.forM fun r => Action.note r.notice
  return blocks

/-- How far the conversion has come. -/
structure Progress where
  pages : List String := []
  overwritten : List String := []
  /-- The documents so far that a page was written for, the latest first. -/
  written : List MarkdownFile := []
  /-- The latest document with its blocks. -/
  last : Option (MarkdownFile × List Block) := none

/-- The latest document so far whose page has a name. -/
def Progress.writer? (p : Progress) (page : String) : Option MarkdownFile :=
  p.written.find? fun file => file.pageFileName == page

/-- A document converted to its content page. -/
def convert (source : String) (o : Options) (layout : Layout) (toc : Toc) (p : Progress)
    (file : MarkdownFile) : Action BuildError Progress := do
  let blocks ← loadDocument source o.language file
  let page := Path.join layout.content file.pageFileName
  Action.onFailure
    (writeText layout.root s!"{Page.contentDir}/{file.pageFileName}"
      (Page.pageMarkup .content file.displayName blocks toc))
    (.document file.path)
  let previous := (p.writer? file.pageFileName).map (·.path)
  previous.forM fun path => announce (.replaced file.path path page)
  announce (.wrote page blocks.length)
  return {
    pages := p.pages ++ [page]
    overwritten := p.overwritten ++ previous.toList
    written := file :: p.written
    last := some (file, blocks) }

/-- The index, written from a document. -/
def writeIndex (source : String) (o : Options) (toc : Toc) (file : MarkdownFile)
    (blocks : List Block) : Action BuildError String := do
  Action.onFailure
    (writeText source Page.indexFile
      (Page.pageMarkup (.index o.outputDirectory) file.displayName blocks toc))
    .access
  let index := Path.join source Page.indexFile
  announce (.wroteIndex index)
  return index

/-! ## 4. Everything -/

/-- A site built from a source directory. -/
def build (source : String) (o : Options) : Action BuildError BuildReport := do
  let _ ← Action.onFailure (Action.ask (sourceDirectory source)) .access
  let layout := Layout.under source o.outputDirectory
  let copied ← Action.onFailure (stage source layout o.imagePatterns) .staging
  announce (.staged layout.root copied)
  let toc ← Action.onFailure (Action.ask (contents source o.allExcluded)) .access
  let files ← Action.onFailure
    (Action.ask (documents source ⟨o.allExcluded, o.skippedFiles⟩)) .access
  announce (.converting files.length)
  let done ← files.foldlM (convert source o layout toc) {}
  let index ← match done.last with
    | some (file, blocks) => some <$> writeIndex source o toc file blocks
    | none => do
      announce (.noDocuments source)
      pure none
  return {
    pages := done.pages
    imagesCopied := copied
    index := index
    overwritten := done.overwritten }

end Quire.Site
