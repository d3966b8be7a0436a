import Quire.Glob.Reader
import Quire.Text.Quoted
import Quire.Workspace

/-!
# Reading from a source and writing into it

The documents of a site lie under a source directory. They are read by their paths from there, and
what is made of them is written by paths from a directory too, with the directories on the way made
where they are missing.
-/

namespace Quire.Site

open Quire.Tree (SystemError)

/-! ## 1. Failures -/

/-- Why something could not be read, written or found. -/
inductive AccessError where
  | missing (path : String)
  | system (cause : SystemError)
  | noSource (path : String)
  | badPattern (pattern : String) (cause : Glob.Refusal)
  deriving Repr, DecidableEq

namespace AccessError

/-- The words for a failure. -/
def message : AccessError → String
  | missing path => s!"File not found: {path}"
  | system cause => s!"IO error: {cause.message}"
  | noSource path => s!"Invalid source directory: {path} is not a directory"
  | badPattern pattern cause => s!"Invalid image pattern {Text.quoted pattern}: {cause.message}"

/-- The words for a failure, and those for what caused it. -/
def messages (e : AccessError) : List String :=
  match e with
  | missing _ => [e.message]
  | system cause => [e.message, cause.message]
  | noSource _ => [e.message]
  | badPattern _ cause => [e.message, cause.message]

end AccessError

/-! ## 2. The source directory -/

/-- The directory that a path leads to, as the source of a site. -/
def sourceDirectory (root : String) (t : Tree) : Except AccessError Tree.Directory :=
  match t.directory? root with
  | some d => .ok d
  | none => .error (.noSource root)

/-! ## 3. Reading and writing -/

/-- The text of the file at a path from a directory. -/
def readText (root path : String) (t : Tree) : Except AccessError String :=
  let full := Path.below root path
  if t.hasEntry full then (t.readText full).mapError .system
  else .error (.missing full)

/-- A text written to the file at a path from a directory. -/
def writeText (root path text : String) : Action AccessError Unit :=
  let full := Path.below root path
  Action.onFailure
    (do
      Action.changeStepwise (Tree.makeParents · full)
      Action.change (Tree.writeText · full text))
    .system

end Quire.Site
