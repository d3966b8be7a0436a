import Quire.Glob.Walk
import Quire.Page.Assets
import Quire.Page.Context
import Quire.Site.Source

/-!
# Staging the output directory

Before pages are written, the output directory gets its three directories, the style sheet, the
script, and a copy of every image that a pattern finds. Images go into one directory under their own
names. The first to come under a name is copied, and an entry that is there already is never written
over. What lies in the output directory itself is no image.
-/

namespace Quire.Site

/-! ## 1. Layout -/

/-- Where the parts of the output go. -/
structure Layout where
  root : String
  images : String
  content : String
  resources : String
  deriving Repr, DecidableEq

/-- The layout of an output directory under a source directory. -/
def Layout.under (source output : String) : Layout :=
  let root := Path.join source output
  { root
    images := Path.join root Page.imageDir
    content := Path.join root Page.contentDir
    resources := Path.join root Page.resourceDir }

/-! ## 2. Images -/

/-- The notice that an image is left alone. -/
def alreadyStaged (image : String) : Notice :=
  ⟨.debug, s!"image {image} already staged, skipping"⟩

/-- One path that a pattern found, staged if it is an image, and the number of images copied so
far. -/
def stageImage (layout : Layout) (copied : Nat) (path : String) : Action AccessError Nat := do
  let t ← Action.tree
  if !t.hasFile path || Path.isUnder path layout.root then
    return copied
  match Path.fileName? path with
  | none => return copied
  | some name =>
    let image := Path.join layout.images name.text
    if t.hasEntry image then
      Action.note (alreadyStaged image)
      return copied
    else
      Action.onFailure (Action.change (Tree.copy · path image)) .system
      return copied + 1

/-- The images that a pattern finds under a source directory. -/
def stagePattern (source : String) (layout : Layout) (copied : Nat) (pattern : String) :
    Action AccessError Nat := do
  match Glob.Pattern.ofString (Path.join source pattern) with
  | .error cause => throw (.badPattern pattern cause)
  | .ok p => p.foldM Action.tree (stageImage layout) copied

/-! ## 3. Everything -/

/-- The three directories. -/
def stageDirectories (layout : Layout) : Action AccessError Unit :=
  [layout.images, layout.content, layout.resources].forM fun dir =>
    Action.onFailure (Action.changeStepwise (Tree.makeDirectories · dir)) .system

/-- The style sheet and the script. -/
def stageAssets (layout : Layout) : Action AccessError Unit :=
  [(Page.styleFile, Page.styleSheet), (Page.scriptFile, Page.script)].forM fun (name, text) =>
    Action.onFailure
      (Action.change (Tree.writeText · (Path.join layout.resources name) text)) .system

/-- The output directory made ready. The answer is the number of images copied. -/
def stage (source : String) (layout : Layout) (patterns : List String) :
    Action AccessError Nat := do
  stageDirectories layout
  stageAssets layout
  patterns.foldlM (stagePattern source layout) 0

end Quire.Site
