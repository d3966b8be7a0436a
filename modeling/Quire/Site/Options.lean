import Quire.Highlight.Language

/-!
# What a site is built with

The options of a build, and their values where nothing else is asked for.
-/

namespace Quire.Site

open Quire.Highlight (Language)

/-- What a site is built with. -/
structure Options where
  outputDirectory : String := "ZOut"
  excludedDirectories : List String := [".git", "Content", "Res", "Img", "ZOut"]
  skippedFiles : List String := ["Readme.md"]
  imagePatterns : List String := ["**/*.png"]
  language : Language := .csharp
  deriving Repr, DecidableEq

/-- The excluded directories, the output directory among them. -/
def Options.allExcluded (o : Options) : List String :=
  if o.excludedDirectories.contains o.outputDirectory then o.excludedDirectories
  else o.excludedDirectories ++ [o.outputDirectory]

end Quire.Site
