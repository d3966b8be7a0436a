import Quire.Path.Basic
import Quire.Site.Options
import Quire.Text.Quoted

/-!
# Configurations

What a configuration file can set: the options of a build, with the language by its name. A
configuration may name any language: only when a build is asked for is the name looked up, and what
the command line says then goes before what the configuration says.
-/

namespace Quire

open Quire.Highlight (Language UnknownLanguage)

/-- What a configuration file can set. What it leaves out is as for a build that nothing is asked
of. -/
structure Config where
  outputDirectory : String := ({} : Site.Options).outputDirectory
  excludedDirectories : List String := ({} : Site.Options).excludedDirectories
  skippedFiles : List String := ({} : Site.Options).skippedFiles
  imagePatterns : List String := ({} : Site.Options).imagePatterns
  codeLanguage : String := ({} : Site.Options).language.name
  deriving Repr, DecidableEq

namespace Config

/-- The name of a configuration file in a source directory. -/
def projectFile : String := "md2h.toml"

/-- The path of the configuration file of a source directory. -/
def projectPath (source : String) : String :=
  Path.join source projectFile

/-- The options that a configuration comes to, where an output directory and a language may be given
besides. -/
def options (c : Config) (output language : Option String) : Except UnknownLanguage Site.Options :=
  (Language.ofName (language.getD c.codeLanguage)).map fun l =>
    { outputDirectory := output.getD c.outputDirectory
      excludedDirectories := c.excludedDirectories
      skippedFiles := c.skippedFiles
      imagePatterns := c.imagePatterns
      language := l }

end Config

end Quire
