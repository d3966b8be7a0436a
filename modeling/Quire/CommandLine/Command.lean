import Quire.CommandLine.Arguments
import Quire.Config.Store
import Quire.Site.Build

/-!
# Commands

What each command does: a site is built with the options of a configuration, over which go those of
the command line; a configuration that sets nothing is written to a file that was not there; and the
source in a file is highlighted.
-/

namespace Quire.CommandLine

open Quire.Highlight (Language UnknownLanguage)
open Quire.Site (BuildError BuildReport)
open Quire.Tree (SystemError)

/-! ## 1. Failures -/

/-- Why a command failed. -/
inductive CommandError where
  | config (cause : Config.LoadError)
  | selecting (name : String) (cause : UnknownLanguage)
  | building (source : String) (cause : BuildError)
  | alreadyThere (path : String)
  | writing (cause : SystemError)
  | language (cause : UnknownLanguage)
  | reading (path : String) (cause : SystemError)
  deriving Repr, DecidableEq

namespace CommandError

/-- The words for a failure, and those for what caused it. -/
def messages : CommandError → List String
  | config cause => cause.messages
  | selecting name cause =>
    [s!"selecting code language {Text.quoted name}", cause.message]
  | building source cause => s!"building site from {source}" :: cause.messages
  | alreadyThere path => [s!"{path} already exists; pass --force to replace it"]
  | writing cause => [cause.message]
  | language cause => [cause.message]
  | reading path cause => [s!"reading {path}", cause.message]

/-- All that is said of a failure, on one line. -/
def message (e : CommandError) : String :=
  ": ".intercalate e.messages

end CommandError

/-! ## 2. Building -/

/-- The options of a build. -/
def siteOptions (c : Config) (out lang : Option String) : Except CommandError Site.Options :=
  (c.options out lang).mapError (.selecting (lang.getD c.codeLanguage))

/-- A site built. -/
def runBuild (env : Environment) (dir : String) (config out lang : Option String) :
    Action CommandError BuildReport := do
  let c ← Action.onFailure (Action.ask (Config.resolve env config dir)) .config
  let options ← Action.ask fun _ => siteOptions c out lang
  Action.onFailure (Site.build dir options) (.building dir)

/-! ## 3. Configurations -/

/-- A configuration that sets nothing, written to a file. The answer is the path of the file. -/
def runInit (env : Environment) (dir : String) (user force : Bool) :
    Action CommandError String := do
  let target := if user then Config.userPath env else Config.projectPath dir
  let t ← Action.tree
  if t.hasEntry target && !force then throw (.alreadyThere target)
  Action.onFailure (Config.save {} target) .writing
  return target

/-! ## 4. Highlighting -/

/-- The source in a file as markup. -/
def runHighlight (file lang : String) : Action CommandError String := do
  let language ← Action.ask fun _ => (Language.ofName lang).mapError .language
  let source ← Action.onFailure (Action.ask (Tree.readText · file)) (.reading file)
  return Highlight.highlight source language

end Quire.CommandLine
