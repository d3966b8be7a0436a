import Quire.Config.Expansion
import Quire.Config.Text
import Quire.Workspace

/-!
# Finding and keeping configurations

A configuration comes from one file and never from two: from the file that is asked for, which then
has to be there, or else from that of the source directory, or else from that of the user; and if
there is none, nothing is set. Asking for one changes nothing. Keeping one writes its file, with the
directories above it made where they are missing.
-/

namespace Quire.Config

open Quire.Tree (SystemError)

/-! ## 1. Failures -/

/-- Why a configuration could not be had. -/
inductive LoadError where
  /-- The file that was asked for is not there. -/
  | missing (path : String)
  | unreadable (path : String) (cause : SystemError)
  | malformed (path : String)
  deriving Repr, DecidableEq

namespace LoadError

/-- The words for a failure. What is wrong with a malformed file is not told. -/
def message : LoadError → String
  | missing path => s!"Failed to read config file at {path}: entity not found"
  | unreadable path cause => s!"Failed to read config file at {path}: {cause.message}"
  | malformed path => s!"Failed to parse config file at {path}: "

/-- The words for a failure, and those for what caused it. Of a malformed file only the language is
told that it should be written in. -/
def messages (e : LoadError) : List String :=
  match e with
  | missing _ => [e.message, "entity not found"]
  | unreadable _ cause => [e.message, cause.message]
  | malformed _ => [e.message, "toml"]

end LoadError

/-! ## 2. Finding -/

/-- The configuration of a file, if the file is there. -/
def loadFile (path : String) (t : Tree) : Except LoadError (Option Config) :=
  if !t.hasEntry path then .ok none
  else
    match t.readText path with
    | .error cause => .error (.unreadable path cause)
    | .ok s =>
      match ofText s with
      | some c => .ok (some c)
      | none => .error (.malformed path)

/-- The configuration of a source directory, or of the user, or one that sets nothing. -/
def load (env : Environment) (source : String) (t : Tree) : Except LoadError Config :=
  match loadFile (projectPath source) t with
  | .error e => .error e
  | .ok (some c) => .ok c
  | .ok none => (loadFile (userPath env) t).map (·.getD {})

/-- The configuration of the file that is asked for, if one is, and else that of a source
directory. -/
def resolve (env : Environment) (asked : Option String) (source : String) (t : Tree) :
    Except LoadError Config :=
  match asked with
  | none => load env source t
  | some path =>
    let path := expand env path
    match loadFile path t with
    | .error e => .error e
    | .ok (some c) => .ok c
    | .ok none => .error (.missing path)

/-! ## 3. Keeping -/

/-- A configuration written to a file. -/
def save (c : Config) (path : String) : Action SystemError Unit := do
  Action.changeStepwise (Tree.makeParents · path)
  Action.change (Tree.writeText · path c.text)

end Quire.Config
