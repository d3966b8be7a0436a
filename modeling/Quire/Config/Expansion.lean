import Quire.Path.Basic
import Quire.Text.Alphanumeric

/-!
# Expanding a path

A path may name variables of the environment, by a dollar sign and a name, which may stand between
braces and there have a value to go by if it is not set. Two dollar signs are one, and one that no
name follows stands for itself, as does one before a brace that is not closed. If a variable is not
set and has no such value, nothing of the path is expanded. A tilde at the front, alone or before a
slash, is the home directory, unless it came from a variable.
-/

namespace Quire

/-! ## 1. Environments -/

/-- The variables that are set, each with its value. Of two with one name the first counts. -/
structure Environment where
  bindings : List (String × String)

namespace Environment

/-- The value of a variable. -/
def get? (env : Environment) (name : String) : Option String :=
  env.bindings.lookup name

/-- The home directory, if one is named. -/
def home? (env : Environment) : Option String :=
  (env.get? "HOME").filter fun home => !home.isEmpty

end Environment

namespace Config

/-! ## 2. Variables -/

/-- Whether a character can stand in a name without braces. -/
def isVariableChar (c : Char) : Bool :=
  Text.isAlphanumeric c || c = '_'

/-- A text before the first place where a mark stands, and after it. -/
def cutAt (mark : List Char) : List Char → Option (List Char × List Char)
  | [] => if mark.isEmpty then some ([], []) else none
  | c :: s =>
    if mark.isPrefixOf (c :: s) then some ([], (c :: s).drop mark.length)
    else (cutAt mark s).map fun (before, after) => (c :: before, after)

/-- What stands between braces, as the name of a variable and the value to go by if it is not set.
Without a name before it, the mark between the two is part of the name. -/
def variableAndValue (inside : List Char) : List Char × Option (List Char) :=
  match cutAt [':', '-'] inside with
  | some (c :: name, value) => (c :: name, some value)
  | _ => (inside, none)

/-- What the text after a dollar sign stands for together with it, and how many characters of that
text it takes. -/
def dollar? (env : Environment) (s : List Char) : Option (List Char × Nat) :=
  match s with
  | '$' :: _ => some (['$'], 1)
  | '\x7b' :: r =>
    match cutAt ['\x7d'] r with
    | none => some (['$', '\x7b'], 1)
    | some (inside, _) =>
      let (name, otherwise) := variableAndValue inside
      let value := match env.get? (String.ofList name) with
        | some value => some value.toList
        | none => otherwise
      value.map fun value => (value, inside.length + 2)
  | _ =>
    let name := s.takeWhile isVariableChar
    if name.isEmpty then some (['$'], 0)
    else (env.get? (String.ofList name)).map fun value => (value.toList, name.length)

/-- A text with its variables expanded, where so many of its characters are taken already. -/
def expandFrom (env : Environment) : Nat → List Char → Option (List Char)
  | _, [] => some []
  | taken + 1, _ :: s => expandFrom env taken s
  | 0, c :: s =>
    if c = '$' then
      (dollar? env s).bind fun (text, taken) => (expandFrom env taken s).map (text ++ ·)
    else (expandFrom env 0 s).map (c :: ·)

/-! ## 3. Paths -/

/-- A path with the tilde at its front expanded. -/
def expandTilde (env : Environment) (path : String) : String :=
  match path.toList, env.home? with
  | ['~'], some home => home
  | '~' :: '/' :: s, some home => home ++ "/" ++ String.ofList s
  | _, _ => path

/-- A path expanded: variables first, and then a tilde that was there before. -/
def expand (env : Environment) (path : String) : String :=
  match expandFrom env 0 path.toList with
  | none => path
  | some s =>
    if path.toList.head? ≠ some '~' ∧ s.head? = some '~' then String.ofList s
    else expandTilde env (String.ofList s)

/-- The path of the configuration file of the user. -/
def userPath (env : Environment) : String :=
  Path.join (expandTilde env "~/.config/md2h") "config.toml"

end Config

end Quire
