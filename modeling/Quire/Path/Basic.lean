import Quire.Path.Name
import Quire.Text.Split

/-!
# Paths

A path is written with slashes and taken apart into its components: the parts between slashes,
without the empty ones. A part of one dot is a component that stays where it is, and comes before
all others; one of two dots goes up, and comes next; every other is a name, and names are in the
order of their characters.
-/

namespace Quire.Path

open Quire.Text

/-! ## 1. Components -/

/-- A component of a path. -/
inductive Component where
  | here
  | up
  | name (n : Name)
  deriving DecidableEq

namespace Component

/-- The component that a nonempty part of a path is. -/
def ofString (part : String) : Component :=
  if h : IsName part then name ⟨part, h⟩ else if part = ".." then up else here

/-- A component as it is written. -/
def text : Component → String
  | here => "."
  | up => ".."
  | name n => n.text

end Component

/-- The nonempty parts of a path between its slashes. -/
def parts (path : String) : List String :=
  ((splitOn '/' path.toList).filter fun p => !p.isEmpty).map String.ofList

/-- The components of a path. -/
def components (path : String) : List Component :=
  (parts path).map Component.ofString

/-- The components of a path without those, after the first, that stay where they are. -/
def steps (path : String) : List Component :=
  match components path with
  | [] => []
  | c :: cs => c :: cs.filter (· != .here)

/-- The last component of a path that does not stay where it is, if it is a name. -/
def fileName? (path : String) : Option Name :=
  match ((components path).reverse.dropWhile (· == .here)).head? with
  | some (.name n) => some n
  | _ => none

/-! ## 2. Order -/

/-- Whether one component comes strictly before another. -/
def Component.lt : Component → Component → Bool
  | here, here => false
  | here, _ => true
  | up, name _ => true
  | up, _ => false
  | name a, name b => a.lt b
  | name _, _ => false

/-- Whether one list of components comes strictly before another: by the first in which they differ,
and a list before every longer one that begins with it. -/
def componentsLt : List Component → List Component → Bool
  | [], [] => false
  | [], _ :: _ => true
  | _ :: _, [] => false
  | a :: as, b :: bs => if a = b then componentsLt as bs else a.lt b

/-- Whether one path comes strictly before another, by their components. -/
def lt (p q : String) : Bool :=
  componentsLt (components p) (components q)

/-- Whether a path leads through a directory: the steps of the directory begin those of the path. -/
def isUnder (path dir : String) : Bool :=
  (steps dir).isPrefixOf (steps path)

/-! ## 3. Joining -/

/-- Whether a path begins with a slash, and so does not start from where one stands. -/
def isFromTop (path : String) : Bool :=
  path.toList.head? = some '/'

/-- Whether a path is written with a slash last, as only that of a directory can be. -/
def endsInSlash (path : String) : Bool :=
  path.toList.getLast? = some '/'

/-- A path from the directory that another names. A path from the top stands for itself. -/
def join (dir path : String) : String :=
  if isFromTop path then path
  else if dir.isEmpty || endsInSlash dir then dir ++ path
  else dir ++ "/" ++ path

/-- What is written of a path before its last component, without the slashes and the parts that stay
where they are at its end. -/
def parent (path : String) : String :=
  let ended (parts : List (List Char)) := parts.dropWhile fun p => p.isEmpty || p = ['.']
  String.ofList (['/'].intercalate (ended (ended (splitOn '/' path.toList).reverse).tail).reverse)

/-- The components of a path, put one after the other behind that of a directory. -/
def below (dir path : String) : String :=
  (components path).foldl (fun p c => if p.isEmpty then c.text else p ++ "/" ++ c.text) dir

end Quire.Path
