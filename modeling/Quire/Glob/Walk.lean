import Quire.Glob.Reader
import Quire.Tree.Access

/-!
# The paths that a pattern stands for

A pattern is followed through a tree from where one stands, one piece after the other. A literal
piece is looked up; any other has the directory listed, and its entries are tried in the order of
their names. Two stars try an entry against the piece that follows them and, if it is a directory,
then all that it holds. So the paths come in the order of their components.

A caller may change the tree at every path it is handed. The tree is therefore asked for anew
before each entry is tried, and a directory is listed as it is when its turn comes.
-/

namespace Quire.Glob

open Quire.Path (Name)
open Quire.Tree (Entry)

/-! ## 1. What is to be tried -/

/-- Something that the walk has come to and that is still to be tried. -/
inductive Pending where
  /-- A path that the whole pattern stands for. -/
  | found (path : String) (isDirectory : Bool)
  /-- An entry of a directory that was listed, with the pieces that are left. -/
  | entry (path : String) (name : Name) (isDirectory : Bool) (pieces : List Piece)
  deriving DecidableEq

/-- Whether a path is that of where one stands. -/
def isHere (path : String) : Bool :=
  Path.steps path == [.here]

/-- The path of something in a directory. What is where one stands goes by its name alone. -/
def inside (dir name : String) : String :=
  if isHere dir then name else Path.join dir name

/-- The two names that every directory answers to without having them listed. -/
def dots : List String := ["..", "."]

/-- What pieces have to be tried on in a directory. The dots are tried only on a piece that begins
with a dot, and before the entries. -/
def fill (t : Tree) : List Piece → String → Bool → List Pending
  | [], _, _ => []
  | piece :: rest, dir, isDirectory =>
    let arrive (path : String) : List Pending :=
      if rest.isEmpty then [.found path (t.hasDirectory path)]
      else fill t rest path (t.hasDirectory path)
    match piece with
    | .literal text =>
      let path := inside dir text
      if dots.contains text then if isDirectory then arrive path else []
      else if t.hasEntry path then arrive path
      else []
    | _ =>
      match if isDirectory then t.directory? dir else none with
      | none => []
      | some d =>
        (dots.filter fun dot => piece.beginsWithDot && piece.isMatch dot).flatMap
            (fun dot => arrive (Path.join dir dot))
          ++ d.sorted.map fun (name, e) =>
            .entry (inside dir name.text) name e.isDirectory (piece :: rest)

/-! ## 2. Steps -/

/-- Pieces of two stars that follow one another are one. -/
def mergeDepths : List Piece → List Piece
  | .anyDepth :: .anyDepth :: rest => mergeDepths (.anyDepth :: rest)
  | pieces => pieces

/-- A path, unless it is to be that of a directory and is not. -/
def accepted (directoriesOnly : Bool) (path : String) (isDirectory : Bool) : Option String :=
  if directoriesOnly && !isDirectory then none else some path

/-- What comes of trying an entry on a piece and those after it. -/
def tryPiece (t : Tree) (directoriesOnly : Bool) (path : String) (name : Name)
    (isDirectory : Bool) (piece : Piece) (rest : List Piece) : Option String × List Pending :=
  if piece.isMatch name.text then
    if rest.isEmpty then (accepted directoriesOnly path isDirectory, [])
    else (none, fill t rest path isDirectory)
  else (none, [])

/-- What comes of trying one thing: a path that is found, and what is to be tried next. -/
def Pending.advance (t : Tree) (directoriesOnly : Bool) : Pending → Option String × List Pending
  | found path isDirectory => (accepted directoriesOnly path isDirectory, [])
  | entry path name isDirectory pieces =>
    match mergeDepths pieces with
    | [] => (none, [])
    | .anyDepth :: rest =>
      let deeper := if isDirectory then fill t (.anyDepth :: rest) path true else []
      match rest with
      | [] => (if isDirectory then some path else none, deeper)
      | piece :: rest =>
        let (hit, next) := tryPiece t directoriesOnly path name isDirectory piece rest
        (hit, next ++ deeper)
    | piece :: rest => tryPiece t directoriesOnly path name isDirectory piece rest

/-! ## 3. The walk -/

/-- Trying one thing and all that comes of it, with every path that is found handed to `act` in
turn. The number bounds how deep what comes of it may lie. -/
def Pending.foldM {m : Type → Type} [Monad m] {β : Type} (tree : m Tree) (directoriesOnly : Bool)
    (act : β → String → m β) : Nat → β → Pending → m β
  | 0, b, _ => pure b
  | depth + 1, b, p => do
    let t ← tree
    let (hit, next) := p.advance t directoriesOnly
    let b ← match hit with
      | some path => act b path
      | none => pure b
    next.foldlM (Pending.foldM tree directoriesOnly act depth) b

namespace Pattern

/-- A bound for how deep the walk goes: each piece can be tried on every level of the tree, and on
one more that is filled while the walk is on. -/
def reach (p : Pattern) (t : Tree) : Nat :=
  (p.pieces.length + 1) * (t.height + 2)

/-- Every path that a pattern stands for handed to `act` in turn. -/
def foldM {m : Type → Type} [Monad m] {β : Type} (p : Pattern) (tree : m Tree)
    (act : β → String → m β) (b : β) : m β := do
  let t ← tree
  (fill t p.pieces "." true).foldlM (Pending.foldM tree p.directoriesOnly act (p.reach t)) b

/-- The paths that a pattern stands for in a tree that stays as it is. -/
def paths (p : Pattern) (t : Tree) : List String :=
  Id.run (p.foldM (pure t) (fun found path => pure (found ++ [path])) [])

end Pattern

end Quire.Glob
