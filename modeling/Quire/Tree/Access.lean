import Quire.Path.Basic
import Quire.Tree.Basic

/-!
# Reaching into a tree

A path is followed from the top, one component after the other; every name but the last has to be
that of a directory. Going up from the top stays there. A path ends at a directory, at a file, or at
a free place in a directory. Everything that is asked of a tree or done to it by a path begins with
following the path, and fails for one of a few causes, which read as the system writes them.
-/

namespace Quire.Tree

open Quire.Path (Component Name)

/-! ## 1. Causes of failure -/

/-- Why something cannot be done to a tree. -/
inductive SystemError where
  | notFound
  | taken
  | notDirectory
  | isDirectory
  | notText
  | nameTooLong
  | nullInName
  deriving Repr, DecidableEq

/-- The words for a cause of failure. -/
def SystemError.message : SystemError → String
  | notFound => "No such file or directory (os error 2)"
  | taken => "File exists (os error 17)"
  | notDirectory => "Not a directory (os error 20)"
  | isDirectory => "Is a directory (os error 21)"
  | notText => "stream did not contain valid UTF-8"
  | nameTooLong => "File name too long (os error 36)"
  | nullInName => "file name contained an unexpected NUL byte"

/-! ## 2. Following a path -/

/-- What a path leads to. -/
inductive Spot where
  | directory (place : Place) (inside : Directory)
  | file (place : Place) (content : ByteArray)
  | free (place : Place)

/-- How many bytes the name of an entry may have. -/
def maxNameSize : Nat := 255

/-- How many bytes a path may have. -/
def maxPathSize : Nat := 4095

/-- Why a path is not followed at all. -/
def refusal? (path : String) : Option SystemError :=
  if path.toList.contains '\x00' then some .nullInName
  else if maxPathSize < path.utf8ByteSize then some .nameTooLong
  else none

/-- The spot that components lead to from a place. Where `closed` is true the last of them has to be
a directory if it is there. That a name is too long shows only when its turn comes. -/
def follow (t : Tree) (closed : Bool) : List Component → Place → Except SystemError Spot
  | [], p =>
    match t.at? p with
    | some (.directory i) => .ok (.directory p i)
    | _ => .error .notFound
  | .here :: cs, p => t.follow closed cs p
  | .up :: cs, p => t.follow closed cs p.dropLast
  | .name n :: cs, p =>
    let q := p ++ [n]
    if maxNameSize < n.text.utf8ByteSize then .error .nameTooLong
    else
      match t.at? q with
      | some (.directory _) => t.follow closed cs q
      | some (.file c) => if cs.isEmpty && !closed then .ok (.file q c) else .error .notDirectory
      | none => if cs.isEmpty then .ok (.free q) else .error .notFound

/-- The spot that a path leads to. The empty path leads nowhere, and so does one from a top
other than that of the tree. -/
def locate (t : Tree) (path : String) : Except SystemError Spot :=
  match refusal? path with
  | some e => .error e
  | none =>
    if path.isEmpty || Path.isFromTop path then .error .notFound
    else t.follow (Path.endsInSlash path) (Path.components path) []

/-! ## 3. Asking -/

/-- Whether a path leads to an entry. -/
def hasEntry (t : Tree) (path : String) : Bool :=
  match t.locate path with
  | .ok (.directory _ _) => true
  | .ok (.file _ _) => true
  | _ => false

/-- The directory that a path leads to. -/
def directory? (t : Tree) (path : String) : Option Directory :=
  match t.locate path with
  | .ok (.directory _ i) => some i
  | _ => none

/-- Whether a path leads to a directory. -/
def hasDirectory (t : Tree) (path : String) : Bool :=
  (t.directory? path).isSome

/-- Whether a path leads to a file. -/
def hasFile (t : Tree) (path : String) : Bool :=
  match t.locate path with
  | .ok (.file _ _) => true
  | _ => false

/-- The content of the file that a path leads to. -/
def readBytes (t : Tree) (path : String) : Except SystemError ByteArray :=
  match t.locate path with
  | .ok (.file _ c) => .ok c
  | .ok (.directory _ _) => .error .isDirectory
  | .ok (.free _) => .error .notFound
  | .error e => .error e

/-- The content of the file that a path leads to, as text. -/
def readText (t : Tree) (path : String) : Except SystemError String :=
  match t.readBytes path with
  | .ok c =>
    match String.fromUTF8? c with
    | some s => .ok s
    | none => .error .notText
  | .error e => .error e

/-! ## 4. Changing -/

/-- The tree with a content written to the file that a path leads to, which is made if the place is
free. -/
def write (t : Tree) (path : String) (content : ByteArray) : Except SystemError Tree :=
  match t.locate path with
  | .ok (.file p _) => .ok (t.putFile p content)
  | .ok (.free p) => if Path.endsInSlash path then .error .isDirectory else .ok (t.putFile p content)
  | .ok (.directory _ _) => .error .isDirectory
  | .error e => .error e

/-- The tree with a text written to a file. -/
def writeText (t : Tree) (path text : String) : Except SystemError Tree :=
  t.write path text.toUTF8

/-- The tree with the content of one file written to another. -/
def copy (t : Tree) (source target : String) : Except SystemError Tree :=
  match t.readBytes source with
  | .ok c => t.write target c
  | .error e => .error e

/-- The tree with a directory made at the free place that components lead to. A directory that is
there already will do. -/
def ensureDirectory (t : Tree) (cs : List Component) : Except SystemError Tree :=
  match t.follow false cs [] with
  | .ok (.free p) => .ok (t.putDirectory p)
  | .ok (.directory _ _) => .ok t
  | .ok (.file _ _) => .error .taken
  | .error e => .error e

/-- The tree with a directory at the end of components, given from the last to the first, and those
above it made where they are missing: first the directory itself is tried, and only if something is
missing on the way the one above it, and then itself again. What was made before a failure stays. -/
def ensureDirectories (t : Tree) : List Component → Tree × Option SystemError
  | [] => (t, none)
  | c :: above =>
    match t.ensureDirectory (c :: above).reverse with
    | .ok t' => (t', none)
    | .error .notFound =>
      match t.ensureDirectories above with
      | (t', some e) => (t', some e)
      | (t', none) =>
        match t'.ensureDirectory (c :: above).reverse with
        | .ok t'' => (t'', none)
        | .error e => (t', some e)
    | .error e => (t, some e)

/-- The tree with the directory that a path names, and those above it. The empty path asks for
nothing. -/
def makeDirectories (t : Tree) (path : String) : Tree × Option SystemError :=
  match refusal? path with
  | some e => (t, some e)
  | none =>
    if Path.isFromTop path then (t, some .notFound)
    else t.ensureDirectories (Path.steps path).reverse

/-- The tree with the directories above the entry that a path names. -/
def makeParents (t : Tree) (path : String) : Tree × Option SystemError :=
  match refusal? (Path.parent path) with
  | some e => (t, some e)
  | none =>
    if Path.isFromTop path then (t, some .notFound)
    else t.ensureDirectories (Path.steps path).reverse.tail

end Quire.Tree
