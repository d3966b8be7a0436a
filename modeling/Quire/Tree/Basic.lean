import Quire.Tree.Directory

/-!
# Trees

A tree is the directory at the top, with everything below it. An entry stands at a place: the names
that lead to it from the top. That every directory has distinct names goes into the type.
-/

namespace Quire.Tree

open Quire.Path (Name)

/-- The names that lead from the top to an entry. -/
abbrev Place := List Name

/-- A place as a path. -/
def pathOf (p : Place) : String :=
  "/".intercalate (p.map Name.text)

/-! ## 1. Places in a directory -/

namespace Directory

/-- The entry at a place; at no names, the directory itself. -/
def at? : Place → Directory → Option Entry
  | [], d => some (.directory d)
  | n :: ns, d =>
    match d.get? n with
    | some (.directory i) => i.at? ns
    | some (.file c) => if ns.isEmpty then some (.file c) else none
    | none => none

/-- The directory with an entry put at a place, if there is a directory to put it into. -/
def putAt (e : Entry) : Place → Directory → Directory
  | [], d => d
  | [n], d => d.put n e
  | n :: ns, d =>
    match d.get? n with
    | some (.directory i) => d.put n (.directory (i.putAt e ns))
    | _ => d

/-- The directory without the entry at a place. -/
def eraseAt : Place → Directory → Directory
  | [], d => d
  | [n], d => d.erase n
  | n :: ns, d =>
    match d.get? n with
    | some (.directory i) => d.put n (.directory (i.eraseAt ns))
    | _ => d

/-- Every entry below a directory with its place, each directory before what it holds. -/
def descendants (above : Place) : Directory → List (Place × Entry)
  | nil => []
  | file n c rest => (above ++ [n], .file c) :: rest.descendants above
  | dir n i rest => (above ++ [n], .directory i) :: i.descendants (above ++ [n]) ++ rest.descendants above

theorem Distinct.putAt {e : Entry} {p : Place} {d : Directory} (h : d.Distinct)
    (he : e.Distinct) : (d.putAt e p).Distinct := by
  induction p generalizing d with
  | nil => simpa [Directory.putAt] using h
  | cons n ns ih =>
    cases ns with
    | nil => exact h.put he
    | cons m ms =>
      unfold Directory.putAt
      split
      · rename_i i hi
        exact h.put (ih (h.get? hi))
      · exact h

theorem Distinct.eraseAt {p : Place} {d : Directory} (h : d.Distinct) :
    (d.eraseAt p).Distinct := by
  induction p generalizing d with
  | nil => simpa [Directory.eraseAt] using h
  | cons n ns ih =>
    cases ns with
    | nil => exact h.erase
    | cons m ms =>
      unfold Directory.eraseAt
      split
      · rename_i i hi
        exact h.put (ih (h.get? hi))
      · exact h

end Directory

end Quire.Tree

namespace Quire

/-! ## 2. Trees -/

/-- A tree of files. -/
structure Tree where
  top : Tree.Directory
  distinct : top.Distinct

namespace Tree

/-- The tree without entries. -/
def empty : Tree :=
  ⟨.nil, trivial⟩

instance : Inhabited Tree := ⟨empty⟩

/-- The entry at a place. -/
def at? (t : Tree) (p : Place) : Option Entry :=
  t.top.at? p

/-- The tree with a file at a place. -/
def putFile (t : Tree) (p : Place) (content : ByteArray) : Tree :=
  ⟨t.top.putAt (.file content) p, t.distinct.putAt trivial⟩

/-- The tree with an empty directory at a place. -/
def putDirectory (t : Tree) (p : Place) : Tree :=
  ⟨t.top.putAt (.directory .nil) p, t.distinct.putAt trivial⟩

/-- The tree without the entry at a place. -/
def erase (t : Tree) (p : Place) : Tree :=
  ⟨t.top.eraseAt p, t.distinct.eraseAt⟩

/-- Every entry with its place, each directory before what it holds. -/
def entries (t : Tree) : List (Place × Entry) :=
  t.top.descendants []

/-- How many names the longest place has. -/
def height (t : Tree) : Nat :=
  t.top.height

end Tree

end Quire
