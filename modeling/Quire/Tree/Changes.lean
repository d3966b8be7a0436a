import Quire.Tree.Basic

/-!
# What became of a tree

The difference between a tree and what it became: the entries that are new or are not what they
were, and those that are gone, each in the order of their paths. A directory is what it was as long
as it is one, whatever became of what it holds.
-/

namespace Quire.Tree

/-- Whether two entries are the same, what directories hold left aside. -/
def Entry.sameKind : Entry → Entry → Bool
  | directory _, directory _ => true
  | file c, file d => c == d
  | _, _ => false

/-- Every entry with its path, in the order of the paths. -/
def listing (t : Tree) : List (String × Entry) :=
  let all := t.entries.map fun x => (pathOf x.1, x.2)
  all.mergeSort fun a b => !decide (b.1 < a.1)

/-- The entries of a tree that an earlier tree does not have as they are. -/
def changedSince (t before : Tree) : List (String × Entry) :=
  let old := before.listing
  t.listing.filter fun x =>
    match old.lookup x.1 with
    | some e => !e.sameKind x.2
    | none => true

/-- The paths of the entries of an earlier tree that are gone. -/
def removedSince (t before : Tree) : List String :=
  let new := t.listing
  (before.listing.map (·.1)).filter fun path => (new.lookup path).isNone

end Quire.Tree
