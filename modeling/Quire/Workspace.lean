import Quire.Notice
import Quire.Tree.Access

/-!
# Work on a tree

The program works on a tree of files and notes what it does in a journal. An action is a piece of
that work: it may change the tree, may add to the journal, and gives an answer or fails. What was
changed and noted before a failure stays.
-/

namespace Quire

/-- A tree that is worked on, and what was noted so far. -/
structure Workspace where
  tree : Tree
  journal : List Notice

/-- A piece of work that fails with an `ε` or answers with an `α`. -/
abbrev Action (ε α : Type) : Type :=
  ExceptT ε (StateM Workspace) α

namespace Action

variable {ε δ α : Type}

/-- The tree as it is. -/
def tree : Action ε Tree := do
  return (← get).tree

/-- A notice added to the journal. -/
def note (n : Notice) : Action ε Unit :=
  modify fun w => { w with journal := w.journal ++ [n] }

/-- What the tree answers to a question. -/
def ask (question : Tree → Except ε α) : Action ε α := do
  match question (← tree) with
  | .ok a => pure a
  | .error e => throw e

/-- The tree put into the place of the one that was. -/
def setTree (t : Tree) : Action ε Unit :=
  modify fun w => { w with tree := t }

/-- The tree changed all at once or, on failure, not at all. -/
def change (f : Tree → Except ε Tree) : Action ε Unit := do
  match f (← tree) with
  | .ok t => setTree t
  | .error e => throw e

/-- The tree changed step by step: what was done before a failure stays. -/
def changeStepwise (f : Tree → Tree × Option ε) : Action ε Unit := do
  match f (← tree) with
  | (t, none) => setTree t
  | (t, some e) => do
    setTree t
    throw e

/-- An action whose failures are told in other words. -/
def onFailure (a : Action ε α) (f : ε → δ) : Action δ α :=
  ExceptT.adapt f a

/-- The answer or failure of an action, and the workspace after it. -/
def runOn (a : Action ε α) (w : Workspace) : Except ε α × Workspace :=
  a.run.run w

end Action

end Quire
