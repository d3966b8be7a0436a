import Quire.CommandLine.Command
import Quire.Tree.Changes

/-!
# The program

The command line, at the current directory: what lies below it is read into a tree, the command is
run on the tree, and what changed is written back. Notices go to the standard error, and with them
the reason of a failure.
-/

namespace Quire.Main

open Quire.CommandLine (Command Invocation Refusal)
open Quire.Tree (Entry)

/-- How the program is used. -/
def usage : String :=
  "Usage: md2h [-v] build [DIR] [-c CONFIG] [-o OUT] [-l LANG]\n"
    ++ "       md2h [-v] init [DIR] [--user] [-f]\n"
    ++ "       md2h [-v] highlight FILE -l LANG"

/-- A tree with what lies in the directory at a place. A name that no entry can have is passed
over. -/
partial def load (t : Tree) (place : Tree.Place) : IO Tree := do
  let dir ← IO.FS.realPath (Path.join "." (Tree.pathOf place))
  let mut t := t
  for e in ← dir.readDir do
    if h : Path.IsName e.fileName then
      let place := place ++ [⟨e.fileName, h⟩]
      if ← e.path.isDir then
        t ← load (t.putDirectory place) place
      else
        t := t.putFile place (← IO.FS.readBinFile e.path)
  return t

/-- An entry written to its path. -/
def store (path : String) : Entry → IO Unit
  | .directory _ => IO.FS.createDirAll path
  | .file content => IO.FS.writeBinFile path content

/-- The values of the variables that a path may name, and of the home directory. -/
def environment (path : String) : IO Environment := do
  let names := "HOME" :: ((path.toList.splitBy fun a b =>
    Config.isVariableChar a == Config.isVariableChar b).map String.ofList)
  let values ← names.filterMapM fun name => do
    return (← IO.getEnv name).map fun value => (name, value)
  return ⟨values⟩

/-- What a command does, with the text that is printed if it succeeds. -/
def action (env : Environment) : Command → Action CommandLine.CommandError String
  | .build dir config out lang => do
    let report ← CommandLine.runBuild env dir config out lang
    return s!"converted {report.pages.length} documents, copied {report.imagesCopied} images"
  | .init dir user force => do
    return s!"wrote {← CommandLine.runInit env dir user force}"
  | .highlight file lang => CommandLine.runHighlight file lang

/-- A command run at the current directory. -/
def run (i : Invocation) : IO UInt32 := do
  let env ← environment (match i.command with
    | .build _ (some config) _ _ => config
    | _ => "")
  let before ← load .empty []
  let (answer, w) := (action env i.command).runOn ⟨before, []⟩
  for n in w.journal do
    if n.severity = .info || n.severity = .warn || (i.verbose && n.severity = .debug) then
      IO.eprintln n.line
  for (path, e) in w.tree.changedSince before do
    store path e
  match answer with
  | .ok text => IO.println text; return 0
  | .error e => IO.eprintln e.message; return 1

end Quire.Main

/-- The program. -/
def main (words : List String) : IO UInt32 := do
  match Quire.CommandLine.read words with
  | .ok i => Quire.Main.run i
  | .error .asksForHelp => IO.println Quire.Main.usage; return 0
  | .error .asksForVersion => IO.println "md2h 0.1.0"; return 0
  | .error _ => IO.eprintln Quire.Main.usage; return 2
