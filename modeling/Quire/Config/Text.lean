import Quire.Config.Basic
import Quire.Toml.Reader

/-!
# Configurations as text

A configuration is written with one entry for every setting, in a fixed order. It is read from any
file in the same language: entries that are no setting are passed over, settings without an entry
have their values as for a build that nothing is asked of, and an entry of the wrong kind is refused.
-/

namespace Quire.Config

open Quire.Toml (Entries Node Value)

/-! ## 1. Keys -/

/-- The key of the output directory. -/
def outputKey : String := "output_dir"

/-- The key of the excluded directories. -/
def excludedKey : String := "excluded_dirs"

/-- The key of the skipped files. -/
def skippedKey : String := "skip_files"

/-- The key of the image patterns. -/
def patternsKey : String := "image_patterns"

/-- The key of the language. -/
def languageKey : String := "code_language"

/-! ## 2. Writing -/

/-- Some strings as an array: fewer than two on one line, and otherwise each on a line. -/
def arrayText (items : List String) : String :=
  match items with
  | [] => "[]"
  | [item] => "[" ++ Toml.writeString item ++ "]"
  | _ => "[\n" ++ String.join (items.map fun item => "    " ++ Toml.writeString item ++ ",\n") ++ "]"

/-- An entry on a line. -/
def entryText (key value : String) : String :=
  s!"{key} = {value}\n"

/-- A configuration as text. -/
def text (c : Config) : String :=
  entryText outputKey (Toml.writeString c.outputDirectory)
    ++ entryText excludedKey (arrayText c.excludedDirectories)
    ++ entryText skippedKey (arrayText c.skippedFiles)
    ++ entryText patternsKey (arrayText c.imagePatterns)
    ++ entryText languageKey (Toml.writeString c.codeLanguage)

/-! ## 3. Reading -/

/-- The string that a value is. -/
def string? : Value → Option String
  | .string s => some s
  | _ => none

/-- The strings that an array has, if it has nothing else. -/
def strings? : Value → Option (List String)
  | .array items => items.mapM string?
  | _ => none

/-- A setting from its entry, if there is one, by what its value has to be. -/
def setting {α : Type} (es : Entries) (key : String) (value? : Value → Option α) (otherwise : α) :
    Option α :=
  match es.get? key with
  | none => some otherwise
  | some (.value v) => value? v
  | some _ => none

/-- The configuration that entries make up. -/
def ofEntries (es : Entries) : Option Config := do
  let standard : Config := {}
  return {
    outputDirectory := ← setting es outputKey string? standard.outputDirectory
    excludedDirectories := ← setting es excludedKey strings? standard.excludedDirectories
    skippedFiles := ← setting es skippedKey strings? standard.skippedFiles
    imagePatterns := ← setting es patternsKey strings? standard.imagePatterns
    codeLanguage := ← setting es languageKey string? standard.codeLanguage }

/-- The configuration that a text sets, or nothing if it is refused. -/
def ofText (s : String) : Option Config :=
  (Toml.read s).bind ofEntries

end Quire.Config
