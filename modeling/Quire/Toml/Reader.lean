import Quire.Toml.Document

/-!
# Reading a configuration file

A file has one statement a line. Between statements, and within the brackets of an array, there may
be blanks, empty lines and comments; a table between braces stands on one line. The readers take
what they read off the front of a text and hand on the rest. The number they count down bounds how
many calls lie within each other. It is never used up by a text that can be read, since every call
within another has a character of its own there, be it only a closing bracket.
-/

namespace Quire.Toml

/-! ## 1. Blanks and comments -/

/-- Whether a character is a blank within a line. -/
def isBlank (c : Char) : Bool :=
  c = ' ' || c = '\t'

/-- A text without the blanks at its front. -/
def skipBlanks (s : List Char) : List Char :=
  s.dropWhile isBlank

/-- A text without the blanks, line breaks and comments at its front. -/
def skipTrivia (inComment : Bool) : List Char → Option (List Char)
  | [] => some []
  | c :: s =>
    if c = '\n' || isReturn c s then skipTrivia false s
    else if inComment then if isControl c then none else skipTrivia true s
    else if isBlank c then skipTrivia false s
    else if c = '#' then skipTrivia true s
    else some (c :: s)

/-- What follows the end of the line, before which there may be blanks and a comment. -/
def afterLine (inComment : Bool) : List Char → Option (List Char)
  | [] => some []
  | c :: s =>
    if c = '\n' then some s
    else if isReturn c s then afterLine false s
    else if inComment then if isControl c then none else afterLine true s
    else if isBlank c then afterLine false s
    else if c = '#' then afterLine true s
    else none

/-! ## 2. Keys -/

/-- Whether a character can stand in a key without quotes. -/
def isKeyChar (c : Char) : Bool :=
  c.isAlphanum || c = '_' || c = '-'

/-- One part of a key. -/
def readKeyPart (s : List Char) : Taken String :=
  match s with
  | '\x22' :: r => (readBasic r).map fun (k, r) => (String.ofList k, r)
  | '\x27' :: r => (readLiteral r).map fun (k, r) => (String.ofList k, r)
  | _ =>
    let k := s.takeWhile isKeyChar
    if k.isEmpty then none else some (String.ofList k, s.drop k.length)

/-- The parts of a key with dots and blanks between them, and the blanks after it. -/
def readKeyParts : Nat → List Char → Taken Key
  | 0, _ => none
  | n + 1, s =>
    match readKeyPart s with
    | none => none
    | some (k, s) =>
      match skipBlanks s with
      | '.' :: s => (readKeyParts n (skipBlanks s)).map fun (ks, s) => (k :: ks, s)
      | s => some ([k], s)

/-- How many parts a key may have, and how many levels deep a value may be nested. -/
def maxDepth : Nat := 80

/-- A key. -/
def readKey (n : Nat) (s : List Char) : Taken Key :=
  (readKeyParts n s).filter fun (k, _) => k.length ≤ maxDepth

/-! ## 3. Values -/

mutual

/-- A value that may have so many levels of brackets and braces. -/
def readValue : Nat → Nat → List Char → Taken Value
  | 0, _, _ => none
  | n + 1, levels, s =>
    match s with
    | '[' :: s =>
      match levels with
      | 0 => none
      | levels + 1 => (readItems n levels s).map fun (items, s) => (.array items, s)
    | '\x7b' :: s =>
      match levels with
      | 0 => none
      | levels + 1 =>
        match skipBlanks s with
        | '\x7d' :: s => some (.table [], s)
        | s =>
          match readEntries n levels s with
          | none => none
          | some (entries, s) =>
            (Entries.ofList entries).map fun _ => (.table entries, s)
    | '\x22' :: _ => (readString s).map fun (cs, s) => (.string (String.ofList cs), s)
    | '\x27' :: _ => (readString s).map fun (cs, s) => (.string (String.ofList cs), s)
    | _ => (readScalar s).map fun (v, s) => (.scalar v, s)

/-- The items of an array up to its closing bracket. A comma may follow the last. -/
def readItems : Nat → Nat → List Char → Taken (List Value)
  | 0, _, _ => none
  | n + 1, levels, s =>
    match skipTrivia false s with
    | none => none
    | some (']' :: s) => some ([], s)
    | some s =>
      match readValue n levels s with
      | none => none
      | some (item, s) =>
        match skipTrivia false s with
        | some (',' :: s) => (readItems n levels s).map fun (items, s) => (item :: items, s)
        | some (']' :: s) => some ([item], s)
        | _ => none

/-- The entries of a table between braces up to its closing brace. -/
def readEntries : Nat → Nat → List Char → Taken (List (Key × Value))
  | 0, _, _ => none
  | n + 1, levels, s =>
    match readKey n s with
    | some (key, '=' :: s) =>
      match readValue n levels (skipBlanks s) with
      | none => none
      | some (v, s) =>
        match skipBlanks s with
        | ',' :: s => (readEntries n levels (skipBlanks s)).map fun (entries, s) =>
            ((key, v) :: entries, s)
        | '\x7d' :: s => some ([(key, v)], s)
        | _ => none
    | _ => none

end

/-! ## 4. Statements -/

/-- A statement, without what ends its line. -/
def readStatement (n : Nat) (s : List Char) : Taken Statement :=
  match s with
  | '[' :: '[' :: s =>
    match readKey n (skipBlanks s) with
    | some (key, ']' :: ']' :: s) => some (.tableOfList key, s)
    | _ => none
  | '[' :: s =>
    match readKey n (skipBlanks s) with
    | some (key, ']' :: s) => some (.table key, s)
    | _ => none
  | _ =>
    match readKey n s with
    | some (key, '=' :: s) =>
      (readValue n maxDepth (skipBlanks s)).map fun (v, s) => (.entry key v, s)
    | _ => none

/-- The statements of a text. -/
def readStatements : Nat → List Char → Option (List Statement)
  | 0, _ => none
  | n + 1, s =>
    match skipTrivia false s with
    | none => none
    | some [] => some []
    | some s =>
      match readStatement n s with
      | none => none
      | some (statement, s) =>
        match afterLine false s with
        | none => none
        | some s => (readStatements n s).map (statement :: ·)

/-- The statements of a file. A mark of the byte order at its front is passed over. -/
def statements (text : String) : Option (List Statement) :=
  let s := match text.toList with
    | '\ufeff' :: s => s
    | s => s
  readStatements (s.length + 1) s

/-- The table that a file makes up, or nothing if it is no such file. -/
def read (text : String) : Option Entries :=
  (statements text).bind Entries.ofStatements

end Quire.Toml
