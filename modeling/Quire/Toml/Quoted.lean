/-!
# Quoted strings in configuration files

A string stands in one of four forms: between double quotes or between single quotes, and each of
these on one line, between one quote at either end, or on several, between three. Between double
quotes a backslash begins an escape; between single quotes every character stands for itself. The
writer takes the first form in which the string can stand without escapes, and if there is none
writes it between double quotes with escapes. The readers take a string off the front of a text, the
opening quotes already taken, and hand on what follows the closing ones.
-/

namespace Quire.Toml

/-! ## 1. Characters -/

/-- Whether a character may not stand for itself in any form: a control character other than a tab
and a line feed. -/
def isControl (c : Char) : Bool :=
  (c.toNat < 0x20 && c != '\t' && c != '\n') || c.toNat == 0x7F

/-- Whether a character may stand for itself on one line. -/
def isInline (c : Char) : Bool :=
  !isControl c && c != '\n'

/-! ## 2. Writing -/

/-- The form in which a string is written. -/
inductive Form where
  | basic
  | literal
  | basicLines
  | literalLines
  deriving Repr, DecidableEq

namespace Form

/-- Whether a form is for several lines. -/
def isMultiline : Form → Bool
  | basic => false
  | literal => false
  | basicLines => true
  | literalLines => true

/-- The quotes at either end. -/
def delimiter : Form → List Char
  | basic => ['\x22']
  | literal => ['\x27']
  | basicLines => ['\x22', '\x22', '\x22']
  | literalLines => ['\x27', '\x27', '\x27']

end Form

/-- The length of the longest run of a character that a text has, where `run` of them came right
before. -/
def longestRun (c : Char) (run : Nat) : List Char → Nat
  | [] => run
  | d :: s => if d = c then longestRun c (run + 1) s else max run (longestRun c 0 s)

/-- The first form in which a string can stand without escapes, and else the form for escapes. -/
def Form.of (s : List Char) : Form :=
  let double := longestRun '\x22' 0 s
  let single := longestRun '\x27' 0 s
  let lines := s.contains '\n'
  if s.any isControl then if lines then .basicLines else .basic
  else if !s.contains '\\' && double == 0 && !lines then .basic
  else if single == 0 && !lines then .literal
  else if !s.contains '\\' && double ≤ 2 then .basicLines
  else if single ≤ 2 then .literalLines
  else if lines then .basicLines
  else .basic

/-- A digit to the base sixteen. -/
def hexDigit (n : Nat) : Char :=
  if n < 10 then Char.ofNat (48 + n) else Char.ofNat (55 + n)

/-- A character as it is escaped, if it has to be apart from the double quote. -/
def escape? (multiline : Bool) (c : Char) : Option (List Char) :=
  if c = '\x08' then some ['\\', 'b']
  else if c = '\t' then some ['\\', 't']
  else if c = '\n' then if multiline then none else some ['\\', 'n']
  else if c = '\x0c' then some ['\\', 'f']
  else if c = '\r' then some ['\\', 'r']
  else if c = '\\' then some ['\\', '\\']
  else if isControl c then
    some ['\\', 'u', '0', '0', hexDigit (c.toNat / 16), hexDigit (c.toNat % 16)]
  else none

/-- The characters of a string between double quotes, where `run` double quotes stand right before.
One quote more than may stand in a row is escaped. -/
def writeEscaped (multiline : Bool) (run : Nat) : List Char → List Char
  | [] => []
  | c :: s =>
    if c = '\x22' then
      if run < (if multiline then 2 else 0) then c :: writeEscaped multiline (run + 1) s
      else '\\' :: c :: writeEscaped multiline 0 s
    else
      match escape? multiline c with
      | some escaped => escaped ++ writeEscaped multiline 0 s
      | none => c :: writeEscaped multiline 0 s

/-- A string in a form. On several lines it begins with a line break of its own if it has one. -/
def Form.write (f : Form) (s : List Char) : List Char :=
  let opening := if f.isMultiline && s.contains '\n' then f.delimiter ++ ['\n'] else f.delimiter
  let body := match f with
    | basic => writeEscaped false 0 s
    | basicLines => writeEscaped true 0 s
    | literal => s
    | literalLines => s
  opening ++ body ++ f.delimiter

/-- A string as it is written. -/
def writeString (s : String) : String :=
  String.ofList ((Form.of s.toList).write s.toList)

/-! ## 3. Reading escapes -/

/-- The value of a digit to the base sixteen. -/
def hexValue? (c : Char) : Option Nat :=
  if '0' ≤ c ∧ c ≤ '9' then some (c.toNat - 48)
  else if 'a' ≤ c ∧ c ≤ 'f' then some (c.toNat - 87)
  else if 'A' ≤ c ∧ c ≤ 'F' then some (c.toNat - 55)
  else none

/-- The character whose number is written in digits to the base sixteen. -/
def scalar? (digits : List Char) : Option Char := do
  let n ← digits.foldlM (fun n c => (hexValue? c).map (n * 16 + ·)) 0
  if n.isValidChar then some (Char.ofNat n) else none

/-- The character that a letter after a backslash stands for. -/
def unescape? (c : Char) : Option Char :=
  match c with
  | 'b' => some '\x08'
  | 't' => some '\t'
  | 'n' => some '\n'
  | 'f' => some '\x0c'
  | 'r' => some '\r'
  | '\x22' => some '\x22'
  | '\\' => some '\\'
  | _ => none

/-! ## 4. Reading on one line -/

/-- What a reader takes off the front of a text, and the rest. -/
abbrev Taken (α : Type) := Option (α × List Char)

/-- A character put before what was taken, if there is one. -/
def andThen (c : Option Char) (taken : Taken (List Char)) : Taken (List Char) :=
  match c, taken with
  | some c, some (s, rest) => some (c :: s, rest)
  | _, _ => none

/-- The rest of a string between double quotes. -/
def readBasic : List Char → Taken (List Char)
  | [] => none
  | '\x22' :: rest => some ([], rest)
  | '\\' :: 'u' :: a :: b :: c :: d :: s =>
    andThen (scalar? [a, b, c, d]) (readBasic s)
  | '\\' :: 'U' :: a :: b :: c :: d :: e :: f :: g :: h :: s =>
    andThen (scalar? [a, b, c, d, e, f, g, h]) (readBasic s)
  | '\\' :: c :: s =>
    andThen (unescape? c) (readBasic s)
  | c :: s => if isInline c then andThen (some c) (readBasic s) else none

/-- The rest of a string between single quotes. -/
def readLiteral : List Char → Taken (List Char)
  | [] => none
  | '\x27' :: rest => some ([], rest)
  | c :: s => if isInline c then andThen (some c) (readLiteral s) else none

/-! ## 5. Reading on several lines -/

/-- What follows three closing quotes: up to two more belong to the string. -/
def closing (quote : Char) : List Char → List Char × List Char
  | a :: b :: rest =>
    if a = quote then if b = quote then ([a, b], rest) else ([a], b :: rest) else ([], a :: b :: rest)
  | a :: rest => if a = quote then ([a], rest) else ([], a :: rest)
  | [] => ([], [])

/-- Whether nothing but blanks stands before the next line break. -/
def breaksHere : List Char → Bool
  | [] => false
  | '\n' :: _ => true
  | '\r' :: '\n' :: _ => true
  | c :: s => (c = ' ' || c = '\t') && breaksHere s

/-- Whether a carriage return that the rest of a text follows is part of a line break. -/
def isReturn (c : Char) (rest : List Char) : Bool :=
  c = '\r' && rest.head? = some '\n'

/-- The rest of a string between three double quotes. Where `trim` is true, blanks and line breaks
are skipped, as they are after a backslash at the end of a line. -/
def readBasicLines (trim : Bool) : List Char → Taken (List Char)
  | [] => none
  | '\x22' :: '\x22' :: '\x22' :: rest => some (closing '\x22' rest)
  | '\\' :: 'u' :: a :: b :: c :: d :: s =>
    andThen (scalar? [a, b, c, d]) (readBasicLines false s)
  | '\\' :: 'U' :: a :: b :: c :: d :: e :: f :: g :: h :: s =>
    andThen (scalar? [a, b, c, d, e, f, g, h]) (readBasicLines false s)
  | '\\' :: c :: s =>
    if breaksHere (c :: s) then readBasicLines true s
    else andThen (unescape? c) (readBasicLines false s)
  | c :: s =>
    if trim && (c = ' ' || c = '\t' || c = '\n' || isReturn c s) then readBasicLines true s
    else if !isControl c || isReturn c s then andThen (some c) (readBasicLines false s)
    else none

/-- The rest of a string between three single quotes. -/
def readLiteralLines : List Char → Taken (List Char)
  | [] => none
  | '\x27' :: '\x27' :: '\x27' :: rest => some (closing '\x27' rest)
  | c :: s =>
    if !isControl c || isReturn c s then andThen (some c) (readLiteralLines s) else none

/-- A text without the line break at its front. -/
def afterBreak : List Char → List Char
  | '\n' :: s => s
  | '\r' :: '\n' :: s => s
  | s => s

/-! ## 6. Reading in any form -/

/-- A string in any of the four forms. -/
def readString : List Char → Taken (List Char)
  | '\x22' :: '\x22' :: '\x22' :: s => readBasicLines false (afterBreak s)
  | '\x27' :: '\x27' :: '\x27' :: s => readLiteralLines (afterBreak s)
  | '\x22' :: s => readBasic s
  | '\x27' :: s => readLiteral s
  | _ => none

end Quire.Toml
