import Quire.Glob.Basic
import Quire.Text.Split

/-!
# Reading a pattern from its text

A question mark, a star and an opening bracket are tokens of their own; every other character stands
for itself. Two stars have to be a whole component, and three in a row are refused. A bracket holds
at least one character, so one that closes right after the opening, or right after the exclamation
mark that reverses it, is among the characters it holds.

The text is read twice: first as a whole, so that a fault is told by its position in the whole text,
and then component by component.
-/

namespace Quire.Glob

/-! ## 1. Faults -/

/-- What can be wrong with a pattern. -/
inductive Fault where
  | tooManyStars
  | starsInComponent
  | badBracket
  deriving Repr, DecidableEq

/-- The words for a fault. -/
def Fault.message : Fault → String
  | tooManyStars => "wildcards are either regular `*` or recursive `**`"
  | starsInComponent => "recursive wildcards must form a single path component"
  | badBracket => "invalid range pattern"

/-- A fault and where it is, counted in characters. -/
structure Refusal where
  position : Nat
  fault : Fault
  deriving Repr, DecidableEq

/-- What is said of a pattern that is refused. -/
def Refusal.message (r : Refusal) : String :=
  s!"Pattern syntax error near position {r.position}: {r.fault.message}"

/-! ## 2. Tokens -/

/-- The ranges that the characters in a bracket make up. -/
def ranges : List Char → List Range
  | a :: '-' :: b :: cs => ⟨a, b⟩ :: ranges cs
  | c :: cs => ⟨c, c⟩ :: ranges cs
  | [] => []

/-- What stands before the first closing bracket. -/
def upToClosing? (s : List Char) : Option (List Char) :=
  if ']' ∈ s then some (s.takeWhile (· != ']')) else none

/-- The token of a bracket, given what follows its opening, and the number of characters it takes of
that. -/
def bracket? : List Char → Option (Token × Nat)
  | '!' :: c :: cs => (upToClosing? cs).map fun held => (.noneOf (ranges (c :: held)), held.length + 3)
  | '!' :: [] => none
  | c :: cs => (upToClosing? cs).map fun held => (.oneOf (ranges (c :: held)), held.length + 2)
  | [] => none

/-- The token of some stars, given the character before them and what follows the first, and the
number of characters it takes of that. The stars of a whole component take the slash after them. -/
def stars (before : Option Char) (position : Nat) (s : List Char) : Except Refusal (Token × Nat) :=
  match s with
  | '*' :: '*' :: _ => .error ⟨position + 2, .tooManyStars⟩
  | '*' :: rest =>
    if before = none || before = some '/' then
      match rest with
      | [] => .ok (.anyDepth, 1)
      | '/' :: _ => .ok (.anyDepth, 2)
      | _ :: _ => .error ⟨position + 2, .starsInComponent⟩
    else .error ⟨position - 1, .starsInComponent⟩
  | _ => .ok (.anyRun, 0)

/-- The tokens of a text, given how many of its characters belong to the token before, the character
before it, and the position of its first. -/
def tokensFrom : Nat → Option Char → Nat → List Char → Except Refusal (List Token)
  | _, _, _, [] => .ok []
  | taken + 1, _, position, c :: cs => tokensFrom taken (some c) (position + 1) cs
  | 0, before, position, c :: cs =>
    match c with
    | '?' => (tokensFrom 0 (some c) (position + 1) cs).map (.anyChar :: ·)
    | '*' =>
      match stars before position cs with
      | .ok (token, taken) => (tokensFrom taken (some c) (position + 1) cs).map (token :: ·)
      | .error e => .error e
    | '[' =>
      match bracket? cs with
      | some (token, taken) => (tokensFrom taken (some c) (position + 1) cs).map (token :: ·)
      | none => .error ⟨position, .badBracket⟩
    | _ => (tokensFrom 0 (some c) (position + 1) cs).map (.char c :: ·)

/-- The tokens of a text. -/
def tokens (text : List Char) : Except Refusal (List Token) :=
  tokensFrom 0 none 0 text

/-! ## 3. Patterns -/

/-- The components of a text between its slashes. What follows a slash at the end is none. -/
def writtenComponents (text : List Char) : List (List Char) :=
  let parts := Text.splitOn '/' text
  if parts.length ≠ 1 ∧ parts.getLast? = some [] then parts.dropLast else parts

/-- The pattern that a text writes. -/
def Pattern.ofString (text : String) : Except Refusal Pattern :=
  match tokens text.toList with
  | .error e => .error e
  | .ok _ =>
    match (writtenComponents text.toList).mapM tokens with
    | .error e => .error e
    | .ok components =>
      .ok ⟨components.map Piece.ofTokens, text.toList.getLast? = some '/'⟩

end Quire.Glob
