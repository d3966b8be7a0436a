import Quire.Regex.Automaton
import Quire.Regex.Reader
import Quire.Text.Lowercase
import Quire.Highlight.Token

/-!
# Grammars

A grammar says how the tokens of a language look: patterns in order of precedence, each a regular
expression with the category of what it matches, and two lists of words by which identifiers are
sorted into keywords, built-in types and plain names. A pattern may look ahead: what follows a match
must begin with something, or must not.

A `Grammar` is text. `compile` reads its expressions and folds its words, and answers the `Lexer`
that is ready to run, or the name of the first pattern that cannot be read.

`Pattern.find?` is the search by one pattern: **the first place from which the pattern matches
something, with its look-ahead satisfied.** A match that is refused is not shortened; the search goes
on one character after where it began.
-/

namespace Quire.Highlight

open Quire.Regex (Automaton Place Span)

/-! ## 1. Grammars as they are written -/

/-- How the matches of a pattern are categorized. -/
inductive Rule where
  /-- Every match has this category. -/
  | fixed (category : Category)
  /-- A match is looked up in the words of the grammar. -/
  | identifier
  deriving Repr, DecidableEq

/-- The name of a rule. -/
def Rule.name : Rule → String
  | fixed c => c.className
  | identifier => "identifier"

/-- A condition on what follows a match. -/
inductive LookAhead where
  | requires (regex : String)
  | forbids (regex : String)
  deriving Repr, DecidableEq

/-- A pattern as it is written. -/
structure PatternText where
  name : String
  rule : Rule
  regex : String
  lookAhead : Option LookAhead := none
  deriving Repr, DecidableEq

/-- A grammar as it is written. Where two patterns match at one place the one listed first wins. -/
structure Grammar where
  name : String
  aliases : List String
  patterns : List PatternText
  keywords : List String
  builtinTypes : List String
  ignoreCase : Bool
  deriving Repr, DecidableEq

/-! ## 2. Patterns -/

/-- A condition on what follows a match, ready to run: whether the expression must match there or
must not. -/
structure Guard where
  automaton : Automaton
  required : Bool

/-- A pattern that is ready to run. -/
structure Pattern where
  name : String
  rule : Rule
  automaton : Automaton
  guard : Option Guard

namespace Pattern

/-- Whether what follows a match is as the look-ahead asks. It is read as a text of its own. -/
def allows (p : Pattern) (after : Place) : Bool :=
  match p.guard with
  | none => true
  | some g => (g.automaton.find? after.alone).isSome == g.required

/-- Whether a match counts: it took something, and the look-ahead is satisfied. -/
def accepts (p : Pattern) (m : Span) : Bool :=
  decide (m.stop.left < m.start.left) && p.allows m.stop

/-- The search of `find?` in at most `n` attempts. -/
def search (p : Pattern) : Nat → Place → Option Span
  | 0, _ => none
  | n + 1, at' =>
    match p.automaton.find? at' with
    | none => none
    | some m =>
      if p.accepts m then some m
      else
        match m.start.next? with
        | some (_, next) => search p n next
        | none => none

/-- The first match from a place on that counts. Each attempt begins at least a byte after the one
before, so there are no more attempts than bytes, and the one at the end. -/
def find? (p : Pattern) (at' : Place) : Option Span :=
  p.search (at'.left + 1) at'

end Pattern

/-! ## 3. Compiling -/

/-- Why a grammar cannot be run: the first of its patterns whose expression, or whose look-ahead, is
none. -/
structure InvalidPattern where
  grammar : String
  pattern : String
  fault : Regex.Fault
  deriving Repr, DecidableEq

/-- What is said of an invalid pattern, up to the account of its expression. -/
def InvalidPattern.message (e : InvalidPattern) : String :=
  s!"invalid pattern `{e.pattern}` in grammar `{e.grammar}`: "

/-- The condition of a look-ahead, held to the beginning of what follows. -/
def Guard.ofLookAhead : LookAhead → Except Regex.Fault Guard
  | .requires regex => do return ⟨.ofRegex (← Regex.ofString s!"^(?:{regex})"), true⟩
  | .forbids regex => do return ⟨.ofRegex (← Regex.ofString s!"^(?:{regex})"), false⟩

/-- A pattern made ready. -/
def PatternText.compile (p : PatternText) : Except Regex.Fault Pattern := do
  let regex ← Regex.ofString p.regex
  let guard ← p.lookAhead.mapM Guard.ofLookAhead
  return ⟨p.name, p.rule, .ofRegex regex, guard⟩

/-- A grammar that is ready to run. -/
structure Lexer where
  name : String
  patterns : List Pattern
  keywords : List String
  builtinTypes : List String
  ignoreCase : Bool

/-- The form of a word that is compared: in lower case if case is ignored. -/
def foldCase (ignoreCase : Bool) (word : String) : String :=
  if ignoreCase then Text.lowercase word else word

/-- A grammar made ready. -/
def Grammar.compile (g : Grammar) : Except InvalidPattern Lexer := do
  let patterns ← g.patterns.mapM fun p => p.compile.mapError (⟨g.name, p.name, ·⟩)
  return {
    name := g.name
    patterns := patterns
    keywords := g.keywords.map (foldCase g.ignoreCase)
    builtinTypes := g.builtinTypes.map (foldCase g.ignoreCase)
    ignoreCase := g.ignoreCase }

/-! ## 4. Identifiers -/

namespace Lexer

/-- The category of an identifier: keyword before built-in type, and plain if it is neither. -/
def classify (l : Lexer) (word : String) : Category :=
  let key := foldCase l.ignoreCase word
  if l.keywords.contains key then .keyword
  else if l.builtinTypes.contains key then .builtinType
  else .plain

/-- The category of a match. -/
def categorize (l : Lexer) (rule : Rule) (text : String) : Category :=
  match rule with
  | .fixed c => c
  | .identifier => l.classify text

end Lexer

end Quire.Highlight
