import Quire.Highlight.Grammar

/-!
# Scanning

A scan walks the source from left to right. Of the next matches of all patterns the one that begins
first is taken, and of several that begin at one place the one whose pattern is listed first. What no
match covers is gap, so a scan never fails.

The next match of every pattern is kept (`Candidates`) until the scan has passed its beginning; only
then is that pattern searched again.
-/

namespace Quire.Highlight

open Quire.Regex (Place Span)

/-! ## 1. The next match of every pattern -/

/-- Each pattern with its next match, in the order of the grammar. None is left of a pattern that
matches nowhere further on. -/
abbrev Candidates := List (Pattern × Option Span)

namespace Candidates

/-- The next matches from a place on. -/
def start (patterns : List Pattern) (p : Place) : Candidates :=
  patterns.map fun pattern => (pattern, pattern.find? p)

/-- The next matches once the scan has come to `p`: those that begin before it are searched anew. -/
def refresh (p : Place) (cs : Candidates) : Candidates :=
  cs.map fun (pattern, next) =>
    match next with
    | some m => if p.left < m.start.left then (pattern, pattern.find? p) else (pattern, some m)
    | none => (pattern, none)

/-- The match that begins first, and of several the one listed first. -/
def best? : Candidates → Option (Pattern × Span)
  | [] => none
  | (_, none) :: cs => best? cs
  | (pattern, some m) :: cs =>
    match best? cs with
    | some (other, m') =>
      if m.start.left < m'.start.left then some (other, m') else some (pattern, m)
    | none => some (pattern, m)

end Candidates

/-! ## 2. Tokens -/

namespace Lexer

/-- The token of a match in a source of `size` bytes. -/
def token (l : Lexer) (size : Nat) (pattern : Pattern) (m : Span) : Token :=
  let text := String.ofList (m.start.upTo m.stop)
  ⟨l.categorize pattern.rule text, text, m.start.offset size, m.stop.offset size⟩

/-- The tokens from `p` on, at most `n` of them. -/
def tokensFrom (l : Lexer) (size : Nat) : Nat → Candidates → Place → List Token
  | 0, _, _ => []
  | n + 1, cs, p =>
    let cs := cs.refresh p
    match cs.best? with
    | none => []
    | some (pattern, m) => l.token size pattern m :: tokensFrom l size n cs m.stop

/-- The tokens of a source, in order. Each takes at least a byte, so there are no more tokens than
bytes. -/
def tokenize (l : Lexer) (source : String) : List Token :=
  let p := Place.ofString source
  l.tokensFrom p.left (p.left + 1) (.start l.patterns p) p

/-- The tokens of a source with the gaps around them. -/
def scan (l : Lexer) (source : String) : List Segment :=
  segments source (l.tokenize source)

end Lexer

end Quire.Highlight
