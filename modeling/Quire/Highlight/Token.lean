import Quire.Text.Bytes

/-!
# Tokens and segments

A scan marks parts of a source text as tokens, each with a category. The text between the tokens is
gap. `segments` lays the tokens out with the gaps around them: before a token stands the text since
the end of the token before it, if there is any, and after the last token what is left.

Tokens need not be in order here. One that begins before the end of its predecessor has no gap
before it, and the next gap is counted from its own end.
-/

namespace Quire.Highlight

open Quire.Text

/-! ## 1. Categories -/

/-- What a token is. -/
inductive Category where
  | keyword
  | builtinType
  | number
  | string
  | template
  | decorator
  | comment
  | punctuation
  | plain
  deriving Repr, DecidableEq

namespace Category

/-- The name of a category in style sheets. -/
def className : Category → String
  | keyword => "kw"
  | builtinType => "type"
  | number => "num"
  | string => "str"
  | template => "tmpl"
  | decorator => "dec"
  | comment => "cm"
  | punctuation => "pun"
  | plain => "pln"

/-- Every category. -/
def all : List Category :=
  [keyword, builtinType, number, string, template, decorator, comment, punctuation, plain]

/-- The category with a name. -/
def ofClassName? (name : String) : Option Category :=
  all.find? (·.className == name)

/-- **Each category is found by its name,** so no two have the same one. -/
theorem ofClassName?_className (c : Category) : ofClassName? c.className = some c := by
  cases c <;> decide

end Category

/-! ## 2. Tokens -/

/-- A marked part of a source text: its category, its text, and the byte offsets where it begins and
ends. -/
structure Token where
  category : Category
  text : String
  start : Nat
  stop : Nat
  deriving Repr, DecidableEq

/-- A part of a source text that is laid out: a gap or a token. -/
inductive Segment where
  | gap (text : String)
  | token (t : Token)
  deriving Repr, DecidableEq

/-- The text of a segment. -/
def Segment.text : Segment → String
  | gap text => text
  | token t => t.text

/-- The tokens with the gaps around them, where `last` is where the one before them ended. -/
def segmentsFrom (source : String) (last : Nat) : List Token → List Segment
  | [] => if last < source.utf8ByteSize then [.gap (slice source last source.utf8ByteSize)] else []
  | t :: ts =>
    if last < t.start then
      .gap (slice source last t.start) :: .token t :: segmentsFrom source t.stop ts
    else .token t :: segmentsFrom source t.stop ts

/-- The tokens of a source with the gaps around them. -/
def segments (source : String) (tokens : List Token) : List Segment :=
  segmentsFrom source 0 tokens

end Quire.Highlight
