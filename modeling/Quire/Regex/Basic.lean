import Quire.Regex.CharSet

/-!
# Regular expressions

The expressions by which a grammar describes its tokens: sets of characters, the ends of the text,
the edges of words, one after another, one or else the other, groups, and repetition that takes as
much as it can or as little.

An expression is put together in a normal form, so that one that is written in different ways is the
same expression:

* `concat` puts parts one after another, without empty ones among them;
* `choice` offers alternatives in order of preference. **Alternatives that all begin with the same
  parts share them**: what they begin with is settled before the choice between them is made;
* `repeated` goes round a part. What takes no character is gone round once at most.
-/

namespace Quire

/-! ## 1. Expressions -/

/-- What a place must be for an expression that takes no character. -/
inductive Assertion where
  /-- The text begins here. -/
  | textStart
  /-- The text ends here. -/
  | textEnd
  /-- A word begins or ends here. -/
  | wordEdge
  /-- No word begins or ends here. -/
  | notWordEdge
  deriving Repr, DecidableEq

/-- A regular expression. -/
inductive Regex where
  | empty
  | one (set : Regex.CharSet)
  | holds (a : Assertion)
  | seq (a b : Regex)
  | alt (a b : Regex)
  /-- The group with a number. No two groups of an expression have the same. -/
  | group (number : Nat) (a : Regex)
  /-- At least `least` rounds, and at most `most` if there is a bound. -/
  | times (least : Nat) (most : Option Nat) (greedy : Bool) (a : Regex)
  deriving Repr, DecidableEq

namespace Regex

/-- One character. -/
def char (c : Char) : Regex :=
  one (.single c)

/-! ## 2. What an expression takes -/

/-- Whether a match may take no character at all. -/
def mayTakeNothing : Regex → Bool
  | empty => true
  | one _ => false
  | holds _ => true
  | seq a b => a.mayTakeNothing && b.mayTakeNothing
  | alt a b => a.mayTakeNothing || b.mayTakeNothing
  | group _ a => a.mayTakeNothing
  | times least _ _ a => least == 0 || a.mayTakeNothing

/-- Whether no match takes a character. -/
def takesNothing : Regex → Bool
  | empty => true
  | one _ => false
  | holds _ => true
  | seq a b => a.takesNothing && b.takesNothing
  | alt a b => a.takesNothing && b.takesNothing
  | group _ a => a.takesNothing
  | times _ _ _ a => a.takesNothing

/-- Whether every match begins where the text begins, as can be seen from the first part. -/
def isAnchored : Regex → Bool
  | holds .textStart => true
  | seq a _ => a.isAnchored
  | alt a b => a.isAnchored && b.isAnchored
  | group _ a => a.isAnchored
  | times least _ _ a => least != 0 && a.isAnchored
  | _ => false

/-- The only character an expression matches, if it is written as one. -/
def only? : Regex → Option Char
  | one s => s.only?
  | _ => none

/-! ## 3. One after another -/

/-- The parts that follow one another in an expression. -/
def parts : Regex → List Regex
  | empty => []
  | seq a b => a.parts ++ b.parts
  | r => [r]

/-- Parts one after another. -/
def ofParts : List Regex → Regex
  | [] => empty
  | [a] => a
  | a :: more => seq a (ofParts more)

/-- Expressions one after another. -/
def concat (rs : List Regex) : Regex :=
  ofParts (rs.flatMap parts)

/-! ## 4. One or else the other -/

/-- The alternatives of an expression. -/
def branches : Regex → List Regex
  | alt a b => a.branches ++ b.branches
  | r => [r]

/-- Alternatives, the preferred one first. -/
def ofBranches : List Regex → Regex
  | [] => one .none
  | [a] => a
  | a :: more => alt a (ofBranches more)

/-- The set of one character of the alternatives, if each of them is one. -/
def set? : List Regex → Option CharSet
  | [] => some .none
  | one s :: more => (set? more).map s.union
  | _ => none

/-- Alternatives that share nothing. Sets are one set together. -/
def plainChoice (rs : List Regex) : Regex :=
  match set? rs with
  | some s => one s
  | none => ofBranches rs

/-- What two lists of parts both begin with. -/
def commonStart : List Regex → List Regex → List Regex
  | a :: as, b :: bs => if a = b then a :: commonStart as bs else []
  | _, _ => []

/-- What all of some lists of parts begin with. -/
def commonStarts : List (List Regex) → List Regex
  | [] => []
  | ps :: more => more.foldl commonStart ps

/-- Whether parts are characters only, and so a word. -/
def isWord (ps : List Regex) : Bool :=
  ps.all fun r => r.only?.isSome

/-- Whether a list of parts goes on with a character after its first `n`. -/
def goesOn (n : Nat) (ps : List Regex) : Bool :=
  match ps.drop n with
  | r :: _ => r.only?.isSome
  | [] => false

/-- What the parts of alternatives begin with that they share. A run of characters is shared whole
or not at all, and with a word nothing is. -/
def sharedStart (pss : List (List Regex)) : List Regex :=
  if pss.any fun ps => ps.length < 2 || isWord ps then []
  else
    let common := commonStarts pss
    if pss.any (goesOn common.length) then
      (common.reverse.dropWhile fun r => r.only?.isSome).reverse
    else common

/-- One alternative or else another, the preferred one first. -/
def choice (rs : List Regex) : Regex :=
  let bs := rs.flatMap branches
  let pss := bs.map parts
  match sharedStart pss with
  | [] => plainChoice bs
  | shared =>
    let rests := pss.map fun ps => ofParts (ps.drop shared.length)
    concat (shared ++ [plainChoice (rests.flatMap branches)])

/-! ## 5. Repetition -/

/-- Rounds of an expression, at least `least` and at most `most` if there is a bound. -/
def repeated (least : Nat) (most : Option Nat) (greedy : Bool) (a : Regex) : Regex :=
  let (least, most) :=
    if a.takesNothing then (min least 1, some (min (most.getD 1) 1)) else (least, most)
  match least, most with
  | 0, some 0 => empty
  | 1, some 1 => a
  | _, _ => times least most greedy a

end Regex

end Quire
