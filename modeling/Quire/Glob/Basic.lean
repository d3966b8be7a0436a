/-!
# Patterns for names

A pattern for a name is a list of tokens: a character that stands for itself, a question mark for
any one character, a star for any run of characters, and brackets for one character out of some
ranges or outside all of them. A pattern for a path has a piece for every component: a text without
tokens of the other kinds, a pattern for a name, or two stars, which stand for any number of
directories.
-/

namespace Quire.Glob

/-! ## 1. Tokens -/

/-- The characters from one to another, both included. -/
structure Range where
  first : Char
  last : Char
  deriving Repr, DecidableEq

/-- Whether a character lies in one of some ranges. -/
def Range.anyHas (ranges : List Range) (c : Char) : Bool :=
  ranges.any fun r => r.first ≤ c && c ≤ r.last

/-- A part of a pattern. -/
inductive Token where
  | char (c : Char)
  | anyChar
  | anyRun
  | oneOf (ranges : List Range)
  | noneOf (ranges : List Range)
  /-- Two stars. -/
  | anyDepth
  deriving Repr, DecidableEq

/-- Whether a token stands for a character by itself. -/
def Token.allows : Token → Char → Bool
  | char d, c => c == d
  | anyChar, _ => true
  | oneOf ranges, c => Range.anyHas ranges c
  | noneOf ranges, c => !Range.anyHas ranges c
  | anyRun, _ => false
  | anyDepth, _ => false

/-- The verdicts on the ends of a text where any run of characters may be passed first. -/
def afterRun : List Bool → List Bool
  | [] => []
  | v :: vs =>
    let later := afterRun vs
    (v || later.headD false) :: later

/-- The verdicts on the ends of a text where a character that a token allows is passed first. -/
def afterOne (t : Token) : List Char → List Bool → List Bool
  | c :: cs, _ :: vs => (t.allows c && vs.headD false) :: afterOne t cs vs
  | _, _ => [false]

/-- For each end of a text, from the whole text down to the empty one, whether tokens stand for
it. The tokens are gone through from the last to the first, each once for every end. -/
def verdicts : List Token → List Char → List Bool
  | [], s => s.foldr (fun _ vs => false :: vs) [true]
  | .anyRun :: ts, s => afterRun (verdicts ts s)
  | .anyDepth :: ts, s => afterRun (verdicts ts s)
  | t :: ts, s => afterOne t s (verdicts ts s)

/-- Whether tokens stand for a text as a whole. -/
def accepts (ts : List Token) (s : List Char) : Bool :=
  (verdicts ts s).headD false

/-- **The verdicts on the ends of a text end in those on the text after its first character.** -/
theorem verdicts_cons (ts : List Token) (c : Char) (s : List Char) :
    verdicts ts (c :: s) = accepts ts (c :: s) :: verdicts ts s := by
  suffices ∃ v, verdicts ts (c :: s) = v :: verdicts ts s by
    obtain ⟨v, h⟩ := this
    simp [accepts, h]
  induction ts with
  | nil => exact ⟨false, rfl⟩
  | cons t ts ih =>
    obtain ⟨v, h⟩ := ih
    cases t <;> simp [verdicts, h, afterRun, afterOne]

/-- **No tokens stand for the empty text alone.** -/
theorem accepts_nil (s : List Char) : accepts [] s = s.isEmpty := by
  cases s <;> rfl

/-- **A star stands for no character, or for one and what a star stands for after it.** -/
theorem accepts_anyRun_cons (ts : List Token) (c : Char) (s : List Char) :
    accepts (.anyRun :: ts) (c :: s) = (accepts ts (c :: s) || accepts (.anyRun :: ts) s) := by
  rw [accepts, verdicts, verdicts_cons, afterRun]
  simp [accepts, verdicts]

/-! ## 2. Pieces -/

/-- What a pattern for a path has for a component. -/
inductive Piece where
  | literal (text : String)
  | wild (tokens : List Token)
  | anyDepth
  deriving Repr, DecidableEq

/-- The text of tokens that all stand for themselves. -/
def literal? : List Token → Option (List Char)
  | [] => some []
  | .char c :: ts => (literal? ts).map (c :: ·)
  | _ :: _ => none

namespace Piece

/-- The piece that tokens make up. -/
def ofTokens (tokens : List Token) : Piece :=
  match literal? tokens with
  | some text => literal (String.ofList text)
  | none => if tokens.contains .anyDepth then anyDepth else wild tokens

/-- Whether a piece stands for a name. -/
def isMatch : Piece → String → Bool
  | literal text, name => name == text
  | wild tokens, name => accepts tokens name.toList
  | anyDepth, _ => true

/-- Whether a piece begins with a dot that stands for itself and is followed by other tokens. -/
def beginsWithDot : Piece → Bool
  | wild (.char '.' :: _) => true
  | _ => false

end Piece

/-- A pattern for paths. -/
structure Pattern where
  pieces : List Piece
  /-- Whether it stands for directories alone. -/
  directoriesOnly : Bool
  deriving Repr, DecidableEq

end Quire.Glob
