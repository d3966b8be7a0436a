import Quire.Regex.Size

/-!
# Reading a regular expression from its text

The written form of expressions: literals; the dot, which is every character but the line feed;
sets in brackets, with ranges, a caret for what is not in them, named sets such as the letters, sets
inside sets and the three operations on sets; the escapes for digits, blanks and words, each with
its complement; the ends of the text and of words; groups; alternatives; and repetition by star,
plus, question mark or a count in braces, each of which a question mark makes take as little as it
can.

A text that is no expression is refused with its `Fault`, and so is an expression that is nested
too deep or would be too large. The readers below take what they read off the front of the text
and hand on the rest; the number they count down bounds how often they call themselves and is
never used up, since each call has taken a character.
-/

namespace Quire.Regex

/-- Why a text is no regular expression. -/
inductive Fault where
  | groupNotClosed
  | groupNotOpened
  | unknownGroup
  | setNotClosed
  | rangeReversed
  | rangeOfSet
  | nothingToRepeat
  | countNotClosed
  | countMissing
  | countTooLarge
  | countReversed
  | nothingEscaped
  | unknownEscape
  | assertionInSet
  | tooDeep
  | tooLarge
  deriving Repr, DecidableEq

/-! ## 1. Nesting -/

/-- How many levels deep an expression may be nested. -/
def maxDepth : Nat := 250

/-- What has been read of an expression, and how many levels deep it is nested: each group,
repetition and set in brackets is a level, and so is each sequence, choice or union of more than
one. -/
structure Nested (α : Type) where
  value : α
  depth : Nat

/-- The depth of some things together, which are a level if they are more than one. -/
def jointDepth (depths : List Nat) : Nat :=
  (if depths.length ≤ 1 then 0 else 1) + depths.foldl max 0

/-! ## 2. Escapes -/

/-- What a backslash and the character after it stand for. -/
inductive Escape where
  | char (c : Char)
  | set (s : CharSet)
  | assertion (a : Assertion)

/-- The meaning of a character after a backslash. A punctuation mark stands for itself, except for
the angle brackets; of the letters only those listed have a meaning, and no digit has. -/
def escape? (c : Char) : Option Escape :=
  match c with
  | 'd' => some (.set .digit)
  | 'D' => some (.set CharSet.digit.compl)
  | 's' => some (.set .blank)
  | 'S' => some (.set CharSet.blank.compl)
  | 'w' => some (.set .word)
  | 'W' => some (.set CharSet.word.compl)
  | 'b' => some (.assertion .wordEdge)
  | 'B' => some (.assertion .notWordEdge)
  | 'A' => some (.assertion .textStart)
  | 'z' => some (.assertion .textEnd)
  | 'n' => some (.char '\n')
  | 'r' => some (.char '\r')
  | 't' => some (.char '\t')
  | 'f' => some (.char (Char.ofNat 0x0c))
  | 'v' => some (.char (Char.ofNat 0x0b))
  | 'a' => some (.char (Char.ofNat 0x07))
  | '<' => none
  | '>' => none
  | c => if c.toNat < 0x80 && !c.isAlphanum then some (.char c) else none

/-- The escape that follows a backslash. -/
def readEscape : List Char → Except Fault (Escape × List Char)
  | [] => .error .nothingEscaped
  | c :: rest =>
    match escape? c with
    | some e => .ok (e, rest)
    | none => .error .unknownEscape

/-! ## 3. Sets in brackets -/

/-- The set with a name, as it stands between colons. -/
def namedSet? (name : List Char) : Option CharSet :=
  let letters := CharSet.union (.range 'a' 'z') (.range 'A' 'Z')
  match String.ofList name with
  | "alnum" => some (.union letters (.range '0' '9'))
  | "alpha" => some letters
  | "ascii" => some (.range (Char.ofNat 0) (Char.ofNat 0x7f))
  | "blank" => some (.union (.single '\t') (.single ' '))
  | "cntrl" => some (.union (.range (Char.ofNat 0) (Char.ofNat 0x1f)) (.single (Char.ofNat 0x7f)))
  | "digit" => some (.range '0' '9')
  | "graph" => some (.range '!' '~')
  | "lower" => some (.range 'a' 'z')
  | "print" => some (.range ' ' '~')
  | "punct" =>
    some (.union (.union (.range '!' '/') (.range ':' '@'))
      (.union (.range '[' '\x60') (.range '\x7b' '~')))
  | "space" => some (.union (.range '\t' '\r') (.single ' '))
  | "upper" => some (.range 'A' 'Z')
  | "word" => some (.union (.union letters (.range '0' '9')) (.single '_'))
  | "xdigit" => some (.union (.range '0' '9') (.union (.range 'a' 'f') (.range 'A' 'F')))
  | _ => none

/-- A named set at the front of a text that has taken the bracket before it: a colon, a caret if
what is not in it is meant, the name, a colon and a bracket. -/
def readNamedSet? : List Char → Option (CharSet × List Char)
  | ':' :: rest =>
    let (negated, rest) :=
      match rest with
      | '^' :: r => (true, r)
      | r => (false, r)
    match rest.dropWhile (· != ':') with
    | ':' :: ']' :: after =>
      (namedSet? (rest.takeWhile (· != ':'))).map fun s => (if negated then s.compl else s, after)
    | _ => none
  | _ => none

/-- How a set combines with the ones before it in the same brackets. -/
inductive SetOp where
  | inter
  | diff
  | symmDiff

/-- The set of an operation. -/
def SetOp.apply : SetOp → CharSet → CharSet → CharSet
  | inter, a, b => a.inter b
  | diff, a, b => a.diff b
  | symmDiff, a, b => a.symmDiff b

/-- A set in brackets as far as it is read: whether what is not in it is meant, the operation that
waits for its second set, the members read since, and how deep each of them is nested. -/
structure OpenSet where
  negated : Bool
  waiting : Option (SetOp × Nested CharSet)
  members : CharSet
  depths : List Nat

namespace OpenSet

/-- The set with one more member. -/
def add (o : OpenSet) (s : Nested CharSet) : OpenSet :=
  { o with members := o.members.union s.value, depths := s.depth :: o.depths }

/-- The members with what waits for them. -/
def joined (o : OpenSet) : Nested CharSet :=
  let members : Nested CharSet := ⟨o.members, jointDepth o.depths⟩
  match o.waiting with
  | some (op, a) => ⟨op.apply a.value members.value, 1 + max a.depth members.depth⟩
  | none => members

/-- The set when an operation has been read. -/
def operate (o : OpenSet) (op : SetOp) : OpenSet :=
  { o with waiting := some (op, o.joined), members := .none, depths := [] }

/-- The set when its closing bracket has been read. -/
def close (o : OpenSet) : Nested CharSet :=
  let s := o.joined
  ⟨if o.negated then s.value.compl else s.value, s.depth + 1⟩

/-- A set at its opening bracket. A caret turns it round; hyphens that come first are members, and
so is a closing bracket when nothing has come before it. -/
def start (cs : List Char) : OpenSet × List Char :=
  let (negated, cs) :=
    match cs with
    | '^' :: r => (true, r)
    | r => (false, r)
  let hyphens := cs.takeWhile (· == '-')
  let cs := cs.dropWhile (· == '-')
  let o : OpenSet := ⟨negated, none, .none, []⟩
  if !hyphens.isEmpty then (hyphens.foldl (fun o c => o.add ⟨.single c, 0⟩) o, cs)
  else
    match cs with
    | ']' :: r => (o.add ⟨.single ']', 0⟩, r)
    | r => (o, r)

end OpenSet

/-- One member of a set, before it is known whether a range begins with it. -/
def readMember : List Char → Except Fault (Escape × List Char)
  | [] => .error .setNotClosed
  | '\\' :: rest => readEscape rest
  | c :: rest => .ok (.char c, rest)

/-- A member as a set of its own. -/
def Escape.member : Escape → Except Fault CharSet
  | .char c => .ok (.single c)
  | .set s => .ok s
  | .assertion _ => .error .assertionInSet

/-- The range from one member to another. -/
def Escape.rangeTo : Escape → Escape → Except Fault CharSet
  | .char a, .char b => if a.toNat ≤ b.toNat then .ok (.range a b) else .error .rangeReversed
  | .assertion _, _ => .error .assertionInSet
  | _, .assertion _ => .error .assertionInSet
  | _, _ => .error .rangeOfSet

/-- The rest of a set in brackets, up to and with its closing bracket, where `deep` sets are open
around it. -/
def readSet : Nat → Nat → OpenSet → List Char → Except Fault (Nested CharSet × List Char)
  | 0, _, _, _ => .error .tooDeep
  | n + 1, deep, o, cs =>
    match cs with
    | [] => .error .setNotClosed
    | ']' :: rest => .ok (o.close, rest)
    | '&' :: '&' :: rest => readSet n deep (o.operate .inter) rest
    | '-' :: '-' :: rest => readSet n deep (o.operate .diff) rest
    | '~' :: '~' :: rest => readSet n deep (o.operate .symmDiff) rest
    | '[' :: rest =>
      match readNamedSet? rest with
      | some (s, after) => readSet n deep (o.add ⟨s, 0⟩) after
      | none =>
        if maxDepth ≤ deep then .error .tooDeep
        else do
          let (inner, rest) := OpenSet.start rest
          let (s, after) ← readSet n (deep + 1) inner rest
          readSet n deep (o.add s) after
    | cs => do
      let (a, rest) ← readMember cs
      match rest with
      | '-' :: ']' :: _ => readSet n deep (o.add ⟨← a.member, 0⟩) rest
      | '-' :: '-' :: _ => readSet n deep (o.add ⟨← a.member, 0⟩) rest
      | '-' :: after => do
        let (b, after) ← readMember after
        readSet n deep (o.add ⟨← a.rangeTo b, 0⟩) after
      | _ => readSet n deep (o.add ⟨← a.member, 0⟩) rest

/-! ## 4. Counts -/

/-- The largest count that may be written. -/
def maxCount : Nat := 0xffffffff

/-- The number in decimal digits, among blanks, at the front of a text. -/
def readCount (cs : List Char) : Except Fault Nat × List Char :=
  let cs := cs.dropWhile Text.isBlank
  let digits := cs.takeWhile Char.isDigit
  let rest := (cs.dropWhile Char.isDigit).dropWhile Text.isBlank
  let value := digits.foldl (fun n c => 10 * n + (c.toNat - '0'.toNat)) 0
  if digits.isEmpty then (.error .countMissing, rest)
  else if maxCount < value then (.error .countTooLarge, rest)
  else (.ok value, rest)

/-- The counts in braces after the opening one: the fewest rounds, and the most if there is a
bound. -/
def readCounts (cs : List Char) : Except Fault ((Nat × Option Nat) × List Char) :=
  let (first, rest) := readCount cs
  match rest with
  | [] => .error .countNotClosed
  | ',' :: '\x7d' :: after => do return ((← first, none), after)
  | [','] => .error .countNotClosed
  | ',' :: more => do
    let lo ← first
    let (second, after) := readCount more
    let hi ← second
    match after with
    | '\x7d' :: after =>
      if hi < lo then .error .countReversed else .ok ((lo, some hi), after)
    | _ => .error .countNotClosed
  | '\x7d' :: after => do
    let n ← first
    return ((n, some n), after)
  | _ => do
    let _ ← first
    .error .countNotClosed

/-! ## 5. Expressions -/

/-- What a repetition that has been read makes of the part before it: as little as can be if a
question mark follows, as much as can be otherwise. -/
def withGreed (least : Nat) (most : Option Nat) : List Char → (Regex → Regex) × List Char
  | '?' :: rest => (repeated least most false, rest)
  | rest => (repeated least most true, rest)

/-- A repetition at the front of a text, if one stands there. -/
def readRepetition? : List Char → Option (Except Fault ((Regex → Regex) × List Char))
  | '*' :: rest => some (.ok (withGreed 0 none rest))
  | '+' :: rest => some (.ok (withGreed 1 none rest))
  | '?' :: rest => some (.ok (withGreed 0 (some 1) rest))
  | '\x7b' :: rest =>
    some do
      let ((least, most), rest) ← readCounts rest
      return withGreed least most rest
  | _ => none

/-- A part of an expression at the front of a text that is neither a group, an alternative nor a
repetition. -/
def readPart : List Char → Except Fault (Nested Regex × List Char)
  | [] => .ok (⟨empty, 0⟩, [])
  | '[' :: rest => do
    let (o, rest) := OpenSet.start rest
    let (s, after) ← readSet (rest.length + 1) 1 o rest
    return (⟨one s.value, s.depth⟩, after)
  | '\\' :: rest => do
    match ← readEscape rest with
    | (.char c, after) => return (⟨char c, 0⟩, after)
    | (.set s, after) => return (⟨one s, 0⟩, after)
    | (.assertion a, after) => return (⟨holds a, 0⟩, after)
  | '.' :: rest => .ok (⟨one .notNewline, 0⟩, rest)
  | '^' :: rest => .ok (⟨holds .textStart, 0⟩, rest)
  | '$' :: rest => .ok (⟨holds .textEnd, 0⟩, rest)
  | c :: rest => .ok (⟨char c, 0⟩, rest)

/-- The inside of a group, after its opening parenthesis, and whether the group is one that is
numbered. -/
def readGroupStart : List Char → Except Fault (Bool × List Char)
  | '?' :: ':' :: rest => .ok (false, rest)
  | '?' :: _ => .error .unknownGroup
  | rest => .ok (true, rest)

/-- An expression as far as it is read: the alternatives before the one that is being read, the
parts of that one, each last one first, the number of groups that have been opened, and the number
that are still open. -/
structure OpenExpr where
  earlier : List (Nested Regex) := []
  parts : List (Nested Regex) := []
  groups : Nat := 0
  deep : Nat := 0

namespace OpenExpr

/-- The expression with one more part. -/
def add (o : OpenExpr) (a : Nested Regex) : OpenExpr :=
  { o with parts := a :: o.parts }

/-- The alternative that is being read. -/
def alternative (o : OpenExpr) : Nested Regex :=
  ⟨concat (o.parts.reverse.map (·.value)), jointDepth (o.parts.map (·.depth))⟩

/-- The expression when a bar has been read. -/
def another (o : OpenExpr) : OpenExpr :=
  { o with earlier := o.alternative :: o.earlier, parts := [] }

/-- The expression when its end has been read. -/
def close (o : OpenExpr) : Nested Regex :=
  match o.earlier with
  | [] => o.alternative
  | _ =>
    let all := (o.alternative :: o.earlier).reverse
    ⟨choice (all.map (·.value)), jointDepth (all.map (·.depth))⟩

end OpenExpr

/-- The rest of an expression, up to a closing parenthesis or the end of the text, with the number
of groups that have been opened. -/
def readExpr : Nat → OpenExpr → List Char → Except Fault (Nested Regex × Nat × List Char)
  | 0, _, _ => .error .tooDeep
  | n + 1, o, cs =>
    match cs with
    | [] => .ok (o.close, o.groups, [])
    | ')' :: _ => .ok (o.close, o.groups, cs)
    | '|' :: rest => readExpr n o.another rest
    | '(' :: rest =>
      if maxDepth ≤ o.deep then .error .tooDeep
      else do
        let (numbered, inside) ← readGroupStart rest
        let number := if numbered then o.groups + 1 else o.groups
        match ← readExpr n { groups := number, deep := o.deep + 1 } inside with
        | (a, groups, ')' :: after) =>
          let a : Nested Regex := ⟨if numbered then group number a.value else a.value, a.depth + 1⟩
          readExpr n { o.add a with groups := groups } after
        | _ => .error .groupNotClosed
    | cs =>
      match readRepetition? cs, o.parts with
      | some _, [] => .error .nothingToRepeat
      | some repetition, a :: more => do
        let (again, rest) ← repetition
        readExpr n { o with parts := ⟨again a.value, a.depth + 1⟩ :: more } rest
      | none, _ => do
        let (a, rest) ← readPart cs
        readExpr n (o.add a) rest

/-- The regular expression a text is. -/
def ofChars (cs : List Char) : Except Fault Regex := do
  match ← readExpr (cs.length + 1) {} cs with
  | (r, _, []) =>
    if maxDepth < r.depth then .error .tooDeep
    else if maxSize < r.value.size then .error .tooLarge
    else .ok r.value
  | _ => .error .groupNotOpened

/-- The regular expression a text is. -/
def ofString (s : String) : Except Fault Regex :=
  ofChars s.toList

end Quire.Regex
