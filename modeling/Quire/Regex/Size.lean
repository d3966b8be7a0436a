import Quire.Regex.Basic

/-!
# The size of an expression

An expression that would take too much room to run is refused. The room is counted in bytes of
memory for an automaton that reads bytes: each of its states takes 32, each range of bytes that a
state with several of them can take another 8, and each way on from a state that forks another 4.
Two automata are made of an expression, one that reads forwards and marks where groups begin and
end, and one that reads backwards without them; an expression is as large as the larger one
(`size`).

A character above ASCII is several bytes, and a set of them a set of sequences of byte ranges
(`sequences`). Forwards, the sequences of a set are merged from their ends wherever they go on
alike; backwards, where they begin alike.
-/

namespace Quire.Regex

/-! ## 1. Sequences of bytes -/

/-- A range of bytes, from the first to the last. -/
abbrev ByteRange := Nat × Nat

/-- The sequences of byte ranges for the numbers from `lo` to `hi`, where the last `n` bytes of
each hold six binary digits and the first the rest. -/
def sequencesOf : Nat → Nat → Nat → List (List ByteRange)
  | 0, lo, hi => [[(lo, hi)]]
  | n + 1, lo, hi =>
    let unit := 64 ^ (n + 1)
    let first := lo / unit
    let last := hi / unit
    if first = last then (sequencesOf n (lo % unit) (hi % unit)).map ((first, first) :: ·)
    else
      let low := lo % unit != 0
      let high := hi % unit != unit - 1
      let lower := if low then first + 1 else first
      let upper := if high then last - 1 else last
      (if low then (sequencesOf n (lo % unit) (unit - 1)).map ((first, first) :: ·) else [])
        ++ (if lower ≤ upper then [(lower, upper) :: List.replicate (n + 1) (0, 63)] else [])
        ++ (if high then (sequencesOf n 0 (hi % unit)).map ((last, last) :: ·) else [])

/-- The numbers of characters that are written with equally many bytes: the first, the last, how
many bytes follow the first one, and what the first one has on top of its digits. -/
def byteLengths : List (Nat × Nat × Nat × Nat) :=
  [(0, 0x7f, 0, 0), (0x80, 0x7ff, 1, 0xc0), (0x800, 0xd7ff, 2, 0xe0), (0xe000, 0xffff, 2, 0xe0),
    (0x10000, 0x10ffff, 3, 0xf0)]

/-- A sequence with `mark` on top of its first byte. -/
def marked (mark : Nat) : List ByteRange → List ByteRange
  | (lo, hi) :: rest => (mark + lo, mark + hi) :: rest
  | [] => []

/-- The sequences of byte ranges by which the characters of a stretch are written, lowest first. -/
def stretchSequences (lo hi : Nat) : List (List ByteRange) :=
  byteLengths.flatMap fun (first, last, n, mark) =>
    let lo := max lo first
    let hi := min hi last
    if lo ≤ hi then (sequencesOf n lo hi).map (marked mark) else []

/-- The sequences of byte ranges by which the characters of a set are written, lowest first. -/
def CharSet.sequences (s : CharSet) : List (List ByteRange) :=
  s.stretches.flatMap fun (lo, hi) => stretchSequences lo hi

/-! ## 2. Sets -/

/-- The length of what two lists both begin with. -/
def sharedLength {α : Type} [DecidableEq α] : List α → List α → Nat
  | a :: as, b :: bs => if a = b then sharedLength as bs + 1 else 0
  | _, _ => 0

/-- The number of elements of the lists, where what a list begins with like the one before it is not
counted again. -/
def branchCount {α : Type} [DecidableEq α] (before : List α) : List (List α) → Nat
  | [] => 0
  | s :: more => s.length - sharedLength before s + branchCount s more

/-- Lists by what they begin with: each first element, in order, with what follows it. Lists that
begin alike stand together. -/
def byFirst {α : Type} [DecidableEq α] : List (List α) → List (α × List (List α))
  | [] => []
  | [] :: more => byFirst more
  | (a :: as) :: more =>
    match byFirst more with
    | [] => [(a, [as])]
    | (b, tails) :: others =>
      if a = b then (b, as :: tails) :: others else (a, [as]) :: (b, tails) :: others

/-- The sets of sequences that are left to take in a set of sequences of at most `n` ranges, at the
beginning and after each range. -/
def leftToTake : Nat → List (List ByteRange) → List (List (List ByteRange))
  | 0, _ => []
  | n + 1, ss =>
    if ss.all List.isEmpty then []
    else ss :: (byFirst ss).flatMap fun (_, tails) => leftToTake n tails

/-- The size of a set that is taken forwards. -/
def forwardSetSize (ss : List (List ByteRange)) : Nat :=
  (leftToTake 5 ss).eraseDups.foldl (fun n left => n + 32 + 8 * (byFirst left).length) 32

/-- The size of a set that is taken backwards. -/
def backwardSetSize (ss : List (List ByteRange)) : Nat :=
  64 + 4 * ss.length + 32 * branchCount [] ss

/-- The size of a set. A single character is as many states as it has bytes; a set within ASCII is a
state with a range for each stretch, and the state behind it. -/
def CharSet.size (forwards : Bool) (s : CharSet) : Nat :=
  match s.only? with
  | some c => 32 * c.utf8Size
  | .none =>
    if s.stretches.all fun (_, hi) => hi < 0x80 then 64 + 8 * s.stretches.length
    else if forwards then forwardSetSize s.sequences
    else backwardSetSize s.sequences

/-! ## 3. Words -/

/-- The bytes of an expression that is a word of one character or more. -/
def wordBytes? (r : Regex) : Option (List UInt8) :=
  match r.parts with
  | [] => none
  | ps => (ps.mapM only?).map fun cs => (String.ofList cs).toUTF8.toList

/-- The size of a tree of words that are at most `n` bytes long, without its end. Words that begin
alike stand together. -/
def wordTreeSize : Nat → List (List UInt8) → Nat
  | 0, _ => 0
  | n + 1, ws =>
    match byFirst ws with
    | [] => 0
    | ways =>
      68 + (if ws.any List.isEmpty then 4 else 0) + (if ways.length = 1 then 0 else 8 * ways.length)
        + (ways.map fun (_, tails) => wordTreeSize n tails).sum

/-- The size of a choice between words. Forwards it is a tree by their beginnings, backwards one
by their ends. -/
def wordsSize (forwards : Bool) (ws : List (List UInt8)) : Nat :=
  let ws := if forwards then ws else ws.map List.reverse
  let longest := ws.foldl (fun n w => max n w.length) 0
  32 + wordTreeSize longest (ws.mergeSort fun a b => decide (a ≤ b))

/-! ## 4. Expressions -/

/-- The size of rounds, where that of one round is given, and whether one may take nothing. -/
def roundsSize (least : Nat) (most : Option Nat) (mayTakeNothing : Bool) (round : Nat) : Nat :=
  match least, most with
  | 0, none => if mayTakeNothing then round + 112 else round + 40
  | n + 1, none => (n + 1) * round + 40
  | 0, some 1 => round + 72
  | n, some m =>
    (if n = 0 then 32 else n * round) + (if n = m then 0 else 32 + (m - n) * (round + 40))

/-- The size of an expression, and what it adds to a choice that it is an alternative of. -/
def sizes (forwards : Bool) : Regex → Nat × Nat
  | empty => sized 32
  | one s => sized (s.size forwards)
  | holds _ => sized 32
  | seq a b => sized ((sizes forwards a).1 + (sizes forwards b).1)
  | alt a b =>
    let added := (sizes forwards a).2 + (sizes forwards b).2
    match (alt a b).branches.mapM wordBytes? with
    | some ws => (wordsSize forwards ws, added)
    | none => (64 + added, added)
  | group _ a => sized ((sizes forwards a).1 + if forwards then 64 else 0)
  | times least most _ a => sized (roundsSize least most a.mayTakeNothing (sizes forwards a).1)
where
  /-- The sizes of an expression that is no choice. -/
  sized (n : Nat) : Nat × Nat :=
    (n, n + 4)

/-- The size of an expression: the larger one of its two automata. Before an expression that need
not match at the beginning of the text comes a loop over any bytes, and a forward automaton marks
the whole match like a group. -/
def size (r : Regex) : Nat :=
  max ((sizes true r).1 + 96 + (if r.isAnchored then 32 else 112)) ((sizes false r).1 + 144)

/-- The largest size an expression may have: ten mebibytes. -/
def maxSize : Nat := 0xa00000

end Quire.Regex
