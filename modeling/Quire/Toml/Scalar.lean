import Quire.Toml.Quoted

/-!
# Numbers, truth values and moments in configuration files

What stands for a value without quotes or brackets: an integer, to the base ten or with a prefix
to the base sixteen, eight or two; a float, with a fraction, an exponent or both, or by name; one
of the two truth values; a date, a time of day, or both. Single underscores may stand between
digits.
-/

namespace Quire.Toml

/-! ## 1. Digits -/

/-- Whether a character is a digit to the base ten. -/
def isDecimal (c : Char) : Bool :=
  '0' ≤ c && c ≤ '9'

/-- The value of a digit to a base. -/
def digitValue? (base : Nat) (c : Char) : Option Nat :=
  (hexValue? c).filter (· < base)

/-- The number that digits make up, each followed by at most one underscore but the last, which is
followed by none; `n` is that of the digits before. -/
def digits? (base n : Nat) : List Char → Option Nat
  | [] => none
  | [c] => (digitValue? base c).map (n * base + ·)
  | c :: '_' :: s => (digitValue? base c).bind fun d => digits? base (n * base + d) s
  | c :: s => (digitValue? base c).bind fun d => digits? base (n * base + d) s

/-- Whether a text is a run of decimal digits, with underscores between them. -/
def isDigits (s : List Char) : Bool :=
  (digits? 10 0 s).isSome

/-- The number of a decimal integer without a sign: a lone zero, or digits the first of which is
not zero. -/
def natural? : List Char → Option Nat
  | ['0'] => some 0
  | '0' :: _ => none
  | s => digits? 10 0 s

/-- A text without the sign before it, and whether that is a minus. -/
def withoutSign : List Char → Bool × List Char
  | '-' :: s => (true, s)
  | '+' :: s => (false, s)
  | s => (false, s)

/-! ## 2. Numbers -/

/-- Whether a number can be held: in 128 bits, with or without a sign. -/
def isHeld : Int → Bool
  | .ofNat n => n < Nat.pow 2 128
  | .negSucc n => n < Nat.pow 2 127

/-- The number of an integer. -/
def integer? (s : List Char) : Option Int :=
  let n : Option Int :=
    match s with
    | '0' :: 'x' :: ds => (digits? 16 0 ds).map Int.ofNat
    | '0' :: 'o' :: ds => (digits? 8 0 ds).map Int.ofNat
    | '0' :: 'b' :: ds => (digits? 2 0 ds).map Int.ofNat
    | _ =>
      let (negative, ds) := withoutSign s
      (natural? ds).map fun n => if negative then -Int.ofNat n else Int.ofNat n
  n.filter isHeld

/-- A number as it is written to the base ten: its digits without point and underscores, and the
power of ten that they are multiplied by. -/
structure Decimal where
  digits : List Char
  power : Int
  deriving Repr, DecidableEq

namespace Decimal

/-- The smallest number that a float of 64 bits cannot hold, since it is as near to the next power
of two as to the greatest float. -/
def limit : Nat :=
  Nat.pow 2 1024 - Nat.pow 2 970

/-- Whether a number can be held by a float of 64 bits. Only of numbers near the limit is the
value worked out. -/
def isHeld (d : Decimal) : Bool :=
  let digits := d.digits.dropWhile (· == '0')
  let places := digits.length + d.power
  if digits.isEmpty || places < 300 then true
  else if 310 < places then false
  else
    match digits? 10 0 digits with
    | some n => n * Nat.pow 10 d.power.toNat < limit * Nat.pow 10 (-d.power).toNat
    | none => false

end Decimal

/-- A run of digits without the underscores in it. -/
def plainDigits (s : List Char) : List Char :=
  s.filter (· != '_')

/-- The number of an exponent without its letter. -/
def exponent? (s : List Char) : Option Int :=
  let (negative, ds) := withoutSign s
  (digits? 10 0 ds).map fun n => if negative then -Int.ofNat n else Int.ofNat n

/-- The digits that follow the point of a float, and its exponent. -/
def fraction? (s : List Char) : Option (List Char × Int) :=
  let digits := s.takeWhile fun c => c != 'e' && c != 'E'
  let exponent :=
    match s.drop digits.length with
    | [] => some 0
    | _ :: exponent => exponent? exponent
  if isDigits digits then exponent.map fun e => (plainDigits digits, e) else none

/-- The number of a float without its sign. -/
def decimal? (s : List Char) : Option Decimal :=
  let whole := s.takeWhile fun c => c != '.' && c != 'e' && c != 'E'
  if (natural? whole).isSome then
    match s.drop whole.length with
    | '.' :: fraction =>
      (fraction? fraction).map fun (digits, e) =>
        ⟨plainDigits whole ++ digits, e - digits.length⟩
    | _ :: exponent => (exponent? exponent).map fun e => ⟨plainDigits whole, e⟩
    | [] => none
  else none

/-- Whether a text is a float. One that is too great to be held is none. -/
def isFloat (s : List Char) : Bool :=
  let (_, s) := withoutSign s
  if s = ['i', 'n', 'f'] || s = ['n', 'a', 'n'] then true
  else (decimal? s).any Decimal.isHeld

/-! ## 3. Moments -/

/-- The number of so many decimal digits in a row, and the rest. -/
def fixedDigits (count : Nat) (s : List Char) : Taken Nat :=
  let ds := s.take count
  if ds.length = count ∧ ds.all isDecimal then
    (digits? 10 0 ds).map fun n => (n, s.drop count)
  else none

/-- The rest of a text after one character. -/
def afterChar (c : Char) : List Char → Option (List Char)
  | d :: s => if d = c then some s else none
  | [] => none

/-- The number of days of a month. -/
def daysIn (year month : Nat) : Nat :=
  if month = 2 then
    if (year % 4 = 0 ∧ year % 100 ≠ 0) ∨ year % 400 = 0 then 29 else 28
  else if month = 4 ∨ month = 6 ∨ month = 9 ∨ month = 11 then 30
  else 31

/-- What follows a date. -/
def afterDate (s : List Char) : Option (List Char) := do
  let (year, s) ← fixedDigits 4 s
  let (month, s) ← fixedDigits 2 (← afterChar '-' s)
  let (day, s) ← fixedDigits 2 (← afterChar '-' s)
  if 1 ≤ month ∧ month ≤ 12 ∧ 1 ≤ day ∧ day ≤ daysIn year month then some s else none

/-- What follows a time of day. -/
def afterTime (s : List Char) : Option (List Char) := do
  let (hour, s) ← fixedDigits 2 s
  let (minute, s) ← fixedDigits 2 (← afterChar ':' s)
  let (second, s) ← fixedDigits 2 (← afterChar ':' s)
  if hour ≤ 23 ∧ minute ≤ 59 ∧ second ≤ 60 then
    match s with
    | '.' :: s =>
      let fraction := s.takeWhile isDecimal
      if fraction.isEmpty then none else some (s.drop fraction.length)
    | _ => some s
  else none

/-- Whether a text is the distance of a zone of time, or is empty. -/
def isZone : List Char → Bool
  | [] => true
  | ['Z'] => true
  | ['z'] => true
  | sign :: s =>
    (sign = '+' || sign = '-') &&
      match fixedDigits 2 s with
      | some (hour, ':' :: s) =>
        match fixedDigits 2 s with
        | some (minute, []) => hour ≤ 23 && minute ≤ 59
        | _ => false
      | _ => false

/-- Whether a text is a date. -/
def isDate (s : List Char) : Bool :=
  afterDate s == some []

/-- Whether a text is a date, a time of day, or both. -/
def isMoment (s : List Char) : Bool :=
  match afterDate s with
  | some [] => true
  | some (c :: s) =>
    (c = 'T' || c = 't' || c = ' ') &&
      match afterTime s with
      | some zone => isZone zone
      | none => false
  | none => afterTime s == some []

/-! ## 4. Any of these -/

/-- What a value without quotes or brackets is. -/
inductive Scalar where
  | boolean (b : Bool)
  | integer (n : Int)
  | float (written : String)
  | moment (written : String)
  deriving Repr, DecidableEq

/-- What a text stands for. -/
def Scalar.ofChars? (s : List Char) : Option Scalar :=
  if s = ['t', 'r', 'u', 'e'] then some (boolean true)
  else if s = ['f', 'a', 'l', 's', 'e'] then some (boolean false)
  else
    match integer? s with
    | some n => some (integer n)
    | none =>
      if isFloat s then some (float (String.ofList s))
      else if isMoment s then some (moment (String.ofList s))
      else none

/-- Whether a character can belong to such a value. -/
def isScalarChar (c : Char) : Bool :=
  c.isAlphanum || c = '_' || c = '+' || c = '-' || c = '.' || c = ':'

/-- Such a value taken off the front of a text. A date goes on after one space if a digit
follows. -/
def readScalar (s : List Char) : Taken Scalar :=
  let first := s.takeWhile isScalarChar
  let rest := s.drop first.length
  let (written, rest) :=
    match rest with
    | ' ' :: d :: more =>
      if isDate first && isDecimal d then
        let second := (d :: more).takeWhile isScalarChar
        (first ++ ' ' :: second, (d :: more).drop second.length)
      else (first, rest)
    | _ => (first, rest)
  (Scalar.ofChars? written).map fun v => (v, rest)

end Quire.Toml
