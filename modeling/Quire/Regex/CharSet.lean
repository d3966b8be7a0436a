import Quire.Text.Blank
import Quire.Text.Word

/-!
# Sets of characters

A set of characters is kept by its edges: the numbers at which membership changes, lowest first.
Each set is then written in one way only, so that two sets are equal exactly when their edges are.

The file fixes membership (`has`), the operations on sets, and the stretches of neighbouring
characters a set is made of (`stretches`). **A character is in the complement exactly when it is
not in the set** (`has_compl`), and the sets of blanks, digits and word characters have the
characters that are called so (`has_blank`, `has_digit`, `has_word`).
-/

namespace Quire.Regex

/-- A set of characters, by its edges. -/
structure CharSet where
  edges : List Nat
  deriving Repr, DecidableEq

namespace CharSet

/-! ## 1. Membership -/

/-- Whether an odd number of edges has been passed at `n`. -/
def inside : List Nat → Nat → Bool
  | [], _ => false
  | e :: rest, n => decide (e ≤ n) && !inside rest n

/-- **Passing edges two by two is being within a band.** -/
theorem inside_eq_inBands (n : Nat) :
    ∀ edges : List Nat, edges.length % 2 = 0 → inside edges n = Text.inBands edges n
  | [], _ => rfl
  | [_], h => by simp at h
  | lo :: hi :: rest, h => by
    have h' : rest.length % 2 = 0 := by
      simp only [List.length_cons] at h
      omega
    rw [inside, inside, Text.inBands, inside_eq_inBands n rest h']
    by_cases hh : hi ≤ n
    · simp [hh, Nat.not_lt.mpr hh]
    · simp [hh, Nat.lt_of_not_le hh]

/-- Whether a set has a character. -/
def has (s : CharSet) (c : Char) : Bool :=
  inside s.edges c.toNat

/-! ## 2. Making sets -/

/-- The set of no character. -/
def none : CharSet :=
  ⟨[]⟩

/-- The number after the last character. -/
def limit : Nat := 0x110000

/-- The characters with the numbers from `lo` up to, but not including, `hi`. -/
def between (lo hi : Nat) : CharSet :=
  if hi ≤ lo then none else if limit ≤ hi then ⟨[lo]⟩ else ⟨[lo, hi]⟩

/-- The characters from `lo` to `hi`. -/
def range (lo hi : Char) : CharSet :=
  between lo.toNat (hi.toNat + 1)

/-- The set of one character. -/
def single (c : Char) : CharSet :=
  range c c

/-- The decimal digits. -/
def digit : CharSet :=
  ⟨0x30 :: 0x3a :: Text.digitBands⟩

/-- The blanks. -/
def blank : CharSet :=
  ⟨Text.blankBands⟩

/-- The word characters. -/
def word : CharSet :=
  ⟨[0x30, 0x3a, 0x41, 0x5b, 0x5f, 0x60, 0x61, 0x7b] ++ Text.wordBands⟩

/-- A blank is a member of the set of blanks. -/
theorem has_blank (c : Char) : blank.has c = Text.isBlank c :=
  inside_eq_inBands c.toNat Text.blankBands rfl

/-- A digit is a member of the set of digits. -/
theorem has_digit (c : Char) : digit.has c = Text.isDigit c := by
  have hr : inside Text.digitBands c.toNat = Text.inBands Text.digitBands c.toNat :=
    inside_eq_inBands _ _ (by decide +kernel)
  simp only [has, digit, Text.isDigit, inside, hr]
  split
  · next h =>
    have h' : Text.inBands (0x660 :: 0x66a :: Text.digitBands.tail.tail) c.toNat = false :=
      Text.inBands_of_lt (by omega)
    have h'' : Text.inBands Text.digitBands c.toNat = false := h'
    rw [h'', Bool.eq_iff_iff]
    simp only [Char.isDigit, UInt32.le_iff_toNat_le, Char.toNat, ge_iff_le, Bool.and_eq_true,
      decide_eq_true_eq, Bool.not_false, Bool.and_true, Bool.not_eq_true', decide_eq_false_iff_not]
    show _ ∧ _ ↔ 48 ≤ _ ∧ _ ≤ 57
    omega
  · next h =>
    have h₁ : 0x30 ≤ c.toNat := by omega
    have h₂ : 0x3a ≤ c.toNat := by omega
    simp [h₁, h₂]

/-- A word character is a member of the set of word characters. -/
theorem has_word (c : Char) : word.has c = Text.isWord c := by
  have hr : inside Text.wordBands c.toNat = Text.inBands Text.wordBands c.toNat :=
    inside_eq_inBands _ _ (by decide +kernel)
  simp only [has, word, Text.isWord, List.cons_append, List.nil_append, inside, hr]
  split
  · next h =>
    have h' : Text.inBands (0xaa :: 0xab :: Text.wordBands.tail.tail) c.toNat = false :=
      Text.inBands_of_lt (by omega)
    have h'' : Text.inBands Text.wordBands c.toNat = false := h'
    have hu : (c == '_') = decide (c.toNat = 0x5f) := by
      rw [Bool.eq_iff_iff]
      simp only [beq_iff_eq, decide_eq_true_eq]
      exact ⟨fun e => e ▸ rfl, fun e => Char.toNat_inj.1 e⟩
    rw [h'', hu, Bool.eq_iff_iff]
    delta Char.isAlphanum Char.isAlpha Char.isUpper Char.isLower Char.isDigit
    simp only [UInt32.le_iff_toNat_le, Char.toNat, ge_iff_le, Bool.and_eq_true, Bool.or_eq_true,
      decide_eq_true_eq, Bool.not_false, Bool.and_true, Bool.not_eq_true', decide_eq_false_iff_not,
      Bool.and_eq_false_imp, Bool.not_eq_false']
    have hv : c.val.toNat = c.toNat := rfl
    show _ ↔ (((65 ≤ _ ∧ _ ≤ 90) ∨ 97 ≤ _ ∧ _ ≤ 122) ∨ 48 ≤ _ ∧ _ ≤ 57) ∨ _
    omega
  · next h =>
    have h₁ : ∀ e, e ≤ 0x80 → e ≤ c.toNat := fun e he => by omega
    simp [h₁]

/-! ## 3. Operations -/

/-- The characters that are not in a set. -/
def compl (s : CharSet) : CharSet :=
  match s.edges with
  | 0 :: rest => ⟨rest⟩
  | es => ⟨0 :: es⟩

/-- **A character is in the complement exactly when it is not in the set.** -/
theorem has_compl (s : CharSet) (c : Char) : s.compl.has c = !s.has c := by
  obtain ⟨es⟩ := s
  simp only [compl, has]
  split
  · simp [inside]
  · simp [inside]

/-- The lowest of the edges that two lists begin with. -/
def lowest? : List Nat → List Nat → Option Nat
  | x :: _, y :: _ => some (min x y)
  | x :: _, [] => some x
  | [], y :: _ => some y
  | [], [] => .none

/-- Passes the edge `e` in a set that has been entered if `a` holds and whose edges from there on
are listed. -/
def pass (e : Nat) (a : Bool) : List Nat → Bool × List Nat
  | x :: xs => if x = e then (!a, xs) else (a, x :: xs)
  | [] => (a, [])

/-- The edges of two sets combined by `f`, from a number on where the one set has been entered if
`a` holds and the other if `b` does. Each round passes one edge or two that are equal, so there
are at most `n` rounds where `n` edges are left. An edge is one of the combined set if it changes
what `f` says. -/
def sweep (f : Bool → Bool → Bool) : Nat → Bool → Bool → List Nat → List Nat → List Nat
  | 0, _, _, _, _ => []
  | n + 1, a, b, xs, ys =>
    match lowest? xs ys with
    | .none => []
    | some e =>
      let (a', xs) := pass e a xs
      let (b', ys) := pass e b ys
      let rest := sweep f n a' b' xs ys
      if f a b == f a' b' then rest else e :: rest

/-- Two sets combined by `f`, which is false of two falsehoods. -/
def combine (f : Bool → Bool → Bool) (s t : CharSet) : CharSet :=
  ⟨sweep f (s.edges.length + t.edges.length) false false s.edges t.edges⟩

/-- The characters in one set or the other. -/
def union (s t : CharSet) : CharSet :=
  combine (· || ·) s t

/-- The characters in both sets. -/
def inter (s t : CharSet) : CharSet :=
  combine (· && ·) s t

/-- The characters of the first set that are not in the second. -/
def diff (s t : CharSet) : CharSet :=
  combine (fun a b => a && !b) s t

/-- The characters that are in one of the two sets only. -/
def symmDiff (s t : CharSet) : CharSet :=
  combine (· != ·) s t

/-- Every character but the line feed. -/
def notNewline : CharSet :=
  compl (single '\n')

/-! ## 4. Stretches -/

/-- The stretches of numbers between edges, each by its first and its last number. -/
def stretchesOf : List Nat → List (Nat × Nat)
  | lo :: hi :: rest => (lo, hi - 1) :: stretchesOf rest
  | [lo] => [(lo, limit - 1)]
  | [] => []

/-- The stretches of neighbouring characters that a set is made of, each by its first and its last
number. -/
def stretches (s : CharSet) : List (Nat × Nat) :=
  stretchesOf s.edges

/-- The only character of a set, if it has just one. -/
def only? (s : CharSet) : Option Char :=
  match s.stretches with
  | [(lo, hi)] => if lo = hi then some (Char.ofNat lo) else .none
  | _ => .none

end CharSet

end Quire.Regex
