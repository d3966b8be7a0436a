/-!
# Bands of code points

A class of characters is a list of the numbers at which membership changes: the class holds the
code points from the first number up to, but not including, the second, then from the third up to
the fourth, and so on. This file fixes the reading of such a list (`inBands`) and its two laws:
below the first edge nothing is in, and a band is read from its own two edges alone.
-/

namespace Quire.Text

/-- Whether `n` lies in one of the half-open bands whose edges are listed, lowest first. -/
def inBands : List Nat → Nat → Bool
  | lo :: hi :: rest, n => decide (lo ≤ n) && (decide (n < hi) || inBands rest n)
  | _, _ => false

/-- **Below the first edge nothing is in.** -/
theorem inBands_of_lt {lo hi n : Nat} {rest : List Nat} (h : n < lo) :
    inBands (lo :: hi :: rest) n = false := by
  simp [inBands, Nat.not_le.mpr h]

/-- **A band holds everything between its two edges.** -/
theorem inBands_of_mem {lo hi n : Nat} {rest : List Nat} (hl : lo ≤ n) (hh : n < hi) :
    inBands (lo :: hi :: rest) n = true := by
  simp [inBands, hl, hh]

end Quire.Text
