import Quire.Text.Lowercase

/-!
# The characters of a text

What is said of all characters of a text, or of some, is decided by going through the text, not by
going through all characters there are. What is said of the ASCII characters is decided by going through
these (`of_ascii`), and of a class by going through its bands (`mem_numbersOf`).

Two lemmas say where a character stands: behind a mark that does not hold it (`exists_of_append_eq`),
and at two places if it is counted twice (`exists_of_two_le_count`).
-/

namespace Quire.Text

section Decidable

variable {P : Char → Prop} [DecidablePred P]

instance decidableForallMem (s : List Char) : Decidable (∀ c ∈ s, P c) :=
  s.decidableBAll P

instance decidableExistsMem (s : List Char) : Decidable (∃ c ∈ s, P c) :=
  s.decidableBEx P

end Decidable

/-- What holds of the first 128 characters holds of every ASCII character. -/
theorem of_ascii {p : Char → Prop} (h : ∀ n < 128, p (Char.ofNat n)) {c : Char}
    (hc : c.toNat < 128) : p c := by
  have hp := h c.toNat hc
  rwa [Char.ofNat_toNat] at hp

/-! The classes of the ASCII characters by their numbers. -/

section Classes

variable {c : Char}

theorem isUpper_iff : c.isUpper = true ↔ 65 ≤ c.toNat ∧ c.toNat ≤ 90 := by
  delta Char.isUpper
  simp only [UInt32.le_iff_toNat_le, ge_iff_le, decide_eq_true_eq]
  exact Iff.rfl

theorem isLower_iff : c.isLower = true ↔ 97 ≤ c.toNat ∧ c.toNat ≤ 122 := by
  delta Char.isLower
  simp only [UInt32.le_iff_toNat_le, ge_iff_le, decide_eq_true_eq, Bool.and_eq_true]
  exact Iff.rfl

theorem isDigit_iff : c.isDigit = true ↔ 48 ≤ c.toNat ∧ c.toNat ≤ 57 := by
  delta Char.isDigit
  simp only [UInt32.le_iff_toNat_le, ge_iff_le, decide_eq_true_eq, Bool.and_eq_true]
  exact Iff.rfl

theorem isAlpha_iff : c.isAlpha = true ↔ c.isUpper = true ∨ c.isLower = true := by
  delta Char.isAlpha
  rw [Bool.or_eq_true]

theorem isAlphanum_iff : c.isAlphanum = true ↔ c.isAlpha = true ∨ c.isDigit = true := by
  delta Char.isAlphanum
  rw [Bool.or_eq_true]

theorem toNat_lt_of_isAlphanum (h : c.isAlphanum = true) : c.toNat < 128 := by
  simp only [isAlphanum_iff, isAlpha_iff, isUpper_iff, isLower_iff, isDigit_iff] at h
  omega

theorem isAlphanum_of_isAlpha (h : c.isAlpha = true) : c.isAlphanum = true :=
  isAlphanum_iff.2 (.inl h)

theorem isAlphanum_of_isDigit (h : c.isDigit = true) : c.isAlphanum = true :=
  isAlphanum_iff.2 (.inr h)

theorem isAlpha_of_isLower (h : c.isLower = true) : c.isAlpha = true :=
  isAlpha_iff.2 (.inr h)

theorem isUpper_of_isLower (h : c.isLower = true) : c.isUpper = false := by
  rw [isLower_iff] at h
  rw [← Bool.not_eq_true, isUpper_iff]
  omega

theorem isDigit_of_isAlpha (h : c.isAlpha = true) : c.isDigit = false := by
  rw [isAlpha_iff, isUpper_iff, isLower_iff] at h
  rw [← Bool.not_eq_true, isDigit_iff]
  omega

/-- What is small in ASCII was an ASCII character, and the other way round. -/
theorem toNat_toLower_lt_iff : c.toLower.toNat < 128 ↔ c.toNat < 128 := by
  delta Char.toLower
  split
  · rename_i h
    have hhi : c.val.toNat ≤ 90 := UInt32.le_iff_toNat_le.1 h.2
    have hlower : (c.val + 32).toNat = c.val.toNat + 32 := by
      have h32 : (32 : UInt32).toNat = 32 := rfl
      rw [UInt32.toNat_add, h32]
      exact Nat.mod_eq_of_lt (by omega)
    change (c.val + 32).toNat < 128 ↔ c.val.toNat < 128
    omega
  · rfl

end Classes

/-- The numbers in the bands between edges. -/
def numbersOf : List Nat → List Nat
  | lo :: hi :: rest => List.range' lo (hi - lo) ++ numbersOf rest
  | _ => []

theorem mem_numbersOf {bands : List Nat} {n : Nat} (h : inBands bands n = true) :
    n ∈ numbersOf bands := by
  fun_induction inBands bands n with
  | case1 n lo hi rest ih =>
      rw [Bool.and_eq_true, Bool.or_eq_true, decide_eq_true_iff, decide_eq_true_iff] at h
      rw [numbersOf, List.mem_append, List.mem_range'_1]
      rcases h.2 with hlt | hin
      · exact .inl (by omega)
      · exact .inr (ih hin)
  | case2 => cases h

/-- An ASCII text in lower case has its capitals made small. -/
theorem lowercaseAfter_of_ascii {s : List Char} (h : ∀ c ∈ s, c.toNat < 128) (before : List Char) :
    lowercaseAfter before s = s.map Char.toLower := by
  induction s generalizing before with
  | nil => rfl
  | cons c s ih =>
      obtain ⟨hc, hs⟩ := List.forall_mem_cons.1 h
      rw [lowercaseAfter, if_neg (by omega), lowerChar, if_pos hc, ih hs]
      rfl

/-- A character that is in no mark is found behind the mark. -/
theorem exists_of_append_eq {m t a b : List Char} {c : Char} (hc : c ∉ m)
    (h : m ++ t = a ++ c :: b) : ∃ a', a = m ++ a' ∧ t = a' ++ c :: b := by
  rcases List.append_eq_append_iff.1 h with ⟨a', ha, ht⟩ | ⟨m', hm, hb⟩
  · exact ⟨a', ha, ht⟩
  · cases m' with
    | nil => exact ⟨[], by rw [hm, List.append_nil, List.append_nil], hb.symm⟩
    | cons d m' =>
        rw [List.cons_append, List.cons.injEq] at hb
        exact absurd (hm ▸ hb.1 ▸ List.mem_append_right a List.mem_cons_self) hc

/-- A character that stands twice in a text cuts it in three. -/
theorem exists_of_two_le_count {c : Char} {s : List Char} (h : 2 ≤ s.count c) :
    ∃ a x y, s = a ++ c :: (x ++ c :: y) := by
  obtain ⟨a, t, hs⟩ := List.append_of_mem (List.count_pos_iff.1 (by omega : 0 < s.count c))
  by_cases ha : c ∈ a
  · obtain ⟨a', x, rfl⟩ := List.append_of_mem ha
    exact ⟨a', x, t, by rw [hs, List.append_assoc, List.cons_append]⟩
  · have ht : 0 < t.count c := by
      rw [hs, List.count_append, List.count_cons_self, List.count_eq_zero.2 ha] at h
      omega
    obtain ⟨x, y, rfl⟩ := List.append_of_mem (List.count_pos_iff.1 ht)
    exact ⟨a, x, y, hs⟩

end Quire.Text
