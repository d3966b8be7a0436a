import Mathlib.Data.String.Basic

/-!
# The order of texts

Texts are compared character by character. Their bytes are compared in the same way, and it comes to the
same: the bytes of the lesser of two characters come first whatever follows them (`encode_lt`), as a
shorter form begins with a lesser byte, and two forms of one length have the digits of the character to
the base of 64, the highest first. So **the order of texts is the order of their bytes** (`bytes_lt_iff`).
-/

namespace Quire.Text

/-! ## 1. Characters -/

/-- Numbers below 256 as bytes, in front of others. -/
theorem ofNat_cons_lt {a b : Nat} (ha : a < 256) (hb : b < 256) {s t : List UInt8} :
    UInt8.ofNat a :: s < UInt8.ofNat b :: t ↔ a < b ∨ a = b ∧ s < t := by
  rw [List.cons_lt_cons_iff, UInt8.lt_iff_toNat_lt, ← UInt8.toNat_inj, UInt8.toNat_ofNat',
    UInt8.toNat_ofNat', Nat.mod_eq_of_lt ha, Nat.mod_eq_of_lt hb]

/-- Of two numbers the lesser has the lesser quotient, or with equal quotients the lesser remainder. -/
theorem lt_iff_div_mod (k m n : Nat) : m < n ↔ m / k < n / k ∨ m / k = n / k ∧ m % k < n % k := by
  have hm := Nat.div_add_mod m k
  have hn := Nat.div_add_mod n k
  rcases Nat.lt_trichotomy (m / k) (n / k) with h | h | h
  · have := Nat.lt_of_div_lt_div h
    simp [h, this]
  · rw [h] at hm
    omega
  · have := Nat.lt_of_div_lt_div h
    omega

/-- **The bytes of the lesser of two characters come first**, whatever follows. -/
theorem encode_lt {c d : Char} (h : c < d) (s t : List UInt8) :
    String.utf8EncodeChar c ++ s < String.utf8EncodeChar d ++ t := by
  have hlt : c.val.toNat < d.val.toNat := h
  have hbound : d.val.toNat < 1114112 := by
    rcases d.valid with hd | ⟨-, hd⟩
    · exact hd.trans (by decide)
    · exact hd
  unfold String.utf8EncodeChar
  generalize c.val.toNat = m at hlt
  generalize d.val.toNat = n at hlt hbound
  -- the digits that are left of two numbers are compared, unless the higher ones differ
  have hone := lt_iff_div_mod 64 m n
  have htwo := lt_iff_div_mod 64 (m / 64) (n / 64)
  have hthree := lt_iff_div_mod 64 (m / 64 / 64) (n / 64 / 64)
  have hsquare (k : Nat) : k / 4096 = k / 64 / 64 := by omega
  have hcube (k : Nat) : k / 262144 = k / 64 / 64 / 64 := by omega
  dsimp only
  repeat' split
  all_goals
    simp (disch := omega) only [hsquare, hcube, List.cons_append, List.nil_append, ofNat_cons_lt]
    omega

/-! ## 2. Texts -/

/-- The bytes of a text. -/
def bytes (s : String) : List UInt8 :=
  s.toUTF8.data.toList

theorem bytes_eq (s : String) : bytes s = s.toList.flatMap String.utf8EncodeChar := by
  rw [bytes, String.toUTF8_eq_toByteArray, ← String.ofList_toList (s := s), String.toByteArray_ofList,
    String.toList_ofList, List.utf8Encode, List.data_toByteArray]

/-- The bytes of the lesser of two lists of characters come first. -/
theorem flatMap_encode_lt {s t : List Char} (h : s < t) :
    s.flatMap String.utf8EncodeChar < t.flatMap String.utf8EncodeChar := by
  induction s generalizing t with
  | nil =>
      cases t with
      | nil => exact absurd h (List.not_lt_nil _)
      | cons d t =>
          rw [List.flatMap_nil, List.flatMap_cons]
          cases hd : String.utf8EncodeChar d with
          | nil => exact absurd hd String.utf8EncodeChar_ne_nil
          | cons b bs => exact List.nil_lt_cons b _
  | cons c s ih =>
      cases t with
      | nil => exact absurd h (List.not_lt_nil _)
      | cons d t =>
          rw [List.flatMap_cons, List.flatMap_cons]
          rcases List.cons_lt_cons_iff.1 h with hcd | ⟨rfl, hst⟩
          · exact encode_lt hcd _ _
          · exact List.append_left_lt (ih hst)

/-- **The order of texts is the order of their bytes.** -/
theorem bytes_lt_iff {s t : String} : bytes s < bytes t ↔ s < t := by
  rw [bytes_eq, bytes_eq, String.lt_iff_toList_lt]
  refine ⟨fun h => ?_, flatMap_encode_lt⟩
  rcases lt_trichotomy s.toList t.toList with hlt | heq | hgt
  · exact hlt
  · rw [heq] at h
    exact absurd h (List.lt_irrefl _)
  · exact absurd (flatMap_encode_lt hgt) (List.lt_asymm h)

end Quire.Text
