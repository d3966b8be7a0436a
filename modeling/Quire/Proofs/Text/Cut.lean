import Quire.Text.Bytes

/-!
# Cutting a text at offsets

An offset that falls between two characters cuts a text in two (`isBoundary_iff`), and two of them
in order cut it in three (`exists_cut`); the part in the middle is the slice between them. So
**slices that meet join** (`dropBytes_eq_slice_append`), which is what a text that is laid out part
by part is put together with.
-/

namespace Quire.Text

/-! ## 1. Sizes -/

theorem byteSize_toList (s : String) : byteSize s.toList = s.utf8ByteSize := by
  induction s using String.push_induction with
  | empty => rfl
  | push s c ih =>
      rw [String.toList_push, byteSize_append, ih, String.utf8ByteSize_push, byteSize_cons,
        byteSize_nil, Nat.add_zero]

theorem byteSize_le_of_sublist {a b : List Char} (h : a.Sublist b) : byteSize a ≤ byteSize b := by
  induction h with
  | slnil => exact Nat.le_refl _
  | cons c _ ih =>
      rw [byteSize_cons]
      exact Nat.le_add_left_of_le ih
  | cons_cons c _ ih =>
      rw [byteSize_cons, byteSize_cons]
      exact Nat.add_le_add_left ih _

theorem byteSize_eq_zero_iff {s : List Char} : byteSize s = 0 ↔ s = [] := by
  constructor
  · intro h
    have := length_le_byteSize s
    exact List.length_eq_zero_iff.1 (by omega)
  · rintro rfl
    rfl

/-! ## 2. One cut -/

theorem takeBytes_append (a b : List Char) : takeBytes (byteSize a) (a ++ b) = a := by
  induction a with
  | nil => exact takeBytes_zero b
  | cons c a ih =>
      rw [byteSize_cons, List.cons_append, takeBytes, if_pos (Nat.le_add_right _ _),
        Nat.add_sub_cancel_left, ih]

theorem dropBytes_append (a b : List Char) : dropBytes (byteSize a) (a ++ b) = b := by
  induction a with
  | nil => exact dropBytes_zero b
  | cons c a ih =>
      rw [byteSize_cons, List.cons_append, dropBytes, if_pos (Nat.le_add_right _ _),
        Nat.add_sub_cancel_left, ih]

/-- **An offset falls between two characters if it is the size of a part that the text begins
with.** -/
theorem isBoundary_iff {s : List Char} {n : Nat} :
    isBoundary s n = true ↔ ∃ a b, s = a ++ b ∧ byteSize a = n := by
  constructor
  · intro h
    induction s generalizing n with
    | nil =>
        cases n with
        | zero => exact ⟨[], [], rfl, rfl⟩
        | succ n => cases h
    | cons c s ih =>
        cases n with
        | zero => exact ⟨[], c :: s, rfl, rfl⟩
        | succ n =>
            rw [isBoundary, Bool.and_eq_true, decide_eq_true_eq] at h
            obtain ⟨a, b, rfl, ha⟩ := ih h.2
            refine ⟨c :: a, b, rfl, ?_⟩
            rw [byteSize_cons, ha]
            omega
  · rintro ⟨a, b, rfl, rfl⟩
    induction a with
    | nil =>
        rw [byteSize_nil, isBoundary]
    | cons c a ih =>
        have := c.utf8Size_pos
        obtain ⟨k, hk⟩ : ∃ k, byteSize (c :: a) = k + 1 :=
          ⟨byteSize (c :: a) - 1, by rw [byteSize_cons]; omega⟩
        rw [hk, List.cons_append, isBoundary, Bool.and_eq_true, decide_eq_true_eq]
        rw [byteSize_cons] at hk
        refine ⟨by omega, ?_⟩
        rw [show k + 1 - c.utf8Size = byteSize a by omega]
        exact ih

theorem isBoundary_zero (s : List Char) : isBoundary s 0 = true :=
  isBoundary_iff.2 ⟨[], s, rfl, rfl⟩

theorem isBoundary_byteSize (s : List Char) : isBoundary s (byteSize s) = true :=
  isBoundary_iff.2 ⟨s, [], (List.append_nil s).symm, rfl⟩

theorem le_byteSize_of_isBoundary {s : List Char} {n : Nat} (h : isBoundary s n = true) :
    n ≤ byteSize s := by
  obtain ⟨a, b, rfl, rfl⟩ := isBoundary_iff.1 h
  rw [byteSize_append]
  exact Nat.le_add_right _ _

theorem le_utf8ByteSize_of_isBoundary {s : String} {n : Nat}
    (h : isBoundary s.toList n = true) : n ≤ s.utf8ByteSize := by
  rw [← byteSize_toList]
  exact le_byteSize_of_isBoundary h

/-! ## 3. Two cuts -/

theorem isRange_iff {s : String} {a b : Nat} :
    isRange s a b = true ↔
      a ≤ b ∧ isBoundary s.toList a = true ∧ isBoundary s.toList b = true := by
  rw [isRange, Bool.and_eq_true, Bool.and_eq_true, decide_eq_true_eq, and_assoc]

/-- From where a text is cut there is a range to its end. -/
theorem isRange_end {s : String} {a : Nat} (h : isBoundary s.toList a = true) :
    isRange s a s.utf8ByteSize = true := by
  have hend := isBoundary_byteSize s.toList
  rw [byteSize_toList] at hend
  exact isRange_iff.2 ⟨le_utf8ByteSize_of_isBoundary h, h, hend⟩

/-- **Two offsets in order cut a text in three.** -/
theorem exists_cut {s : List Char} {a b : Nat} (hab : a ≤ b) (ha : isBoundary s a = true)
    (hb : isBoundary s b = true) :
    ∃ x y z, s = x ++ (y ++ z) ∧ byteSize x = a ∧ byteSize y = b - a := by
  obtain ⟨x, r, rfl, rfl⟩ := isBoundary_iff.1 ha
  obtain ⟨u, z, he, rfl⟩ := isBoundary_iff.1 hb
  rcases List.append_eq_append_iff.1 he with ⟨y, rfl, rfl⟩ | ⟨y, rfl, rfl⟩
  · exact ⟨x, y, z, rfl, rfl, by rw [byteSize_append, Nat.add_sub_cancel_left]⟩
  · -- the second cut lies before the first, so nothing stands between them
    rw [byteSize_append] at hab
    have hy : byteSize y = 0 := by omega
    rw [byteSize_eq_zero_iff] at hy
    subst hy
    exact ⟨u, [], r, by simp, by simp, by simp⟩

/-- **The text from one offset on is the slice up to another, and the text from there on.** -/
theorem dropBytes_eq_slice_append {s : String} {a b : Nat} (h : isRange s a b = true) :
    dropBytes a s.toList = (slice s a b).toList ++ dropBytes b s.toList := by
  obtain ⟨hab, ha, hb⟩ := isRange_iff.1 h
  obtain ⟨x, y, z, hs, rfl, hy⟩ := exists_cut hab ha hb
  have hb' : b = byteSize (x ++ y) := by
    rw [byteSize_append]
    omega
  rw [slice, String.toList_ofList, hs, dropBytes_append, ← hy, takeBytes_append, hb',
    ← List.append_assoc, dropBytes_append]

/-- A slice has as many bytes as lie between its ends. -/
theorem byteSize_slice {s : String} {a b : Nat} (h : isRange s a b = true) :
    byteSize (slice s a b).toList = b - a := by
  obtain ⟨hab, ha, hb⟩ := isRange_iff.1 h
  obtain ⟨x, y, z, hs, rfl, hy⟩ := exists_cut hab ha hb
  rw [slice, String.toList_ofList, hs, dropBytes_append, ← hy, takeBytes_append]

end Quire.Text
