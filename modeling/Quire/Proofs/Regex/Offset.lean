import Quire.Proofs.Regex.Way
import Quire.Proofs.Text.Cut

/-!
# Places and byte offsets

A place of a text and its offset tell each other: the place at the offset of a place is that place
(`at?_offset`), and at every offset between two characters there is a place, whose offset it is
(`exists_at?`); at an offset inside a character it is the next one (`exists_at?_of_le`). What lies
between two places is the slice between their offsets (`slice_offset`).
-/

namespace Quire.Regex.Place

open Quire.Text

variable {s : String} {p q : Place} {n : Nat}

/-! ## 1. Offsets of places -/

theorem left_ofString (s : String) : (ofString s).left = s.utf8ByteSize :=
  byteSize_toList s

theorem left_le_size (h : (ofString s).Reaches q) : q.left ≤ s.utf8ByteSize := by
  rw [← left_ofString]
  exact h.left_le

theorem offset_add_left (h : (ofString s).Reaches q) :
    q.offset s.utf8ByteSize + q.left = s.utf8ByteSize :=
  Nat.sub_add_cancel (left_le_size h)

theorem offset_ofString (s : String) : (ofString s).offset s.utf8ByteSize = 0 := by
  rw [offset, left_ofString, Nat.sub_self]

/-- What follows a place is what is left of the text behind its offset. -/
theorem dropBytes_offset (h : (ofString s).Reaches p) :
    dropBytes (p.offset s.utf8ByteSize) s.toList = p.rest := by
  have hsize : byteSize ((ofString s).upTo p) = p.offset s.utf8ByteSize := by
    have := congrArg byteSize h.rest_eq
    rw [byteSize_append, ← p.left_eq, ← (ofString s).left_eq, left_ofString] at this
    rw [offset]
    omega
  have hrest : s.toList = (ofString s).upTo p ++ p.rest := h.rest_eq
  rw [← hsize, hrest]
  exact dropBytes_append _ _

/-- **Between two places stands the slice between their offsets.** -/
theorem slice_offset (hp : (ofString s).Reaches p) (hq : p.Reaches q) :
    slice s (p.offset s.utf8ByteSize) (q.offset s.utf8ByteSize) = String.ofList (p.upTo q) := by
  have hp' := offset_add_left hp
  have hq' := offset_add_left (hp.trans hq)
  have hlen : q.offset s.utf8ByteSize - p.offset s.utf8ByteSize = p.left - q.left := by omega
  rw [slice, dropBytes_offset hp, hlen, upTo]

/-- **What follows a place, as a text of its own, is the slice from its offset to the end.** -/
theorem alone_eq_ofString (h : (ofString s).Reaches p) :
    p.alone = ofString (slice s (p.offset s.utf8ByteSize) s.utf8ByteSize) := by
  have hleft : s.utf8ByteSize - p.offset s.utf8ByteSize = byteSize p.rest := by
    have := offset_add_left h
    rw [← p.left_eq]
    omega
  have hwhole := takeBytes_append p.rest []
  rw [List.append_nil] at hwhole
  refine eq_of_rest_eq rfl ?_
  rw [slice, dropBytes_offset h, hleft, hwhole]
  exact String.toList_ofList.symm

theorem isBoundary_offset (h : (ofString s).Reaches q) :
    isBoundary s.toList (q.offset s.utf8ByteSize) = true := by
  refine isBoundary_iff.2 ⟨(ofString s).upTo q, q.rest, h.rest_eq, ?_⟩
  have := congrArg byteSize h.rest_eq
  rw [byteSize_append, ← q.left_eq, ← (ofString s).left_eq, left_ofString] at this
  rw [offset]
  omega

theorem isRange_offset (hp : (ofString s).Reaches p) (hq : p.Reaches q) :
    isRange s (p.offset s.utf8ByteSize) (q.offset s.utf8ByteSize) = true :=
  isRange_iff.2 ⟨Nat.sub_le_sub_left hq.left_le _, isBoundary_offset hp,
    isBoundary_offset (hp.trans hq)⟩

/-! ## 2. Places at offsets -/

theorem skip?_of_reaches (h : p.Reaches q) : skip? p.before (p.left - q.left) p.rest = some q := by
  induction h with
  | here p =>
      rw [Nat.sub_self, skip?]
      exact congrArg some (eq_of_rest_eq rfl rfl)
  | @step p q r c hn hr ih =>
      have hpos := c.utf8Size_pos
      have hleft := left_of_next? hn
      have hle := hr.left_le
      obtain ⟨hrest, hbefore⟩ := rest_of_next? hn
      obtain ⟨k, hk⟩ : ∃ k, p.left - r.left = k + 1 := ⟨p.left - r.left - 1, by omega⟩
      rw [hrest, hk, skip?, ← hbefore, show k + 1 - c.utf8Size = q.left - r.left by omega]
      exact ih

/-- **The place at the offset of a place is that place.** -/
theorem at?_offset (h : (ofString s).Reaches q) : at? s (q.offset s.utf8ByteSize) = some q := by
  have := skip?_of_reaches h
  rwa [left_ofString] at this

/-- A place that is skipped to is reached, and no byte less is skipped than asked for. -/
theorem of_skip? {before : Option Char} {l : List Char} (h : skip? before n l = some q) :
    (⟨before, l, byteSize l, rfl⟩ : Place).Reaches q ∧ n + q.left ≤ byteSize l := by
  induction l generalizing before n with
  | nil =>
      cases n with
      | zero =>
          rw [skip?, Option.some.injEq] at h
          subst h
          exact ⟨.here _, Nat.le_refl _⟩
      | succ n => cases h
  | cons c cs ih =>
      cases n with
      | zero =>
          rw [skip?, Option.some.injEq] at h
          subst h
          exact ⟨.here _, Nat.le_of_eq (Nat.zero_add _)⟩
      | succ n =>
          rw [skip?] at h
          obtain ⟨hr, hle⟩ := ih h
          have hn : (⟨before, c :: cs, byteSize (c :: cs), rfl⟩ : Place).next? =
              some (c, ⟨some c, cs, byteSize cs, rfl⟩) := by
            simp only [next?, byteSize_cons, Nat.add_sub_cancel_left]
          have hsize := byteSize_cons c cs
          exact ⟨.step hn hr, by omega⟩

/-- **A place at an offset is one of the text and lies no earlier than the offset.** -/
theorem of_at? (h : at? s n = some q) :
    (ofString s).Reaches q ∧ n ≤ q.offset s.utf8ByteSize := by
  obtain ⟨hr, hle⟩ := of_skip? h
  refine ⟨hr, ?_⟩
  rw [offset, ← byteSize_toList]
  omega

/-- No place is passed over that lies far enough. -/
theorem exists_skip? {before : Option Char} {l : List Char} {r : Place}
    (hr : (⟨before, l, byteSize l, rfl⟩ : Place).Reaches r) (hle : n + r.left ≤ byteSize l) :
    ∃ q, skip? before n l = some q ∧ q.Reaches r := by
  induction l generalizing before n with
  | nil =>
      cases n with
      | zero => exact ⟨_, rfl, hr⟩
      | succ n => exact absurd hle (by rw [byteSize_nil]; omega)
  | cons c cs ih =>
      cases n with
      | zero => exact ⟨_, rfl, hr⟩
      | succ n =>
          cases hr with
          | here => exact absurd hle (by dsimp only; omega)
          | @step _ q _ d hn hr =>
              obtain ⟨hrest, hbefore⟩ := rest_of_next? hn
              obtain ⟨rfl, rfl⟩ := List.cons.inj hrest
              have hq : q = ⟨some c, q.rest, byteSize q.rest, rfl⟩ := eq_of_rest_eq hbefore rfl
              rw [hq] at hr
              have := hr.left_le
              rw [byteSize_cons] at hle
              exact ih hr (by dsimp only at this; omega)

/-- **A place at an offset is the first one that lies no earlier.** -/
theorem exists_at?_of_le {r : Place} (hr : (ofString s).Reaches r)
    (hle : n ≤ r.offset s.utf8ByteSize) : ∃ q, at? s n = some q ∧ q.Reaches r := by
  have hleft := offset_add_left hr
  exact exists_skip? hr (by rw [byteSize_toList]; omega)

/-- Every part that a text begins with leads to a place. -/
theorem exists_reaches (before : Option Char) (a b : List Char) :
    ∃ q, (⟨before, a ++ b, byteSize (a ++ b), rfl⟩ : Place).Reaches q ∧ q.rest = b := by
  induction a generalizing before with
  | nil => exact ⟨_, .here _, rfl⟩
  | cons c a ih =>
      obtain ⟨q, hr, hq⟩ := ih (some c)
      refine ⟨q, .step (c := c) ?_ hr, hq⟩
      simp only [List.cons_append, next?, byteSize_cons, Nat.add_sub_cancel_left]

/-- **At every offset between two characters there is a place, whose offset it is.** -/
theorem exists_at? (h : isBoundary s.toList n = true) :
    ∃ q, at? s n = some q ∧ (ofString s).Reaches q ∧ q.offset s.utf8ByteSize = n := by
  obtain ⟨a, b, hs, rfl⟩ := isBoundary_iff.1 h
  have hex : ∃ q, (ofString s).Reaches q ∧ q.rest = b := by
    rw [ofString, ofChars, hs]
    exact exists_reaches none a b
  obtain ⟨q, hr, hq⟩ := hex
  have hoff : q.offset s.utf8ByteSize = byteSize a := by
    rw [offset, ← byteSize_toList, hs, byteSize_append, q.left_eq, hq, Nat.add_sub_cancel]
  have hat := at?_offset hr
  rw [hoff] at hat
  exact ⟨q, hat, hr, hoff⟩

end Quire.Regex.Place
