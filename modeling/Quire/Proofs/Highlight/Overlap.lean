import Quire.Proofs.Highlight.Segments

/-!
# Tokens in any order

Tokens need not come from a scan. Whatever parts of a source are given, in any order, empty or one over
another, they are laid out as they were given, and each is counted on from its own end: where one begins
before the end of its predecessor, there is no gap, and the text between the two places is shown once more.
So **what is laid out is the source and, over again, what the tokens overlap** (`byteSize_segmentsFrom`),
and it is the source alone exactly if no token begins before the end of the one before it.
-/

namespace Quire.Highlight

open Quire.Text (byteSize byteSize_slice byteSize_toList isBoundary isRange_end isRange_iff
  le_utf8ByteSize_of_isBoundary slice)

variable {source : String} {ts : List Token}

/-! ## 1. Sizes -/

/-- A gap has as many bytes as lie between its ends, in order or not. -/
theorem byteSize_gapBetween {a b : Nat} (ha : isBoundary source.toList a = true)
    (hb : isBoundary source.toList b = true) :
    byteSize ((gapBetween source a b).flatMap fun s => s.text.toList) = b - a := by
  by_cases hle : a ≤ b
  · have hrange := isRange_iff.2 ⟨hle, ha, hb⟩
    rw [text_gapBetween hrange, byteSize_slice hrange]
  · rw [gapBetween, if_neg fun h => hle (Nat.le_of_lt h), List.flatMap_nil, Text.byteSize_nil]
    omega

/-- **What is laid out has the bytes from an offset on, and those that the tokens overlap.** -/
theorem byteSize_segmentsFrom {last : Nat} (hparts : ∀ t ∈ ts, t.IsPartOf source)
    (hlast : isBoundary source.toList last = true) :
    last + byteSize ((segmentsFrom source last ts).flatMap fun s => s.text.toList) =
      source.utf8ByteSize + overlapFrom last ts := by
  induction ts generalizing last with
  | nil =>
      have hle := le_utf8ByteSize_of_isBoundary hlast
      obtain ⟨-, -, hend⟩ := isRange_iff.1 (isRange_end hlast)
      rw [segmentsFrom_nil, byteSize_gapBetween hlast hend, overlapFrom]
      omega
  | cons t ts ih =>
      rw [List.forall_mem_cons] at hparts
      obtain ⟨⟨hrange, htext⟩, hparts⟩ := hparts
      obtain ⟨hle, hstart, hstop⟩ := isRange_iff.1 hrange
      have hsize : byteSize (Segment.token t).text.toList = t.stop - t.start := by
        rw [Segment.text, htext, byteSize_slice hrange]
      have hrest := ih hparts hstop
      rw [segmentsFrom_cons, List.flatMap_append, List.flatMap_cons, Text.byteSize_append,
        Text.byteSize_append, byteSize_gapBetween hlast hstart, hsize, overlapFrom]
      -- up to the token's end there are the gap and the token, or the token and what it overlaps
      omega

theorem byteSize_flatMap (ss : List Segment) :
    byteSize (ss.flatMap fun s => s.text.toList) = (ss.map fun s => s.text.utf8ByteSize).sum := by
  induction ss with
  | nil => rfl
  | cons s ss ih =>
      rw [List.flatMap_cons, Text.byteSize_append, byteSize_toList, ih, List.map_cons, List.sum_cons]

/-! ## 2. Overlaps -/

/-- By how much each token begins before the end of its predecessor. -/
def overlaps (ts : List Token) : List Nat :=
  ts.zipWith (fun t u => t.stop - u.start) ts.tail

/-- Nothing stands before the first token, so it overlaps nothing. -/
theorem overlapFrom_zero (ts : List Token) : overlapFrom 0 ts = (overlaps ts).sum := by
  have hstop (t : Token) (ts : List Token) : overlapFrom t.stop ts = (overlaps (t :: ts)).sum := by
    induction ts generalizing t with
    | nil => rfl
    | cons u us ih => exact congrArg (t.stop - u.start + ·) (ih u)
  cases ts with
  | nil => rfl
  | cons t ts => rw [overlapFrom, Nat.zero_sub, Nat.zero_add, hstop]

theorem sum_overlaps_eq_zero : (overlaps ts).sum = 0 ↔ ts.IsChain fun t u => t.stop ≤ u.start := by
  induction ts with
  | nil => exact iff_of_true rfl List.isChain_nil
  | cons t ts ih =>
      cases ts with
      | nil => exact iff_of_true rfl (List.isChain_singleton t)
      | cons u us =>
          have hsum : (overlaps (t :: u :: us)).sum = t.stop - u.start + (overlaps (u :: us)).sum := rfl
          rw [hsum, List.isChain_cons_cons, ← ih]
          omega

/-! ## 3. Segments -/

/-- **Tokens in any order, laid out.** They stand there as they were given; in bytes there is the source
and, for any two tokens one after the other, that by which the second begins before the end of the first;
and all texts together are the source exactly if no token begins before the end of its predecessor. -/
theorem segments_overlapping (source : String) (ts : List Token)
    (hparts : ∀ t ∈ ts, t.IsPartOf source) :
    (segments source ts).filterMap Segment.token? = ts ∧
    ((segments source ts).map fun s => s.text.utf8ByteSize).sum =
      source.utf8ByteSize + (overlaps ts).sum ∧
    (String.join ((segments source ts).map Segment.text) = source ↔
      ts.IsChain fun t u => t.stop ≤ u.start) := by
  have h0 := Text.isBoundary_zero source.toList
  have hsize : byteSize ((segments source ts).flatMap fun s => s.text.toList) =
      source.utf8ByteSize + (overlaps ts).sum := by
    rw [← overlapFrom_zero, ← byteSize_segmentsFrom hparts h0, Nat.zero_add, segments]
  refine ⟨filterMap_token?_segmentsFrom _ _ _, by rw [← byteSize_flatMap, hsize], ?_⟩
  rw [← String.toList_inj, String.toList_join, List.flatMap_map, ← sum_overlaps_eq_zero]
  constructor
  · intro htext
    rw [htext, byteSize_toList] at hsize
    omega
  · intro hnone
    rw [segments, text_segmentsFrom_of_overlapFrom hparts h0 (by rw [overlapFrom_zero, hnone]),
      Text.dropBytes_zero]

/-- Three tokens of three bytes, out of order and one of them empty, are laid out with five bytes over
again. -/
theorem segments_overlapping_accent :
    (∀ t ∈ [⟨.plain, "é", 1, 3⟩, ⟨.keyword, "aé", 0, 3⟩, ⟨.plain, "", 1, 1⟩], Token.IsPartOf "aé" t) ∧
      ((segments "aé" [⟨.plain, "é", 1, 3⟩, ⟨.keyword, "aé", 0, 3⟩, ⟨.plain, "", 1, 1⟩]).map fun s =>
        s.text.utf8ByteSize).sum = 3 + 5 ∧
      String.join ((segments "aé" [⟨.plain, "é", 1, 3⟩, ⟨.keyword, "aé", 0, 3⟩,
        ⟨.plain, "", 1, 1⟩]).map Segment.text) ≠ "aé" := by
  have hparts : ∀ t ∈ [⟨.plain, "é", 1, 3⟩, ⟨.keyword, "aé", 0, 3⟩, ⟨.plain, "", 1, 1⟩],
      Token.IsPartOf "aé" t := by
    simp only [List.forall_mem_cons]
    exact ⟨⟨by decide, by decide⟩, ⟨by decide, by decide⟩, ⟨by decide, by decide⟩, by simp⟩
  obtain ⟨-, hsize, htext⟩ := segments_overlapping "aé" _ hparts
  refine ⟨hparts, hsize, fun h => ?_⟩
  have hchain := htext.1 h
  rw [← sum_overlaps_eq_zero] at hchain
  exact absurd hchain (by decide)

end Quire.Highlight
