import Mathlib.Data.List.Chain
import Quire.Proofs.Highlight.Rescan

/-!
# A scanned source, laid out

The tokens of a scan lie in the source one behind the other (`InOrder`), whatever the patterns are:
a match that counts takes something, and the next is searched from its end. Laid out with the gaps
around them, **they make up the source and nothing else** (`text_segmentsFrom`): no character is
lost or shown twice, no gap is empty, and no two gaps stand side by side.
-/

namespace Quire.Highlight

open Quire.Regex (Place)
open Quire.Text (byteSize byteSize_slice byteSize_toList dropBytes isBoundary isRange isRange_end
  isRange_iff le_utf8ByteSize_of_isBoundary slice)

/-! ## 1. Tokens in order -/

/-- The tokens are parts of the source, none of them empty, and lie one behind the other from an
offset on. -/
inductive InOrder (source : String) : Nat → List Token → Prop where
  | nil {last : Nat} : InOrder source last []
  | cons {last : Nat} {t : Token} {ts : List Token} :
      last ≤ t.start → t.start < t.stop → isRange source t.start t.stop = true →
      t.text = slice source t.start t.stop → InOrder source t.stop ts → InOrder source last (t :: ts)

namespace InOrder

variable {source : String} {last : Nat} {ts : List Token}

theorem le_start (h : InOrder source last ts) : ∀ t ∈ ts, last ≤ t.start := by
  induction h with
  | nil => intro t ht; cases ht
  | cons hle hlt _ _ _ ih =>
      intro t ht
      rcases List.mem_cons.1 ht with rfl | ht
      · exact hle
      · have := ih t ht
        omega

theorem pairwise (h : InOrder source last ts) : ts.Pairwise fun t u => t.stop ≤ u.start := by
  induction h with
  | nil => exact List.Pairwise.nil
  | cons _ _ _ _ h ih => exact List.Pairwise.cons h.le_start ih

theorem of_mem (h : InOrder source last ts) {t : Token} (ht : t ∈ ts) :
    t.start < t.stop ∧ isRange source t.start t.stop = true ∧
      t.text = slice source t.start t.stop := by
  induction h with
  | nil => cases ht
  | cons _ hlt hrange htext _ ih =>
      rcases List.mem_cons.1 ht with rfl | ht
      · exact ⟨hlt, hrange, htext⟩
      · exact ih ht

end InOrder

/-- **The tokens of a scan lie in order.** -/
theorem Lexer.inOrder_rescan (l : Lexer) (source : String) (pos : Nat) :
    InOrder source pos (l.rescan source pos) := by
  induction pos using rescan.induct l source with
  | case1 pos h =>
      rw [rescan_of_none h]
      exact .nil
  | case2 pos o h ih =>
      obtain ⟨hle, hlt, hrange⟩ := of_mem_offers (List.argmin_mem h)
      rw [rescan_of_some h]
      exact .cons hle hlt hrange rfl ih

theorem Lexer.inOrder_tokenize (l : Lexer) (source : String) :
    InOrder source 0 (l.tokenize source) := by
  rw [tokenize_eq_rescan]
  exact l.inOrder_rescan source 0

/-! ## 2. Gaps -/

/-- The gap between two offsets, if there is any text between them. -/
def gapBetween (source : String) (a b : Nat) : List Segment :=
  if a < b then [.gap (slice source a b)] else []

variable {source : String}

theorem segmentsFrom_nil (source : String) (last : Nat) :
    segmentsFrom source last [] = gapBetween source last source.utf8ByteSize := rfl

theorem segmentsFrom_cons (source : String) (last : Nat) (t : Token) (ts : List Token) :
    segmentsFrom source last (t :: ts) =
      gapBetween source last t.start ++ .token t :: segmentsFrom source t.stop ts := by
  rw [segmentsFrom, gapBetween]
  split <;> rfl

theorem ne_empty_of_mem_gapBetween {a b : Nat} {text : String} (h : isRange source a b = true)
    (hg : Segment.gap text ∈ gapBetween source a b) : text ≠ "" := by
  rw [gapBetween] at hg
  split at hg
  · rename_i hlt
    rw [List.mem_singleton, Segment.gap.injEq] at hg
    have hsize := byteSize_slice h
    rintro rfl
    rw [← hg, byteSize_toList] at hsize
    have h0 : "".utf8ByteSize = 0 := rfl
    omega
  · cases hg

theorem text_gapBetween {a b : Nat} (h : isRange source a b = true) :
    (gapBetween source a b).flatMap (fun s => s.text.toList) = (slice source a b).toList := by
  rw [gapBetween]
  split
  · rw [List.flatMap_singleton]
    rfl
  · -- the offsets are the same, and so nothing stands between them
    have hsize := byteSize_slice h
    have h0 : byteSize (slice source a b).toList = 0 := by omega
    exact (Text.byteSize_eq_zero_iff.1 h0).symm

/-! ## 3. Segments -/

/-- The token of a segment, if it is one. -/
def Segment.token? : Segment → Option Token
  | gap _ => none
  | token t => some t

/-- Whether a segment is a gap. -/
def Segment.isGap : Segment → Bool
  | gap _ => true
  | token _ => false

/-- No two segments that stand side by side are gaps. -/
def NoAdjacentGaps (ss : List Segment) : Prop :=
  ss.IsChain fun s s' => ¬ (s.isGap = true ∧ s'.isGap = true)

theorem filterMap_token?_gapBetween (source : String) (a b : Nat) :
    (gapBetween source a b).filterMap Segment.token? = [] := by
  rw [gapBetween]
  split <;> rfl

/-- **The tokens are laid out as they were given.** -/
theorem filterMap_token?_segmentsFrom (source : String) (last : Nat) (ts : List Token) :
    (segmentsFrom source last ts).filterMap Segment.token? = ts := by
  induction ts generalizing last with
  | nil => rw [segmentsFrom_nil, filterMap_token?_gapBetween]
  | cons t ts ih =>
      have ht : (Segment.token t).token? = some t := rfl
      rw [segmentsFrom_cons, List.filterMap_append, filterMap_token?_gapBetween, List.nil_append,
        List.filterMap_cons_some ht, ih]

theorem noAdjacentGaps_segmentsFrom (source : String) (last : Nat) (ts : List Token) :
    NoAdjacentGaps (segmentsFrom source last ts) := by
  have hgap : ∀ a b, NoAdjacentGaps (gapBetween source a b) := by
    intro a b
    rw [gapBetween]
    split
    · exact List.isChain_singleton _
    · exact List.isChain_nil
  induction ts generalizing last with
  | nil => exact hgap _ _
  | cons t ts ih =>
      rw [segmentsFrom_cons]
      refine List.isChain_append.2 ⟨hgap _ _, ?_, ?_⟩
      · exact List.isChain_cons.2 ⟨fun s _ hs => Bool.noConfusion hs.1, ih t.stop⟩
      · rintro s - s' hs' ⟨-, h⟩
        rw [List.head?_cons, Option.mem_some_iff] at hs'
        subst hs'
        cases h

/-- A token that is a part of a source: it lies between two places of the source, and its text is the text
there. -/
structure Token.IsPartOf (source : String) (t : Token) : Prop where
  range : isRange source t.start t.stop = true
  text_eq : t.text = slice source t.start t.stop

/-- How many bytes are laid out once more, where `last` is where the token before the first one ended: for
every token, by how much it begins before the end of its predecessor. -/
def overlapFrom (last : Nat) : List Token → Nat
  | [] => 0
  | t :: ts => last - t.start + overlapFrom t.stop ts

/-- **Laid out from an offset on, parts of the source that do not overlap make it up from there on.** -/
theorem text_segmentsFrom_of_overlapFrom {last : Nat} {ts : List Token}
    (hparts : ∀ t ∈ ts, t.IsPartOf source) (hlast : isBoundary source.toList last = true)
    (hoverlap : overlapFrom last ts = 0) :
    (segmentsFrom source last ts).flatMap (fun s => s.text.toList) =
      dropBytes last source.toList := by
  induction ts generalizing last with
  | nil =>
      have hrange := isRange_end hlast
      rw [segmentsFrom_nil, text_gapBetween hrange, Text.dropBytes_eq_slice_append hrange]
      have hdrop := Text.dropBytes_append source.toList []
      rw [List.append_nil, byteSize_toList] at hdrop
      rw [hdrop, List.append_nil]
  | cons t ts ih =>
      rw [List.forall_mem_cons] at hparts
      obtain ⟨⟨hrange, htext⟩, hparts⟩ := hparts
      obtain ⟨hle, hrest⟩ : last - t.start = 0 ∧ overlapFrom t.stop ts = 0 := Nat.add_eq_zero_iff.1 hoverlap
      obtain ⟨-, hstart, hstop⟩ := isRange_iff.1 hrange
      have hgap : isRange source last t.start = true :=
        isRange_iff.2 ⟨Nat.le_of_sub_eq_zero hle, hlast, hstart⟩
      rw [segmentsFrom_cons, List.flatMap_append, text_gapBetween hgap, List.flatMap_cons,
        ih hparts hstop hrest, Text.dropBytes_eq_slice_append hgap, Text.dropBytes_eq_slice_append hrange]
      rw [Segment.text, htext]

theorem InOrder.overlapFrom_eq_zero {last : Nat} {ts : List Token} (h : InOrder source last ts) :
    overlapFrom last ts = 0 := by
  induction h with
  | nil => rfl
  | cons hle _ _ _ _ ih => rw [overlapFrom, ih, Nat.sub_eq_zero_of_le hle]

/-- **Laid out from an offset on, tokens in order make up the source from there on.** -/
theorem text_segmentsFrom {last : Nat} {ts : List Token} (h : InOrder source last ts)
    (hlast : isBoundary source.toList last = true) :
    (segmentsFrom source last ts).flatMap (fun s => s.text.toList) =
      dropBytes last source.toList :=
  text_segmentsFrom_of_overlapFrom (fun _ ht => ⟨(h.of_mem ht).2.1, (h.of_mem ht).2.2⟩) hlast
    h.overlapFrom_eq_zero

theorem ne_empty_of_mem_segmentsFrom {last : Nat} {ts : List Token} {text : String}
    (h : InOrder source last ts) (hlast : isBoundary source.toList last = true)
    (hg : Segment.gap text ∈ segmentsFrom source last ts) : text ≠ "" := by
  induction h with
  | nil => exact ne_empty_of_mem_gapBetween (isRange_end hlast) hg
  | cons hle _ hrange _ _ ih =>
      obtain ⟨-, hstart, hstop⟩ := isRange_iff.1 hrange
      rw [segmentsFrom_cons, List.mem_append, List.mem_cons] at hg
      rcases hg with hg | hg | hg
      · exact ne_empty_of_mem_gapBetween (isRange_iff.2 ⟨hle, hlast, hstart⟩) hg
      · cases hg
      · exact ih hstop hg

/-- **The segments of a scan make up the source.** -/
theorem Lexer.join_text_scan (l : Lexer) (source : String) :
    String.join ((l.scan source).map Segment.text) = source := by
  rw [← String.toList_inj, String.toList_join, List.flatMap_map, scan, segments,
    text_segmentsFrom (l.inOrder_tokenize source) (Text.isBoundary_zero _), Text.dropBytes_zero]

/-! ## 4. Every scan -/

/-- **Every scan is well formed and loses nothing.** Whatever bound is set on its rounds, and on
the attempts of its patterns, that exceeds the bytes of the source, the tokens are the same. They
are parts of the source between characters, none of them empty, each with its text, and lie one
behind the other. Laid out with the gaps around them they stand in this order, no gap is empty, no
two gaps stand side by side, and all texts together are the source. -/
theorem Lexer.scan_wellFormed (l : Lexer) (source : String) :
    (∀ n, source.utf8ByteSize < n →
      l.tokensFrom source.utf8ByteSize n (.start l.patterns (.ofString source))
        (.ofString source) = l.tokenize source) ∧
    (∀ p ∈ l.patterns, ∀ (q : Place) (n : Nat), q.left < n → p.search n q = p.find? q) ∧
    (∀ t ∈ l.tokenize source,
      t.start < t.stop ∧ t.stop ≤ source.utf8ByteSize ∧
        isBoundary source.toList t.start = true ∧ isBoundary source.toList t.stop = true ∧
        t.text = slice source t.start t.stop) ∧
    (l.tokenize source).Pairwise (fun t u => t.stop ≤ u.start) ∧
    (l.scan source).filterMap Segment.token? = l.tokenize source ∧
    (∀ text, Segment.gap text ∈ l.scan source → text ≠ "") ∧
    NoAdjacentGaps (l.scan source) ∧
    String.join ((l.scan source).map Segment.text) = source := by
  have hord := l.inOrder_tokenize source
  have h0 := Text.isBoundary_zero source.toList
  refine ⟨fun n hn => ?_, fun p _ q n hn => ?_, fun t ht => ?_, hord.pairwise,
    filterMap_token?_segmentsFrom _ _ _, fun text hg => ne_empty_of_mem_segmentsFrom hord h0 hg,
    noAdjacentGaps_segmentsFrom _ _ _, l.join_text_scan source⟩
  · rw [tokensFrom_eq_rescan (.here _) (.here _) (by rwa [Place.left_ofString]),
      Place.offset_ofString, tokenize_eq_rescan]
  · rw [Pattern.search_eq_first? hn, Pattern.find?_eq_first?]
  · obtain ⟨hlt, hrange, htext⟩ := hord.of_mem ht
    obtain ⟨-, hstart, hstop⟩ := isRange_iff.1 hrange
    exact ⟨hlt, le_utf8ByteSize_of_isBoundary hstop, hstart, hstop, htext⟩

end Quire.Highlight
