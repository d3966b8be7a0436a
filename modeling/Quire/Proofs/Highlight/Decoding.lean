import Quire.Highlight.Markup
import Quire.Proofs.Highlight.Segments
import Quire.Proofs.Html.Escape
import Quire.Proofs.Text.Mark

/-!
# Reading highlighted markup

Markup that was written for a scanned source is read by its tags: a span is a token of the category
that its class names, and what stands outside of spans is gap (`readMarkup?`). **Reading gives back
the segments that were written** (`readMarkup?_written`). What makes this work is that no angle
bracket is left in a text that is written (`escapeChars_special`), so every one of them belongs to a
tag; and that no gap is empty and none stands beside another, so they can be told apart.
-/

namespace Quire.Highlight

open Quire.Html (escapeChars unescapeChars escapeChars_special escapeChars_ne_nil)
open Quire.Text (dropMark? upTo? eq_append_of_dropMark? eq_append_of_upTo? dropMark?_append)

/-! ## 1. Reading -/

/-- What begins a span, up to the name of its class. -/
def spanStart : List Char := "<span class=\"".toList

/-- What stands between the name of the class and the text of a span. -/
def spanMiddle : List Char := "\">".toList

/-- What ends a span. -/
def spanEnd : List Char := "</span>".toList

/-- A span at the front of markup: its category, its text as it stands there, and what follows. -/
def readSpan? (s : List Char) : Option (Category × List Char × List Char) := do
  let inside ← dropMark? spanStart s
  let (name, content) ← upTo? spanMiddle inside
  let category ← Category.ofClassName? (String.ofList name)
  let rest ← dropMark? spanEnd (content.dropWhile (· ≠ '<'))
  return (category, content.takeWhile (· ≠ '<'), rest)

theorem length_lt_of_readSpan? {s text rest : List Char} {c : Category}
    (h : readSpan? s = some (c, text, rest)) : rest.length < s.length := by
  obtain ⟨inside, h1, h⟩ := Option.bind_eq_some_iff.1 h
  obtain ⟨⟨name, content⟩, h2, h⟩ := Option.bind_eq_some_iff.1 h
  obtain ⟨category, -, h⟩ := Option.bind_eq_some_iff.1 h
  obtain ⟨r, h3, h⟩ := Option.bind_eq_some_iff.1 h
  obtain ⟨rfl, rfl, rfl⟩ : category = c ∧ content.takeWhile (· ≠ '<') = text ∧ r = rest := by
    simpa using h
  have hc := congrArg List.length (List.takeWhile_append_dropWhile (p := (· ≠ '<')) (l := content))
  have h3' := congrArg List.length (eq_append_of_dropMark? h3)
  rw [eq_append_of_dropMark? h1, eq_append_of_upTo? h2]
  simp only [List.length_append] at hc h3' ⊢
  have : 0 < spanStart.length := by decide
  omega

/-- The parts of markup, in order: each with its category, if it is a span, and its text. Markup
that holds any other tag is not read. -/
def readMarkup? : List Char → Option (List (Option Category × String))
  | [] => some []
  | c :: cs =>
    if c = '<' then
      match _h : readSpan? (c :: cs) with
      | some (category, text, rest) =>
        (readMarkup? rest).map ((some category, String.ofList (unescapeChars text)) :: ·)
      | none => none
    else
      let text := c :: cs.takeWhile (· ≠ '<')
      (readMarkup? (cs.dropWhile (· ≠ '<'))).map
        ((none, String.ofList (unescapeChars text)) :: ·)
  termination_by s => s.length
  decreasing_by
    · exact length_lt_of_readSpan? _h
    · have := (List.dropWhile_suffix (l := cs) (· ≠ '<')).length_le
      simp only [List.length_cons]
      omega

/-- Markup without its tags, if it begins inside of one or not. -/
def withoutTags : Bool → List Char → List Char
  | _, [] => []
  | true, c :: cs => withoutTags (c ≠ '>') cs
  | false, c :: cs => if c = '<' then withoutTags true cs else c :: withoutTags false cs

/-! ## 2. What is written -/

/-- The part of markup that a segment is. -/
def Segment.part : Segment → Option Category × String
  | gap text => (none, text)
  | token t => (some t.category, t.text)

/-- The characters of a segment as it is written. -/
def Segment.written : Segment → List Char
  | gap text => escapeChars text.toList
  | token t =>
    spanStart ++ t.category.className.toList ++ spanMiddle ++ escapeChars t.text.toList ++ spanEnd

theorem toList_escape (s : String) : (Html.escape s).toList = escapeChars s.toList := by
  rw [Html.escape, String.toList_ofList]

theorem Segment.toList_markup (s : Segment) : (s.markup Html.escape).toList = s.written := by
  cases s with
  | gap text => exact toList_escape text
  | token t =>
      have h : (token t).markup Html.escape =
          "<span class=\"" ++ t.category.className ++ "\">" ++ Html.escape t.text ++ "</span>" := rfl
      rw [h, String.toList_append, String.toList_append, String.toList_append,
        String.toList_append, toList_escape]
      rfl

theorem Lexer.toList_highlight (l : Lexer) (source : String) :
    (l.highlight source).toList = (l.scan source).flatMap Segment.written := by
  rw [highlight, markup, markupWith, String.toList_join, List.flatMap_map, scan]
  simp only [Segment.toList_markup]

/-- No name of a category holds what ends it in a span. -/
theorem upTo?_className (c : Category) (s : List Char) :
    upTo? spanMiddle (c.className.toList ++ (spanMiddle ++ s)) = some (c.className.toList, s) := by
  cases c <;> rfl

/-- Up to the next angle bracket stands what is written there of a text. -/
theorem takeWhile_escapeChars (s r : List Char) :
    (escapeChars s ++ '<' :: r).takeWhile (· ≠ '<') = escapeChars s ∧
      (escapeChars s ++ '<' :: r).dropWhile (· ≠ '<') = '<' :: r := by
  have h : ∀ c ∈ escapeChars s, decide (c ≠ '<') = true := fun c hc =>
    decide_eq_true (escapeChars_special hc).1
  constructor
  · rw [List.takeWhile_append_of_pos h, List.takeWhile_cons_of_neg (by decide), List.append_nil]
  · rw [List.dropWhile_append_of_pos h, List.dropWhile_cons_of_neg (by decide)]

/-- **A span that was written is read.** -/
theorem readSpan?_written (t : Token) (r : List Char) :
    readSpan? ((Segment.token t).written ++ r) =
      some (t.category, escapeChars t.text.toList, r) := by
  have hend : spanEnd ++ r = '<' :: ("/span>".toList ++ r) := rfl
  obtain ⟨htake, hdrop⟩ := takeWhile_escapeChars t.text.toList ("/span>".toList ++ r)
  rw [readSpan?, Segment.written]
  simp only [List.append_assoc, dropMark?_append, upTo?_className, Option.bind_eq_bind,
    Option.bind_some, String.ofList_toList, Category.ofClassName?_className, hend, htake, hdrop]
  rw [← hend, dropMark?_append, Option.bind_some]
  rfl

/-! ## 3. Reading what was written -/

theorem readMarkup?_nil : readMarkup? [] = some [] := by
  rw [readMarkup?]

/-- A span at the front is read as one part. -/
theorem readMarkup?_of_readSpan? {s text rest : List Char} {c : Category}
    (h : readSpan? ('<' :: s) = some (c, text, rest)) :
    readMarkup? ('<' :: s) =
      (readMarkup? rest).map ((some c, String.ofList (unescapeChars text)) :: ·) := by
  rw [readMarkup?, if_pos rfl]
  split
  · rename_i c' text' rest' h'
    rw [h, Option.some.injEq, Prod.mk.injEq, Prod.mk.injEq] at h'
    obtain ⟨rfl, rfl, rfl⟩ := h'
    rfl
  · rename_i h'
    rw [h] at h'
    cases h'

/-- Text up to the next tag, or up to the end, is read as one part. -/
theorem readMarkup?_text {s r : List Char} (hs : s ≠ []) (h : ∀ c ∈ s, c ≠ '<')
    (hr : ∀ c ∈ r.head?, c = '<') :
    readMarkup? (s ++ r) =
      (readMarkup? r).map ((none, String.ofList (unescapeChars s)) :: ·) := by
  have hstop : r.takeWhile (· ≠ '<') = [] ∧ r.dropWhile (· ≠ '<') = r := by
    cases r with
    | nil => exact ⟨rfl, rfl⟩
    | cons c r =>
        have hc : c = '<' := hr c rfl
        subst hc
        exact ⟨List.takeWhile_cons_of_neg (by decide), List.dropWhile_cons_of_neg (by decide)⟩
  cases s with
  | nil => exact absurd rfl hs
  | cons c s =>
      have hs' : ∀ c ∈ s, decide (c ≠ '<') = true := fun c hc =>
        decide_eq_true (h c (List.mem_cons_of_mem _ hc))
      rw [List.cons_append, readMarkup?, if_neg (h c List.mem_cons_self)]
      dsimp only
      rw [List.takeWhile_append_of_pos hs', List.dropWhile_append_of_pos hs', hstop.1, hstop.2,
        List.append_nil]

/-- What is written of a token begins with an angle bracket. -/
theorem written_token (t : Token) : ∃ s, (Segment.token t).written = '<' :: s := ⟨_, rfl⟩

/-- **Segments are read as they were written**, if no gap is empty and no two stand side by
side. -/
theorem readMarkup?_written {ss : List Segment} (hgaps : NoAdjacentGaps ss)
    (hne : ∀ text, Segment.gap text ∈ ss → text ≠ "") :
    readMarkup? (ss.flatMap Segment.written) = some (ss.map Segment.part) := by
  induction ss with
  | nil => exact readMarkup?_nil
  | cons s ss ih =>
      obtain ⟨hnext, hgaps⟩ := List.isChain_cons.1 hgaps
      have hrest := ih hgaps fun text h => hne text (List.mem_cons_of_mem _ h)
      rw [List.flatMap_cons, List.map_cons]
      cases s with
      | token t =>
          obtain ⟨w, hw⟩ := written_token t
          have hread := readSpan?_written t (ss.flatMap Segment.written)
          rw [hw, List.cons_append] at hread ⊢
          rw [readMarkup?_of_readSpan? hread, hrest, Html.unescapeChars_escapeChars,
            String.ofList_toList, Option.map_some]
          rfl
      | gap text =>
          have htext : text.toList ≠ [] := fun h =>
            hne text List.mem_cons_self (String.toList_inj.1 h)
          have hhead : ∀ c ∈ (ss.flatMap Segment.written).head?, c = '<' := by
            cases ss with
            | nil => intro c hc; cases hc
            | cons s' ss =>
                cases s' with
                | gap text' => exact absurd ⟨rfl, rfl⟩ (hnext (.gap text') rfl)
                | token t =>
                    obtain ⟨w, hw⟩ := written_token t
                    rw [List.flatMap_cons, hw]
                    rintro c ⟨⟩
                    rfl
          rw [Segment.written, readMarkup?_text (escapeChars_ne_nil htext)
            (fun c hc => (escapeChars_special hc).1) hhead, hrest,
            Html.unescapeChars_escapeChars, String.ofList_toList, Option.map_some]
          rfl

/-! ## 4. Deleting the tags -/

theorem withoutTags_of_forall {s r : List Char} (h : ∀ c ∈ s, c ≠ '<') :
    withoutTags false (s ++ r) = s ++ withoutTags false r := by
  induction s with
  | nil => rfl
  | cons c s ih =>
      rw [List.cons_append, withoutTags, if_neg (h c List.mem_cons_self),
        ih fun c' hc' => h c' (List.mem_cons_of_mem _ hc'), List.cons_append]

/-- A tag is deleted up to its end. -/
theorem withoutTags_tag {s r : List Char} (h : ∀ c ∈ s, c ≠ '>') :
    withoutTags false ('<' :: (s ++ '>' :: r)) = withoutTags false r := by
  rw [withoutTags, if_pos rfl]
  induction s with
  | nil => rw [List.nil_append, withoutTags]; rfl
  | cons c s ih =>
      rw [List.cons_append, withoutTags, decide_eq_true (h c List.mem_cons_self)]
      exact ih fun c' hc' => h c' (List.mem_cons_of_mem _ hc')

theorem withoutTags_written (s : Segment) (r : List Char) :
    withoutTags false (s.written ++ r) = escapeChars s.text.toList ++ withoutTags false r := by
  cases s with
  | gap text => exact withoutTags_of_forall fun c hc => (escapeChars_special hc).1
  | token t =>
      have hopen : (Segment.token t).written ++ r =
          '<' :: (("span class=\"".toList ++ t.category.className.toList ++ ['\x22']) ++
            '>' :: (escapeChars t.text.toList ++ ('<' :: ("/span".toList ++ '>' :: r)))) := by
        simp only [Segment.written, List.append_assoc]
        rfl
      have hname : ∀ c ∈ "span class=\"".toList ++ t.category.className.toList ++ ['\x22'],
          c ≠ '>' := by
        have hall : ("span class=\"".toList ++ t.category.className.toList ++ ['\x22']).all
            (· ≠ '>') = true := by
          cases t.category <;> rfl
        exact fun c hc => of_decide_eq_true (List.all_eq_true.1 hall c hc)
      have hclose : ∀ c ∈ "/span".toList, c ≠ '>' := by simp
      rw [hopen, withoutTags_tag hname, withoutTags_of_forall fun c hc =>
        (escapeChars_special hc).1, withoutTags_tag hclose]
      rfl

/-- **Without its tags, what was written is the text of the segments, written as one.** -/
theorem withoutTags_flatMap_written (ss : List Segment) :
    withoutTags false (ss.flatMap Segment.written) =
      escapeChars (ss.flatMap fun s => s.text.toList) := by
  induction ss with
  | nil => rfl
  | cons s ss ih =>
      rw [List.flatMap_cons, withoutTags_written, ih, List.flatMap_cons, Html.escapeChars_append]

/-- **Without its tags, and with its entities read, highlighted markup is the source.** -/
theorem Lexer.unescape_withoutTags_highlight (l : Lexer) (source : String) :
    String.ofList (unescapeChars (withoutTags false (l.highlight source).toList)) = source := by
  have htext := congrArg String.toList (l.join_text_scan source)
  rw [String.toList_join, List.flatMap_map] at htext
  rw [l.toList_highlight, withoutTags_flatMap_written, Html.unescapeChars_escapeChars, htext,
    String.ofList_toList]

/-- **Highlighted markup is read back without loss.** By its tags it is read as the segments of the
scan; without its tags, and with its entities read, it is the source. So two sources are never
highlighted alike, by one grammar or by two. -/
theorem Lexer.highlight_decodable (l : Lexer) (source : String) :
    readMarkup? (l.highlight source).toList = some ((l.scan source).map Segment.part) ∧
    String.ofList (unescapeChars (withoutTags false (l.highlight source).toList)) = source ∧
    ∀ (l' : Lexer) (source' : String),
      l'.highlight source' = l.highlight source → source' = source := by
  have hord := l.inOrder_tokenize source
  have h0 := Text.isBoundary_zero source.toList
  refine ⟨?_, l.unescape_withoutTags_highlight source, fun l' source' h => ?_⟩
  · rw [l.toList_highlight]
    exact readMarkup?_written (noAdjacentGaps_segmentsFrom _ _ _) fun text hg =>
      ne_empty_of_mem_segmentsFrom hord h0 hg
  · rw [← l'.unescape_withoutTags_highlight source', h, l.unescape_withoutTags_highlight]

end Quire.Highlight
