import Quire.Proofs.Document.Emphasis
import Quire.Proofs.Text.Trim

/-!
# Flat emphasis

A line with flat emphasis has plain texts and spans in turn (`FlatLine`): a span is a plain text
between two marks, and no emphasis stands in another. Two spans have a plain text between them, so no
mark runs into the next.

**Every span of such a line becomes its text in the tags of its style, and nothing else changes**
(`FlatLine.ofRaw_written`), however many spans there are and in whatever order. Strong emphasis is
turned into tags first, so there is a line in between, with the strong spans in tags and the light
ones between their marks. From one of these lines to the next, a pass takes the spans one after
another (`FlatLine.apply_shown`).
-/

namespace Quire.Document

open Quire.Text

/-! ## 1. Marks and plain texts -/

/-- What a span is enclosed by. -/
inductive Delimiter where
  | twoStars
  | twoLowLines
  | star
  | lowLine
  deriving Repr, DecidableEq

namespace Delimiter

/-- The mark at either end of a span. -/
def mark : Delimiter → List Char
  | twoStars => ['*', '*']
  | twoLowLines => ['_', '_']
  | star => ['*']
  | lowLine => ['_']

/-- Whether the emphasis is strong. -/
def isStrong : Delimiter → Bool
  | twoStars | twoLowLines => true
  | star | lowLine => false

/-- The style of a span. -/
def style (d : Delimiter) : Style :=
  if d.isStrong then .bold else .italic

theorem style_of_isStrong {d : Delimiter} (h : d.isStrong = true) : d.style = .bold :=
  if_pos h

theorem style_of_isStrong_eq_false {d : Delimiter} (h : d.isStrong = false) : d.style = .italic := by
  rw [style, h]
  rfl

end Delimiter

/-- Whether a text has no character that emphasis is written with, and lies on one line. -/
def IsPlain (s : List Char) : Prop :=
  ∀ c ∈ s, isMark c = false ∧ c ≠ '\n'

instance (s : List Char) : Decidable (IsPlain s) :=
  inferInstanceAs (Decidable (∀ c ∈ s, isMark c = false ∧ c ≠ '\n'))

theorem IsPlain.isMark_eq_false {s : List Char} (h : IsPlain s) : ∀ c ∈ s, isMark c = false :=
  fun c hc => (h c hc).1

theorem IsPlain.not_mem {s : List Char} (h : IsPlain s) {c : Char} (hc : isMark c = true) :
    c ∉ s := fun hmem => by
  rw [h.isMark_eq_false c hmem] at hc
  cases hc

theorem IsPlain.newline_not_mem {s : List Char} (h : IsPlain s) : '\n' ∉ s := fun hmem =>
  (h _ hmem).2 rfl

namespace Style

variable {m s : List Char} {marks : List (List Char)}

theorem enclosed?_cons_of_some {found : List Char × List Char}
    (h : (dropMark? m s).bind (upTo? m) = some found) : enclosed? (m :: marks) s = some found := by
  rw [enclosed?, h]

theorem enclosed?_cons_of_none (h : dropMark? m s = none) :
    enclosed? (m :: marks) s = enclosed? marks s := by
  rw [enclosed?, h]
  rfl

end Style

namespace Delimiter

/-- A text as it stands between two delimiters, or between the tags that these become. -/
def enclose (d : Delimiter) (tagged : Bool) (content : List Char) : List Char :=
  if tagged then d.style.openTag ++ (content ++ d.style.closeTag)
  else d.mark ++ (content ++ d.mark)

/-- **A plain text between two marks is what is found between them**, in the style of the marks. -/
theorem enclosed?_enclose (d : Delimiter) {content : List Char} (h : IsPlain content)
    (r : List Char) :
    Style.enclosed? d.style.marks (d.enclose false content ++ r) = some (content, r) := by
  obtain ⟨c, cs, hmark, hc⟩ : ∃ c cs, d.mark = c :: cs ∧ isMark c = true := by
    cases d <;> exact ⟨_, _, rfl, rfl⟩
  have hfound : (dropMark? d.mark (d.enclose false content ++ r)).bind (upTo? d.mark) =
      some (content, r) := by
    rw [enclose, if_neg Bool.false_ne_true, List.append_assoc, dropMark?_append, Option.bind_some,
      hmark]
    exact upTo?_append cs (h.not_mem hc) h.newline_not_mem r
  cases d with
  | twoStars | star => exact Style.enclosed?_cons_of_some hfound
  | twoLowLines | lowLine =>
      exact (Style.enclosed?_cons_of_none rfl).trans (Style.enclosed?_cons_of_some hfound)

/-- A pass in the style of a span puts the span in tags. -/
theorem apply_enclose_false (d : Delimiter) {content : List Char} (h : IsPlain content)
    (r : List Char) :
    d.style.apply (d.enclose false content ++ r) = d.enclose true content ++ d.style.apply r := by
  rw [Style.apply_of_enclosed? (d.enclosed?_enclose h r), enclose, if_pos rfl]
  simp only [List.append_assoc]

/-- A span in tags is left as it is. -/
theorem apply_enclose_true {style : Style} (hstyle : style.Regular) (d : Delimiter)
    {content : List Char} (h : IsPlain content) (r : List Char) :
    style.apply (d.enclose true content ++ r) = d.enclose true content ++ style.apply r := by
  have htags : (∀ c ∈ d.style.openTag, isMark c = false) ∧
      ∀ c ∈ d.style.closeTag, isMark c = false := by
    cases d <;> decide
  refine Style.apply_append_left hstyle ?_ r
  rw [enclose, if_pos rfl, List.forall_mem_append, List.forall_mem_append]
  exact ⟨htags.1, h.isMark_eq_false, htags.2⟩

end Delimiter

/-- Whether no mark stands at the front. -/
def StartsPlain (s : List Char) : Prop :=
  ∀ c ∈ s.head?, isMark c = false

theorem IsPlain.startsPlain_append {s : List Char} (h : IsPlain s) (hne : s ≠ []) (r : List Char) :
    StartsPlain (s ++ r) := by
  obtain ⟨c, s, rfl⟩ := List.exists_cons_of_ne_nil hne
  rintro _ ⟨⟩
  exact h.isMark_eq_false c List.mem_cons_self

/-- A mark that no other follows is no mark of strong emphasis. -/
theorem bold_cons {c : Char} {s : List Char} (hs : StartsPlain s) :
    Style.bold.apply (c :: s) = c :: Style.bold.apply s := by
  refine Style.apply_cons_of_enclosed?_eq_none ?_
  cases he : Style.enclosed? Style.bold.marks (c :: s) with
  | none => rfl
  | some found =>
      obtain ⟨a, rest⟩ := found
      obtain ⟨m, hm, hcs⟩ := Style.eq_of_enclosed? he
      obtain ⟨d, rfl, hd⟩ : ∃ d, m = [d, d] ∧ isMark d = true := by
        have : m = ['*', '*'] ∨ m = ['_', '_'] := by simpa [Style.bold] using hm
        rcases this with rfl | rfl <;> exact ⟨_, rfl, rfl⟩
      rw [(List.cons.inj hcs).2] at hs
      have := hs d rfl
      rw [hd] at this
      cases this

/-- A span with light emphasis is left by the pass for strong emphasis. -/
theorem Delimiter.bold_enclose {d : Delimiter} (hd : d.isStrong = false) {content : List Char}
    (h : IsPlain content) (hne : content ≠ []) {r : List Char} (hr : StartsPlain r) :
    Style.bold.apply (d.enclose false content ++ r) =
      d.enclose false content ++ Style.bold.apply r := by
  obtain ⟨c, hmark⟩ : ∃ c, d.mark = [c] := by
    cases d with
    | star | lowLine => exact ⟨_, rfl⟩
    | twoStars | twoLowLines => cases hd
  have hcontent : StartsPlain (content ++ (c :: r)) := h.startsPlain_append hne _
  simp only [enclose, Bool.false_eq_true, if_false, hmark, List.append_assoc, List.cons_append,
    List.nil_append]
  rw [bold_cons hcontent, Style.apply_append_left Style.regular_bold h.isMark_eq_false, bold_cons hr]

/-! ## 2. Lines of spans -/

/-- A span, and the plain text before it. -/
structure Span where
  before : List Char
  delimiter : Delimiter
  content : List Char
  isPlain_before : IsPlain before
  isPlain_content : IsPlain content
  content_ne_nil : content ≠ []

/-- A line of plain texts and spans in turn. Between two spans the plain text is not empty. -/
structure FlatLine where
  spans : List Span
  last : List Char
  isPlain_last : IsPlain last
  before_ne_nil : ∀ span ∈ spans.tail, span.before ≠ []

/-- A span as it stands when some of the delimiters have become tags. -/
def Span.shown (tagged : Delimiter → Bool) (span : Span) : List Char :=
  span.before ++ span.delimiter.enclose (tagged span.delimiter) span.content

namespace FlatLine

/-- A line as it stands when some of the delimiters have become tags. -/
def shown (tagged : Delimiter → Bool) (line : FlatLine) : List Char :=
  line.spans.flatMap (Span.shown tagged) ++ line.last

/-- A line as it is written. -/
def written (line : FlatLine) : List Char :=
  line.shown fun _ => false

/-- A line with all its spans in tags. -/
def tagged (line : FlatLine) : List Char :=
  line.shown fun _ => true

end FlatLine

/-! ## 3. The two passes -/

/-- What follows a span begins with no mark. -/
theorem startsPlain_spans {spans : List Span} (hbefore : ∀ span ∈ spans, span.before ≠ [])
    {last : List Char} (hlast : IsPlain last) (tagged : Delimiter → Bool) :
    StartsPlain (spans.flatMap (Span.shown tagged) ++ last) := by
  cases spans with
  | nil => exact fun c hc => hlast.isMark_eq_false c (List.mem_of_mem_head? hc)
  | cons span spans =>
      rw [List.flatMap_cons, Span.shown, List.append_assoc, List.append_assoc]
      exact span.isPlain_before.startsPlain_append (hbefore span List.mem_cons_self) _

/-- **A pass that takes each span from one form to another takes a line from one to the other.** -/
theorem FlatLine.apply_shown {style : Style} (hstyle : style.Regular) {p q : Delimiter → Bool}
    (hspan : ∀ (d : Delimiter) {content r : List Char}, IsPlain content → content ≠ [] →
      StartsPlain r →
        style.apply (d.enclose (p d) content ++ r) = d.enclose (q d) content ++ style.apply r)
    (line : FlatLine) : style.apply (line.shown p) = line.shown q := by
  obtain ⟨spans, last, hlast, hbefore⟩ := line
  rw [shown, shown]
  dsimp only
  induction spans with
  | nil => exact Style.apply_of_forall hstyle hlast.isMark_eq_false
  | cons span spans ih =>
      -- what is left of the line begins plain, so no mark of it is taken for one of the span
      have hbefore : ∀ s ∈ spans, s.before ≠ [] := hbefore
      have hrest := startsPlain_spans hbefore hlast p
      rw [List.flatMap_cons, List.flatMap_cons, Span.shown, Span.shown, List.append_assoc,
        List.append_assoc, Style.apply_append_left hstyle span.isPlain_before.isMark_eq_false,
        hspan span.delimiter span.isPlain_content span.content_ne_nil hrest,
        ih fun s hs => hbefore s (List.mem_of_mem_tail hs)]
      simp only [List.append_assoc]

/-- The pass for strong emphasis puts the strong spans in tags. -/
theorem FlatLine.bold_written (line : FlatLine) :
    Style.bold.apply line.written = line.shown Delimiter.isStrong := by
  refine line.apply_shown Style.regular_bold fun d content r h hne hr => ?_
  cases hd : d.isStrong with
  | true =>
      rw [← Delimiter.style_of_isStrong hd]
      exact d.apply_enclose_false h r
  | false => exact Delimiter.bold_enclose hd h hne hr

/-- The pass for light emphasis puts the light spans in tags, and leaves those that are in tags. -/
theorem FlatLine.italic_shown (line : FlatLine) :
    Style.italic.apply (line.shown Delimiter.isStrong) = line.tagged := by
  refine line.apply_shown Style.regular_italic fun d content r h _ _ => ?_
  cases hd : d.isStrong with
  | true => exact d.apply_enclose_true Style.regular_italic h r
  | false =>
      rw [← Delimiter.style_of_isStrong_eq_false hd]
      exact d.apply_enclose_false h r

/-- **Strong emphasis, then light, puts every span of a line in tags.** -/
theorem FlatLine.emphasize_written (line : FlatLine) : emphasize line.written = line.tagged := by
  rw [emphasize, line.bold_written, line.italic_shown]

/-! ## 4. Marked lines -/

/-- A text with a mark of emphasis and a character that is none is no rule. -/
theorem isRule_eq_false {s : List Char} {c d : Char} (hc : c ∈ s) (hmark : isMark c = true)
    (hd : d ∈ s) (hplain : isMark d = false) : isRule s = false := by
  have hdash : (c == '-') = false := by
    rw [beq_eq_false_iff_ne]
    rintro rfl
    cases hmark
  have hother : (d == '*') = false ∧ (d == '_') = false := Bool.or_eq_false_iff.1 hplain
  have hlow : s.all (· == '_') = false := List.all_eq_false.2 ⟨d, hd, by simp [hother.2]⟩
  have hhyphen : s.all (· == '-') = false := List.all_eq_false.2 ⟨c, hc, by simp [hdash]⟩
  have hstar : s.all (· == '*') = false := List.all_eq_false.2 ⟨d, hd, by simp [hother.1]⟩
  rw [isRule, hlow, hhyphen, hstar, Bool.and_eq_false_iff]
  exact .inr rfl

/-- A line with a span is no rule. -/
theorem FlatLine.isRule_written (line : FlatLine) (hspans : line.spans ≠ []) :
    isRule line.written = false := by
  obtain ⟨span, hspan⟩ := List.exists_mem_of_ne_nil line.spans hspans
  have hmem : ∀ c ∈ span.delimiter.enclose false span.content, c ∈ line.written := fun c hc =>
    List.mem_append_left _ (List.mem_flatMap.2 ⟨span, hspan, List.mem_append_right _ hc⟩)
  obtain ⟨c, hc, hmark⟩ : ∃ c ∈ span.delimiter.mark, isMark c = true := by
    cases span.delimiter <;> decide
  obtain ⟨d, hd⟩ := List.exists_mem_of_ne_nil span.content span.content_ne_nil
  refine isRule_eq_false (hmem c (List.mem_append_left _ hc)) hmark (hmem d ?_)
    (span.isPlain_content.isMark_eq_false d hd)
  exact List.mem_append_right _ (List.mem_append_left _ hd)

/-- **Flat emphasis becomes tags exactly.** A line of plain texts and spans in turn, with at least one
span and no blank at either end, is no rule, and each span becomes its text in the tags of its style,
while all that is plain stays. -/
theorem FlatLine.ofRaw_written (line : FlatLine) (hspans : line.spans ≠ [])
    (hhead : ∀ c ∈ line.written.head?, isBlank c = false)
    (hlast : ∀ c ∈ line.written.getLast?, isBlank c = false) :
    MarkedLine.ofRaw line.written = .text line.tagged := by
  have htrim : trim line.written = line.written := trim_eq_self_iff.2 ⟨hhead, hlast⟩
  have hrule : isRule (trim line.written) = false := by
    rw [htrim]
    exact line.isRule_written hspans
  rw [ofRaw_of_isRule_eq_false hrule, htrim, line.emphasize_written]

/-- Spans of both styles, in both marks. -/
theorem ofRaw_written_mixed :
    ∃ line : FlatLine, line.spans ≠ [] ∧ (∀ c ∈ line.written.head?, isBlank c = false) ∧
      (∀ c ∈ line.written.getLast?, isBlank c = false) ∧
      line.written = "**a** b_c_d__e__-*f*".toList ∧
      MarkedLine.ofRaw "**a** b_c_d__e__-*f*".toList =
        .text "<b>a</b> b<i>c</i>d<b>e</b>-<i>f</i>".toList := by
  let line : FlatLine :=
    { spans := [
        ⟨[], .twoStars, ['a'], by decide, by decide, by decide⟩,
        ⟨[' ', 'b'], .lowLine, ['c'], by decide, by decide, by decide⟩,
        ⟨['d'], .twoLowLines, ['e'], by decide, by decide, by decide⟩,
        ⟨['-'], .star, ['f'], by decide, by decide, by decide⟩]
      last := []
      isPlain_last := by decide
      before_ne_nil := by decide }
  have hspans : line.spans ≠ [] := List.cons_ne_nil _ _
  have hhead : ∀ c ∈ line.written.head?, isBlank c = false := fun c hc => by
    have hstar : line.written.head? = some '*' := rfl
    rw [← Option.some.inj (hstar.symm.trans hc)]
    rfl
  have hlast : ∀ c ∈ line.written.getLast?, isBlank c = false := fun c hc => by
    have hstar : line.written.getLast? = some '*' := rfl
    rw [← Option.some.inj (hstar.symm.trans hc)]
    rfl
  exact ⟨line, hspans, hhead, hlast, rfl, line.ofRaw_written hspans hhead hlast⟩

end Quire.Document
