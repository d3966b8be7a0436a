import Quire.Page.Block
import Quire.Proofs.Document.Line
import Quire.Proofs.Document.Nested
import Quire.Proofs.Highlight.Decoding

/-!
# Code from its lines to its page

Between the fence that opens code and the one that closes it every line is kept as it was written,
whatever it would be elsewhere. On a page the text of the code stands in an element of its own, with
spans and entities in it; `codeText?` reads it as a browser shows it, and as the script of the page
copies it: what stands inside the element, without tags and with the entities read.

**What is read there is the lines of the code, each with a line feed** (`code_kept`). The end of the
element is found where it was written, since every angle bracket before it belongs to a span.
-/

namespace Quire.Page

open Quire.Document (Block Fence LineClass MarkedLine blocksOfLines codeSource finish)
open Quire.Highlight (Language Segment)
open Quire.Html (escapeChars_special)
open Quire.Text (dropMark? dropMark?_append dropMark?_cons_of_ne isBlank)

/-! ## 1. The text of an element -/

/-- What follows the first place where a mark stands. -/
def behind? (mark : List Char) : List Char → Option (List Char)
  | [] => dropMark? mark []
  | c :: s => (dropMark? mark (c :: s)).or (behind? mark s)

/-- The text before the first place where a mark stands. -/
def before? (mark : List Char) : List Char → Option (List Char)
  | [] => (dropMark? mark []).map fun _ => []
  | c :: s => if (dropMark? mark (c :: s)).isSome then some [] else (before? mark s).map (c :: ·)

/-- The text of the first code element in markup, as it is shown: from the end of the tag that opens
it up to the tag that closes it, without tags and with the entities read. -/
def codeText? (markup : String) : Option String := do
  let tag ← behind? "<code".toList markup.toList
  let inside ← behind? ['>'] tag
  let text ← before? "</code>".toList inside
  return String.ofList (Html.unescapeChars (Highlight.withoutTags false text))

variable {mark : List Char}

theorem before?_cons_of_none {c : Char} {s : List Char} (h : dropMark? mark (c :: s) = none) :
    before? mark (c :: s) = (before? mark s).map (c :: ·) := by
  rw [before?, h]
  rfl

/-- Text without the first character of a mark stands before it. -/
theorem before?_append_of_not_mem {m : Char} {ms a : List Char} (h : m ∉ a) (s : List Char) :
    before? (m :: ms) (a ++ s) = (before? (m :: ms) s).map (a ++ ·) := by
  induction a with
  | nil => exact Option.map_id'.symm
  | cons c a ih =>
      rw [List.mem_cons, not_or] at h
      rw [List.cons_append, before?_cons_of_none (dropMark?_cons_of_ne h.1 _ _), ih h.2,
        Option.map_map]
      rfl

/-- A tag that is not the mark stands before it. -/
theorem before?_tag {m : Char} {ms a s : List Char} (h : m ∉ a)
    (htag : dropMark? (m :: ms) (m :: (a ++ s)) = none) :
    before? (m :: ms) (m :: a ++ s) = (before? (m :: ms) s).map (m :: a ++ ·) := by
  rw [List.cons_append, before?_cons_of_none htag, before?_append_of_not_mem h, Option.map_map]
  rfl

theorem before?_append_self (mark s : List Char) : before? mark (mark ++ s) = some [] := by
  cases hm : mark ++ s with
  | nil =>
      obtain ⟨rfl, rfl⟩ := List.append_eq_nil_iff.1 hm
      rfl
  | cons c r =>
      rw [before?, ← hm, dropMark?_append]
      rfl

/-! ## 2. Highlighted code -/

/-- No name of a category holds an angle bracket. -/
theorem not_mem_className (c : Highlight.Category) : '<' ∉ c.className.toList := by
  cases c <;> decide

/-- **The end of a code element is looked for behind a segment that stands in it.** -/
theorem before?_written (segment : Segment) (s : List Char) :
    before? "</code>".toList (segment.written ++ s) =
      (before? "</code>".toList s).map (segment.written ++ ·) := by
  have hescaped (text : String) : '<' ∉ Html.escapeChars text.toList := fun h =>
    (escapeChars_special h).1 rfl
  have hmark : "</code>".toList = '<' :: "/code>".toList := rfl
  rw [hmark]
  cases segment with
  | gap text => exact before?_append_of_not_mem (hescaped text) s
  | token t =>
      -- a span is the tag that opens it with the text, and the tag that closes it
      have hstart : Highlight.spanStart = '<' :: "span class=\"".toList := rfl
      have hend : Highlight.spanEnd = '<' :: "/span>".toList := rfl
      have hopen : '<' ∉ "span class=\"".toList ++ (t.category.className.toList ++
          (Highlight.spanMiddle ++ Html.escapeChars t.text.toList)) := by
        simp only [List.mem_append, not_or]
        exact ⟨by decide, not_mem_className t.category, by decide, hescaped t.text⟩
      have hspan : (Segment.token t).written = '<' :: ("span class=\"".toList ++
          (t.category.className.toList ++
            (Highlight.spanMiddle ++ Html.escapeChars t.text.toList))) ++
              '<' :: "/span>".toList := by
        simp only [Segment.written, hstart, hend, List.append_assoc, List.cons_append]
      rw [hspan, List.append_assoc, before?_tag hopen rfl, before?_tag (by decide) rfl,
        Option.map_map]
      simp only [Function.comp_def, List.append_assoc]

theorem before?_flatMap_written (segments : List Segment) (s : List Char) :
    before? "</code>".toList (segments.flatMap Segment.written ++ s) =
      (before? "</code>".toList s).map (segments.flatMap Segment.written ++ ·) := by
  induction segments with
  | nil => exact Option.map_id'.symm
  | cons segment segments ih =>
      rw [List.flatMap_cons, List.append_assoc, before?_written, ih, Option.map_map]
      simp only [Function.comp_def, List.append_assoc]

theorem behind?_cons_of_none {c : Char} {s : List Char} (h : dropMark? mark (c :: s) = none) :
    behind? mark (c :: s) = behind? mark s := by
  rw [behind?, h, Option.none_or]

/-- Text without the first character of a mark is passed over. -/
theorem behind?_append_of_not_mem {m : Char} {ms a : List Char} (h : m ∉ a) (s : List Char) :
    behind? (m :: ms) (a ++ s) = behind? (m :: ms) s := by
  induction a with
  | nil => rfl
  | cons c a ih =>
      rw [List.mem_cons, not_or] at h
      rw [List.cons_append, behind?_cons_of_none (dropMark?_cons_of_ne h.1 _ _), ih h.2]

/-- A tag that is not the mark is passed over. -/
theorem behind?_tag {m : Char} {ms a s : List Char} (h : m ∉ a)
    (htag : dropMark? (m :: ms) (m :: (a ++ s)) = none) :
    behind? (m :: ms) (m :: a ++ s) = behind? (m :: ms) s := by
  rw [List.cons_append, behind?_cons_of_none htag, behind?_append_of_not_mem h]

theorem behind?_append_self (mark s : List Char) : behind? mark (mark ++ s) = some s := by
  cases hm : mark ++ s with
  | nil =>
      obtain ⟨rfl, rfl⟩ := List.append_eq_nil_iff.1 hm
      rfl
  | cons c r => rw [behind?, ← hm, dropMark?_append, Option.some_or]

/-- What stands before the code element, tag by tag. -/
def codeFront : List Char :=
  '<' :: "div class=\"code-container\">\n".toList ++
    ('<' :: "button class=\"copy-btn\" type=\"button\" aria-label=\"Copy code\">Copy".toList ++
      ('<' :: "/button>\n".toList ++ '<' :: "pre class=\"code-block\">".toList))

theorem behind?_codeFront (s : List Char) :
    behind? "<code".toList (codeFront ++ ("<code".toList ++ s)) = some s := by
  have hmark : "<code".toList = '<' :: "code".toList := rfl
  have hbutton : '<' ∉
    "button class=\"copy-btn\" type=\"button\" aria-label=\"Copy code\">Copy".toList := by decide
  rw [codeFront, List.append_assoc, List.append_assoc, List.append_assoc, hmark,
    behind?_tag (by decide) rfl, behind?_tag hbutton rfl, behind?_tag (by decide) rfl,
    behind?_tag (by decide) rfl, behind?_append_self]

/-- The tag of a code element ends behind the name of its language. -/
theorem behind?_codeTag (language : Language) (s : List Char) :
    behind? ['>'] (" class=\"language-".toList ++ (language.name.toList ++ ("\">".toList ++ s))) =
      some s := by
  have hname : '>' ∉ language.name.toList := by cases language <;> decide
  have hend : "\">".toList ++ s = ['\x22'] ++ (['>'] ++ s) := rfl
  rw [behind?_append_of_not_mem (by decide), behind?_append_of_not_mem hname, hend,
    behind?_append_of_not_mem (by decide), behind?_append_self]

theorem blockMarkup_code (c : Context) (language : Language) (source : String) :
    blockMarkup c (.code language source) =
      "<" ++ "div class=\"code-container\">\n" ++
        ("<" ++ "button class=\"copy-btn\" type=\"button\" aria-label=\"Copy code\">Copy" ++
          ("<" ++ "/button>\n")) ++
        ("<" ++ "pre class=\"code-block\">" ++ ("<code" ++ " class=\"language-") ++ language.name ++
          "\">" ++ Highlight.highlight source language ++ ("</code>" ++ "</pre>\n")) ++ "</div>" := by
  rfl

theorem toList_code (c : Context) (language : Language) (source : String) :
    (blockMarkup c (.code language source)).toList =
      codeFront ++ ("<code".toList ++ (" class=\"language-".toList ++ (language.name.toList ++
        ("\">".toList ++ ((Highlight.highlight source language).toList ++
          ("</code>".toList ++ ("</pre>\n".toList ++ "</div>".toList))))))) := by
  have hbracket : "<".toList = ['<'] := rfl
  rw [blockMarkup_code, codeFront]
  simp only [String.toList_append, hbracket, List.append_assoc, List.cons_append, List.nil_append]

/-- **In the markup of code one reads its source.** -/
theorem codeText?_code (c : Context) (language : Language) (source : String) :
    codeText? (blockMarkup c (.code language source)) = some source := by
  have hwritten : (Highlight.highlight source language).toList =
      (language.lexer.scan source).flatMap Segment.written := language.lexer.toList_highlight source
  have hinside (s : List Char) :
      before? "</code>".toList
          ((Highlight.highlight source language).toList ++ ("</code>".toList ++ s)) =
        some (Highlight.highlight source language).toList := by
    rw [hwritten, before?_flatMap_written, before?_append_self, Option.map_some, List.append_nil]
  simp only [codeText?, toList_code, behind?_codeFront, behind?_codeTag, hinside,
    Option.bind_eq_bind, Option.bind_some]
  exact congrArg some (language.lexer.unescape_withoutTags_highlight source)

/-! ## 3. From the lines to the page -/

theorem codeSource_eq_join (code : List String) :
    codeSource (code.map String.toList) = String.join (code.map (· ++ "\n")) := by
  rw [codeSource, List.map_map]
  congr 1
  exact List.map_congr_left fun line _ => congrArg (· ++ "\n") String.ofList_toList

/-- **Lines within code are kept, up to the line that closes it.** -/
theorem finish_opening (language : Language) {kind : Fence} {opening : List Char}
    (hopening : kind.closes opening = true) {code : List (List Char)}
    (hcode : ∀ line ∈ code, kind.closes line = false) (rest : List (List Char)) :
    finish language .nothing (opening :: (code ++ rest)) =
      .code language (codeSource (code ++ rest.takeWhile fun raw => !kind.closes raw)) ::
        finish language .nothing ((rest.dropWhile fun raw => !kind.closes raw).drop 1) := by
  have hkept : ∀ line ∈ code, (!kind.closes line) = true := fun line hline => by
    rw [hcode line hline]
    rfl
  rw [Document.finish_nothing_cons, Document.class_of_closes hopening]
  dsimp only [Document.OpenBlock.opening]
  rw [Document.finish_code, List.takeWhile_append_of_pos hkept,
    List.dropWhile_append_of_pos hkept, String.empty_append]
  rfl

/-- **Code is kept as it was written, from its lines to its page.** A line that begins with the mark
of a fence, whatever blanks stand before it and whatever stands behind, opens code; the lines after
it that do not close that fence are the source of one block, each with a line feed, whatever they
would be elsewhere. The line that closes it is used up, and what follows is read as if nothing had
come before; if no line closes it, the block is all there is. On every page the text of the block is
its source. -/
theorem code_kept (language : Language) (kind : Fence) {indent : String}
    (hindent : ∀ c ∈ indent.toList, isBlank c = true) (info : String) {code : List String}
    (hcode : ∀ line ∈ code, kind.closes line.toList = false) {closing : String}
    (hclosing : kind.closes closing.toList = true) (rest : List String) (c : Context) :
    let opening := indent ++ String.ofList kind.mark ++ info
    let source := String.join (code.map (· ++ "\n"))
    blocksOfLines language (opening :: code ++ closing :: rest) =
        .code language source :: blocksOfLines language rest ∧
      blocksOfLines language (opening :: code) = [.code language source] ∧
      codeText? (blockMarkup c (.code language source)) = some source := by
  intro opening source
  have hopening : kind.closes opening.toList = true := by
    rw [String.toList_append, String.toList_append, String.toList_ofList, List.append_assoc]
    exact Document.closes_of_blanks hindent kind info.toList
  have hcode' : ∀ line ∈ code.map String.toList, kind.closes line = false := by
    simpa using hcode
  have hfinish (lines : List String) : blocksOfLines language lines =
      finish language .nothing (lines.map String.toList) := rfl
  refine ⟨?_, ?_, codeText?_code c language source⟩
  · rw [hfinish, hfinish, List.cons_append, List.map_cons, List.map_append, List.map_cons,
      finish_opening language hopening hcode']
    simp [hclosing, codeSource_eq_join, source]
  · have hopened := finish_opening language hopening hcode' []
    rw [List.append_nil] at hopened
    rw [hfinish, List.map_cons, hopened]
    simp [codeSource_eq_join, source, Document.finish_nil, Document.OpenBlock.close]

/-- Neither the mark of a heading nor markup counts within code, and what stands behind the mark of
the fence that opens it may hold emphasis. -/
theorem code_kept_heading :
    (∀ c ∈ "  ".toList, isBlank c = true) ∧
    (∀ line ∈ ["# a", "**b** & <i>", ""], Fence.tildes.closes line.toList = false) ∧
    Fence.tildes.closes " ~~~ end".toList = true ∧
    blocksOfLines .csharp ["  ~~~js *x*", "# a", "**b** & <i>", "", " ~~~ end", "- x"] =
      .code .csharp "# a\n**b** & <i>\n\n" :: blocksOfLines .csharp ["- x"] ∧
    blocksOfLines .csharp ["  ~~~js *x*", "# a", "**b** & <i>", ""] =
      [.code .csharp "# a\n**b** & <i>\n\n"] ∧
    codeText? (blockMarkup .content (.code .csharp "# a\n**b** & <i>\n\n")) =
      some "# a\n**b** & <i>\n\n" := by
  have hindent : ∀ c ∈ "  ".toList, isBlank c = true := by decide
  have hcode : ∀ line ∈ ["# a", "**b** & <i>", ""], Fence.tildes.closes line.toList = false := by
    decide
  have hclosing : Fence.tildes.closes " ~~~ end".toList = true := by decide
  exact ⟨hindent, hcode, hclosing,
    code_kept .csharp .tildes hindent "js *x*" hcode hclosing ["- x"] .content⟩

end Quire.Page
