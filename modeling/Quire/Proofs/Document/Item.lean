import Quire.Proofs.Document.Form
import Quire.Proofs.Document.Kind
import Quire.Proofs.Document.Locality

/-!
# The markers of items

An item is marked by a star or by a hyphen. A hyphen is nothing but a marker, and a star is a mark of
emphasis too; and the emphasis of a line is turned into tags before it is asked what the line is. So a
star that is left in the text, after the strong emphasis in it has become tags, closes a light
emphasis that the marker opens, and the line is text (`class_star_of_mem`). If none is left, the
marker stays, and the line is what it is with a hyphen (`class_star_of_not_mem`).

**One marker can be put for the other exactly where no code is open and no such star is left**
(`markers_interchangeable`): within code a line is kept as it was written, and elsewhere a text never
comes to the blocks that an item comes to.
-/

namespace Quire.Document

open Quire.Highlight (Language)
open Quire.Text

variable {language : Language}

/-! ## 1. The line of an item -/

/-- A marker that only blanks follow is a rule. -/
theorem class_of_marker {m : Char} (hm : m = '*' ∨ m = '-') {t : List Char}
    (ht : ∀ c ∈ t, isBlank c = true) : LineClass.of (.ofRaw (m :: ' ' :: t)) = .rule := by
  have htrim : trim (m :: ' ' :: t) = [m] := by
    have hblank : ∀ c ∈ ' ' :: t, isBlank c = true := List.forall_mem_cons.2 ⟨rfl, ht⟩
    refine trim_between (a := []) (s := [m]) (fun _ h => (List.not_mem_nil h).elim) hblank ?_
    rcases hm with rfl | rfl <;> rfl
  have hrule : isRule (trim (m :: ' ' :: t)) = true := by
    rw [htrim]
    rcases hm with rfl | rfl <;> rfl
  rw [MarkedLine.ofRaw, if_pos hrule]
  rfl

/-- A marker that more than blanks follow is no rule. -/
theorem ofRaw_marker {m : Char} (hm : m = '*' ∨ m = '-') {t : List Char}
    (ht : ¬ ∀ c ∈ t, isBlank c = true) :
    MarkedLine.ofRaw (m :: ' ' :: t) = .text (trim (emphasize (m :: ' ' :: t))) := by
  have hmark : isBlank m = false := by
    rcases hm with rfl | rfl <;> rfl
  have hrule : isRule (trim (m :: ' ' :: t)) = false := by
    rw [trim_cons_of_isBlank_eq_false hmark]
    obtain ⟨b, hend, hb⟩ := exists_trimEnd (' ' :: t)
    cases h : trimEnd (' ' :: t) with
    | nil =>
        rw [h, List.nil_append] at hend
        rw [← hend, List.forall_mem_cons] at hb
        exact absurd hb.2 ht
    | cons c u =>
        -- the blank behind the marker is still there, and it is in no rule
        rw [h, List.cons_append] at hend
        obtain ⟨rfl, -⟩ := List.cons.inj hend
        rcases hm with rfl | rfl <;> rfl
  rw [ofRaw_of_isRule_eq_false hrule, trim_emphasize]

/-- **A hyphen marks an item**, if more than blanks follow. -/
theorem class_dash {t : List Char} (ht : ¬ ∀ c ∈ t, isBlank c = true) :
    LineClass.of (.ofRaw ('-' :: ' ' :: t)) = .listItem (trim (trimEnd (' ' :: emphasize t))) := by
  rw [ofRaw_marker (.inr rfl) ht, emphasize_cons rfl, emphasize_cons rfl,
    trim_cons_of_isBlank_eq_false rfl]
  rfl

/-! ## 2. The star as a mark -/

/-- A star before a blank is no mark of strong emphasis. -/
theorem bold_star (t : List Char) :
    Style.bold.apply ('*' :: ' ' :: t) = '*' :: ' ' :: Style.bold.apply t := by
  have hnone : Style.enclosed? Style.bold.marks ('*' :: ' ' :: t) = none := rfl
  rw [Style.apply_cons_of_enclosed?_eq_none hnone, Style.apply_cons Style.regular_bold rfl]

/-- A star that no star follows encloses nothing. -/
theorem enclosed?_star_of_not_mem {s : List Char} (h : '*' ∉ s) :
    Style.enclosed? Style.italic.marks ('*' :: s) = none := by
  cases he : Style.enclosed? Style.italic.marks ('*' :: s) with
  | none => rfl
  | some found =>
      obtain ⟨a, rest⟩ := found
      obtain ⟨m, hm, hs⟩ := Style.eq_of_enclosed? he
      have hmark : m = ['*'] ∨ m = ['_'] := by simpa [Style.italic] using hm
      rcases hmark with rfl | rfl
      · refine absurd ?_ h
        rw [(List.cons.inj hs).2]
        simp
      · cases (List.cons.inj hs).1

/-- **A star is a marker as a hyphen is, if no star is left in the text** with its strong emphasis in
tags. -/
theorem class_star_of_not_mem {t : List Char} (h : '*' ∉ Style.bold.apply t) :
    LineClass.of (.ofRaw ('*' :: ' ' :: t)) = LineClass.of (.ofRaw ('-' :: ' ' :: t)) := by
  by_cases ht : ∀ c ∈ t, isBlank c = true
  · rw [class_of_marker (.inl rfl) ht, class_of_marker (.inr rfl) ht]
  · have hnone : '*' ∉ ' ' :: Style.bold.apply t := by simpa using h
    have hemphasize : emphasize ('*' :: ' ' :: t) = '*' :: ' ' :: emphasize t := by
      rw [emphasize, bold_star,
        Style.apply_cons_of_enclosed?_eq_none (enclosed?_star_of_not_mem hnone),
        Style.apply_cons Style.regular_italic rfl, emphasize]
    rw [class_dash ht, ofRaw_marker (.inl rfl) ht, hemphasize, trim_cons_of_isBlank_eq_false rfl]
    rfl

/-- **A star that is left in the text closes what the marker opens**, so the line is text. With a
hyphen it is an item. -/
theorem class_star_of_mem {t : List Char} (hfeed : '\n' ∉ t) (h : '*' ∈ Style.bold.apply t) :
    (∃ s, LineClass.of (.ofRaw ('*' :: ' ' :: t)) = .text s) ∧
      ∃ item, LineClass.of (.ofRaw ('-' :: ' ' :: t)) = .listItem item := by
  have ht : ¬ ∀ c ∈ t, isBlank c = true := by
    intro hblank
    refine absurd h fun hmem => ?_
    exact Style.forall_mem_apply (P := (· ≠ '*')) (by decide)
      (fun c hc e => by rw [e] at hc; exact Bool.false_ne_true (hblank _ hc)) '*' hmem rfl
  refine ⟨?_, _, class_dash ht⟩
  obtain ⟨x, y, hxy⟩ := List.append_of_mem h
  have hx : '\n' ∉ ' ' :: x := by
    have htags : ∀ c ∈ Style.bold.openTag ++ Style.bold.closeTag, c ≠ '\n' := by decide
    have hbold := Style.forall_mem_apply htags fun c hc => ne_of_mem_of_not_mem hc hfeed
    intro hmem
    refine hbold '\n' ?_ rfl
    rw [hxy]
    exact List.mem_append_left _ ((List.mem_cons.1 hmem).resolve_left (by decide))
  have hne := enclosed?_italic_ne_none (c := '*') rfl (y := y) hx
  obtain ⟨⟨a, rest⟩, he⟩ := Option.ne_none_iff_exists'.1 hne
  have hemphasize : ∃ r, emphasize ('*' :: ' ' :: t) = '<' :: r := by
    rw [emphasize, bold_star, hxy]
    exact ⟨_, Style.apply_of_enclosed? he⟩
  obtain ⟨r, hr⟩ := hemphasize
  refine ⟨'<' :: trimEnd r, ?_⟩
  rw [ofRaw_marker (.inl rfl) ht, hr, trim_cons_of_isBlank_eq_false rfl, LineClass.of]
  exact ofText_text rfl (by decide) _

/-! ## 3. Documents -/

/-- Outside of code, lines of one class come to the same blocks. -/
theorem finish_of_class_eq {o : OpenBlock} {raw raw' : List Char} (lines : List (List Char))
    (hcode : ∀ kind source, o ≠ .code kind source)
    (h : LineClass.of (.ofRaw raw) = LineClass.of (.ofRaw raw')) :
    finish language o (raw :: lines) = finish language o (raw' :: lines) := by
  rw [finish_cons, finish_cons, push_eq_pushClass raw hcode, push_eq_pushClass raw' hcode, h]

/-- With nothing open, a text does not come to the blocks that an item comes to. -/
theorem finish_nothing_ne {raw raw' s item : List Char} (lines lines' : List (List Char))
    (htext : LineClass.of (.ofRaw raw) = .text s)
    (hitem : LineClass.of (.ofRaw raw') = .listItem item) :
    finish language .nothing (raw :: lines) ≠ finish language .nothing (raw' :: lines') := by
  intro he
  have hlist : ∃ items, (nested language (raw' :: lines')).head? = some (.unorderedList items) := by
    rw [nested, hitem]
    exact ⟨_, rfl⟩
  obtain ⟨items, hlist⟩ := hlist
  rw [finish_nothing, finish_nothing] at he
  rw [← he] at hlist
  refine (of_head?_nested hlist).1 items rfl ?_
  rw [itemLine?, htext]

/-- **Outside of code, a text does not come to the blocks that an item comes to.** -/
theorem finish_ne {o : OpenBlock} {raw raw' s item : List Char} (lines : List (List Char))
    (hcode : ∀ kind source, o ≠ .code kind source)
    (htext : LineClass.of (.ofRaw raw) = .text s)
    (hitem : LineClass.of (.ofRaw raw') = .listItem item) :
    finish language o (raw :: lines) ≠ finish language o (raw' :: lines) := by
  have hclosed : ∀ {raw : List Char}, o.continue? (.of (.ofRaw raw)) = none →
      finish language o (raw :: lines) = o.close language ++ finish language .nothing (raw :: lines) :=
    finish_of_continue?_eq_none lines hcode
  have hafter : o.continue? (.of (.ofRaw raw)) = none := by
    rw [htext]
    cases o <;> rfl
  cases hgoes : o.continue? (.of (.ofRaw raw')) with
  | none =>
      -- both lines are read afresh after the same block
      rw [hclosed hafter, hclosed hgoes]
      exact fun he => finish_nothing_ne lines lines htext hitem (List.append_cancel_left he)
  | some o' =>
      rw [hitem] at hgoes
      cases o with
      | list items =>
          -- the item is one more in the list that the text closes
          obtain rfl := Option.some.inj hgoes
          rw [hclosed hafter, finish_of_continue?_eq_some lines hcode (by rw [hitem]; rfl), finish_list]
          intro he
          obtain hitems := Block.unorderedList.inj (List.cons.inj he).1
          simp at hitems
      | nothing => cases hgoes
      | code kind source => cases hgoes
      | table header rows => cases hgoes

/-- Within code a line is kept. -/
theorem finish_code_cons {kind : Fence} {raw : List Char} (source : String)
    (lines : List (List Char)) (hopen : kind.closes raw = false) :
    finish language (.code kind source) (raw :: lines) =
      finish language (.code kind (source ++ String.ofList raw ++ "\n")) lines := by
  rw [finish_cons, OpenBlock.push, hopen]
  rfl

/-- **Two lines within code are told apart.** -/
theorem finish_code_ne {kind : Fence} {source : String} {raw raw' : List Char}
    (lines : List (List Char)) (hopen : kind.closes raw = false) (hopen' : kind.closes raw' = false)
    (hne : raw ≠ raw') :
    finish language (.code kind source) (raw :: lines) ≠
      finish language (.code kind source) (raw' :: lines) := by
  rw [finish_code_cons source lines hopen, finish_code_cons source lines hopen', finish_code,
    finish_code]
  intro he
  have hsource := congrArg String.toList (Block.codeBlock.inj (List.cons.inj he).1).2.1
  simp only [String.toList_append, String.toList_ofList, List.append_assoc] at hsource
  exact hne (List.append_cancel_right (List.append_cancel_left hsource))

/-- A line that begins with the marker of an item closes no code. -/
theorem closes_marker {m : Char} (hm : m = '*' ∨ m = '-') (kind : Fence) (t : List Char) :
    kind.closes (m :: t) = false := by
  have hfence : fence? (m :: t) = none := by
    rcases hm with rfl | rfl <;> exact fence?_cons_of_not_mem rfl (by decide) t
  rw [Fence.closes, hfence]
  rfl

/-- **When the markers of an item can be put for one another.** Lines with an item marked by a star
come to the blocks of the lines with that item marked by a hyphen exactly if no code is open before
the item, and no star is left in its text when the strong emphasis in it is in tags. -/
theorem markers_interchangeable (language : Language) (before after : List String) {t : String}
    (hfeed : '\n' ∉ t.toList) :
    blocksOfLines language (before ++ ("* " ++ t) :: after) =
        blocksOfLines language (before ++ ("- " ++ t) :: after) ↔
      (∀ kind source, openAfter language before ≠ .code kind source) ∧
        '*' ∉ Style.bold.apply t.toList := by
  have hstar : ("* " ++ t).toList = '*' :: ' ' :: t.toList := String.toList_append
  have hdash : ("- " ++ t).toList = '-' :: ' ' :: t.toList := String.toList_append
  rw [blocksOfLines_append, blocksOfLines_append, List.append_cancel_left_eq, List.map_cons,
    List.map_cons, hstar, hdash]
  constructor
  · intro he
    have hcode : ∀ kind source, openAfter language before ≠ .code kind source := by
      intro kind source ho
      rw [ho] at he
      exact finish_code_ne _ (closes_marker (.inl rfl) kind _) (closes_marker (.inr rfl) kind _)
        (fun e => absurd (List.cons.inj e).1 (by decide)) he
    refine ⟨hcode, fun hmem => ?_⟩
    obtain ⟨⟨s, htext⟩, item, hitem⟩ := class_star_of_mem hfeed hmem
    exact finish_ne _ hcode htext hitem he
  · rintro ⟨hcode, hmem⟩
    exact finish_of_class_eq _ hcode (class_star_of_not_mem hmem)

/-- Strong emphasis in an item leaves no star. -/
theorem markers_interchangeable_bold :
    '\n' ∉ "**b** c".toList ∧
      blocksOfLines .csharp ["# A", "- x", "* **b** c", "d"] =
        blocksOfLines .csharp ["# A", "- x", "- **b** c", "d"] := by
  have hfeed : '\n' ∉ "**b** c".toList := by decide
  have hopen : openAfter .csharp ["# A", "- x"] = .list ["x"] := by decide +kernel
  have hcode : ∀ kind source, openAfter .csharp ["# A", "- x"] ≠ .code kind source := by
    intro kind source
    rw [hopen]
    exact OpenBlock.noConfusion
  have hmem : '*' ∉ Style.bold.apply "**b** c".toList := by decide +kernel
  exact ⟨hfeed, (markers_interchangeable .csharp ["# A", "- x"] ["d"] hfeed).2 ⟨hcode, hmem⟩⟩

/-- A single star in the text of an item tells the markers apart, and so does code that is open before
the item. -/
theorem markers_told_apart :
    blocksOfLines .csharp ["* a*b"] ≠ blocksOfLines .csharp ["- a*b"] ∧
      blocksOfLines .csharp ["~~~", "* a"] ≠ blocksOfLines .csharp ["~~~", "- a"] := by
  constructor
  · decide +kernel
  · have hopens : LineClass.of (.ofRaw "~~~".toList) = .fence .tildes :=
      class_of_closes (by decide)
    have hcode : ∀ line : String, blocksOfLines .csharp ["~~~", line] =
        finish .csharp (.code .tildes "") [line.toList] := by
      intro line
      show finish .csharp .nothing ["~~~".toList, line.toList] = _
      rw [finish_nothing_cons, hopens]
      rfl
    rw [hcode, hcode]
    exact finish_code_ne [] (closes_marker (.inl rfl) .tildes _) (closes_marker (.inr rfl) .tildes _)
      (by decide)

end Quire.Document
