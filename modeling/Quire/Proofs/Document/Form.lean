import Mathlib.Data.List.Chain
import Quire.Document.WellFormed
import Quire.Proofs.Document.Line
import Quire.Proofs.Document.Links
import Quire.Proofs.Document.Nested
import Quire.Proofs.Text.Lines

/-!
# The form of documents that were read

**Every document that is read is well formed** (`conforming_read`), whatever the text and however it
is kept: no block has a breach, there are none of the lists that are only put together by hand, code
is in the language that was asked for and has the markup of its source, and no list follows a list
and no table a table.

All of it comes from the lines: a line holds no line feed, and neither the tags nor the anchors that
come into it do (`Block.Conforms`, from one class of lines to the next). That lists and tables stand
apart is a fact about runs: the line after the longest run of items is no item, so what it begins is
no list (`apart_afterRun`).
-/

namespace Quire.Document

open Quire.Highlight (Language)
open Quire.Text

/-! ## 1. What is asked of a block -/

/-- What is true of every block that is read, with code in one language. -/
def Block.Conforms (language : Language) (b : Block) : Prop :=
  b.breach? = none ∧
    match b with
    | .orderedList _ _ | .definitionList _ _ => False
    | .codeBlock l source highlighted =>
      l = language ∧ highlighted = Highlight.highlight source language
    | _ => True

/-- Whether two neighbours would have been read as one block: two lists, or two tables. -/
def Block.joins : Block → Block → Bool
  | .unorderedList _, .unorderedList _ => true
  | .table _ _, .table _ _ => true
  | _, _ => false

/-- No two neighbours are both lists or both tables. -/
def Apart (blocks : List Block) : Prop :=
  blocks.IsChain fun a b => a.joins b = false

/-- What is true of every document that is read, with code in one language. -/
structure Conforming (language : Language) (blocks : List Block) : Prop where
  violation?_eq_none : violation? blocks = none
  orderedList_not_mem : ∀ title items, Block.orderedList title items ∉ blocks
  definitionList_not_mem : ∀ title pairs, Block.definitionList title pairs ∉ blocks
  of_codeBlock_mem : ∀ l source highlighted, Block.codeBlock l source highlighted ∈ blocks →
    l = language ∧ highlighted = Highlight.highlight source language
  apart : Apart blocks

theorem violationFrom?_eq_none {blocks : List Block} (h : ∀ b ∈ blocks, b.breach? = none)
    (n : Nat) : violationFrom? n blocks = none := by
  induction blocks generalizing n with
  | nil => rfl
  | cons b bs ih =>
      rw [List.forall_mem_cons] at h
      rw [violationFrom?, h.1]
      exact ih h.2 (n + 1)

theorem Conforming.of_forall {language : Language} {blocks : List Block}
    (h : ∀ b ∈ blocks, b.Conforms language) (hapart : Apart blocks) :
    Conforming language blocks where
  violation?_eq_none := violationFrom?_eq_none (fun b hb => (h b hb).1) 0
  orderedList_not_mem _ _ hb := (h _ hb).2
  definitionList_not_mem _ _ hb := (h _ hb).2
  of_codeBlock_mem _ _ _ hb := (h _ hb).2
  apart := hapart

/-! ## 2. Texts and cells -/

theorem spansLines?_ofList {t : List Char} (h : ∀ c ∈ t, c ≠ '\n') :
    spansLines? (String.ofList t) = none := by
  rw [spansLines?, String.toList_ofList, if_neg fun hn => h _ hn rfl]

/-- **The texts of a line lie on one line.** -/
theorem ne_newline_of_mem_texts {raw t : List Char} (hraw : '\n' ∉ raw)
    (ht : t ∈ (LineClass.of (.ofRaw raw)).texts) : ∀ c ∈ t, c ≠ '\n' :=
  forall_mem_texts (P := (· ≠ '\n')) (by decide) (fun _ hc => ne_of_mem_of_not_mem hc hraw) t ht

/-- What is true of every cell of a table: it is not empty, it is trimmed, and it holds no bar. -/
structure IsCell (cell : String) : Prop where
  ne_empty : cell ≠ ""
  trimmed : trim cell.toList = cell.toList
  no_bar : '|' ∉ cell.toList

theorem isCell_of_mem_cells {row cell : List Char} (h : cell ∈ cells row) :
    IsCell (String.ofList cell) := by
  obtain ⟨hcell, hne⟩ := List.mem_filter.1 h
  obtain ⟨part, hpart, rfl⟩ := List.mem_map.1 hcell
  refine ⟨?_, ?_, ?_⟩
  · intro he
    rw [String.ofList_eq_empty_iff.1 he] at hne
    cases hne
  · rw [String.toList_ofList, trim_trim]
  · rw [String.toList_ofList]
    exact fun hbar => not_mem_of_mem_splitOn hpart (mem_of_mem_trim hbar)

/-- A cell is not empty and holds no bar. -/
theorem badCell?_eq_none {row cell : List Char} (h : cell ∈ cells row) :
    badCell? (String.ofList cell) = none := by
  have hcell := isCell_of_mem_cells h
  rw [badCell?, String.isEmpty_eq_false_iff.2 hcell.ne_empty, List.contains_eq_mem,
    decide_eq_false hcell.no_bar]
  rfl

/-- Whether something holds of all cells of a header and of rows. -/
def AllCells (P : String → Prop) (header : List String) (rows : List (List String)) : Prop :=
  ∀ cell ∈ header ++ rows.flatten, P cell

theorem allCells_nil (P : String → Prop) : AllCells P [] [] := fun _ h => (List.not_mem_nil h).elim

/-- **What holds of the cells of a table and of those of a further row holds of the table with this
row**, also when it makes the last row the header. -/
theorem AllCells.addRow {P : String → Prop} {header : List String} {rows : List (List String)}
    (h : AllCells P header rows) {row : List Char}
    (hrow : ∀ cell ∈ cells row, P (String.ofList cell)) :
    AllCells P (addRow header rows row).1 (addRow header rows row).2 := by
  rw [Document.addRow]
  split
  · split
    · rename_i last hlast
      intro cell hcell
      rw [List.flatten_nil, List.append_nil] at hcell
      refine h cell (List.mem_append_right _ (List.mem_flatten.2 ⟨last, ?_, hcell⟩))
      exact List.mem_of_getLast? hlast
    · intro cell hcell
      rw [List.flatten_nil, List.append_nil] at hcell
      exact h cell (List.mem_append_left _ hcell)
  · intro cell hcell
    rw [List.flatten_append, List.flatten_singleton, ← List.append_assoc] at hcell
    rcases List.mem_append.1 hcell with hcell | hcell
    · exact h cell hcell
    · obtain ⟨c, hc, rfl⟩ := List.mem_map.1 hcell
      exact hrow c hc

theorem AllCells.addRows {P : String → Prop} {header : List String} {rows : List (List String)}
    (h : AllCells P header rows) {more : List (List Char)}
    (hmore : ∀ row ∈ more, ∀ cell ∈ cells row, P (String.ofList cell)) :
    AllCells P (addRows header rows more).1 (addRows header rows more).2 := by
  induction more generalizing header rows with
  | nil => exact h
  | cons row more ih =>
      rw [List.forall_mem_cons] at hmore
      exact ih (h.addRow hmore.1) hmore.2

theorem breach?_tableOf (more : List (List Char)) : (tableOf [] [] more).breach? = none :=
  List.findSome?_eq_none_iff.2
    ((allCells_nil (badCell? · = none)).addRows fun _ _ _ hcell => badCell?_eq_none hcell)

/-! ## 3. Lines as blocks -/

variable {language : Language}

theorem conforms_paragraph {t : List Char} (h : ∀ c ∈ t, c ≠ '\n') :
    (Block.paragraph (String.ofList t)).Conforms language :=
  ⟨spansLines?_ofList h, trivial⟩

theorem conforms_textBlocks {s : List Char} (h : ∀ c ∈ s, c ≠ '\n') :
    ∀ b ∈ textBlocks s, b.Conforms language := by
  intro b hb
  rcases mem_textBlocks hb with ⟨t, ht, rfl⟩ | ⟨alt, path, rfl⟩
  · exact conforms_paragraph (forall_mem_substitute (by decide)
      (forall_mem_paragraphTexts h t ht))
  · exact ⟨rfl, trivial⟩

/-- The source of code is empty or ends in a line feed. -/
theorem conforms_code (lines : List (List Char)) :
    (Block.code language (codeSource lines)).Conforms language := by
  refine ⟨?_, rfl, rfl⟩
  rw [Block.code, Block.breach?]
  rcases List.eq_nil_or_concat lines with rfl | ⟨ls, l, rfl⟩
  · rfl
  · have hlast : (codeSource (ls.concat l)).toList.getLast? = some '\n' := by
      rw [List.concat_eq_append, codeSource, List.map_append, String.toList_join,
        List.flatMap_append, List.map_singleton, List.flatMap_singleton, String.toList_append,
        ← List.append_assoc]
      exact List.getLast?_concat
    rw [hlast]
    simp

theorem itemLine?_eq_some {raw item : List Char} (h : itemLine? raw = some item) :
    LineClass.of (.ofRaw raw) = .listItem item := by
  unfold itemLine? at h
  split at h
  · rename_i item' hclass
    rw [hclass, Option.some.inj h]
  · cases h

theorem rowLine?_eq_some {raw row : List Char} (h : rowLine? raw = some row) :
    LineClass.of (.ofRaw raw) = .tableRow row := by
  unfold rowLine? at h
  split at h
  · rename_i row' hclass
    rw [hclass, Option.some.inj h]
  · cases h

/-- The items of a run come from its lines. -/
theorem mem_run {test : List Char → Option (List Char)} {lines : List (List Char)} {x : List Char}
    (h : x ∈ run test lines) : ∃ raw ∈ lines, test raw = some x := by
  obtain ⟨raw, hraw, hx⟩ := List.mem_filterMap.1 h
  exact ⟨raw, List.takeWhile_subset _ hraw, hx⟩

theorem conforms_unorderedList {items : List (List Char)} (hne : items ≠ [])
    (h : ∀ item ∈ items, ∀ c ∈ item, c ≠ '\n') :
    (Block.unorderedList (items.map String.ofList)).Conforms language := by
  refine ⟨?_, trivial⟩
  rw [Block.breach?, if_neg (by simpa using hne), List.findSome?_eq_none_iff]
  intro item hitem
  obtain ⟨t, ht, rfl⟩ := List.mem_map.1 hitem
  exact spansLines?_ofList (h t ht)

/-- **Every block that lines come to conforms**, if no line holds a line feed. -/
theorem conforms_of_mem_nested {lines : List (List Char)} (h : ∀ l ∈ lines, '\n' ∉ l) :
    ∀ b ∈ nested language lines, b.Conforms language := by
  induction lines using nested.induct with
  | case1 =>
      rw [nested]
      exact fun b hb => (List.not_mem_nil hb).elim
  | case2 raw lines hclass ih =>
      rw [List.forall_mem_cons] at h
      rw [nested, hclass, List.forall_mem_cons]
      exact ⟨⟨rfl, trivial⟩, ih h.2⟩
  | case3 raw lines item hclass ih =>
      rw [nested, hclass, List.forall_mem_cons]
      refine ⟨conforms_unorderedList (List.cons_ne_nil _ _) fun t ht => ?_, ih fun l hl => ?_⟩
      · rcases List.mem_cons.1 ht with rfl | ht
        · exact ne_newline_of_mem_texts (h raw List.mem_cons_self)
            (hclass ▸ List.mem_singleton_self t)
        · obtain ⟨raw', hraw', ht'⟩ := mem_run ht
          exact ne_newline_of_mem_texts (h raw' (List.mem_cons_of_mem _ hraw'))
            (itemLine?_eq_some ht' ▸ List.mem_singleton_self t)
      · exact h l (List.mem_cons_of_mem _ ((List.dropWhile_suffix _).subset hl))
  | case4 raw lines level text hclass ih =>
      rw [List.forall_mem_cons] at h
      rw [nested, hclass, List.forall_mem_cons]
      refine ⟨⟨?_, trivial⟩, ih h.2⟩
      have hmem : text ∈ (LineClass.of (.ofRaw raw)).texts := hclass ▸ List.mem_singleton_self text
      have htext := spansLines?_ofList (ne_newline_of_mem_texts h.1 hmem)
      have hrange := (Reads.of_class hclass fun e => LineClass.noConfusion e).level_range
      rw [Block.breach?, if_pos hrange, htext]
  | case5 raw lines kind hclass ih =>
      rw [nested, hclass, List.forall_mem_cons]
      refine ⟨conforms_code _, ih fun l hl => ?_⟩
      exact h l (List.mem_cons_of_mem _ ((List.dropWhile_suffix _).subset (List.mem_of_mem_drop hl)))
  | case6 raw lines text hclass ih =>
      rw [List.forall_mem_cons] at h
      rw [nested, hclass, List.forall_mem_cons]
      exact ⟨⟨spansLines?_ofList (ne_newline_of_mem_texts h.1
        (hclass ▸ List.mem_singleton_self text)), trivial⟩, ih h.2⟩
  | case7 raw lines row hclass ih =>
      rw [nested, hclass, List.forall_mem_cons]
      refine ⟨⟨breach?_tableOf _, trivial⟩, ih fun l hl => ?_⟩
      exact h l (List.mem_cons_of_mem _ ((List.dropWhile_suffix _).subset hl))
  | case8 raw lines s hclass ih =>
      rw [List.forall_mem_cons] at h
      rw [nested, hclass, List.forall_mem_append]
      exact ⟨conforms_textBlocks (ne_newline_of_mem_texts h.1
        (hclass ▸ List.mem_singleton_self s)), ih h.2⟩

/-! ## 4. Neighbours -/

theorem Apart.append {bs cs : List Block} (hbs : ∀ b ∈ bs, ∀ c, b.joins c = false)
    (hcs : Apart cs) : Apart (bs ++ cs) := by
  induction bs with
  | nil => exact hcs
  | cons b bs ih =>
      rw [List.forall_mem_cons] at hbs
      exact List.isChain_cons.2 ⟨fun c _ => hbs.1 c, ih hbs.2⟩

theorem eq_unorderedList_of_joins {items : List String} {b : Block}
    (h : (Block.unorderedList items).joins b = true) : ∃ items', b = .unorderedList items' :=
  match b, h with
  | .unorderedList items', _ => ⟨items', rfl⟩

theorem eq_table_of_joins {header : List String} {rows : List (List String)} {b : Block}
    (h : (Block.table header rows).joins b = true) : ∃ header' rows', b = .table header' rows' :=
  match b, h with
  | .table header' rows', _ => ⟨header', rows', rfl⟩

/-- **What the first block of lines is, the first line shows**: a list begins with an item, and a
table with a row. -/
theorem of_head?_nested {raw : List Char} {lines : List (List Char)} {b : Block}
    (h : (nested language (raw :: lines)).head? = some b) :
    (∀ items, b = .unorderedList items → itemLine? raw ≠ none) ∧
      ∀ header rows, b = .table header rows → rowLine? raw ≠ none := by
  rw [nested] at h
  cases hclass : LineClass.of (.ofRaw raw) with
  | listItem item =>
      rw [hclass] at h
      obtain rfl := Option.some.inj h
      rw [itemLine?, hclass]
      exact ⟨fun _ _ => Option.some_ne_none item, fun _ _ e => Block.noConfusion e⟩
  | tableRow row =>
      rw [hclass] at h
      obtain rfl := Option.some.inj h
      rw [rowLine?, hclass]
      exact ⟨fun _ e => Block.noConfusion e, fun _ _ _ => Option.some_ne_none row⟩
  | text s =>
      rw [hclass] at h
      have hb : b ∈ textBlocks s := by
        rw [List.head?_append_of_ne_nil _ (textBlocks_ne_nil s)] at h
        exact List.mem_of_mem_head? h
      rcases mem_textBlocks hb with ⟨t, -, rfl⟩ | ⟨alt, path, rfl⟩
      all_goals exact ⟨fun _ e => Block.noConfusion e, fun _ _ e => Block.noConfusion e⟩
  | rule | heading level text | fence kind | quote text =>
      rw [hclass] at h
      obtain rfl := Option.some.inj h
      exact ⟨fun _ e => Block.noConfusion e, fun _ _ e => Block.noConfusion e⟩

theorem test_of_mem_head?_afterRun {test : List Char → Option (List Char)}
    {lines : List (List Char)} {raw : List Char} (h : raw ∈ (afterRun test lines).head?) :
    test raw = none := by
  induction lines with
  | nil => cases h
  | cons l lines ih =>
      cases hl : test l with
      | some x =>
          rw [(run_of_some lines hl).2] at h
          exact ih h
      | none =>
          rw [(run_of_none lines hl).2] at h
          rw [← Option.some.inj h]
          exact hl

/-- **What follows a run does not begin with a block that the run would have joined.** -/
theorem apart_afterRun {test : List Char → Option (List Char)} {a : Block}
    (htest : ∀ raw lines b, (nested language (raw :: lines)).head? = some b → a.joins b = true →
      test raw ≠ none)
    {lines : List (List Char)} (h : Apart (nested language (afterRun test lines))) :
    Apart (a :: nested language (afterRun test lines)) := by
  refine List.isChain_cons.2 ⟨fun b hb => ?_, h⟩
  cases hafter : afterRun test lines with
  | nil =>
      rw [hafter, nested] at hb
      cases hb
  | cons raw rest =>
      have hhead : raw ∈ (afterRun test lines).head? := by
        rw [hafter]
        rfl
      have hnone := test_of_mem_head?_afterRun hhead
      rw [hafter] at hb
      cases hjoins : a.joins b with
      | false => rfl
      | true => exact absurd hnone (htest raw rest b hb hjoins)

/-- **No list follows a list, and no table a table.** -/
theorem apart_nested (lines : List (List Char)) : Apart (nested language lines) := by
  induction lines using nested.induct with
  | case1 =>
      rw [nested]
      exact .nil
  | case3 raw lines item hclass ih =>
      rw [nested, hclass]
      refine apart_afterRun (fun raw lines b hb hjoins => ?_) ih
      obtain ⟨items, rfl⟩ := eq_unorderedList_of_joins hjoins
      exact (of_head?_nested hb).1 items rfl
  | case7 raw lines row hclass ih =>
      rw [nested, hclass]
      refine apart_afterRun (fun raw lines b hb hjoins => ?_) ih
      obtain ⟨header, rows, rfl⟩ := eq_table_of_joins hjoins
      exact (of_head?_nested hb).2 header rows rfl
  | case8 raw lines s hclass ih =>
      rw [nested, hclass]
      refine Apart.append (fun b hb c => ?_) ih
      rcases mem_textBlocks hb with ⟨t, -, rfl⟩ | ⟨alt, path, rfl⟩ <;> rfl
  | case2 raw lines hclass ih =>
      rw [nested, hclass]
      exact List.isChain_cons.2 ⟨fun _ _ => rfl, ih⟩
  | case4 raw lines level text hclass ih =>
      rw [nested, hclass]
      exact List.isChain_cons.2 ⟨fun _ _ => rfl, ih⟩
  | case5 raw lines kind hclass ih =>
      rw [nested, hclass]
      exact List.isChain_cons.2 ⟨fun _ _ => rfl, ih⟩
  | case6 raw lines text hclass ih =>
      rw [nested, hclass]
      exact List.isChain_cons.2 ⟨fun _ _ => rfl, ih⟩

/-! ## 5. Documents -/

theorem conforming_nested {lines : List (List Char)} (h : ∀ l ∈ lines, '\n' ∉ l) :
    Conforming language (nested language lines) :=
  .of_forall (conforms_of_mem_nested h) (apart_nested lines)

/-- **A text in pieces is read as the whole text is.** -/
theorem ofRope_eq_ofString (language : Language) (rope : Rope) :
    ofRope language rope = ofString language rope.text := by
  rw [ofRope, Rope.lines_eq, ofString]

/-- The blocks of a text are those of its lines, by nested reading. -/
theorem ofString_eq_nested (language : Language) (text : String) :
    ofString language text = nested language ((lines text).map String.toList) :=
  finish_nothing _

theorem conforming_ofString (language : Language) (text : String) :
    Conforming language (ofString language text) := by
  rw [ofString_eq_nested]
  refine conforming_nested fun l hl => ?_
  obtain ⟨line, hline, rfl⟩ := List.mem_map.1 hl
  exact newline_not_mem_of_mem_lines hline

/-- **Whatever is read is well formed**: no block of it has a breach, it has none of the lists that
are only put together by hand, its code is in the language that was asked for and has the markup of
its source, and neither two lists nor two tables are neighbours. This holds for every text, kept as
one string or in pieces. -/
theorem conforming_read (language : Language) (text : String) (rope : Rope) :
    Conforming language (ofString language text) ∧ Conforming language (ofRope language rope) := by
  refine ⟨conforming_ofString language text, ?_⟩
  rw [ofRope_eq_ofString]
  exact conforming_ofString language rope.text

end Quire.Document
