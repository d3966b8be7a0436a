import Quire.Proofs.Document.Targets
import Quire.Proofs.Text.Split

/-!
# Printing documents

A block is written as lines (`Block.printed`), and a document as the lines of its blocks, each ended
by a line feed (`printed`). A block is canonical if none of its texts can be taken for anything else
where it is written (`Block.Canonical`). **Reading what was printed gives the document back**, if its
blocks are canonical and no list stands beside a list and no table beside a table (`read_printed`):
such neighbours would be read as one.

What one block is printed as is read as this block, whatever follows, as long as that does not begin
with a block that joins it (`nested_printed`). For lists and tables the printed lines are the longest
run (`run_map_append`), and the line after them is no item and no row, since it begins another block.
-/

namespace Quire.Document

open Quire.Highlight (Language)
open Quire.Text

/-! ## 1. Canonical blocks -/

/-- A text that stands for itself: it is not empty, lies on one line, has no blank at either end, and
holds nothing that emphasis, links or the ends of lines are written with. -/
structure Clean (text : String) : Prop where
  ne_empty : text ≠ ""
  trim_eq_self : trim text.toList = text.toList
  plain : ∀ c ∈ ['\n', '\r', '*', '_', '['], c ∉ text.toList

instance (text : String) : Decidable (Clean text) :=
  decidable_of_iff (text ≠ "" ∧ trim text.toList = text.toList ∧
      ∀ c ∈ ['\n', '\r', '*', '_', '['], c ∉ text.toList)
    ⟨fun h => ⟨h.1, h.2.1, h.2.2⟩, fun h => ⟨h.1, h.2, h.3⟩⟩

/-- A row of clean cells that is not taken for a separator. -/
structure CleanRow (row : List String) : Prop where
  clean : ∀ cell ∈ row, Clean cell ∧ '|' ∉ cell.toList
  not_dashes : row ≠ [] → ∃ cell ∈ row, ∃ c ∈ cell.toList, c ≠ '-'

instance (row : List String) : Decidable (CleanRow row) :=
  decidable_of_iff ((∀ cell ∈ row, Clean cell ∧ '|' ∉ cell.toList) ∧
      (row ≠ [] → ∃ cell ∈ row, ∃ c ∈ cell.toList, c ≠ '-'))
    ⟨fun h => ⟨h.1, h.2⟩, fun h => ⟨h.1, h.2⟩⟩

/-- A line of code that can stand between fences of backticks. -/
structure CodeLine (line : String) : Prop where
  newline_not_mem : '\n' ∉ line.toList
  return_not_mem : '\r' ∉ line.toList
  no_fence : ¬Fence.backticks.mark <+: trim line.toList

/-- **A block that is read back from its printed lines**, with code in one language. -/
inductive Block.Canonical (language : Language) : Block → Prop where
  | heading {level : Nat} {text : String} (hlow : 1 ≤ level) (hhigh : level ≤ 3)
      (h : Clean text) : Canonical language (.heading level text)
  | emptyParagraph : Canonical language (.paragraph "")
  | paragraph {text : String} (h : Clean text) (hhead : ∀ c ∈ text.toList.head?, c ∉ markers) :
      Canonical language (.paragraph text)
  | unorderedList {items : List String} (hne : items ≠ []) (h : ∀ item ∈ items, Clean item) :
      Canonical language (.unorderedList items)
  | blockQuote {text : String} (h : Clean text) : Canonical language (.blockQuote text)
  | horizontalRule : Canonical language .horizontalRule
  | image {alt path : String} (halt : ∀ c ∈ "*_[]()\n".toList, c ∉ alt.toList)
      (hpath : ∀ c ∈ "*_[]()\n".toList, c ∉ path.toList) : Canonical language (.image alt path)
  | code {lines : List String} (h : ∀ line ∈ lines, CodeLine line) :
      Canonical language (.code language (joinLines lines))
  | table {header : List String} {rows : List (List String)} (hheader : CleanRow header)
      (hrows : ∀ row ∈ rows, CleanRow row) (hne : header = [] → rows ≠ []) :
      Canonical language (.table header rows)

instance (line : String) : Decidable (CodeLine line) :=
  decidable_of_iff ('\n' ∉ line.toList ∧ '\r' ∉ line.toList ∧
      ¬Fence.backticks.mark <+: trim line.toList)
    ⟨fun h => ⟨h.1, h.2.1, h.2.2⟩, fun h => ⟨h.1, h.2, h.3⟩⟩

theorem CodeLine.getLast?_ne_return {line : String} (h : CodeLine line) :
    line.toList.getLast? ≠ some '\r' := fun he =>
  h.return_not_mem (List.mem_of_getLast? he)

/-- A line of code does not close the fence that it stands after. -/
theorem CodeLine.closes_eq_false {line : String} (h : CodeLine line) :
    Fence.backticks.closes line.toList = false := by
  have hdrop : dropMark? Fence.backticks.mark (trim line.toList) = none := by
    cases hd : dropMark? Fence.backticks.mark (trim line.toList) with
    | none => rfl
    | some rest => exact absurd ⟨rest, (eq_append_of_dropMark? hd).symm⟩ h.no_fence
  rw [Fence.closes, fence?, List.find?_cons, hdrop]
  dsimp only [Option.isSome_none]
  rw [List.find?_singleton]
  split <;> rfl

/-! ## 2. Printing -/

/-- A table row: every cell between two bars. -/
def printedRow (row : List String) : String :=
  "|" ++ String.join (row.map (· ++ "|"))

/-- The rows of a table as they are printed: the header, if there is one, is followed by a separator
of as many cells. -/
def printedRows (header : List String) (rows : List (List String)) : List (List String) :=
  (if header.isEmpty then [] else [header, header.map fun _ => "---"]) ++ rows

/-- The lines of a block. The lists that are only put together by hand have none. -/
def Block.printed : Block → List String
  | heading level text => [String.ofList (List.replicate level '#') ++ " " ++ text]
  | paragraph text => [text]
  | unorderedList items => items.map ("- " ++ ·)
  | blockQuote text => ["> " ++ text]
  | horizontalRule => ["---"]
  | image alt path => [imageLine alt path]
  | codeBlock _ source _ => "\x60\x60\x60" :: (lines source ++ ["\x60\x60\x60"])
  | table header rows => (printedRows header rows).map printedRow
  | orderedList _ _ | definitionList _ _ => []

/-- A document as text. -/
def printed (blocks : List Block) : String :=
  joinLines (blocks.flatMap Block.printed)

/-! ## 3. Clean texts -/

namespace Clean

variable {text : String} (h : Clean text)

include h

theorem toList_ne_nil : text.toList ≠ [] := fun e => h.ne_empty (String.toList_inj.1 e)

theorem isMark_eq_false : ∀ c ∈ text.toList, isMark c = false :=
  isMark_eq_false_of_not_mem (h.plain '*' (by decide)) (h.plain '_' (by decide))

/-- What a clean text ends is trimmed if it does not begin with a blank. -/
theorem trim_append {c : Char} (hc : isBlank c = false) (m : List Char) :
    trim (c :: (m ++ text.toList)) = c :: (m ++ text.toList) := by
  refine trim_eq_self_iff.2 ⟨?_, fun d hd => ?_⟩
  · rintro _ ⟨⟩
    exact hc
  · rw [← List.cons_append, List.getLast?_append_of_ne_nil _ h.toList_ne_nil] at hd
    exact (trim_eq_self_iff.1 h.trim_eq_self).2 d hd

/-- **A marker and a clean text are classed as they stand.** -/
theorem class_append {c : Char} {m : List Char} (hc : isBlank c = false)
    (hplain : ∀ d ∈ c :: m, isMark d = false) (hrule : isRule (c :: (m ++ text.toList)) = false) :
    LineClass.of (.ofRaw (c :: (m ++ text.toList))) = .ofText (c :: (m ++ text.toList)) := by
  refine class_of_plain (h.trim_append hc m) hrule ?_
  rw [← List.cons_append]
  exact List.forall_mem_append.2 ⟨hplain, h.isMark_eq_false⟩

theorem class_heading {level : Nat} (hlow : 1 ≤ level) (hhigh : level ≤ 3) :
    LineClass.of (.ofRaw (List.replicate level '#' ++ ' ' :: text.toList)) =
      .heading level text.toList := by
  have hclass := ofText_heading hlow hhigh (c := ' ') rfl text.toList
  obtain ⟨n, rfl⟩ : ∃ n, level = n + 1 := ⟨level - 1, by omega⟩
  have hshape : List.replicate (n + 1) '#' ++ ' ' :: text.toList =
      '#' :: ((List.replicate n '#' ++ [' ']) ++ text.toList) := by
    rw [List.replicate_succ, List.cons_append, List.append_assoc, List.singleton_append]
  rw [hshape] at hclass ⊢
  have hplain : ∀ d ∈ '#' :: (List.replicate n '#' ++ [' ']), isMark d = false := by
    rw [← List.cons_append, ← List.replicate_succ]
    refine List.forall_mem_append.2 ⟨fun d hd => ?_, by decide⟩
    rw [List.eq_of_mem_replicate hd]
    rfl
  rw [h.class_append rfl hplain (isRule_cons_of_not_mem (by decide) _), hclass, h.trim_eq_self]

theorem class_item : LineClass.of (.ofRaw ('-' :: ' ' :: text.toList)) = .listItem text.toList := by
  have hrule : isRule ('-' :: ([' '] ++ text.toList)) = false := by simp [isRule]
  have hclass := h.class_append (m := [' ']) rfl (by decide) hrule
  rw [List.singleton_append, ofText_dash, trim_cons_of_isBlank rfl, h.trim_eq_self] at hclass
  exact hclass

theorem class_quote : LineClass.of (.ofRaw ('>' :: ' ' :: text.toList)) = .quote text.toList := by
  have hrule : isRule ('>' :: ([' '] ++ text.toList)) = false :=
    isRule_cons_of_not_mem (by decide) _
  have hclass := h.class_append (m := [' ']) rfl (by decide) hrule
  rw [List.singleton_append, ofText_quote, trim_cons_of_isBlank rfl, h.trim_eq_self] at hclass
  exact hclass

theorem class_paragraph (hhead : ∀ c ∈ text.toList.head?, c ∉ markers) :
    LineClass.of (.ofRaw text.toList) = .text text.toList := by
  have htrim := h.trim_eq_self
  have hplain := h.isMark_eq_false
  cases hs : text.toList with
  | nil => exact absurd hs h.toList_ne_nil
  | cons c s =>
      rw [hs] at hhead htrim hplain
      have hc : c ∉ markers := hhead c rfl
      have hblank : isBlank c = false := (trim_eq_self_iff.1 htrim).1 c rfl
      have hrule : c ∉ ['_', '-', '*'] := by
        intro hmem
        have := hplain c List.mem_cons_self
        rcases List.mem_cons.1 hmem with rfl | hmem
        · cases this
        · exact hc (by
            rcases List.mem_cons.1 hmem with rfl | hmem
            · decide
            · rw [List.mem_singleton.1 hmem]
              decide)
      rw [class_of_plain htrim (isRule_cons_of_not_mem hrule s) hplain, ofText_text hblank hc]

end Clean

/-! ## 4. Rows -/

theorem toList_printedRow (row : List String) :
    (printedRow row).toList = '|' :: (row.map String.toList).flatMap fun cell => cell ++ ['|'] := by
  rw [printedRow, String.toList_append, String.toList_join, List.flatMap_map, List.flatMap_map]
  simp only [String.toList_append]
  rfl

/-- What holds of the bar and of the characters of the cells holds in the printed row. -/
theorem forall_mem_printedRow {P : Char → Prop} (hbar : P '|') {row : List String}
    (h : ∀ cell ∈ row, ∀ c ∈ cell.toList, P c) : ∀ c ∈ (printedRow row).toList, P c := by
  rw [toList_printedRow, List.forall_mem_cons]
  refine ⟨hbar, fun c hc => ?_⟩
  obtain ⟨t, ht, hc⟩ := List.mem_flatMap.1 hc
  obtain ⟨cell, hcell, rfl⟩ := List.mem_map.1 ht
  rcases List.mem_append.1 hc with hc | hc
  · exact h cell hcell c hc
  · rw [List.mem_singleton.1 hc]
    exact hbar

/-- What holds of the hyphen and of the characters of a table holds in the rows that are printed. -/
theorem forall_mem_printedRows {P : Char → Prop} (hdash : P '-') {header : List String}
    {rows : List (List String)} (hheader : ∀ cell ∈ header, ∀ c ∈ cell.toList, P c)
    (hrows : ∀ row ∈ rows, ∀ cell ∈ row, ∀ c ∈ cell.toList, P c) :
    ∀ row ∈ printedRows header rows, ∀ cell ∈ row, ∀ c ∈ cell.toList, P c := by
  have hdashes : ∀ c ∈ "---".toList, P c := by
    intro c hc
    obtain rfl : c = '-' := by revert c; decide
    exact hdash
  have hseparator : ∀ cell ∈ header.map fun _ => "---", ∀ c ∈ cell.toList, P c :=
    List.forall_mem_map.2 fun _ _ => hdashes
  unfold printedRows
  split
  · exact hrows
  · exact List.forall_mem_cons.2 ⟨hheader, List.forall_mem_cons.2 ⟨hseparator, hrows⟩⟩

/-- **A printed row is a table row.** -/
theorem class_printedRow {row : List String}
    (h : ∀ cell ∈ row, ∀ c ∈ cell.toList, isMark c = false) :
    LineClass.of (.ofRaw (printedRow row).toList) = .tableRow (printedRow row).toList := by
  have hlast : (printedRow row).toList.getLast? = some '|' := by
    rw [toList_printedRow]
    rcases List.eq_nil_or_concat row with rfl | ⟨cells, cell, rfl⟩
    · rfl
    · rw [List.concat_eq_append, List.map_append, List.flatMap_append, List.map_singleton,
        List.flatMap_singleton, ← List.append_assoc, ← List.cons_append]
      exact List.getLast?_concat
  have htrim : trim (printedRow row).toList = (printedRow row).toList := by
    refine trim_eq_self_iff.2 ⟨?_, ?_⟩
    · rw [toList_printedRow]
      rintro _ ⟨⟩
      rfl
    · rw [hlast]
      rintro _ ⟨⟩
      rfl
  have hplain := forall_mem_printedRow (P := fun c => isMark c = false) rfl h
  rw [toList_printedRow] at htrim hplain ⊢
  rw [class_of_plain htrim (isRule_cons_of_not_mem (by decide) _) hplain, ofText_row]

/-- The parts of a printed row are its cells, between two empty parts. -/
theorem splitOn_printedRow {row : List String} (h : ∀ cell ∈ row, '|' ∉ cell.toList) :
    splitOn '|' (printedRow row).toList = [] :: (row.map String.toList ++ [[]]) := by
  rw [toList_printedRow, splitOn_cons_self, splitOn_ended]
  exact List.forall_mem_map.2 h

/-- **The cells of a printed row are read back.** -/
theorem cells_printedRow {row : List String} (h : ∀ cell ∈ row, Clean cell ∧ '|' ∉ cell.toList) :
    (cells (printedRow row).toList).map String.ofList = row := by
  have hcells : cells (printedRow row).toList = row.map String.toList := by
    rw [cells, splitOn_printedRow fun cell hcell => (h cell hcell).2, List.map_cons, List.map_append,
      List.map_map]
    have htrim : row.map (trim ∘ String.toList) = row.map String.toList :=
      List.map_congr_left fun cell hcell => (h cell hcell).1.trim_eq_self
    rw [htrim, List.filter_cons_of_neg (by decide), List.filter_append]
    have hkeep : (row.map String.toList).filter (fun cell => !cell.isEmpty) =
        row.map String.toList := by
      refine List.filter_eq_self.2 (List.forall_mem_map.2 fun cell hcell => ?_)
      rw [List.isEmpty_eq_false_iff.2 (h cell hcell).1.toList_ne_nil]
      rfl
    rw [hkeep]
    exact List.append_nil _
  rw [hcells, List.map_map]
  exact (List.map_congr_left fun cell _ => String.ofList_toList).trans (List.map_id row)

theorem isSeparator_printedRow {row : List String} (h : ∀ cell ∈ row, '|' ∉ cell.toList) :
    isSeparator (printedRow row).toList =
      (!row.isEmpty && row.all fun cell => !cell.toList.isEmpty && cell.toList.all (· == '-')) := by
  rw [isSeparator, splitOn_printedRow h]
  simp [Function.comp_def]

namespace CleanRow

variable {row : List String} (h : CleanRow row)

include h

theorem bar_not_mem : ∀ cell ∈ row, '|' ∉ cell.toList := fun cell hcell => (h.clean cell hcell).2

theorem isMark_eq_false : ∀ cell ∈ row, ∀ c ∈ cell.toList, isMark c = false :=
  fun cell hcell => (h.clean cell hcell).1.isMark_eq_false

/-- **A clean row is no separator.** -/
theorem isSeparator_eq_false : isSeparator (printedRow row).toList = false := by
  rw [isSeparator_printedRow h.bar_not_mem]
  cases row with
  | nil => rfl
  | cons cell row =>
      obtain ⟨other, hother, c, hc, hne⟩ := h.not_dashes (List.cons_ne_nil cell row)
      rw [Bool.and_eq_false_iff, List.all_eq_false]
      refine .inr ⟨other, hother, fun hall => hne ?_⟩
      rw [Bool.and_eq_true, List.all_eq_true] at hall
      exact eq_of_beq (hall.2 c hc)

/-- A clean row is one row more. -/
theorem addRow (header : List String) (rows : List (List String)) :
    addRow header rows (printedRow row).toList = (header, rows ++ [row]) := by
  rw [Document.addRow, if_neg (by simp [h.isSeparator_eq_false]), cells_printedRow h.clean]

end CleanRow

/-- The separator after a header makes the row before it the header. -/
theorem addRow_separator {header : List String} (hne : header ≠ []) :
    addRow [] [header] (printedRow (header.map fun _ => "---")).toList = (header, []) := by
  have hseparator : isSeparator (printedRow (header.map fun _ => "---")).toList = true := by
    rw [isSeparator_printedRow (List.forall_mem_map.2 fun _ _ => by decide), Bool.and_eq_true,
      List.all_map]
    refine ⟨by simpa using hne, List.all_eq_true.2 fun cell _ => ?_⟩
    rw [Function.comp_apply]
    decide
  rw [addRow, if_pos hseparator]
  rfl

theorem addRows_cleanRows (header : List String) (rows : List (List String))
    {more : List (List String)} (h : ∀ row ∈ more, CleanRow row) :
    addRows header rows (more.map fun row => (printedRow row).toList) = (header, rows ++ more) := by
  induction more generalizing rows with
  | nil => rw [List.append_nil]; rfl
  | cons row more ih =>
      rw [List.forall_mem_cons] at h
      rw [List.map_cons, addRows, List.foldl_cons, h.1.addRow, ← addRows, ih _ h.2,
        List.append_assoc, List.singleton_append]

/-- **A table is read back from its rows.** -/
theorem tableOf_printedRows {header : List String} {rows : List (List String)}
    (hheader : CleanRow header) (hrows : ∀ row ∈ rows, CleanRow row) :
    tableOf [] [] ((printedRows header rows).map fun row => (printedRow row).toList) =
      .table header rows := by
  rw [tableOf, printedRows]
  cases header with
  | nil =>
      have hadd := addRows_cleanRows [] [] hrows
      rw [List.nil_append] at hadd
      rw [List.isEmpty_nil, if_pos rfl, List.nil_append, hadd]
  | cons cell header =>
      rw [List.isEmpty_cons, if_neg Bool.false_ne_true, List.cons_append, List.cons_append,
        List.nil_append, List.map_cons, List.map_cons, addRows, List.foldl_cons, List.foldl_cons,
        hheader.addRow, List.nil_append, addRow_separator (List.cons_ne_nil cell header), ← addRows,
        addRows_cleanRows _ _ hrows, List.nil_append]

/-! ## 5. Blocks -/

variable {language : Language}

/-- Lines that are read as texts are the longest run of them, if the line that follows is not read. -/
theorem run_map_append {α : Type} {test : List Char → Option (List Char)}
    {line text : α → List Char} {xs : List α} (h : ∀ x ∈ xs, test (line x) = some (text x))
    {rest : List (List Char)} (hrest : ∀ raw ∈ rest.head?, test raw = none) :
    run test (xs.map line ++ rest) = xs.map text ∧ afterRun test (xs.map line ++ rest) = rest := by
  have hread : ∀ raw ∈ xs.map line, test raw ≠ none :=
    List.forall_mem_map.2 fun x hx => by rw [h x hx]; exact Option.some_ne_none _
  have htexts : (xs.map line).filterMap test = xs.map text := by
    rw [List.filterMap_map, ← List.filterMap_eq_map]
    exact List.filterMap_congr h
  rw [← htexts]
  exact run_append hread hrest

/-- If what is read next is no list, its first line is no item. -/
theorem itemLine?_eq_none {items : List String} {rest : List (List Char)}
    (h : ∀ c ∈ (nested language rest).head?, (Block.unorderedList items).joins c = false) :
    ∀ raw ∈ rest.head?, itemLine? raw = none := by
  intro raw hraw
  obtain ⟨lines, rfl⟩ := List.head?_eq_some_iff.1 hraw
  rw [nested] at h
  cases hclass : LineClass.of (.ofRaw raw) with
  | listItem item =>
      rw [hclass] at h
      cases h _ rfl
  | _ => rw [itemLine?, hclass]

/-- If what is read next is no table, its first line is no row. -/
theorem rowLine?_eq_none {header : List String} {rows : List (List String)}
    {rest : List (List Char)}
    (h : ∀ c ∈ (nested language rest).head?, (Block.table header rows).joins c = false) :
    ∀ raw ∈ rest.head?, rowLine? raw = none := by
  intro raw hraw
  obtain ⟨lines, rfl⟩ := List.head?_eq_some_iff.1 hraw
  rw [nested] at h
  cases hclass : LineClass.of (.ofRaw raw) with
  | tableRow row =>
      rw [hclass] at h
      cases h _ rfl
  | _ => rw [rowLine?, hclass]

/-- **A list is read back from its lines.** -/
theorem nested_items {items : List String} (hne : items ≠ []) (hitems : ∀ item ∈ items, Clean item)
    {rest : List (List Char)} (hrest : ∀ raw ∈ rest.head?, itemLine? raw = none) :
    nested language (items.map (fun item => '-' :: ' ' :: item.toList) ++ rest) =
      .unorderedList items :: nested language rest := by
  obtain ⟨item, items, rfl⟩ := List.exists_cons_of_ne_nil hne
  rw [List.forall_mem_cons] at hitems
  have htest : ∀ item ∈ items, itemLine? ('-' :: ' ' :: item.toList) = some item.toList := by
    intro item hitem
    rw [itemLine?, (hitems.2 item hitem).class_item]
  obtain ⟨hrun, hafter⟩ := run_map_append htest hrest
  rw [List.map_cons, List.cons_append, nested, hitems.1.class_item]
  dsimp only
  rw [hrun, hafter, ← List.map_cons (f := String.toList), List.map_map]
  simp only [Function.comp_def, String.ofList_toList, List.map_id']

/-- **A table is read back from its lines.** -/
theorem nested_rows {header : List String} {rows : List (List String)} (hheader : CleanRow header)
    (hrows : ∀ row ∈ rows, CleanRow row) (hne : header = [] → rows ≠ []) {rest : List (List Char)}
    (hrest : ∀ raw ∈ rest.head?, rowLine? raw = none) :
    nested language ((printedRows header rows).map (fun row => (printedRow row).toList) ++ rest) =
      .table header rows :: nested language rest := by
  have htable := tableOf_printedRows hheader hrows
  have hplain := forall_mem_printedRows (P := fun c => isMark c = false) rfl
    hheader.isMark_eq_false fun row hrow => (hrows row hrow).isMark_eq_false
  have hclass : ∀ row ∈ printedRows header rows,
      LineClass.of (.ofRaw (printedRow row).toList) = .tableRow (printedRow row).toList :=
    fun row hrow => class_printedRow (hplain row hrow)
  have hrows_ne : printedRows header rows ≠ [] := by
    rw [printedRows]
    cases header with
    | nil => exact hne rfl
    | cons cell header => exact List.cons_ne_nil _ _
  obtain ⟨row, more, hshape⟩ := List.exists_cons_of_ne_nil hrows_ne
  rw [hshape] at hclass htable ⊢
  rw [List.forall_mem_cons] at hclass
  have htest : ∀ row ∈ more,
      rowLine? (printedRow row).toList = some (printedRow row).toList := by
    intro row hrow
    rw [rowLine?, hclass.2 row hrow]
  obtain ⟨hrun, hafter⟩ := run_map_append htest hrest
  rw [List.map_cons, List.cons_append, nested, hclass.1]
  dsimp only
  rw [hrun, hafter, ← htable, List.map_cons]

/-- **Code is read back from the lines between its fences.** -/
theorem nested_code {lines : List String} (h : ∀ line ∈ lines, CodeLine line)
    (rest : List (List Char)) :
    nested language ("\x60\x60\x60".toList :: (lines.map String.toList ++
        "\x60\x60\x60".toList :: rest)) =
      .code language (joinLines lines) :: nested language rest := by
  have hfence : LineClass.of (.ofRaw "\x60\x60\x60".toList) = .fence .backticks := by
    rw [class_of_plain (by decide) (by decide) (by decide)]
    decide
  have hclose : ¬(!Fence.backticks.closes "\x60\x60\x60".toList) = true := by decide
  have hopen : ∀ raw ∈ lines.map String.toList, (!Fence.backticks.closes raw) = true :=
    List.forall_mem_map.2 fun line hline => by rw [(h line hline).closes_eq_false]; rfl
  have hsource : codeSource (lines.map String.toList) = joinLines lines := by
    rw [codeSource, List.map_map, joinLines]
    simp only [Function.comp_def, String.ofList_toList]
  rw [nested, hfence]
  dsimp only
  rw [List.takeWhile_append_of_pos hopen, List.dropWhile_append_of_pos hopen,
    List.takeWhile_cons_of_neg (p := fun raw => !Fence.backticks.closes raw) hclose,
    List.dropWhile_cons_of_neg (p := fun raw => !Fence.backticks.closes raw) hclose,
    List.append_nil, hsource]
  rfl

/-- **What a canonical block is printed as is read as this block**, whatever follows, as long as that
does not begin with a block that joins it. -/
theorem nested_printed {b : Block} (hb : b.Canonical language) {rest : List (List Char)}
    (hrest : ∀ c ∈ (nested language rest).head?, b.joins c = false) :
    nested language (b.printed.map String.toList ++ rest) = b :: nested language rest := by
  cases hb with
  | @heading level text hlow hhigh h =>
      have hline : (String.ofList (List.replicate level '#') ++ " " ++ text).toList =
          List.replicate level '#' ++ ' ' :: text.toList := by simp
      rw [Block.printed, List.map_singleton, List.singleton_append, hline, nested,
        h.class_heading hlow hhigh]
      simp only [String.ofList_toList]
  | emptyParagraph =>
      have hclass : LineClass.of (.ofRaw []) = .text [] :=
        class_of_plain rfl rfl fun c hc => (List.not_mem_nil hc).elim
      have hblocks : textBlocks [] = [.paragraph ""] :=
        textBlocks_of_not_mem List.not_mem_nil
      rw [Block.printed, List.map_singleton, List.singleton_append, String.toList_empty, nested,
        hclass]
      simp only [hblocks, List.singleton_append]
  | paragraph h hhead =>
      rw [Block.printed, List.map_singleton, List.singleton_append, nested, h.class_paragraph hhead]
      simp only [textBlocks_of_not_mem (h.plain '[' (by decide)), String.ofList_toList,
        List.singleton_append]
  | @unorderedList items hne h =>
      have hlines : items.map (String.toList ∘ ("- " ++ ·)) =
          items.map fun item => '-' :: ' ' :: item.toList :=
        List.map_congr_left fun item _ => String.toList_append
      rw [Block.printed, List.map_map, hlines]
      exact nested_items hne h (itemLine?_eq_none hrest)
  | @blockQuote text h =>
      have hline : ("> " ++ text).toList = '>' :: ' ' :: text.toList := String.toList_append
      rw [Block.printed, List.map_singleton, List.singleton_append, hline, nested, h.class_quote]
      simp only [String.ofList_toList]
  | horizontalRule =>
      have hclass : LineClass.of (.ofRaw "---".toList) = .rule := by decide
      rw [Block.printed, List.map_singleton, List.singleton_append, nested, hclass]
  | @image alt path halt hpath =>
      have hplain : ∀ {text : String}, (∀ c ∈ "*_[]()\n".toList, c ∉ text.toList) →
          ∀ c ∈ text.toList, isMark c = false := fun h =>
        isMark_eq_false_of_not_mem (h '*' (by decide)) (h '_' (by decide))
      have hblocks : textBlocks (imageText alt.toList path.toList) =
          [.image (String.ofList alt.toList) (String.ofList path.toList)] :=
        textBlocks_imageText (fun c hc => halt c (by revert c; decide))
          fun c hc => hpath c (by revert c; decide)
      rw [Block.printed, List.map_singleton, List.singleton_append, toList_imageLine, nested,
        class_imageText (hplain halt), emphasize_of_forall (hplain hpath)]
      simp only [hblocks, String.ofList_toList, List.singleton_append]
  | @code lines h =>
      have hprinted : (Block.code language (joinLines lines)).printed =
          "\x60\x60\x60" :: (lines ++ ["\x60\x60\x60"]) := by
        rw [Block.code, Block.printed, lines_joinLines (fun l hl => (h l hl).newline_not_mem)
          fun l hl => (h l hl).getLast?_ne_return]
      rw [hprinted, List.map_cons, List.map_append, List.cons_append, List.append_assoc]
      exact nested_code h rest
  | table hheader hrows hne =>
      rw [Block.printed, List.map_map]
      exact nested_rows hheader hrows hne (rowLine?_eq_none hrest)

/-! ## 6. Documents -/

/-- A line that is read back when a line feed ends it. -/
structure Endable (line : String) : Prop where
  newline_not_mem : '\n' ∉ line.toList
  getLast?_ne_return : line.toList.getLast? ≠ some '\r'

/-- Whether a character ends no line. -/
def Inner (c : Char) : Prop :=
  c ≠ '\n' ∧ c ≠ '\r'

theorem Endable.of_inner {line : String} (h : ∀ c ∈ line.toList, Inner c) : Endable line where
  newline_not_mem hc := (h _ hc).1 rfl
  getLast?_ne_return he := (h _ (List.mem_of_getLast? he)).2 rfl

theorem Clean.inner {text : String} (h : Clean text) : ∀ c ∈ text.toList, Inner c := fun _ hc =>
  ⟨ne_of_mem_of_not_mem hc (h.plain '\n' (by decide)),
    ne_of_mem_of_not_mem hc (h.plain '\r' (by decide))⟩

theorem Clean.endable_append {text : String} (h : Clean text) {marker : String}
    (hmarker : ∀ c ∈ marker.toList, Inner c) : Endable (marker ++ text) := by
  refine .of_inner ?_
  rw [String.toList_append]
  exact List.forall_mem_append.2 ⟨hmarker, h.inner⟩

theorem CleanRow.inner {row : List String} (h : CleanRow row) :
    ∀ cell ∈ row, ∀ c ∈ cell.toList, Inner c :=
  fun cell hcell => (h.clean cell hcell).1.inner

/-- **The lines of a canonical block are read back.** -/
theorem endable_of_mem_printed {b : Block} (hb : b.Canonical language) :
    ∀ line ∈ b.printed, Endable line := by
  cases hb with
  | @heading level text hlow hhigh h =>
      rw [Block.printed, List.forall_mem_singleton]
      refine h.endable_append ?_
      rw [String.toList_append, String.toList_ofList]
      refine List.forall_mem_append.2 ⟨fun c hc => ?_, ?_⟩
      · rw [List.eq_of_mem_replicate hc]
        exact ⟨by decide, by decide⟩
      · unfold Inner
        decide
  | emptyParagraph =>
      rw [Block.printed, List.forall_mem_singleton]
      exact .of_inner fun c hc => (List.not_mem_nil hc).elim
  | paragraph h hhead =>
      rw [Block.printed, List.forall_mem_singleton]
      exact .of_inner h.inner
  | unorderedList hne h =>
      exact List.forall_mem_map.2 fun item hitem => (h item hitem).endable_append (by
        unfold Inner
        decide)
  | blockQuote h =>
      rw [Block.printed, List.forall_mem_singleton]
      exact h.endable_append (by
        unfold Inner
        decide)
  | horizontalRule =>
      rw [Block.printed, List.forall_mem_singleton]
      exact .of_inner (by
        unfold Inner
        decide)
  | @image alt path halt hpath =>
      rw [Block.printed, List.forall_mem_singleton]
      refine ⟨?_, ?_⟩
      · simp [toList_imageLine, imageText, linkText, halt '\n' (by decide), hpath '\n' (by decide)]
      · rw [toList_imageLine, imageText, linkText, ← List.append_assoc, ← List.cons_append,
          ← List.cons_append, List.getLast?_concat]
        decide
  | @code lines h =>
      rw [Block.code, Block.printed, lines_joinLines (fun l hl => (h l hl).newline_not_mem)
        fun l hl => (h l hl).getLast?_ne_return]
      have hfence : Endable "\x60\x60\x60" := ⟨by decide, by decide⟩
      refine List.forall_mem_cons.2 ⟨hfence, List.forall_mem_append.2 ⟨fun line hline => ?_, ?_⟩⟩
      · exact ⟨(h line hline).newline_not_mem, (h line hline).getLast?_ne_return⟩
      · exact List.forall_mem_singleton.2 hfence
  | table hheader hrows hne =>
      have hdash : Inner '-' := ⟨by decide, by decide⟩
      have hbar : Inner '|' := ⟨by decide, by decide⟩
      have hinner := forall_mem_printedRows hdash hheader.inner fun row hrow => (hrows row hrow).inner
      exact List.forall_mem_map.2 fun row hrow =>
        .of_inner (forall_mem_printedRow hbar (hinner row hrow))

/-- **Canonical blocks are read back from their lines**, if no neighbours would join. -/
theorem nested_flatMap_printed {blocks : List Block} (h : ∀ b ∈ blocks, b.Canonical language)
    (hapart : Apart blocks) :
    nested language ((blocks.flatMap Block.printed).map String.toList) = blocks := by
  induction blocks with
  | nil => rw [List.flatMap_nil, List.map_nil, nested]
  | cons b blocks ih =>
      rw [List.forall_mem_cons] at h
      obtain ⟨hhead, hrest⟩ := List.isChain_cons.1 hapart
      have hblocks := ih h.2 hrest
      rw [List.flatMap_cons, List.map_append, nested_printed h.1 (by rwa [hblocks]), hblocks]

/-- **Reading undoes printing.** Canonical blocks of which no two neighbours would join are read back
from their lines, and from the text that these make up, kept as one string or in pieces. -/
theorem read_printed (language : Language) {blocks : List Block}
    (h : ∀ b ∈ blocks, b.Canonical language) (hapart : Apart blocks) :
    blocksOfLines language (blocks.flatMap Block.printed) = blocks ∧
      ofString language (printed blocks) = blocks ∧
      ∀ rope : Rope, rope.text = printed blocks → ofRope language rope = blocks := by
  have hlines : blocksOfLines language (blocks.flatMap Block.printed) = blocks := by
    rw [blocksOfLines_eq_finish, finish_nothing, nested_flatMap_printed h hapart]
  have hendable : ∀ line ∈ blocks.flatMap Block.printed, Endable line := by
    intro line hline
    obtain ⟨b, hb, hline⟩ := List.mem_flatMap.1 hline
    exact endable_of_mem_printed (h b hb) line hline
  have htext : ofString language (printed blocks) = blocks := by
    rw [ofString, printed, lines_joinLines (fun l hl => (hendable l hl).newline_not_mem)
      fun l hl => (hendable l hl).getLast?_ne_return, hlines]
  refine ⟨hlines, htext, fun rope hrope => ?_⟩
  rw [ofRope_eq_ofString, hrope, htext]

/-- A document with every kind of block that is printed. -/
def sampler : List Block :=
  [.heading 2 "Use", .paragraph "A line.", .unorderedList ["one", "two - three"], .paragraph "",
    .unorderedList ["four"], .blockQuote "said", .horizontalRule, .image "shot" "img/shot.png",
    .code .csharp (joinLines ["var x = *p;", "", "# no heading"]),
    .table ["a", "b"] [["1", "--"], [], ["2"]]]

/-- The document above is read back from the text it is printed as. -/
theorem read_printed_sampler :
    (∀ b ∈ sampler, b.Canonical .csharp) ∧ Apart sampler ∧
      ofString .csharp (printed sampler) = sampler := by
  have hcanonical : ∀ b ∈ sampler, b.Canonical .csharp := by
    unfold sampler
    simp only [List.forall_mem_cons]
    exact ⟨.heading (by decide) (by decide) (by decide), .paragraph (by decide) (by simp [markers]),
      .unorderedList (by decide) (by decide), .emptyParagraph,
      .unorderedList (by decide) (by decide), .blockQuote (by decide), .horizontalRule,
      .image (by decide) (by decide), .code (by decide), .table (by decide) (by decide) (by decide),
      fun _ h => (List.not_mem_nil h).elim⟩
  have hapart : Apart sampler := by
    unfold Apart
    decide
  exact ⟨hcanonical, hapart, (read_printed .csharp hcanonical hapart).2.1⟩

end Quire.Document
