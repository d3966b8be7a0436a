import Mathlib.Data.List.DropRight
import Quire.Proofs.Document.Form
import Quire.Proofs.Document.Locality

/-!
# What a run of rows comes to

Rows are added to a table one after another, and a separator makes the row before it the header and
drops what was collected. So of a whole run **the data are the rows behind its last separator, and the
header is the last row that a separator follows at once** (`addRows_eq`): neither changes by a separator
that comes first or stands behind another one.

A run that is as long as it can be comes to one table, and what stands before it and after it is read as
if it stood alone (`blocksOfLines_run`).
-/

namespace Quire.Document

open Quire.Highlight (Language)
open Quire.Text

/-! ## 1. Cells -/

/-- The cells of a row. -/
def rowCells (row : List Char) : List String :=
  (cells row).map String.ofList

/-! ## 2. The table of rows -/

/-- The rows that hold data: those behind the last separator, or all if there is none. -/
def dataRows (rows : List (List Char)) : List (List Char) :=
  rows.rtakeWhile fun row => !isSeparator row

/-- The rows that are no separators and that a separator follows at once. -/
def titleRows (rows : List (List Char)) : List (List Char) :=
  ((rows.zip rows.tail).filter fun p => !isSeparator p.1 && isSeparator p.2).map Prod.fst

/-- The header: the cells of the last row that a separator follows at once; empty if there is none. -/
def headerCells (rows : List (List Char)) : List String :=
  match (titleRows rows).getLast? with
  | some title => rowCells title
  | none => []

variable {row : List Char}

theorem dataRows_concat_separator (h : isSeparator row = true) (rows : List (List Char)) :
    dataRows (rows ++ [row]) = [] := by
  rw [dataRows, List.rtakeWhile_concat_neg]
  simp [h]

theorem dataRows_concat (h : isSeparator row = false) (rows : List (List Char)) :
    dataRows (rows ++ [row]) = dataRows rows ++ [row] := by
  rw [dataRows, List.rtakeWhile_concat_pos]
  · rfl
  · simp [h]

/-- The last row is the last that holds data, unless it is a separator. -/
theorem getLast?_dataRows (rows : List (List Char)) :
    (dataRows rows).getLast? = rows.getLast?.filter fun last => !isSeparator last := by
  rcases List.eq_nil_or_concat rows with rfl | ⟨ls, last, rfl⟩
  · rfl
  · rw [List.concat_eq_append, List.getLast?_concat, Option.filter_some]
    cases h : isSeparator last with
    | true => rw [dataRows_concat_separator h]; rfl
    | false => rw [dataRows_concat h, List.getLast?_concat]; rfl

/-- One more row makes one more pair of neighbours. -/
theorem zip_tail_concat {α : Type} (xs : List α) (x : α) :
    (xs ++ [x]).zip (xs ++ [x]).tail = xs.zip xs.tail ++ (xs.getLast?.map (·, x)).toList := by
  induction xs with
  | nil => rfl
  | cons a xs ih =>
      cases xs with
      | nil => rfl
      | cons b xs =>
          rw [List.cons_append, List.tail_cons, List.cons_append, List.zip_cons_cons, List.tail_cons,
            List.zip_cons_cons, List.getLast?_cons_cons]
          exact congrArg _ ih

theorem titleRows_concat (rows : List (List Char)) :
    titleRows (rows ++ [row]) = titleRows rows ++
      (rows.getLast?.filter fun last => !isSeparator last && isSeparator row).toList := by
  rw [titleRows, zip_tail_concat, List.filter_append, List.map_append]
  cases rows.getLast? with
  | none => rfl
  | some last =>
      rw [Option.map_some, Option.toList_some, List.filter_singleton, Option.filter_some]
      cases !isSeparator last && isSeparator row <;> rfl

/-- A row that is no separator leaves the header as it is. -/
theorem headerCells_concat (h : isSeparator row = false) (rows : List (List Char)) :
    headerCells (rows ++ [row]) = headerCells rows := by
  have htitles : titleRows (rows ++ [row]) = titleRows rows := by
    rw [titleRows_concat, h]
    cases rows.getLast? <;> simp
  rw [headerCells, htitles]
  rfl

/-- **A separator makes the row before it the header**, if that one holds data. -/
theorem headerCells_concat_separator (h : isSeparator row = true) (rows : List (List Char)) :
    headerCells (rows ++ [row]) =
      match (dataRows rows).getLast? with
      | some last => rowCells last
      | none => headerCells rows := by
  have htitles : titleRows (rows ++ [row]) = titleRows rows ++ (dataRows rows).getLast?.toList := by
    rw [titleRows_concat, getLast?_dataRows, h]
    simp only [Bool.and_true]
  rw [headerCells, htitles]
  cases (dataRows rows).getLast? with
  | none =>
      rw [Option.toList_none, List.append_nil]
      rfl
  | some last =>
      rw [Option.toList_some, List.getLast?_concat]

theorem addRows_concat (header : List String) (data : List (List String)) (rows : List (List Char)) :
    addRows header data (rows ++ [row]) =
      addRow (addRows header data rows).1 (addRows header data rows).2 row :=
  List.foldl_concat _ _ _ _

/-- **The table of rows in closed form**: the header is the last row that a separator follows at once,
and the data are the rows behind the last separator. -/
theorem addRows_eq (rows : List (List Char)) :
    addRows [] [] rows = (headerCells rows, (dataRows rows).map rowCells) := by
  induction rows using List.reverseRecOn with
  | nil => rfl
  | append_singleton rows row ih =>
      rw [addRows_concat, ih, addRow]
      cases h : isSeparator row with
      | true =>
          rw [if_pos rfl, headerCells_concat_separator h, dataRows_concat_separator h,
            List.getLast?_map]
          cases (dataRows rows).getLast? with
          | none => rfl
          | some last => rfl
      | false =>
          rw [if_neg Bool.false_ne_true, headerCells_concat h, dataRows_concat h, List.map_append]
          rfl

theorem tableOf_eq (rows : List (List Char)) :
    tableOf [] [] rows = .table (headerCells rows) ((dataRows rows).map rowCells) := by
  rw [tableOf, addRows_eq]

/-- **Whatever stands in a table is a cell.** -/
theorem allCells_table (rows : List (List Char)) :
    AllCells IsCell (headerCells rows) ((dataRows rows).map rowCells) := by
  have hcells : ∀ row ∈ rows, ∀ cell ∈ cells row, IsCell (String.ofList cell) :=
    fun _ _ _ => isCell_of_mem_cells
  have h := (allCells_nil IsCell).addRows hcells
  rwa [addRows_eq] at h

/-! ## 3. Runs in a document -/

variable {language : Language}

/-- The lines of a document that are rows, as rows. -/
def rowsOf (lines : List String) : List (List Char) :=
  lines.filterMap fun line => rowLine? line.toList

/-- A run of rows between two parts of a document that is as long as it can be: no code is open before
it, all of its lines are rows, and no row stands right before it or right after it. -/
structure RowRun (language : Language) (before lines after : List String) : Prop where
  not_in_code : ∀ fence source, openAfter language before ≠ .code fence source
  ne_nil : lines ≠ []
  all_rows : ∀ line ∈ lines, rowLine? line.toList ≠ none
  no_row_before : ∀ line ∈ before.getLast?, rowLine? line.toList = none
  no_row_after : ∀ line ∈ after.head?, rowLine? line.toList = none

/-- **Only a row leaves a table open.** -/
theorem OpenBlock.rowLine?_of_push {o : OpenBlock} {raw : List Char} {header : List String}
    {rows : List (List String)} (h : (o.push language raw).2 = .table header rows) :
    rowLine? raw ≠ none := by
  rw [rowLine?]
  cases hclass : LineClass.of (.ofRaw raw) with
  | tableRow row => exact Option.some_ne_none row
  | _ =>
      -- a line of another class opens no table, and goes on with none
      cases o with
      | code fence source =>
          rw [push] at h
          split at h <;> cases h
      | _ =>
          rw [push_eq_pushClass raw fun _ _ e => OpenBlock.noConfusion e, hclass] at h
          cases h

/-- **A table is open after lines only if the last of them is a row.** -/
theorem exists_row_of_openAfter {before : List String} {header : List String}
    {rows : List (List String)} (h : openAfter language before = .table header rows) :
    ∃ line ∈ before.getLast?, rowLine? line.toList ≠ none := by
  rcases List.eq_nil_or_concat before with rfl | ⟨ls, line, rfl⟩
  · cases h
  · rw [openAfter, List.concat_eq_append, List.map_append, readLines_append] at h
    exact ⟨line, by rw [List.concat_eq_append, List.getLast?_concat]; rfl,
      OpenBlock.rowLine?_of_push h⟩

/-- Nothing that is open before a run takes a row of it. -/
theorem RowRun.endsBefore {before lines after : List String} (h : RowRun language before lines after) :
    (openAfter language before).EndsBefore (lines ++ after) := by
  have hfirst : ∀ line ∈ (lines ++ after).head?, rowLine? line.toList ≠ none := by
    intro line hline
    rw [List.head?_append_of_ne_nil _ h.ne_nil] at hline
    exact h.all_rows line (List.mem_of_mem_head? hline)
  cases hopen : openAfter language before with
  | nothing => exact trivial
  | code fence source => exact absurd hopen (h.not_in_code fence source)
  | table header rows =>
      obtain ⟨line, hline, hrow⟩ := exists_row_of_openAfter hopen
      exact absurd (h.no_row_before line hline) hrow
  | list items =>
      intro line hline
      obtain ⟨row, hrow⟩ := Option.ne_none_iff_exists'.1 (hfirst line hline)
      rw [itemLine?, rowLine?_eq_some hrow]

/-- **A row begins the table of the run of rows that it begins.** -/
theorem nested_of_row {raw : List Char} (lines : List (List Char)) (h : rowLine? raw ≠ none) :
    nested language (raw :: lines) = tableOf [] [] (run rowLine? (raw :: lines)) ::
      nested language (afterRun rowLine? (raw :: lines)) := by
  obtain ⟨row, hrow⟩ := Option.ne_none_iff_exists'.1 h
  obtain ⟨hrun, hafter⟩ := run_of_some lines hrow
  rw [nested, rowLine?_eq_some hrow, hrun, hafter]

/-- **A run of rows at the front of a document comes to one table**, and what follows it is read
afresh. -/
theorem blocksOfLines_rows_append {lines after : List String} (hne : lines ≠ [])
    (hlines : ∀ line ∈ lines, rowLine? line.toList ≠ none)
    (hafter : ∀ line ∈ after.head?, rowLine? line.toList = none) :
    blocksOfLines language (lines ++ after) =
      tableOf [] [] (rowsOf lines) :: blocksOfLines language after := by
  have hstop : ∀ raw ∈ (after.map String.toList).head?, rowLine? raw = none := by
    intro raw hraw
    rw [List.head?_map] at hraw
    obtain ⟨line, hline, rfl⟩ := Option.map_eq_some_iff.1 hraw
    exact hafter line hline
  obtain ⟨hrun, hrest⟩ := run_append (List.forall_mem_map.2 hlines) hstop
  obtain ⟨line, more, rfl⟩ := List.exists_cons_of_ne_nil hne
  rw [blocksOfLines_eq_finish, blocksOfLines_eq_finish, List.map_append, finish_nothing, finish_nothing]
  rw [List.map_cons, List.cons_append] at hrun hrest ⊢
  rw [nested_of_row _ (hlines line List.mem_cons_self), hrun, hrest, ← List.map_cons,
    List.filterMap_map]
  rfl

/-- **A run of rows comes to one table, in closed form.** What stands before the run and after it is read
as if it stood alone. The header is the last row of the run that a separator follows at once, the data
are the rows behind its last separator, each with its own cells, and whatever stands in the table is
trimmed, not empty and without a bar. -/
theorem blocksOfLines_run {before lines after : List String}
    (h : RowRun language before lines after) :
    blocksOfLines language (before ++ (lines ++ after)) =
        blocksOfLines language before ++
          .table (headerCells (rowsOf lines)) ((dataRows (rowsOf lines)).map rowCells) ::
            blocksOfLines language after ∧
      AllCells IsCell (headerCells (rowsOf lines)) ((dataRows (rowsOf lines)).map rowCells) := by
  refine ⟨?_, allCells_table (rowsOf lines)⟩
  rw [blocksOfLines_append_of_endsBefore h.endsBefore,
    blocksOfLines_rows_append h.ne_nil h.all_rows h.no_row_after, tableOf_eq]

/-- A separator behind a separator changes nothing, and one with a row between makes a new header. -/
theorem blocksOfLines_run_separators :
    RowRun .csharp ["# A"] ["|-|", "|a|b|", "|-|", "|c|", "|--|-|", "|-|", "| d ||e|"] ["x"] ∧
      blocksOfLines .csharp
          ["# A", "|-|", "|a|b|", "|-|", "|c|", "|--|-|", "|-|", "| d ||e|", "x"] =
        blocksOfLines .csharp ["# A"] ++
          .table ["c"] [["d", "e"]] :: blocksOfLines .csharp ["x"] := by
  have hopen : openAfter .csharp ["# A"] = .nothing := by decide +kernel
  have hrun : RowRun .csharp ["# A"]
      ["|-|", "|a|b|", "|-|", "|c|", "|--|-|", "|-|", "| d ||e|"] ["x"] :=
    { not_in_code := fun fence source => by rw [hopen]; exact OpenBlock.noConfusion
      ne_nil := List.cons_ne_nil _ _
      all_rows := by decide +kernel
      no_row_before := by decide +kernel
      no_row_after := by decide +kernel }
  have hheader : headerCells (rowsOf
      ["|-|", "|a|b|", "|-|", "|c|", "|--|-|", "|-|", "| d ||e|"]) = ["c"] := by decide +kernel
  have hdata : (dataRows (rowsOf
      ["|-|", "|a|b|", "|-|", "|c|", "|--|-|", "|-|", "| d ||e|"])).map rowCells =
        [["d", "e"]] := by
    decide +kernel
  have h := (blocksOfLines_run hrun).1
  rw [hheader, hdata] at h
  exact ⟨hrun, h⟩

end Quire.Document
