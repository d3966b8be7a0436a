import Quire.Document.Reading

/-!
# Documents by nested reading

A document can be read without anything being kept open between two lines: the first line says what
the block is, and a block of several lines takes its lines off the front at once. `nested` reads in
this way. A list takes the longest run of list items, a table the longest run of table rows, and
code every line up to the fence that closes it, or all there are; the line that ends a list or a
table begins the next block.

**Both ways give the same blocks.** A list or a table that is open takes the lines of the run that
nested reading takes at once (`finish_of_run`), and code those up to its end (`finish_code`); after
them nothing is open. So the proof follows nested reading block by block (`finish_nothing`).
-/

namespace Quire.Document

open Quire.Highlight (Language)

/-! ## 1. Nested reading -/

/-- The text of a line as a list item, if it is one. -/
def itemLine? (raw : List Char) : Option (List Char) :=
  match LineClass.of (.ofRaw raw) with
  | .listItem item => some item
  | _ => none

/-- A line as a table row, if it is one. -/
def rowLine? (raw : List Char) : Option (List Char) :=
  match LineClass.of (.ofRaw raw) with
  | .tableRow row => some row
  | _ => none

/-- The source of code: its lines as they were written, each with a line feed. -/
def codeSource (lines : List (List Char)) : String :=
  String.join (lines.map fun raw => String.ofList raw ++ "\n")

/-- The longest run of lines at the front that a test reads, as the test reads them. -/
def run (test : List Char → Option (List Char)) (lines : List (List Char)) : List (List Char) :=
  (lines.takeWhile fun raw => (test raw).isSome).filterMap test

/-- The lines after that run. -/
def afterRun (test : List Char → Option (List Char)) (lines : List (List Char)) :
    List (List Char) :=
  lines.dropWhile fun raw => (test raw).isSome

/-- The header and the rows after table rows, in order. -/
def addRows (header : List String) (rows : List (List String)) (more : List (List Char)) :
    List String × List (List String) :=
  more.foldl (fun t row => addRow t.1 t.2 row) (header, rows)

/-- The table of its rows. -/
def tableOf (header : List String) (rows : List (List String)) (more : List (List Char)) : Block :=
  .table (addRows header rows more).1 (addRows header rows more).2

theorem length_afterRun_le (test : List Char → Option (List Char)) (lines : List (List Char)) :
    (afterRun test lines).length ≤ lines.length :=
  (List.dropWhile_suffix _).length_le

/-- The blocks of lines: each block takes all of its lines off the front. -/
def nested (language : Language) : List (List Char) → List Block
  | [] => []
  | raw :: lines =>
    match LineClass.of (.ofRaw raw) with
    | .rule => .horizontalRule :: nested language lines
    | .listItem item =>
      .unorderedList ((item :: run itemLine? lines).map String.ofList) ::
        nested language (afterRun itemLine? lines)
    | .heading level text => .heading level (String.ofList text) :: nested language lines
    | .fence kind =>
      .code language (codeSource (lines.takeWhile fun raw => !kind.closes raw)) ::
        nested language ((lines.dropWhile fun raw => !kind.closes raw).drop 1)
    | .quote text => .blockQuote (String.ofList text) :: nested language lines
    | .tableRow row =>
      tableOf [] [] (row :: run rowLine? lines) :: nested language (afterRun rowLine? lines)
    | .text s => textBlocks s ++ nested language lines
  termination_by lines => lines.length
  decreasing_by
    all_goals simp only [List.length_cons, List.length_drop]
    · omega
    · have := length_afterRun_le itemLine? lines
      omega
    · omega
    · have := (List.dropWhile_suffix (l := lines) fun raw => !kind.closes raw).length_le
      omega
    · omega
    · have := length_afterRun_le rowLine? lines
      omega
    · omega

/-! ## 2. Reading on with a block open -/

/-- The blocks that lines come to, up to their end, if a block is open before them. -/
def finish (language : Language) (o : OpenBlock) (lines : List (List Char)) : List Block :=
  (readLines language o lines).1 ++ (readLines language o lines).2.close language

variable {language : Language}

/-- Lines are read with nothing open before them. -/
theorem blocksOfLines_eq_finish (language : Language) (lines : List String) :
    blocksOfLines language lines = finish language .nothing (lines.map String.toList) := rfl

theorem finish_nil (o : OpenBlock) : finish language o [] = o.close language := rfl

theorem readLines_cons (o : OpenBlock) (raw : List Char) (lines : List (List Char)) :
    readLines language o (raw :: lines) =
      ((o.push language raw).1 ++ (readLines language (o.push language raw).2 lines).1,
        (readLines language (o.push language raw).2 lines).2) :=
  rfl

theorem finish_cons (o : OpenBlock) (raw : List Char) (lines : List (List Char)) :
    finish language o (raw :: lines) =
      (o.push language raw).1 ++ finish language (o.push language raw).2 lines := by
  rw [finish, finish, readLines_cons]
  exact List.append_assoc _ _ _

/-- Outside of code a line does what its class does. -/
theorem push_eq_pushClass {o : OpenBlock} (raw : List Char)
    (hcode : ∀ kind source, o ≠ .code kind source) :
    o.push language raw = o.pushClass language (.of (.ofRaw raw)) := by
  cases o with
  | code kind source => exact absurd rfl (hcode kind source)
  | nothing => rfl
  | list items => rfl
  | table header rows => rfl

/-- **A line that does not go on with what is open closes it, and is then read as a fresh line.** -/
theorem finish_of_continue?_eq_none {o : OpenBlock} {raw : List Char} (lines : List (List Char))
    (hcode : ∀ kind source, o ≠ .code kind source)
    (h : o.continue? (.of (.ofRaw raw)) = none) :
    finish language o (raw :: lines) =
      o.close language ++ finish language .nothing (raw :: lines) := by
  have hfresh : (OpenBlock.nothing).continue? (.of (.ofRaw raw)) = none := rfl
  rw [finish_cons, finish_cons, push_eq_pushClass raw hcode,
    push_eq_pushClass raw fun _ _ e => OpenBlock.noConfusion e, OpenBlock.pushClass,
    OpenBlock.pushClass, h, hfresh]
  exact List.append_assoc _ _ _

/-- A line that goes on with what is open is taken into it. -/
theorem finish_of_continue?_eq_some {o o' : OpenBlock} {raw : List Char}
    (lines : List (List Char)) (hcode : ∀ kind source, o ≠ .code kind source)
    (h : o.continue? (.of (.ofRaw raw)) = some o') :
    finish language o (raw :: lines) = finish language o' lines := by
  rw [finish_cons, push_eq_pushClass raw hcode, OpenBlock.pushClass, h]
  rfl

/-! ## 3. Runs -/

/-- Only a list item goes on with a list. -/
theorem continue?_list (items : List String) (raw : List Char) :
    (OpenBlock.list items).continue? (.of (.ofRaw raw)) =
      (itemLine? raw).map fun item => .list (items ++ [String.ofList item]) := by
  rw [itemLine?]
  cases LineClass.of (.ofRaw raw) <;> rfl

/-- Only a table row goes on with a table. -/
theorem continue?_table (header : List String) (rows : List (List String)) (raw : List Char) :
    (OpenBlock.table header rows).continue? (.of (.ofRaw raw)) =
      (rowLine? raw).map fun row =>
        .table (addRow header rows row).1 (addRow header rows row).2 := by
  rw [rowLine?]
  cases LineClass.of (.ofRaw raw) <;> rfl

variable {test : List Char → Option (List Char)} {raw x : List Char}

theorem run_of_some (lines : List (List Char)) (h : test raw = some x) :
    run test (raw :: lines) = x :: run test lines ∧
      afterRun test (raw :: lines) = afterRun test lines := by
  constructor
  · simp [run, h]
  · simp [afterRun, h]

theorem run_of_none (lines : List (List Char)) (h : test raw = none) :
    run test (raw :: lines) = [] ∧ afterRun test (raw :: lines) = raw :: lines := by
  constructor
  · simp [run, h]
  · simp [afterRun, h]

/-- **Lines that a test reads are the longest run of them**, if the test does not read the line that
follows. -/
theorem run_append {lines rest : List (List Char)} (h : ∀ raw ∈ lines, test raw ≠ none)
    (hrest : ∀ raw ∈ rest.head?, test raw = none) :
    run test (lines ++ rest) = lines.filterMap test ∧ afterRun test (lines ++ rest) = rest := by
  have hlines : ∀ raw ∈ lines, (test raw).isSome = true := fun raw hraw =>
    Option.isSome_iff_ne_none.2 (h raw hraw)
  have hstop : run test rest = [] ∧ afterRun test rest = rest := by
    cases rest with
    | nil => exact ⟨rfl, rfl⟩
    | cons raw rest => exact run_of_none rest (hrest raw rfl)
  rw [run, List.takeWhile_append_of_pos hlines, List.filterMap_append, ← run, hstop.1,
    List.append_nil, afterRun, List.dropWhile_append_of_pos hlines, ← afterRun, hstop.2]
  exact ⟨rfl, rfl⟩

/-- **A block that goes on with the lines that a test reads takes the longest run of them.** It is
then closed, and what follows the run is read afresh. -/
theorem finish_of_run {σ : Type} (leaf : σ → OpenBlock) {grow : σ → List Char → σ}
    (hcode : ∀ t kind source, leaf t ≠ .code kind source)
    (hgrow : ∀ t raw, (leaf t).continue? (.of (.ofRaw raw)) =
      (test raw).map fun x => leaf (grow t x)) (t : σ) (lines : List (List Char)) :
    finish language (leaf t) lines =
      (leaf ((run test lines).foldl grow t)).close language ++
        finish language .nothing (afterRun test lines) := by
  induction lines generalizing t with
  | nil => exact (List.append_nil _).symm
  | cons raw lines ih =>
      have hc := hgrow t raw
      cases h : test raw with
      | some x =>
          obtain ⟨hrun, hafter⟩ := run_of_some lines h
          rw [h, Option.map_some] at hc
          rw [finish_of_continue?_eq_some lines (hcode t) hc, ih, hrun, hafter, List.foldl_cons]
      | none =>
          obtain ⟨hrun, hafter⟩ := run_of_none lines h
          rw [h, Option.map_none] at hc
          rw [finish_of_continue?_eq_none lines (hcode t) hc, hrun, hafter, List.foldl_nil]

theorem finish_list (items : List String) (lines : List (List Char)) :
    finish language (.list items) lines =
      .unorderedList (items ++ (run itemLine? lines).map String.ofList) ::
        finish language .nothing (afterRun itemLine? lines) := by
  have hitems : ∀ more : List (List Char),
      more.foldl (fun items item => items ++ [String.ofList item]) items =
        items ++ more.map String.ofList := by
    intro more
    induction more generalizing items with
    | nil => exact (List.append_nil items).symm
    | cons item more ih =>
        rw [List.foldl_cons, ih, List.map_cons, List.append_assoc, List.singleton_append]
  rw [finish_of_run .list (fun _ _ _ e => OpenBlock.noConfusion e) continue?_list, hitems]
  rfl

theorem finish_table (header : List String) (rows : List (List String))
    (lines : List (List Char)) :
    finish language (.table header rows) lines =
      tableOf header rows (run rowLine? lines) ::
        finish language .nothing (afterRun rowLine? lines) :=
  finish_of_run (fun t => .table t.1 t.2) (fun _ _ _ e => OpenBlock.noConfusion e)
    (fun t raw => continue?_table t.1 t.2 raw) (header, rows) lines

/-- **Code takes every line up to the one that closes it, which is used up.** -/
theorem finish_code (kind : Fence) (source : String) (lines : List (List Char)) :
    finish language (.code kind source) lines =
      .code language (source ++ codeSource (lines.takeWhile fun raw => !kind.closes raw)) ::
        finish language .nothing ((lines.dropWhile fun raw => !kind.closes raw).drop 1) := by
  induction lines generalizing source with
  | nil => simp [finish_nil, OpenBlock.close, codeSource]
  | cons raw lines ih =>
      rw [finish_cons, OpenBlock.push]
      cases h : kind.closes raw with
      | true => simp [h, OpenBlock.close, codeSource]
      | false => simp [h, ih, codeSource, String.append_assoc]

/-! ## 4. The same blocks -/

/-- A fresh line begins the block of its class. -/
theorem finish_nothing_cons (raw : List Char) (lines : List (List Char)) :
    finish language .nothing (raw :: lines) =
      (OpenBlock.opening (.of (.ofRaw raw))).1 ++
        finish language (OpenBlock.opening (.of (.ofRaw raw))).2 lines := by
  rw [finish_cons, push_eq_pushClass raw fun _ _ e => OpenBlock.noConfusion e]
  rfl

/-- **With nothing open, lines come to the blocks of nested reading.** -/
theorem finish_nothing (lines : List (List Char)) :
    finish language .nothing lines = nested language lines := by
  induction lines using nested.induct with
  | case1 => rw [nested]; rfl
  | case2 raw lines h ih =>
      rw [finish_nothing_cons, nested, h]
      exact congrArg _ ih
  | case3 raw lines item h ih =>
      rw [finish_nothing_cons, nested, h]
      dsimp only [OpenBlock.opening]
      rw [finish_list, ih]
      rfl
  | case4 raw lines level text h ih =>
      rw [finish_nothing_cons, nested, h]
      exact congrArg _ ih
  | case5 raw lines kind h ih =>
      rw [finish_nothing_cons, nested, h]
      dsimp only [OpenBlock.opening]
      rw [finish_code, ih]
      simp
  | case6 raw lines text h ih =>
      rw [finish_nothing_cons, nested, h]
      exact congrArg _ ih
  | case7 raw lines row h ih =>
      rw [finish_nothing_cons, nested, h]
      dsimp only [OpenBlock.opening]
      rw [finish_table, ih]
      rfl
  | case8 raw lines s h ih =>
      rw [finish_nothing_cons, nested, h]
      exact congrArg _ ih

/-- **Reading line by line gives the blocks of nested reading**, for every list of lines and every
language of code. -/
theorem blocksOfLines_eq_nested (language : Language) (lines : List String) :
    blocksOfLines language lines = nested language (lines.map String.toList) := by
  rw [blocksOfLines_eq_finish, finish_nothing]

end Quire.Document
