import Mathlib.Data.List.Forall2
import Quire.Document.Outline
import Quire.Proofs.Text.Lines
import Quire.Proofs.Text.Quoted

/-!
# Outlines tell documents apart

A quoted text tells where it ends, and so do a list and a pair of texts that do; so what the fields of a
block hold is told from its line, whatever it is. The word at the front of a line tells the kind of the
block: no kind has a digit in its name, and every heading has one.

A line shows all that it holds, so **the lines of an outline are those of the blocks**
(`lines_outline`), and **outlines are the same only if the blocks are, but for the markup of code**
(`outline_injective`).
-/

namespace Quire.Document

open Quire.Highlight (Language)
open Quire.Text (BeginsOtherwise Shows TellsEnd isHidden quoted shows_append shows_flatMap shows_quoted
  splitOn splitOn_append tellsEnd_quoted)

variable {α β : Type} {write : α → String} {write' : β → String}

/-! ## 1. Lists and pairs -/

theorem toList_bracketed (write : α → String) (xs : List α) : (bracketed write xs).toList =
    ['['] ++ ([',', ' '].intercalate (xs.map fun x => (write x).toList) ++ [']']) := by
  rw [bracketed, String.toList_append, String.toList_append, String.toList_intercalate, List.map_map]
  simp [Function.comp_def]

/-- **A list tells where it ends if its members do**, and none begins with the bracket that closes it. -/
theorem tellsEnd_bracketed (h : TellsEnd fun x => (write x).toList)
    (hmark : BeginsOtherwise ']' fun x => (write x).toList) :
    TellsEnd fun xs => (bracketed write xs).toList := by
  have hlist := (h.separated hmark (by decide : ',' ≠ ']') [' ']).after ['[']
  intro xs ys s t hxy
  simp only [toList_bracketed] at hxy
  exact hlist hxy

theorem shows_bracketed (h : ∀ x, Shows (write x).toList) (xs : List α) :
    Shows (bracketed write xs).toList := by
  rw [toList_bracketed]
  refine shows_append.2 ⟨by decide, shows_append.2 ⟨?_, by decide⟩⟩
  cases xs with
  | nil => exact List.forall_mem_nil _
  | cons x xs =>
      rw [Text.intercalate_map_cons]
      exact shows_append.2 ⟨h x, shows_flatMap (fun y => shows_append.2 ⟨by decide, h y⟩) xs⟩

theorem tellsEnd_quotedList : TellsEnd fun xs => (quotedList xs).toList :=
  tellsEnd_bracketed tellsEnd_quoted fun s => ⟨_, _, Text.toList_quoted s, by decide⟩

theorem shows_quotedList (xs : List String) : Shows (quotedList xs).toList :=
  shows_bracketed shows_quoted xs

theorem toList_quotedPair (p : String × String) : (quotedPair p).toList =
    ['('] ++ ((quoted p.1).toList ++ ([',', ' '] ++ ((quoted p.2).toList ++ [')']))) := by
  show ("(" ++ quoted p.1 ++ ", " ++ quoted p.2 ++ ")").toList = _
  simp

theorem tellsEnd_quotedPair : TellsEnd fun p => (quotedPair p).toList := by
  have hpair := (tellsEnd_quoted.pair ((tellsEnd_quoted.before [')']).after [',', ' '])).after ['(']
  intro p q s t hpq
  simp only [toList_quotedPair] at hpq
  exact hpair hpq

theorem shows_quotedPair (p : String × String) : Shows (quotedPair p).toList := by
  rw [toList_quotedPair]
  exact shows_append.2 ⟨by decide, shows_append.2 ⟨shows_quoted p.1, shows_append.2 ⟨by decide,
    shows_append.2 ⟨shows_quoted p.2, by decide⟩⟩⟩⟩

theorem tellsEnd_pairs : TellsEnd fun ps => (bracketed quotedPair ps).toList :=
  tellsEnd_bracketed tellsEnd_quotedPair fun p => ⟨_, _, toList_quotedPair p, by decide⟩

theorem tellsEnd_rows : TellsEnd fun rows => (bracketed quotedList rows).toList :=
  tellsEnd_bracketed tellsEnd_quotedList fun row => ⟨_, _, toList_bracketed quoted row, by decide⟩

/-! ## 2. The parts of a line -/

namespace Block

/-- The word that the line of a block begins with. -/
def word : Block → String
  | heading level _ => "h" ++ toString level
  | b => b.kindName

/-- What stands behind it, a blank before each field. -/
def details : Block → String
  | heading _ text => " " ++ quoted text
  | paragraph text => " " ++ quoted text
  | blockQuote text => " " ++ quoted text
  | unorderedList items => " " ++ quotedList items
  | orderedList title items => " " ++ (quoted title ++ (" " ++ quotedList items))
  | definitionList title pairs => " " ++ (quoted title ++ (" " ++ bracketed quotedPair pairs))
  | codeBlock language source _ => " " ++ (language.name ++ (" " ++ quoted source))
  | table header rows => " " ++ (quotedList header ++ (" " ++ bracketed quotedList rows))
  | horizontalRule => ""
  | image alt path => " " ++ (quoted alt ++ (" " ++ quoted path))

theorem outline_eq (b : Block) : b.outline = b.word ++ b.details := by
  cases b <;> simp only [outline, word, details, kindName, String.append_assoc, String.append_empty] <;> rfl

/-- The word is the name of the kind, but for headings. -/
theorem word_cases (b : Block) : (∃ level text, b = heading level text) ∨ b.word = b.kindName := by
  cases b with
  | heading level text => exact .inl ⟨level, text, rfl⟩
  | _ => exact .inr rfl

theorem toList_word_heading (level : Nat) (text : String) :
    (heading level text).word.toList = 'h' :: Nat.toDigits 10 level := by
  rw [word, String.toList_append, Nat.toString_eq_repr, Nat.repr_eq_ofList_toDigits, String.toList_ofList]
  simp

theorem of_mem_kindName {b : Block} {c : Char} (h : c ∈ b.kindName.toList) :
    isHidden c = false ∧ c ≠ ' ' ∧ c.isDigit = false := by
  have hall : ∀ c ∈ b.kindName.toList, isHidden c = false ∧ c ≠ ' ' ∧ c.isDigit = false := by
    cases b <;> rw [kindName] <;> decide
  exact hall c h

theorem shows_word (b : Block) : Shows b.word.toList := by
  rcases b.word_cases with ⟨level, text, rfl⟩ | hb
  · rw [toList_word_heading]
    exact List.forall_mem_cons.2 ⟨by decide, Text.shows_toDigits (by decide) (by decide) level⟩
  · rw [hb]
    exact fun c hc => (of_mem_kindName hc).1

theorem blank_not_mem_word (b : Block) : ' ' ∉ b.word.toList := by
  intro hc
  rcases b.word_cases with ⟨level, text, rfl⟩ | hb
  · rw [toList_word_heading] at hc
    have hdigit := Nat.isDigit_of_mem_toDigits (by decide) (by decide)
      ((List.mem_cons.1 hc).resolve_left (by decide))
    exact absurd hdigit (by decide)
  · rw [hb] at hc
    exact (of_mem_kindName hc).2.1 rfl

/-- **The word tells the kind**: no kind has a digit in its name, and every heading has one in its word. -/
theorem kindName_eq_of_word_eq {a b : Block} (h : a.word = b.word) : a.kindName = b.kindName := by
  have hdigit (level : Nat) (text : String) (c : Block) : (heading level text).word ≠ c.kindName := by
    intro he
    obtain ⟨d, hd⟩ := List.exists_mem_of_ne_nil _ (Nat.toDigits_ne_nil (n := level) (b := 10))
    have hmem : d ∈ c.kindName.toList := by
      rw [← he, toList_word_heading]
      exact List.mem_cons_of_mem _ hd
    have hnone := (of_mem_kindName hmem).2.2
    rw [Nat.isDigit_of_mem_toDigits (by decide) (by decide) hd] at hnone
    cases hnone
  rcases a.word_cases with ⟨level, text, rfl⟩ | ha
  · rcases b.word_cases with ⟨level', text', rfl⟩ | hb
    · rfl
    · exact absurd (h.trans hb) (hdigit level text b)
  · rcases b.word_cases with ⟨level, text, rfl⟩ | hb
    · exact absurd (h.symm.trans ha) (hdigit level text a)
    · rw [← ha, h, hb]

/-- What stands behind the word is nothing, or begins with a blank. -/
theorem details_cases (b : Block) : b.details = "" ∨ ∃ s, b.details = " " ++ s := by
  cases b with
  | horizontalRule => exact .inl rfl
  | _ => exact .inr ⟨_, rfl⟩

/-- **A line is told apart into its word and its fields**, at the first blank. -/
theorem parts_of_outline_eq {a b : Block} (h : a.outline = b.outline) :
    a.word = b.word ∧ a.details = b.details := by
  have hfirst (b : Block) : (splitOn ' ' b.outline.toList).head? = some b.word.toList := by
    rw [outline_eq, String.toList_append]
    rcases b.details_cases with hb | ⟨s, hb⟩
    · rw [hb, String.toList_empty, List.append_nil, Text.splitOn_of_not_mem b.blank_not_mem_word]
      rfl
    · have hblank : (" " ++ s).toList = ' ' :: s.toList := by simp
      rw [hb, hblank, splitOn_append b.blank_not_mem_word]
      rfl
  have hword : a.word = b.word := by
    have hheads := hfirst b
    rw [← h, hfirst a, Option.some_inj, String.toList_inj] at hheads
    exact hheads
  rw [outline_eq, outline_eq, hword, String.append_right_inj] at h
  exact ⟨hword, h⟩

end Block

/-! ## 3. Lines -/

/-- A field is told from what stands behind the word. -/
theorem eq_of_field (h : TellsEnd fun x => (write x).toList) {x y : α}
    (hxy : " " ++ write x = " " ++ write y) : x = y :=
  h.injective (congrArg String.toList ((String.append_right_inj " ").1 hxy))

/-- And so are two. -/
theorem eq_of_fields (h : TellsEnd fun x => (write x).toList) (h' : TellsEnd fun x => (write' x).toList)
    {x y : α} {x' y' : β}
    (hxy : " " ++ (write x ++ (" " ++ write' x')) = " " ++ (write y ++ (" " ++ write' y'))) :
    x = y ∧ x' = y' := by
  obtain ⟨hfirst, hrest⟩ := h.of_append ((String.append_right_inj " ").1 hxy)
  exact ⟨hfirst, eq_of_field h' hrest⟩

/-- The name of no language begins with that of another. -/
theorem tellsEnd_name : TellsEnd fun l : Language => l.name.toList := by
  refine .of_prefix_free fun k l => ?_
  cases k <;> cases l <;> decide

/-- A block without the markup of its code. -/
def Block.unmarked : Block → Block
  | codeBlock language source _ => codeBlock language source ""
  | b => b

theorem outline_unmarked (b : Block) : b.unmarked.outline = b.outline := by
  cases b <;> rfl

/-- **Lines are the same only if the blocks are, but for the markup of code.** -/
theorem unmarked_eq_of_outline_eq {a b : Block} (h : a.outline = b.outline) : a.unmarked = b.unmarked := by
  obtain ⟨hword, hfields⟩ := Block.parts_of_outline_eq h
  have hkind := Block.kindName_eq_of_word_eq hword
  cases a <;> cases b <;> try (simp [Block.kindName] at hkind; done)
  case heading.heading level text level' text' =>
    have hdigits := congrArg String.toList hword
    rw [Block.toList_word_heading, Block.toList_word_heading, List.cons.injEq] at hdigits
    rw [Text.toDigits_injective (by decide) (by decide) hdigits.2, eq_of_field tellsEnd_quoted hfields]
  case paragraph.paragraph text text' => rw [eq_of_field tellsEnd_quoted hfields]
  case unorderedList.unorderedList items items' => rw [eq_of_field tellsEnd_quotedList hfields]
  case orderedList.orderedList title items title' items' =>
    obtain ⟨rfl, rfl⟩ := eq_of_fields tellsEnd_quoted tellsEnd_quotedList hfields
    rfl
  case definitionList.definitionList title pairs title' pairs' =>
    obtain ⟨rfl, rfl⟩ := eq_of_fields tellsEnd_quoted tellsEnd_pairs hfields
    rfl
  case codeBlock.codeBlock language source marked language' source' marked' =>
    obtain ⟨rfl, rfl⟩ := eq_of_fields tellsEnd_name tellsEnd_quoted hfields
    rfl
  case blockQuote.blockQuote text text' => rw [eq_of_field tellsEnd_quoted hfields]
  case table.table header rows header' rows' =>
    obtain ⟨rfl, rfl⟩ := eq_of_fields tellsEnd_quotedList tellsEnd_rows hfields
    rfl
  case horizontalRule.horizontalRule => rfl
  case image.image alt path alt' path' =>
    obtain ⟨rfl, rfl⟩ := eq_of_fields tellsEnd_quoted tellsEnd_quoted hfields
    rfl

/-! ## 4. Documents -/

theorem Block.shows_details (b : Block) : Shows b.details.toList := by
  have hfield {s : String} (hs : Shows s.toList) : Shows (" " ++ s).toList := by
    rw [String.toList_append]
    exact shows_append.2 ⟨by decide, hs⟩
  have hfields {s t : String} (hs : Shows s.toList) (ht : Shows t.toList) :
      Shows (" " ++ (s ++ (" " ++ t))).toList := by
    refine hfield ?_
    rw [String.toList_append]
    exact shows_append.2 ⟨hs, hfield ht⟩
  cases b with
  | heading level text => exact hfield (shows_quoted text)
  | paragraph text => exact hfield (shows_quoted text)
  | unorderedList items => exact hfield (shows_quotedList items)
  | orderedList title items => exact hfields (shows_quoted title) (shows_quotedList items)
  | definitionList title pairs =>
      exact hfields (shows_quoted title) (shows_bracketed shows_quotedPair pairs)
  | codeBlock language source _ =>
      have hname : Shows language.name.toList := by cases language <;> decide
      exact hfields hname (shows_quoted source)
  | blockQuote text => exact hfield (shows_quoted text)
  | table header rows => exact hfields (shows_quotedList header) (shows_bracketed shows_quotedList rows)
  | horizontalRule => exact List.forall_mem_nil _
  | image alt path => exact hfields (shows_quoted alt) (shows_quoted path)

/-- **Nothing in the line of a block is hidden**, so it is one line. -/
theorem shows_outline (b : Block) : Shows b.outline.toList := by
  rw [Block.outline_eq, String.toList_append]
  exact shows_append.2 ⟨b.shows_word, b.shows_details⟩

theorem outline_ne_empty (b : Block) : b.outline ≠ "" := by
  intro h
  rw [Block.outline_eq, String.append_eq_empty_iff] at h
  have hword := congrArg String.toList h.1
  rcases b.word_cases with ⟨level, text, rfl⟩ | hb
  · rw [Block.toList_word_heading] at hword
    cases hword
  · rw [hb] at hword
    revert hword
    cases b <;> rw [Block.kindName] <;> decide

/-- **The lines of an outline are the lines of the blocks.** -/
theorem lines_outline (blocks : List Block) : Text.lines (outline blocks) = blocks.map Block.outline := by
  refine Text.lines_intercalate ?_ ?_ ?_
  · exact List.forall_mem_map.2 fun b _ => outline_ne_empty b
  · exact List.forall_mem_map.2 fun b _ => (shows_outline b).not_mem (by decide)
  · exact List.forall_mem_map.2 fun b _ h =>
      (shows_outline b).not_mem (by decide) (List.mem_of_getLast? h)

/-- Between the lines, and nowhere else, there are line feeds. -/
theorem count_outline (blocks : List Block) :
    (outline blocks).toList.count '\n' = blocks.length - 1 := by
  have hline (b : Block) : b.outline.toList.count '\n' = 0 :=
    List.count_eq_zero_of_not_mem ((shows_outline b).not_mem (by decide))
  cases blocks with
  | nil => rfl
  | cons b blocks =>
      have hrest : (blocks.flatMap fun c => ['\n'] ++ c.outline.toList).count '\n' = blocks.length := by
        induction blocks with
        | nil => rfl
        | cons c blocks ih =>
            rw [List.flatMap_cons, List.count_append, List.count_append, hline, ih, List.length_cons]
            exact Nat.add_comm 1 _
      rw [outline, String.toList_intercalate, List.map_map]
      show (['\n'].intercalate ((b :: blocks).map fun c => c.outline.toList)).count '\n' = _
      rw [Text.intercalate_map_cons, List.count_append, hline, hrest, Nat.zero_add, List.length_cons,
        Nat.add_sub_cancel]

/-- **Outlines tell documents apart.** Two documents have the same outline exactly if they are the same
but for the markup of code. The lines of an outline are those of the blocks, one for each, with a line
feed between any two and nowhere else. -/
theorem outline_injective (as bs : List Block) :
    (outline as = outline bs ↔ as.map Block.unmarked = bs.map Block.unmarked) ∧
    Text.lines (outline as) = as.map Block.outline ∧
    (outline as).toList.count '\n' = as.length - 1 := by
  refine ⟨⟨fun h => ?_, fun h => ?_⟩, lines_outline as, count_outline as⟩
  · have hlines : as.map Block.outline = bs.map Block.outline := by
      rw [← lines_outline, h, lines_outline]
    rw [← List.forall₂_eq_eq_eq, List.forall₂_map_left_iff, List.forall₂_map_right_iff] at hlines ⊢
    exact hlines.imp fun _ _ => unmarked_eq_of_outline_eq
  · have hlines (blocks : List Block) :
        blocks.map Block.outline = (blocks.map Block.unmarked).map Block.outline := by
      rw [List.map_map]
      exact List.map_congr_left fun b _ => (outline_unmarked b).symm
    rw [outline, hlines as, h, ← hlines bs, outline]

end Quire.Document
