import Quire.Proofs.Path.Components

/-!
# What stands above a path

The parent of a path is cut off its text: first go slashes and dots at the end, then the last part, and
then slashes and dots again. Such parts lead nowhere, so **the parent goes where the path goes, but for
its last step** (`filter_components_parent`).
-/

namespace Quire.Path

open Quire.Text

/-- The component that a part of a path is, unless it is empty or stays where it is. -/
def move? (part : List Char) : Option Component :=
  if part.isEmpty || part = ['.'] then none else some (Component.ofString (String.ofList part))

theorem move?_eq_none {part : List Char} : move? part = none ↔ (part.isEmpty || part = ['.']) = true := by
  rw [move?]
  split
  · rename_i h
    exact iff_of_true rfl h
  · rename_i h
    exact iff_of_false (by simp) h

theorem filter_ofString {part : List Char} (h : '/' ∉ part) (hne : part.isEmpty = false) :
    [Component.ofString (String.ofList part)].filter (· != .here) = (move? part).toList := by
  rw [move?, hne, Bool.false_or]
  have hne' : String.ofList part ≠ "" := by
    intro he
    rw [String.ofList_eq_empty_iff.1 he] at hne
    cases hne
  by_cases hdot : part = ['.']
  · subst hdot
    decide
  · rw [if_neg (by simpa using hdot)]
    have hdot' : String.ofList part ≠ "." := by
      intro he
      exact hdot (by rw [← String.toList_ofList (l := part), he]; rfl)
    have hmoves : Component.ofString (String.ofList part) ≠ .here := by
      rw [Component.ofString]
      split
      · simp
      · rename_i hname
        rw [if_pos]
        · simp
        · refine Decidable.of_not_not fun hup => hname ⟨hne', hdot', hup, ?_⟩
          rwa [String.toList_ofList]
    rw [List.filter_cons_of_pos (by simpa using hmoves)]
    rfl

theorem filter_components (path : String) : (components path).filter (· != .here) =
    (splitOn '/' path.toList).filterMap move? := by
  have hparts {part : List Char} (hmem : part ∈ splitOn '/' path.toList) : '/' ∉ part :=
    not_mem_of_mem_splitOn hmem
  rw [components, parts]
  generalize splitOn '/' path.toList = l at hparts
  induction l with
  | nil => rfl
  | cons part l ih =>
      have hrest := ih fun h => hparts (List.mem_cons_of_mem _ h)
      cases hempty : part.isEmpty with
      | true =>
          rw [List.filter_cons_of_neg (by simp [hempty]), hrest, List.filterMap_cons_none]
          rw [move?_eq_none, hempty, Bool.true_or]
      | false =>
          have hfirst := filter_ofString (hparts List.mem_cons_self) hempty
          rw [List.filter_cons_of_pos (by simp [hempty]), List.map_cons, List.map_cons,
            ← List.singleton_append, List.filter_append, hfirst, hrest, List.filterMap_cons]
          cases move? part <;> rfl

theorem filterMap_dropWhile (l : List (List Char)) :
    (l.dropWhile fun p => p.isEmpty || p = ['.']).filterMap move? = l.filterMap move? := by
  induction l with
  | nil => rfl
  | cons part l ih =>
      rw [List.dropWhile_cons]
      split
      · rename_i h
        rw [ih, List.filterMap_cons_none (move?_eq_none.2 h)]
      · rfl

theorem filterMap_tail_dropWhile (l : List (List Char)) :
    ((l.dropWhile fun p => p.isEmpty || p = ['.']).tail).filterMap move? =
      (l.filterMap move?).tail := by
  induction l with
  | nil => rfl
  | cons part l ih =>
      rw [List.dropWhile_cons]
      split
      · rename_i h
        rw [ih, List.filterMap_cons_none (move?_eq_none.2 h)]
      · rename_i h
        rw [List.tail_cons, List.filterMap_cons, move?, if_neg h]
        rfl

/-- **The parent of a path goes where the path goes, but for its last step.** -/
theorem filter_components_parent (path : String) :
    (components (parent path)).filter (· != .here) =
      ((components path).filter (· != .here)).dropLast := by
  rw [filter_components, filter_components, parent, String.toList_ofList]
  dsimp only
  generalize hkept : List.dropWhile _ (List.tail _) = kept
  have hslash : ∀ part ∈ kept.reverse, '/' ∉ part := by
    intro part hmem
    rw [← hkept, List.mem_reverse] at hmem
    have hmem' := List.mem_of_mem_tail ((List.dropWhile_sublist _).subset hmem)
    exact not_mem_of_mem_splitOn (List.mem_reverse.1 ((List.dropWhile_sublist _).subset hmem'))
  have hsplit : (splitOn '/' (['/'].intercalate kept.reverse)).filterMap move? =
      kept.reverse.filterMap move? := by
    by_cases hnil : kept.reverse = []
    · rw [hnil]
      rfl
    · rw [splitOn_intercalate hslash hnil]
  rw [hsplit, List.filterMap_reverse, ← hkept, filterMap_dropWhile, filterMap_tail_dropWhile,
    List.filterMap_reverse, List.tail_reverse, List.reverse_reverse]

end Quire.Path
