import Quire.Text.Split

/-!
# Splitting what was joined

A text without the separator is one part, and such a text before a separator is the first part
(`splitOn_append`), so **texts that are each followed by a separator are read back**
(`splitOn_ended`), and so are texts with separators between them (`splitOn_intercalate`).
-/

namespace Quire.Text

variable {sep : Char}

theorem splitOn_cons_self (s : List Char) : splitOn sep (sep :: s) = [] :: splitOn sep s := by
  rw [splitOn]
  split
  · rename_i part parts hs
    rw [if_pos rfl, hs]
  · rename_i hs
    exact absurd hs (splitOn_ne_nil sep s)

theorem splitOn_cons_of_ne {c : Char} (hc : c ≠ sep) {s part : List Char}
    {parts : List (List Char)} (hs : splitOn sep s = part :: parts) :
    splitOn sep (c :: s) = (c :: part) :: parts := by
  rw [splitOn, hs]
  exact if_neg hc

theorem splitOn_of_not_mem {s : List Char} (h : sep ∉ s) : splitOn sep s = [s] := by
  induction s with
  | nil => rfl
  | cons c s ih =>
      rw [List.mem_cons, not_or] at h
      exact splitOn_cons_of_ne (fun e => h.1 e.symm) (ih h.2)

/-- **A text without the separator is the first part of what it stands before.** -/
theorem splitOn_append {a : List Char} (ha : sep ∉ a) (s : List Char) :
    splitOn sep (a ++ sep :: s) = a :: splitOn sep s := by
  induction a with
  | nil => exact splitOn_cons_self s
  | cons c a ih =>
      rw [List.mem_cons, not_or] at ha
      exact splitOn_cons_of_ne (fun e => ha.1 e.symm) (ih ha.2)

/-- A separator splits what stands before it from what stands after it. -/
theorem splitOn_append_cons (a s : List Char) :
    splitOn sep (a ++ sep :: s) = splitOn sep a ++ splitOn sep s := by
  induction a with
  | nil => exact splitOn_cons_self s
  | cons c a ih =>
      by_cases hc : c = sep
      · subst hc
        rw [List.cons_append, splitOn_cons_self, splitOn_cons_self, ih, List.cons_append]
      · obtain ⟨part, parts, ha⟩ := List.exists_cons_of_ne_nil (splitOn_ne_nil sep a)
        rw [ha, List.cons_append] at ih
        rw [List.cons_append, splitOn_cons_of_ne hc ih, splitOn_cons_of_ne hc ha, List.cons_append]

/-- What is no separator stands in one of the parts. -/
theorem exists_mem_splitOn {c : Char} {s : List Char} (hc : c ∈ s) (hne : c ≠ sep) :
    ∃ part ∈ splitOn sep s, c ∈ part := by
  induction s with
  | nil => cases hc
  | cons d s ih =>
      by_cases hd : d = sep
      · subst hd
        obtain ⟨part, hpart, hmem⟩ := ih ((List.mem_cons.1 hc).resolve_left hne)
        rw [splitOn_cons_self]
        exact ⟨part, List.mem_cons_of_mem _ hpart, hmem⟩
      · obtain ⟨first, parts, hs⟩ := List.exists_cons_of_ne_nil (splitOn_ne_nil sep s)
        rw [splitOn_cons_of_ne hd hs]
        rcases List.mem_cons.1 hc with rfl | hc
        · exact ⟨_, List.mem_cons_self, List.mem_cons_self⟩
        · obtain ⟨part, hpart, hmem⟩ := ih hc
          rw [hs] at hpart
          rcases List.mem_cons.1 hpart with rfl | hpart
          · exact ⟨_, List.mem_cons_self, List.mem_cons_of_mem d hmem⟩
          · exact ⟨part, List.mem_cons_of_mem _ hpart, hmem⟩

/-- **Texts that are each followed by a separator are read back**, with nothing after the last. -/
theorem splitOn_ended {parts : List (List Char)} (h : ∀ p ∈ parts, sep ∉ p) :
    splitOn sep (parts.flatMap fun p => p ++ [sep]) = parts ++ [[]] := by
  induction parts with
  | nil => rfl
  | cons p parts ih =>
      rw [List.forall_mem_cons] at h
      rw [List.flatMap_cons, List.append_assoc, List.singleton_append, splitOn_append h.1, ih h.2,
        List.cons_append]

/-- **Texts with separators between them are read back**, if there are any. -/
theorem splitOn_intercalate {parts : List (List Char)} (h : ∀ p ∈ parts, sep ∉ p)
    (hne : parts ≠ []) : splitOn sep ([sep].intercalate parts) = parts := by
  induction parts with
  | nil => exact absurd rfl hne
  | cons p parts ih =>
      rw [List.forall_mem_cons] at h
      cases parts with
      | nil => exact (congrArg (splitOn sep) (List.append_nil p)).trans (splitOn_of_not_mem h.1)
      | cons q parts =>
          rw [List.intercalate_cons_cons, List.append_assoc, List.singleton_append,
            splitOn_append h.1, ih h.2 (List.cons_ne_nil q parts)]

end Quire.Text
