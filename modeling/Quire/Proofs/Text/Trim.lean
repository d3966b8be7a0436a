import Mathlib.Data.List.TakeWhile
import Quire.Text.Blank

/-!
# What trimming leaves

A trimmed text is what stands between the blanks at its ends (`exists_trim`), and it has no blank at
either end (`isBlank_head_trim`, `isBlank_getLast_trim`). So a text is its own trim exactly if it has
none there (`trim_eq_self_iff`), and blanks around such a text are all that is trimmed off
(`trim_between`).
-/

namespace Quire.Text

theorem exists_trimEnd (s : List Char) :
    ∃ b, s = trimEnd s ++ b ∧ ∀ c ∈ b, isBlank c = true := by
  refine ⟨(s.reverse.takeWhile isBlank).reverse, ?_, ?_⟩
  · rw [trimEnd, ← List.reverse_append, List.takeWhile_append_dropWhile, List.reverse_reverse]
  · exact fun c hc => List.mem_takeWhile_imp (List.mem_reverse.1 hc)

/-- **Only blanks are trimmed off**, from the start and from the end. -/
theorem exists_trim (s : List Char) :
    ∃ a b, s = a ++ trim s ++ b ∧ (∀ c ∈ a, isBlank c = true) ∧ ∀ c ∈ b, isBlank c = true := by
  have hstart : s = s.takeWhile isBlank ++ trimStart s :=
    (List.takeWhile_append_dropWhile (p := isBlank) (l := s)).symm
  obtain ⟨b, hend, hb⟩ := exists_trimEnd (trimStart s)
  refine ⟨s.takeWhile isBlank, b, ?_, fun c hc => List.mem_takeWhile_imp hc, hb⟩
  rw [List.append_assoc, trim, ← hend]
  exact hstart

theorem mem_of_mem_trim {s : List Char} {c : Char} (h : c ∈ trim s) : c ∈ s := by
  obtain ⟨a, b, hs, -, -⟩ := exists_trim s
  rw [hs]
  exact List.mem_append_left b (List.mem_append_right a h)

theorem trimEnd_cons {c : Char} (hc : isBlank c = false) (s : List Char) :
    trimEnd (c :: s) = c :: trimEnd s := by
  have hsingle : [c].dropWhile isBlank = [c] := by
    rw [List.dropWhile_cons_of_neg (by simp [hc])]
  rw [trimEnd, trimEnd, List.reverse_cons, List.dropWhile_append]
  cases h : (s.reverse.dropWhile isBlank).isEmpty with
  | true => simp [hsingle, List.isEmpty_iff.1 h]
  | false => simp

/-- A character that is not blank ends the trimming of the start. -/
theorem trim_cons_of_isBlank_eq_false {c : Char} (hc : isBlank c = false) (s : List Char) :
    trim (c :: s) = c :: trimEnd s := by
  rw [trim, trimStart, List.dropWhile_cons_of_neg (by simp [hc]), trimEnd_cons hc]

/-- No blank is left at the start. -/
theorem isBlank_head_trim {s r : List Char} {c : Char} (h : trim s = c :: r) :
    isBlank c = false := by
  cases hs : trimStart s with
  | nil => rw [trim, hs] at h; cases h
  | cons d ds =>
      have hd := isBlank_head_trimStart hs
      rw [trim, hs, trimEnd_cons hd, List.cons.injEq] at h
      rw [← h.1]
      exact hd

/-- No blank is left at the end. -/
theorem isBlank_getLast_trim {s : List Char} {c : Char} (h : (trim s).getLast? = some c) :
    isBlank c = false := by
  rw [trim, trimEnd, List.getLast?_reverse] at h
  cases hr : (trimStart s).reverse.dropWhile isBlank with
  | nil => rw [hr] at h; cases h
  | cons d ds =>
      rw [hr, List.head?_cons, Option.some.injEq] at h
      rw [← h]
      -- what stands first in the reversed text is what its own trimming left there
      exact isBlank_head_trimStart hr

/-- **A text is its own trim exactly if neither end of it is blank.** -/
theorem trim_eq_self_iff {s : List Char} :
    trim s = s ↔ (∀ c ∈ s.head?, isBlank c = false) ∧ ∀ c ∈ s.getLast?, isBlank c = false := by
  constructor
  · intro h
    constructor
    · intro c hc
      obtain ⟨r, hr⟩ := List.head?_eq_some_iff.1 hc
      exact isBlank_head_trim (h.trans hr)
    · intro c hc
      rw [← h] at hc
      exact isBlank_getLast_trim hc
  · rintro ⟨hhead, hlast⟩
    have hstart : trimStart s = s := by
      cases s with
      | nil => rfl
      | cons c s => exact List.dropWhile_cons_of_neg (by simp [hhead c rfl])
    rw [trim, hstart, trimEnd]
    cases h : s.reverse with
    | nil => simpa using h
    | cons d ds =>
        have hd : s.getLast? = some d := by rw [List.getLast?_eq_head?_reverse, h]; rfl
        rw [List.dropWhile_cons_of_neg (by simp [hlast d hd]), ← h, List.reverse_reverse]

/-- A blank at the start is trimmed off. -/
theorem trim_cons_of_isBlank {c : Char} (hc : isBlank c = true) (s : List Char) :
    trim (c :: s) = trim s := by
  rw [trim, trim, trimStart, trimStart, List.dropWhile_cons_of_pos hc]

/-- A text between two ends that are not blank is its own trim. -/
theorem trim_ends {c d : Char} (hc : isBlank c = false) (hd : isBlank d = false) (s : List Char) :
    trim (c :: (s ++ [d])) = c :: (s ++ [d]) := by
  refine trim_eq_self_iff.2 ⟨?_, ?_⟩
  · rintro _ ⟨⟩
    exact hc
  · rw [← List.cons_append, List.getLast?_concat]
    rintro _ ⟨⟩
    exact hd

theorem trimEnd_append {b : List Char} (hb : ∀ c ∈ b, isBlank c = true) (s : List Char) :
    trimEnd (s ++ b) = trimEnd s := by
  rw [trimEnd, trimEnd, List.reverse_append,
    List.dropWhile_append_of_pos fun c hc => hb c (List.mem_reverse.1 hc)]

/-- **What is left of a text that was trimmed before is this text**, whatever blanks stand around
it. -/
theorem trim_between {a b s : List Char} (ha : ∀ c ∈ a, isBlank c = true)
    (hb : ∀ c ∈ b, isBlank c = true) (hs : trim s = s) : trim (a ++ s ++ b) = s := by
  have hstart : trim (a ++ (s ++ b)) = trim (s ++ b) := by
    rw [trim, trim, trimStart, trimStart, List.dropWhile_append_of_pos ha]
  rw [List.append_assoc, hstart]
  cases s with
  | nil =>
      have hnil := trimEnd_append (s := []) hb
      rw [List.nil_append] at hnil ⊢
      rw [trim, trimStart, List.dropWhile_eq_nil_iff.2 hb]
      rfl
  | cons c s =>
      have hc : isBlank c = false := isBlank_head_trim hs
      rw [List.cons_append, trim_cons_of_isBlank_eq_false hc, trimEnd_append hb,
        ← trim_cons_of_isBlank_eq_false hc, hs]

theorem trim_trim (s : List Char) : trim (trim s) = trim s := by
  refine trim_eq_self_iff.2 ⟨fun c hc => ?_, fun c hc => isBlank_getLast_trim hc⟩
  obtain ⟨r, hr⟩ := List.head?_eq_some_iff.1 hc
  exact isBlank_head_trim hr

end Quire.Text
