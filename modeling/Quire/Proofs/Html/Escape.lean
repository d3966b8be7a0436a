import Quire.Html.Escape
import Quire.Proofs.Text.Chars

/-!
# What escaped text holds

Neither angle brackets nor double quotes are left in an escaped text (`escapeChars_special`), so it
can stand between tags, and between the quotes of an attribute, without being taken for their end.
Nothing else but entities is put into it (`forall_mem_escapeChars`). In the other direction, markup
may be read part by part where a character stands that is in no entity
(`unescapeChars_append_cons`).
-/

namespace Quire.Html

/-- Neither an angle bracket nor a double quote is left of an escaped character. -/
theorem escapeChar_special (d : Char) :
    ∀ c ∈ escapeChar d, c ≠ '<' ∧ c ≠ '>' ∧ c ≠ '\x22' := by
  unfold escapeChar
  split
  · decide
  split
  · decide
  split
  · decide
  split
  · decide
  split
  · decide
  · rename_i h1 h2 h3 _
    intro c hc
    rw [List.mem_singleton] at hc
    rw [hc]
    exact ⟨h1, h2, h3⟩

/-- **Neither an angle bracket nor a double quote is left in an escaped text.** -/
theorem escapeChars_special {s : List Char} {c : Char} (h : c ∈ escapeChars s) :
    c ≠ '<' ∧ c ≠ '>' ∧ c ≠ '\x22' := by
  obtain ⟨d, -, hd⟩ := List.mem_flatMap.1 h
  exact escapeChar_special d c hd

theorem escapeChars_ne_nil {s : List Char} (h : s ≠ []) : escapeChars s ≠ [] := by
  intro he
  apply h
  rw [← unescapeChars_escapeChars s, he]
  rfl

/-- The five entities, one after the other. -/
def entities : List Char := "&amp;&lt;&gt;&quot;&#x27;".toList

/-- An escaped character is the character itself or an entity. -/
theorem escapeChar_cases (d : Char) :
    escapeChar d = [d] ∨ ∀ c ∈ escapeChar d, c ∈ entities := by
  unfold escapeChar
  split
  · exact .inr (by decide)
  split
  · exact .inr (by decide)
  split
  · exact .inr (by decide)
  split
  · exact .inr (by decide)
  split
  · exact .inr (by decide)
  · exact .inl rfl

/-- **What holds of the characters of a text and of those of entities holds in the escaped text.** -/
theorem forall_mem_escapeChars {P : Char → Prop} {s : List Char}
    (hentity : ∀ c ∈ entities, P c) (h : ∀ c ∈ s, P c) :
    ∀ c ∈ escapeChars s, P c := by
  intro c hc
  obtain ⟨d, hd, hc⟩ := List.mem_flatMap.1 hc
  rcases escapeChar_cases d with he | he
  · rw [he, List.mem_singleton] at hc
    rw [hc]
    exact h d hd
  · exact hentity c (he c hc)

/-- Escaping brings in the characters of entities only. -/
theorem not_mem_escapeChars {c : Char} {s : List Char} (hc : c ∉ entities) (h : c ∉ s) :
    c ∉ escapeChars s := by
  intro hmem
  have hne : ∀ d ∈ escapeChars s, d ≠ c :=
    forall_mem_escapeChars (fun _ hd => ne_of_mem_of_not_mem hd hc)
      (fun _ hd => ne_of_mem_of_not_mem hd h)
  exact hne c hmem rfl

/-- **A character that is in no entity parts a text into two that are read each by itself.** -/
theorem unescapeChars_append_cons {c : Char} (hc : c ∉ entities) (s t : List Char) :
    unescapeChars (s ++ c :: t) = unescapeChars s ++ unescapeChars (c :: t) := by
  fun_induction unescapeChars s with
  | case1 r ih | case2 r ih | case3 r ih | case4 r ih | case5 r ih =>
      simp only [List.cons_append]
      rw [unescapeChars, ih]
  | case6 d r h1 h2 h3 h4 h5 ih =>
      -- an entity that begins with `d` would end before `c`, so it would have been one without it
      have hbefore (w u : List Char) (hw : ∀ x ∈ w, x ∈ entities) (h : r ++ c :: t = w ++ u) :
          ∃ v, r = w ++ v := by
        obtain ⟨v, hv, -⟩ := Text.exists_of_append_eq (fun hm => hc (hw c hm)) h.symm
        exact ⟨v, hv⟩
      rw [List.cons_append, unescapeChars, ih, List.cons_append]
      · rintro u hd h
        obtain ⟨v, hv⟩ := hbefore ['a', 'm', 'p', ';'] u (by decide) h
        exact h1 v hd hv
      · rintro u hd h
        obtain ⟨v, hv⟩ := hbefore ['l', 't', ';'] u (by decide) h
        exact h2 v hd hv
      · rintro u hd h
        obtain ⟨v, hv⟩ := hbefore ['g', 't', ';'] u (by decide) h
        exact h3 v hd hv
      · rintro u hd h
        obtain ⟨v, hv⟩ := hbefore ['q', 'u', 'o', 't', ';'] u (by decide) h
        exact h4 v hd hv
      · rintro u hd h
        obtain ⟨v, hv⟩ := hbefore ['#', 'x', '2', '7', ';'] u (by decide) h
        exact h5 v hd hv
  | case7 => rfl

/-- What is read is no longer than what was written. -/
theorem length_unescapeChars_le (s : List Char) : (unescapeChars s).length ≤ s.length := by
  fun_induction unescapeChars s with
  | case1 r ih | case2 r ih | case3 r ih | case4 r ih | case5 r ih =>
      simp only [List.length_cons]
      omega
  | case6 d r _ _ _ _ _ ih => exact Nat.succ_le_succ ih
  | case7 => exact Nat.le_refl 0

end Quire.Html
