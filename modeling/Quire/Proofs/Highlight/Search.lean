import Quire.Highlight.Grammar
import Quire.Proofs.Regex.Leftmost

/-!
# What a pattern finds

A match of a pattern counts if it takes something and its look-ahead is satisfied. `matchAt?` is the
match that counts and begins at one place.

**`find?` gives the match that counts at the first place where one begins** (`find?_eq_first?`): the
automaton gives the first match of all, and after one that does not count the search goes on behind
its beginning, so that no place is passed over without having been asked. The attempts never run
out, since each begins further on than the one before.
-/

namespace Quire.Highlight

open Quire.Regex (IsSearch Place Span)

namespace Pattern

variable {p : Pattern} {q r : Place} {m : Span}

/-- The match that begins at a place, if it counts. -/
def matchAt? (p : Pattern) (q : Place) : Option Span :=
  (p.automaton.matchFrom? q).filter p.accepts

/-- **A match that counts begins where it is looked for, takes something, and ends further on.** -/
theorem of_matchAt? (h : p.matchAt? q = some m) :
    m.start = q ∧ q.Reaches m.stop ∧ m.stop.left < q.left := by
  rw [matchAt?, Option.filter_eq_some_iff] at h
  obtain ⟨hm, hacc⟩ := h
  obtain ⟨hs, hr⟩ := Regex.Automaton.of_matchFrom? hm
  rw [accepts, Bool.and_eq_true, decide_eq_true_eq, hs] at hacc
  exact ⟨hs, hr, hacc.1⟩

/-- **With an attempt for every byte and one for the end, the search comes to the first match that
counts.** -/
theorem search_eq_first? {n : Nat} (h : q.left < n) : p.search n q = q.first? p.matchAt? := by
  have S := p.automaton.isSearch_find?
  have T : IsSearch (Place.first? p.matchAt?) p.matchAt? :=
    Place.isSearch_first? fun _ _ h => (of_matchAt? h).1
  induction n generalizing q with
  | zero => exact absurd h (Nat.not_lt_zero _)
  | succ n ih =>
      rw [search]
      cases hf : p.automaton.find? q with
      | none =>
          have hnone : ∀ r, q.Reaches r → p.matchAt? r = none := fun r hr => by
            rw [matchAt?, S.find_eq_none_iff.1 hf r hr, Option.filter_none]
          exact (T.find_eq_none_iff.2 hnone).symm
      | some m =>
          obtain ⟨hr, hm, hfirst⟩ := S.find_eq_some_iff.1 hf
          have hpass : q.first? p.matchAt? = m.start.first? p.matchAt? :=
            T.find_eq_of_none hr fun r hr' hlt => by
              rw [matchAt?, hfirst r hr' hlt, Option.filter_none]
          rw [hpass, T.step, matchAt?, hm]
          dsimp only
          split
          · rename_i ha
            rw [Option.filter_some_pos ha, Option.some_or]
          · rename_i ha
            rw [Option.filter_some_neg (by simpa using ha), Option.none_or]
            cases hn : m.start.next? with
            | none => rfl
            | some c =>
                have := Place.left_lt_of_next? hn
                have := hr.left_le
                exact ih (by omega)

theorem find?_eq_first? (p : Pattern) (q : Place) : p.find? q = q.first? p.matchAt? :=
  search_eq_first? (Nat.lt_succ_self _)

theorem isSearch_find? (p : Pattern) : IsSearch p.find? p.matchAt? where
  step q := by
    rw [find?_eq_first?, Place.first?_step]
    simp only [find?_eq_first?]
  start_eq _ _ h := (of_matchAt? h).1

/-- **What is found begins at the place where the search began or further on, takes something, and
is the match that counts there.** -/
theorem of_find? (h : p.find? q = some m) :
    q.Reaches m.start ∧ m.start.Reaches m.stop ∧ m.stop.left < m.start.left ∧
      p.matchAt? m.start = some m := by
  obtain ⟨hr, hm, -⟩ := p.isSearch_find?.find_eq_some_iff.1 h
  obtain ⟨-, hs, hl⟩ := of_matchAt? hm
  exact ⟨hr, hs, hl, hm⟩

end Pattern

end Quire.Highlight
