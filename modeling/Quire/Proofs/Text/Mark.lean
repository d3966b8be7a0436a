import Quire.Proofs.Text.Chars
import Quire.Text.Mark

/-!
# Where marks stand

When a mark is found, and where. A text that does not hold the first character of a mark does not
hold the mark, so the text before a mark is read up to it (`upTo?_append`), and nothing is found
where that character is missing (`upTo?_eq_none`). **What follows a text without that character does
not change what is found in it** (`upTo?_append_right`).

A mark may stand more than once on a line. Then the first is found, so some mark is found wherever one
follows (`exists_upTo?_append`), and it is the one that was written if none stands before it
(`upTo?_pair_append`). A mark of two characters may also stand across the place where two texts meet
(`pair_infix_append`).
-/

namespace Quire.Text

/-! ## 1. A mark at the front -/

theorem dropMark?_append (mark s : List Char) : dropMark? mark (mark ++ s) = some s := by
  induction mark with
  | nil => rfl
  | cons m ms ih => rw [List.cons_append, dropMark?, if_pos rfl, ih]

/-- A mark that ends with a character it does not hold before stands at the front of a text that it ends
only if it is the text, or stands in front of what it ends. -/
theorem prefix_of_prefix_append {m t : List Char} {e : Char} (he : e ∉ m) (ht : t ≠ [])
    (h : m ++ [e] <+: t ++ (m ++ [e])) : m ++ [e] <+: t := by
  obtain ⟨z, hz⟩ := h
  rw [List.append_assoc, List.singleton_append] at hz
  rcases List.append_eq_append_iff.1 hz with ⟨x, rfl, hx⟩ | ⟨x, rfl, hx⟩
  · cases x with
    | nil =>
        -- then the mark is its last character, and the text begins with nothing
        cases m with
        | nil => exact absurd rfl ht
        | cons c m => exact absurd (List.cons.inj hx).1 fun h => he (h ▸ List.mem_cons_self)
    | cons c x =>
        rw [(List.cons.inj hx).1]
        exact ⟨x, by rw [List.append_assoc, List.singleton_append]⟩
  · -- the last character of the mark in front would stand in it before
    rw [List.append_assoc] at hx
    obtain ⟨y, hy, -⟩ := exists_of_append_eq he ((List.append_assoc t x [e]).trans hx)
    have hlen := congrArg List.length hy
    have htlen := List.length_pos_iff.2 ht
    simp only [List.length_append] at hlen
    omega

/-- A mark is not found where another character stands. -/
theorem dropMark?_cons_of_ne {m c : Char} (h : m ≠ c) (ms cs : List Char) :
    dropMark? (m :: ms) (c :: cs) = none := by
  rw [dropMark?, if_neg h]

/-- More text that holds no character of a mark does not change whether it is found. -/
theorem dropMark?_append_right {mark b : List Char} (h : ∀ c ∈ mark, c ∉ b) (s : List Char) :
    dropMark? mark (s ++ b) = (dropMark? mark s).map (· ++ b) := by
  induction mark generalizing s with
  | nil => rfl
  | cons m ms ih =>
      have hms : ∀ c ∈ ms, c ∉ b := fun c hc => h c (List.mem_cons_of_mem _ hc)
      cases s with
      | cons c s =>
          rw [List.cons_append, dropMark?, dropMark?]
          by_cases hm : m = c
          · rw [if_pos hm, if_pos hm, ih hms]
          · rw [if_neg hm, if_neg hm]
            rfl
      | nil =>
          cases b with
          | nil => rfl
          | cons c b =>
              have hm : m ≠ c := fun e => h m List.mem_cons_self (e ▸ List.mem_cons_self)
              rw [List.nil_append, dropMark?_cons_of_ne hm]
              rfl

/-! ## 2. The next mark -/

variable {m : Char}

/-- **A text without the first character of a mark is read up to the mark that follows it.** -/
theorem upTo?_append (ms : List Char) {a : List Char} (ha : m ∉ a) (hfeed : '\n' ∉ a)
    (r : List Char) : upTo? (m :: ms) (a ++ m :: ms ++ r) = some (a, r) := by
  induction a with
  | nil =>
      have hdrop : dropMark? (m :: ms) (m :: (ms ++ r)) = some r := dropMark?_append (m :: ms) r
      rw [List.nil_append, List.cons_append, upTo?, hdrop]
  | cons c a ih =>
      rw [List.mem_cons, not_or] at ha hfeed
      rw [List.cons_append, List.cons_append, upTo?, dropMark?_cons_of_ne ha.1]
      dsimp only
      rw [if_neg fun e => hfeed.1 e.symm, ih ha.2 hfeed.2]
      rfl

/-- No mark is found in a text without its first character. -/
theorem upTo?_eq_none {ms s : List Char} (h : m ∉ s) : upTo? (m :: ms) s = none := by
  induction s with
  | nil => rfl
  | cons c s ih =>
      rw [List.mem_cons, not_or] at h
      rw [upTo?, dropMark?_cons_of_ne h.1]
      dsimp only
      rw [ih h.2]
      exact ite_self _

/-- **More text that holds no character of a mark does not change where it is found.** -/
theorem upTo?_append_right {mark b : List Char} (hne : mark ≠ []) (h : ∀ c ∈ mark, c ∉ b)
    (s : List Char) : upTo? mark (s ++ b) = (upTo? mark s).map fun p => (p.1, p.2 ++ b) := by
  obtain ⟨m, ms, rfl⟩ := List.exists_cons_of_ne_nil hne
  induction s with
  | nil =>
      rw [List.nil_append, upTo?_eq_none (h m List.mem_cons_self)]
      rfl
  | cons c s ih =>
      have hdrop := dropMark?_append_right h (c :: s)
      rw [List.cons_append] at hdrop ⊢
      rw [upTo?, upTo?, hdrop]
      cases dropMark? (m :: ms) (c :: s) with
      | some r => rfl
      | none =>
          dsimp only [Option.map_none]
          by_cases hc : c = '\n'
          · rw [if_pos hc, if_pos hc]
            rfl
          · rw [if_neg hc, if_neg hc, ih, Option.map_map, Option.map_map]
            rfl

/-! ## 3. On one line -/

theorem upTo?_of_dropMark? {mark s rest : List Char} (h : dropMark? mark s = some rest) :
    upTo? mark s = some ([], rest) := by
  cases s with
  | nil => rw [upTo?, h, Option.map_some]
  | cons c s => rw [upTo?, h]

/-- What is read up to a mark lies on one line. -/
theorem newline_not_mem_of_upTo? {mark s a rest : List Char} (h : upTo? mark s = some (a, rest)) :
    '\n' ∉ a := by
  induction s generalizing a with
  | nil =>
      obtain ⟨_, -, he⟩ := Option.map_eq_some_iff.1 h
      rw [← (Prod.mk.inj he).1]
      exact List.not_mem_nil
  | cons c s ih =>
      rw [upTo?] at h
      split at h
      · rw [← (Prod.mk.inj (Option.some.inj h)).1]
        exact List.not_mem_nil
      · split at h
        · cases h
        · rename_i hc
          obtain ⟨⟨b, r⟩, hb, he⟩ := Option.map_eq_some_iff.1 h
          obtain ⟨rfl, rfl⟩ := Prod.mk.inj he
          rw [List.mem_cons, not_or]
          exact ⟨fun e => hc e.symm, ih hb⟩

/-- **A mark that follows on the same line is found**, there or before, and what follows it is what is
left of the line and the rest. -/
theorem exists_upTo?_append {a : List Char} (mark : List Char) (hmark : '\n' ∉ mark) (ha : '\n' ∉ a)
    (r : List Char) : ∃ b x, upTo? mark (a ++ mark ++ r) = some (b, x ++ r) ∧ '\n' ∉ x := by
  induction a with
  | nil => exact ⟨[], [], upTo?_of_dropMark? (dropMark?_append mark r), List.not_mem_nil⟩
  | cons c a ih =>
      cases hdrop : dropMark? mark (c :: a ++ mark ++ r) with
      | some found =>
          rcases List.append_eq_append_iff.1 (eq_append_of_dropMark? hdrop) with
            ⟨b, hb, -⟩ | ⟨x, hx, rfl⟩
          · -- the mark would hold itself and more
            have := congrArg List.length hb
            simp only [List.cons_append, List.length_cons, List.length_append] at this
            omega
          · refine ⟨[], x, upTo?_of_dropMark? hdrop, fun hmem => ?_⟩
            have hline : '\n' ∈ c :: a ++ mark := hx ▸ List.mem_append_right mark hmem
            exact (List.mem_append.1 hline).elim ha hmark
      | none =>
          rw [List.mem_cons, not_or] at ha
          obtain ⟨b, x, hx, hfeed⟩ := ih ha.2
          refine ⟨c :: b, x, ?_, hfeed⟩
          rw [List.cons_append, List.cons_append] at hdrop ⊢
          rw [upTo?, hdrop]
          dsimp only
          rw [if_neg fun e => ha.1 e.symm, hx]
          rfl

/-- **A mark of two characters is found where it is written**, if it stands nowhere before. -/
theorem upTo?_pair_append {m n : Char} (hmn : m ≠ n) {a : List Char} (ha : ¬ [m, n] <:+: a)
    (hfeed : '\n' ∉ a) (r : List Char) : upTo? [m, n] (a ++ [m, n] ++ r) = some (a, r) := by
  induction a with
  | nil => exact upTo?_of_dropMark? (dropMark?_append [m, n] r)
  | cons c a ih =>
      have hdrop : dropMark? [m, n] (c :: (a ++ [m, n] ++ r)) = none := by
        by_cases hc : m = c
        · rw [dropMark?, if_pos hc]
          cases a with
          | nil => exact dropMark?_cons_of_ne hmn.symm _ _
          | cons d a =>
              refine dropMark?_cons_of_ne (fun hd => ha ?_) _ _
              exact ⟨[], a, by rw [hc, hd]; rfl⟩
        · exact dropMark?_cons_of_ne hc _ _
      rw [List.mem_cons, not_or] at hfeed
      rw [List.cons_append, List.cons_append, upTo?, hdrop]
      dsimp only
      rw [if_neg fun e => hfeed.1 e.symm, ih (fun h => ha (List.infix_cons h)) hfeed.2]
      rfl

/-- Two characters side by side in a text that is cut in two stand in one of the parts, or at either
side of the cut. -/
theorem pair_infix_append {m n : Char} {a b : List Char} (h : [m, n] <:+: a ++ b) :
    [m, n] <:+: a ∨ [m, n] <:+: b ∨ (a.getLast? = some m ∧ b.head? = some n) := by
  induction a with
  | nil => exact .inr (.inl h)
  | cons c a ih =>
      rcases List.infix_cons_iff.1 h with hfront | hin
      · obtain ⟨rfl, hn⟩ := List.cons_prefix_cons.1 hfront
        cases a with
        | nil =>
            obtain ⟨back, rfl⟩ := hn
            exact .inr (.inr ⟨rfl, rfl⟩)
        | cons d a =>
            obtain ⟨rfl, -⟩ := List.cons_prefix_cons.1 hn
            exact .inl ⟨[], a, rfl⟩
      · rcases ih hin with ha | hb | ⟨hm, hn⟩
        · exact .inl (List.infix_cons ha)
        · exact .inr (.inl hb)
        · refine .inr (.inr ⟨?_, hn⟩)
          rw [List.getLast?_cons, hm]
          rfl

/-- Two characters that stand side by side in a text stand there first at some place. -/
theorem exists_first_pair {m n : Char} {s : List Char} (h : [m, n] <:+: s) :
    ∃ a b, s = a ++ m :: n :: b ∧ ¬ [m, n] <:+: a := by
  induction s with
  | nil => cases List.eq_nil_of_infix_nil h
  | cons c s ih =>
      by_cases hfront : [m, n] <+: c :: s
      · obtain ⟨b, hb⟩ := hfront
        refine ⟨[], b, hb.symm, fun hnil => ?_⟩
        cases List.eq_nil_of_infix_nil hnil
      · obtain ⟨a, b, rfl, ha⟩ := ih ((List.infix_cons_iff.1 h).resolve_left hfront)
        refine ⟨c :: a, b, rfl, fun hin => ?_⟩
        rcases List.infix_cons_iff.1 hin with hin | hin
        · exact hfront (hin.trans (List.prefix_append (c :: a) (m :: n :: b)))
        · exact ha hin

end Quire.Text
