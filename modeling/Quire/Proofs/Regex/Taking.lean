import Quire.Proofs.Regex.Ends

/-!
# What a match takes

What the characters of a text rule out, told from the expression alone. `Regex.firsts` lists the sets that
the first character of a match may be of, and `Regex.musts` sets of each of which a match takes a character
somewhere. **An expression that takes something matches nowhere where the next character is of none of the
first** (`ends_eq_nil_of_firsts`), **and none where what follows lacks one that it needs**
(`ends_eq_nil_of_musts`).

For texts that are written out `Place.facing` is the place in front of a list of characters, and
`ends_one_cons`, `ends_one_nil` and `ends_wordEdge` say what is taken there.
-/

namespace Quire.Regex

open Quire.Text (byteSize byteSize_cons)

/-! ## 1. Places in front of characters -/

namespace Place

/-- The place in front of a list of characters, behind a character or where the text begins. -/
def facing (before : Option Char) (cs : List Char) : Place :=
  ⟨before, cs, byteSize cs, (ofChars cs).left_eq⟩

variable {b : Option Char} {c : Char} {cs : List Char}

@[simp] theorem before_facing : (facing b cs).before = b := rfl

@[simp] theorem rest_facing : (facing b cs).rest = cs := rfl

@[simp] theorem left_facing : (facing b cs).left = byteSize cs := rfl

theorem ofChars_eq_facing (cs : List Char) : ofChars cs = facing none cs := rfl

theorem ofString_ofList (cs : List Char) : ofString (String.ofList cs) = facing none cs := by
  rw [ofString, String.toList_ofList, ofChars_eq_facing]

theorem eq_facing (p : Place) : p = facing p.before p.rest :=
  eq_of_rest_eq rfl rfl

@[simp] theorem next?_facing_cons : (facing b (c :: cs)).next? = some (c, facing (some c) cs) := by
  simp only [facing, next?, byteSize_cons, Nat.add_sub_cancel_left]

end Place

namespace CharSet

theorem has_no_edge (c : Char) : (mk []).has c = false := rfl

/-- From its first edge on a set has the characters that the set of the other edges has not. -/
theorem has_edge_iff {e : Nat} {edges : List Nat} {c : Char} :
    (mk (e :: edges)).has c = true ↔ e ≤ c.toNat ∧ ¬ (mk edges).has c = true := by
  rw [has, inside, Bool.and_eq_true, decide_eq_true_eq, Bool.not_eq_true', ← Bool.not_eq_true]
  rfl

/-- The set of one character has that character only. -/
theorem has_single (c d : Char) : (single c).has d = decide (d = c) := by
  have hlt : ∀ e : Char, e.toNat < limit := fun e => by
    rcases e.valid with h | ⟨-, h⟩
    · exact Nat.lt_trans h (by decide)
    · exact h
  have hd := hlt d
  rw [Bool.eq_iff_iff, decide_eq_true_iff, ← Char.toNat_inj, single, range, between,
    if_neg (Nat.not_succ_le_self _)]
  split <;>
  simp only [has_edge_iff, has_no_edge, Bool.false_eq_true, not_false_eq_true, and_true] <;>
  omega

end CharSet

section

variable {b : Option Char} {c d : Char} {cs : List Char}

@[simp] theorem ends_one_cons (set : CharSet) :
    (one set).ends (.facing b (c :: cs)) = if set.has c then [.facing (some c) cs] else [] := by
  rw [ends, Place.next?_facing_cons]

@[simp] theorem ends_char_cons :
    (char c).ends (.facing b (d :: cs)) = if d = c then [.facing (some d) cs] else [] := by
  rw [char, ends_one_cons, CharSet.has_single]
  exact if_congr decide_eq_true_iff rfl rfl

@[simp] theorem ends_one_nil (set : CharSet) : (one set).ends (.facing b []) = [] := rfl

@[simp] theorem ends_char_nil (c : Char) : (char c).ends (.facing b []) = [] := rfl

theorem mem_ends_wordEdge {p q : Place} :
    q ∈ (holds .wordEdge).ends p ↔ q = p ∧ isWordAt p.before ≠ isWordAt p.rest.head? := by
  rw [ends]
  by_cases h : Assertion.wordEdge.check p = true
  · rw [if_pos h, List.mem_singleton]
    exact (and_iff_left (bne_iff_ne.1 h)).symm
  · rw [if_neg h]
    exact ⟨fun hq => absurd hq List.not_mem_nil, fun hq => absurd (bne_iff_ne.2 hq.2) h⟩

@[simp] theorem ends_wordEdge :
    (holds .wordEdge).ends (.facing b cs) =
      if isWordAt b != isWordAt cs.head? then [.facing b cs] else [] := rfl

end

/-! ## 2. First characters -/

/-- The sets one of which has the first character of a match, if it takes any. -/
def firsts : Regex → List CharSet
  | empty => []
  | one set => [set]
  | holds _ => []
  | seq a b => if a.mayTakeNothing then a.firsts ++ b.firsts else a.firsts
  | alt a b => a.firsts ++ b.firsts
  | group _ a => a.firsts
  | times _ _ _ a => a.firsts

/-- Whether the next character is of one of some sets. -/
def Place.Begins (sets : List CharSet) (p : Place) : Prop :=
  ∃ n, p.next? = some n ∧ ∃ s ∈ sets, s.has n.1 = true

theorem Place.Begins.mono {s t : List CharSet} {p : Place} (h : p.Begins s) (hst : s ⊆ t) :
    p.Begins t := by
  obtain ⟨n, hn, s, hs, hc⟩ := h
  exact ⟨n, hn, s, hst hs, hc⟩

namespace Way

/-- Whether a way that goes anywhere begins with a character of one of some sets. -/
def BeginsWith (w : Way) (sets : List CharSet) : Prop :=
  ∀ p, ∀ q ∈ w p, q = p ∨ p.Begins sets

variable {w v : Way} {s t : List CharSet}

theorem beginsWith_here : BeginsWith (fun p => [p]) s :=
  fun _ _ hq => .inl (List.mem_singleton.1 hq)

theorem BeginsWith.mono (hw : w.BeginsWith s) (hst : s ⊆ t) : w.BeginsWith t :=
  fun p q hq => (hw p q hq).imp_right fun h => h.mono hst

theorem BeginsWith.comp (hw : w.BeginsWith s) (hv : v.BeginsWith s) :
    BeginsWith (fun p => (w p).flatMap v) s := by
  intro p r h
  obtain ⟨q, hq, hr⟩ := List.mem_flatMap.1 h
  rcases hw p q hq with rfl | h
  · exact hv q r hr
  · exact .inr h

theorem BeginsWith.rounds (hw : w.BeginsWith s) (n : Nat) : (w.rounds n).BeginsWith s := by
  induction n with
  | zero => exact beginsWith_here
  | succ n ih => exact hw.comp ih

theorem BeginsWith.optional (hw : w.BeginsWith s) (greedy : Bool) (n : Nat) :
    (w.optional greedy n).BeginsWith s := by
  induction n with
  | zero => exact beginsWith_here
  | succ n ih =>
      intro p q hq
      rcases mem_inTurn.1 hq with rfl | hq
      · exact .inl rfl
      · exact hw.comp ih p q hq

theorem BeginsWith.loop (hw : w.BeginsWith s) (greedy : Bool) :
    BeginsWith (w.loop greedy) s := by
  intro p r hr
  rw [Way.loop] at hr
  rcases mem_inTurn.1 hr with rfl | hr
  · exact .inl rfl
  · obtain ⟨q, hq, hr⟩ := List.mem_flatMap.1 hr
    split at hr
    · rename_i hlt
      rcases hw p q hq with rfl | h
      · exact absurd hlt (Nat.lt_irrefl _)
      · exact .inr h
    · cases hr

end Way

/-- **A match that takes something begins with a character of one of the first sets.** -/
theorem beginsWith_ends (r : Regex) : Way.BeginsWith r.ends r.firsts := by
  induction r with
  | empty => exact Way.beginsWith_here
  | one set =>
      intro p q hq
      rw [ends] at hq
      split at hq
      · rename_i c r hn
        split at hq
        · rename_i hc
          exact .inr ⟨(c, r), hn, set, List.mem_singleton_self set, hc⟩
        · cases hq
      · cases hq
  | holds a =>
      intro p q hq
      rw [ends] at hq
      split at hq
      · exact .inl (List.mem_singleton.1 hq)
      · cases hq
  | seq a b iha ihb =>
      rw [firsts]
      split
      · exact (iha.mono (List.subset_append_left _ _)).comp
          (ihb.mono (List.subset_append_right _ _))
      · rename_i ha
        intro p r hr
        obtain ⟨q, hq, -⟩ := List.mem_flatMap.1 hr
        rcases iha p q hq with rfl | h
        · exact absurd ((goes_ends a q q hq).2 (by simpa using ha)) (Nat.lt_irrefl _)
        · exact .inr h
  | alt a b iha ihb =>
      intro p q hq
      rcases List.mem_append.1 hq with hq | hq
      · exact iha.mono (List.subset_append_left _ _) p q hq
      · exact ihb.mono (List.subset_append_right _ _) p q hq
  | group _ a ih => exact ih
  | times least most greedy a ih =>
      cases most with
      | some most => exact (ih.rounds least).comp (ih.optional greedy _)
      | none => exact (ih.rounds least).comp (ih.loop greedy)

/-- **An expression that takes something matches nowhere where the next character is of none of the first
sets.** -/
theorem ends_eq_nil_of_firsts {r : Regex} {p : Place} (hr : r.mayTakeNothing = false)
    (h : ¬ p.Begins r.firsts) : r.ends p = [] := by
  refine List.eq_nil_iff_forall_not_mem.2 fun q hq => ?_
  rcases beginsWith_ends r p q hq with rfl | hb
  · exact absurd ((goes_ends r q q hq).2 (by rw [hr]; rfl)) (Nat.lt_irrefl _)
  · exact h hb

/-! ## 3. Characters that are needed -/

/-- Sets of each of which every match takes a character. -/
def musts : Regex → List CharSet
  | empty => []
  | one set => [set]
  | holds _ => []
  | seq a b => a.musts ++ b.musts
  | alt _ _ => []
  | group _ a => a.musts
  | times least _ _ a => if least = 0 then [] else a.musts

/-- What follows a later place follows an earlier one. -/
theorem Place.Reaches.mem_rest {p q : Place} (h : p.Reaches q) {c : Char} (hc : c ∈ q.rest) :
    c ∈ p.rest := by
  rw [h.rest_eq]
  exact List.mem_append_right _ hc

/-- **A match takes a character of every set that is needed.** -/
theorem exists_of_mem_musts {r : Regex} {p q : Place} {s : CharSet} (hs : s ∈ r.musts)
    (hq : q ∈ r.ends p) : ∃ c ∈ p.rest, s.has c = true := by
  induction r generalizing p q with
  | empty | holds | alt => cases hs
  | one set =>
      rw [List.mem_singleton.1 hs]
      rw [ends] at hq
      split at hq
      · rename_i c r hn
        split at hq
        · rename_i hc
          exact ⟨c, by rw [(Place.rest_of_next? hn).1]; exact List.mem_cons_self, hc⟩
        · cases hq
      · cases hq
  | seq a b iha ihb =>
      obtain ⟨x, hx, hq⟩ := List.mem_flatMap.1 hq
      rcases List.mem_append.1 hs with hs | hs
      · exact iha hs hx
      · obtain ⟨c, hc, hsc⟩ := ihb hs hq
        exact ⟨c, (goes_ends a p x hx).1.mem_rest hc, hsc⟩
  | group _ a ih => exact ih hs hq
  | times least most greedy a ih =>
      rw [musts] at hs
      cases least with
      | zero => cases hs
      | succ n =>
          rw [if_neg (Nat.succ_ne_zero n)] at hs
          have hround : ∃ x, x ∈ Way.rounds a.ends (n + 1) p := by
            cases most <;> exact (List.mem_flatMap.1 hq).imp fun x hx => hx.1
          obtain ⟨x, hx⟩ := hround
          obtain ⟨y, hy, -⟩ := List.mem_flatMap.1 hx
          exact ih hs hy

/-- **An expression matches nowhere where what follows lacks a character that it needs.** -/
theorem ends_eq_nil_of_musts {r : Regex} {p : Place} {s : CharSet} (hs : s ∈ r.musts)
    (h : ∀ c ∈ p.rest, s.has c = false) : r.ends p = [] := by
  refine List.eq_nil_iff_forall_not_mem.2 fun q hq => ?_
  obtain ⟨c, hc, hsc⟩ := exists_of_mem_musts hs hq
  rw [h c hc] at hsc
  cases hsc

end Quire.Regex
