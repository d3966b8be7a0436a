import Quire.Proofs.Highlight.Rescan

/-!
# The first match that is acceptable

What a search by one pattern answers, said without the search. Byte ranges of a source are
acceptable to a pattern if the preferred match of its expression at the one end is not empty and
stops at the other, and the look-ahead is satisfied by what follows, read as a text of its own
(`IsAcceptable`). Words and the text itself begin where they do in the whole source.

**A search from an offset, also one beyond the end, comes to an end, and answers the acceptable
range that begins first** (`findAt?_eq_some_iff`, `findAt?_eq_none_iff`, `goesOn_iff`). So its answer
is the same from every offset up to where the range begins (`first_acceptable`).
-/

namespace Quire.Highlight

open Quire.Regex (Automaton Place Span)
open Quire.Text (isBoundary slice)

/-! ## 1. Acceptable ranges -/

/-- The offset where the preferred match stops that begins at an offset. -/
def preferredStop? (m : Automaton) (source : String) (start : Nat) : Option Nat :=
  ((Place.at? source start).bind m.matchFrom?).map fun s => s.stop.offset source.utf8ByteSize

/-- Whether a text begins as a look-ahead asks. -/
def Guard.Holds (g : Guard) (after : String) : Prop :=
  (g.automaton.find? (Place.ofString after)).isSome = g.required

namespace Pattern

/-- Whether a part of a source is a match that a search may answer. -/
structure IsAcceptable (p : Pattern) (source : String) (start stop : Nat) : Prop where
  /-- It begins between two characters. -/
  between : isBoundary source.toList start = true
  /-- It is the match that the expression prefers there. -/
  preferred : preferredStop? p.automaton source start = some stop
  /-- It takes something. -/
  nonempty : start < stop
  /-- The look-ahead is satisfied by what follows. -/
  followed : ∀ g ∈ p.guard, g.Holds (slice source stop source.utf8ByteSize)

variable {p : Pattern} {source : String} {pos a b : Nat} {q : Place}

/-- What follows a match is as the look-ahead asks if the rest of the source is. -/
theorem allows_iff (hq : (Place.ofString source).Reaches q) :
    p.allows q = true ↔
      ∀ g ∈ p.guard, g.Holds (slice source (q.offset source.utf8ByteSize) source.utf8ByteSize) := by
  rw [allows, Place.alone_eq_ofString hq]
  cases p.guard with
  | none => simp
  | some g => simp [Guard.Holds]

/-- A match counts if it takes something and is followed as the look-ahead asks. -/
theorem accepts_iff {m : Span} (hq : (Place.ofString source).Reaches q)
    (hm : p.automaton.matchFrom? q = some m) :
    p.accepts m = true ↔
      q.offset source.utf8ByteSize < m.stop.offset source.utf8ByteSize ∧
        ∀ g ∈ p.guard,
          g.Holds (slice source (m.stop.offset source.utf8ByteSize) source.utf8ByteSize) := by
  obtain ⟨hstart, hr⟩ := Automaton.of_matchFrom? hm
  have hq' := Place.offset_add_left hq
  have hs' := Place.offset_add_left (hq.trans hr)
  have hlt : m.stop.left < m.start.left ↔
      q.offset source.utf8ByteSize < m.stop.offset source.utf8ByteSize := by
    rw [hstart]
    omega
  rw [accepts, Bool.and_eq_true, decide_eq_true_eq, hlt, allows_iff (hq.trans hr)]

/-- **The match that counts at an offset is the acceptable range that begins there.** -/
theorem isAcceptable_iff (h : isBoundary source.toList a = true) :
    p.IsAcceptable source a b ↔ p.endAt? source a = some b := by
  obtain ⟨q, hat, hq, rfl⟩ := Place.exists_at? h
  have hstop : preferredStop? p.automaton source (q.offset source.utf8ByteSize) = some b ↔
      ∃ m, p.automaton.matchFrom? q = some m ∧ m.stop.offset source.utf8ByteSize = b := by
    rw [preferredStop?, hat, Option.bind_some, Option.map_eq_some_iff]
  have hend : p.endAt? source (q.offset source.utf8ByteSize) = some b ↔
      ∃ m, (p.automaton.matchFrom? q = some m ∧ p.accepts m = true) ∧
        m.stop.offset source.utf8ByteSize = b := by
    rw [endAt?_offset hq, Option.map_eq_some_iff]
    simp only [matchAt?, Option.filter_eq_some_iff]
  rw [hend]
  constructor
  · intro ha
    obtain ⟨m, hm, rfl⟩ := hstop.1 ha.preferred
    exact ⟨m, ⟨hm, (accepts_iff hq hm).2 ⟨ha.nonempty, ha.followed⟩⟩, rfl⟩
  · rintro ⟨m, ⟨hm, hacc⟩, rfl⟩
    obtain ⟨hlt, hfollowed⟩ := (accepts_iff hq hm).1 hacc
    exact ⟨h, hstop.2 ⟨m, hm, rfl⟩, hlt, hfollowed⟩

theorem IsAcceptable.stop_unique {b' : Nat} (h : p.IsAcceptable source a b)
    (h' : p.IsAcceptable source a b') : b = b' :=
  Option.some.inj (h.preferred.symm.trans h'.preferred)

/-! ## 2. What a search answers -/

/-- What is found is acceptable. -/
theorem isAcceptable_of_findAt? (h : p.findAt? source pos = some (a, b)) :
    p.IsAcceptable source a b := by
  obtain ⟨-, -, hrange⟩ := of_findAt? h
  exact (isAcceptable_iff (Text.isRange_iff.1 hrange).2.1).2 (endAt?_of_findAt? h)

/-- Where a range is acceptable, something is found that begins no later. -/
theorem IsAcceptable.exists_findAt? (h : p.IsAcceptable source a b) (hle : pos ≤ a) :
    ∃ a' b', p.findAt? source pos = some (a', b') ∧ a' ≤ a :=
  exists_findAt?_of_endAt? ((isAcceptable_iff h.between).1 h) h.between hle

/-- **Nothing is found exactly if no range that begins at the offset or further on is
acceptable.** -/
theorem findAt?_eq_none_iff :
    p.findAt? source pos = none ↔ ∀ s e, pos ≤ s → ¬ p.IsAcceptable source s e := by
  constructor
  · intro h s e hle hs
    obtain ⟨a, b, hf, -⟩ := hs.exists_findAt? hle
    rw [h] at hf
    cases hf
  · intro h
    refine Option.eq_none_iff_forall_ne_some.2 fun ⟨a, b⟩ hf => ?_
    exact h a b (of_findAt? hf).1 (isAcceptable_of_findAt? hf)

/-- **A range is found exactly if it is acceptable and none that begins before it, at the offset or
further on, is.** -/
theorem findAt?_eq_some_iff :
    p.findAt? source pos = some (a, b) ↔
      pos ≤ a ∧ p.IsAcceptable source a b ∧
        ∀ s e, pos ≤ s → s < a → ¬ p.IsAcceptable source s e := by
  constructor
  · intro h
    refine ⟨(of_findAt? h).1, isAcceptable_of_findAt? h, fun s e hle hlt hs => ?_⟩
    obtain ⟨a', b', hf, ha'⟩ := hs.exists_findAt? hle
    rw [h, Option.some.injEq, Prod.mk.injEq] at hf
    omega
  · rintro ⟨hle, ha, hfirst⟩
    obtain ⟨a', b', hf, ha'⟩ := ha.exists_findAt? hle
    have hs := isAcceptable_of_findAt? hf
    obtain rfl : a' = a := by
      refine Nat.le_antisymm ha' (Nat.le_of_not_lt fun hlt => ?_)
      exact hfirst a' b' (of_findAt? hf).1 hlt hs
    rw [hf, hs.stop_unique ha]

/-! ## 3. How the search comes to its answer -/

/-- The search from a place on as it goes on, with no number of attempts set: an attempt that finds
nothing or a match that counts is the last one, and after one that finds a match that does not count
the next begins a character behind where that match begins, if there is one. -/
inductive GoesOn (p : Pattern) : Place → Option Span → Prop where
  | nothing {q : Place} : p.automaton.find? q = none → GoesOn p q none
  | found {q : Place} {m : Span} : p.automaton.find? q = some m → p.accepts m = true →
      GoesOn p q (some m)
  | again {q next : Place} {m : Span} {c : Char} {answer : Option Span} :
      p.automaton.find? q = some m → p.accepts m = false → m.start.next? = some (c, next) →
      GoesOn p next answer → GoesOn p q answer
  | ended {q : Place} {m : Span} : p.automaton.find? q = some m → p.accepts m = false →
      m.start.next? = none → GoesOn p q none

/-- One attempt of the search, and what is left to be done after it. -/
theorem find?_eq_step (p : Pattern) (q : Place) :
    p.find? q = match p.automaton.find? q with
      | none => none
      | some m =>
        if p.accepts m then some m
        else
          match m.start.next? with
          | some (_, next) => p.find? next
          | none => none := by
  rw [find?, search]
  cases hf : p.automaton.find? q with
  | none => rfl
  | some m =>
      dsimp only
      split
      · rfl
      · cases hn : m.start.next? with
        | none => rfl
        | some c =>
            have hlt := Place.left_lt_of_next? hn
            have hle := (p.automaton.isSearch_find?.find_eq_some_iff.1 hf).1.left_le
            dsimp only
            rw [find?_eq_first?, search_eq_first? (by omega)]

/-- **The search comes to an end, and to no other answer than `find?`.** -/
theorem goesOn_iff {answer : Option Span} : p.GoesOn q answer ↔ answer = p.find? q := by
  constructor
  · intro h
    induction h with
    | nothing hf => rw [find?_eq_step, hf]
    | found hf ha => rw [find?_eq_step, hf]; simp only [ha, if_true]
    | again hf ha hn _ ih => rw [find?_eq_step, hf]; simp only [ha, hn, ih]; rfl
    | ended hf ha hn => rw [find?_eq_step, hf]; simp only [ha, hn]; rfl
  · rintro rfl
    -- every attempt begins further on than the one before
    induction hl : q.left using Nat.strong_induction_on generalizing q with
    | _ n ih =>
      rw [find?_eq_step]
      cases hf : p.automaton.find? q with
      | none => exact .nothing hf
      | some m =>
          have hle := (p.automaton.isSearch_find?.find_eq_some_iff.1 hf).1.left_le
          dsimp only
          split
          · rename_i ha
            exact .found hf ha
          · rename_i ha
            have ha' : p.accepts m = false := by simpa using ha
            cases hn : m.start.next? with
            | none => exact .ended hf ha' hn
            | some c =>
                have hlt := Place.left_lt_of_next? hn
                exact .again hf ha' hn (ih c.2.left (by omega) rfl)

/-- **A pattern is searched for the acceptable range that begins first.** The search from an offset
comes to an end, with one answer; this is the range that is acceptable while none is that begins
before it, at the offset or further on; and there is no answer exactly if none is acceptable that
begins there or further on, as at every offset beyond the end. Hence the answer is the same from
every offset up to where the range begins, and if there is none, there is none from any offset
further on. -/
theorem first_acceptable (p : Pattern) (source : String) (pos : Nat) :
    (∀ q, Place.at? source pos = some q → ∀ answer, p.GoesOn q answer ↔ answer = p.find? q) ∧
    (∀ a b, p.findAt? source pos = some (a, b) ↔
      pos ≤ a ∧ p.IsAcceptable source a b ∧
        ∀ s e, pos ≤ s → s < a → ¬ p.IsAcceptable source s e) ∧
    (p.findAt? source pos = none ↔ ∀ s e, pos ≤ s → ¬ p.IsAcceptable source s e) ∧
    (∀ a b pos', p.findAt? source pos = some (a, b) → pos ≤ pos' → pos' ≤ a →
      p.findAt? source pos' = some (a, b)) ∧
    ∀ pos', p.findAt? source pos = none → pos ≤ pos' → p.findAt? source pos' = none := by
  refine ⟨fun q _ answer => goesOn_iff, fun a b => findAt?_eq_some_iff, findAt?_eq_none_iff,
    fun a b pos' h hle hle' => ?_, fun pos' h hle => ?_⟩
  · obtain ⟨-, ha, hfirst⟩ := findAt?_eq_some_iff.1 h
    exact findAt?_eq_some_iff.2 ⟨hle', ha, fun s e hs => hfirst s e (hle.trans hs)⟩
  · exact findAt?_eq_none_iff.2 fun s e hs => findAt?_eq_none_iff.1 h s e (hle.trans hs)

end Pattern

end Quire.Highlight
