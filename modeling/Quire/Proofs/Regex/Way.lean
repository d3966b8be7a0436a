import Quire.Regex.Place

/-!
# The way from a place to the end of its text

A search looks at the places of a text one after another. This file fixes the order it looks at
them in and what a search along it answers:

* `Place.Reaches p q`: from `p` one comes to `q` by steps of one character. The places reached from
  one place lie on a line (`Reaches.linear`), and the number of bytes left tells them apart
  (`Reaches.eq_of_left_eq`);
* `IsSearch find here`: `find` asks `here` at one place after the other and gives its first answer.
  **Its answers do not depend on where it began**, as long as it began no later
  (`IsSearch.find_of_reaches`, `IsSearch.none_of_reaches`).
-/

namespace Quire.Regex

open Quire.Text

namespace Place

/-! ## 1. Places one step apart -/

/-- A place is told by what stands before it and what follows. -/
theorem eq_of_rest_eq {p q : Place} (hb : p.before = q.before) (hr : p.rest = q.rest) : p = q := by
  obtain ⟨b, rest, n, hn⟩ := p
  obtain ⟨b', rest', n', hn'⟩ := q
  simp only at hb hr
  subst hb hr
  have : n = n' := by rw [hn, hn']
  subst this
  rfl

/-- What a step does: a character passes from what follows to what stands before. -/
theorem rest_of_next? {p q : Place} {c : Char} (h : p.next? = some (c, q)) :
    p.rest = c :: q.rest ∧ q.before = some c := by
  obtain ⟨b, rest, n, hn⟩ := p
  cases rest with
  | nil => simp [next?] at h
  | cons d ds =>
      simp only [next?, Option.some.injEq, Prod.mk.injEq] at h
      obtain ⟨rfl, rfl⟩ := h
      exact ⟨rfl, rfl⟩

theorem left_of_next? {p q : Place} {c : Char} (h : p.next? = some (c, q)) :
    p.left = c.utf8Size + q.left := by
  rw [p.left_eq, q.left_eq, (rest_of_next? h).1, byteSize_cons]

/-- Induction along a text: what holds of a place when it holds of the next one holds of all. -/
@[elab_as_elim]
theorem next_induction {motive : Place → Prop}
    (step : ∀ p, (∀ c q, p.next? = some (c, q) → motive q) → motive p) (p : Place) : motive p :=
  step p fun _ q _ => next_induction step q
  termination_by p.left
  decreasing_by exact left_lt_of_next? ‹_›

/-! ## 2. Places reached by steps -/

/-- From the one place the other is reached by steps of one character. -/
inductive Reaches : Place → Place → Prop where
  | here (p : Place) : Reaches p p
  | step {p q r : Place} {c : Char} : p.next? = some (c, q) → Reaches q r → Reaches p r

namespace Reaches

theorem trans {p q r : Place} (h : Reaches p q) (h' : Reaches q r) : Reaches p r := by
  induction h with
  | here _ => exact h'
  | step hn _ ih => exact .step hn (ih h')

theorem left_le {p q : Place} (h : Reaches p q) : q.left ≤ p.left := by
  induction h with
  | here _ => exact Nat.le_refl _
  | step hn _ ih =>
      have := left_lt_of_next? hn
      omega

theorem left_lt {p q r : Place} {c : Char} (hn : p.next? = some (c, q)) (h : Reaches q r) :
    r.left < p.left :=
  Nat.lt_of_le_of_lt h.left_le (left_lt_of_next? hn)

/-- **The bytes that are left tell the places of a text apart.** -/
theorem eq_of_left_eq {p q : Place} (h : Reaches p q) (e : q.left = p.left) : q = p := by
  cases h with
  | here _ => rfl
  | step hn h' =>
      have := left_lt hn h'
      omega

/-- **The places reached from one place lie on a line.** -/
theorem linear {p q r : Place} (hq : Reaches p q) (hr : Reaches p r) (h : r.left ≤ q.left) :
    Reaches q r := by
  induction hq with
  | here _ => exact hr
  | step hn hq' ih =>
      cases hr with
      | here _ =>
          have := left_lt hn hq'
          omega
      | step hn' hr' =>
          have e := hn.symm.trans hn'
          simp only [Option.some.injEq, Prod.mk.injEq] at e
          obtain ⟨-, rfl⟩ := e
          exact ih hr' h

/-- What follows a place is what lies before a later place, and what follows that. -/
theorem rest_eq {p q : Place} (h : Reaches p q) : p.rest = p.upTo q ++ q.rest := by
  induction h with
  | here p => simp [upTo]
  | @step p q r c hn h' ih =>
      have hl := left_of_next? hn
      have := h'.left_le
      have hu : p.upTo r = c :: q.upTo r := by
        unfold upTo
        rw [(rest_of_next? hn).1, takeBytes, if_pos (by omega)]
        congr 2
        omega
      rw [hu, List.cons_append, ← ih]
      exact (rest_of_next? hn).1

end Reaches

end Place

/-! ## 3. Searching along a text -/

/-- `find` asks `here` at one place after the other, and gives its first answer. -/
structure IsSearch (find here : Place → Option Span) : Prop where
  step : ∀ p, find p = (here p).or (p.next?.bind fun n => find n.2)
  start_eq : ∀ p m, here p = some m → m.start = p

/-- The first answer along a text. -/
def Place.first? (here : Place → Option Span) (p : Place) : Option Span :=
  (here p).or <|
    match _h : p.next? with
    | some (_, q) => q.first? here
    | none => none
  termination_by p.left
  decreasing_by exact Place.left_lt_of_next? _h

theorem Place.first?_step (here : Place → Option Span) (p : Place) :
    p.first? here = (here p).or (p.next?.bind fun n => n.2.first? here) := by
  rw [Place.first?]
  congr 1
  split
  · rename_i c q hn
    rw [hn]
    rfl
  · rename_i hn
    rw [hn]
    rfl

theorem Place.isSearch_first? {here : Place → Option Span}
    (h : ∀ p m, here p = some m → m.start = p) : IsSearch (Place.first? here) here where
  step p := p.first?_step here
  start_eq := h

namespace IsSearch

variable {find here : Place → Option Span} (S : IsSearch find here)

include S

/-- Where nothing is found, there is nothing at any place further on. -/
theorem find_eq_none_iff {p : Place} :
    find p = none ↔ ∀ q, p.Reaches q → here q = none := by
  constructor
  · intro h q hq
    induction hq with
    | here p =>
        rw [S.step p, Option.or_eq_none_iff] at h
        exact h.1
    | step hn _ ih =>
        rw [S.step, hn, Option.or_eq_none_iff] at h
        exact ih h.2
  · intro h
    induction p using Place.next_induction with
    | step p ih =>
      rw [S.step p, h p (.here p), Option.none_or]
      cases hn : p.next? with
      | none => rfl
      | some n => exact ih n.1 n.2 hn fun q hq => h q (.step hn hq)

/-- Places that have no answer can be passed over. -/
theorem find_eq_of_none {p q : Place} (hq : p.Reaches q)
    (h : ∀ r, p.Reaches r → q.left < r.left → here r = none) : find p = find q := by
  induction hq with
  | here _ => rfl
  | @step p q r c hn hr ih =>
      rw [S.step p, h p (.here p) (Place.Reaches.left_lt hn hr), Option.none_or, hn]
      exact ih fun s hs => h s (.step hn hs)

/-- **What is found is the answer at the first place that has one.** -/
theorem find_eq_some_iff {p : Place} {m : Span} :
    find p = some m ↔
      p.Reaches m.start ∧ here m.start = some m ∧
        ∀ q, p.Reaches q → m.start.left < q.left → here q = none := by
  constructor
  · intro h
    induction p using Place.next_induction with
    | step p ih =>
      rw [S.step p] at h
      cases hp : here p with
      | some m' =>
          rw [hp, Option.some_or, Option.some.injEq] at h
          subst h
          have e := S.start_eq p m' hp
          rw [e]
          refine ⟨.here p, hp, fun q hq hlt => ?_⟩
          have := hq.left_le
          omega
      | none =>
          rw [hp, Option.none_or] at h
          obtain ⟨n, hn, hf⟩ := Option.bind_eq_some_iff.1 h
          obtain ⟨hr, hh, hfirst⟩ := ih n.1 n.2 hn hf
          refine ⟨.step hn hr, hh, fun q hq hlt => ?_⟩
          cases hq with
          | here _ => exact hp
          | step hn' hq' =>
              have e := hn.symm.trans hn'
              simp only [Option.some.injEq] at e
              subst e
              exact hfirst q hq' hlt
  · rintro ⟨hr, hh, hfirst⟩
    rw [S.find_eq_of_none hr hfirst, S.step, hh, Option.some_or]

/-- **Begun further on, but not past what is found, the search finds the same.** -/
theorem find_of_reaches {p q : Place} {m : Span} (h : find p = some m) (hq : p.Reaches q)
    (hle : m.start.left ≤ q.left) : find q = some m := by
  obtain ⟨hr, hh, hfirst⟩ := S.find_eq_some_iff.1 h
  exact S.find_eq_some_iff.2 ⟨hq.linear hr hle, hh, fun r hr' => hfirst r (hq.trans hr')⟩

/-- **Where nothing is found, nothing is found from any place further on.** -/
theorem none_of_reaches {p q : Place} (h : find p = none) (hq : p.Reaches q) : find q = none :=
  S.find_eq_none_iff.2 fun r hr => S.find_eq_none_iff.1 h r (hq.trans hr)

end IsSearch

end Quire.Regex
