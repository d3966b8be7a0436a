import Mathlib.Data.List.Basic
import Quire.Proofs.Regex.Way
import Quire.Regex.Automaton

/-!
# Where matches of an expression end

An expression says in which order its ways are preferred: of two alternatives the first, and of a
repetition another round before what comes after it or the other way about, as it is greedy or not.
`Regex.ends` lists the places where the matches that begin at a place end, the preferred one first.

* `Way` is a way through a part, with its rounds: `Way.rounds`, `Way.optional` and `Way.loop`;
* `ends` is the way through an expression, part by part;
* `Regex.isProper` says that no repetition without bound has rounds that take nothing.

**A match ends where it begins or further on, and further on if the expression takes something**
(`goes_ends`). So a loop whose rounds take something is a round and then the loop, or no round
(`Way.loop_eq`).
-/

namespace Quire.Regex

/-! ## 1. Ways -/

/-- A way through a part of an expression: the places where it ends that begins at a place, the preferred
one first. -/
abbrev Way := Place → List Place

/-- Where other rounds end, and the place where there is no other round. -/
def inTurn (greedy : Bool) (again : List Place) (here : Place) : List Place :=
  if greedy then again ++ [here] else here :: again

namespace Way

/-- `n` rounds. -/
def rounds (w : Way) : Nat → Way
  | 0, p => [p]
  | n + 1, p => (w p).flatMap (rounds w n)

/-- At most `n` rounds. -/
def optional (w : Way) (greedy : Bool) : Nat → Way
  | 0, p => [p]
  | n + 1, p => inTurn greedy ((w p).flatMap (optional w greedy n)) p

/-- Any number of rounds, each of which takes something. -/
def loop (w : Way) (greedy : Bool) (p : Place) : List Place :=
  inTurn greedy
    ((w p).flatMap fun q => if _h : q.left < p.left then loop w greedy q else []) p
  termination_by p.left

theorem mem_inTurn {greedy : Bool} {again : List Place} {here q : Place} :
    q ∈ inTurn greedy again here ↔ q = here ∨ q ∈ again := by
  cases greedy with
  | true => simp [inTurn, or_comm]
  | false => simp [inTurn]

/-- The last round is one as well as the first. -/
theorem rounds_succ (w : Way) (n : Nat) (p : Place) :
    w.rounds (n + 1) p = (w.rounds n p).flatMap w := by
  induction n generalizing p with
  | zero => simp [rounds]
  | succ n ih =>
      rw [rounds, rounds, List.flatMap_assoc]
      exact List.flatMap_congr fun q _ => ih q

/-! ## 2. Going further -/

/-- A way ends where it begins or further on, and always further on if `further` holds. -/
def Goes (w : Way) (further : Bool) : Prop :=
  ∀ p, ∀ q ∈ w p, p.Reaches q ∧ (further = true → q.left < p.left)

variable {w v : Way} {greedy f g : Bool}

theorem goes_here : Goes (fun p => [p]) false := by
  intro p q hq
  rw [List.mem_singleton.1 hq]
  exact ⟨.here p, nofun⟩

/-- Of two ways, one after the other, it is enough that one goes further. -/
theorem Goes.comp (hw : w.Goes f) (hv : v.Goes g) :
    Goes (fun p => (w p).flatMap v) (f || g) := by
  intro p r hr
  obtain ⟨q, hq, hr⟩ := List.mem_flatMap.1 hr
  obtain ⟨hpq, hf⟩ := hw p q hq
  obtain ⟨hqr, hg⟩ := hv q r hr
  refine ⟨hpq.trans hqr, fun hfg => ?_⟩
  have h1 := hpq.left_le
  have h2 := hqr.left_le
  rcases Bool.or_eq_true_iff.1 hfg with h | h
  · have := hf h
    omega
  · have := hg h
    omega

/-- A way that goes further is one that may go no further. -/
theorem Goes.weaken (hw : w.Goes f) (hfg : g = true → f = true) : w.Goes g :=
  fun p q hq => ⟨(hw p q hq).1, fun hg => (hw p q hq).2 (hfg hg)⟩

theorem Goes.inTurn (hw : w.Goes f) (greedy : Bool) :
    Goes (fun p => Regex.inTurn greedy (w p) p) false := by
  intro p q hq
  rcases mem_inTurn.1 hq with rfl | hq
  · exact ⟨.here q, nofun⟩
  · exact ⟨(hw p q hq).1, nofun⟩

theorem Goes.rounds (hw : w.Goes f) (n : Nat) : (w.rounds n).Goes (n != 0 && f) := by
  induction n with
  | zero => exact goes_here
  | succ n ih => exact (hw.comp ih).weaken fun h => by simp at h ⊢; exact Or.inl h

theorem Goes.optional (hw : w.Goes f) (greedy : Bool) (n : Nat) :
    (w.optional greedy n).Goes false := by
  cases n with
  | zero => exact goes_here
  | succ n =>
      induction n with
      | zero => exact (hw.comp goes_here).inTurn greedy
      | succ n ih => exact (hw.comp ih).inTurn greedy

theorem Goes.loop (hw : w.Goes f) (greedy : Bool) : Goes (w.loop greedy) false := by
  intro p
  induction hp : p.left using Nat.strongRecOn generalizing p with
  | _ n ih =>
    intro r hr
    refine ⟨?_, nofun⟩
    rw [Way.loop] at hr
    rcases mem_inTurn.1 hr with rfl | hr
    · exact .here r
    · obtain ⟨q, hq, hr⟩ := List.mem_flatMap.1 hr
      split at hr
      · rename_i hlt
        exact (hw p q hq).1.trans (ih q.left (hp ▸ hlt) q rfl r hr).1
      · cases hr

/-- **A loop whose rounds take something is a round and then the loop, or no round.** -/
theorem loop_eq (hw : w.Goes true) (greedy : Bool) (p : Place) :
    w.loop greedy p = inTurn greedy ((w p).flatMap (w.loop greedy)) p := by
  rw [loop]
  congr 1
  exact List.flatMap_congr fun q hq => dif_pos ((hw p q hq).2 rfl)

end Way

/-! ## 3. Expressions -/

/-- The places where the matches of an expression end that begin at a place, the preferred one first. -/
def ends : Regex → Place → List Place
  | empty, p => [p]
  | one set, p =>
    match p.next? with
    | some (c, q) => if set.has c then [q] else []
    | none => []
  | holds a, p => if a.check p then [p] else []
  | seq a b, p => (a.ends p).flatMap b.ends
  | alt a b, p => a.ends p ++ b.ends p
  | group _ a, p => a.ends p
  | times least (some most) greedy a, p =>
    (Way.rounds a.ends least p).flatMap (Way.optional a.ends greedy (most - least))
  | times least none greedy a, p => (Way.rounds a.ends least p).flatMap (Way.loop a.ends greedy)

/-- Whether the rounds of every repetition without bound take something. -/
def isProper : Regex → Bool
  | empty => true
  | one _ => true
  | holds _ => true
  | seq a b => a.isProper && b.isProper
  | alt a b => a.isProper && b.isProper
  | group _ a => a.isProper
  | times _ (some _) _ a => a.isProper
  | times _ none _ a => a.isProper && !a.mayTakeNothing

/-- **A match ends where it begins or further on, and further on if the expression takes
something.** -/
theorem goes_ends (r : Regex) : Way.Goes r.ends (!r.mayTakeNothing) := by
  induction r with
  | empty => exact Way.goes_here
  | one set =>
      intro p q hq
      rw [ends] at hq
      split at hq
      · rename_i c r hn
        split at hq
        · rw [List.mem_singleton.1 hq]
          exact ⟨.step hn (.here r), fun _ => Place.left_lt_of_next? hn⟩
        · cases hq
      · cases hq
  | holds a =>
      intro p q hq
      rw [ends] at hq
      split at hq
      · exact Way.goes_here p q hq
      · cases hq
  | seq a b iha ihb =>
      rw [mayTakeNothing, Bool.not_and]
      exact iha.comp ihb
  | alt a b iha ihb =>
      intro p q hq
      rw [mayTakeNothing, Bool.not_or, Bool.and_eq_true]
      rcases List.mem_append.1 hq with hq | hq
      · exact ⟨(iha p q hq).1, fun h => (iha p q hq).2 h.1⟩
      · exact ⟨(ihb p q hq).1, fun h => (ihb p q hq).2 h.2⟩
  | group _ a ih => exact ih
  | times least most greedy a ih =>
      have hnothing : (!(times least most greedy a).mayTakeNothing) =
          (least != 0 && !a.mayTakeNothing || false) := by
        rw [mayTakeNothing, Bool.not_or, Bool.or_false]
        rfl
      rw [hnothing]
      cases most with
      | some most => exact (ih.rounds least).comp (ih.optional greedy _)
      | none => exact (ih.rounds least).comp (ih.loop greedy)

end Quire.Regex
