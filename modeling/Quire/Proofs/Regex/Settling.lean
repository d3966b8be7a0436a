import Mathlib.Logic.Relation
import Quire.Proofs.Regex.Ends
import Quire.Proofs.Regex.Held

/-!
# What a state comes to

An automaton enters no state twice at a place. That changes nothing where entering one state after
another comes to an end by itself (`Settles`): **there a state comes to what the first of the states comes
to that it leads to and that come to anything** (`stop?_eq_findSome?`). From it each kind of state has an
equation of its own, in the terms of the places where a match may end (`stop?_take`, `stop?_check`,
`stop?_fork`, `stop?_turn`).
-/

namespace Quire.Regex.Automaton

open Relation (ReflTransGen TransGen)

variable {m : Automaton} {p : Place}

/-! ## 1. States that settle -/

/-- Going on from a state at a place, without taking a character, comes to an end whichever way it
goes. -/
def Settles (m : Automaton) (p : Place) (i : Nat) : Prop :=
  Acc (fun j i => j ∈ successors m p i) i

/-- One does not come back to a state that settles. -/
theorem Settles.not_transGen {i : Nat} (h : Settles m p i) :
    ¬ TransGen (fun i j => j ∈ successors m p i) i i := by
  induction h with
  | intro i _ ih =>
      intro hi
      obtain ⟨j, hij, hji⟩ := TransGen.head'_iff.1 hi
      exact ih j hij (TransGen.tail' hji hij)

/-- What is entered is led to by one of the states listed. -/
theorem Visits.reachable {V : Set Nat} {todo r : List Nat} (h : Visits m p V todo r) :
    ∀ x ∈ r, ∃ t ∈ todo, ReflTransGen (fun i j => j ∈ successors m p i) t x := by
  induction h with
  | done => exact nofun
  | pass _ _ ih =>
      intro x hx
      obtain ⟨t, ht, hr⟩ := ih x hx
      exact ⟨t, List.mem_cons_of_mem _ ht, hr⟩
  | @enter V i todo r _ _ ih =>
      intro x hx
      rcases List.mem_cons.1 hx with rfl | hx
      · exact ⟨x, List.mem_cons_self, .refl⟩
      · obtain ⟨t, ht, hr⟩ := ih x hx
        rcases List.mem_append.1 ht with ht | ht
        · exact ⟨i, List.mem_cons_self, .head ht hr⟩
        · exact ⟨t, List.mem_cons_of_mem _ ht, hr⟩

/-- States are entered one after the other. -/
theorem Visits.append {V : Set Nat} {a b r s : List Nat} (h : Visits m p V a r)
    (h' : Visits m p ({i | i ∈ r} ∪ V) b s) : Visits m p V (a ++ b) (r ++ s) := by
  induction h with
  | done => simpa using h'
  | pass hV _ ih => exact .pass hV (ih h')
  | @enter V i todo r hi _ ih =>
      have hsets : {j | j ∈ i :: r} ∪ V = {j | j ∈ r} ∪ Insert.insert i V := by
        ext j
        simp only [List.mem_cons, Set.mem_union, Set.mem_ofPred_eq, Set.mem_insert_iff]
        tauto
      rw [hsets] at h'
      exact .enter hi ((List.append_assoc _ _ _).symm ▸ ih h')

theorem exists_visits (m : Automaton) (p : Place) (f : Front) (todo : List Nat) :
    ∃ r, Visits m p f.states todo r := by
  obtain ⟨r, hv, -⟩ := visits_enter (m := m) (p := p) p (f := f) (Nat.le_refl _)
  exact ⟨r, hv⟩

/-- **States that are entered one after the other are worth what the first of them comes to that comes
to an end.** -/
theorem first?_addAll {todo r : List Nat} {f : Front} (hf : f.Sound m p)
    (h : Visits m p f.states todo r) :
    (f.addAll m p r).first? m p =
      (f.first? m p).or ((todo.findSome? (m.stop? p)).map (Span.mk p)) := by
  induction todo generalizing f r with
  | nil =>
      cases h
      exact Option.or_none.symm
  | cons i todo ih =>
      obtain ⟨r₁, hv₁, he₁⟩ := visits_enterOne (m := m) (p := p) p i f
      have hsound := sound_enterOne p i hf
      have hfirst := first?_enterOne p i hf
      rw [he₁] at hsound hfirst
      obtain ⟨r₂, hv₂⟩ := exists_visits m p (f.addAll m p r₁) todo
      have hrest := ih hsound hv₂
      rw [Front.states_addAll] at hv₂
      rw [h.unique (hv₁.append hv₂), Front.addAll, List.foldl_append, ← Front.addAll,
        ← Front.addAll, hrest, hfirst, Option.or_assoc, List.findSome?_cons]
      cases m.stop? p i <;> rfl

theorem stop?_eq_first? {i : Nat} {r : List Nat} (h : Visits m p ∅ [i] r) :
    (m.stop? p i).map (Span.mk p) = Front.first? m p (Front.addAll m p r {}) := by
  rw [← Front.states_empty] at h
  rw [first?_addAll Front.sound_empty h, Front.first?_empty, Option.none_or]
  simp

/-- **A state that settles, and in which no thread waits, comes to what the first of those comes to that
it leads to.** -/
theorem stop?_eq_findSome? {i : Nat} (h : Settles m p i) (hw : m.isWaiting i = false) :
    m.stop? p i = (successors m p i).findSome? (m.stop? p) := by
  obtain ⟨r, hv⟩ := exists_visits m p {} (successors m p i)
  have hnot : i ∉ r := by
    intro hi
    obtain ⟨t, ht, hr⟩ := hv.reachable i hi
    exact h.not_transGen (TransGen.head' ht hr)
  have hspan := first?_addAll Front.sound_empty hv
  rw [Front.states_empty] at hv
  have hvisits : Visits m p ∅ [i] (i :: r) :=
    .enter (Set.notMem_empty _) (by rw [List.append_nil]; exact hv.insert hnot)
  have hsame : Front.first? m p (Front.addAll m p (i :: r) {}) =
      Front.first? m p (Front.addAll m p r {}) := by
    rw [Front.first?, Front.first?, Front.threads_addAll, Front.threads_addAll,
      List.filter_cons_of_neg (by simp [hw])]
  have heq := stop?_eq_first? hvisits
  rw [hsame, hspan, Front.first?_empty, Option.none_or] at heq
  exact Option.map_injective (fun _ _ he => (Span.mk.inj he).2) heq

/-! ## 2. What a state comes to -/

section

variable {i : Nat}

theorem successors_of_isWaiting (h : m.isWaiting i = true) : successors m p i = [] := by
  unfold isWaiting at h
  unfold successors
  split at h
  · rename_i hs
    rw [hs]
  · rename_i hs
    rw [hs]
  · cases h

theorem settles_of_isWaiting (h : m.isWaiting i = true) : Settles m p i := by
  refine .intro i fun j hj => ?_
  rw [successors_of_isWaiting h] at hj
  cases hj

/-- A thread that waits in a state is all that the state brings up. -/
theorem stop?_of_isWaiting (h : m.isWaiting i = true) : m.stop? p i = m.stopFrom? p i := by
  have hvisits : Visits m p ∅ [i] [i] :=
    .enter (Set.notMem_empty _) (by rw [successors_of_isWaiting h]; exact .done)
  rw [stop?, waiting_eq hvisits, List.filter_cons_of_pos h]
  simp

theorem stop?_accept (h : m.states[i]? = some .accept) : m.stop? p i = some p := by
  rw [stop?_of_isWaiting (by rw [isWaiting, h]), stopFrom?_of_accepts (by rw [accepts, h])]

theorem stop?_take {set : CharSet} {next : Nat} (h : m.states[i]? = some (.take set next)) :
    m.stop? p i = ((one set).ends p).findSome? (m.stop? · next) := by
  have hnot : m.accepts i = false := by rw [accepts, h]
  rw [stop?_of_isWaiting (by rw [isWaiting, h]), ends]
  cases hn : p.next? with
  | none =>
      rw [stopFrom?_of_end hnot hn]
      rfl
  | some n =>
      obtain ⟨c, q⟩ := n
      rw [stopFrom?_of_next? hnot hn, stopAfter?, h]
      dsimp only
      split
      · simp
      · rfl

theorem settles_check {a : Assertion} {next : Nat} (h : m.states[i]? = some (.check a next))
    (hnext : Settles m p next) : Settles m p i := by
  refine .intro i fun j hj => ?_
  rw [successors, h] at hj
  dsimp only at hj
  split at hj
  · rw [List.mem_singleton.1 hj]
    exact hnext
  · cases hj

theorem stop?_of_check {a : Assertion} {next : Nat} (h : m.states[i]? = some (.check a next))
    (hi : Settles m p i) : m.stop? p i = ((holds a).ends p).findSome? (m.stop? · next) := by
  rw [stop?_eq_findSome? hi (by rw [isWaiting, h]), successors, h, ends]
  dsimp only
  split
  · simp
  · rfl

theorem settles_fork {first second : Nat} (h : m.states[i]? = some (.fork first second))
    (hfirst : Settles m p first) (hsecond : Settles m p second) : Settles m p i := by
  refine .intro i fun j hj => ?_
  rw [successors, h] at hj
  rcases List.mem_cons.1 hj with rfl | hj
  · exact hfirst
  · rw [List.mem_singleton.1 hj]
    exact hsecond

theorem stop?_fork {first second : Nat} (h : m.states[i]? = some (.fork first second))
    (hi : Settles m p i) : m.stop? p i = (m.stop? p first).or (m.stop? p second) := by
  rw [stop?_eq_findSome? hi (by rw [isWaiting, h]), successors, h]
  dsimp only
  rw [List.findSome?_cons]
  cases m.stop? p first with
  | none => simp
  | some q => rfl

theorem settles_turn {greedy : Bool} {again after : Nat}
    (h : m.states[i]? = some (turn greedy again after)) (hagain : Settles m p again)
    (hafter : Settles m p after) : Settles m p i := by
  cases greedy with
  | true => exact settles_fork h hagain hafter
  | false => exact settles_fork h hafter hagain

/-- The fork behind a round comes to another round or to what comes after, as its greed has it. -/
theorem stop?_turn {greedy : Bool} {again after : Nat}
    (h : m.states[i]? = some (turn greedy again after)) (hi : Settles m p i) {ps : List Place}
    (hagain : m.stop? p again = ps.findSome? (m.stop? · after)) :
    m.stop? p i = (inTurn greedy ps p).findSome? (m.stop? · after) := by
  cases greedy with
  | true =>
      rw [stop?_fork h hi, hagain, inTurn, if_pos rfl, List.findSome?_append]
      simp
  | false =>
      rw [stop?_fork h hi, hagain, inTurn, if_neg Bool.false_ne_true, List.findSome?_cons]
      cases m.stop? p after <;> rfl

end

end Quire.Regex.Automaton
