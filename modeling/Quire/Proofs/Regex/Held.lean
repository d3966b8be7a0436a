import Quire.Proofs.Regex.Laying
import Quire.Proofs.Regex.Leftmost

/-!
# Expressions held to the beginning of a text

An assertion in front of an expression adds one state to its automaton, which comes last and leads to
the state in which the expression begins. Since no other state leads to it, the others go on as
before (`stop?_of_push`).

**Held to the beginning of the text, an expression finds there what it matches there, and nothing
further on** (`find?_held`).
-/

namespace Quire.Regex.Automaton

variable {m m' : Automaton} {p : Place} {s : State} {i : Nat}

/-! ## 1. One state more -/

theorem getElem?_of_push (hs : m'.states = m.states.push s) (hi : i < m.states.size) :
    m'.states[i]? = m.states[i]? := by
  rw [hs, Array.getElem?_push_lt hi, Array.getElem?_eq_getElem hi]

theorem successors_of_push (hs : m'.states = m.states.push s) (hi : i < m.states.size) :
    successors m' p i = successors m p i := by
  rw [successors, getElem?_of_push hs hi, successors]

theorem isWaiting_of_push (hs : m'.states = m.states.push s) (hi : i < m.states.size) :
    m'.isWaiting i = m.isWaiting i := by
  rw [isWaiting, getElem?_of_push hs hi, isWaiting]

theorem accepts_of_push (hs : m'.states = m.states.push s) (hi : i < m.states.size) :
    m'.accepts i = m.accepts i := by
  rw [accepts, getElem?_of_push hs hi, accepts]

/-- A state leads only to states that it names. -/
theorem lt_of_mem_successors (hm : InRange m.states) {j : Nat} (hj : j ∈ successors m p i) :
    j < m.states.size := by
  unfold successors at hj
  split at hj
  · rename_i a b hs
    exact hm i _ hs j hj
  · rename_i a next hs
    split at hj
    · exact hm i _ hs j hj
    · cases hj
  · cases hj

/-- The same states are entered in the same order, and the added one is not among them. -/
theorem Visits.of_push {V : Set Nat} {todo r : List Nat} (hm : InRange m.states)
    (hs : m'.states = m.states.push s) (h : Visits m p V todo r)
    (htodo : ∀ i ∈ todo, i < m.states.size) :
    Visits m' p V todo r ∧ ∀ i ∈ r, i < m.states.size := by
  induction h with
  | done => exact ⟨.done, htodo⟩
  | pass hV _ ih =>
      obtain ⟨hv, hr⟩ := ih fun i hi => htodo i (List.mem_cons_of_mem _ hi)
      exact ⟨.pass hV hv, hr⟩
  | @enter V i todo r hi _ ih =>
      have hlt : i < m.states.size := htodo i List.mem_cons_self
      obtain ⟨hv, hr⟩ := ih fun j hj => (List.mem_append.1 hj).elim (lt_of_mem_successors hm)
        fun hj => htodo j (List.mem_cons_of_mem _ hj)
      rw [← successors_of_push hs hlt] at hv
      exact ⟨.enter hi hv, fun j hj => (List.mem_cons.1 hj).elim (fun e => e ▸ hlt) (hr j)⟩

/-- A state that is not entered might as well have been entered before. -/
theorem Visits.insert {V : Set Nat} {todo r : List Nat} (h : Visits m p V todo r) (hi : i ∉ r) :
    Visits m p (insert i V) todo r := by
  induction h with
  | done => exact .done
  | pass hV _ ih => exact .pass (Set.mem_insert_of_mem _ hV) (ih hi)
  | @enter V j todo r hj _ ih =>
      rw [List.mem_cons, not_or] at hi
      have hnot : j ∉ Insert.insert i V := fun h => h.elim (fun e => hi.1 e.symm) hj
      have hrest := ih hi.2
      rw [Set.insert_comm] at hrest
      exact .enter hnot hrest

theorem waiting_of_push (hm : InRange m.states) (hs : m'.states = m.states.push s)
    (hi : i < m.states.size) :
    m'.waiting p i = m.waiting p i ∧ ∀ j ∈ m.waiting p i, j < m.states.size := by
  obtain ⟨r, hv, -⟩ := visits_enterOne (m := m) (p := p) p i {}
  rw [Front.states_empty] at hv
  obtain ⟨hv', hr⟩ := hv.of_push hm hs fun j hj => by rwa [List.mem_singleton.1 hj]
  rw [waiting_eq hv, waiting_eq hv']
  exact ⟨List.filter_congr fun j hj => isWaiting_of_push hs (hr j hj),
    fun j hj => hr j (List.mem_of_mem_filter hj)⟩

theorem findSome?_congr {α β : Type} {f g : α → Option β} {l : List α}
    (h : ∀ x ∈ l, f x = g x) : l.findSome? f = l.findSome? g := by
  induction l with
  | nil => rfl
  | cons x l ih =>
      rw [List.findSome?_cons, List.findSome?_cons, h x List.mem_cons_self,
        ih fun y hy => h y (List.mem_cons_of_mem _ hy)]

/-- **A thread ends where it did before the state was added.** -/
theorem stopFrom?_of_push (hm : InRange m.states) (hs : m'.states = m.states.push s)
    (hi : i < m.states.size) : m'.stopFrom? p i = m.stopFrom? p i := by
  induction p using Place.next_induction generalizing i with
  | step p ih =>
    have hacc := accepts_of_push hs hi
    cases ha : m.accepts i with
    | true =>
        rw [ha] at hacc
        rw [stopFrom?_of_accepts ha, stopFrom?_of_accepts hacc]
    | false =>
        rw [ha] at hacc
        cases hn : p.next? with
        | none => rw [stopFrom?_of_end ha hn, stopFrom?_of_end hacc hn]
        | some n =>
            obtain ⟨c, q⟩ := n
            rw [stopFrom?_of_next? ha hn, stopFrom?_of_next? hacc hn, stopAfter?, stopAfter?,
              getElem?_of_push hs hi]
            split
            · rename_i set next hget
              have hnext := hm i _ hget next List.mem_cons_self
              obtain ⟨hw, hlt⟩ := waiting_of_push (p := q) hm hs hnext
              rw [stop?, stop?, hw]
              split
              · exact findSome?_congr fun j hj => ih c q hn (hlt j hj)
              · rfl
            · rfl

theorem stop?_of_push (hm : InRange m.states) (hs : m'.states = m.states.push s)
    (hi : i < m.states.size) : m'.stop? p i = m.stop? p i := by
  obtain ⟨hw, hlt⟩ := waiting_of_push (p := p) hm hs hi
  rw [stop?, stop?, hw]
  exact findSome?_congr fun j hj => stopFrom?_of_push hm hs (hlt j hj)

/-- An added check that holds comes to what the state behind it comes to. -/
theorem stop?_check {a : Assertion} (hm : InRange m.states) (hi : i < m.states.size)
    (hs : m'.states = m.states.push (.check a i)) (ha : a.check p = true) :
    m'.stop? p m.states.size = m.stop? p i := by
  have hlast : m'.states[m.states.size]? = some (.check a i) := by
    rw [hs, Array.getElem?_push_size]
  obtain ⟨r, hv, -⟩ := visits_enterOne (m := m) (p := p) p i {}
  rw [Front.states_empty] at hv
  obtain ⟨hv', hr⟩ := hv.of_push hm hs fun j hj => by rwa [List.mem_singleton.1 hj]
  have hnot : m.states.size ∉ r := fun h => Nat.lt_irrefl _ (hr _ h)
  have hsucc : successors m' p m.states.size = [i] := by
    rw [successors, hlast]
    exact if_pos ha
  have hcheck : m'.isWaiting m.states.size = false := by
    rw [isWaiting, hlast]
  have hvisits : Visits m' p ∅ [m.states.size] (m.states.size :: r) := by
    refine .enter (Set.notMem_empty _) ?_
    rw [hsucc]
    exact hv'.insert hnot
  have hwaiting : m'.waiting p m.states.size = m'.waiting p i := by
    rw [waiting_eq hvisits, waiting_eq hv', List.filter_cons_of_neg (by simp [hcheck])]
  rw [← stop?_of_push hm hs hi, stop?, hwaiting, stop?]

/-! ## 2. The beginning of a text -/

/-- The states of an expression that is held to the beginning of a text. -/
theorem ofRegex_held (r : Regex) :
    ofRegex (concat [holds .textStart, r]) =
      ⟨(ofRegex r).states.push (.check .textStart (ofRegex r).start), (ofRegex r).states.size,
        true⟩ := by
  have hshape : concat [holds .textStart, r] = ofParts (holds .textStart :: r.parts) := by
    simp [concat, parts]
  have hanchored : (ofParts (holds .textStart :: r.parts)).isAnchored = true := by
    cases r.parts with
    | nil => rfl
    | cons a ps => rfl
  have hlaid : layOut (ofParts (holds .textStart :: r.parts)) 0 #[.accept] =
      ((layOut r 0 #[.accept]).2.size,
        (layOut r 0 #[.accept]).2.push (.check .textStart (layOut r 0 #[.accept]).1)) := by
    rw [layOut_ofParts_cons, layOut_ofParts_parts, layOut]
  rw [hshape]
  simp only [ofRegex, hlaid, hanchored]

/-- **Held to the beginning of a text, an expression finds there what it matches there, and nothing
further on.** -/
theorem find?_held (r : Regex) (hp : p.before = none) :
    (ofRegex (concat [holds .textStart, r])).find? p = (ofRegex r).matchFrom? p := by
  obtain ⟨hm, hstart⟩ := inRange_ofRegex r
  have hcheck : Assertion.textStart.check p = true := by
    rw [Assertion.check, hp]
    rfl
  have hnone : p.before.isNone = true := by
    rw [hp]
    rfl
  rw [ofRegex_held, find?_eq_first?, Place.first?_step]
  have hhere : matchFrom? ⟨(ofRegex r).states.push (.check .textStart (ofRegex r).start),
      (ofRegex r).states.size, true⟩ p = (ofRegex r).matchFrom? p := by
    rw [matchFrom?, matchFrom?, hnone, Bool.true_or, Bool.true_or, if_pos rfl, if_pos rfl,
      stop?_check hm hstart rfl hcheck]
  have hafter : (p.next?.bind fun n => n.2.first? (matchFrom?
      ⟨(ofRegex r).states.push (.check .textStart (ofRegex r).start), (ofRegex r).states.size,
        true⟩)) = none := by
    cases hn : p.next? with
    | none => rfl
    | some n =>
        refine first?_of_anchored rfl ?_
        rw [(Place.rest_of_next? hn).2]
        rfl
  rw [hhere, hafter, Option.or_none]

/-- An expression matches at a place exactly if what it finds from there on begins there. -/
theorem matchFrom?_isSome_iff (m : Automaton) (p : Place) :
    (m.matchFrom? p).isSome = true ↔ ∃ s, m.find? p = some s ∧ s.start = p := by
  have S := m.isSearch_find?
  constructor
  · intro h
    obtain ⟨s, hs⟩ := Option.isSome_iff_exists.1 h
    refine ⟨s, ?_, (of_matchFrom? hs).1⟩
    rw [S.step, hs, Option.some_or]
  · rintro ⟨s, hs, rfl⟩
    rw [(S.find_eq_some_iff.1 hs).2.1]
    rfl

end Quire.Regex.Automaton
