import Mathlib.Data.Set.Insert
import Mathlib.Data.Finset.Card
import Mathlib.Data.Nat.Bitwise
import Quire.Regex.Automaton

/-!
# Entering states

At a place an automaton enters a state and then all that it leads to without taking a character,
the preferred way first, and no state twice. `Visits` says which states are entered, in which order,
when some have been entered before; `enter` follows it as long as its bound allows, and
`enterOne` always does (`visits_enterOne`).

**What has been entered before is left out and nothing else changes** (`Visits.union`): the states
entered before are closed under going on, so no way leads from them to a state that is not among
them. Hence the threads of a front are those that each state would bring up on its own
(`waiting`), less those that stand there already.
-/

namespace Quire.Regex.Automaton

variable {m : Automaton} {p : Place}

/-! ## 1. One state -/

/-- The states that a state leads to at a place without taking a character, the preferred first. -/
def successors (m : Automaton) (p : Place) (i : Nat) : List Nat :=
  match m.states[i]? with
  | some (.fork first second) => [first, second]
  | some (.check a next) => if a.check p then [next] else []
  | _ => []

/-- Whether a thread waits in a state: the match is complete there, or a character is to be taken. -/
def isWaiting (m : Automaton) (i : Nat) : Bool :=
  match m.states[i]? with
  | some .accept => true
  | some (.take _ _) => true
  | _ => false

/-- A front after a state has been entered. -/
def Front.add (m : Automaton) (origin : Place) (i : Nat) (f : Front) : Front :=
  ⟨f.entered ||| (1 <<< i), if m.isWaiting i then ⟨i, origin⟩ :: f.threads else f.threads⟩

/-- The states that have been entered in a front. -/
def Front.states (f : Front) : Set Nat :=
  {i | f.entered.testBit i = true}

theorem Front.mem_states {f : Front} {i : Nat} : i ∈ f.states ↔ f.entered.testBit i = true :=
  Iff.rfl

@[simp] theorem Front.states_empty : Front.states {} = ∅ := by
  ext i
  simp [Front.states]

@[simp] theorem Front.states_add (origin : Place) (i : Nat) (f : Front) :
    (f.add m origin i).states = insert i f.states := by
  ext j
  simp only [Front.mem_states, Front.add, Nat.testBit_or, Nat.one_shiftLeft, Nat.testBit_two_pow,
    Bool.or_eq_true, decide_eq_true_eq, Set.mem_insert_iff]
  exact ⟨fun h => h.symm.imp Eq.symm id, fun h => h.symm.imp id Eq.symm⟩

/-- A state that has been entered is passed over. -/
theorem enter_of_mem {origin : Place} {n i : Nat} {more : List Nat} {f : Front}
    (h : i ∈ f.states) : enter m p origin (n + 1) (i :: more) f = enter m p origin n more f := by
  rw [enter, if_pos (Front.mem_states.1 h)]

/-- **A state that has not been entered is entered, and what it leads to has its turn next.** -/
theorem enter_of_not_mem {origin : Place} {n i : Nat} {more : List Nat} {f : Front}
    (h : i ∉ f.states) :
    enter m p origin (n + 1) (i :: more) f =
      enter m p origin n (successors m p i ++ more) (f.add m origin i) := by
  rw [enter, if_neg (mt Front.mem_states.2 h)]
  unfold successors Front.add isWaiting
  cases hs : m.states[i]? with
  | none => rfl
  | some s =>
      cases s with
      | accept => rfl
      | take set next => rfl
      | check a next =>
          by_cases ha : a.check p = true
          · simp [ha]
          · simp [ha]
      | fork first second => rfl

/-! ## 2. The order of entering -/

/-- From the states listed, in order, these are entered, in this order, if those in the set have
been entered before. -/
inductive Visits (m : Automaton) (p : Place) : Set Nat → List Nat → List Nat → Prop where
  | done {V : Set Nat} : Visits m p V [] []
  | pass {V : Set Nat} {i : Nat} {todo r : List Nat} :
      i ∈ V → Visits m p V todo r → Visits m p V (i :: todo) r
  | enter {V : Set Nat} {i : Nat} {todo r : List Nat} :
      i ∉ V → Visits m p (insert i V) (successors m p i ++ todo) r → Visits m p V (i :: todo) (i :: r)

/-- A set of states that nothing leads out of. -/
def Closed (m : Automaton) (p : Place) (V : Set Nat) : Prop :=
  ∀ i ∈ V, ∀ j ∈ successors m p i, j ∈ V

namespace Visits

variable {V W : Set Nat} {todo r : List Nat}

/-- What is listed is entered, if it has not been before. -/
theorem mem_of_mem (h : Visits m p V todo r) : ∀ i ∈ todo, i ∈ V ∨ i ∈ r := by
  induction h with
  | done => intro i hi; cases hi
  | pass hV _ ih =>
      intro i hi
      rcases List.mem_cons.1 hi with rfl | hi
      · exact Or.inl hV
      · exact ih i hi
  | @enter V i todo r _ _ ih =>
      intro j hj
      rcases List.mem_cons.1 hj with rfl | hj
      · exact Or.inr List.mem_cons_self
      · rcases ih j (List.mem_append_right _ hj) with h | h
        · rcases h with rfl | h
          · exact Or.inr List.mem_cons_self
          · exact Or.inl h
        · exact Or.inr (List.mem_cons_of_mem _ h)

/-- What a state leads to is entered with it. -/
theorem closed (h : Visits m p V todo r) :
    ∀ i ∈ r, ∀ j ∈ successors m p i, j ∈ V ∨ j ∈ r := by
  induction h with
  | done => intro i hi; cases hi
  | pass _ _ ih => exact ih
  | @enter V i todo r _ h ih =>
      intro k hk j hj
      have hmem : j ∈ insert i V ∨ j ∈ r := by
        rcases List.mem_cons.1 hk with rfl | hk
        · exact h.mem_of_mem j (List.mem_append_left _ hj)
        · exact ih k hk j hj
      rcases hmem with (rfl | hV) | hr
      · exact Or.inr List.mem_cons_self
      · exact Or.inl hV
      · exact Or.inr (List.mem_cons_of_mem _ hr)

/-- States that have been entered can be taken off the list. -/
theorem of_append {a b : List Nat} (ha : ∀ i ∈ a, i ∈ V) (h : Visits m p V (a ++ b) r) :
    Visits m p V b r := by
  induction a with
  | nil => exact h
  | cons i a ih =>
      cases h with
      | pass _ h => exact ih (fun j hj => ha j (List.mem_cons_of_mem _ hj)) h
      | enter hn _ => exact absurd (ha i List.mem_cons_self) hn

open Classical in
/-- **If more has been entered before, and nothing leads out of it, then the same states are
entered in the same order, less those.** -/
theorem union (hW : Closed m p W) (h : Visits m p V todo r) :
    Visits m p (V ∪ W) todo (r.filter (· ∉ W)) := by
  induction h with
  | done => exact .done
  | pass hV _ ih => exact .pass (Or.inl hV) ih
  | @enter V i todo r hi h ih =>
      by_cases hiW : i ∈ W
      · have e : insert i V ∪ W = V ∪ W := by
          rw [Set.insert_union, Set.insert_eq_of_mem (Set.mem_union_right V hiW)]
        rw [e] at ih
        rw [List.filter_cons_of_neg (by simpa using hiW)]
        exact .pass (Or.inr hiW) (ih.of_append fun j hj => Or.inr (hW i hiW j hj))
      · rw [List.filter_cons_of_pos (by simpa using hiW)]
        rw [Set.insert_union] at ih
        exact .enter (fun hu => hu.elim hi hiW) ih

/-- What is entered is settled by what is listed. -/
theorem unique {r' : List Nat} (h : Visits m p V todo r) (h' : Visits m p V todo r') : r = r' := by
  induction h generalizing r' with
  | done => cases h'; rfl
  | pass hV _ ih =>
      cases h' with
      | pass _ h' => exact ih h'
      | enter hn _ => exact absurd hV hn
  | enter hn _ ih =>
      cases h' with
      | pass hV _ => exact absurd hV hn
      | enter _ h' => rw [ih h']

end Visits

/-! ## 3. The bound on the rounds -/

/-- The states that have not been entered in a front. -/
def remaining (m : Automaton) (f : Front) : Finset Nat :=
  (Finset.range m.states.size).filter fun i => ¬ f.entered.testBit i

theorem mem_remaining {f : Front} {i : Nat} :
    i ∈ m.remaining f ↔ i < m.states.size ∧ i ∉ f.states := by
  rw [remaining, Finset.mem_filter, Finset.mem_range, Front.mem_states]

theorem remaining_add (origin : Place) (i : Nat) (f : Front) :
    m.remaining (f.add m origin i) = (m.remaining f).erase i := by
  ext j
  rw [mem_remaining, Finset.mem_erase, mem_remaining, Front.states_add, Set.mem_insert_iff, not_or]
  exact ⟨fun ⟨h1, h2, h3⟩ => ⟨h2, h1, h3⟩, fun ⟨h1, h2, h3⟩ => ⟨h2, h1, h3⟩⟩

theorem length_successors_le (i : Nat) : (successors m p i).length ≤ 2 := by
  unfold successors
  split
  · exact Nat.le_refl 2
  · split
    · exact Nat.le_succ 1
    · exact Nat.zero_le 2
  · exact Nat.zero_le 2

theorem successors_of_size_le {i : Nat} (h : m.states.size ≤ i) : successors m p i = [] := by
  unfold successors
  rw [Array.getElem?_eq_none h]

/-- Entering a state brings up no more than it uses up of the bound. -/
theorem length_add_remaining_le (m : Automaton) (p origin : Place) {i : Nat} {f : Front}
    (h : i ∉ f.states) :
    (successors m p i).length + 2 * (m.remaining (f.add m origin i)).card
      ≤ 2 * (m.remaining f).card := by
  rw [remaining_add]
  by_cases hi : i < m.states.size
  · have hmem : i ∈ m.remaining f := mem_remaining.2 ⟨hi, h⟩
    have hcard := Finset.card_erase_add_one hmem
    have := length_successors_le (m := m) (p := p) i
    omega
  · rw [successors_of_size_le (Nat.le_of_not_lt hi), Finset.erase_eq_of_notMem]
    · exact Nat.le_of_eq (Nat.zero_add _)
    · exact fun hm => hi (mem_remaining.1 hm).1

/-- A front after states have been entered, in order. -/
def Front.addAll (m : Automaton) (origin : Place) (r : List Nat) (f : Front) : Front :=
  r.foldl (fun f i => f.add m origin i) f

/-- **With rounds enough, entering follows the order of entering to its end.** -/
theorem visits_enter (origin : Place) {n : Nat} {todo : List Nat} {f : Front}
    (h : todo.length + 2 * (m.remaining f).card ≤ n) :
    ∃ r, Visits m p f.states todo r ∧ enter m p origin n todo f = f.addAll m origin r := by
  induction n generalizing todo f with
  | zero =>
      have : todo = [] := List.length_eq_zero_iff.1 (by omega)
      subst this
      exact ⟨[], .done, rfl⟩
  | succ n ih =>
      cases todo with
      | nil => exact ⟨[], .done, rfl⟩
      | cons i more =>
          rw [List.length_cons] at h
          by_cases hi : i ∈ f.states
          · have hb : more.length + 2 * (m.remaining f).card ≤ n := by omega
            obtain ⟨r, hv, he⟩ := ih hb
            exact ⟨r, .pass hi hv, by rw [enter_of_mem hi, he]⟩
          · have hle := length_add_remaining_le m p origin hi
            have hb : (successors m p i ++ more).length +
                2 * (m.remaining (f.add m origin i)).card ≤ n := by
              rw [List.length_append]
              omega
            obtain ⟨r, hv, he⟩ := ih hb
            rw [Front.states_add] at hv
            exact ⟨i :: r, .enter hi hv, by rw [enter_of_not_mem hi, he]; rfl⟩

theorem visits_enterOne (origin : Place) (i : Nat) (f : Front) :
    ∃ r, Visits m p f.states [i] r ∧ enterOne m p origin i f = f.addAll m origin r := by
  apply visits_enter
  have : (m.remaining f).card ≤ m.states.size := by
    have := Finset.card_filter_le (Finset.range m.states.size) fun i => ¬ f.entered.testBit i
    rwa [Finset.card_range] at this
  rw [List.length_singleton]
  omega

/-! ## 4. Threads -/

@[simp] theorem Front.states_addAll (origin : Place) (r : List Nat) (f : Front) :
    (f.addAll m origin r).states = {i | i ∈ r} ∪ f.states := by
  induction r generalizing f with
  | nil => simp [Front.addAll]
  | cons i r ih =>
      have e : f.addAll m origin (i :: r) = (f.add m origin i).addAll m origin r := rfl
      rw [e, ih, Front.states_add]
      ext j
      simp only [Set.mem_union, Set.mem_ofPred_eq, Set.mem_insert_iff, List.mem_cons]
      tauto

/-- The threads that states bring up, when they are entered in order. -/
theorem Front.threads_addAll (origin : Place) (r : List Nat) (f : Front) :
    (f.addAll m origin r).threads.reverse =
      f.threads.reverse ++ (r.filter m.isWaiting).map (⟨·, origin⟩) := by
  induction r generalizing f with
  | nil => simp [Front.addAll]
  | cons i r ih =>
      have e : f.addAll m origin (i :: r) = (f.add m origin i).addAll m origin r := rfl
      rw [e, ih]
      by_cases hw : m.isWaiting i = true
      · simp [Front.add, hw]
      · simp [Front.add, hw]

/-- The states in which threads wait that a state brings up on its own, the preferred first. -/
def waiting (m : Automaton) (p : Place) (i : Nat) : List Nat :=
  (m.enterOne p p i {}).threads.reverse.map Thread.state

theorem waiting_eq {i : Nat} {r : List Nat} (h : Visits m p ∅ [i] r) :
    m.waiting p i = r.filter m.isWaiting := by
  obtain ⟨r', hv, he⟩ := visits_enterOne (m := m) (p := p) p i {}
  rw [Front.states_empty] at hv
  rw [hv.unique h] at he
  rw [waiting, he, Front.threads_addAll]
  simp [Function.comp_def]

/-- What is entered stays so, and a thread waits in every waiting state that is entered. -/
structure Front.Sound (m : Automaton) (p : Place) (f : Front) : Prop where
  closed : Closed m p f.states
  waits : ∀ i ∈ f.states, m.isWaiting i = true → ∃ t ∈ f.threads, t.state = i

theorem Front.sound_empty : Front.Sound m p {} where
  closed i hi := by simp at hi
  waits i hi := by simp at hi

/-- **A state that is entered brings up the threads it would bring up on its own, less those in
states that have been entered before.** -/
theorem threads_enterOne (origin : Place) (i : Nat) {f : Front} (hf : f.Sound m p) :
    (enterOne m p origin i f).threads.reverse =
      f.threads.reverse ++
        ((m.waiting p i).filter fun j => !f.entered.testBit j).map (⟨·, origin⟩) := by
  classical
  obtain ⟨r, hv, he⟩ := visits_enterOne (m := m) (p := p) origin i f
  obtain ⟨r₀, hv₀, -⟩ := visits_enterOne (m := m) (p := p) origin i {}
  rw [Front.states_empty] at hv₀
  have hu := hv₀.union hf.closed
  rw [Set.empty_union] at hu
  rw [he, Front.threads_addAll, hv.unique hu, waiting_eq hv₀, List.filter_filter,
    List.filter_filter]
  congr 3
  funext j
  rw [Bool.and_comm]
  congr 1
  simp [Front.mem_states]

/-- **Entering a state keeps a front sound.** -/
theorem sound_enterOne (origin : Place) (i : Nat) {f : Front} (hf : f.Sound m p) :
    (enterOne m p origin i f).Sound m p := by
  obtain ⟨r, hv, he⟩ := visits_enterOne (m := m) (p := p) origin i f
  have hmem : ∀ j, j ∈ (f.addAll m origin r).states ↔ j ∈ r ∨ j ∈ f.states := by
    intro j
    rw [Front.states_addAll]
    exact Iff.rfl
  rw [he]
  constructor
  · intro j hj k hk
    rw [hmem] at hj ⊢
    rcases hj with hj | hj
    · exact (hv.closed j hj k hk).symm
    · exact Or.inr (hf.closed j hj k hk)
  · intro j hj hw
    have ht : ∀ t, t ∈ (f.addAll m origin r).threads ↔
        t ∈ f.threads ∨ t ∈ (r.filter m.isWaiting).map (Thread.mk · origin) := by
      intro t
      rw [← List.mem_reverse, Front.threads_addAll, List.mem_append, List.mem_reverse]
    rcases (hmem j).1 hj with hj | hj
    · refine ⟨⟨j, origin⟩, (ht _).2 (Or.inr ?_), rfl⟩
      exact List.mem_map_of_mem (List.mem_filter.2 ⟨hj, hw⟩)
    · obtain ⟨t, htf, e⟩ := hf.waits j hj hw
      exact ⟨t, (ht t).2 (Or.inl htf), e⟩

end Quire.Regex.Automaton
