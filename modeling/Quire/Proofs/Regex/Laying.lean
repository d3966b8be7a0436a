import Quire.Regex.Automaton

/-!
# The states that are laid out for an expression

An expression is laid out from its end to its beginning: each part goes on in a state that stands
already. So states only ever name states (`lays_layOut`), which a loop makes true of itself when it
is closed. And it makes no difference how parts are bracketed that follow one another
(`layOut_ofParts_parts`): the normal form of a sequence is laid out as the sequence itself.
-/

namespace Quire.Regex

/-! ## 1. States that name states -/

/-- The numbers of the states that a state names to go on in. -/
def State.targets : State → List Nat
  | accept => []
  | take _ next => [next]
  | check _ next => [next]
  | fork first second => [first, second]

namespace Automaton

/-- Whether states name only states among them. -/
def InRange (states : Array State) : Prop :=
  ∀ (i : Nat) (s : State), states[i]? = some s → ∀ j ∈ s.targets, j < states.size

/-- What is known of states that have been laid out where there were `size` of them before: they
name only states, the one to begin in is one of them, and none has been taken away. -/
structure Laid.Sound (size : Nat) (l : Laid) : Prop where
  inRange : InRange l.2
  start_lt : l.1 < l.2.size
  size_le : size ≤ l.2.size

/-- Whether what lays out states does so soundly, before each state that stands already. -/
def Lays (lay : Nat → Array State → Laid) : Prop :=
  ∀ after states, InRange states → after < states.size → (lay after states).Sound states.size

variable {states : Array State} {after : Nat}

theorem InRange.push (h : InRange states) {s : State} (hs : ∀ j ∈ s.targets, j ≤ states.size) :
    InRange (states.push s) := by
  intro i t ht j hj
  rw [Array.size_push]
  rw [Array.getElem?_push] at ht
  split at ht
  · rw [← Option.some.inj ht] at hj
    exact Nat.lt_succ_of_le (hs j hj)
  · exact Nat.lt_succ_of_lt (h i t ht j hj)

theorem InRange.setIfInBounds (h : InRange states) {s : State} (i : Nat)
    (hs : ∀ j ∈ s.targets, j < states.size) : InRange (states.setIfInBounds i s) := by
  intro k t ht j hj
  rw [Array.size_setIfInBounds]
  rw [Array.getElem?_setIfInBounds] at ht
  split at ht
  · split at ht
    · rw [← Option.some.inj ht] at hj
      exact hs j hj
    · cases ht
  · exact h k t ht j hj

/-- One more state, that names states. -/
theorem Laid.Sound.push {size : Nat} {l : Laid} (h : l.Sound size) {s : State}
    (hs : ∀ j ∈ s.targets, j < l.2.size) : Laid.Sound size (l.2.size, l.2.push s) where
  inRange := h.inRange.push fun j hj => Nat.le_of_lt (hs j hj)
  start_lt := by
    rw [Array.size_push]
    exact Nat.lt_succ_self _
  size_le := by
    rw [Array.size_push]
    exact Nat.le_succ_of_le h.size_le

/-- What is laid out before a state that has been laid out. -/
theorem Laid.Sound.lay {size : Nat} {l : Laid} (h : l.Sound size)
    {lay : Nat → Array State → Laid} (hl : Lays lay) : (lay l.1 l.2).Sound size := by
  have h' := hl _ _ h.inRange h.start_lt
  exact ⟨h'.inRange, h'.start_lt, Nat.le_trans h.size_le h'.size_le⟩

theorem Laid.sound_refl (h : InRange states) (ha : after < states.size) :
    Laid.Sound states.size (after, states) :=
  ⟨h, ha, Nat.le_refl _⟩

theorem forall_mem_pair {a b n : Nat} (ha : a < n) (hb : b < n) : ∀ j ∈ [a, b], j < n := by
  intro j hj
  rcases List.mem_cons.1 hj with rfl | hj
  · exact ha
  · rwa [List.mem_singleton.1 hj]

/-- The fork between another round and what comes after names the two. -/
theorem forall_targets_turn {greedy : Bool} {again n : Nat} (h : again < n) (ha : after < n) :
    ∀ j ∈ (turn greedy again after).targets, j < n := by
  cases greedy with
  | true => exact forall_mem_pair h ha
  | false => exact forall_mem_pair ha h

variable {body : Nat → Array State → Laid}

theorem lays_rounds (hbody : Lays body) (n : Nat) : Lays (rounds body n) := by
  intro after states hs ha
  induction n with
  | zero => exact Laid.sound_refl hs ha
  | succ n ih => exact ih.lay hbody

theorem sound_optional (hbody : Lays body) (greedy : Bool) (n : Nat) (hs : InRange states)
    (ha : after < states.size) : (optional body greedy after n states).Sound states.size := by
  induction n with
  | zero => exact Laid.sound_refl hs ha
  | succ n ih =>
      have h := ih.lay hbody
      exact h.push (forall_targets_turn h.start_lt (Nat.lt_of_lt_of_le ha h.size_le))

/-- A loop names only states once it is closed, and both its round and its fork are among them. -/
theorem sound_loop (hbody : Lays body) (greedy : Bool) (hs : InRange states)
    (ha : after < states.size) :
    (loop body greedy after states).2.Sound states.size ∧
      (loop body greedy after states).1 < (loop body greedy after states).2.2.size := by
  have hsize : (states.push .accept).size = states.size + 1 := Array.size_push _
  have hfork : states.size < (states.push .accept).size := by omega
  have h := hbody states.size (states.push .accept) (hs.push fun j hj => by cases hj) hfork
  have hle := h.size_le
  have hset : ∀ s : State, ((body states.size (states.push .accept)).2.setIfInBounds
      states.size s).size = (body states.size (states.push .accept)).2.size :=
    fun s => Array.size_setIfInBounds
  refine ⟨⟨?_, ?_, ?_⟩, ?_⟩
  · exact h.inRange.setIfInBounds _ (forall_targets_turn h.start_lt (by omega))
  · rw [loop, hset]
    dsimp only
    omega
  · rw [loop, hset]
    omega
  · rw [loop, hset]
    exact h.start_lt

/-- **The states that are laid out for an expression name only states.** -/
theorem lays_layOut (r : Regex) : Lays (layOut r) := by
  induction r with
  | empty => exact fun after states hs ha => Laid.sound_refl hs ha
  | one set | holds a =>
      intro after states hs ha
      exact (Laid.sound_refl hs ha).push fun j hj => by rwa [List.mem_singleton.1 hj]
  | seq a b iha ihb => exact fun after states hs ha => (ihb after states hs ha).lay iha
  | alt a b iha ihb =>
      intro after states hs ha
      have hb := ihb after states hs ha
      have ha' := iha after _ hb.inRange (Nat.lt_of_lt_of_le ha hb.size_le)
      have hab : (layOut a after (layOut b after states).2).Sound states.size :=
        ⟨ha'.inRange, ha'.start_lt, Nat.le_trans hb.size_le ha'.size_le⟩
      exact hab.push (forall_mem_pair ha'.start_lt (Nat.lt_of_lt_of_le hb.start_lt ha'.size_le))
  | group _ a ih => exact ih
  | times least most greedy a ih =>
      intro after states hs ha
      cases most with
      | some most => exact (sound_optional ih greedy _ hs ha).lay (lays_rounds ih least)
      | none =>
          obtain ⟨hloop, hround⟩ := sound_loop ih greedy hs ha
          cases least with
          | zero =>
              rw [layOut]
              dsimp only
              split
              · exact hloop.push
                  (forall_targets_turn hround (Nat.lt_of_lt_of_le ha hloop.size_le))
              · exact hloop
          | succ n =>
              have hbegun : Laid.Sound states.size ((loop (layOut a) greedy after states).1,
                  (loop (layOut a) greedy after states).2.2) :=
                ⟨hloop.inRange, hround, hloop.size_le⟩
              exact hbegun.lay (lays_rounds ih n)

/-- **An automaton of an expression names only states of its own.** -/
theorem inRange_ofRegex (r : Regex) :
    InRange (ofRegex r).states ∧ (ofRegex r).start < (ofRegex r).states.size := by
  have hfirst : InRange #[State.accept] := by
    intro i s hs j hj
    obtain ⟨hi, rfl⟩ := Array.getElem?_eq_some_iff.1 hs
    have : i = 0 := by simpa using hi
    subst this
    cases hj
  have h := lays_layOut r 0 #[.accept] hfirst Nat.one_pos
  exact ⟨h.inRange, h.start_lt⟩

/-! ## 2. Parts that follow one another -/

theorem layOut_ofParts_cons (a : Regex) (ps : List Regex) (after : Nat) (states : Array State) :
    layOut (ofParts (a :: ps)) after states =
      layOut a (layOut (ofParts ps) after states).1 (layOut (ofParts ps) after states).2 := by
  cases ps with
  | nil => rfl
  | cons b ps => rfl

theorem layOut_ofParts_append (ps qs : List Regex) (after : Nat) (states : Array State) :
    layOut (ofParts (ps ++ qs)) after states =
      layOut (ofParts ps) (layOut (ofParts qs) after states).1
        (layOut (ofParts qs) after states).2 := by
  induction ps with
  | nil => rfl
  | cons a ps ih => rw [List.cons_append, layOut_ofParts_cons, ih, layOut_ofParts_cons]

/-- **An expression is laid out as its parts are, one after another.** -/
theorem layOut_ofParts_parts (r : Regex) (after : Nat) (states : Array State) :
    layOut (ofParts r.parts) after states = layOut r after states := by
  induction r generalizing after states with
  | seq a b iha ihb => rw [parts, layOut_ofParts_append, iha, ihb, layOut]
  | _ => rfl

end Automaton

end Quire.Regex
