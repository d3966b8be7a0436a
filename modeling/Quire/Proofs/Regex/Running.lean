import Quire.Proofs.Regex.Settling

/-!
# What the automaton of an expression comes to

**The state in which an expression is laid out to begin comes to what comes after the first of the places
where the expression may end and from which anything comes** (`runs_layOut`), if the rounds of its
repetitions without bound take something. It is proved part by part; what is known of a part that is laid
out is `Runs`.

Hence **the match that an automaton prefers at a place is the one that the expression prefers**
(`matchFrom?_ofRegex`).
-/

namespace Quire.Regex.Automaton

variable {m : Automaton} {p : Place}

/-! ## 1. States that are laid out -/

/-- Whether what lays out states takes away none of those before it, and changes none. -/
def Keeps (lay : Nat → Array State → Laid) : Prop :=
  ∀ after states, states.size ≤ (lay after states).2.size ∧
    ∀ j < states.size, (lay after states).2[j]? = states[j]?

/-- Whether an automaton has the states that have been laid out behind the first `size`. -/
def Has (m : Automaton) (size : Nat) (states : Array State) : Prop :=
  ∀ j, size ≤ j → j < states.size → m.states[j]? = states[j]?

theorem Has.push {size : Nat} {states : Array State} {s : State} (h : Has m size (states.push s))
    (hle : size ≤ states.size) : m.states[states.size]? = some s := by
  rw [h states.size hle (by rw [Array.size_push]; omega), Array.getElem?_push_size]

theorem Has.of_push {size : Nat} {states : Array State} {s : State}
    (h : Has m size (states.push s)) : Has m size states := by
  intro j hj hlt
  rw [h j hj (by rw [Array.size_push]; omega), Array.getElem?_push_lt hlt,
    Array.getElem?_eq_getElem hlt]

/-- What an automaton has of states that have been laid out in two steps. -/
theorem Has.of_lay {lay : Nat → Array State → Laid} (hk : Keeps lay) {size after : Nat}
    {states : Array State} (hle : size ≤ states.size) (h : Has m size (lay after states).2) :
    Has m size states ∧ Has m states.size (lay after states).2 := by
  obtain ⟨hsize, hkeep⟩ := hk after states
  exact ⟨fun j hj hlt => by rw [h j hj (by omega), hkeep j hlt],
    fun j hj hlt => h j (by omega) hlt⟩

theorem keeps_push (f : Nat → State) :
    Keeps fun after states => (states.size, states.push (f after)) := by
  intro after states
  refine ⟨by rw [Array.size_push]; omega, fun j hj => ?_⟩
  rw [Array.getElem?_push_lt hj, Array.getElem?_eq_getElem hj]

/-- What is laid out for a part, with one state more. -/
theorem Keeps.push {lay : Nat → Array State → Laid} (h : Keeps lay) (f : Nat → Laid → State) :
    Keeps fun after states =>
      ((lay after states).2.size, (lay after states).2.push (f after (lay after states))) := by
  intro after states
  obtain ⟨hsize, hkeep⟩ := h after states
  refine ⟨by rw [Array.size_push]; omega, fun j hj => ?_⟩
  have hlt : j < (lay after states).2.size := by omega
  rw [Array.getElem?_push_lt hlt, ← Array.getElem?_eq_getElem hlt, hkeep j hj]

/-! ## 2. Parts -/

/-- What is known of a part that is laid out: nothing that stood is changed; where the automaton has
its states, the one to begin in settles, and comes to what comes after the first place where the part may
end and from which anything comes. If the part takes something, its beginning settles whatever comes
after it. -/
structure Runs (m : Automaton) (lay : Nat → Array State → Laid) (w : Way) (nothing : Bool) :
    Prop where
  keeps : Keeps lay
  settles : ∀ after states, Has m states.size (lay after states).2 →
    ∀ p, (nothing = true → Settles m p after) → Settles m p (lay after states).1
  stops : ∀ after states, Has m states.size (lay after states).2 →
    (∀ p, Settles m p after) →
      ∀ p, m.stop? p (lay after states).1 = (w p).findSome? (m.stop? · after)

theorem findSome?_flatMap {α β γ : Type} (l : List α) (f : α → List β) (g : β → Option γ) :
    (l.flatMap f).findSome? g = l.findSome? fun x => (f x).findSome? g := by
  induction l with
  | nil => rfl
  | cons x l ih =>
      rw [List.flatMap_cons, List.findSome?_append, ih, List.findSome?_cons]
      cases (f x).findSome? g <;> rfl

namespace Runs

variable {lay lay' : Nat → Array State → Laid} {w w' : Way} {b b' : Bool}

theorem weaken (h : Runs m lay w b) (hb : b = true → b' = true) : Runs m lay w b' where
  keeps := h.keeps
  settles after states hm p ha := h.settles after states hm p fun hb' => ha (hb hb')
  stops := h.stops

theorem here : Runs m (fun after states => (after, states)) (fun p => [p]) true where
  keeps _ _ := ⟨Nat.le_refl _, fun _ _ => rfl⟩
  settles _ _ _ _ h := h rfl
  stops _ _ _ _ _ := by simp

theorem take (set : CharSet) :
    Runs m (fun after states => (states.size, states.push (.take set after)))
      (one set).ends false where
  keeps := keeps_push _
  settles _ _ h _ _ := settles_of_isWaiting (by rw [isWaiting, h.push (Nat.le_refl _)])
  stops _ _ h _ _ := stop?_take (h.push (Nat.le_refl _))

theorem check (a : Assertion) :
    Runs m (fun after states => (states.size, states.push (.check a after)))
      (holds a).ends true where
  keeps := keeps_push _
  settles _ _ h _ ha := settles_check (h.push (Nat.le_refl _)) (ha rfl)
  stops _ _ h ha p :=
    stop?_of_check (h.push (Nat.le_refl _)) (settles_check (h.push (Nat.le_refl _)) (ha p))

/-- One part after another. -/
theorem comp (h : Runs m lay w b) (h' : Runs m lay' w' b') :
    Runs m (fun after states => lay (lay' after states).1 (lay' after states).2)
      (fun p => (w p).flatMap w') (b && b') where
  keeps after states := by
    obtain ⟨hsize', hkeep'⟩ := h'.keeps after states
    obtain ⟨hsize, hkeep⟩ := h.keeps (lay' after states).1 (lay' after states).2
    exact ⟨hsize'.trans hsize, fun j hj => by rw [hkeep j (by omega), hkeep' j hj]⟩
  settles after states hm p ha := by
    obtain ⟨hm', hm⟩ := hm.of_lay h.keeps (h'.keeps after states).1
    refine h.settles _ _ hm p fun hb => h'.settles _ _ hm' p fun hb' => ha ?_
    rw [hb, hb', Bool.and_true]
  stops after states hm ha p := by
    obtain ⟨hm', hm⟩ := hm.of_lay h.keeps (h'.keeps after states).1
    have hbetween : ∀ p, Settles m p (lay' after states).1 :=
      fun p => h'.settles _ _ hm' p fun _ => ha p
    rw [h.stops _ _ hm hbetween, findSome?_flatMap]
    exact findSome?_congr fun q _ => h'.stops _ _ hm' ha q

/-- Two parts before the same state, and a fork between them. -/
theorem alt (h : Runs m lay w b) (h' : Runs m lay' w' b') :
    Runs m
      (fun after states =>
        ((lay after (lay' after states).2).2.size,
          (lay after (lay' after states).2).2.push
            (.fork (lay after (lay' after states).2).1 (lay' after states).1)))
      (fun p => w p ++ w' p) (b || b') where
  keeps after states := by
    obtain ⟨hsize', hkeep'⟩ := h'.keeps after states
    obtain ⟨hsize, hkeep⟩ := h.keeps after (lay' after states).2
    refine ⟨by rw [Array.size_push]; omega, fun j hj => ?_⟩
    have hlt : j < (lay after (lay' after states).2).2.size := by omega
    rw [Array.getElem?_push_lt hlt, ← Array.getElem?_eq_getElem hlt, hkeep j (by omega),
      hkeep' j hj]
  settles after states hm p ha := by
    have hle := (h'.keeps after states).1
    have hfork := hm.push (hle.trans (h.keeps after (lay' after states).2).1)
    obtain ⟨hm', hm⟩ := hm.of_push.of_lay h.keeps hle
    exact settles_fork hfork
      (h.settles _ _ hm p fun hb => ha (by rw [hb, Bool.true_or]))
      (h'.settles _ _ hm' p fun hb => ha (by rw [hb, Bool.or_true]))
  stops after states hm ha p := by
    have hle := (h'.keeps after states).1
    have hfork := hm.push (hle.trans (h.keeps after (lay' after states).2).1)
    obtain ⟨hm', hm⟩ := hm.of_push.of_lay h.keeps hle
    have hsettles := settles_fork hfork (h.settles _ _ hm p fun _ => ha p)
      (h'.settles _ _ hm' p fun _ => ha p)
    rw [stop?_fork hfork hsettles, h.stops _ _ hm ha, h'.stops _ _ hm' ha, List.findSome?_append]

/-- A part that is gone round once more, or not. -/
theorem turn (h : Runs m lay w b) (greedy : Bool) :
    Runs m
      (fun after states =>
        ((lay after states).2.size,
          (lay after states).2.push (Automaton.turn greedy (lay after states).1 after)))
      (fun p => inTurn greedy (w p) p) true where
  keeps := h.keeps.push fun after l => Automaton.turn greedy l.1 after
  settles after states hm p ha :=
    settles_turn (hm.push (h.keeps after states).1)
      (h.settles _ _ hm.of_push p fun _ => ha rfl) (ha rfl)
  stops after states hm ha p := by
    have hturn := hm.push (h.keeps after states).1
    exact stop?_turn hturn (settles_turn hturn (h.settles _ _ hm.of_push p fun _ => ha p) (ha p))
      (h.stops _ _ hm.of_push ha p)

theorem rounds (h : Runs m lay w b) (n : Nat) :
    Runs m (Automaton.rounds lay n) (w.rounds n) (n == 0 || b) := by
  induction n with
  | zero => exact here
  | succ n ih => exact (h.comp ih).weaken fun hb => by simp at hb ⊢; exact hb.1

theorem optional (h : Runs m lay w b) (greedy : Bool) (n : Nat) :
    Runs m (fun after states => Automaton.optional lay greedy after n states)
      (w.optional greedy n) true := by
  induction n with
  | zero => exact here
  | succ n ih => exact (h.comp ih).turn greedy

end Runs

/-! ## 3. Loops -/

section

variable {lay : Nat → Array State → Laid} {w : Way} {greedy : Bool} {after : Nat}
  {states : Array State}

/-- A loop is its round, laid out before its fork, and then the fork. -/
theorem loop_eq (lay : Nat → Array State → Laid) (greedy : Bool) (after : Nat)
    (states : Array State) :
    loop lay greedy after states =
      ((lay states.size (states.push .accept)).1, states.size,
        (lay states.size (states.push .accept)).2.setIfInBounds states.size
          (turn greedy (lay states.size (states.push .accept)).1 after)) := rfl

theorem keeps_loop (h : Keeps lay) (greedy : Bool) :
    Keeps fun after states => (loop lay greedy after states).2 := by
  intro after states
  obtain ⟨hsize, hkeep⟩ := h states.size (states.push .accept)
  rw [Array.size_push] at hsize hkeep
  dsimp only
  rw [loop_eq, Array.size_setIfInBounds]
  refine ⟨by omega, fun j hj => ?_⟩
  rw [Array.getElem?_setIfInBounds_ne (by omega), hkeep j (by omega), Array.getElem?_push_lt hj,
    Array.getElem?_eq_getElem hj]

/-- Where an automaton has the states of a loop, it has its fork, and the states of its round. -/
theorem Has.of_loop (h : Keeps lay) (hm : Has m states.size (loop lay greedy after states).2.2) :
    m.states[states.size]? =
        some (turn greedy (lay states.size (states.push .accept)).1 after) ∧
      Has m (states.push .accept).size (lay states.size (states.push .accept)).2 := by
  have hsize := (h states.size (states.push .accept)).1
  rw [Array.size_push] at hsize ⊢
  rw [loop_eq] at hm
  constructor
  · rw [hm states.size (Nat.le_refl _) (by rw [Array.size_setIfInBounds]; omega),
      Array.getElem?_setIfInBounds_self_of_lt (by omega)]
  · intro j hj hlt
    rw [hm j (by omega) (by rw [Array.size_setIfInBounds]; exact hlt),
      Array.getElem?_setIfInBounds_ne (by omega)]

/-- **The fork of a loop settles.** The round takes something before it comes to the fork, and so begins in
a state that settles whatever the fork does. -/
theorem settles_loop (h : Runs m lay w false)
    (hm : Has m states.size (loop lay greedy after states).2.2) (ha : Settles m p after) :
    Settles m p states.size := by
  obtain ⟨hturn, hround⟩ := hm.of_loop h.keeps
  exact settles_turn hturn (h.settles _ _ hround p nofun) ha

/-- **The fork of a loop comes to what the loop comes to.** Behind a round the fork is entered further
on. -/
theorem stop?_loop (h : Runs m lay w false) (hw : w.Goes true)
    (hm : Has m states.size (loop lay greedy after states).2.2) (ha : ∀ p, Settles m p after)
    (p : Place) : m.stop? p states.size = (w.loop greedy p).findSome? (m.stop? · after) := by
  obtain ⟨hturn, hround⟩ := hm.of_loop h.keeps
  have hfork : ∀ p, Settles m p states.size := fun p => settles_loop h hm (ha p)
  induction hp : p.left using Nat.strongRecOn generalizing p with
  | _ n ih =>
    rw [Way.loop_eq hw]
    refine stop?_turn hturn (hfork p) ?_
    rw [h.stops _ _ hround hfork, findSome?_flatMap]
    exact findSome?_congr fun q hq => ih q.left (hp ▸ (hw p q hq).2 rfl) q rfl

/-- Any number of rounds, each of which takes something. -/
theorem Runs.loop (h : Runs m lay w false) (hw : w.Goes true) (greedy : Bool) :
    Runs m (fun after states => (Automaton.loop lay greedy after states).2) (w.loop greedy)
      true where
  keeps := keeps_loop h.keeps greedy
  settles _ _ hm _ ha := settles_loop h hm (ha rfl)
  stops _ _ hm ha := stop?_loop h hw hm ha

/-- One round at least, each of which takes something. -/
theorem Runs.loopRound (h : Runs m lay w false) (hw : w.Goes true) (greedy : Bool) :
    Runs m
      (fun after states => ((Automaton.loop lay greedy after states).1,
        (Automaton.loop lay greedy after states).2.2))
      (fun p => (w p).flatMap (w.loop greedy)) false where
  keeps := keeps_loop h.keeps greedy
  settles _ _ hm p _ := h.settles _ _ (hm.of_loop h.keeps).2 p nofun
  stops _ _ hm ha p := by
    rw [findSome?_flatMap]
    refine (h.stops _ _ (hm.of_loop h.keeps).2 (fun p => settles_loop h hm (ha p)) p).trans ?_
    exact findSome?_congr fun q _ => stop?_loop h hw hm ha q

end

/-! ## 4. The automaton of an expression -/

/-- **What is laid out for an expression comes to what comes after the first place where it may end and
from which anything comes.** -/
theorem runs_layOut (m : Automaton) {r : Regex} (hr : r.isProper = true) :
    Runs m (layOut r) r.ends r.mayTakeNothing := by
  induction r with
  | empty => exact .here
  | one set => exact .take set
  | holds a => exact .check a
  | seq a b iha ihb =>
      rw [isProper, Bool.and_eq_true] at hr
      exact (iha hr.1).comp (ihb hr.2)
  | alt a b iha ihb =>
      rw [isProper, Bool.and_eq_true] at hr
      exact (iha hr.1).alt (ihb hr.2)
  | group _ a ih => exact ih hr
  | times least most greedy a ih =>
      cases most with
      | some most =>
          have hrounds := ((ih hr).rounds least).comp ((ih hr).optional greedy (most - least))
          exact hrounds.weaken fun hb => by simpa [mayTakeNothing] using hb
      | none =>
          rw [isProper, Bool.and_eq_true, Bool.not_eq_true'] at hr
          have hround := ih hr.1
          have hgoes := goes_ends a
          rw [hr.2] at hround hgoes
          cases least with
          | zero =>
              have hlay : layOut (times 0 none greedy a) =
                  fun after states => (loop (layOut a) greedy after states).2 := by
                funext after states
                rw [layOut]
                exact if_neg (by simp [hr.2])
              have hends : (times 0 none greedy a).ends = Way.loop a.ends greedy := by
                funext p
                rw [ends, Way.rounds, List.flatMap_singleton]
              rw [hlay, hends]
              exact hround.loop hgoes greedy
          | succ n =>
              have hends : (times (n + 1) none greedy a).ends = fun p =>
                  (Way.rounds a.ends n p).flatMap fun q =>
                    (a.ends q).flatMap (Way.loop a.ends greedy) := by
                funext p
                rw [ends, Way.rounds_succ, List.flatMap_assoc]
              rw [hends]
              exact ((hround.rounds n).comp (hround.loopRound hgoes greedy)).weaken
                fun hb => by simp at hb

/-- **The match that the automaton of an expression prefers at a place is the one that the expression
prefers.** -/
theorem matchFrom?_ofRegex {r : Regex} (hr : r.isProper = true) (p : Place) :
    (ofRegex r).matchFrom? p =
      if p.before.isNone || !r.isAnchored then (r.ends p).head?.map (Span.mk p) else none := by
  have hruns := runs_layOut (ofRegex r) hr
  have haccept : (ofRegex r).states[0]? = some .accept :=
    (hruns.keeps 0 #[.accept]).2 0 Nat.one_pos
  have hstop : (ofRegex r).stop? p (ofRegex r).start = (r.ends p).head? := by
    have hsome : (r.ends p).findSome? (fun q => (ofRegex r).stop? q 0) = (r.ends p).head? := by
      rw [findSome?_congr fun q _ => stop?_accept haccept]
      cases r.ends p <;> rfl
    rw [← hsome]
    exact hruns.stops 0 #[.accept] (fun _ _ _ => rfl)
      (fun p => settles_of_isWaiting (by rw [isWaiting, haccept])) p
  rw [matchFrom?, hstop]
  rfl

end Quire.Regex.Automaton
