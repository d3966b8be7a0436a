import Quire.Proofs.Regex.Entering
import Quire.Proofs.Regex.Way

/-!
# What an automaton finds

`find?` follows all ways through an automaton at once and lets new ones begin while it runs. Told
one at a time, the ways are simple: a thread that waits in a state ends, if at all, at one place
(`stopFrom?`), and the match that begins at a place is the one of the first thread that ends at all
(`matchFrom?`).

**`find?` gives the match at the first place where one begins** (`find?_eq_first?`). The invariant is
on the front: it is worth what the first of its threads comes to that ends (`Front.first?`). A
thread that is left out, since one stands in its state already, takes nothing away from that: if the
one that stands there ends, it has the turn anyway, and if it does not, neither would the other.
-/

namespace Quire.Regex.Automaton

open Quire.Text (byteSize byteSize_cons)

variable {m : Automaton} {p q : Place}

/-! ## 1. Where a thread ends -/

/-- The place where the preferred match ends that a thread comes to, if it waits at `p` in a
state. -/
def stopFrom? (m : Automaton) (p : Place) (i : Nat) : Option Place :=
  match m.states[i]? with
  | some .accept => some p
  | some (.take set next) =>
    match _h : p.next? with
    | some (c, q) =>
      if set.has c then (m.waiting q next).findSome? (stopFrom? m q) else none
    | none => none
  | _ => none
  termination_by p.left
  decreasing_by exact Place.left_lt_of_next? _h

/-- The place where the preferred match ends that a state comes to, if it is entered at `p`. -/
def stop? (m : Automaton) (p : Place) (i : Nat) : Option Place :=
  (m.waiting p i).findSome? (m.stopFrom? p)

/-- The same for a thread that waits in a state and takes a character, after which the place is
`q`. -/
def stopAfter? (m : Automaton) (c : Char) (q : Place) (i : Nat) : Option Place :=
  match m.states[i]? with
  | some (.take set next) => if set.has c then m.stop? q next else none
  | _ => none

/-- The match that begins at a place, the preferred one. -/
def matchFrom? (m : Automaton) (p : Place) : Option Span :=
  if p.before.isNone || !m.anchored then (m.stop? p m.start).map (Span.mk p) else none

theorem stopFrom?_of_accepts {i : Nat} (h : m.accepts i = true) : m.stopFrom? p i = some p := by
  unfold accepts at h
  rw [stopFrom?]
  split at h
  · rename_i hs
    rw [hs]
  · cases h

/-- A thread that is not complete takes the next character. -/
theorem stopFrom?_of_next? {i : Nat} {c : Char} (h : m.accepts i = false)
    (hn : p.next? = some (c, q)) : m.stopFrom? p i = m.stopAfter? c q i := by
  unfold accepts at h
  rw [stopFrom?, stopAfter?]
  split
  · rename_i hs
    rw [hs] at h
    cases h
  · rename_i set next hs
    rw [hs]
    split
    · rename_i c' q' hn'
      have e := hn.symm.trans hn'
      simp only [Option.some.injEq, Prod.mk.injEq] at e
      obtain ⟨rfl, rfl⟩ := e
      rfl
    · rename_i hn'
      rw [hn] at hn'
      cases hn'
  · rename_i hs
    split
    · rename_i set next hs'
      exact absurd hs' (hs set next)
    · rfl

/-- At the end of the text a thread that is not complete comes to nothing. -/
theorem stopFrom?_of_end {i : Nat} (h : m.accepts i = false) (hn : p.next? = none) :
    m.stopFrom? p i = none := by
  unfold accepts at h
  rw [stopFrom?]
  split
  · rename_i hs
    rw [hs] at h
    cases h
  · split
    · rename_i hn'
      rw [hn] at hn'
      cases hn'
    · rfl
  · rfl

/-- **A match ends at or after the place where its thread waits.** -/
theorem reaches_of_stopFrom? {i : Nat} (h : m.stopFrom? p i = some q) : p.Reaches q := by
  induction p using Place.next_induction generalizing i with
  | step p ih =>
    cases ha : m.accepts i with
    | true =>
        rw [stopFrom?_of_accepts ha, Option.some.injEq] at h
        subst h
        exact .here p
    | false =>
        cases hn : p.next? with
        | none =>
            rw [stopFrom?_of_end ha hn] at h
            cases h
        | some n =>
            obtain ⟨c, r⟩ := n
            rw [stopFrom?_of_next? ha hn, stopAfter?] at h
            split at h
            · split at h
              · obtain ⟨j, -, hj⟩ := List.exists_of_findSome?_eq_some h
                exact .step hn (ih c r hn hj)
              · cases h
            · cases h

/-- **A match begins where it is looked for and ends there or further on.** -/
theorem of_matchFrom? {s : Span} (h : m.matchFrom? p = some s) :
    s.start = p ∧ p.Reaches s.stop := by
  unfold matchFrom? at h
  split at h
  · obtain ⟨q, hq, rfl⟩ := Option.map_eq_some_iff.1 h
    obtain ⟨j, -, hj⟩ := List.exists_of_findSome?_eq_some hq
    exact ⟨rfl, reaches_of_stopFrom? hj⟩
  · cases h

/-! ## 2. What a front is worth -/

/-- The match of the first thread that comes to one. -/
def firstOf (m : Automaton) (p : Place) (ts : List Thread) : Option Span :=
  ts.findSome? fun t => (m.stopFrom? p t.state).map (Span.mk t.origin)

/-- The match of the first thread of a front that comes to one. -/
def Front.first? (m : Automaton) (p : Place) (f : Front) : Option Span :=
  m.firstOf p f.threads.reverse

@[simp] theorem Front.first?_empty : Front.first? m p {} = none := rfl

/-- Leaving out what has no answer changes no first answer. -/
theorem findSome?_filter {α β : Type} {g : α → Option β} {keep : α → Bool} {l : List α}
    (h : ∀ x ∈ l, keep x = false → g x = none) : (l.filter keep).findSome? g = l.findSome? g := by
  induction l with
  | nil => rfl
  | cons x l ih =>
      have ih' := ih fun y hy => h y (List.mem_cons_of_mem _ hy)
      cases hk : keep x with
      | true => rw [List.filter_cons_of_pos hk, List.findSome?_cons, List.findSome?_cons, ih']
      | false =>
          rw [List.filter_cons_of_neg (by simp [hk]), List.findSome?_cons,
            h x List.mem_cons_self hk, ih']

theorem isWaiting_of_mem_waiting {i j : Nat} (h : j ∈ m.waiting p i) : m.isWaiting j = true := by
  obtain ⟨r, hv, -⟩ := visits_enterOne (m := m) (p := p) p i {}
  rw [Front.states_empty] at hv
  rw [waiting_eq hv] at h
  exact (List.mem_filter.1 h).2

/-- **A front into which a state is entered is worth what it was worth before, or else what that
state comes to.** -/
theorem first?_enterOne (origin : Place) (i : Nat) {f : Front} (hf : f.Sound m p) :
    (enterOne m p origin i f).first? m p =
      (f.first? m p).or ((m.stop? p i).map (Span.mk origin)) := by
  have happ : (enterOne m p origin i f).first? m p =
      (f.first? m p).or (firstOf m p
        (((m.waiting p i).filter fun j => !f.entered.testBit j).map (⟨·, origin⟩))) := by
    rw [Front.first?, threads_enterOne origin i hf, firstOf, List.findSome?_append]
    rfl
  rw [happ]
  cases hfirst : f.first? m p with
  | some s => rw [Option.some_or, Option.some_or]
  | none =>
      rw [Option.none_or, Option.none_or, firstOf, List.findSome?_map, stop?, List.map_findSome?]
      refine findSome?_filter fun j hj hk => ?_
      -- the thread that stands in `j` already comes to nothing, so `j` does not either
      have hmem : j ∈ f.states := by simpa [Front.mem_states] using hk
      obtain ⟨t, ht, rfl⟩ := hf.waits j hmem (isWaiting_of_mem_waiting hj)
      have hnone := List.findSome?_eq_none_iff.1 hfirst t (List.mem_reverse.2 ht)
      rw [Option.map_eq_none_iff] at hnone
      simp [hnone]

/-! ## 3. One character further -/

/-- A front at the place after a character, once a thread from before the character has had its
turn. -/
def Front.takeOne (m : Automaton) (c : Char) (q : Place) (f : Front) (t : Thread) : Front :=
  match m.states[t.state]? with
  | some (State.take set next) => if set.has c then m.enterOne q t.origin next f else f
  | _ => f

theorem advance_eq (c : Char) (q : Place) (ts : List Thread) :
    m.advance c q ts = ts.foldl (Front.takeOne m c q) {} := rfl

/-- **A thread's turn adds what it comes to after the character.** -/
theorem first?_takeOne (c : Char) (t : Thread) {f : Front} (hf : f.Sound m q) :
    (f.takeOne m c q t).Sound m q ∧
      (f.takeOne m c q t).first? m q =
        (f.first? m q).or ((m.stopAfter? c q t.state).map (Span.mk t.origin)) := by
  unfold Front.takeOne stopAfter?
  split
  · split
    · exact ⟨sound_enterOne _ _ hf, first?_enterOne _ _ hf⟩
    · exact ⟨hf, Option.or_none.symm⟩
  · exact ⟨hf, Option.or_none.symm⟩

theorem first?_takeAll (c : Char) (ts : List Thread) {f : Front} (hf : f.Sound m q) :
    (ts.foldl (Front.takeOne m c q) f).Sound m q ∧
      (ts.foldl (Front.takeOne m c q) f).first? m q =
        (f.first? m q).or
          (ts.findSome? fun t => (m.stopAfter? c q t.state).map (Span.mk t.origin)) := by
  induction ts generalizing f with
  | nil => exact ⟨hf, Option.or_none.symm⟩
  | cons t ts ih =>
      obtain ⟨hs, he⟩ := first?_takeOne c t hf
      obtain ⟨hs', he'⟩ := ih hs
      refine ⟨hs', ?_⟩
      rw [List.foldl_cons, he', he, Option.or_assoc, List.findSome?_cons]
      congr 1
      cases (m.stopAfter? c q t.state).map (Span.mk t.origin) with
      | none => rfl
      | some s => rfl

theorem sound_advance (c : Char) (q : Place) (ts : List Thread) :
    (m.advance c q ts).Sound m q :=
  (first?_takeAll c ts Front.sound_empty).1

/-- **Threads that are not complete come to what they come to after the next character.** -/
theorem first?_advance {c : Char} {ts : List Thread} (hn : p.next? = some (c, q))
    (hts : ∀ t ∈ ts, m.accepts t.state = false) :
    (m.advance c q ts).first? m q = m.firstOf p ts := by
  rw [advance_eq, (first?_takeAll c ts Front.sound_empty).2, Front.first?_empty, Option.none_or,
    firstOf]
  induction ts with
  | nil => rfl
  | cons t ts ih =>
      rw [List.findSome?_cons, List.findSome?_cons,
        stopFrom?_of_next? (hts t List.mem_cons_self) hn,
        ih fun t' ht' => hts t' (List.mem_cons_of_mem _ ht')]

/-- At the end of the text threads that are not complete come to nothing. -/
theorem firstOf_of_end {ts : List Thread} (hn : p.next? = none)
    (hts : ∀ t ∈ ts, m.accepts t.state = false) : m.firstOf p ts = none := by
  rw [firstOf, List.findSome?_eq_none_iff]
  intro t ht
  rw [stopFrom?_of_end (hts t ht) hn, Option.map_none]

/-- The match that is complete at a place, of the first thread that has one, or else the one that
is held. -/
def completed? (m : Automaton) (p : Place) (best : Option Span) (ts : List Thread) :
    Option Span :=
  match ts.find? fun t => m.accepts t.state with
  | some t => some ⟨t.origin, p⟩
  | none => best

/-- **Threads come to what those before the first complete one come to, or else to that one's
match.** Those after it have no turn. -/
theorem firstOf_or_eq (best : Option Span) (ts : List Thread) :
    (m.firstOf p ts).or best =
      (m.firstOf p (ts.takeWhile fun t => !m.accepts t.state)).or (m.completed? p best ts) := by
  induction ts with
  | nil => rfl
  | cons t ts ih =>
      cases ha : m.accepts t.state with
      | true => simp [firstOf, completed?, ha, stopFrom?_of_accepts ha]
      | false =>
          have hc : m.completed? p best (t :: ts) = m.completed? p best ts := by
            simp [completed?, ha]
          have ht : (t :: ts).takeWhile (fun t => !m.accepts t.state) =
              t :: ts.takeWhile fun t => !m.accepts t.state := by simp [ha]
          have hcons : ∀ l, m.firstOf p (t :: l) =
              ((m.stopFrom? p t.state).map (Span.mk t.origin)).or (m.firstOf p l) := by
            intro l
            rw [firstOf, List.findSome?_cons]
            cases (m.stopFrom? p t.state).map (Span.mk t.origin) with
            | none => rfl
            | some s => rfl
          rw [hc, ht, hcons, hcons, Option.or_assoc, ih, Option.or_assoc]

theorem accepts_of_mem_takeWhile {ts : List Thread} {t : Thread}
    (h : t ∈ ts.takeWhile fun t => !m.accepts t.state) : m.accepts t.state = false := by
  simpa using List.all_eq_true.1 List.all_takeWhile t h

/-! ## 4. The search -/

/-- The front at a place, once a match may have begun there. -/
def beginHere (m : Automaton) (p : Place) (best : Option Span) (f : Front) : Front :=
  if best.isNone && (p.before.isNone || !m.anchored) then m.enterOne p p m.start f else f

/-- **As long as nothing has been found, the match that begins here comes after those that began
before.** -/
theorem first?_beginHere (best : Option Span) {f : Front} (hf : f.Sound m p) :
    (m.beginHere p best f).Sound m p ∧
      ((m.beginHere p best f).first? m p).or best =
        (f.first? m p).or (best.or (m.matchFrom? p)) := by
  unfold beginHere matchFrom?
  cases best with
  | some s => exact ⟨hf, rfl⟩
  | none =>
      rw [Option.isNone_none, Bool.true_and, Option.none_or, Option.or_none]
      split
      · exact ⟨sound_enterOne _ _ hf, first?_enterOne _ _ hf⟩
      · exact ⟨hf, Option.or_none.symm⟩

/-- An anchored automaton finds nothing inside a text. -/
theorem first?_of_anchored (ha : m.anchored = true) (hb : p.before.isSome = true) :
    p.first? m.matchFrom? = none := by
  induction p using Place.next_induction with
  | step p ih =>
    have hh : m.matchFrom? p = none := by
      unfold matchFrom?
      rw [Option.isNone_eq_false_iff.2 hb, ha]
      rfl
    rw [Place.first?_step, hh, Option.none_or]
    cases hn : p.next? with
    | none => rfl
    | some n =>
        refine ih n.1 n.2 hn ?_
        rw [(Place.rest_of_next? hn).2]
        rfl

/-- One round of the search. -/
theorem searchIn_eq_step (before : Option Char) (rest : List Char) (left : Nat)
    (h : left = byteSize rest) (f : Front) (best : Option Span) :
    m.searchIn before rest left h f best =
      let p : Place := ⟨before, rest, left, h⟩
      let ts := (m.beginHere p best f).threads.reverse
      let best' := m.completed? p best ts
      let ts' := ts.takeWhile fun t => !m.accepts t.state
      match p.next? with
      | none => best'
      | some (c, q) =>
        if ts'.isEmpty && (best'.isSome || m.anchored) then best'
        else m.searchIn (some c) q.rest q.left q.left_eq (m.advance c q ts') best' := by
  cases rest with
  | nil => rfl
  | cons c cs => rfl

/-- **The search gives what the front comes to, or else what it holds, or else the first match
that begins at its place or further on.** -/
theorem searchIn_eq (f : Front) (best : Option Span) (hf : f.Sound m p) :
    m.searchIn p.before p.rest p.left p.left_eq f best =
      (f.first? m p).or (best.or (p.first? m.matchFrom?)) := by
  induction p using Place.next_induction generalizing f best with
  | step p ih =>
    obtain ⟨hs, hb⟩ := first?_beginHere best hf
    generalize hg : m.beginHere p best f = g at hs hb
    generalize hts : g.threads.reverse = ts
    -- what the front is worth here, and what is left of it for the places further on
    have hhere : ((f.first? m p).or best).or (m.matchFrom? p) =
        (m.firstOf p (ts.takeWhile fun t => !m.accepts t.state)).or (m.completed? p best ts) := by
      rw [Option.or_assoc, ← hb, ← firstOf_or_eq, ← hts]
      rfl
    have hwait : ∀ t ∈ ts.takeWhile (fun t => !m.accepts t.state), m.accepts t.state = false :=
      fun t ht => accepts_of_mem_takeWhile ht
    rw [searchIn_eq_step, Place.first?_step, ← Option.or_assoc, ← Option.or_assoc, hhere]
    simp only [hg, hts]
    cases hn : p.next? with
    | none =>
        simp only [firstOf_of_end hn hwait, Option.none_or, Option.bind_none, Option.or_none]
    | some n =>
        obtain ⟨c, q⟩ := n
        simp only [Option.bind_some, Option.or_assoc]
        split
        · rename_i hstop
          rw [Bool.and_eq_true, List.isEmpty_iff, Bool.or_eq_true] at hstop
          obtain ⟨hnil, hdone⟩ := hstop
          rw [hnil, firstOf, List.findSome?_nil, Option.none_or]
          cases hc : m.completed? p best ts with
          | some s => rw [Option.some_or]
          | none =>
              have ha : m.anchored = true := by simpa [hc] using hdone
              have hq : q.before.isSome = true := by
                rw [(Place.rest_of_next? hn).2]
                rfl
              rw [first?_of_anchored ha hq, Option.none_or]
        · have hq := (Place.rest_of_next? hn).2
          have hrec := ih c q hn (m.advance c q (ts.takeWhile fun t => !m.accepts t.state))
            (m.completed? p best ts) (sound_advance _ _ _)
          rw [hq, first?_advance hn hwait] at hrec
          exact hrec

/-- **An automaton finds the match at the first place where one begins.** -/
theorem find?_eq_first? (m : Automaton) (p : Place) : m.find? p = p.first? m.matchFrom? := by
  rw [find?, searchIn_eq {} none Front.sound_empty, Front.first?_empty, Option.none_or,
    Option.none_or]

theorem isSearch_find? (m : Automaton) : IsSearch m.find? m.matchFrom? where
  step p := by
    rw [find?_eq_first?, Place.first?_step]
    simp only [find?_eq_first?]
  start_eq _ _ h := (of_matchFrom? h).1

end Quire.Regex.Automaton
