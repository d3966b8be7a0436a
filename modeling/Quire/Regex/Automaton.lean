import Quire.Regex.Basic
import Quire.Regex.Place

/-!
# Running expressions

An expression is run as an automaton: numbered states, each of which takes a character, checks the
place, or forks into two states, the first of them preferred. Several ways through it are followed
at once, one `Thread` for each, and a state is entered once at a place, by the way that is
preferred. Hence a search takes one pass over the text, and **a round of a repetition that took no
character does not go round again, while what comes after it in order of preference still has its
turn.**

* `ofRegex` is the automaton of an expression;
* `find?` is its search: of the matches that begin first, the preferred one.
-/

namespace Quire

/-! ## 1. Assertions -/

/-- Whether a character is there and belongs to a word. -/
def Regex.isWordAt : Option Char → Bool
  | some c => Text.isWord c
  | none => false

/-- Whether an assertion holds of a place. -/
def Assertion.check (a : Assertion) (p : Regex.Place) : Bool :=
  match a with
  | textStart => p.before.isNone
  | textEnd => p.rest.isEmpty
  | wordEdge => Regex.isWordAt p.before != Regex.isWordAt p.rest.head?
  | notWordEdge => Regex.isWordAt p.before == Regex.isWordAt p.rest.head?

namespace Regex

open Text (byteSize byteSize_cons)

/-! ## 2. Automata -/

/-- A state of an automaton. -/
inductive State where
  /-- The match is complete. -/
  | accept
  /-- Takes a character of a set. -/
  | take (set : CharSet) (next : Nat)
  /-- Goes on where an assertion holds. -/
  | check (a : Assertion) (next : Nat)
  /-- Goes on in two ways, the first preferred. -/
  | fork (first second : Nat)
  deriving Repr, DecidableEq

/-- An automaton: its states, the one it begins in, and whether it matches only where the text
begins. -/
structure Automaton where
  states : Array State
  start : Nat
  anchored : Bool
  deriving Repr, DecidableEq

namespace Automaton

/-! ## 3. The automaton of an expression -/

/-- States that are being laid out, with the number of the one that has been added for a part. -/
abbrev Laid := Nat × Array State

/-- The fork between another round, which begins in `again`, and what comes after. -/
def turn (greedy : Bool) (again after : Nat) : State :=
  if greedy then .fork again after else .fork after again

/-- `n` rounds, each laid out by `body` before what comes after it. -/
def rounds (body : Nat → Array State → Laid) : Nat → Nat → Array State → Laid
  | 0, after, states => (after, states)
  | n + 1, after, states =>
    let (after, states) := rounds body n after states
    body after states

/-- At most `n` rounds, after each of which it can go on in `after`. -/
def optional (body : Nat → Array State → Laid) (greedy : Bool) (after : Nat) :
    Nat → Array State → Laid
  | 0, states => (after, states)
  | n + 1, states =>
    let (more, states) := optional body greedy after n states
    let (again, states) := body more states
    (states.size, states.push (turn greedy again after))

/-- A round that can be gone again any number of times. The first number is that of the round, the
second that of the fork behind it. -/
def loop (body : Nat → Array State → Laid) (greedy : Bool) (after : Nat) (states : Array State) :
    Nat × Laid :=
  let fork := states.size
  let (again, states) := body fork (states.push .accept)
  (again, fork, states.setIfInBounds fork (turn greedy again after))

/-- Lays out the states of an expression, so that a match goes on in `after`. -/
def layOut : Regex → Nat → Array State → Laid
  | empty, after, states => (after, states)
  | one set, after, states => (states.size, states.push (.take set after))
  | holds a, after, states => (states.size, states.push (.check a after))
  | seq a b, after, states =>
    let (after, states) := layOut b after states
    layOut a after states
  | alt a b, after, states =>
    let (second, states) := layOut b after states
    let (first, states) := layOut a after states
    (states.size, states.push (.fork first second))
  | group _ a, after, states => layOut a after states
  | times least (some most) greedy a, after, states =>
    let (after, states) := optional (layOut a) greedy after (most - least) states
    rounds (layOut a) least after states
  | times 0 none greedy a, after, states =>
    let (again, fork, states) := loop (layOut a) greedy after states
    if a.mayTakeNothing then (states.size, states.push (turn greedy again after))
    else (fork, states)
  | times (n + 1) none greedy a, after, states =>
    let (again, _, states) := loop (layOut a) greedy after states
    rounds (layOut a) n again states

/-- The automaton of an expression. -/
def ofRegex (r : Regex) : Automaton :=
  let (start, states) := layOut r 0 #[.accept]
  ⟨states, start, r.isAnchored⟩

/-! ## 4. Threads -/

/-- A way through the automaton: the state it has come to and the place where its match begins. -/
structure Thread where
  state : Nat
  origin : Place

/-- The threads that have come to a place, the preferred one last, and the states that have been
entered there, each as a binary digit. -/
structure Front where
  entered : Nat := 0
  threads : List Thread := []

/-- Enters the states listed, in order, and all they lead to without taking a character; what has
been entered before is left alone. A state brings up two others at most, so `n` rounds are enough
if it is more than twice the number of states. -/
def enter (m : Automaton) (p : Place) (origin : Place) : Nat → List Nat → Front → Front
  | 0, _, f => f
  | _ + 1, [], f => f
  | n + 1, i :: more, f =>
    if f.entered.testBit i then enter m p origin n more f
    else
      let entered := f.entered ||| (1 <<< i)
      match m.states[i]? with
      | some (.fork first second) =>
        enter m p origin n (first :: second :: more) { f with entered := entered }
      | some (.check a next) =>
        enter m p origin n (if a.check p then next :: more else more) { f with entered := entered }
      | some _ => enter m p origin n more ⟨entered, ⟨i, origin⟩ :: f.threads⟩
      | none => enter m p origin n more { f with entered := entered }

/-- The front at a place that a state is entered from. -/
def enterOne (m : Automaton) (p : Place) (origin : Place) (i : Nat) (f : Front) : Front :=
  enter m p origin (2 * m.states.size + 1) [i] f

/-- Whether a match is complete in a state. -/
def accepts (m : Automaton) (i : Nat) : Bool :=
  match m.states[i]? with
  | some .accept => true
  | _ => false

/-- The front at `q` after the character `c`, from the threads before it, preferred ones first. -/
def advance (m : Automaton) (c : Char) (q : Place) (ts : List Thread) : Front :=
  ts.foldl
    (fun f t =>
      match m.states[t.state]? with
      | some (State.take set next) => if set.has c then m.enterOne q t.origin next f else f
      | _ => f)
    {}

/-! ## 5. Searching -/

/-- The search from a place on, to which the front `f` has come. As long as no match has been
found, one may begin here, which is preferred to none that began before. A complete match takes
the turn of all ways that are less preferred; it is held as `best` while those that are more
preferred go on. -/
def searchIn (m : Automaton) (before : Option Char) :
    (rest : List Char) → (left : Nat) → left = byteSize rest → Front → Option Span → Option Span
  | rest, left, h, f, best =>
    let p : Place := ⟨before, rest, left, h⟩
    let f := if best.isNone && (before.isNone || !m.anchored) then m.enterOne p p m.start f else f
    let ts := f.threads.reverse
    let best :=
      match ts.find? fun t => m.accepts t.state with
      | some t => some (Span.mk t.origin p)
      | none => best
    let ts := ts.takeWhile fun t => !m.accepts t.state
    match rest, h with
    | [], _ => best
    | c :: cs, h =>
      if ts.isEmpty && (best.isSome || m.anchored) then best
      else
        have h' : left - c.utf8Size = byteSize cs := by
          rw [h, byteSize_cons, Nat.add_sub_cancel_left]
        let q : Place := ⟨some c, cs, left - c.utf8Size, h'⟩
        searchIn m (some c) cs (left - c.utf8Size) h' (m.advance c q ts) best

/-- The match that begins first from a place on, and of those that begin there the preferred one. -/
def find? (m : Automaton) (p : Place) : Option Span :=
  m.searchIn p.before p.rest p.left p.left_eq {} none

end Automaton

end Regex

end Quire
