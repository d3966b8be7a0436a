import Quire.Proofs.Highlight.LookAhead
import Quire.Proofs.Highlight.Rescan
import Quire.Proofs.Regex.Preferred
import Quire.Proofs.Regex.Running

/-!
# What a grammar says of a text

A pattern is read as a clause: its expression, and the condition on what follows a match. `Clause.stopAt?`
is the place where the match ends that the expression prefers, if what follows is as the condition asks.
**A pattern that is ready to run finds just that** (`Clause.matchAt?_pattern`), if the expressions are
plain: no repetition without bound has rounds that take nothing, and the match takes something and is not
held to the beginning of the text.

So the tokens of a text can be told from the text of a grammar: where a match of a pattern begins, and none
of a pattern listed before it, the text begins with that token (`Lexer.tokenize_eq_cons`), and where no match
begins any more there are no more tokens (`Lexer.rescan_eq_nil`).
-/

namespace Quire.Highlight

open Quire.Regex (Automaton CharSet Place Span exists_of_bind_eq_ok reading)
open Quire.Text (byteSize byteSize_append)

/-! ## 1. Clauses -/

/-- The expression that a text is, if it may stand in `above` groups more. -/
def expression? (above : Nat) (text : String) : Option Regex :=
  match reading text.toList with
  | .ok a => if a.depth + above ≤ Regex.maxDepth then some a.value else none
  | .error _ => none

theorem expression?_eq_some_iff {above : Nat} {text : String} {r : Regex} :
    expression? above text = some r ↔
      ∃ a, reading text.toList = .ok a ∧ a.depth + above ≤ Regex.maxDepth ∧ a.value = r := by
  rw [expression?]
  cases reading text.toList with
  | error e => exact ⟨nofun, nofun⟩
  | ok a => simp

/-- An expression can be made ready if there is room for it. -/
theorem ofString_of_expression? {text : String} {r : Regex} (h : expression? 0 text = some r)
    (hsize : r.size ≤ Regex.maxSize) : Regex.ofString text = .ok r := by
  obtain ⟨a, ha, hdepth, rfl⟩ := expression?_eq_some_iff.1 h
  rw [Regex.ofString, Regex.ofChars_eq, ha]
  exact Regex.Nested.fitting_eq_ok_iff.2 ⟨hdepth, hsize, rfl⟩

/-- A text that is an expression closes no group that it has not opened. -/
theorem ofString_ne_groupNotOpened {above : Nat} {text : String} {r : Regex}
    (h : expression? above text = some r) : Regex.ofString text ≠ .error .groupNotOpened := by
  obtain ⟨a, ha, -⟩ := expression?_eq_some_iff.1 h
  rw [Regex.ofString, Regex.ofChars_eq, ha]
  intro hfitting
  change Regex.Nested.fitting a = _ at hfitting
  unfold Regex.Nested.fitting at hfitting
  split at hfitting
  · cases hfitting
  split at hfitting
  · cases hfitting
  · cases hfitting

/-- What is asked of what follows a match: that an expression matches there, or that it does not. -/
structure Condition where
  required : Bool
  regex : Regex
  deriving DecidableEq

namespace Condition

/-- The expression of a condition, held to the beginning. -/
def held (a : Condition) : Regex :=
  Regex.concat [.holds .textStart, a.regex]

/-- Whether what stands at a place is as a condition asks. -/
def allows (a : Condition) (q : Place) : Bool :=
  (a.regex.ends q.alone).head?.isSome == a.required

end Condition

/-- What the text of a pattern says. -/
structure Clause where
  name : String
  rule : Rule
  regex : Regex
  condition : Option Condition
  deriving DecidableEq

/-- The condition that a look-ahead is. -/
def LookAhead.condition? (l : LookAhead) : Option Condition :=
  (expression? 2 l.regex).map (.mk l.required)

/-- The clause that a pattern is. -/
def PatternText.clause? (t : PatternText) : Option Clause := do
  let regex ← expression? 0 t.regex
  let condition ← t.lookAhead.mapM LookAhead.condition?
  return ⟨t.name, t.rule, regex, condition⟩

namespace Clause

/-- Whether what follows a match is as a clause asks. -/
def allows (k : Clause) (q : Place) : Bool :=
  k.condition.all (·.allows q)

/-- The place where the match of a clause ends that begins at a place, if there is one that counts. -/
def stopAt? (k : Clause) (q : Place) : Option Place :=
  (k.regex.ends q).head?.filter k.allows

/-- Whether a match begins at the edge of a word, as can be seen from the first part. -/
def startsAtEdge (k : Clause) : Bool :=
  match k.regex with
  | .seq (.holds .wordEdge) _ => true
  | _ => false

/-- Whether a clause takes something, wherever it matches, is not held to the beginning of the text, and
has no repetition without bound whose rounds take nothing. -/
def isPlain (k : Clause) : Bool :=
  k.regex.isProper && !k.regex.isAnchored && !k.regex.mayTakeNothing &&
    k.condition.all (·.regex.isProper)

/-- Whether there is room for the expressions of a clause. -/
def fits (k : Clause) : Bool :=
  decide (k.regex.size ≤ Regex.maxSize) &&
    k.condition.all fun a => decide (a.held.size ≤ Regex.maxSize)

/-- The pattern that is ready to run. -/
def pattern (k : Clause) : Pattern :=
  ⟨k.name, k.rule, .ofRegex k.regex, k.condition.map fun a => ⟨.ofRegex a.held, a.required⟩⟩

variable {k : Clause} {q s : Place}

theorem of_isPlain (h : k.isPlain = true) :
    k.regex.isProper = true ∧ k.regex.isAnchored = false ∧ k.regex.mayTakeNothing = false ∧
      ∀ a ∈ k.condition, a.regex.isProper = true := by
  simp only [isPlain, Bool.and_eq_true, Bool.not_eq_true', Option.all_eq_true] at h
  exact ⟨h.1.1.1, h.1.1.2, h.1.2, h.2⟩

/-- **A match begins with a character of one of the first sets.** -/
theorem stopAt?_eq_none_of_firsts (h : k.isPlain = true) (hq : ¬ q.Begins k.regex.firsts) :
    k.stopAt? q = none := by
  obtain ⟨-, -, htakes, -⟩ := of_isPlain h
  rw [stopAt?, Regex.ends_eq_nil_of_firsts htakes hq]
  rfl

/-- No match begins in front of a text that lacks a character that is needed. -/
theorem stopAt?_eq_none_of_musts {d : Char} (hd : CharSet.single d ∈ k.regex.musts)
    (h : d ∉ q.rest) : k.stopAt? q = none := by
  have hnone : ∀ c ∈ q.rest, (CharSet.single d).has c = false := fun c hc => by
    rw [CharSet.has_single, decide_eq_false]
    rintro rfl
    exact h hc
  rw [stopAt?, Regex.ends_eq_nil_of_musts hd hnone]
  rfl

/-- Inside a word and outside of words no match begins that begins at the edge of one. -/
theorem stopAt?_eq_none_of_edge (h : k.startsAtEdge = true)
    (hq : Regex.isWordAt q.before = Regex.isWordAt q.rest.head?) : k.stopAt? q = none := by
  unfold startsAtEdge at h
  split at h
  · rename_i r hr
    have hends : k.regex.ends q = [] :=
      List.eq_nil_iff_forall_not_mem.2 fun s hs => by
        rw [hr] at hs
        obtain ⟨_, hp, -⟩ := List.mem_flatMap.1 hs
        exact (Regex.mem_ends_wordEdge.1 hp).2 hq
    rw [stopAt?, hends]
    rfl
  · cases h

/-- What is preferred counts if what follows is as the clause asks. -/
theorem stopAt?_of_prefers (h : k.regex.Prefers q s) :
    k.stopAt? q = if k.allows s then some s else none := by
  rw [Regex.Prefers] at h
  rw [stopAt?, h, Option.filter_some]

theorem stopAt?_eq_some (h : k.regex.Prefers q s) (hallows : k.allows s = true) :
    k.stopAt? q = some s := by
  rw [stopAt?_of_prefers h, if_pos hallows]

theorem stopAt?_eq_none_of_ends (h : k.regex.ends q = []) : k.stopAt? q = none := by
  rw [stopAt?, h]
  rfl

/-- What counts is where a match of the expression ends. -/
theorem mem_ends_of_stopAt? (h : k.stopAt? q = some s) : s ∈ k.regex.ends q :=
  List.mem_of_head? (Option.filter_eq_some_iff.1 h).1

/-- What follows a match is allowed by the pattern that is ready to run as its clause asks. -/
theorem allows_pattern (h : k.isPlain = true) (q : Place) : k.pattern.allows q = k.allows q := by
  obtain ⟨-, -, -, hproper⟩ := of_isPlain h
  rw [Clause.allows]
  cases hk : k.condition with
  | none =>
      rw [Pattern.allows, pattern, hk]
      rfl
  | some a =>
      have hguard : k.pattern.guard = some ⟨.ofRegex a.held, a.required⟩ := by
        rw [pattern, hk]
        rfl
      have halone : Place.ofString (String.ofList q.rest) = q.alone :=
        Place.eq_of_rest_eq rfl String.toList_ofList
      have hbefore : q.alone.before.isNone = true := rfl
      have hfront : MatchesFront a.regex (String.ofList q.rest) ↔
          (a.regex.ends q.alone).head?.isSome = true := by
        rw [MatchesFront, halone, ← Automaton.matchFrom?_isSome_iff,
          Automaton.matchFrom?_ofRegex (hproper a hk), hbefore, Bool.true_or, if_pos rfl,
          Option.isSome_map]
      rw [Option.all_some, Condition.allows, Bool.eq_iff_iff, Pattern.allows_held hguard, hfront,
        beq_iff_eq]
      exact Bool.eq_iff_iff.symm

/-- **A pattern that is ready to run finds what its clause says.** -/
theorem matchAt?_pattern (h : k.isPlain = true) (q : Place) :
    k.pattern.matchAt? q = (k.stopAt? q).map (Span.mk q) := by
  obtain ⟨hproper, hfree, htakes, -⟩ := of_isPlain h
  have hautomaton : k.pattern.automaton = .ofRegex k.regex := rfl
  rw [Pattern.matchAt?, hautomaton, Automaton.matchFrom?_ofRegex hproper, hfree, Bool.not_false,
    Bool.or_true, if_pos rfl, stopAt?]
  cases hs : (k.regex.ends q).head? with
  | none => rfl
  | some s =>
      have hlt := (Regex.goes_ends k.regex q s (List.mem_of_head? hs)).2 (by rw [htakes]; rfl)
      have haccepts : k.pattern.accepts ⟨q, s⟩ = k.allows s := by
        rw [Pattern.accepts, allows_pattern h, decide_eq_true hlt, Bool.true_and]
      rw [Option.map_some, Option.filter_some, Option.filter_some, haccepts]
      split <;> rfl

end Clause

/-- A look-ahead is made ready as its condition says. -/
theorem ofLookAhead_of_condition? {l : LookAhead} {a : Condition} (h : l.condition? = some a)
    (hsize : a.held.size ≤ Regex.maxSize) :
    Guard.ofLookAhead l = .ok ⟨.ofRegex a.held, a.required⟩ := by
  obtain ⟨r, hr, rfl⟩ := Option.map_eq_some_iff.1 h
  obtain ⟨b, hb, hdepth, rfl⟩ := expression?_eq_some_iff.1 hr
  exact (Guard.ofLookAhead_eq_ok_iff (ofString_ne_groupNotOpened hr)).2
    ⟨b, hb, ⟨hdepth, hsize⟩, rfl⟩

/-- **A pattern is made ready as its clause says, if there is room for it.** -/
theorem compile_of_clause? {t : PatternText} {k : Clause} (h : t.clause? = some k)
    (hfits : k.fits = true) : t.compile = .ok k.pattern := by
  obtain ⟨r, hr, h⟩ := Option.bind_eq_some_iff.1 h
  obtain ⟨c, hc, h⟩ := Option.bind_eq_some_iff.1 h
  obtain rfl := Option.some.inj h
  simp only [Clause.fits, Bool.and_eq_true, decide_eq_true_eq, Option.all_eq_true] at hfits
  rw [PatternText.compile, ofString_of_expression? hr hfits.1]
  cases hl : t.lookAhead with
  | none =>
      rw [hl] at hc
      obtain rfl := Option.some.inj hc
      rfl
  | some l =>
      rw [hl, Option.mapM_some] at hc
      obtain ⟨a, ha, rfl⟩ := Option.map_eq_some_iff.1 hc
      rw [Option.mapM_some, ofLookAhead_of_condition? ha (hfits.2 a rfl)]
      rfl

/-! ## 2. Tokens -/

/-- The token that a text begins with. -/
def Token.initial (category : Category) (text : String) : Token :=
  ⟨category, text, 0, text.utf8ByteSize⟩

namespace Lexer

/-- The tokens of a text are one, which is all of it. -/
def IsOne (l : Lexer) (category : Category) (text : String) : Prop :=
  l.tokenize text = [.initial category text]

variable {l : Lexer} {source : String} {q : Place}

/-- Where no match begins at a place or further on, there are no more tokens. -/
theorem rescan_eq_nil (hq : (Place.ofString source).Reaches q)
    (h : ∀ c ∈ l.patterns, ∀ r, q.Reaches r → c.matchAt? r = none) :
    l.rescan source (q.offset source.utf8ByteSize) = [] := by
  refine rescan_of_none (List.argmin_eq_none.2 (List.eq_nil_iff_forall_not_mem.2 fun o ho => ?_))
  obtain ⟨c, hc, -, hf⟩ := mem_offers.1 ho
  rw [Pattern.findAt?_offset hq, c.isSearch_find?.find_eq_none_iff.2
    (h c (List.mem_of_getElem? hc))] at hf
  cases hf

/-- **A text that begins with a match of a pattern, and with none of a pattern listed before it, begins
with that token.** -/
theorem tokenize_eq_cons {i : Nat} {c : Pattern} {s : Place} (hc : l.patterns[i]? = some c)
    (hm : c.matchAt? (.ofString source) = some ⟨.ofString source, s⟩)
    (hfirst : ∀ (j : Nat) (c' : Pattern), j < i → l.patterns[j]? = some c' →
      c'.matchAt? (.ofString source) = none) :
    l.tokenize source =
      l.token source.utf8ByteSize c ⟨.ofString source, s⟩ ::
        l.rescan source (s.offset source.utf8ByteSize) := by
  have hfind : ∀ {c : Pattern} {m : Span}, c.matchAt? (.ofString source) = some m →
      c.find? (.ofString source) = some m := fun {c m} h => by
    rw [c.isSearch_find?.step, h, Option.some_or]
  have hbest : Candidates.IsBest (.start l.patterns (.ofString source)) i c
      ⟨.ofString source, s⟩ := by
    refine ⟨Candidates.getElem?_start.2 ⟨hc, hfind hm⟩, fun j c' m' hj => ?_, fun j c' m' hj e => ?_⟩
    · exact (Pattern.of_find? (Candidates.getElem?_start.1 hj).2).1.left_le
    · obtain ⟨hc', hf'⟩ := Candidates.getElem?_start.1 hj
      obtain ⟨hr, -, -, hm'⟩ := Pattern.of_find? hf'
      rw [hr.eq_of_left_eq e] at hm'
      refine Nat.le_of_not_lt fun hlt => ?_
      rw [hfirst j c' hlt hc'] at hm'
      cases hm'
  have hreach := (Pattern.of_matchAt? hm).2.1
  have hstep := rescan_of_some (argmin_offers (.here _) hbest)
  rw [Place.offset_ofString] at hstep
  rw [tokenize_eq_rescan, hstep, offered, token]
  have htext := Place.slice_offset (.here _) hreach
  rw [Place.offset_ofString] at htext
  dsimp only
  rw [htext, Place.offset_ofString]

/-- **A token that stands at the beginning of a text is a match that begins there.** -/
theorem exists_of_mem_tokenize {tok : Token} (h : tok ∈ l.tokenize source) (h0 : tok.start = 0) :
    ∃ c ∈ l.patterns, ∃ s, c.matchAt? (.ofString source) = some ⟨.ofString source, s⟩ ∧
      tok.stop = s.offset source.utf8ByteSize := by
  rw [tokenize_eq_rescan] at h
  obtain ⟨i, c, hc, hend, -⟩ := of_mem_rescan h
  rw [h0, ← Place.offset_ofString source, Pattern.endAt?_offset (.here _)] at hend
  obtain ⟨m, hm, hstop⟩ := Option.map_eq_some_iff.1 hend
  obtain ⟨start, stop⟩ := m
  obtain rfl : start = .ofString source := (Pattern.of_matchAt? hm).1
  exact ⟨c, List.mem_of_getElem? hc, stop, hm, hstop.symm⟩

end Lexer

end Quire.Highlight
