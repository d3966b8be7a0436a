import Mathlib.Data.List.Basic
import Quire.Proofs.Text.Chars

/-!
# Tags and how they nest

The inline tags of a text are read one after the other (`tags`), with a stack of the tags that are
open: a closing tag takes the last one off, and has to be of its kind (`step`). **A text is well
nested if this succeeds and leaves nothing open** (`WellNested`).

A text may be cut into several at certain characters. The cuts are read with the tags (`events`), and
none may fall where a tag is open. **A pair of tags around a text is well nested exactly if the text
is, and no cut falls in it** (`nest_span`): what is opened within the pair cannot be closed behind
it, and what was open before cannot be closed within.
-/

namespace Quire.Html

open Quire.Text (exists_of_append_eq)

/-! ## 1. Tags -/

/-- A kind of inline tag. -/
inductive Kind where
  | strong
  | light
  | anchor
  deriving Repr, DecidableEq

/-- The tag that opens; that of an anchor up to its reference. -/
def Kind.opening : Kind → List Char
  | strong => ['<', 'b', '>']
  | light => ['<', 'i', '>']
  | anchor => ['<', 'a', ' ', 'h', 'r', 'e', 'f', '=', '\x22']

/-- The tag that closes. -/
def Kind.closing : Kind → List Char
  | strong => ['<', '/', 'b', '>']
  | light => ['<', '/', 'i', '>']
  | anchor => ['<', '/', 'a', '>']

/-- What the nesting of a text is read from: a tag, or a place where the text is cut. -/
inductive Event where
  | opens (kind : Kind)
  | closes (kind : Kind)
  | cut
  deriving Repr, DecidableEq

/-- The tag at the front of a text. -/
def tag? (s : List Char) : Option Event :=
  [Kind.strong, .light, .anchor].findSome? fun k =>
    if k.opening.isPrefixOf s then some (.opens k)
    else if k.closing.isPrefixOf s then some (.closes k)
    else none

/-- The tags of a text, and the cuts between them. -/
def events (isCut : Char → Bool) : List Char → List Event
  | [] => []
  | c :: s => (tag? (c :: s)).toList ++ ((if isCut c then [.cut] else []) ++ events isCut s)

/-- The tags of a text. -/
def tags (s : List Char) : List Event :=
  events (fun _ => false) s

/-! ## 2. Nesting -/

/-- The tags that are open after one more event, the last one first; none if the event may not stand
there. -/
def step : List Kind → Event → Option (List Kind)
  | stack, .opens k => some (k :: stack)
  | k' :: stack, .closes k => if k' = k then some stack else none
  | [], .cut => some []
  | _, _ => none

/-- The tags that are open after events. -/
def nest (stack : List Kind) (es : List Event) : Option (List Kind) :=
  es.foldlM step stack

/-- **Whether the tags of a text nest**: each closing tag closes the last one that is open, and none
is left open. -/
def WellNested (s : List Char) : Prop :=
  nest [] (tags s) = some []

instance (s : List Char) : Decidable (WellNested s) :=
  inferInstanceAs (Decidable (_ = _))

/-- Whether events nest within any others: their tags do, and no cut falls among them. -/
def Closed (es : List Event) : Prop :=
  nest [] es = some [] ∧ .cut ∉ es

theorem nest_cons (stack : List Kind) (e : Event) (es : List Event) :
    nest stack (e :: es) = (step stack e).bind fun stack' => nest stack' es :=
  List.foldlM_cons

theorem nest_append (stack : List Kind) (es fs : List Event) :
    nest stack (es ++ fs) = (nest stack es).bind fun stack' => nest stack' fs :=
  List.foldlM_append

theorem step_opens (stack : List Kind) (k : Kind) : step stack (.opens k) = some (k :: stack) := by
  cases stack <;> rfl

theorem step_closes (stack : List Kind) (k : Kind) : step (k :: stack) (.closes k) = some stack :=
  if_pos rfl

/-- One event does the same above tags that were open before it, if it is no cut. -/
theorem step_frame {stack stack' : List Kind} {e : Event} (h : step stack e = some stack')
    (hcut : e ≠ .cut) (below : List Kind) : step (stack ++ below) e = some (stack' ++ below) := by
  cases e with
  | opens k =>
      rw [step_opens] at h ⊢
      rw [← Option.some.inj h, List.cons_append]
  | cut => exact absurd rfl hcut
  | closes k =>
      cases stack with
      | nil => cases h
      | cons k' stack =>
          rw [step] at h
          split at h
          · rename_i hk
            rw [List.cons_append, hk, step_closes, Option.some.inj h]
          · cases h

/-- **Events without a cut do the same above tags that were open before them.** -/
theorem nest_frame {stack stack' : List Kind} {es : List Event} (h : nest stack es = some stack')
    (hcut : .cut ∉ es) (below : List Kind) :
    nest (stack ++ below) es = some (stack' ++ below) := by
  induction es generalizing stack with
  | nil => exact congrArg (fun s => some (s ++ below)) (Option.some.inj h)
  | cons e es ih =>
      rw [List.mem_cons, not_or] at hcut
      rw [nest_cons, Option.bind_eq_some_iff] at h
      obtain ⟨between, he, hes⟩ := h
      rw [nest_cons, step_frame he (Ne.symm hcut.1), Option.bind_some, ih hes hcut.2]

/-- One event above an open tag that it does not close leaves this tag open, and is no cut. -/
theorem step_above {k : Kind} {e : Event} (hk : e ≠ .closes k) {above below stack : List Kind}
    (h : step (above ++ k :: below) e = some stack) :
    e ≠ .cut ∧ ∃ above', step above e = some above' ∧ stack = above' ++ k :: below := by
  cases e with
  | opens j =>
      rw [step_opens] at h
      exact ⟨Event.noConfusion, j :: above, step_opens above j, (Option.some.inj h).symm⟩
  | cut => cases above <;> cases h
  | closes j =>
      cases above with
      | nil =>
          rw [List.nil_append, step] at h
          split at h
          · rename_i hj
            exact absurd (hj ▸ rfl) hk
          · cases h
      | cons i above =>
          rw [List.cons_append, step] at h
          split at h
          · rename_i hj
            exact ⟨Event.noConfusion, above, hj ▸ step_closes above i, (Option.some.inj h).symm⟩
          · cases h

/-- **Events above an open tag that they do not close leave this tag open**, and are no cuts. -/
theorem nest_above {k : Kind} {es : List Event} (hk : .closes k ∉ es) {above below stack : List Kind}
    (h : nest (above ++ k :: below) es = some stack) :
    .cut ∉ es ∧ ∃ above', nest above es = some above' ∧ stack = above' ++ k :: below := by
  induction es generalizing above with
  | nil => exact ⟨List.not_mem_nil, above, rfl, (Option.some.inj h).symm⟩
  | cons e es ih =>
      rw [List.mem_cons, not_or] at hk
      rw [nest_cons, Option.bind_eq_some_iff] at h
      obtain ⟨between, he, hes⟩ := h
      obtain ⟨hcut, above', hstep, rfl⟩ := step_above (Ne.symm hk.1) he
      obtain ⟨hcuts, last, hnest, hstack⟩ := ih hk.2 hes
      refine ⟨?_, last, ?_, hstack⟩
      · rw [List.mem_cons, not_or]
        exact ⟨Ne.symm hcut, hcuts⟩
      · rw [nest_cons, hstep, Option.bind_some, hnest]

/-- What is open after an event was open before it, or the event opened it. -/
theorem mem_of_step {stack stack' : List Kind} {e : Event} (h : step stack e = some stack') {k : Kind}
    (hk : k ∈ stack') : k ∈ stack ∨ e = .opens k := by
  cases e with
  | opens j =>
      rw [step_opens] at h
      rw [← Option.some.inj h] at hk
      exact (List.mem_cons.1 hk).symm.imp_right fun hj => congrArg Event.opens hj.symm
  | closes j =>
      cases stack with
      | nil => cases h
      | cons i stack =>
          rw [step] at h
          split at h
          · exact .inl (List.mem_cons_of_mem i (Option.some.inj h ▸ hk))
          · cases h
  | cut =>
      cases stack with
      | nil => exact .inl (Option.some.inj h ▸ hk)
      | cons i stack => cases h

/-- What is open after events was open before them, or they opened it. -/
theorem mem_of_nest {es : List Event} {stack stack' : List Kind} (h : nest stack es = some stack')
    {k : Kind} (hk : k ∈ stack') : k ∈ stack ∨ .opens k ∈ es := by
  induction es generalizing stack with
  | nil => exact .inl (Option.some.inj h ▸ hk)
  | cons e es ih =>
      rw [nest_cons, Option.bind_eq_some_iff] at h
      obtain ⟨between, he, hes⟩ := h
      rcases ih hes with hbetween | hopens
      · rcases mem_of_step he hbetween with hk | rfl
        · exact .inl hk
        · exact .inr List.mem_cons_self
      · exact .inr (List.mem_cons_of_mem e hopens)

/-- Closed events can be left out. -/
theorem Closed.nest_append {es : List Event} (h : Closed es) (stack : List Kind) (fs : List Event) :
    nest stack (es ++ fs) = nest stack fs := by
  have hes := nest_frame h.1 h.2 stack
  rw [List.nil_append] at hes
  rw [Html.nest_append, hes, Option.bind_some]

/-- **A pair of tags around events nests exactly if the events are closed**, if none of them is a tag
of the same kind. What follows is then read as if the pair was not there. -/
theorem nest_span {k : Kind} {es : List Event} (hopens : .opens k ∉ es) (hcloses : .closes k ∉ es)
    (stack last : List Kind) (fs : List Event) :
    nest stack (.opens k :: (es ++ .closes k :: fs)) = some last ↔
      Closed es ∧ nest stack fs = some last := by
  rw [nest_cons, step_opens, Option.bind_some]
  constructor
  · intro h
    rw [nest_append] at h
    obtain ⟨inner, hes, h⟩ := Option.bind_eq_some_iff.1 h
    rw [← List.nil_append (k :: stack)] at hes
    obtain ⟨hcut, above, hnest, rfl⟩ := nest_above hcloses hes
    cases above with
    | nil =>
        rw [List.nil_append, nest_cons, step_closes, Option.bind_some] at h
        exact ⟨⟨hnest, hcut⟩, h⟩
    | cons i above =>
        rw [List.cons_append, nest_cons, step] at h
        split at h
        · -- the closing tag would fit only on a tag of its kind, and the events open none
          rename_i hi
          subst hi
          rcases mem_of_nest hnest List.mem_cons_self with hmem | hmem
          · exact absurd hmem List.not_mem_nil
          · exact absurd hmem hopens
        · cases h
  · rintro ⟨hclosed, h⟩
    rw [hclosed.nest_append, nest_cons, step_closes, Option.bind_some, h]

/-! ## 3. Texts made of characters and tags -/

/-- A text in which every angle bracket that opens belongs to a tag of one of some kinds. -/
inductive Tagged (kinds : List Kind) : List Char → Prop where
  | nil : Tagged kinds []
  | char {c : Char} {s : List Char} (hc : c ≠ '<') (hs : Tagged kinds s) : Tagged kinds (c :: s)
  | opening {k : Kind} {s : List Char} (hk : k ∈ kinds) (hs : Tagged kinds s) :
      Tagged kinds (k.opening ++ s)
  | closing {k : Kind} {s : List Char} (hk : k ∈ kinds) (hs : Tagged kinds s) :
      Tagged kinds (k.closing ++ s)

theorem tag?_of_ne {c : Char} (hc : c ≠ '<') (s : List Char) : tag? (c :: s) = none := by
  have hfirst : ('<' == c) = false := beq_false_of_ne hc.symm
  rw [tag?, List.findSome?_eq_none_iff]
  intro k _
  cases k <;> simp [Kind.opening, Kind.closing, List.isPrefixOf, hfirst]

theorem tag?_opening (k : Kind) (s : List Char) : tag? (k.opening ++ s) = some (.opens k) := by
  cases k <;> rfl

theorem tag?_closing (k : Kind) (s : List Char) : tag? (k.closing ++ s) = some (.closes k) := by
  cases k <;> rfl

variable {isCut : Char → Bool}

theorem events_cons_of_ne {c : Char} (hc : c ≠ '<') (s : List Char) :
    events isCut (c :: s) = (if isCut c then [.cut] else []) ++ events isCut s := by
  rw [events, tag?_of_ne hc]
  rfl

/-- A text that is neither cut nor has a tag adds no events. -/
theorem events_append_of_forall {a : List Char} (ha : ∀ c ∈ a, c ≠ '<' ∧ isCut c = false)
    (s : List Char) : events isCut (a ++ s) = events isCut s := by
  induction a with
  | nil => rfl
  | cons c a ih =>
      rw [List.forall_mem_cons] at ha
      rw [List.cons_append, events_cons_of_ne ha.1.1, ha.1.2, ih ha.2]
      rfl

/-- A text without tags leaves nothing open, wherever it is cut. -/
theorem nest_events_of_not_mem {s : List Char} (h : '<' ∉ s) :
    nest [] (events isCut s) = some [] := by
  induction s with
  | nil => rfl
  | cons c s ih =>
      rw [List.mem_cons, not_or] at h
      rw [events_cons_of_ne (Ne.symm h.1)]
      split
      · exact ih h.2
      · exact ih h.2

/-- A text that is cut nowhere has no events but its tags. -/
theorem events_eq_tags {s : List Char} (h : ∀ c ∈ s, isCut c = false) :
    events isCut s = tags s := by
  induction s with
  | nil => rfl
  | cons c s ih =>
      rw [List.forall_mem_cons] at h
      rw [events, h.1, ih h.2]
      rfl

/-- No tag is taken for a cut. -/
theorem cut_mem_events_iff {s : List Char} :
    .cut ∈ events isCut s ↔ ∃ c ∈ s, isCut c = true := by
  have htag : ∀ t : List Char, .cut ∉ (tag? t).toList := by
    intro t hmem
    obtain ⟨k, -, hk⟩ := List.exists_of_findSome?_eq_some (Option.mem_toList.1 hmem)
    split at hk
    · cases hk
    · split at hk
      · cases hk
      · cases hk
  induction s with
  | nil => simp [events]
  | cons c s ih =>
      simp only [events, List.mem_append, ih, htag, false_or, List.exists_mem_cons_iff]
      by_cases hc : isCut c = true <;> simp [hc]

/-- **A text is closed exactly if it is well nested and cut nowhere.** -/
theorem closed_events_iff {s : List Char} :
    Closed (events isCut s) ↔ WellNested s ∧ ∀ c ∈ s, isCut c = false := by
  have hcut : .cut ∉ events isCut s ↔ ∀ c ∈ s, isCut c = false := by
    simp [cut_mem_events_iff]
  rw [Closed, hcut]
  refine and_congr_left fun h => ?_
  rw [events_eq_tags h, WellNested]

/-- Whether no tag holds a character at which a text is cut. -/
def CutsNoTag (isCut : Char → Bool) : Prop :=
  ∀ k : Kind, ∀ c ∈ k.opening ++ k.closing, isCut c = false

/-- A tag is one event. -/
theorem events_append_of_tag? {m t s : List Char} {e : Event} (hm : m = '<' :: t) (ht : '<' ∉ t)
    (hcut : ∀ c ∈ m, isCut c = false) (htag : tag? (m ++ s) = some e) :
    events isCut (m ++ s) = e :: events isCut s := by
  subst hm
  rw [List.forall_mem_cons] at hcut
  rw [List.cons_append] at htag ⊢
  have hrest : ∀ c ∈ t, c ≠ '<' ∧ isCut c = false :=
    fun c hc => ⟨ne_of_mem_of_not_mem hc ht, hcut.2 c hc⟩
  rw [events, htag, hcut.1, events_append_of_forall hrest]
  rfl

theorem events_opening (hcut : CutsNoTag isCut) (k : Kind) (s : List Char) :
    events isCut (k.opening ++ s) = .opens k :: events isCut s := by
  have hshape : k.opening = '<' :: k.opening.tail ∧ '<' ∉ k.opening.tail := by
    cases k <;> decide
  exact events_append_of_tag? hshape.1 hshape.2
    (fun c hc => hcut k c (List.mem_append_left _ hc)) (tag?_opening k s)

theorem events_closing (hcut : CutsNoTag isCut) (k : Kind) (s : List Char) :
    events isCut (k.closing ++ s) = .closes k :: events isCut s := by
  have hshape : k.closing = '<' :: k.closing.tail ∧ '<' ∉ k.closing.tail := by
    cases k <;> decide
  exact events_append_of_tag? hshape.1 hshape.2
    (fun c hc => hcut k c (List.mem_append_right _ hc)) (tag?_closing k s)

namespace Tagged

variable {kinds : List Kind} {s : List Char}

theorem of_not_mem (h : '<' ∉ s) : Tagged kinds s := by
  induction s with
  | nil => exact .nil
  | cons c s ih =>
      rw [List.mem_cons, not_or] at h
      exact .char (Ne.symm h.1) (ih h.2)

theorem append (hs : Tagged kinds s) {t : List Char} (ht : Tagged kinds t) :
    Tagged kinds (s ++ t) := by
  induction hs with
  | nil => exact ht
  | char hc _ ih => exact .char hc ih
  | opening hk _ ih =>
      rw [List.append_assoc]
      exact .opening hk ih
  | closing hk _ ih =>
      rw [List.append_assoc]
      exact .closing hk ih

theorem mono (hs : Tagged kinds s) {kinds' : List Kind} (h : kinds ⊆ kinds') :
    Tagged kinds' s := by
  induction hs with
  | nil => exact .nil
  | char hc _ ih => exact .char hc ih
  | opening hk _ ih => exact .opening (h hk) ih
  | closing hk _ ih => exact .closing (h hk) ih

/-- **A text of whole tags is read to its end, and then what follows.** -/
theorem events_append (hs : Tagged kinds s) (hcut : CutsNoTag isCut) (t : List Char) :
    events isCut (s ++ t) = events isCut s ++ events isCut t := by
  induction hs with
  | nil => rfl
  | char hc _ ih =>
      rw [List.cons_append, events_cons_of_ne hc, events_cons_of_ne hc, ih, List.append_assoc]
  | opening hk _ ih =>
      rw [List.append_assoc, events_opening hcut, events_opening hcut, ih, List.cons_append]
  | closing hk _ ih =>
      rw [List.append_assoc, events_closing hcut, events_closing hcut, ih, List.cons_append]

/-- A text has only tags of its kinds. -/
theorem mem_kinds (hs : Tagged kinds s) (hcut : CutsNoTag isCut) {k : Kind}
    (h : .opens k ∈ events isCut s ∨ .closes k ∈ events isCut s) : k ∈ kinds := by
  induction hs with
  | nil => exact h.elim (fun h => absurd h List.not_mem_nil) fun h => absurd h List.not_mem_nil
  | @char c s hc _ ih =>
      have htag : ∀ e, e ≠ .cut → e ∈ events isCut (c :: s) → e ∈ events isCut s := by
        intro e he hmem
        rw [events_cons_of_ne hc] at hmem
        rcases List.mem_append.1 hmem with hmem | hmem
        · split at hmem
          · exact absurd (List.mem_singleton.1 hmem) he
          · exact absurd hmem List.not_mem_nil
        · exact hmem
      exact ih (h.imp (htag _ Event.noConfusion) (htag _ Event.noConfusion))
  | opening hk _ ih =>
      rw [events_opening hcut] at h
      rcases h with h | h <;> rcases List.mem_cons.1 h with h | h
      · exact Event.opens.inj h ▸ hk
      · exact ih (.inl h)
      · cases h
      · exact ih (.inr h)
  | closing hk _ ih =>
      rw [events_closing hcut] at h
      rcases h with h | h <;> rcases List.mem_cons.1 h with h | h
      · cases h
      · exact ih (.inl h)
      · exact Event.closes.inj h ▸ hk
      · exact ih (.inr h)

/-- **A text may be cut at a character that is in none of its tags.** -/
theorem of_append_cons (h : Tagged kinds s) {c : Char}
    (hc : ∀ k ∈ kinds, c ∉ k.opening ∧ c ∉ k.closing) {a b : List Char} (hs : s = a ++ c :: b) :
    Tagged kinds a ∧ Tagged kinds b := by
  induction h generalizing a with
  | nil => exact absurd hs.symm (List.append_ne_nil_of_right_ne_nil a (List.cons_ne_nil c b))
  | @char d t hd ht ih =>
      cases a with
      | nil =>
          rw [List.nil_append, List.cons.injEq] at hs
          exact ⟨.nil, hs.2 ▸ ht⟩
      | cons e a =>
          rw [List.cons_append, List.cons.injEq] at hs
          exact ⟨.char (hs.1 ▸ hd) (ih hs.2).1, (ih hs.2).2⟩
  | @opening k t hk ht ih =>
      obtain ⟨a', rfl, ht'⟩ := exists_of_append_eq (hc k hk).1 hs
      exact ⟨.opening hk (ih ht').1, (ih ht').2⟩
  | @closing k t hk ht ih =>
      obtain ⟨a', rfl, ht'⟩ := exists_of_append_eq (hc k hk).2 hs
      exact ⟨.closing hk (ih ht').1, (ih ht').2⟩

/-- Characters in front that begin no tag may be dropped. -/
theorem of_append_left {a : List Char} (ha : '<' ∉ a) (h : Tagged kinds (a ++ s)) :
    Tagged kinds s := by
  induction a with
  | nil => exact h
  | cons c a ih =>
      rw [List.mem_cons, not_or] at ha
      refine ih ha.2 ?_
      rw [List.cons_append] at h
      generalize hs : c :: (a ++ s) = t at h
      cases h with
      | nil => cases hs
      | char _ hs' => exact (List.cons.inj hs).2 ▸ hs'
      | @opening k _ _ _ => cases k <;> exact absurd (List.cons.inj hs).1 (Ne.symm ha.1)
      | @closing k _ _ _ => cases k <;> exact absurd (List.cons.inj hs).1 (Ne.symm ha.1)

end Tagged

/-! ## 4. Putting tags around parts of a text -/

/-- How a text of whole tags is read for the parts that `find?` finds in it, each handed on with what
follows it: character by character and tag by tag, up to the next such part. -/
inductive Scanned (find? : List Char → Option (List Char × List Char)) (kinds : List Kind) :
    List Char → Prop where
  | nil : Scanned find? kinds []
  | char {c : Char} {s : List Char} (hc : c ≠ '<') (hnone : find? (c :: s) = none)
      (hs : Scanned find? kinds s) : Scanned find? kinds (c :: s)
  | opening {k : Kind} {s : List Char} (hk : k ∈ kinds) (hs : Scanned find? kinds s) :
      Scanned find? kinds (k.opening ++ s)
  | closing {k : Kind} {s : List Char} (hk : k ∈ kinds) (hs : Scanned find? kinds s) :
      Scanned find? kinds (k.closing ++ s)
  | part {s a rest : List Char} (hfind : find? s = some (a, rest)) (ha : Tagged kinds a)
      (hrest : Scanned find? kinds rest) : Scanned find? kinds s

/-- **Every text of whole tags can be read so**, if what is found in such a text, and what follows
it, are such texts again. -/
theorem Tagged.scanned {find? : List Char → Option (List Char × List Char)} {kinds : List Kind}
    (hlength : ∀ {s a rest}, find? s = some (a, rest) → rest.length < s.length)
    (htagged : ∀ {s a rest}, find? s = some (a, rest) → Tagged kinds s →
      Tagged kinds a ∧ Tagged kinds rest)
    {s : List Char} (hs : Tagged kinds s) : Scanned find? kinds s := by
  induction hn : s.length using Nat.strongRecOn generalizing s with
  | ind n ih =>
      subst hn
      have hpart : ∀ {a rest}, find? s = some (a, rest) → Scanned find? kinds s := by
        intro a rest hfind
        obtain ⟨ha, hrest⟩ := htagged hfind hs
        exact .part hfind ha (ih _ (hlength hfind) hrest rfl)
      cases hs with
      | nil => exact .nil
      | @char c s hc hs =>
          cases hfind : find? (c :: s) with
          | some found => exact hpart hfind
          | none => exact .char hc hfind (ih _ (Nat.lt_succ_self _) hs rfl)
      | @opening k s hk hs =>
          have hlt : s.length < (k.opening ++ s).length := by
            cases k <;> simp [Kind.opening] <;> omega
          exact .opening hk (ih _ hlt hs rfl)
      | @closing k s hk hs =>
          have hlt : s.length < (k.closing ++ s).length := by
            cases k <;> simp [Kind.closing] <;> omega
          exact .closing hk (ih _ hlt hs rfl)

/-- Events in which some parts stand between a pair of tags of one kind: with these tags, without
them, and the parts. No part has a tag of this kind itself. -/
inductive Paired (k : Kind) : List Event → List Event → List (List Event) → Prop where
  | nil : Paired k [] [] []
  | event (e : Event) {paired plain : List Event} {parts : List (List Event)}
      (h : Paired k paired plain parts) : Paired k (e :: paired) (e :: plain) parts
  | part {a paired plain : List Event} {parts : List (List Event)} (hopens : .opens k ∉ a)
      (hcloses : .closes k ∉ a) (h : Paired k paired plain parts) :
      Paired k (.opens k :: (a ++ .closes k :: paired)) (a ++ plain) (a :: parts)

/-- Events in front do not matter. -/
theorem Paired.append_left {k : Kind} {paired plain : List Event} {parts : List (List Event)}
    (h : Paired k paired plain parts) (es : List Event) :
    Paired k (es ++ paired) (es ++ plain) parts := by
  induction es with
  | nil => exact h
  | cons e es ih => exact .event e ih

/-- **Pairs of tags nest exactly if every part between them is closed, and the rest nests without
them.** -/
theorem Paired.nest_iff {k : Kind} {paired plain : List Event} {parts : List (List Event)}
    (h : Paired k paired plain parts) (stack last : List Kind) :
    nest stack paired = some last ↔
      nest stack plain = some last ∧ ∀ a ∈ parts, Closed a := by
  induction h generalizing stack with
  | nil => exact ⟨fun h => ⟨h, fun _ ha => absurd ha List.not_mem_nil⟩, fun h => h.1⟩
  | event e _ ih =>
      rw [nest_cons, nest_cons]
      cases step stack e with
      | none =>
          constructor
          · rintro ⟨⟩
          · rintro ⟨⟨⟩, -⟩
      | some stack' => exact ih stack'
  | @part a paired plain parts hopens hcloses _ ih =>
      rw [nest_span hopens hcloses, ih, List.forall_mem_cons]
      constructor
      · rintro ⟨ha, hrest, hparts⟩
        exact ⟨(ha.nest_append stack plain).trans hrest, ha, hparts⟩
      · rintro ⟨hrest, ha, hparts⟩
        exact ⟨ha, (ha.nest_append stack plain).symm.trans hrest, hparts⟩

end Quire.Html
