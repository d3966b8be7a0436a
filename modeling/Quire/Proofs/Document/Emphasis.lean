import Quire.Document.Line
import Quire.Proofs.Text.Mark

/-!
# What emphasis does to a text

Emphasis is written with stars and low lines only, so **where a text has none of them it is left as
it is**, before the emphasis (`Style.apply_append_left`) and after it (`Style.apply_append_right`).
Nothing comes into a text but tags (`Style.forall_mem_apply`), and a tag is longer than the marks in
whose place it stands, so a text that emphasis does not change has no emphasised part
(`Style.apply_eq_self_iff`). For strong emphasis followed by light these facts are told of
`emphasize`, and **a line is left as it is exactly if it has no two stars and no two low lines**
(`emphasize_eq_self_iff`).
-/

namespace Quire.Document

open Quire.Text

/-! ## 1. One style -/

/-- Whether a character is one that emphasis is written with. -/
def isMark (c : Char) : Bool :=
  c == '*' || c == '_'

theorem isMark_eq_false_of_not_mem {s : List Char} (hstar : '*' ∉ s) (hlow : '_' ∉ s) :
    ∀ c ∈ s, isMark c = false := by
  intro c hc
  rw [isMark, Bool.or_eq_false_iff, beq_eq_false_iff_ne, beq_eq_false_iff_ne]
  exact ⟨ne_of_mem_of_not_mem hc hstar, ne_of_mem_of_not_mem hc hlow⟩

namespace Style

/-- A style is written with stars and low lines, and its tags are longer than the marks in whose
place they stand. -/
structure Regular (style : Style) : Prop where
  isMark_of_mem : ∀ m ∈ style.marks, ∀ c ∈ m, isMark c = true
  length_lt : ∀ m ∈ style.marks, 2 * m.length < style.openTag.length + style.closeTag.length

theorem regular_bold : bold.Regular := ⟨by decide, by decide⟩

theorem regular_italic : italic.Regular := ⟨by decide, by decide⟩

/-- **An enclosed text stands between two marks of one kind.** -/
theorem eq_of_enclosed? {marks : List (List Char)} {s a rest : List Char}
    (h : enclosed? marks s = some (a, rest)) : ∃ m ∈ marks, s = m ++ (a ++ (m ++ rest)) := by
  induction marks with
  | nil => cases h
  | cons m ms ih =>
      rw [enclosed?] at h
      split at h
      · rename_i found hf
        obtain rfl : found = (a, rest) := Option.some.inj h
        obtain ⟨t, ht, hu⟩ := Option.bind_eq_some_iff.1 hf
        refine ⟨m, List.mem_cons_self, ?_⟩
        rw [eq_append_of_dropMark? ht, eq_append_of_upTo? hu, List.append_assoc]
      · obtain ⟨m', hm', hs⟩ := ih h
        exact ⟨m', List.mem_cons_of_mem m hm', hs⟩

theorem apply_of_enclosed? {style : Style} {s a rest : List Char}
    (h : enclosed? style.marks s = some (a, rest)) :
    style.apply s = style.openTag ++ a ++ style.closeTag ++ style.apply rest := by
  cases s with
  | nil =>
      have := length_lt_of_enclosed? style.marks_ne h
      cases this
  | cons c cs =>
      rw [apply]
      split
      · rename_i a' rest' h'
        obtain ⟨rfl, rfl⟩ := Prod.mk.inj (Option.some.inj (h.symm.trans h'))
        rfl
      · rename_i h'
        rw [h] at h'
        cases h'

theorem apply_cons_of_enclosed?_eq_none {style : Style} {c : Char} {cs : List Char}
    (h : enclosed? style.marks (c :: cs) = none) :
    style.apply (c :: cs) = c :: style.apply cs := by
  rw [apply]
  split
  · rename_i h'
    rw [h] at h'
    cases h'
  · rfl

theorem apply_nil (style : Style) : style.apply [] = [] := by
  rw [apply]

/-- **What holds of the characters of a text and of those of the tags holds in the text with
tags.** -/
theorem forall_mem_apply {style : Style} {P : Char → Prop} {s : List Char}
    (htags : ∀ c ∈ style.openTag ++ style.closeTag, P c) (h : ∀ c ∈ s, P c) :
    ∀ c ∈ style.apply s, P c := by
  induction s using apply.induct style with
  | case1 =>
      rw [apply_nil]
      exact h
  | case2 c cs a rest he ih =>
      obtain ⟨m, -, hs⟩ := eq_of_enclosed? he
      rw [hs] at h
      rw [apply_of_enclosed? he]
      simp only [List.forall_mem_append] at h htags ⊢
      exact ⟨⟨⟨htags.1, h.2.1⟩, htags.2⟩, ih h.2.2.2⟩
  | case3 c cs he ih =>
      rw [apply_cons_of_enclosed?_eq_none he]
      rw [List.forall_mem_cons] at h ⊢
      exact ⟨h.1, ih h.2⟩

section Regular

variable {style : Style} (hstyle : style.Regular)

include hstyle

/-- No emphasis begins at a character that it is not written with. -/
theorem enclosed?_eq_none_of_isMark_eq_false {c : Char} (hc : isMark c = false) (cs : List Char) :
    enclosed? style.marks (c :: cs) = none := by
  cases he : enclosed? style.marks (c :: cs) with
  | none => rfl
  | some found =>
      obtain ⟨a, rest⟩ := found
      obtain ⟨m, hm, hs⟩ := eq_of_enclosed? he
      obtain ⟨d, ds, rfl⟩ := List.exists_cons_of_ne_nil (List.ne_nil_of_length_pos
        (style.marks_ne m hm))
      rw [List.cons_append, List.cons.injEq] at hs
      have hd := hstyle.isMark_of_mem _ hm d List.mem_cons_self
      rw [← hs.1, hc] at hd
      cases hd

theorem apply_cons {c : Char} (hc : isMark c = false) (s : List Char) :
    style.apply (c :: s) = c :: style.apply s :=
  apply_cons_of_enclosed?_eq_none (enclosed?_eq_none_of_isMark_eq_false hstyle hc s)

/-- **A text without stars and low lines is left as it is before a text with emphasis.** -/
theorem apply_append_left {a : List Char} (ha : ∀ c ∈ a, isMark c = false) (s : List Char) :
    style.apply (a ++ s) = a ++ style.apply s := by
  induction a with
  | nil => rfl
  | cons c a ih =>
      rw [List.forall_mem_cons] at ha
      rw [List.cons_append, apply_cons hstyle ha.1, ih ha.2, List.cons_append]

theorem apply_of_forall {s : List Char} (h : ∀ c ∈ s, isMark c = false) : style.apply s = s := by
  have hs := apply_append_left hstyle h []
  rwa [apply_nil, List.append_nil] at hs

theorem enclosed?_append_right {b : List Char} (hb : ∀ c ∈ b, isMark c = false) (s : List Char) :
    enclosed? style.marks (s ++ b) =
      (enclosed? style.marks s).map fun p => (p.1, p.2 ++ b) := by
  have hmarks : ∀ m ∈ style.marks, m ≠ [] ∧ ∀ c ∈ m, c ∉ b := by
    refine fun m hm => ⟨List.ne_nil_of_length_pos (style.marks_ne m hm), fun c hc hcb => ?_⟩
    have := hstyle.isMark_of_mem m hm c hc
    rw [hb c hcb] at this
    cases this
  revert hmarks
  generalize style.marks = marks
  intro hmarks
  induction marks with
  | nil => rfl
  | cons m ms ih =>
      obtain ⟨⟨hne, hm⟩, hms⟩ := List.forall_mem_cons.1 hmarks
      rw [enclosed?, enclosed?, dropMark?_append_right hm, ih hms]
      cases dropMark? m s with
      | none => rfl
      | some t =>
          rw [Option.map_some, Option.bind_some, Option.bind_some, upTo?_append_right hne hm]
          cases upTo? m t with
          | none => rfl
          | some found => rfl

/-- **A text without stars and low lines is left as it is after a text with emphasis.** -/
theorem apply_append_right {b : List Char} (hb : ∀ c ∈ b, isMark c = false) (s : List Char) :
    style.apply (s ++ b) = style.apply s ++ b := by
  induction s using apply.induct style with
  | case1 => rw [List.nil_append, apply_of_forall hstyle hb, apply_nil, List.nil_append]
  | case2 c cs a rest he ih =>
      have he' := enclosed?_append_right hstyle hb (c :: cs)
      rw [he, Option.map_some] at he'
      rw [apply_of_enclosed? he', apply_of_enclosed? he, ih, List.append_assoc _ _ b]
  | case3 c cs he ih =>
      have he' := enclosed?_append_right hstyle hb (c :: cs)
      rw [he, Option.map_none, List.cons_append] at he'
      rw [List.cons_append, apply_cons_of_enclosed?_eq_none he',
        apply_cons_of_enclosed?_eq_none he, ih, List.cons_append]

/-- An enclosed text makes a text longer, if what follows does not become shorter. -/
theorem length_lt_apply_of_rest {s a rest : List Char}
    (he : enclosed? style.marks s = some (a, rest))
    (hrest : rest.length ≤ (style.apply rest).length) : s.length < (style.apply s).length := by
  obtain ⟨m, hm, hs⟩ := eq_of_enclosed? he
  have hlt := hstyle.length_lt m hm
  rw [apply_of_enclosed? he, hs]
  simp only [List.length_append]
  omega

/-- Tags do not make a text shorter. -/
theorem length_le_apply (s : List Char) : s.length ≤ (style.apply s).length := by
  induction s using apply.induct style with
  | case1 => exact Nat.zero_le _
  | case2 c cs a rest he ih => exact Nat.le_of_lt (length_lt_apply_of_rest hstyle he ih)
  | case3 c cs he ih =>
      rw [apply_cons_of_enclosed?_eq_none he]
      exact Nat.succ_le_succ ih

/-- An enclosed text makes a text longer. -/
theorem length_lt_apply {s a rest : List Char} (he : enclosed? style.marks s = some (a, rest)) :
    s.length < (style.apply s).length :=
  length_lt_apply_of_rest hstyle he (length_le_apply hstyle rest)

/-- A text that does not become longer is left as it is. -/
theorem apply_eq_self_of_length_le {s : List Char} (h : (style.apply s).length ≤ s.length) :
    style.apply s = s := by
  induction s using apply.induct style with
  | case1 => exact apply_nil style
  | case2 c cs a rest he ih => exact absurd h (Nat.not_le_of_lt (length_lt_apply hstyle he))
  | case3 c cs he ih =>
      rw [apply_cons_of_enclosed?_eq_none he] at h ⊢
      rw [ih (Nat.le_of_succ_le_succ h)]

/-- **A text that is left as it is encloses nothing, wherever one begins to read.** -/
theorem apply_eq_self_iff {s : List Char} :
    style.apply s = s ↔ ∀ a b, s = a ++ b → enclosed? style.marks b = none := by
  constructor
  · intro h
    induction s using apply.induct style with
    | case1 =>
        intro a b hs
        obtain ⟨rfl, rfl⟩ := List.append_eq_nil_iff.1 hs.symm
        cases he : enclosed? style.marks [] with
        | none => rfl
        | some found =>
            obtain ⟨a, rest⟩ := found
            have := length_lt_of_enclosed? style.marks_ne he
            cases this
    | case2 c cs a rest he ih =>
        exact absurd (congrArg List.length h) (Nat.ne_of_gt (length_lt_apply hstyle he))
    | case3 c cs he ih =>
        rw [apply_cons_of_enclosed?_eq_none he, List.cons.injEq] at h
        intro a b hs
        cases a with
        | nil =>
            rw [List.nil_append] at hs
            rw [← hs]
            exact he
        | cons d a =>
            rw [List.cons_append, List.cons.injEq] at hs
            exact ih h.2 a b hs.2
  · intro h
    induction s with
    | nil => exact apply_nil style
    | cons c cs ih =>
        rw [apply_cons_of_enclosed?_eq_none (h [] (c :: cs) rfl),
          ih fun a b hs => h (c :: a) b (by rw [hs, List.cons_append])]

end Regular

end Style

/-! ## 2. Strong emphasis, then light -/

/-- A text with its emphasis in tags. -/
def emphasize (s : List Char) : List Char :=
  Style.italic.apply (Style.bold.apply s)

theorem ofRaw_of_isRule_eq_false {raw : List Char} (h : isRule (trim raw) = false) :
    MarkedLine.ofRaw raw = .text (emphasize (trim raw)) := by
  rw [MarkedLine.ofRaw, h]
  rfl

theorem emphasize_nil : emphasize [] = [] := by
  rw [emphasize, Style.apply_nil, Style.apply_nil]

theorem emphasize_append_left {a : List Char} (ha : ∀ c ∈ a, isMark c = false) (s : List Char) :
    emphasize (a ++ s) = a ++ emphasize s := by
  rw [emphasize, Style.apply_append_left Style.regular_bold ha,
    Style.apply_append_left Style.regular_italic ha, emphasize]

theorem emphasize_cons {c : Char} (hc : isMark c = false) (s : List Char) :
    emphasize (c :: s) = c :: emphasize s :=
  emphasize_append_left (List.forall_mem_singleton.2 hc) s

theorem emphasize_append_right {b : List Char} (hb : ∀ c ∈ b, isMark c = false) (s : List Char) :
    emphasize (s ++ b) = emphasize s ++ b := by
  rw [emphasize, Style.apply_append_right Style.regular_bold hb,
    Style.apply_append_right Style.regular_italic hb, emphasize]

/-- **A text without stars and low lines has no emphasis.** -/
theorem emphasize_of_forall {s : List Char} (h : ∀ c ∈ s, isMark c = false) :
    emphasize s = s := by
  rw [emphasize, Style.apply_of_forall Style.regular_bold h,
    Style.apply_of_forall Style.regular_italic h]

/-- **Nothing comes into a text but tags.** -/
theorem forall_mem_emphasize {P : Char → Prop} {s : List Char}
    (htags : ∀ c ∈ ['<', '/', 'b', 'i', '>'], P c) (h : ∀ c ∈ s, P c) :
    ∀ c ∈ emphasize s, P c := by
  have hbold : ∀ c ∈ Style.bold.openTag ++ Style.bold.closeTag, P c := fun c hc =>
    htags c (by revert c; decide)
  have hitalic : ∀ c ∈ Style.italic.openTag ++ Style.italic.closeTag, P c := fun c hc =>
    htags c (by revert c; decide)
  exact Style.forall_mem_apply hitalic (Style.forall_mem_apply hbold h)

theorem not_mem_emphasize {c : Char} (htag : c ∉ ['<', '/', 'b', 'i', '>']) {s : List Char}
    (h : c ∉ s) : c ∉ emphasize s := fun hc =>
  forall_mem_emphasize (P := (· ≠ c)) (fun _ hd => ne_of_mem_of_not_mem hd htag)
    (fun _ hd => ne_of_mem_of_not_mem hd h) c hc rfl

/-! ## 3. Texts that emphasis leaves as they are -/

/-- Between two marks of one kind on a line something is enclosed. -/
theorem enclosed?_italic_ne_none {c : Char} (hc : isMark c = true) {x y : List Char}
    (hx : '\n' ∉ x) : Style.enclosed? Style.italic.marks (c :: (x ++ c :: y)) ≠ none := by
  have hfound : ((dropMark? [c] (c :: (x ++ c :: y))).bind (upTo? [c])).isSome = true := by
    rw [dropMark?, if_pos rfl, dropMark?, Option.bind_some]
    induction x with
    | nil => rw [List.nil_append, upTo?, dropMark?, if_pos rfl, dropMark?]; rfl
    | cons d x ih =>
        rw [List.mem_cons, not_or] at hx
        rw [List.cons_append, upTo?]
        cases dropMark? [c] (d :: (x ++ c :: y)) with
        | some r => rfl
        | none =>
            dsimp only
            rw [if_neg fun e => hx.1 e.symm, Option.isSome_map]
            exact ih hx.2
  obtain ⟨found, hfound⟩ := Option.isSome_iff_exists.1 hfound
  have hmark : c = '*' ∨ c = '_' := by simpa [isMark] using hc
  rw [Style.italic]
  rcases hmark with rfl | rfl
  · rw [Style.enclosed?, hfound]
    exact Option.some_ne_none _
  · have hstar : (dropMark? ['*'] ('_' :: (x ++ '_' :: y))).bind (upTo? ['*']) = none := rfl
    rw [Style.enclosed?, hstar, Style.enclosed?, hfound]
    exact Option.some_ne_none _

/-- What encloses a text stands there twice. -/
theorem Style.two_le_count {style : Style} (hstyle : style.Regular) {s a rest : List Char}
    (h : enclosed? style.marks s = some (a, rest)) : 2 ≤ s.count '*' ∨ 2 ≤ s.count '_' := by
  obtain ⟨m, hm, hs⟩ := eq_of_enclosed? h
  obtain ⟨d, ds, rfl⟩ := List.exists_cons_of_ne_nil (List.ne_nil_of_length_pos
    (style.marks_ne m hm))
  have htwice : 2 ≤ s.count d := by
    rw [hs]
    simp only [List.count_append, List.count_cons_self]
    omega
  have hd : d = '*' ∨ d = '_' := by
    simpa [isMark] using hstyle.isMark_of_mem _ hm d List.mem_cons_self
  rcases hd with rfl | rfl
  · exact .inl htwice
  · exact .inr htwice

theorem Style.apply_eq_self_of_count {style : Style} (hstyle : style.Regular) {s : List Char}
    (hstar : s.count '*' ≤ 1) (hlow : s.count '_' ≤ 1) : style.apply s = s := by
  refine (apply_eq_self_iff hstyle).2 fun a b hs => ?_
  cases he : enclosed? style.marks b with
  | none => rfl
  | some found =>
      obtain ⟨x, rest⟩ := found
      have := two_le_count hstyle he
      rw [hs, List.count_append] at hstar hlow
      omega

/-- **Emphasis leaves a line as it is exactly if no star and no low line stands there twice.** -/
theorem emphasize_eq_self_iff {s : List Char} (hfeed : '\n' ∉ s) :
    emphasize s = s ↔ s.count '*' ≤ 1 ∧ s.count '_' ≤ 1 := by
  constructor
  · intro h
    have hle := Style.length_le_apply Style.regular_italic (Style.bold.apply s)
    have hbold : Style.bold.apply s = s :=
      Style.apply_eq_self_of_length_le Style.regular_bold
        (Nat.le_trans hle (Nat.le_of_eq (congrArg List.length h)))
    rw [emphasize, hbold] at h
    have honce : ∀ c, isMark c = true → s.count c ≤ 1 := by
      intro c hc
      refine Nat.le_of_not_lt fun hcount => ?_
      obtain ⟨a, x, y, hs⟩ := exists_of_two_le_count hcount
      have hx : '\n' ∉ x := fun hx => hfeed (by rw [hs]; simp [hx])
      exact enclosed?_italic_ne_none hc hx
        ((Style.apply_eq_self_iff Style.regular_italic).1 h a _ hs)
    exact ⟨honce '*' rfl, honce '_' rfl⟩
  · rintro ⟨hstar, hlow⟩
    rw [emphasize, Style.apply_eq_self_of_count Style.regular_bold hstar hlow,
      Style.apply_eq_self_of_count Style.regular_italic hstar hlow]

end Quire.Document
