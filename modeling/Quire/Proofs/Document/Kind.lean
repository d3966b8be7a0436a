import Quire.Proofs.Document.Line
import Quire.Proofs.Document.Nested
import Quire.Proofs.Text.Split

/-!
# The kind of a line

A line has its emphasis turned into tags before it is asked what it is. Here the two are told apart:
a tag begins with an angle bracket, which is no marker, no blank and no part of one, and whatever
stands before the first mark stays where it is. So **the tests find in a line with tags what they find
in the line as it was written** (`class_eq_map`), as long as this does not begin with a star: then the
marker of an item can itself be taken for the mark that opens an emphasis.

What a line is without the texts in it is its kind, and emphasis leaves that as it is (`kind_kept`). A
fence opens code by the very test that closes it.
-/

namespace Quire.Document

open Quire.Highlight (Language)
open Quire.Text

/-! ## 1. The ends of a text with emphasis -/

namespace Style

/-- What is made of a text begins with a tag, or with its first character. -/
theorem apply_cons_cases (style : Style) (c : Char) (s : List Char) :
    (∃ r, style.apply (c :: s) = style.openTag ++ r) ∨
      style.apply (c :: s) = c :: style.apply s := by
  cases he : enclosed? style.marks (c :: s) with
  | some found =>
      obtain ⟨a, rest⟩ := found
      rw [apply_of_enclosed? he, List.append_assoc, List.append_assoc]
      exact .inl ⟨_, rfl⟩
  | none => exact .inr (apply_cons_of_enclosed?_eq_none he)

/-- What is made of a text ends as a tag ends, or with its last character. -/
theorem mem_getLast?_apply {style : Style} (hstyle : style.Regular) (htag : style.closeTag ≠ [])
    {s : List Char} {c : Char} (h : c ∈ (style.apply s).getLast?) :
    c ∈ style.closeTag.getLast? ∨ c ∈ s.getLast? := by
  have hbehind : ∀ {a b : List Char}, c ∈ b.getLast? → c ∈ (a ++ b).getLast? := fun hb => by
    rw [List.getLast?_append, Option.mem_def.1 hb, Option.some_or]
    rfl
  induction s using apply.induct style with
  | case1 =>
      rw [apply_nil] at h
      exact .inr h
  | case2 d cs a rest he ih =>
      obtain ⟨m, -, hs⟩ := eq_of_enclosed? he
      rw [apply_of_enclosed? he, List.getLast?_append, Option.mem_def, Option.or_eq_some_iff] at h
      rcases h with h | ⟨-, h⟩
      · rw [hs]
        exact (ih h).imp_right fun hlast => hbehind (hbehind (hbehind hlast))
      · rw [List.getLast?_append, Option.or_eq_some_iff, List.getLast?_eq_none_iff] at h
        exact .inl (h.resolve_right fun hnil => htag hnil.1)
  | case3 d cs he ih =>
      rw [apply_cons_of_enclosed?_eq_none he, ← List.singleton_append, List.getLast?_append,
        Option.mem_def, Option.or_eq_some_iff] at h
      rcases h with h | ⟨hnil, h⟩
      · exact (ih h).imp_right fun hlast => hbehind (a := [d]) hlast
      · have hle := length_le_apply hstyle cs
        rw [List.getLast?_eq_none_iff.1 hnil] at hle
        rw [List.eq_nil_of_length_eq_zero (Nat.le_zero.1 hle)]
        exact .inr h

/-- A text in which a character of the tags is missing is left as it is. -/
theorem apply_eq_self_of_not_mem {style : Style} {c : Char} (hc : c ∈ style.openTag) {s : List Char}
    (h : c ∉ style.apply s) : style.apply s = s := by
  induction s using apply.induct style with
  | case1 => exact apply_nil style
  | case2 d cs a rest he ih =>
      rw [apply_of_enclosed? he, List.append_assoc, List.append_assoc] at h
      exact absurd (List.mem_append_left _ hc) h
  | case3 d cs he ih =>
      rw [apply_cons_of_enclosed?_eq_none he] at h ⊢
      rw [ih fun hmem => h (List.mem_cons_of_mem d hmem)]

end Style

/-- A text with its emphasis in tags begins with an angle bracket, or as it did before. -/
theorem emphasize_cons_cases (c : Char) (s : List Char) :
    (∃ r, emphasize (c :: s) = '<' :: r) ∨ emphasize (c :: s) = c :: emphasize s := by
  rw [emphasize]
  rcases Style.bold.apply_cons_cases c s with ⟨r, hr⟩ | hbold
  · rw [hr, Style.apply_append_left Style.regular_italic (by decide)]
    exact .inl ⟨_, rfl⟩
  · rw [hbold]
    rcases Style.italic.apply_cons_cases c (Style.bold.apply s) with ⟨r, hr⟩ | hitalic
    · exact .inl ⟨_, hr⟩
    · exact .inr hitalic

/-- What holds of the angle bracket and of the first character holds of the first character after the
emphasis is in tags. -/
theorem exists_emphasize_cons {P : Char → Prop} (htag : P '<') {c : Char} (hc : P c)
    (s : List Char) : ∃ d r, emphasize (c :: s) = d :: r ∧ P d := by
  rcases emphasize_cons_cases c s with ⟨r, hr⟩ | hr
  · exact ⟨'<', r, hr, htag⟩
  · exact ⟨c, _, hr, hc⟩

/-- A blank is no mark. -/
theorem isMark_eq_false_of_isBlank {c : Char} (hc : isBlank c = true) : isMark c = false := by
  rw [isMark, Bool.or_eq_false_iff, beq_eq_false_iff_ne, beq_eq_false_iff_ne]
  constructor <;>
    · rintro rfl
      cases hc

/-- A text with no blank at either end has none there with its emphasis in tags. -/
theorem trim_emphasize_of_trim {s : List Char} (h : trim s = s) :
    trim (emphasize s) = emphasize s := by
  obtain ⟨hhead, hlast⟩ := trim_eq_self_iff.1 h
  refine trim_eq_self_iff.2 ⟨fun c hc => ?_, fun c hc => ?_⟩
  · cases s with
    | nil =>
        rw [emphasize_nil] at hc
        cases hc
    | cons d s =>
        obtain ⟨e, r, hr, he⟩ := exists_emphasize_cons (P := (isBlank · = false)) rfl (hhead d rfl) s
        rw [hr] at hc
        rw [← Option.some.inj hc]
        exact he
  · -- the end is that of a tag of either style, or the end of the text
    rcases Style.mem_getLast?_apply Style.regular_italic (by decide) hc with h | h
    · rw [← Option.some.inj h]
      rfl
    · rcases Style.mem_getLast?_apply Style.regular_bold (by decide) h with h | h
      · rw [← Option.some.inj h]
        rfl
      · exact hlast c h

/-- **Trimming and emphasis may change places.** -/
theorem trim_emphasize (s : List Char) : trim (emphasize s) = emphasize (trim s) := by
  obtain ⟨a, b, hs, ha, hb⟩ := exists_trim s
  calc trim (emphasize s) = trim (emphasize (a ++ trim s ++ b)) := by rw [← hs]
    _ = trim (a ++ emphasize (trim s) ++ b) := by
      rw [emphasize_append_right fun c hc => isMark_eq_false_of_isBlank (hb c hc),
        emphasize_append_left fun c hc => isMark_eq_false_of_isBlank (ha c hc)]
    _ = emphasize (trim s) := trim_between ha hb (trim_emphasize_of_trim (trim_trim s))

/-- A text that has no angle bracket with its emphasis in tags has no emphasis. -/
theorem emphasize_eq_self_of_not_mem {s : List Char} (h : '<' ∉ emphasize s) : emphasize s = s := by
  have hitalic : emphasize s = Style.bold.apply s :=
    Style.apply_eq_self_of_not_mem (by decide) h
  rw [hitalic] at h ⊢
  exact Style.apply_eq_self_of_not_mem (by decide) h

/-- **A character that is no mark and begins no tag stands first if it stood first before**, and only
then. -/
theorem emphasize_eq_cons_iff {c : Char} (hc : isMark c = false) (htag : c ≠ '<') {s r : List Char} :
    emphasize s = c :: r ↔ ∃ r', s = c :: r' ∧ emphasize r' = r := by
  constructor
  · intro h
    cases s with
    | nil =>
        rw [emphasize_nil] at h
        cases h
    | cons d s =>
        rcases emphasize_cons_cases d s with ⟨r', hr⟩ | hr
        · rw [hr] at h
          exact absurd (List.cons.inj h).1.symm htag
        · rw [hr] at h
          obtain ⟨rfl, rfl⟩ := List.cons.inj h
          exact ⟨s, rfl, rfl⟩
  · rintro ⟨r', rfl, rfl⟩
    exact emphasize_cons hc r'

/-! ## 2. The tests -/

/-- A line that does not begin with a star is an item exactly if it was one before. -/
theorem listItem?_emphasize {s : List Char} (hstar : ∀ c ∈ s.head?, c ≠ '*') :
    listItem? (emphasize s) = (listItem? s).map emphasize := by
  cases s with
  | nil => rw [emphasize_nil]; rfl
  | cons c s =>
      have hc : c ≠ '*' := hstar c rfl
      by_cases hdash : c = '-'
      · subst hdash
        rw [emphasize_cons rfl]
        exact congrArg some (trim_emphasize s)
      · obtain ⟨d, r, hr, hd⟩ :=
          exists_emphasize_cons (P := fun d => d ≠ '*' ∧ d ≠ '-') (by decide) ⟨hc, hdash⟩ s
        rw [hr, listItem?_of_ne hd.1 hd.2, listItem?_of_ne hc hdash]
        rfl

/-- The number signs in front stay, and so does where they end. -/
theorem signs_emphasize (s : List Char) :
    (emphasize s).takeWhile (· == '#') = s.takeWhile (· == '#') ∧
      (emphasize s).dropWhile (· == '#') = emphasize (s.dropWhile (· == '#')) := by
  have hnone : ∀ {c : Char}, c ≠ '#' → ∀ r : List Char,
      (c :: r).takeWhile (· == '#') = [] ∧ (c :: r).dropWhile (· == '#') = c :: r := by
    intro c hc r
    simp [hc]
  induction s with
  | nil => rw [emphasize_nil]; exact ⟨rfl, emphasize_nil.symm⟩
  | cons c s ih =>
      by_cases hc : c = '#'
      · subst hc
        rw [emphasize_cons rfl]
        exact ⟨congrArg ('#' :: ·) ih.1, ih.2⟩
      · obtain ⟨d, r, hr, hd⟩ := exists_emphasize_cons (P := (· ≠ '#')) (by decide) hc s
        rw [(hnone hc s).1, (hnone hc s).2, hr]
        exact hnone hd r

theorem heading?_emphasize (s : List Char) :
    heading? (emphasize s) = (heading? s).map fun p => (p.1, emphasize p.2) := by
  obtain ⟨htake, hdrop⟩ := signs_emphasize s
  rw [heading?, heading?, htake, hdrop]
  split
  · rfl
  cases s.dropWhile (· == '#') with
  | nil =>
      rw [emphasize_nil]
      exact congrArg (fun t => some (_, t)) emphasize_nil.symm
  | cons c r =>
      cases hc : isBlank c with
      | true =>
          have htrim := trim_emphasize (c :: r)
          rw [emphasize_cons (isMark_eq_false_of_isBlank hc)] at htrim ⊢
          simp only [hc, if_true, htrim, Option.map_some]
      | false =>
          obtain ⟨d, r', hr, hd⟩ := exists_emphasize_cons (P := (isBlank · = false)) rfl hc r
          rw [hr]
          simp only [hc, hd, Bool.false_eq_true, if_false, Option.map_none]

/-- A text begins with the mark of a fence exactly if it did before. -/
theorem exists_mark_emphasize_iff (kind : Fence) (s : List Char) :
    (∃ r, emphasize s = kind.mark ++ r) ↔ ∃ r, s = kind.mark ++ r := by
  obtain ⟨c, hmark, -, hc, -⟩ := kind.mark_eq
  have htag : c ≠ '<' := by
    cases kind <;> cases hmark <;> decide
  rw [hmark]
  constructor
  · rintro ⟨r, hr⟩
    obtain ⟨s₁, rfl, h₁⟩ := (emphasize_eq_cons_iff hc htag).1 hr
    obtain ⟨s₂, rfl, h₂⟩ := (emphasize_eq_cons_iff hc htag).1 h₁
    obtain ⟨s₃, rfl, -⟩ := (emphasize_eq_cons_iff hc htag).1 h₂
    exact ⟨s₃, rfl⟩
  · rintro ⟨r, rfl⟩
    exact ⟨emphasize r, emphasize_append_left (by simpa using hc) r⟩

theorem fence?_emphasize (s : List Char) : fence? (emphasize s) = fence? s := by
  ext kind
  rw [fence?_eq_some_iff, fence?_eq_some_iff, trim_emphasize, exists_mark_emphasize_iff]

theorem quote?_emphasize (s : List Char) : quote? (emphasize s) = (quote? s).map emphasize := by
  cases s with
  | nil => rw [emphasize_nil]; rfl
  | cons c s =>
      by_cases hc : c = '>'
      · subst hc
        rw [emphasize_cons rfl]
        exact congrArg some (trim_emphasize s)
      · obtain ⟨d, r, hr, hd⟩ := exists_emphasize_cons (P := (· ≠ '>')) (by decide) hc s
        rw [hr, quote?_of_ne hd, quote?_of_ne hc]
        rfl

theorem isTableRow_emphasize (s : List Char) : isTableRow (emphasize s) = isTableRow s := by
  cases s with
  | nil => rw [emphasize_nil]
  | cons c s =>
      by_cases hc : c = '|'
      · subst hc
        rw [emphasize_cons rfl]
        rfl
      · obtain ⟨d, r, hr, hd⟩ := exists_emphasize_cons (P := (· ≠ '|')) (by decide) hc s
        rw [hr, isTableRow_cons, isTableRow_cons, decide_eq_false hd, decide_eq_false hc]

/-- A separator holds bars and hyphens only. -/
theorem forall_mem_of_isSeparator {s : List Char} (h : isSeparator s = true) :
    ∀ c ∈ s, c = '|' ∨ c = '-' := by
  intro c hc
  refine or_iff_not_imp_left.2 fun hbar => ?_
  obtain ⟨part, hpart, hmem⟩ := exists_mem_splitOn hc hbar
  rw [isSeparator] at h
  split at h
  · rename_i parts hsplit
    split at h
    · rename_i inner hrev
      rw [Bool.and_eq_true, List.all_eq_true] at h
      have hparts : parts = inner.reverse ++ [[]] := by
        rw [← List.reverse_reverse parts, hrev, List.reverse_cons]
      have hinner : part ∈ inner := by
        rw [hsplit, hparts] at hpart
        have hne : part ≠ [] := List.ne_nil_of_mem hmem
        simpa [hne] using hpart
      have hall := h.2 part hinner
      rw [Bool.and_eq_true, List.all_eq_true] at hall
      exact beq_iff_eq.1 (hall.2 c hmem)
    · cases h
  · cases h

/-- Emphasis neither makes a separator nor unmakes one. -/
theorem isSeparator_emphasize (s : List Char) : isSeparator (emphasize s) = isSeparator s := by
  rw [Bool.eq_iff_iff]
  constructor
  · intro h
    have htag : '<' ∉ emphasize s := fun hmem => by
      have := forall_mem_of_isSeparator h '<' hmem
      revert this
      decide
    rwa [emphasize_eq_self_of_not_mem htag] at h
  · intro h
    have hplain : ∀ c ∈ s, isMark c = false := fun c hc => by
      rcases forall_mem_of_isSeparator h c hc with rfl | rfl <;> rfl
    rwa [emphasize_of_forall hplain]

/-! ## 3. Classes and kinds -/

/-- A line as it was written, with its emphasis not turned into tags. -/
def MarkedLine.unmarked (raw : List Char) : MarkedLine :=
  if isRule (trim raw) then .rule else .text (trim raw)

namespace LineClass

/-- A class with its text changed. -/
def map (f : List Char → List Char) : LineClass → LineClass
  | .rule => .rule
  | .listItem t => .listItem (f t)
  | .heading level t => .heading level (f t)
  | .fence kind => .fence kind
  | .quote t => .quote (f t)
  | .tableRow row => .tableRow (f row)
  | .text s => .text (f s)

/-- What a text that does not begin with a star is with its emphasis in tags is what it is without
them, with the tags put in. -/
theorem ofText_emphasize {s : List Char} (hstar : ∀ c ∈ s.head?, c ≠ '*') :
    ofText (emphasize s) = (ofText s).map emphasize := by
  rw [ofText, ofText, listItem?_emphasize hstar]
  cases listItem? s with
  | some item => rfl
  | none =>
      rw [Option.map_none, heading?_emphasize]
      cases heading? s with
      | some title => rfl
      | none =>
          rw [Option.map_none, fence?_emphasize]
          cases fence? s with
          | some kind => rfl
          | none =>
              rw [quote?_emphasize]
              cases quote? s with
              | some body => rfl
              | none =>
                  rw [Option.map_none, isTableRow_emphasize]
                  cases isTableRow s <;> rfl

/-- **The tests find in a line with tags what they find in the line as it was written**, if this does
not begin with a star. -/
theorem class_eq_map {raw : List Char} (hstar : ∀ c ∈ (trim raw).head?, c ≠ '*') :
    LineClass.of (.ofRaw raw) = (LineClass.of (.unmarked raw)).map emphasize := by
  cases hrule : isRule (trim raw) with
  | true =>
      rw [MarkedLine.ofRaw, MarkedLine.unmarked, if_pos hrule, if_pos hrule]
      rfl
  | false =>
      rw [ofRaw_of_isRule_eq_false hrule, MarkedLine.unmarked, hrule]
      exact ofText_emphasize hstar

end LineClass

/-- What a line is, without the texts in it. -/
inductive LineKind where
  | rule
  | listItem
  | heading (level : Nat)
  | fence (kind : Fence)
  | quote
  | tableRow (separator : Bool)
  | text
  deriving Repr, DecidableEq

/-- The kind of a class. -/
def LineClass.kind : LineClass → LineKind
  | .rule => .rule
  | .listItem _ => .listItem
  | .heading level _ => .heading level
  | .fence kind => .fence kind
  | .quote _ => .quote
  | .tableRow row => .tableRow (isSeparator row)
  | .text _ => .text

theorem LineClass.kind_map_emphasize (k : LineClass) : (k.map emphasize).kind = k.kind := by
  cases k with
  | tableRow row => exact congrArg LineKind.tableRow (isSeparator_emphasize row)
  | rule => rfl
  | listItem text => rfl
  | heading level text => rfl
  | fence kind => rfl
  | quote text => rfl
  | text s => rfl

/-! ## 4. Fences, and the kind of a line -/

/-- Only a fence is read as one. -/
theorem fence?_of_ofText {s : List Char} {kind : Fence} (h : LineClass.ofText s = .fence kind) :
    fence? s = some kind := by
  unfold LineClass.ofText at h
  split at h
  · cases h
  split at h
  · cases h
  split at h
  · rename_i hfence
    rw [hfence, (LineClass.fence.inj h)]
  split at h
  · cases h
  split at h <;> cases h

/-- **A line opens code exactly as it would close it.** -/
theorem class_eq_fence_iff {raw : List Char} {kind : Fence} :
    LineClass.of (.ofRaw raw) = .fence kind ↔ kind.closes raw = true := by
  refine ⟨fun h => ?_, class_of_closes⟩
  cases hrule : isRule (trim raw) with
  | true =>
      rw [MarkedLine.ofRaw, if_pos hrule] at h
      cases h
  | false =>
      rw [ofRaw_of_isRule_eq_false hrule] at h
      have hfence := fence?_of_ofText h
      rw [fence?_emphasize, fence?_eq_some_iff, trim_trim] at hfence
      exact Fence.closes_iff.2 hfence

/-- **Code is open after a class that was met outside of code exactly if this is a fence.** -/
theorem snd_pushClass_eq_code_iff {language : Language} {o : OpenBlock} {k : LineClass}
    {kind : Fence} (hcode : ∀ kind source, o ≠ .code kind source) :
    (o.pushClass language k).2 = .code kind "" ↔ k = .fence kind := by
  have hopening : (OpenBlock.opening k).2 = .code kind "" ↔ k = .fence kind := by
    cases k <;> simp [OpenBlock.opening]
  cases o with
  | code kind source => exact absurd rfl (hcode kind source)
  | nothing => exact hopening
  | list items =>
      cases k with
      | listItem item => simp [OpenBlock.pushClass, OpenBlock.continue?]
      | _ => exact hopening
  | table header rows =>
      cases k with
      | tableRow row => simp [OpenBlock.pushClass, OpenBlock.continue?]
      | _ => exact hopening

/-- **Emphasis leaves the kind of a line as it is.** The tests find a line that does not begin with a
star to be of the kind that they find it to be with no emphasis turned into tags. And the lines that
open code of a kind, where none is open, are those by which it would be closed. -/
theorem kind_kept (raw : List Char) :
    ((∀ c ∈ (trim raw).head?, c ≠ '*') →
      (LineClass.of (.ofRaw raw)).kind = (LineClass.of (.unmarked raw)).kind) ∧
    ∀ (language : Language) (o : OpenBlock), (∀ kind source, o ≠ .code kind source) →
      ∀ kind : Fence, (o.push language raw).2 = .code kind "" ↔ kind.closes raw = true := by
  constructor
  · intro hstar
    rw [LineClass.class_eq_map hstar, LineClass.kind_map_emphasize]
  · intro language o hcode kind
    rw [push_eq_pushClass raw hcode, snd_pushClass_eq_code_iff hcode, class_eq_fence_iff]

/-- A fence with emphasis behind its mark, after a list. -/
theorem kind_kept_fence :
    (∀ c ∈ (trim "  ~~~ **x**".toList).head?, c ≠ '*') ∧
      (LineClass.of (.ofRaw "  ~~~ **x**".toList)).kind = .fence .tildes ∧
      (∀ kind source, OpenBlock.list ["a"] ≠ .code kind source) ∧
      ((OpenBlock.list ["a"]).push .csharp "  ~~~ **x**".toList).2 = .code .tildes "" := by
  have hstar : ∀ c ∈ (trim "  ~~~ **x**".toList).head?, c ≠ '*' := fun c hc => by
    have htilde : (trim "  ~~~ **x**".toList).head? = some '~' := by decide
    rw [← Option.some.inj (htilde.symm.trans hc)]
    decide
  have hlist : ∀ kind source, OpenBlock.list ["a"] ≠ .code kind source :=
    fun _ _ e => OpenBlock.noConfusion e
  obtain ⟨hkind, hopens⟩ := kind_kept "  ~~~ **x**".toList
  exact ⟨hstar, (hkind hstar).trans (by decide), hlist, (hopens .csharp _ hlist .tildes).2 (by decide)⟩

end Quire.Document
