import Quire.Proofs.Document.Form
import Quire.Proofs.Html.Tags
import Quire.Proofs.Text.Split

/-!
# How the tags of a document nest

Strong emphasis, light emphasis, links and cells are looked for one after the other, and none of
them regards the tags that are there already, so tags can cross. **The fields of a line are all well
nested exactly if nothing in the line crosses** (`forall_mem_fields_iff`), and every field of a
document is a field of one of its lines (`fromLine_of_mem_nested`).

Each of the steps puts pairs of tags of one kind into a text of whole tags that has none of this
kind yet (`Style.Writes.paired_apply`, `paired_substitute`), and such pairs nest exactly if what stands
between them is closed. Where a text is cut, into cells or at images, no tag is cut
(`Tagged.of_append_cons`), and for cells the cuts are read with the tags (`forall_mem_cells_iff`).
-/

namespace Quire.Document

open Quire.Highlight (Language)
open Quire.Html
open Quire.Text

/-! ## 1. Tags of emphasis -/

namespace Style

/-- The texts that the marks of a style enclose, in order. -/
def spans (style : Style) : List Char → List (List Char)
  | [] => []
  | c :: cs =>
    match _h : enclosed? style.marks (c :: cs) with
    | some (a, rest) => a :: spans style rest
    | none => spans style cs
  termination_by s => s.length
  decreasing_by
    · exact length_lt_of_enclosed? style.marks_ne _h
    · simp

theorem spans_nil (style : Style) : style.spans [] = [] := by
  rw [spans]

theorem spans_of_enclosed? {style : Style} {s a rest : List Char}
    (h : enclosed? style.marks s = some (a, rest)) : style.spans s = a :: style.spans rest := by
  cases s with
  | nil =>
      have := length_lt_of_enclosed? style.marks_ne h
      cases this
  | cons c cs =>
      rw [spans]
      split
      · rename_i h'
        obtain ⟨rfl, rfl⟩ := Prod.mk.inj (Option.some.inj (h.symm.trans h'))
        rfl
      · rename_i h'
        rw [h] at h'
        cases h'

theorem spans_cons_of_enclosed?_eq_none {style : Style} {c : Char} {cs : List Char}
    (h : enclosed? style.marks (c :: cs) = none) : style.spans (c :: cs) = style.spans cs := by
  rw [spans]
  split
  · rename_i h'
    rw [h] at h'
    cases h'
  · rfl

/-- A style whose tags are those of a kind. -/
structure Writes (style : Style) (k : Kind) : Prop extends style.Regular where
  openTag_eq : style.openTag = k.opening
  closeTag_eq : style.closeTag = k.closing

theorem writes_bold : bold.Writes .strong := ⟨regular_bold, rfl, rfl⟩

theorem writes_italic : italic.Writes .light := ⟨regular_italic, rfl, rfl⟩

end Style

/-- No tag holds a character that emphasis is written with. -/
theorem isMark_opening (k : Kind) : ∀ c ∈ k.opening, isMark c = false := by
  cases k <;> decide

theorem isMark_closing (k : Kind) : ∀ c ∈ k.closing, isMark c = false := by
  cases k <;> decide

/-- Where a text may be cut between tags: at none of their characters, and at no mark. -/
structure CutsBetween (isCut : Char → Bool) : Prop where
  cutsNoTag : CutsNoTag isCut
  isCut_of_isMark : ∀ c, isMark c = true → isCut c = false

theorem cutsBetween_never : CutsBetween fun _ => false :=
  ⟨fun _ _ _ => rfl, fun _ _ => rfl⟩

/-- The bars between the cells of a row cut so. -/
theorem cutsBetween_bar : CutsBetween (· == '|') where
  cutsNoTag k := by cases k <;> decide
  isCut_of_isMark c hc := beq_false_of_ne fun e => by
    rw [e] at hc
    cases hc

namespace Style.Writes

variable {style : Style} {k : Kind} (hstyle : style.Writes k) {kinds : List Kind}

include hstyle

/-- What is enclosed in a text of whole tags is such a text, and so is what follows it. -/
theorem tagged_of_enclosed? {s a rest : List Char}
    (h : enclosed? style.marks s = some (a, rest)) (hs : Tagged kinds s) :
    Tagged kinds a ∧ Tagged kinds rest := by
  obtain ⟨m, hm, rfl⟩ := eq_of_enclosed? h
  have hmark := hstyle.isMark_of_mem m hm
  have hlt : '<' ∉ m := fun hmem => by cases hmark _ hmem
  obtain ⟨d, ds, rfl⟩ := List.exists_cons_of_ne_nil (List.ne_nil_of_length_pos (style.marks_ne m hm))
  have hd : ∀ k ∈ kinds, d ∉ k.opening ∧ d ∉ k.closing := by
    intro k _
    have hne : ∀ c, isMark c = false → c ≠ d := by
      rintro c hc rfl
      rw [hmark c List.mem_cons_self] at hc
      cases hc
    exact ⟨fun hmem => hne d (isMark_opening k d hmem) rfl,
      fun hmem => hne d (isMark_closing k d hmem) rfl⟩
  obtain ⟨ha, hrest⟩ := (hs.of_append_left hlt).of_append_cons hd rfl
  exact ⟨ha, hrest.of_append_left fun hmem => hlt (List.mem_cons_of_mem d hmem)⟩

/-- Marks add no events. -/
theorem events_of_enclosed? {isCut : Char → Bool} (hcuts : CutsBetween isCut) {s a rest : List Char}
    (h : enclosed? style.marks s = some (a, rest)) (ha : Tagged kinds a) :
    events isCut s = events isCut a ++ events isCut rest := by
  obtain ⟨m, hm, rfl⟩ := eq_of_enclosed? h
  have hsilent : ∀ c ∈ m, c ≠ '<' ∧ isCut c = false := by
    intro c hc
    have hmark := hstyle.isMark_of_mem m hm c hc
    refine ⟨fun e => ?_, hcuts.isCut_of_isMark c hmark⟩
    rw [e] at hmark
    cases hmark
  rw [events_append_of_forall hsilent, ha.events_append hcuts.cutsNoTag,
    events_append_of_forall hsilent]

theorem scanned {s : List Char} (hs : Tagged kinds s) :
    Scanned (enclosed? style.marks) kinds s :=
  hs.scanned (length_lt_of_enclosed? style.marks_ne) hstyle.tagged_of_enclosed?

theorem spans_append_left {a : List Char} (ha : ∀ c ∈ a, isMark c = false) (s : List Char) :
    style.spans (a ++ s) = style.spans s := by
  induction a with
  | nil => rfl
  | cons c a ih =>
      rw [List.forall_mem_cons] at ha
      rw [List.cons_append, spans_cons_of_enclosed?_eq_none
        (enclosed?_eq_none_of_isMark_eq_false hstyle.toRegular ha.1 _), ih ha.2]

/-- **A text of whole tags is one again when its emphasis is turned into tags.** -/
theorem tagged_apply {s : List Char} (hs : Tagged kinds s) :
    Tagged (k :: kinds) (style.apply s) := by
  have hread := hstyle.scanned hs
  clear hs
  induction hread with
  | nil =>
      rw [apply_nil]
      exact .nil
  | char hc hnone _ ih =>
      rw [apply_cons_of_enclosed?_eq_none hnone]
      exact .char hc ih
  | @opening j _ hj _ ih =>
      rw [apply_append_left hstyle.toRegular (isMark_opening j)]
      exact .opening (List.mem_cons_of_mem k hj) ih
  | @closing j _ hj _ ih =>
      rw [apply_append_left hstyle.toRegular (isMark_closing j)]
      exact .closing (List.mem_cons_of_mem k hj) ih
  | part hfind ha _ ih =>
      rw [apply_of_enclosed? hfind, hstyle.openTag_eq, hstyle.closeTag_eq, List.append_assoc,
        List.append_assoc]
      exact .opening List.mem_cons_self ((ha.mono (List.subset_cons_self k kinds)).append
        (.closing List.mem_cons_self ih))

/-- **Emphasis puts pairs of tags around what it encloses**, and leaves all other tags and cuts as
they are. -/
theorem paired_apply {isCut : Char → Bool} (hcuts : CutsBetween isCut) (hk : k ∉ kinds)
    {s : List Char} (hs : Tagged kinds s) :
    Paired k (events isCut (style.apply s)) (events isCut s)
      ((style.spans s).map (events isCut)) := by
  have hread := hstyle.scanned hs
  clear hs
  have hcut := hcuts.cutsNoTag
  induction hread with
  | nil =>
      rw [apply_nil, spans_nil]
      exact .nil
  | char hc hnone _ ih =>
      rw [apply_cons_of_enclosed?_eq_none hnone, spans_cons_of_enclosed?_eq_none hnone,
        events_cons_of_ne hc, events_cons_of_ne hc]
      exact ih.append_left _
  | @opening j _ _ _ ih =>
      rw [apply_append_left hstyle.toRegular (isMark_opening j),
        hstyle.spans_append_left (isMark_opening j), events_opening hcut, events_opening hcut]
      exact .event _ ih
  | @closing j _ _ _ ih =>
      rw [apply_append_left hstyle.toRegular (isMark_closing j),
        hstyle.spans_append_left (isMark_closing j), events_closing hcut, events_closing hcut]
      exact .event _ ih
  | part hfind ha _ ih =>
      rw [apply_of_enclosed? hfind, spans_of_enclosed? hfind, List.map_cons,
        hstyle.events_of_enclosed? hcuts hfind ha, hstyle.openTag_eq, hstyle.closeTag_eq,
        List.append_assoc, List.append_assoc, events_opening hcut, ha.events_append hcut,
        events_closing hcut]
      exact .part (fun h => hk (ha.mem_kinds hcut (.inl h)))
        (fun h => hk (ha.mem_kinds hcut (.inr h))) ih

end Style.Writes

/-! ## 2. Lines with emphasis -/

/-- What a line without angle brackets is made of after its emphasis is turned into tags. -/
theorem tagged_emphasize {s : List Char} (h : '<' ∉ s) : Tagged [.light, .strong] (emphasize s) :=
  Style.writes_italic.tagged_apply (Style.writes_bold.tagged_apply (.of_not_mem h))

/-- What marks enclose is part of the text. -/
theorem Style.mem_of_mem_spans {style : Style} {s a : List Char} (h : a ∈ style.spans s) :
    ∀ c ∈ a, c ∈ s := by
  induction s using apply.induct style with
  | case1 =>
      rw [spans_nil] at h
      cases h
  | case2 c cs b rest he ih =>
      obtain ⟨m, -, hs⟩ := eq_of_enclosed? he
      rw [spans_of_enclosed? he] at h
      intro d hd
      rw [hs]
      rcases List.mem_cons.1 h with rfl | h
      · exact List.mem_append_right m (List.mem_append_left _ hd)
      · exact List.mem_append_right m (List.mem_append_right b (List.mem_append_right m (ih h d hd)))
  | case3 c cs he ih =>
      rw [spans_cons_of_enclosed?_eq_none he] at h
      exact fun d hd => List.mem_cons_of_mem c (ih h d hd)

/-- **Tags of emphasis nest exactly if no text that marks enclose is cut**, and if those of light
emphasis are well nested, with strong emphasis in tags. -/
theorem nest_emphasize {isCut : Char → Bool} (hcuts : CutsBetween isCut) {s : List Char}
    (h : '<' ∉ s) :
    nest [] (events isCut (emphasize s)) = some [] ↔
      (∀ a ∈ Style.bold.spans s, ∀ c ∈ a, isCut c = false) ∧
        ∀ a ∈ Style.italic.spans (Style.bold.apply s), WellNested a ∧ ∀ c ∈ a, isCut c = false := by
  have hs : Tagged [] s := .of_not_mem h
  have hbold := Style.writes_bold.paired_apply hcuts List.not_mem_nil hs
  have hitalic := Style.writes_italic.paired_apply hcuts (by decide)
    (Style.writes_bold.tagged_apply hs)
  rw [emphasize, hitalic.nest_iff, hbold.nest_iff, List.forall_mem_map, List.forall_mem_map,
    and_iff_right (nest_events_of_not_mem h)]
  simp only [closed_events_iff]
  refine and_congr_left fun _ => forall₂_congr fun a ha => and_iff_right ?_
  -- strong emphasis is looked for first, so what it encloses has no tags yet
  exact nest_events_of_not_mem fun hlt => h (Style.mem_of_mem_spans ha _ hlt)

/-- **A line is well nested exactly if every text is that light emphasis encloses.** -/
theorem wellNested_emphasize_iff {s : List Char} (h : '<' ∉ s) :
    WellNested (emphasize s) ↔
      ∀ a ∈ Style.italic.spans (Style.bold.apply s), WellNested a := by
  rw [WellNested, tags, nest_emphasize cutsBetween_never h]
  simp

/-! ## 3. Where a line is trimmed and cut -/

/-- The kinds of tags that emphasis becomes. -/
def emphasisKinds : List Kind := [.light, .strong]

theorem not_mem_tag {c : Char} (hc : c ∉ ['<', '/', 'b', 'i', '>']) :
    ∀ k ∈ emphasisKinds, c ∉ k.opening ∧ c ∉ k.closing := by
  have hsub : ∀ k ∈ emphasisKinds, ∀ d ∈ k.opening ++ k.closing, d ∈ ['<', '/', 'b', 'i', '>'] := by
    decide
  exact fun k hk => ⟨fun h => hc (hsub k hk c (List.mem_append_left _ h)),
    fun h => hc (hsub k hk c (List.mem_append_right _ h))⟩

section Parts

variable {s : List Char} (hs : Tagged emphasisKinds s)

include hs

/-- No tag is trimmed off. -/
theorem tagged_trim : Tagged emphasisKinds (trim s) ∧ tags (trim s) = tags s := by
  obtain ⟨a, b, hshape, ha, hb⟩ := exists_trim s
  -- the opening tag of an anchor has a blank in it, but anchors come only after the last trimming
  have hblank : ∀ c ∈ ['<', '/', 'b', 'i', '>'], isBlank c = false := by decide
  have hmarkup : ∀ {c : Char}, isBlank c = true → c ∉ ['<', '/', 'b', 'i', '>'] := by
    intro c hc hmem
    rw [hblank c hmem] at hc
    cases hc
  have hsilent : ∀ {x : List Char}, (∀ c ∈ x, isBlank c = true) →
      ∀ c ∈ x, c ≠ '<' ∧ (fun _ : Char => false) c = false :=
    fun hx c hc => ⟨fun e => hmarkup (hx c hc) (e ▸ List.mem_cons_self), rfl⟩
  have hfront : Tagged emphasisKinds (trim s ++ b) := by
    refine Tagged.of_append_left (a := a) (fun hmem => (hsilent ha _ hmem).1 rfl) ?_
    rwa [← List.append_assoc, ← hshape]
  have htrim : Tagged emphasisKinds (trim s) := by
    cases b with
    | nil => rwa [List.append_nil] at hfront
    | cons d b =>
        have hd := not_mem_tag (hmarkup (hb d List.mem_cons_self))
        exact (hfront.of_append_cons hd rfl).1
  refine ⟨htrim, ?_⟩
  have hend := events_append_of_forall (hsilent hb) []
  rw [List.append_nil] at hend
  conv_rhs => rw [hshape, List.append_assoc]
  rw [tags, tags, events_append_of_forall (hsilent ha),
    htrim.events_append cutsBetween_never.cutsNoTag, hend]
  exact (List.append_nil _).symm

/-- **The parts between bars are well nested exactly if no bar stands within a pair of tags**, and
the tags nest. -/
theorem forall_mem_splitOn_iff :
    (∀ p ∈ splitOn '|' s, Tagged emphasisKinds p) ∧
      ((∀ p ∈ splitOn '|' s, WellNested p) ↔ nest [] (events (· == '|') s) = some []) := by
  induction hn : s.length using Nat.strongRecOn generalizing s with
  | ind n ih =>
      subst hn
      by_cases hbar : '|' ∈ s
      · obtain ⟨a, b, rfl, ha⟩ := List.eq_append_cons_of_mem hbar
        obtain ⟨hfirst, hrest⟩ := hs.of_append_cons (not_mem_tag (by decide)) rfl
        have hlt : b.length < (a ++ '|' :: b).length := by
          simp only [List.length_append, List.length_cons]
          omega
        obtain ⟨hparts, hiff⟩ := ih _ hlt hrest rfl
        have hevents : events (· == '|') (a ++ '|' :: b) =
            tags a ++ .cut :: events (· == '|') b := by
          rw [hfirst.events_append cutsBetween_bar.cutsNoTag, events_cons_of_ne (by decide),
            events_eq_tags fun c hc => beq_false_of_ne (ne_of_mem_of_not_mem hc ha)]
          rfl
        rw [splitOn_append ha, List.forall_mem_cons, List.forall_mem_cons, hiff, hevents,
          nest_append]
        refine ⟨⟨hfirst, hparts⟩, ?_⟩
        rw [WellNested]
        constructor
        · rintro ⟨hnest, h⟩
          rw [hnest]
          exact h
        · intro h
          obtain ⟨stack, hnest, h⟩ := Option.bind_eq_some_iff.1 h
          cases stack with
          | nil => exact ⟨hnest, h⟩
          -- a bar where a tag is open is refused
          | cons k stack => cases h
      · rw [splitOn_of_not_mem hbar, List.forall_mem_singleton, List.forall_mem_singleton,
          events_eq_tags fun c hc => beq_false_of_ne (ne_of_mem_of_not_mem hc hbar)]
        exact ⟨hs, Iff.rfl⟩

/-- **The cells of a row are well nested exactly if the row is**, with its bars for cuts. -/
theorem forall_mem_cells_iff :
    (∀ cell ∈ cells s, WellNested cell) ↔ nest [] (events (· == '|') s) = some [] := by
  obtain ⟨hparts, hiff⟩ := forall_mem_splitOn_iff hs
  have htrim : ∀ p ∈ splitOn '|' s, WellNested (trim p) ↔ WellNested p := fun p hp => by
    rw [WellNested, WellNested, (tagged_trim (hparts p hp)).2]
  rw [← hiff]
  constructor
  · intro h p hp
    rw [← htrim p hp]
    cases hcell : trim p with
    | nil => rfl
    | cons c r =>
        rw [← hcell]
        refine h _ (List.mem_filter.2 ⟨List.mem_map.2 ⟨p, hp, rfl⟩, ?_⟩)
        rw [hcell]
        rfl
  · intro h cell hcell
    obtain ⟨p, hp, rfl⟩ := List.mem_map.1 (List.mem_filter.1 hcell).1
    exact (htrim p hp).2 (h p hp)

end Parts

/-! ## 4. Tags of links -/

/-- The labels of the links of a text. -/
def labels : List Char → List (List Char)
  | [] => []
  | c :: cs =>
    match _h : link? (c :: cs) with
    | some (label, _, rest) => label :: labels rest
    | none => labels cs
  termination_by s => s.length
  decreasing_by
    · have := congrArg List.length (eq_of_link? _h)
      simp at this
      simp
      omega
    · simp

/-- A text with every link replaced by its label. -/
def unlinked : List Char → List Char
  | [] => []
  | c :: cs =>
    match _h : link? (c :: cs) with
    | some (label, _, rest) => label ++ unlinked rest
    | none => c :: unlinked cs
  termination_by s => s.length
  decreasing_by
    · have := congrArg List.length (eq_of_link? _h)
      simp at this
      simp
      omega
    · simp

theorem labels_nil : labels [] = [] := by
  rw [labels]

theorem unlinked_nil : unlinked [] = [] := by
  rw [unlinked]

theorem unlink_of_link? {s label target rest : List Char}
    (h : link? s = some (label, target, rest)) :
    labels s = label :: labels rest ∧ unlinked s = label ++ unlinked rest := by
  cases s with
  | nil => cases h
  | cons c cs =>
      rw [labels, unlinked]
      constructor
      all_goals
        split
        · rename_i h'
          obtain ⟨rfl, htail⟩ := Prod.mk.inj (Option.some.inj (h.symm.trans h'))
          obtain ⟨-, rfl⟩ := Prod.mk.inj htail
          rfl
        · rename_i h'
          rw [h] at h'
          cases h'

theorem unlink_cons_of_link?_eq_none {c : Char} {cs : List Char} (h : link? (c :: cs) = none) :
    labels (c :: cs) = labels cs ∧ unlinked (c :: cs) = c :: unlinked cs := by
  rw [labels, unlinked]
  constructor
  all_goals
    split
    · rename_i h'
      rw [h] at h'
      cases h'
    · rfl

/-- A text without labels is left as it is. -/
theorem substitute_of_labels_eq_nil {s : List Char} (h : labels s = []) : substitute s = s := by
  induction s using substitute.induct with
  | case1 => exact substitute_nil
  | case2 c cs label target rest hl ih =>
      rw [(unlink_of_link? hl).1] at h
      cases h
  | case3 c cs hl ih =>
      rw [(unlink_cons_of_link?_eq_none hl).1] at h
      rw [substitute_cons_of_link?_eq_none hl, ih h]

theorem unlink_append_left {a : List Char} (ha : '[' ∉ a) (s : List Char) :
    labels (a ++ s) = labels s ∧ unlinked (a ++ s) = a ++ unlinked s := by
  induction a with
  | nil => exact ⟨rfl, rfl⟩
  | cons c a ih =>
      rw [List.mem_cons, not_or] at ha
      obtain ⟨hlabels, hunlinked⟩ :=
        unlink_cons_of_link?_eq_none (link?_of_ne (Ne.symm ha.1) (a ++ s))
      rw [List.cons_append, hlabels, hunlinked, (ih ha.2).1, (ih ha.2).2]
      exact ⟨rfl, rfl⟩

/-- What is labelled in a text of whole tags is such a text, and so is what follows the link. -/
theorem tagged_of_link? {s label target rest : List Char}
    (h : link? s = some (label, target, rest)) (hs : Tagged emphasisKinds s) :
    Tagged emphasisKinds label ∧ Tagged emphasisKinds rest := by
  have hshape : s = ['['] ++ (label ++ ']' :: '(' :: (target ++ ')' :: rest)) := by
    rw [eq_of_link? h]
    simp
  rw [hshape] at hs
  obtain ⟨hlabel, hafter⟩ :=
    (hs.of_append_left (by decide)).of_append_cons (not_mem_tag (by decide)) rfl
  have htarget : Tagged emphasisKinds (['('] ++ (target ++ ')' :: rest)) := hafter
  exact ⟨hlabel,
    ((htarget.of_append_left (by decide)).of_append_cons (not_mem_tag (by decide)) rfl).2⟩

/-- An anchor is a pair of tags around its label: a target has no tags, since it is escaped. -/
theorem tags_anchor_append {label : List Char} (hlabel : Tagged emphasisKinds label)
    (target s : List Char) :
    tags (anchor label target ++ s) =
      .opens .anchor :: (tags label ++ .closes .anchor :: tags s) := by
  have hregroup : ∀ front escaped back : List Char,
      front ++ escaped ++ ['\x22', '>'] ++ label ++ back ++ s =
        front ++ ((escaped ++ ['\x22', '>']) ++ (label ++ (back ++ s))) := by
    simp
  have hshape : anchor label target ++ s = Kind.anchor.opening ++
      ((escapeChars target ++ ['\x22', '>']) ++ (label ++ (Kind.anchor.closing ++ s))) :=
    hregroup _ _ _
  have hsilent : ∀ c ∈ escapeChars target ++ ['\x22', '>'],
      c ≠ '<' ∧ (fun _ : Char => false) c = false :=
    List.forall_mem_append.2 ⟨fun c hc => ⟨(escapeChars_special hc).1, rfl⟩, by decide⟩
  have hcut := cutsBetween_never.cutsNoTag
  rw [hshape, tags, events_opening hcut, events_append_of_forall hsilent, hlabel.events_append hcut,
    events_closing hcut]
  rfl

/-- A text of whole tags is read link by link, with a label for what a link encloses. -/
theorem scanned_links {s : List Char} (hs : Tagged emphasisKinds s) :
    Scanned (fun s => (link? s).map fun l => (l.1, l.2.2)) emphasisKinds s := by
  refine hs.scanned (fun h => ?_) fun h => ?_
  · obtain ⟨⟨label, target, rest⟩, hl, ⟨⟩⟩ := Option.map_eq_some_iff.1 h
    have := congrArg List.length (eq_of_link? hl)
    simp at this
    dsimp only
    omega
  · obtain ⟨⟨label, target, rest⟩, hl, ⟨⟩⟩ := Option.map_eq_some_iff.1 h
    exact tagged_of_link? hl

/-- **Links put pairs of tags around their labels**, and take the tags of their targets away. -/
theorem paired_substitute {s : List Char} (hs : Tagged emphasisKinds s) :
    Paired .anchor (tags (substitute s)) (tags (unlinked s)) ((labels s).map tags) := by
  have hread := scanned_links hs
  clear hs
  have hcut := cutsBetween_never.cutsNoTag
  have hbracket : ∀ k ∈ emphasisKinds, '[' ∉ k.opening ∧ '[' ∉ k.closing := not_mem_tag (by decide)
  induction hread with
  | nil =>
      rw [substitute_nil, unlinked_nil, labels_nil]
      exact .nil
  | char hc hnone _ ih =>
      have hnone := Option.map_eq_none_iff.1 hnone
      obtain ⟨hlabels, hunlinked⟩ := unlink_cons_of_link?_eq_none hnone
      rw [substitute_cons_of_link?_eq_none hnone, hlabels, hunlinked, tags, tags,
        events_cons_of_ne hc, events_cons_of_ne hc]
      exact ih
  | @opening j s hj _ ih =>
      obtain ⟨hlabels, hunlinked⟩ := unlink_append_left (hbracket j hj).1 s
      rw [substitute_append_left (hbracket j hj).1, hlabels, hunlinked, tags, tags,
        events_opening hcut, events_opening hcut]
      exact .event _ ih
  | @closing j s hj _ ih =>
      obtain ⟨hlabels, hunlinked⟩ := unlink_append_left (hbracket j hj).2 s
      rw [substitute_append_left (hbracket j hj).2, hlabels, hunlinked, tags, tags,
        events_closing hcut, events_closing hcut]
      exact .event _ ih
  | part hfind ha _ ih =>
      obtain ⟨⟨label, target, rest'⟩, hl, he⟩ := Option.map_eq_some_iff.1 hfind
      obtain ⟨rfl, rfl⟩ := Prod.mk.inj he
      obtain ⟨hlabels, hunlinked⟩ := unlink_of_link? hl
      have hplain : Kind.anchor ∉ emphasisKinds := by decide
      rw [substitute_of_link? hl, tags_anchor_append ha, hlabels, hunlinked, List.map_cons,
        tags.eq_1 (_ ++ _), ha.events_append hcut]
      exact .part (fun h => hplain (ha.mem_kinds hcut (.inl h)))
        (fun h => hplain (ha.mem_kinds hcut (.inr h))) ih

/-- **A paragraph is well nested exactly if the label of each of its links is**, and the text is with
its links replaced by their labels. -/
theorem wellNested_substitute_iff {s : List Char} (hs : Tagged emphasisKinds s) :
    WellNested (substitute s) ↔ WellNested (unlinked s) ∧ ∀ label ∈ labels s, WellNested label := by
  rw [WellNested, (paired_substitute hs).nest_iff, List.forall_mem_map]
  refine and_congr_right fun _ => forall₂_congr fun label _ => ?_
  rw [tags, closed_events_iff]
  exact and_iff_left fun _ _ => rfl

/-! ## 5. Fields of a line -/

/-- The pieces of a text are texts of whole tags: it is cut at exclamation marks and parentheses. -/
theorem tagged_of_mem_piecesAfter (held : List Char) {s t : List Char}
    (hs : Tagged emphasisKinds (held.reverse ++ s)) (ht : .text t ∈ piecesAfter held s) :
    Tagged emphasisKinds t := by
  have hpiece : ∀ {u : List Char}, Tagged emphasisKinds u → .text t ∈ textPiece u →
      Tagged emphasisKinds t := fun hu hmem => by
    rw [Piece.text.inj (mem_textPiece hmem).1]
    exact (tagged_trim hu).1
  induction held, s using piecesAfter.induct with
  | case1 held =>
      rw [piecesAfter_nil] at ht
      rw [List.append_nil] at hs
      exact hpiece hs ht
  | case2 held c cs alt path rest hi ih =>
      rw [eq_of_image? hi] at hs
      obtain ⟨hheld, hafter⟩ := hs.of_append_cons (not_mem_tag (c := '!') (by decide)) rfl
      obtain ⟨-, hrest⟩ := hafter.of_append_cons (not_mem_tag (c := ')') (by decide)) rfl
      rw [piecesAfter_of_image? hi] at ht
      rcases List.mem_append.1 ht with ht | ht
      · exact hpiece hheld ht
      · rcases List.mem_cons.1 ht with ht | ht
        · cases ht
        · exact ih hrest ht
  | case3 held c cs hi ih =>
      rw [piecesAfter_cons_of_image?_eq_none hi] at ht
      refine ih ?_ ht
      rwa [List.reverse_cons, List.append_assoc, List.singleton_append]

theorem tagged_of_mem_paragraphTexts {s t : List Char} (hs : Tagged emphasisKinds s)
    (ht : t ∈ paragraphTexts s) : Tagged emphasisKinds t := by
  rcases of_mem_paragraphTexts ht with rfl | ht
  · exact hs
  · exact tagged_of_mem_piecesAfter [] hs ht

/-- The fields that a line comes to: the texts of headings, quotes and list items, the cells of a
row, and the paragraphs of any other text, with their links turned into anchors. -/
def LineClass.fields : LineClass → List (List Char)
  | .heading _ t | .quote t | .listItem t => [t]
  | .tableRow row => cells row
  | .text t => (paragraphTexts t).map substitute
  | .rule | .fence _ => []

/-- The texts that strong emphasis encloses in a line. -/
def strongTexts (raw : List Char) : List (List Char) :=
  Style.bold.spans (trim raw)

/-- The texts that light emphasis encloses in a line, with strong emphasis in tags. -/
def lightTexts (raw : List Char) : List (List Char) :=
  Style.italic.spans (Style.bold.apply (trim raw))

/-- **Whether marks and links of a line do not cross.** No text in light emphasis holds one end only
of a text in strong emphasis; in a row, moreover, no text in emphasis goes across a bar; and in a
text with links or images, which is cut at the images and loses the targets of the links, what is
left of the tags nests in every paragraph, and in the label of every link. -/
def Orderly (raw : List Char) : Prop :=
  match LineClass.of (.ofRaw raw) with
  | .heading _ _ | .quote _ | .listItem _ => ∀ a ∈ lightTexts raw, WellNested a
  | .tableRow _ =>
    (∀ a ∈ strongTexts raw, '|' ∉ a) ∧ ∀ a ∈ lightTexts raw, WellNested a ∧ '|' ∉ a
  | .text t =>
    if splitImages? t = none ∧ labels t = [] then ∀ a ∈ lightTexts raw, WellNested a
    else ∀ p ∈ paragraphTexts t, WellNested (unlinked p) ∧ ∀ label ∈ labels p, WellNested label
  | .rule | .fence _ => True

/-- What follows a marker has the tags of the line, whatever blanks are trimmed off it. -/
theorem tags_trim_of_append {m r : List Char} (hm : '<' ∉ m)
    (hs : Tagged emphasisKinds (m ++ r)) : tags (trim r) = tags (m ++ r) := by
  rw [(tagged_trim (hs.of_append_left hm)).2, tags, tags, events_append_of_forall]
  exact fun c hc => ⟨ne_of_mem_of_not_mem hc hm, rfl⟩

/-- **The text of a line has the tags of the line.** -/
theorem Reads.tags_eq {s t : List Char} {k : LineClass} (h : Reads s k)
    (hs : Tagged emphasisKinds s) (ht : t ∈ k.texts) : tags t = tags s := by
  cases h with
  | @item m r hm =>
      rw [List.mem_singleton.1 ht]
      exact tags_trim_of_append (m := [m]) (by rcases hm with rfl | rfl <;> decide) hs
  | heading r hlow hhigh =>
      rw [List.mem_singleton.1 ht]
      exact tags_trim_of_append (fun hmem => by cases List.eq_of_mem_replicate hmem) hs
  | fence s kind => cases ht
  | quote r =>
      rw [List.mem_singleton.1 ht]
      exact tags_trim_of_append (m := ['>']) (by decide) hs
  | row s => rw [List.mem_singleton.1 ht]
  | text s => rw [List.mem_singleton.1 ht]

theorem Reads.eq_of_tableRow {s row : List Char} (h : Reads s (.tableRow row)) : row = s := by
  cases h
  rfl

theorem Reads.eq_of_text {s t : List Char} (h : Reads s (.text t)) : t = s := by
  cases h
  rfl

/-- **The fields of a line are all well nested exactly if nothing in the line crosses.** -/
theorem forall_mem_fields_iff {raw : List Char} (h : '<' ∉ raw) :
    (∀ f ∈ (LineClass.of (.ofRaw raw)).fields, WellNested f) ↔ Orderly raw := by
  have htrim : '<' ∉ trim raw := fun hmem => h (mem_of_mem_trim hmem)
  have htagged : Tagged emphasisKinds (emphasize (trim raw)) := tagged_emphasize htrim
  have hone : ∀ {t : List Char}, tags t = tags (emphasize (trim raw)) →
      (WellNested t ↔ ∀ a ∈ lightTexts raw, WellNested a) := fun ht => by
    rw [lightTexts, ← wellNested_emphasize_iff htrim, WellNested, WellNested, ht]
  rw [Orderly]
  cases hclass : LineClass.of (.ofRaw raw) with
  | rule | fence kind => exact iff_of_true (fun _ hf => absurd hf List.not_mem_nil) trivial
  | listItem t | heading level t | quote t =>
      have hreads := Reads.of_class hclass LineClass.noConfusion
      rw [LineClass.fields, List.forall_mem_singleton]
      exact hone (hreads.tags_eq htagged (List.mem_singleton_self t))
  | tableRow row =>
      have hbar : ∀ a : List Char, (∀ c ∈ a, (c == '|') = false) ↔ '|' ∉ a := fun a =>
        ⟨fun h hmem => absurd (h '|' hmem) (by decide),
          fun h c hc => beq_false_of_ne (ne_of_mem_of_not_mem hc h)⟩
      rw [LineClass.fields, (Reads.of_class hclass LineClass.noConfusion).eq_of_tableRow,
        forall_mem_cells_iff htagged, nest_emphasize cutsBetween_bar htrim]
      simp only [hbar]
      rfl
  | text t =>
      rw [LineClass.fields, (Reads.of_class hclass LineClass.noConfusion).eq_of_text,
        List.forall_mem_map]
      dsimp only
      by_cases hplain : splitImages? (emphasize (trim raw)) = none ∧
        labels (emphasize (trim raw)) = []
      · rw [if_pos hplain, paragraphTexts, hplain.1, List.forall_mem_singleton,
          substitute_of_labels_eq_nil hplain.2]
        exact hone rfl
      · rw [if_neg hplain]
        exact forall₂_congr fun p hp =>
          wellNested_substitute_iff (tagged_of_mem_paragraphTexts htagged hp)

/-! ## 6. Fields of a document -/

/-- The texts of a block that carry tags: of a heading, a paragraph and a quote, of list items and of
cells. -/
def Block.fields : Block → List String
  | heading _ text | paragraph text | blockQuote text => [text]
  | unorderedList items | orderedList _ items => items
  | table header rows => header ++ rows.flatten
  | definitionList _ _ | codeBlock _ _ _ | horizontalRule | image _ _ => []

/-- Whether a text is a field of one of the lines. -/
def FromLine (ls : List (List Char)) (field : String) : Prop :=
  ∃ raw ∈ ls, field.toList ∈ (LineClass.of (.ofRaw raw)).fields

theorem FromLine.mono {ls ls' : List (List Char)} {field : String} (h : FromLine ls field)
    (hsub : ls ⊆ ls') : FromLine ls' field := by
  obtain ⟨raw, hraw, hfield⟩ := h
  exact ⟨raw, hsub hraw, hfield⟩

/-- A text that a line is read as with a test is a field of this line. -/
theorem FromLine.of_class {ls : List (List Char)} {raw t : List Char} {k : LineClass}
    (hraw : raw ∈ ls) (hclass : LineClass.of (.ofRaw raw) = k) (ht : t ∈ k.fields) :
    FromLine ls (String.ofList t) := by
  refine ⟨raw, hraw, ?_⟩
  rw [hclass, String.toList_ofList]
  exact ht

variable {language : Language}

/-- **Every field of a document is a field of one of its lines.** -/
theorem fromLine_of_mem_nested {ls : List (List Char)} :
    ∀ b ∈ nested language ls, ∀ f ∈ b.fields, FromLine ls f := by
  have hrest : ∀ {ls ls' : List (List Char)}, ls ⊆ ls' →
      (∀ b ∈ nested language ls, ∀ f ∈ b.fields, FromLine ls f) →
      ∀ b ∈ nested language ls, ∀ f ∈ b.fields, FromLine ls' f :=
    fun hsub h b hb f hf => (h b hb f hf).mono hsub
  induction ls using nested.induct with
  | case1 =>
      rw [nested]
      exact fun b hb => (List.not_mem_nil hb).elim
  | case2 raw lines hclass ih =>
      rw [nested, hclass, List.forall_mem_cons]
      exact ⟨fun f hf => (List.not_mem_nil hf).elim, hrest (List.subset_cons_self raw lines) ih⟩
  | case3 raw lines item hclass ih =>
      rw [nested, hclass, List.forall_mem_cons]
      refine ⟨fun f hf => ?_, hrest ?_ ih⟩
      · obtain ⟨t, ht, rfl⟩ := List.mem_map.1 hf
        rcases List.mem_cons.1 ht with rfl | ht
        · exact .of_class List.mem_cons_self hclass (List.mem_singleton_self t)
        · obtain ⟨raw', hraw', htest⟩ := mem_run ht
          exact .of_class (List.mem_cons_of_mem raw hraw') (itemLine?_eq_some htest)
            (List.mem_singleton_self t)
      · exact fun l hl => List.mem_cons_of_mem raw ((List.dropWhile_suffix _).subset hl)
  | case4 raw lines level text hclass ih =>
      rw [nested, hclass, List.forall_mem_cons]
      refine ⟨fun f hf => ?_, hrest (List.subset_cons_self raw lines) ih⟩
      rw [List.mem_singleton.1 hf]
      exact .of_class List.mem_cons_self hclass (List.mem_singleton_self text)
  | case5 raw lines kind hclass ih =>
      rw [nested, hclass, List.forall_mem_cons]
      refine ⟨fun f hf => (List.not_mem_nil hf).elim, hrest ?_ ih⟩
      exact fun l hl => List.mem_cons_of_mem raw
        ((List.dropWhile_suffix _).subset (List.mem_of_mem_drop hl))
  | case6 raw lines text hclass ih =>
      rw [nested, hclass, List.forall_mem_cons]
      refine ⟨fun f hf => ?_, hrest (List.subset_cons_self raw lines) ih⟩
      rw [List.mem_singleton.1 hf]
      exact .of_class List.mem_cons_self hclass (List.mem_singleton_self text)
  | case7 raw lines row hclass ih =>
      rw [nested, hclass, List.forall_mem_cons]
      refine ⟨(allCells_nil _).addRows fun row' hrow' cell hcell => ?_, hrest ?_ ih⟩
      · rcases List.mem_cons.1 hrow' with rfl | hrow'
        · exact .of_class List.mem_cons_self hclass hcell
        · obtain ⟨raw', hraw', htest⟩ := mem_run hrow'
          exact .of_class (List.mem_cons_of_mem raw hraw') (rowLine?_eq_some htest) hcell
      · exact fun l hl => List.mem_cons_of_mem raw ((List.dropWhile_suffix _).subset hl)
  | case8 raw lines s hclass ih =>
      rw [nested, hclass, List.forall_mem_append]
      refine ⟨fun b hb f hf => ?_, hrest (List.subset_cons_self raw lines) ih⟩
      rcases mem_textBlocks hb with ⟨t, ht, rfl⟩ | ⟨alt, path, rfl⟩
      · rw [List.mem_singleton.1 hf]
        exact .of_class List.mem_cons_self hclass (List.mem_map_of_mem ht)
      · exact (List.not_mem_nil hf).elim

/-- **When generated tags nest.** In a text without angle brackets, the fields of a line are all well
nested exactly if nothing in the line crosses; and every field of the document is a field of one of
the lines, so all are well nested if nothing crosses in any line. -/
theorem nesting_of_fields (language : Language) {text : String} (h : '<' ∉ text.toList) :
    (∀ line ∈ lines text,
      (∀ f ∈ (LineClass.of (.ofRaw line.toList)).fields, WellNested f) ↔ Orderly line.toList) ∧
    ∀ b ∈ ofString language text, ∀ f ∈ b.fields, ∃ line ∈ lines text,
      f.toList ∈ (LineClass.of (.ofRaw line.toList)).fields ∧
        (Orderly line.toList → WellNested f.toList) := by
  have hline : ∀ line ∈ lines text, '<' ∉ line.toList := fun line hline hmem =>
    forall_mem_lines (P := (· ≠ '<')) (fun c hc _ => ne_of_mem_of_not_mem hc h) line hline _ hmem rfl
  refine ⟨fun line hl => forall_mem_fields_iff (hline line hl), fun b hb f hf => ?_⟩
  rw [ofString_eq_nested] at hb
  obtain ⟨raw, hraw, hfield⟩ := fromLine_of_mem_nested b hb f hf
  obtain ⟨line, hl, rfl⟩ := List.mem_map.1 hraw
  refine ⟨line, hl, hfield, fun horderly => ?_⟩
  exact (forall_mem_fields_iff (hline line hl)).2 horderly _ hfield

/-- A heading with strong and with light emphasis is well nested. -/
theorem nesting_of_fields_heading :
    '<' ∉ "# Use **a** and *b*".toList ∧
      ∀ b ∈ ofString .csharp "# Use **a** and *b*", ∀ f ∈ b.fields, WellNested f.toList := by
  have hplain : '<' ∉ "# Use **a** and *b*".toList := by decide
  refine ⟨hplain, fun b hb f hf => ?_⟩
  obtain ⟨line, hline, -, hnested⟩ := (nesting_of_fields .csharp hplain).2 b hb f hf
  obtain rfl : line = "# Use **a** and *b*" := by
    rw [lines_of_newline_not_mem (by decide) (by decide)] at hline
    exact List.mem_singleton.1 hline
  have hclass : LineClass.of (.ofRaw "# Use **a** and *b*".toList) =
      .heading 1 "Use <b>a</b> and <i>b</i>".toList := by decide +kernel
  refine hnested ?_
  rw [Orderly, hclass]
  decide +kernel

/-- Not every field is well nested: three stars on either side close in the order in which they
opened. -/
theorem not_forall_wellNested :
    ¬∀ text : String, '<' ∉ text.toList →
      ∀ b ∈ ofString .csharp text, ∀ f ∈ b.fields, WellNested f.toList := by
  intro h
  have hread : ofString .csharp "***x***" = [.paragraph "<b><i>x</b></i>"] := by decide +kernel
  have hnested := h "***x***" (by decide) (.paragraph "<b><i>x</b></i>")
    (hread ▸ List.mem_singleton_self _) _ (List.mem_singleton_self _)
  exact absurd hnested (by decide)

end Quire.Document
