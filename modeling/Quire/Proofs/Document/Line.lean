import Quire.Proofs.Document.Emphasis
import Quire.Proofs.Text.Trim

/-!
# What a line is

The class of a line from its first character on: what a marker opens (`ofText_heading`,
`ofText_row`, …), and that **a line which begins with no marker is text** (`ofText_text`). In the
other direction, the text of a list item, a heading or a quote is what follows the marker, trimmed
(`reads_ofText`), so the texts of a line hold only what the line holds, and the tags
(`forall_mem_texts`). **A line opens code exactly as it would close it**, by the mark that it begins
with (`class_of_closes`).
-/

namespace Quire.Document

open Quire.Text

/-! ## 1. From the first character to the class -/

/-- A line that is trimmed and has no emphasis is classed as it stands. -/
theorem class_of_plain {raw : List Char} (htrim : trim raw = raw) (hrule : isRule raw = false)
    (hplain : ∀ c ∈ raw, isMark c = false) : LineClass.of (.ofRaw raw) = .ofText raw := by
  have h : isRule (trim raw) = false := by rw [htrim, hrule]
  rw [ofRaw_of_isRule_eq_false h, htrim, emphasize_of_forall hplain]
  rfl

theorem isRule_cons_of_not_mem {c : Char} (hc : c ∉ ['_', '-', '*']) (s : List Char) :
    isRule (c :: s) = false := by
  simp only [List.mem_cons, List.not_mem_nil, or_false, not_or] at hc
  simp [isRule, hc.1, hc.2.1, hc.2.2]

theorem listItem?_of_ne {c : Char} (hstar : c ≠ '*') (hdash : c ≠ '-') (s : List Char) :
    listItem? (c :: s) = none := by
  unfold listItem?
  split
  · rename_i h
    exact absurd (List.cons.inj h).1 hstar
  · rename_i h
    exact absurd (List.cons.inj h).1 hdash
  · rfl

theorem heading?_of_ne {c : Char} (hc : c ≠ '#') (s : List Char) : heading? (c :: s) = none := by
  simp [heading?, hc]

theorem quote?_of_ne {c : Char} (hc : c ≠ '>') (s : List Char) : quote? (c :: s) = none := by
  unfold quote?
  split
  · rename_i h
    exact absurd (List.cons.inj h).1 hc
  · rfl

theorem isTableRow_cons (c : Char) (s : List Char) : isTableRow (c :: s) = decide (c = '|') := by
  unfold isTableRow
  split
  · rename_i h
    rw [(List.cons.inj h).1]
    rfl
  · rename_i h
    exact (decide_eq_false fun e => h s (congrArg (· :: s) e)).symm

/-- A line is no fence if its first character is in no mark of a fence. -/
theorem fence?_cons_of_not_mem {c : Char} (hblank : isBlank c = false) (hc : c ∉ ['\x60', '~'])
    (s : List Char) : fence? (c :: s) = none := by
  simp only [List.mem_cons, List.not_mem_nil, or_false, not_or] at hc
  rw [fence?, trim_cons_of_isBlank_eq_false hblank]
  simp [Fence.mark, dropMark?, Ne.symm hc.1, Ne.symm hc.2]

theorem ofText_dash (s : List Char) : LineClass.ofText ('-' :: s) = .listItem (trim s) := rfl

/-- One to three number signs and a blank make a heading. -/
theorem ofText_heading {level : Nat} (hlow : 1 ≤ level) (hhigh : level ≤ 3) {c : Char}
    (hc : isBlank c = true) (s : List Char) :
    LineClass.ofText (List.replicate level '#' ++ c :: s) = .heading level (trim s) := by
  have hsign : c ≠ '#' := by
    rintro rfl
    cases hc
  have htake : (List.replicate level '#' ++ c :: s).takeWhile (· == '#') =
      List.replicate level '#' := by
    rw [List.takeWhile_append_of_pos (by simp), List.takeWhile_cons_of_neg (by simpa using hsign),
      List.append_nil]
  have hdrop : (List.replicate level '#' ++ c :: s).dropWhile (· == '#') = c :: s := by
    rw [List.dropWhile_append_of_pos (by simp), List.dropWhile_cons_of_neg (by simpa using hsign)]
  have hlevel : (level = 0 || decide (maxHeadingLevel < level)) = false := by
    rw [Bool.or_eq_false_iff]
    exact ⟨decide_eq_false (by omega), decide_eq_false (Nat.not_lt.2 hhigh)⟩
  have hheading : heading? (List.replicate level '#' ++ c :: s) = some (level, trim s) := by
    rw [heading?, htake, hdrop, List.length_replicate]
    simp only [hlevel, hc, trim_cons_of_isBlank hc]
    rfl
  have hitem : listItem? (List.replicate level '#' ++ c :: s) = none := by
    obtain ⟨n, rfl⟩ : ∃ n, level = n + 1 := ⟨level - 1, by omega⟩
    rfl
  rw [LineClass.ofText, hitem, hheading]

/-- A line that begins with none of the markers of items, headings and fences is a quote, a table row
or text. -/
theorem ofText_cons_of_not_mem {c : Char} (hblank : isBlank c = false)
    (hc : c ∉ ['*', '-', '#', '\x60', '~']) (s : List Char) :
    LineClass.ofText (c :: s) =
      if c = '>' then .quote (trim s)
      else if c = '|' then .tableRow (c :: s)
      else .text (c :: s) := by
  simp only [List.mem_cons, List.not_mem_nil, or_false, not_or] at hc
  obtain ⟨hstar, hdash, hsign, hfence⟩ := hc
  have hitem : listItem? (c :: s) = none := listItem?_of_ne hstar hdash s
  have hfence : fence? (c :: s) = none := fence?_cons_of_not_mem hblank (by simpa using hfence) s
  simp only [LineClass.ofText, hitem, heading?_of_ne hsign, hfence]
  by_cases hquote : c = '>'
  · subst hquote
    rfl
  · simp only [quote?_of_ne hquote, isTableRow_cons, decide_eq_true_eq, if_neg hquote]

theorem ofText_quote (s : List Char) : LineClass.ofText ('>' :: s) = .quote (trim s) := by
  rw [ofText_cons_of_not_mem rfl (by decide), if_pos rfl]

theorem ofText_row (s : List Char) : LineClass.ofText ('|' :: s) = .tableRow ('|' :: s) := by
  rw [ofText_cons_of_not_mem rfl (by decide), if_neg (by decide), if_pos rfl]

/-- The characters with which the marker of a block may begin. -/
def markers : List Char := ['*', '-', '#', '\x60', '~', '>', '|']

/-- **A line that begins with no marker is text.** -/
theorem ofText_text {c : Char} (hblank : isBlank c = false) (hc : c ∉ markers) (s : List Char) :
    LineClass.ofText (c :: s) = .text (c :: s) := by
  have hmarker : c ∉ ['*', '-', '#', '\x60', '~'] ∧ c ≠ '>' ∧ c ≠ '|' := by
    simpa [markers, and_assoc] using hc
  rw [ofText_cons_of_not_mem hblank hmarker.1, if_neg hmarker.2.1, if_neg hmarker.2.2]

/-! ## 2. From the class back to the line -/

/-- **How a text that is no rule may be read**: what follows the marker of an item, a heading or a
quote is trimmed, and a table row or a text is taken whole. -/
inductive Reads : List Char → LineClass → Prop where
  | item {m : Char} (r : List Char) (hm : m = '*' ∨ m = '-') : Reads (m :: r) (.listItem (trim r))
  | heading {level : Nat} (r : List Char) (hlow : 1 ≤ level) (hhigh : level ≤ 3) :
      Reads (List.replicate level '#' ++ r) (.heading level (trim r))
  | fence (s : List Char) (kind : Fence) : Reads s (.fence kind)
  | quote (r : List Char) : Reads ('>' :: r) (.quote (trim r))
  | row (s : List Char) : Reads s (.tableRow s)
  | text (s : List Char) : Reads s (.text s)

theorem Reads.of_listItem? {s t : List Char} (h : listItem? s = some t) : Reads s (.listItem t) := by
  unfold listItem? at h
  split at h
  · rw [← Option.some.inj h]
    exact .item _ (.inl rfl)
  · rw [← Option.some.inj h]
    exact .item _ (.inr rfl)
  · cases h

theorem Reads.of_heading? {s t : List Char} {level : Nat} (h : heading? s = some (level, t)) :
    Reads s (.heading level t) := by
  have hs : s = s.takeWhile (· == '#') ++ s.dropWhile (· == '#') :=
    List.takeWhile_append_dropWhile.symm
  have hsigns : s.takeWhile (· == '#') =
      List.replicate (s.takeWhile (· == '#')).length '#' :=
    List.eq_replicate_of_mem fun c hc => by simpa using List.mem_takeWhile_imp hc
  dsimp only [heading?] at h
  split at h
  · cases h
  · rename_i hlevel
    rw [Bool.not_eq_true, Bool.or_eq_false_iff, decide_eq_false_iff_not,
      decide_eq_false_iff_not] at hlevel
    have hlow : 1 ≤ (s.takeWhile (· == '#')).length := Nat.one_le_iff_ne_zero.2 hlevel.1
    have hhigh : (s.takeWhile (· == '#')).length ≤ 3 := Nat.le_of_not_lt hlevel.2
    split at h
    · rename_i hrest
      obtain ⟨rfl, rfl⟩ := Prod.mk.inj (Option.some.inj h)
      have := Reads.heading [] hlow hhigh
      rwa [← hsigns, ← hrest, ← hs, hrest] at this
    · rename_i c r hrest
      split at h
      · obtain ⟨rfl, rfl⟩ := Prod.mk.inj (Option.some.inj h)
        have := Reads.heading (s.dropWhile (· == '#')) hlow hhigh
        rwa [← hsigns, ← hs] at this
      · cases h

theorem Reads.of_quote? {s t : List Char} (h : quote? s = some t) : Reads s (.quote t) := by
  unfold quote? at h
  split at h
  · rw [← Option.some.inj h]
    exact .quote _
  · cases h

theorem reads_ofText (s : List Char) : Reads s (.ofText s) := by
  unfold LineClass.ofText
  split
  · rename_i hitem
    exact .of_listItem? hitem
  split
  · rename_i hheading
    exact .of_heading? hheading
  split
  · exact .fence _ _
  split
  · rename_i hquote
    exact .of_quote? hquote
  split
  · exact .row s
  · exact .text s

theorem Reads.level_range {s t : List Char} {level : Nat} (h : Reads s (.heading level t)) :
    1 ≤ level ∧ level ≤ 3 := by
  cases h with
  | heading r hlow hhigh => exact ⟨hlow, hhigh⟩

/-- A line that is no rule is read by what it is with its emphasis in tags. -/
theorem Reads.of_class {raw : List Char} {k : LineClass} (h : LineClass.of (.ofRaw raw) = k)
    (hk : k ≠ .rule) : Reads (emphasize (trim raw)) k := by
  cases hrule : isRule (trim raw) with
  | true =>
      rw [MarkedLine.ofRaw, if_pos hrule] at h
      exact absurd h.symm hk
  | false =>
      rw [ofRaw_of_isRule_eq_false hrule] at h
      rw [← h]
      exact reads_ofText _

/-- The texts that a line is read as. -/
def LineClass.texts : LineClass → List (List Char)
  | .listItem t | .heading _ t | .quote t | .tableRow t | .text t => [t]
  | .rule | .fence _ => []

/-- A text is read as part of itself. -/
theorem Reads.mem_of_mem_texts {s t : List Char} {k : LineClass} (h : Reads s k) (ht : t ∈ k.texts) :
    ∀ c ∈ t, c ∈ s := by
  cases h with
  | item r hm =>
      rw [List.mem_singleton.1 ht]
      exact fun c hc => List.mem_cons_of_mem _ (mem_of_mem_trim hc)
  | heading r hlow hhigh =>
      rw [List.mem_singleton.1 ht]
      exact fun c hc => List.mem_append_right _ (mem_of_mem_trim hc)
  | fence s kind => cases ht
  | quote r =>
      rw [List.mem_singleton.1 ht]
      exact fun c hc => List.mem_cons_of_mem _ (mem_of_mem_trim hc)
  | row s =>
      rw [List.mem_singleton.1 ht]
      exact fun c hc => hc
  | text s =>
      rw [List.mem_singleton.1 ht]
      exact fun c hc => hc

/-- **The texts of a line hold what the line holds, and the tags.** -/
theorem forall_mem_texts {P : Char → Prop} {raw : List Char}
    (htags : ∀ c ∈ ['<', '/', 'b', 'i', '>'], P c) (h : ∀ c ∈ raw, P c) :
    ∀ t ∈ (LineClass.of (.ofRaw raw)).texts, ∀ c ∈ t, P c := by
  intro t ht c hc
  have hreads : Reads (emphasize (trim raw)) (.of (.ofRaw raw)) := .of_class rfl fun hrule => by
    rw [hrule] at ht
    cases ht
  exact forall_mem_emphasize htags (fun d hd => h d (mem_of_mem_trim hd)) c
    (hreads.mem_of_mem_texts ht c hc)

/-! ## 3. Fences -/

/-- The mark of a fence is one character, three times, which is neither blank nor a mark of
emphasis. -/
theorem Fence.mark_eq (kind : Fence) : ∃ c, kind.mark = [c, c, c] ∧ isBlank c = false ∧
    isMark c = false ∧ c ∉ ['_', '-', '*'] ∧ c ≠ '#' := by
  cases kind with
  | backticks => exact ⟨'\x60', rfl, by decide⟩
  | tildes => exact ⟨'~', rfl, by decide⟩

theorem trim_mark_append (kind : Fence) (s : List Char) :
    trim (kind.mark ++ s) = kind.mark ++ trimEnd s := by
  obtain ⟨c, hmark, hc, -⟩ := kind.mark_eq
  rw [hmark]
  show trim (c :: c :: c :: s) = _
  rw [trim_cons_of_isBlank_eq_false hc, trimEnd_cons hc, trimEnd_cons hc]
  rfl

/-- **A line is a fence exactly if it begins, blanks apart, with the mark of that fence.** -/
theorem fence?_eq_some_iff {s : List Char} {kind : Fence} :
    fence? s = some kind ↔ ∃ r, trim s = kind.mark ++ r := by
  constructor
  · intro h
    have hfound := List.find?_some h
    obtain ⟨r, hr⟩ := Option.isSome_iff_exists.1 hfound
    exact ⟨r, eq_append_of_dropMark? hr⟩
  · rintro ⟨r, hr⟩
    rw [fence?, hr]
    cases kind <;> rfl

theorem Fence.closes_iff {kind : Fence} {raw : List Char} :
    kind.closes raw = true ↔ ∃ r, trim raw = kind.mark ++ r := by
  rw [Fence.closes, beq_iff_eq, fence?_eq_some_iff]

/-- **A line that would close code of a kind opens code of that kind where none is open.** Emphasis
leaves the mark as it is, and whatever stands behind it has no part in the class. -/
theorem class_of_closes {kind : Fence} {raw : List Char} (h : kind.closes raw = true) :
    LineClass.of (.ofRaw raw) = .fence kind := by
  obtain ⟨r, hr⟩ := Fence.closes_iff.1 h
  obtain ⟨c, hmark, -, hc, hrule, hsign⟩ := kind.mark_eq
  have hplain : ∀ d ∈ kind.mark, isMark d = false := by simpa [hmark] using hc
  have hruleless : isRule (trim raw) = false := by
    rw [hr, hmark]
    exact isRule_cons_of_not_mem hrule _
  have hfence : fence? (kind.mark ++ emphasize r) = some kind :=
    fence?_eq_some_iff.2 ⟨_, trim_mark_append kind _⟩
  have hitem : listItem? (kind.mark ++ emphasize r) = none := by
    cases kind <;> rfl
  have hheading : heading? (kind.mark ++ emphasize r) = none := by
    rw [hmark]
    exact heading?_of_ne hsign _
  rw [ofRaw_of_isRule_eq_false hruleless, hr, emphasize_append_left hplain]
  simp only [LineClass.of, LineClass.ofText, hitem, hheading, hfence]

/-- A mark of a fence makes a fence, whatever blanks stand before it and whatever stands behind. -/
theorem closes_of_blanks {indent : List Char} (h : ∀ c ∈ indent, isBlank c = true) (kind : Fence)
    (s : List Char) : kind.closes (indent ++ (kind.mark ++ s)) = true := by
  refine Fence.closes_iff.2 ⟨trimEnd s, ?_⟩
  induction indent with
  | nil => exact trim_mark_append kind s
  | cons c indent ih =>
      rw [List.forall_mem_cons] at h
      rw [List.cons_append, trim_cons_of_isBlank h.1, ih h.2]

end Quire.Document
