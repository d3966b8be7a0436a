import Quire.Document.Reading
import Quire.Proofs.Html.Escape
import Quire.Proofs.Text.Mark
import Quire.Proofs.Text.Trim

/-!
# What links and images do to a text

Links begin with a bracket, and images with an exclamation mark and a bracket, so **a text without one
is left as it is** (`substitute_append_left`, `piecesAfter_append_left`, `textBlocks_of_not_mem`), and a
label and a target are read as they stand if they hold nothing that ends them before their time
(`link?_linkText_of_not_infix`). Nothing comes into a text but anchors (`forall_mem_substitute`), and the
pieces of a text hold nothing but its characters (`forall_mem_piecesAfter`).
-/

namespace Quire.Document

open Quire.Text

/-! ## 1. Reading -/

theorem link?_of_ne {c : Char} (hc : c ≠ '[') (cs : List Char) : link? (c :: cs) = none := by
  rw [link?, dropMark?_cons_of_ne hc.symm]
  rfl

theorem image?_of_ne {c : Char} (hc : c ≠ '!') (cs : List Char) : image? (c :: cs) = none := by
  rw [image?, dropMark?_cons_of_ne hc.symm]
  rfl

/-- A link as it is written. -/
def linkText (label target : List Char) : List Char :=
  '[' :: (label ++ [']', '('] ++ (target ++ [')']))

/-- An image as it is written. -/
def imageText (alt path : List Char) : List Char :=
  '!' :: linkText alt path

/-- What is read as a link is one, as it is written. -/
theorem eq_linkText_of_link? {s label target rest : List Char}
    (h : link? s = some (label, target, rest)) : s = linkText label target ++ rest := by
  rw [eq_of_link? h, linkText]
  simp

/-- What is read as an image is one, as it is written. -/
theorem eq_imageText_of_image? {s alt path rest : List Char}
    (h : image? s = some (alt, path, rest)) : s = imageText alt path ++ rest := by
  rw [eq_of_image? h, imageText, linkText]
  simp

/-- **A label and a target are read as they stand**, if no bracket and parenthesis end the label and no
parenthesis the target before their time. -/
theorem link?_linkText_of_not_infix {label target : List Char} (hlabel : ¬ [']', '('] <:+: label)
    (hfeed : '\n' ∉ label) (htarget : ∀ c ∈ [')', '\n'], c ∉ target) (rest : List Char) :
    link? (linkText label target ++ rest) = some (label, target, rest) := by
  have hl := upTo?_pair_append (by decide) hlabel hfeed (target ++ [')'] ++ rest)
  have ht := upTo?_append [] (htarget ')' (by decide)) (htarget '\n' (by decide)) rest
  rw [linkText, List.cons_append, List.append_assoc, link?, dropMark?, if_pos rfl, dropMark?]
  simp only [Option.bind_eq_bind, Option.bind_some, hl, ht]
  rfl

/-- A label without closing brackets is read as it stands. -/
theorem link?_linkText {label target : List Char} (hlabel : ∀ c ∈ [']', '\n'], c ∉ label)
    (htarget : ∀ c ∈ [')', '\n'], c ∉ target) (rest : List Char) :
    link? (linkText label target ++ rest) = some (label, target, rest) :=
  link?_linkText_of_not_infix (fun h => hlabel ']' (by decide) (h.subset List.mem_cons_self))
    (hlabel '\n' (by decide)) htarget rest

/-- What is read of a link lies on one line. -/
theorem newline_not_mem_of_link? {s label target rest : List Char}
    (h : link? s = some (label, target, rest)) : '\n' ∉ label ∧ '\n' ∉ target := by
  obtain ⟨inside, -, h⟩ := Option.bind_eq_some_iff.1 h
  obtain ⟨⟨l, afterLabel⟩, hl, h⟩ := Option.bind_eq_some_iff.1 h
  obtain ⟨⟨t, r⟩, ht, h⟩ := Option.bind_eq_some_iff.1 h
  obtain ⟨rfl, rfl, rfl⟩ : l = label ∧ t = target ∧ r = rest := by simpa using h
  exact ⟨newline_not_mem_of_upTo? hl, newline_not_mem_of_upTo? ht⟩

/-- **Where a link is written on one line, some link is read**, whatever its label and target hold. -/
theorem link?_linkText_ne_none {label target : List Char} (hlabel : '\n' ∉ label)
    (htarget : '\n' ∉ target) (rest : List Char) : link? (linkText label target ++ rest) ≠ none := by
  obtain ⟨l, x, hl, hx⟩ :=
    exists_upTo?_append [']', '('] (by decide) hlabel (target ++ [')'] ++ rest)
  have hline : '\n' ∉ x ++ target := fun h => (List.mem_append.1 h).elim hx htarget
  obtain ⟨t, y, ht, -⟩ := exists_upTo?_append [')'] (by decide) hline rest
  simp only [← List.append_assoc] at hl
  rw [linkText, List.cons_append, List.append_assoc, link?, dropMark?, if_pos rfl, dropMark?]
  simp only [← List.append_assoc, Option.bind_eq_bind, Option.bind_some, hl, ht]
  exact Option.some_ne_none _

/-- There is no image where no bracket stands behind an exclamation mark. -/
theorem image?_eq_none_of_not_prefix {s : List Char} (h : ¬ ['!', '['] <+: s) : image? s = none := by
  cases hi : image? s with
  | none => rfl
  | some found =>
      obtain ⟨alt, path, rest⟩ := found
      refine absurd ?_ h
      rw [eq_of_image? hi]
      exact ⟨_, rfl⟩

/-! ## 2. Anchors -/

theorem substitute_nil : substitute [] = [] := by
  rw [substitute]

theorem substitute_of_link? {s label target rest : List Char}
    (h : link? s = some (label, target, rest)) :
    substitute s = anchor label target ++ substitute rest := by
  cases s with
  | nil => cases h
  | cons c cs =>
      rw [substitute]
      split
      · rename_i h'
        rw [h, Option.some.injEq, Prod.mk.injEq, Prod.mk.injEq] at h'
        obtain ⟨rfl, rfl, rfl⟩ := h'
        rfl
      · rename_i h'
        rw [h] at h'
        cases h'

theorem substitute_cons_of_link?_eq_none {c : Char} {cs : List Char}
    (h : link? (c :: cs) = none) : substitute (c :: cs) = c :: substitute cs := by
  rw [substitute]
  split
  · rename_i h'
    rw [h] at h'
    cases h'
  · rfl

/-- **A text without brackets is left as it is before a text with links.** -/
theorem substitute_append_left {a : List Char} (ha : '[' ∉ a) (s : List Char) :
    substitute (a ++ s) = a ++ substitute s := by
  induction a with
  | nil => rfl
  | cons c a ih =>
      rw [List.mem_cons, not_or] at ha
      rw [List.cons_append, substitute_cons_of_link?_eq_none (link?_of_ne (fun e => ha.1 e.symm) _),
        ih ha.2, List.cons_append]

/-- A text without brackets has no links. -/
theorem substitute_of_not_mem {s : List Char} (h : '[' ∉ s) : substitute s = s := by
  have hs := substitute_append_left h []
  rwa [List.append_nil, substitute_nil, List.append_nil] at hs

/-- An anchor, taken apart. -/
theorem anchor_append (label target s : List Char) : anchor label target ++ s = "<a href=\"".toList ++
    (Html.escapeChars target ++ '\x22' :: '>' :: (label ++ ("</a>".toList ++ s))) := by
  have hregroup (front reference label back : List Char) :
      front ++ reference ++ ['\x22', '>'] ++ label ++ back ++ s =
        front ++ (reference ++ '\x22' :: '>' :: (label ++ (back ++ s))) := by
    simp
  exact hregroup _ _ _ _

/-- The characters that an anchor is written with, its label and its target apart. -/
def anchorChars : List Char :=
  "<a href=\"></a>".toList ++ Html.entities

theorem forall_mem_anchor {P : Char → Prop} {label target : List Char}
    (hanchor : ∀ c ∈ anchorChars, P c) (hlabel : ∀ c ∈ label, P c) (htarget : ∀ c ∈ target, P c) :
    ∀ c ∈ anchor label target, P c := by
  obtain ⟨htags, hentities⟩ := List.forall_mem_append.1 hanchor
  have hopen : ∀ c ∈ "<a href=\"".toList, P c := fun c hc => htags c (by revert c; decide)
  have hmiddle : ∀ c ∈ ['\x22', '>'], P c := fun c hc => htags c (by revert c; decide)
  have hclose : ∀ c ∈ "</a>".toList, P c := fun c hc => htags c (by revert c; decide)
  have htag := List.forall_mem_append.2
    ⟨List.forall_mem_append.2 ⟨hopen, Html.forall_mem_escapeChars hentities htarget⟩, hmiddle⟩
  exact List.forall_mem_append.2 ⟨List.forall_mem_append.2 ⟨htag, hlabel⟩, hclose⟩

/-- **Nothing comes into a text but anchors.** -/
theorem forall_mem_substitute {P : Char → Prop} {s : List Char}
    (hanchor : ∀ c ∈ anchorChars, P c) (h : ∀ c ∈ s, P c) : ∀ c ∈ substitute s, P c := by
  induction s using substitute.induct with
  | case1 =>
      rw [substitute_nil]
      exact h
  | case2 c cs label target rest hl ih =>
      rw [eq_of_link? hl] at h
      rw [substitute_of_link? hl]
      simp only [List.forall_mem_append, List.forall_mem_cons] at h ⊢
      obtain ⟨⟨⟨⟨-, hlabel⟩, -⟩, htarget⟩, -, hrest⟩ := h
      exact ⟨forall_mem_anchor hanchor hlabel htarget, ih hrest⟩
  | case3 c cs hl ih =>
      rw [substitute_cons_of_link?_eq_none hl]
      rw [List.forall_mem_cons] at h ⊢
      exact ⟨h.1, ih h.2⟩

/-! ## 3. Pieces -/

theorem piecesAfter_nil (held : List Char) : piecesAfter held [] = textPiece held.reverse := by
  rw [piecesAfter]

theorem piecesAfter_of_image? {held s alt path rest : List Char}
    (h : image? s = some (alt, path, rest)) :
    piecesAfter held s = textPiece held.reverse ++ .image alt path :: piecesAfter [] rest := by
  cases s with
  | nil => cases h
  | cons c cs =>
      rw [piecesAfter]
      split
      · rename_i h'
        rw [h, Option.some.injEq, Prod.mk.injEq, Prod.mk.injEq] at h'
        obtain ⟨rfl, rfl, rfl⟩ := h'
        rfl
      · rename_i h'
        rw [h] at h'
        cases h'

theorem piecesAfter_cons_of_image?_eq_none {held : List Char} {c : Char} {cs : List Char}
    (h : image? (c :: cs) = none) : piecesAfter held (c :: cs) = piecesAfter (c :: held) cs := by
  rw [piecesAfter]
  split
  · rename_i h'
    rw [h] at h'
    cases h'
  · rfl

/-- A piece of text is trimmed and not empty. -/
theorem mem_textPiece {s : List Char} {p : Piece} (h : p ∈ textPiece s) :
    p = .text (trim s) ∧ trim s ≠ [] := by
  unfold textPiece at h
  split at h
  · cases h
  · rename_i t hne
    exact ⟨List.mem_singleton.1 h, hne⟩

theorem textPiece_of_ne_nil {s : List Char} (h : trim s ≠ []) : textPiece s = [.text (trim s)] := by
  unfold textPiece
  split
  · rename_i hnil
    exact absurd hnil h
  · rfl

/-- **A text is passed if no bracket in it stands behind an exclamation mark**, unless what follows it
begins with one. -/
theorem piecesAfter_append_left {a s : List Char} (ha : ¬ ['!', '['] <:+: a)
    (hs : s.head? ≠ some '[') (held : List Char) :
    piecesAfter held (a ++ s) = piecesAfter (a.reverse ++ held) s := by
  induction a generalizing held with
  | nil => rfl
  | cons c a ih =>
      have hnone : image? (c :: (a ++ s)) = none := by
        refine image?_eq_none_of_not_prefix fun hfront => ?_
        obtain ⟨rfl, hbracket⟩ := List.cons_prefix_cons.1 hfront
        cases a with
        | nil =>
            obtain ⟨r, rfl⟩ := hbracket
            exact hs rfl
        | cons d a =>
            obtain ⟨rfl, -⟩ := List.cons_prefix_cons.1 hbracket
            exact ha ⟨[], a, rfl⟩
      rw [List.cons_append, piecesAfter_cons_of_image?_eq_none hnone,
        ih (fun h => ha (List.infix_cons h)), List.reverse_cons, List.append_assoc,
        List.singleton_append]

/-- Without a bracket there is no image, and the whole text is one piece. -/
theorem piecesAfter_of_not_mem {s : List Char} (h : '[' ∉ s) (held : List Char) :
    piecesAfter held s = textPiece (held.reverse ++ s) := by
  have hpair : ¬ ['!', '['] <:+: s := fun hin => h (hin.subset (by decide))
  have hpass := piecesAfter_append_left hpair (s := []) (by decide) held
  rwa [List.append_nil, piecesAfter_nil, List.reverse_append, List.reverse_reverse] at hpass

theorem any_isImage_textPiece (s : List Char) : (textPiece s).any Piece.isImage = false := by
  rw [List.any_eq_false]
  intro p hp
  rw [(mem_textPiece hp).1, Piece.isImage]
  exact Bool.false_ne_true

theorem splitImages?_of_not_mem {s : List Char} (h : '[' ∉ s) : splitImages? s = none := by
  rw [splitImages?, piecesAfter_of_not_mem h, any_isImage_textPiece]
  rfl

/-- **The pieces of a text hold nothing but its characters.** -/
theorem forall_mem_piecesAfter {P : Char → Prop} {held s : List Char} (hheld : ∀ c ∈ held, P c)
    (hs : ∀ c ∈ s, P c) : ∀ t, .text t ∈ piecesAfter held s → ∀ c ∈ t, P c := by
  have hpiece : ∀ u : List Char, (∀ c ∈ u, P c) → ∀ t, .text t ∈ textPiece u → ∀ c ∈ t, P c := by
    intro u hu t ht c hc
    obtain ⟨he, -⟩ := mem_textPiece ht
    obtain rfl := Piece.text.inj he
    exact hu c (mem_of_mem_trim hc)
  induction held, s using piecesAfter.induct with
  | case1 held =>
      rw [piecesAfter_nil]
      exact hpiece _ fun c hc => hheld c (List.mem_reverse.1 hc)
  | case2 held c cs alt path rest hi ih =>
      rw [eq_of_image? hi] at hs
      simp only [List.forall_mem_append, List.forall_mem_cons] at hs
      rw [piecesAfter_of_image? hi]
      intro t ht
      rcases List.mem_append.1 ht with ht | ht
      · exact hpiece _ (fun c hc => hheld c (List.mem_reverse.1 hc)) t ht
      · rcases List.mem_cons.1 ht with ht | ht
        · cases ht
        · exact ih (fun c hc => (List.not_mem_nil hc).elim) hs.2.2 t ht
  | case3 held c cs hi ih =>
      rw [List.forall_mem_cons] at hs
      rw [piecesAfter_cons_of_image?_eq_none hi]
      exact ih (List.forall_mem_cons.2 ⟨hs.1, hheld⟩) hs.2

/-! ## 4. The blocks of a text -/

/-- The texts of the paragraphs that a text is cut into, before their links are turned into
anchors. -/
def paragraphTexts (s : List Char) : List (List Char) :=
  match splitImages? s with
  | none => [s]
  | some pieces => pieces.filterMap fun
      | .text t => some t
      | .image _ _ => none

/-- **A text without brackets is one paragraph.** -/
theorem textBlocks_of_not_mem {s : List Char} (h : '[' ∉ s) :
    textBlocks s = [.paragraph (String.ofList s)] := by
  rw [textBlocks, splitImages?_of_not_mem h, substitute_of_not_mem h]

/-- **An image that stands alone is one block.** -/
theorem textBlocks_imageText {alt path : List Char} (halt : ∀ c ∈ [']', '\n'], c ∉ alt)
    (hpath : ∀ c ∈ [')', '\n'], c ∉ path) :
    textBlocks (imageText alt path) = [.image (String.ofList alt) (String.ofList path)] := by
  have hlink := link?_linkText halt hpath []
  rw [List.append_nil] at hlink
  have himage : image? (imageText alt path) = some (alt, path, []) := by
    rw [imageText, image?, dropMark?, if_pos rfl, dropMark?, Option.bind_some, hlink]
  have hpieces : piecesAfter [] (imageText alt path) = [.image alt path] := by
    rw [piecesAfter_of_image? himage, piecesAfter_nil]
    rfl
  rw [textBlocks, splitImages?, hpieces]
  rfl

/-- **A link that stands alone is one paragraph.** -/
theorem textBlocks_linkText {label target : List Char} (hlabel : ∀ c ∈ ['[', ']', '\n'], c ∉ label)
    (htarget : ∀ c ∈ ['[', ')', '\n'], c ∉ target) :
    textBlocks (linkText label target) = [.paragraph (String.ofList (anchor label target))] := by
  have hlink : link? (linkText label target ++ []) = some (label, target, []) :=
    link?_linkText (fun c hc => hlabel c (List.mem_cons_of_mem _ hc))
      (fun c hc => htarget c (List.mem_cons_of_mem _ hc)) []
  rw [List.append_nil] at hlink
  have hrest : '[' ∉ label ++ [']', '('] ++ (target ++ [')']) := by
    simp [hlabel '[' List.mem_cons_self, htarget '[' List.mem_cons_self]
  have hsplit : splitImages? (linkText label target) = none := by
    rw [splitImages?, linkText, piecesAfter_cons_of_image?_eq_none (image?_of_ne (by decide) _),
      piecesAfter_of_not_mem hrest, any_isImage_textPiece]
    rfl
  rw [textBlocks, hsplit, substitute_of_link? hlink, substitute_nil, List.append_nil]

/-- What a text is cut into are its pieces, and there is an image among them. -/
theorem eq_piecesAfter_of_splitImages? {s : List Char} {pieces : List Piece}
    (h : splitImages? s = some pieces) :
    pieces = piecesAfter [] s ∧ pieces.any Piece.isImage = true := by
  unfold splitImages? at h
  dsimp only at h
  split at h
  · rename_i hany
    obtain rfl := Option.some.inj h
    exact ⟨rfl, hany⟩
  · cases h

/-- A text has at least one block: what is cut into pieces has an image. -/
theorem textBlocks_ne_nil (s : List Char) : textBlocks s ≠ [] := by
  unfold textBlocks
  split
  · exact List.cons_ne_nil _ _
  · rename_i pieces h
    intro hnil
    obtain rfl := List.map_eq_nil_iff.1 hnil
    cases (eq_piecesAfter_of_splitImages? h).2

/-- **A block of a text is a paragraph with the links of one of its texts, or an image.** -/
theorem mem_textBlocks {s : List Char} {b : Block} (h : b ∈ textBlocks s) :
    (∃ t ∈ paragraphTexts s, b = .paragraph (String.ofList (substitute t))) ∨
      ∃ alt path, b = .image alt path := by
  rw [textBlocks] at h
  rw [paragraphTexts]
  cases hsplit : splitImages? s with
  | none =>
      rw [hsplit] at h
      exact .inl ⟨s, List.mem_singleton_self s, List.mem_singleton.1 h⟩
  | some pieces =>
      rw [hsplit] at h
      obtain ⟨p, hp, rfl⟩ := List.mem_map.1 h
      cases p with
      | text t => exact .inl ⟨t, List.mem_filterMap.2 ⟨.text t, hp, rfl⟩, rfl⟩
      | image alt path => exact .inr ⟨_, _, rfl⟩

/-- The text of a paragraph is the whole text or one of its pieces. -/
theorem of_mem_paragraphTexts {s t : List Char} (h : t ∈ paragraphTexts s) :
    t = s ∨ .text t ∈ piecesAfter [] s := by
  unfold paragraphTexts at h
  split at h
  · exact .inl (List.mem_singleton.1 h)
  · rename_i pieces hsplit
    obtain ⟨p, hp, he⟩ := List.mem_filterMap.1 h
    rw [(eq_piecesAfter_of_splitImages? hsplit).1] at hp
    cases p with
    | image alt path => cases he
    | text u => exact .inr (Option.some.inj he ▸ hp)

theorem forall_mem_paragraphTexts {P : Char → Prop} {s : List Char} (hs : ∀ c ∈ s, P c) :
    ∀ t ∈ paragraphTexts s, ∀ c ∈ t, P c := by
  intro t ht
  rcases of_mem_paragraphTexts ht with rfl | ht
  · exact hs
  · exact forall_mem_piecesAfter (fun c hc => (List.not_mem_nil hc).elim) hs t ht

end Quire.Document
