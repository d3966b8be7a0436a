import Quire.Proofs.Document.Links

/-!
# Where a label begins

A link or an image that is written behind some text is not always the one that is read there. Texts
are read from left to right, and a label runs up to the first bracket and parenthesis that end one. So
**a label begins at the first bracket that opens one**, and all that stands between that bracket and
its own is part of it (`substitute_behind`, `splitImages?_behind`). Any bracket opens a link, and one
with an exclamation mark before it an image. Hence a link or an image is read as it was written exactly
if no such bracket stands before it (`label_begins`).
-/

namespace Quire.Document

open Quire.Text

/-! ## 1. Labels -/

/-- A text that ends no label: it lies on one line, and no parenthesis in it opens right behind a
bracket that closes. -/
structure Unended (s : List Char) : Prop where
  no_end : ¬ [']', '('] <:+: s
  no_newline : '\n' ∉ s

theorem Unended.of_not_mem {t : List Char} (ht : ∀ c ∈ ['[', ']', '\n'], c ∉ t) : Unended t where
  no_end h := ht ']' (by decide) (h.subset List.mem_cons_self)
  no_newline := ht '\n' (by decide)

/-- A part of a text that ends no label ends none. -/
theorem Unended.of_infix {s t : List Char} (h : Unended t) (hs : s <:+: t) : Unended s where
  no_end hend := h.no_end (hend.trans hs)
  no_newline hmem := h.no_newline (hs.subset hmem)

/-- **A text that ends no label, and the label of a reference behind it, end none together.** -/
theorem Unended.append_label {b t : List Char} (hb : Unended b) (ht : Unended t) :
    Unended (b ++ '[' :: t) where
  no_end hend := by
    rcases pair_infix_append hend with h | h | h
    · exact hb.no_end h
    · rcases List.infix_cons_iff.1 h with h | h
      · cases (List.cons_prefix_cons.1 h).1
      · exact ht.no_end h
    · cases h.2
  no_newline hmem := by
    rcases List.mem_append.1 hmem with h | h
    · exact hb.no_newline h
    · exact ht.no_newline ((List.mem_cons.1 h).resolve_left (by decide))

/-- A label that nothing ends before its time is read as it stands. -/
theorem Unended.link?_linkText {l u : List Char} (hl : Unended l)
    (hu : ∀ c ∈ ['(', ')', '\n'], c ∉ u) : link? (linkText l u) = some (l, u, []) := by
  have h := link?_linkText_of_not_infix hl.no_end hl.no_newline
    (fun c hc => hu c (List.mem_cons_of_mem _ hc)) []
  rwa [List.append_nil] at h

/-! ## 2. Behind a text that opens none -/

/-- **Behind a text without brackets a link is read.** -/
theorem substitute_behind {a l u : List Char} (ha : '[' ∉ a) (hl : Unended l)
    (hu : ∀ c ∈ ['(', ')', '\n'], c ∉ u) :
    substitute (a ++ linkText l u) = a ++ anchor l u := by
  rw [substitute_append_left ha, substitute_of_link? (hl.link?_linkText hu), substitute_nil,
    List.append_nil]

/-- **Behind a text that opens no image an image is read.** -/
theorem splitImages?_behind {a l u : List Char} (ha : ¬ ['!', '['] <:+: a) (hl : Unended l)
    (hu : ∀ c ∈ ['(', ')', '\n'], c ∉ u) :
    splitImages? (a ++ imageText l u) = some (textPiece a ++ [.image l u]) := by
  have himage : image? (imageText l u) = some (l, u, []) := by
    rw [imageText, image?, dropMark?, if_pos rfl, dropMark?, Option.bind_some,
      hl.link?_linkText hu]
  have hpieces : piecesAfter [] (a ++ imageText l u) = textPiece a ++ [.image l u] := by
    rw [piecesAfter_append_left ha (by simp [imageText]), piecesAfter_of_image? himage,
      piecesAfter_nil, List.append_nil, List.reverse_reverse]
    rfl
  rw [splitImages?, hpieces, List.any_append]
  simp [Piece.isImage]

/-! ## 3. Behind any text -/

section

variable {p t u : List Char} (hp : Unended p) (ht : ∀ c ∈ ['[', ']', '\n'], c ∉ t)
  (hu : ∀ c ∈ ['(', ')', '\n'], c ∉ u)

include hp ht hu

/-- **The label of a link begins at the first bracket before it.** -/
theorem substitute_bracket {a b : List Char} (hab : p = a ++ '[' :: b) (ha : '[' ∉ a) :
    substitute (p ++ linkText t u) = a ++ anchor (b ++ '[' :: t) u := by
  have hb : Unended b := hp.of_infix ⟨a ++ ['['], [], by simp [hab]⟩
  have hwhole : p ++ linkText t u = a ++ linkText (b ++ '[' :: t) u := by
    simp [hab, linkText]
  rw [hwhole]
  exact substitute_behind ha (hb.append_label (.of_not_mem ht)) hu

/-- **The alternative text of an image begins at the first bracket before it that stands behind an
exclamation mark.** -/
theorem splitImages?_bracket {a b : List Char} (hab : p = a ++ '!' :: '[' :: b)
    (ha : ¬ ['!', '['] <:+: a) :
    splitImages? (p ++ imageText t u) =
      some (textPiece a ++ [.image (b ++ '!' :: '[' :: t) u]) := by
  have hb : Unended (b ++ ['!']) := by
    have hb : Unended b := hp.of_infix ⟨a ++ ['!', '['], [], by simp [hab]⟩
    constructor
    · intro hend
      rcases pair_infix_append hend with h | h | h
      · exact hb.no_end h
      · exact absurd (h.subset List.mem_cons_self) (by decide)
      · cases h.2
    · intro hmem
      exact (List.mem_append.1 hmem).elim hb.no_newline (by decide)
  have hwhole : p ++ imageText t u = a ++ imageText ((b ++ ['!']) ++ '[' :: t) u := by
    simp [hab, imageText, linkText]
  have hlabel : b ++ '!' :: '[' :: t = (b ++ ['!']) ++ '[' :: t := by simp
  rw [hwhole, hlabel]
  exact splitImages?_behind ha (hb.append_label (.of_not_mem ht)) hu

theorem substitute_eq_iff : substitute (p ++ linkText t u) = p ++ anchor t u ↔ '[' ∉ p := by
  constructor
  · intro h hmem
    obtain ⟨a, b, hab, ha⟩ := List.eq_append_cons_of_mem hmem
    rw [substitute_bracket hp ht hu hab ha, hab, List.append_assoc, List.append_cancel_left_eq] at h
    cases (List.cons.inj h).1
  · intro hmem
    exact substitute_behind hmem (.of_not_mem ht) hu

theorem splitImages?_eq_iff (htrim : trim p ≠ []) :
    splitImages? (p ++ imageText t u) = some [.text (trim p), .image t u] ↔
      ¬ ['!', '['] <:+: p := by
  constructor
  · intro h hin
    obtain ⟨a, b, hab, ha⟩ := exists_first_pair hin
    rw [splitImages?_bracket hp ht hu hab ha] at h
    have hlast := congrArg List.getLast? (Option.some.inj h)
    rw [List.getLast?_concat] at hlast
    have halt := congrArg List.length (Piece.image.inj (Option.some.inj hlast)).1
    simp only [List.length_append, List.length_cons] at halt
    omega
  · intro hin
    rw [splitImages?_behind hin (.of_not_mem ht) hu, textPiece_of_ne_nil htrim]
    rfl

end

/-- **A label begins at the first bracket that opens one.** Take a text on one line that ends no label,
and behind it a link or an image whose label holds no brackets. The link is read as it was written
exactly if no bracket opens before it; otherwise its label begins at the first that does. The image is
read as it was written exactly if none opens behind an exclamation mark; otherwise its alternative text
begins at the first that does. -/
theorem label_begins {p t u : List Char} (hp : Unended p) (ht : ∀ c ∈ ['[', ']', '\n'], c ∉ t)
    (hu : ∀ c ∈ ['(', ')', '\n'], c ∉ u) :
    (substitute (p ++ linkText t u) = p ++ anchor t u ↔ '[' ∉ p) ∧
      (∀ a b, p = a ++ '[' :: b → '[' ∉ a →
        substitute (p ++ linkText t u) = a ++ anchor (b ++ '[' :: t) u) ∧
      (trim p ≠ [] →
        (splitImages? (p ++ imageText t u) = some [.text (trim p), .image t u] ↔
          ¬ ['!', '['] <:+: p)) ∧
      ∀ a b, p = a ++ '!' :: '[' :: b → ¬ ['!', '['] <:+: a →
        splitImages? (p ++ imageText t u) =
          some (textPiece a ++ [.image (b ++ '!' :: '[' :: t) u]) :=
  ⟨substitute_eq_iff hp ht hu, fun _ _ => substitute_bracket hp ht hu,
    splitImages?_eq_iff hp ht hu, fun _ _ => splitImages?_bracket hp ht hu⟩

/-- What stands in brackets before a link becomes part of its label, but an image behind it is read as it
was written. -/
theorem label_begins_note :
    Unended ['[', '1', ']', ' '] ∧
      substitute "[1] [docs](x)".toList = "<a href=\"x\">1] [docs</a>".toList ∧
      splitImages? "[1] ![docs](x)".toList =
        some [.text ['[', '1', ']'], .image ['d', 'o', 'c', 's'] ['x']] := by
  have hp : Unended ['[', '1', ']', ' '] := ⟨by decide, by decide⟩
  have ht : ∀ c ∈ ['[', ']', '\n'], c ∉ ['d', 'o', 'c', 's'] := by decide
  have hu : ∀ c ∈ ['(', ')', '\n'], c ∉ ['x'] := by decide
  obtain ⟨-, hlink, himage, -⟩ := label_begins hp ht hu
  exact ⟨hp, hlink [] ['1', ']', ' '] rfl (by decide), (himage (by decide)).2 (by decide)⟩

end Quire.Document
