import Quire.Proofs.Document.Links

/-!
# Texts cut at their images

An image is written on one line, and where one is written one is read, though not always the same: it
ends where it first can (`image?_ne_none_iff`). So a text is cut exactly if an image is written
somewhere in it (`splitImages?_eq_none_iff`).

**Nothing but blanks is lost when a text is cut** (`spaced_piecesAfter`): the pieces, as they are
written, make up the text, with blanks before, between and behind them. A piece of text has no image
of its own (`not_hasImage_of_mem_piecesAfter`), for one that begins in it would have begun there in
the whole text too.
-/

namespace Quire.Document

open Quire.Text

/-! ## 1. Where an image is written -/

/-- Whether an image is written somewhere in a text, its alternative text and its path each on one
line. -/
def HasImage (s : List Char) : Prop :=
  ∃ alt path, '\n' ∉ alt ∧ '\n' ∉ path ∧ imageText alt path <:+: s

/-- **An image is read at the front exactly if one is written there.** -/
theorem image?_ne_none_iff {s : List Char} :
    image? s ≠ none ↔ ∃ alt path, '\n' ∉ alt ∧ '\n' ∉ path ∧ imageText alt path <+: s := by
  constructor
  · intro h
    obtain ⟨⟨alt, path, rest⟩, hi⟩ := Option.ne_none_iff_exists'.1 h
    obtain ⟨t, -, hl⟩ := Option.bind_eq_some_iff.1 hi
    obtain ⟨halt, hpath⟩ := newline_not_mem_of_link? hl
    exact ⟨alt, path, halt, hpath, rest, (eq_imageText_of_image? hi).symm⟩
  · intro h
    obtain ⟨alt, path, halt, hpath, rest, rfl⟩ := h
    rw [imageText, List.cons_append, image?, dropMark?, if_pos rfl, dropMark?, Option.bind_some]
    exact link?_linkText_ne_none halt hpath rest

/-- What follows a text takes no image from its front. -/
theorem image?_append_ne_none {s : List Char} (h : image? s ≠ none) (t : List Char) :
    image? (s ++ t) ≠ none := by
  obtain ⟨alt, path, halt, hpath, hprefix⟩ := image?_ne_none_iff.1 h
  exact image?_ne_none_iff.2 ⟨alt, path, halt, hpath, hprefix.trans (List.prefix_append s t)⟩

theorem not_hasImage_nil : ¬ HasImage [] := by
  intro h
  obtain ⟨alt, path, -, -, h⟩ := h
  cases List.eq_nil_of_infix_nil h

theorem hasImage_cons_iff {c : Char} {cs : List Char} :
    HasImage (c :: cs) ↔ image? (c :: cs) ≠ none ∨ HasImage cs := by
  rw [image?_ne_none_iff]
  constructor
  · intro h
    obtain ⟨alt, path, halt, hpath, h⟩ := h
    rcases List.infix_cons_iff.1 h with h | h
    · exact .inl ⟨alt, path, halt, hpath, h⟩
    · exact .inr ⟨alt, path, halt, hpath, h⟩
  · intro h
    rcases h with ⟨alt, path, halt, hpath, h⟩ | ⟨alt, path, halt, hpath, h⟩
    · exact ⟨alt, path, halt, hpath, h.isInfix⟩
    · exact ⟨alt, path, halt, hpath, List.infix_cons h⟩

/-- An image in a text begins somewhere in it. -/
theorem HasImage.exists_suffix {s : List Char} (h : HasImage s) :
    ∃ t, t ≠ [] ∧ t <:+ s ∧ image? t ≠ none := by
  induction s with
  | nil => exact absurd h not_hasImage_nil
  | cons c s ih =>
      rcases hasImage_cons_iff.1 h with h | h
      · exact ⟨c :: s, List.cons_ne_nil c s, List.suffix_rfl, h⟩
      · obtain ⟨t, hne, ht, hi⟩ := ih h
        exact ⟨t, hne, ht.trans (List.suffix_cons c s), hi⟩

/-- A trimmed text has no image that the text does not have. -/
theorem HasImage.of_trim {s : List Char} (h : HasImage (trim s)) : HasImage s := by
  obtain ⟨alt, path, halt, hpath, hinfix⟩ := h
  obtain ⟨a, b, hs, -, -⟩ := exists_trim s
  exact ⟨alt, path, halt, hpath, hinfix.trans ⟨a, b, hs.symm⟩⟩

/-! ## 2. Cutting -/

/-- **There is an image among the pieces exactly if the text has one.** -/
theorem any_isImage_piecesAfter (held s : List Char) :
    (piecesAfter held s).any Piece.isImage = true ↔ HasImage s := by
  induction held, s using piecesAfter.induct with
  | case1 held =>
      rw [piecesAfter_nil, any_isImage_textPiece]
      exact ⟨fun h => (Bool.false_ne_true h).elim, fun h => (not_hasImage_nil h).elim⟩
  | case2 held c cs alt path rest hi ih =>
      have himage : image? (c :: cs) ≠ none := by
        rw [hi]
        exact Option.some_ne_none _
      rw [piecesAfter_of_image? hi, List.any_append, List.any_cons, Piece.isImage, Bool.true_or,
        Bool.or_true]
      exact ⟨fun _ => hasImage_cons_iff.2 (.inl himage), fun _ => rfl⟩
  | case3 held c cs hi ih =>
      rw [piecesAfter_cons_of_image?_eq_none hi, ih, hasImage_cons_iff, hi]
      exact ⟨.inr, fun h => h.resolve_left fun hne => hne rfl⟩

theorem splitImages?_eq_none_iff {s : List Char} : splitImages? s = none ↔ ¬ HasImage s := by
  rw [← any_isImage_piecesAfter [] s]
  unfold splitImages?
  simp

/-- Whether no image begins in `a`, where `s` follows it. -/
def NoneBegins (a s : List Char) : Prop :=
  ∀ u, u ≠ [] → u <:+ a → image? (u ++ s) = none

theorem noneBegins_nil (s : List Char) : NoneBegins [] s :=
  fun _ hne hu => absurd (List.suffix_nil.1 hu) hne

/-- One more character is passed where no image begins with it. -/
theorem NoneBegins.concat {a : List Char} {c : Char} {s : List Char} (h : NoneBegins a (c :: s))
    (hc : image? (c :: s) = none) : NoneBegins (a ++ [c]) s := by
  intro u hne hu
  rcases List.suffix_concat_iff.1 hu with hnil | ⟨t, rfl, ht⟩
  · exact absurd hnil hne
  · rw [List.append_assoc, List.singleton_append]
    by_cases htnil : t = []
    · rw [htnil]
      exact hc
    · exact h t htnil ht

/-- Where no image begins, the piece has none. -/
theorem NoneBegins.not_hasImage {a s t : List Char} (h : NoneBegins a s)
    (ht : .text t ∈ textPiece a) : ¬ HasImage t := by
  intro himage
  obtain rfl := Piece.text.inj (mem_textPiece ht).1
  obtain ⟨u, hne, hu, hi⟩ := himage.of_trim.exists_suffix
  exact image?_append_ne_none hi s (h u hne hu)

/-- **No text between images has an image.** -/
theorem not_hasImage_of_mem_piecesAfter {held s t : List Char}
    (hheld : NoneBegins held.reverse s) (h : .text t ∈ piecesAfter held s) : ¬ HasImage t := by
  induction held, s using piecesAfter.induct with
  | case1 held =>
      rw [piecesAfter_nil] at h
      exact hheld.not_hasImage h
  | case2 held c cs alt path rest hi ih =>
      rw [piecesAfter_of_image? hi, List.mem_append, List.mem_cons] at h
      rcases h with h | h | h
      · exact hheld.not_hasImage h
      · cases h
      · exact ih (noneBegins_nil rest) h
  | case3 held c cs hi ih =>
      rw [piecesAfter_cons_of_image?_eq_none hi] at h
      refine ih ?_ h
      rw [List.reverse_cons]
      exact hheld.concat hi

theorem ne_nil_of_mem_piecesAfter {held s t : List Char} (h : .text t ∈ piecesAfter held s) :
    t ≠ [] ∧ trim t = t := by
  have hpiece : ∀ {u : List Char}, .text t ∈ textPiece u → t ≠ [] ∧ trim t = t := by
    intro u ht
    obtain ⟨he, hne⟩ := mem_textPiece ht
    rw [Piece.text.inj he]
    exact ⟨hne, trim_trim u⟩
  induction held, s using piecesAfter.induct with
  | case1 held =>
      rw [piecesAfter_nil] at h
      exact hpiece h
  | case2 held c cs alt path rest hi ih =>
      rw [piecesAfter_of_image? hi, List.mem_append, List.mem_cons] at h
      rcases h with h | h | h
      · exact hpiece h
      · cases h
      · exact ih h
  | case3 held c cs hi ih =>
      rw [piecesAfter_cons_of_image?_eq_none hi] at h
      exact ih h

/-! ## 3. Writing the pieces -/

/-- A piece as it is written. -/
def Piece.written : Piece → List Char
  | text s => s
  | image alt path => imageText alt path

/-- Whether a text is made up of pieces as they are written, in order, with nothing but blanks before,
between and behind them. -/
inductive Spaced : List Piece → List Char → Prop
  | nil {b : List Char} : (∀ c ∈ b, isBlank c = true) → Spaced [] b
  | cons {b : List Char} (p : Piece) {ps : List Piece} {s : List Char} :
      (∀ c ∈ b, isBlank c = true) → Spaced ps s → Spaced (p :: ps) (b ++ (p.written ++ s))

namespace Spaced

/-- More blanks may stand before. -/
theorem blanks_append {ps : List Piece} {b s : List Char} (hb : ∀ c ∈ b, isBlank c = true)
    (h : Spaced ps s) : Spaced ps (b ++ s) := by
  cases h with
  | nil hs => exact .nil (List.forall_mem_append.2 ⟨hb, hs⟩)
  | cons p hs h =>
      rw [← List.append_assoc]
      exact .cons p (List.forall_mem_append.2 ⟨hb, hs⟩) h

/-- A text stands before what follows it as its piece, if it has one. -/
theorem textPiece_append {ps : List Piece} {s : List Char} (u : List Char) (h : Spaced ps s) :
    Spaced (textPiece u ++ ps) (u ++ s) := by
  obtain ⟨a, b, hu, ha, hb⟩ := exists_trim u
  have hbehind : Spaced ps (b ++ s) := h.blanks_append hb
  have hcut : u ++ s = a ++ (trim u ++ (b ++ s)) := by
    rw [← List.append_assoc, ← List.append_assoc, ← hu]
  rw [hcut]
  unfold textPiece
  split
  · rename_i hnil
    rw [hnil]
    exact hbehind.blanks_append ha
  · exact .cons (.text (trim u)) ha hbehind

theorem image_cons {ps : List Piece} {s : List Char} (alt path : List Char) (h : Spaced ps s) :
    Spaced (.image alt path :: ps) (imageText alt path ++ s) :=
  .cons (b := []) (.image alt path) (fun _ hc => (List.not_mem_nil hc).elim) h

end Spaced

/-- **The pieces of a text make it up, as they are written, with blanks around them.** -/
theorem spaced_piecesAfter (held s : List Char) :
    Spaced (piecesAfter held s) (held.reverse ++ s) := by
  induction held, s using piecesAfter.induct with
  | case1 held =>
      have h := Spaced.textPiece_append held.reverse (.nil (b := []) fun _ hc => by cases hc)
      rwa [List.append_nil, ← piecesAfter_nil] at h
  | case2 held c cs alt path rest hi ih =>
      rw [piecesAfter_of_image? hi, eq_imageText_of_image? hi]
      exact (ih.image_cons alt path).textPiece_append held.reverse
  | case3 held c cs hi ih =>
      rw [piecesAfter_cons_of_image?_eq_none hi]
      rwa [List.reverse_cons, List.append_assoc, List.singleton_append] at ih

/-! ## 4. Texts and their pieces -/

/-- **Nothing is lost when a text is cut at its images.** It is cut exactly if an image is written
somewhere in it. Then its pieces, as they are written and in order, make it up again, with nothing but
blanks around them; there is an image among them; and each piece of text is trimmed, is not empty, and
has no image of its own. -/
theorem splitImages?_spaced (s : List Char) :
    (splitImages? s = none ↔ ¬ HasImage s) ∧
      ∀ pieces, splitImages? s = some pieces →
        Spaced pieces s ∧ (∃ alt path, .image alt path ∈ pieces) ∧
          ∀ t, .text t ∈ pieces → t ≠ [] ∧ trim t = t ∧ ¬ HasImage t := by
  refine ⟨splitImages?_eq_none_iff, fun pieces hsplit => ?_⟩
  obtain ⟨rfl, hany⟩ := eq_piecesAfter_of_splitImages? hsplit
  refine ⟨spaced_piecesAfter [] s, ?_, fun t ht => ?_⟩
  · obtain ⟨p, hp, himage⟩ := List.any_eq_true.1 hany
    cases p with
    | text t => cases himage
    | image alt path => exact ⟨alt, path, hp⟩
  · obtain ⟨hne, htrim⟩ := ne_nil_of_mem_piecesAfter ht
    have hbegins : NoneBegins ([] : List Char).reverse s := noneBegins_nil s
    exact ⟨hne, htrim, not_hasImage_of_mem_piecesAfter hbegins ht⟩

/-- Two images side by side, and one that is not finished. -/
theorem splitImages?_spaced_sample :
    splitImages? "u ![x](1)![y](2) ![ v".toList =
        some [.text ['u'], .image ['x'] ['1'], .image ['y'] ['2'], .text ['!', '[', ' ', 'v']] ∧
      Spaced [.text ['u'], .image ['x'] ['1'], .image ['y'] ['2'], .text ['!', '[', ' ', 'v']]
        "u ![x](1)![y](2) ![ v".toList := by
  have hsplit : splitImages? "u ![x](1)![y](2) ![ v".toList =
      some [.text ['u'], .image ['x'] ['1'], .image ['y'] ['2'], .text ['!', '[', ' ', 'v']] := by
    decide +kernel
  exact ⟨hsplit, ((splitImages?_spaced _).2 _ hsplit).1⟩

end Quire.Document
