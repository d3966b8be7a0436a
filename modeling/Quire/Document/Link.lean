import Quire.Html.Escape
import Quire.Text.Blank
import Quire.Text.Mark

/-!
# Links and images

A link is a label in brackets followed at once by a target in parentheses; with an exclamation mark
before it, it is an image. Label and target are the shortest there are and lie on one line, so a
bracket that opens early takes everything up to the first bracket and parenthesis that follow.

* `substitute` turns every link into an anchor, whose target is escaped and whose label stands as it
  is;
* `splitImages?` cuts a text at its images and trims what lies between them.
-/

namespace Quire.Document

open Quire.Text

/-! ## 1. Reading -/

/-- A link or image without its exclamation mark, at the front of a text: the label, the target, and
what follows. -/
def link? (s : List Char) : Option (List Char × List Char × List Char) := do
  let inside ← dropMark? ['['] s
  let (label, afterLabel) ← upTo? [']', '('] inside
  let (target, rest) ← upTo? [')'] afterLabel
  return (label, target, rest)

/-- An image at the front of a text: its alternative text, its path, and what follows. -/
def image? (s : List Char) : Option (List Char × List Char × List Char) :=
  (dropMark? ['!'] s).bind link?

/-- **A link is its label, its target and the marks around them.** -/
theorem eq_of_link? {s label target rest : List Char} (h : link? s = some (label, target, rest)) :
    s = '[' :: label ++ [']', '('] ++ target ++ ')' :: rest := by
  obtain ⟨inside, h1, h⟩ := Option.bind_eq_some_iff.1 h
  obtain ⟨⟨l, afterLabel⟩, h2, h⟩ := Option.bind_eq_some_iff.1 h
  obtain ⟨⟨t, r⟩, h3, h⟩ := Option.bind_eq_some_iff.1 h
  obtain ⟨rfl, rfl, rfl⟩ : l = label ∧ t = target ∧ r = rest := by simpa using h
  rw [eq_append_of_dropMark? h1, eq_append_of_upTo? h2, eq_append_of_upTo? h3]
  simp

/-- **An image is an exclamation mark and a link.** -/
theorem eq_of_image? {s alt path rest : List Char} (h : image? s = some (alt, path, rest)) :
    s = '!' :: '[' :: alt ++ [']', '('] ++ path ++ ')' :: rest := by
  obtain ⟨t, ht, hl⟩ := Option.bind_eq_some_iff.1 h
  rw [eq_append_of_dropMark? ht, eq_of_link? hl]
  rfl

/-! ## 2. Anchors -/

/-- An anchor with a label, to a target that is escaped. -/
def anchor (label target : List Char) : List Char :=
  "<a href=\"".toList ++ Html.escapeChars target ++ ['\x22', '>'] ++ label ++ "</a>".toList

/-- A text with every link turned into an anchor. -/
def substitute : List Char → List Char
  | [] => []
  | c :: cs =>
    match _h : link? (c :: cs) with
    | some (label, target, rest) => anchor label target ++ substitute rest
    | none => c :: substitute cs
  termination_by s => s.length
  decreasing_by
    · have := congrArg List.length (eq_of_link? _h)
      simp at this
      simp
      omega
    · simp

/-! ## 3. Images -/

/-- A part of a text that is cut at its images. -/
inductive Piece where
  /-- Text between images, trimmed and not empty. -/
  | text (s : List Char)
  | image (alt path : List Char)
  deriving Repr, DecidableEq

/-- The piece of the text between two images; none if it is blank. -/
def textPiece (s : List Char) : List Piece :=
  match trim s with
  | [] => []
  | t => [.text t]

/-- The pieces of a text, where `held` stands before it, last character first. -/
def piecesAfter (held : List Char) : List Char → List Piece
  | [] => textPiece held.reverse
  | c :: cs =>
    match _h : image? (c :: cs) with
    | some (alt, path, rest) => textPiece held.reverse ++ .image alt path :: piecesAfter [] rest
    | none => piecesAfter (c :: held) cs
  termination_by s => s.length
  decreasing_by
    · have := congrArg List.length (eq_of_image? _h)
      simp at this
      simp
      omega
    · simp

/-- Whether a piece is an image. -/
def Piece.isImage : Piece → Bool
  | image _ _ => true
  | text _ => false

/-- The pieces of a text that has an image; none if it has none. -/
def splitImages? (s : List Char) : Option (List Piece) :=
  let pieces := piecesAfter [] s
  if pieces.any Piece.isImage then some pieces else none

end Quire.Document
