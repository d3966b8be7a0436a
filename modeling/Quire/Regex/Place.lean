import Quire.Text.Bytes

/-!
# Places in a text

A regular expression is matched at a place of a text: what follows is what it may take, and the
character before tells whether a word or the text itself begins there. A place carries the number
of bytes that follow it, with the proof that it is that number, so that two places of one text are
compared by it and an offset is the size of the text less it.

The file fixes how a place is made and how one steps to the next. **A step leaves strictly fewer
bytes** (`left_lt_of_next?`).
-/

namespace Quire.Regex

open Quire.Text

/-- A place of a text. -/
structure Place where
  /-- The character before, if the text does not begin here. -/
  before : Option Char
  /-- What follows. -/
  rest : List Char
  /-- The number of bytes that follow. -/
  left : Nat
  left_eq : left = byteSize rest

/-- A part of a text, from one place to another. -/
structure Span where
  start : Place
  stop : Place

namespace Place

/-! ## 1. Making places -/

/-- The place before a text. -/
def ofChars (s : List Char) : Place :=
  ⟨none, s, byteSize s, rfl⟩

/-- The place before a text. -/
def ofString (s : String) : Place :=
  ofChars s.toList

/-- The same place with all that stands before it cut off. -/
def alone (p : Place) : Place :=
  { p with before := none }

/-- The next character and the place after it. -/
def next? (p : Place) : Option (Char × Place) :=
  match p with
  | ⟨_, [], _, _⟩ => none
  | ⟨_, c :: cs, n, h⟩ =>
    some (c, ⟨some c, cs, n - c.utf8Size, by rw [h, byteSize_cons, Nat.add_sub_cancel_left]⟩)

/-- **A step leaves strictly fewer bytes.** -/
theorem left_lt_of_next? {p q : Place} {c : Char} (h : p.next? = some (c, q)) :
    q.left < p.left := by
  obtain ⟨b, rest, n, hn⟩ := p
  cases rest with
  | nil => simp [next?] at h
  | cons d ds =>
    simp only [next?, Option.some.injEq, Prod.mk.injEq] at h
    obtain ⟨_, rfl⟩ := h
    have := d.utf8Size_pos
    simp only [byteSize_cons] at hn
    simp only
    omega

/-- The place `n` bytes further on, where `before` stands before `s`; none past the end. Inside a
character it is the place after that character. -/
def skip? (before : Option Char) : Nat → List Char → Option Place
  | 0, s => some ⟨before, s, byteSize s, rfl⟩
  | _ + 1, [] => none
  | n + 1, c :: cs => skip? (some c) (n + 1 - c.utf8Size) cs

/-- The place at a byte offset of a text; none past its end. -/
def at? (s : String) (offset : Nat) : Option Place :=
  skip? none offset s.toList

/-! ## 2. Reading between places -/

/-- The text from `p` up to a later place `q`. -/
def upTo (p q : Place) : List Char :=
  takeBytes (p.left - q.left) p.rest

/-- The byte offset of a place in a text of `size` bytes. -/
def offset (size : Nat) (p : Place) : Nat :=
  size - p.left

end Place

end Quire.Regex
