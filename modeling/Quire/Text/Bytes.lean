/-!
# Byte offsets into a text

A place in a text is told by the number of bytes before it, each character counting the bytes of
its UTF-8 form. This file fixes the size of a list of characters (`byteSize`), the offsets that
fall between two characters (`isBoundary`), and the part of a text between two offsets (`slice`).
**Cutting at an offset loses nothing: what is taken and what is dropped make up the text.**
-/

namespace Quire.Text

/-! ## 1. Sizes -/

/-- The number of bytes a list of characters takes. -/
def byteSize : List Char → Nat
  | [] => 0
  | c :: cs => c.utf8Size + byteSize cs

@[simp] theorem byteSize_nil : byteSize [] = 0 := rfl

@[simp] theorem byteSize_cons (c : Char) (cs : List Char) :
    byteSize (c :: cs) = c.utf8Size + byteSize cs := rfl

@[simp] theorem byteSize_append (s t : List Char) :
    byteSize (s ++ t) = byteSize s + byteSize t := by
  induction s with
  | nil => simp
  | cons c cs ih => simp [ih, Nat.add_assoc]

/-- Every character takes at least one byte. -/
theorem length_le_byteSize (s : List Char) : s.length ≤ byteSize s := by
  induction s with
  | nil => simp
  | cons c cs ih =>
    have := c.utf8Size_pos
    simp only [List.length_cons, byteSize_cons]
    omega

/-! ## 2. Cutting -/

/-- Whether an offset falls before the first character, between two, or after the last. -/
def isBoundary : List Char → Nat → Bool
  | _, 0 => true
  | [], _ + 1 => false
  | c :: cs, n + 1 => decide (c.utf8Size ≤ n + 1) && isBoundary cs (n + 1 - c.utf8Size)

/-- The characters that lie whole within the first `n` bytes. -/
def takeBytes : Nat → List Char → List Char
  | _, [] => []
  | n, c :: cs => if c.utf8Size ≤ n then c :: takeBytes (n - c.utf8Size) cs else []

/-- The characters that do not lie whole within the first `n` bytes. -/
def dropBytes : Nat → List Char → List Char
  | _, [] => []
  | n, c :: cs => if c.utf8Size ≤ n then dropBytes (n - c.utf8Size) cs else c :: cs

/-- **A cut loses nothing.** -/
@[simp] theorem takeBytes_append_dropBytes (n : Nat) (s : List Char) :
    takeBytes n s ++ dropBytes n s = s := by
  induction s generalizing n with
  | nil => simp [takeBytes, dropBytes]
  | cons c cs ih =>
    unfold takeBytes dropBytes
    split
    · simp [ih]
    · simp

@[simp] theorem takeBytes_zero (s : List Char) : takeBytes 0 s = [] := by
  cases s with
  | nil => rfl
  | cons c cs =>
    have := c.utf8Size_pos
    simp only [takeBytes]
    rw [if_neg (by omega)]

@[simp] theorem dropBytes_zero (s : List Char) : dropBytes 0 s = s := by
  have h := takeBytes_append_dropBytes 0 s
  simpa using h

/-- The part of a text from offset `start` up to offset `stop`. -/
def slice (s : String) (start stop : Nat) : String :=
  String.ofList (takeBytes (stop - start) (dropBytes start s.toList))

/-- Whether two offsets enclose a part of a text: in order, and both between characters. -/
def isRange (s : String) (start stop : Nat) : Bool :=
  decide (start ≤ stop) && isBoundary s.toList start && isBoundary s.toList stop

end Quire.Text
