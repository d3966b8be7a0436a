/-!
# Text inside markup

Five characters have a meaning of their own in markup and are written as entities: the ampersand,
the two angle brackets and the two quotes. Everything else stands for itself. The file fixes the
writing (`escape`) and the reading (`unescape`), and **reading what was written gives the text
back** (`unescape_escape`), so no two texts are written alike.
-/

namespace Quire.Html

/-! ## 1. Writing -/

/-- One character as it stands in markup. -/
def escapeChar (c : Char) : List Char :=
  if c = '&' then ['&', 'a', 'm', 'p', ';']
  else if c = '<' then ['&', 'l', 't', ';']
  else if c = '>' then ['&', 'g', 't', ';']
  else if c = '\x22' then ['&', 'q', 'u', 'o', 't', ';']
  else if c = '\x27' then ['&', '#', 'x', '2', '7', ';']
  else [c]

/-- The characters of a text as they stand in markup. -/
def escapeChars (s : List Char) : List Char :=
  s.flatMap escapeChar

/-- A text as it stands in markup. -/
def escape (s : String) : String :=
  String.ofList (escapeChars s.toList)

/-! ## 2. Reading -/

/-- The text that stands in markup as `s`: the five entities give their characters, and every
other character stands for itself. -/
def unescapeChars : List Char → List Char
  | '&' :: 'a' :: 'm' :: 'p' :: ';' :: r => '&' :: unescapeChars r
  | '&' :: 'l' :: 't' :: ';' :: r => '<' :: unescapeChars r
  | '&' :: 'g' :: 't' :: ';' :: r => '>' :: unescapeChars r
  | '&' :: 'q' :: 'u' :: 'o' :: 't' :: ';' :: r => '\x22' :: unescapeChars r
  | '&' :: '#' :: 'x' :: '2' :: '7' :: ';' :: r => '\x27' :: unescapeChars r
  | c :: r => c :: unescapeChars r
  | [] => []

/-- The text that stands in markup as `s`. -/
def unescape (s : String) : String :=
  String.ofList (unescapeChars s.toList)

/-- What one written character is read back as, whatever follows it. -/
theorem unescapeChars_escapeChar (c : Char) (r : List Char) :
    unescapeChars (escapeChar c ++ r) = c :: unescapeChars r := by
  unfold escapeChar
  split
  · rename_i h; subst h; rfl
  split
  · rename_i h; subst h; rfl
  split
  · rename_i h; subst h; rfl
  split
  · rename_i h; subst h; rfl
  split
  · rename_i h; subst h; rfl
  · rename_i h _ _ _ _
    simp only [List.cons_append, List.nil_append]
    rw [unescapeChars]
    all_goals intros; simp_all

/-- **Reading what was written gives the text back.** -/
theorem unescapeChars_escapeChars (s : List Char) : unescapeChars (escapeChars s) = s := by
  induction s with
  | nil => rfl
  | cons c cs ih =>
    have h : escapeChars (c :: cs) = escapeChar c ++ escapeChars cs := by simp [escapeChars]
    rw [h, unescapeChars_escapeChar, ih]

theorem unescape_escape (s : String) : unescape (escape s) = s := by
  simp [unescape, escape, unescapeChars_escapeChars]

/-- Writing a text in two parts is writing it whole. -/
theorem escapeChars_append (s t : List Char) :
    escapeChars (s ++ t) = escapeChars s ++ escapeChars t := by
  simp [escapeChars]

end Quire.Html
