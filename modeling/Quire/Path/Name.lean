/-!
# Names

What the entries of a directory are called. A name is not empty, has no slash in it, and is neither
one dot nor two dots, which stand for directories without being called so.
-/

namespace Quire.Path

/-- Whether a text can be the name of an entry. -/
def IsName (text : String) : Prop :=
  text ≠ "" ∧ text ≠ "." ∧ text ≠ ".." ∧ '/' ∉ text.toList

instance (text : String) : Decidable (IsName text) :=
  inferInstanceAs (Decidable (_ ∧ _ ∧ _ ∧ _))

/-- The name of an entry. -/
structure Name where
  text : String
  isName : IsName text
  deriving DecidableEq

namespace Name

/-- Names with one text are one name. -/
theorem ext {a b : Name} (h : a.text = b.text) : a = b := by
  cases a; cases b; cases h; rfl

/-- Whether one name comes strictly before another: by the first character in which they differ. -/
def lt (a b : Name) : Bool :=
  decide (a.text < b.text)

/-- A name without the part from its last dot on. A name whose only dot comes first is whole. -/
def stem (name : Name) : String :=
  match name.text.toList.reverse.dropWhile (· != '.') with
  | [] => name.text
  | [_] => name.text
  | _ :: before => String.ofList before.reverse

/-- What a name has after its last dot, if something stands before that dot. -/
def extension? (name : Name) : Option String :=
  let reversed := name.text.toList.reverse
  match reversed.dropWhile (· != '.') with
  | [] => none
  | [_] => none
  | _ => some (String.ofList (reversed.takeWhile (· != '.')).reverse)

end Name

end Quire.Path
