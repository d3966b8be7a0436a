import Quire.Proofs.Path.Components
import Quire.Proofs.Tree.Following

/-!
# What stands behind a name

A path that begins with a name is that name and a tail: nothing, or a slash and what follows it. **What
is done to such a path is done to its tail**: its components are those of the tail behind the name
(`components_tail`), and a joined path has a longer tail behind the same name (`join_tail`,
`below_tail`). As long as the tail does not lead back above the name (`StaysBelow`), the name makes no
difference to where it leads from there (`placeOf_tail`).
-/

namespace Quire.Path

open Quire.Text
open Quire.Tree (Place placeFrom placeOf)

/-! ## 1. Staying below -/

/-- Whether components, followed from a place in a directory, lead nowhere above that directory. -/
def StaysBelow : Place → List Component → Prop
  | _, [] => True
  | p, .here :: cs => StaysBelow p cs
  | p, .up :: cs => p ≠ [] ∧ StaysBelow p.dropLast cs
  | p, .name n :: cs => StaysBelow (p ++ [n]) cs

instance decidableStaysBelow : (p : Place) → (cs : List Component) → Decidable (StaysBelow p cs)
  | _, [] => inferInstanceAs (Decidable True)
  | p, .here :: cs => decidableStaysBelow p cs
  | p, .up :: cs =>
    have := decidableStaysBelow p.dropLast cs
    inferInstanceAs (Decidable (_ ∧ _))
  | p, .name n :: cs => decidableStaysBelow (p ++ [n]) cs

theorem staysBelow_append {p : Place} {cs ds : List Component} :
    StaysBelow p (cs ++ ds) ↔ StaysBelow p cs ∧ StaysBelow (placeFrom p cs) ds := by
  induction cs generalizing p with
  | nil => exact ⟨fun h => ⟨trivial, h⟩, fun h => h.2⟩
  | cons c cs ih =>
      cases c with
      | here => exact ih
      | up => exact (and_congr_right fun _ => ih).trans and_assoc.symm
      | name n => exact ih

theorem staysBelow_filter {p : Place} {cs : List Component} :
    StaysBelow p (cs.filter (· != .here)) ↔ StaysBelow p cs := by
  induction cs generalizing p with
  | nil => exact Iff.rfl
  | cons c cs ih =>
      cases c with
      | here => exact ih
      | up => exact and_congr_right fun _ => ih
      | name n => exact ih

theorem staysBelow_of_notUp {cs : List Component} (h : .up ∉ cs) (p : Place) : StaysBelow p cs := by
  induction cs generalizing p with
  | nil => trivial
  | cons c cs ih =>
      rw [List.mem_cons, not_or] at h
      cases c with
      | here => exact ih h.2 p
      | up => exact absurd rfl h.1
      | name n => exact ih h.2 (p ++ [n])

/-- **Components that lead nowhere above a directory lead to the same place in it, wherever it is.** -/
theorem StaysBelow.placeFrom_append {q : Place} {cs : List Component} (h : StaysBelow q cs) (p : Place) :
    placeFrom (p ++ q) cs = p ++ placeFrom q cs := by
  induction cs generalizing q with
  | nil => rfl
  | cons c cs ih =>
      cases c with
      | here => exact ih h
      | up => rw [placeFrom, placeFrom, List.dropLast_append_of_ne_nil h.1, ih h.2]
      | name n => rw [placeFrom, placeFrom, List.append_assoc, ih h]

/-! ## 2. Tails -/

/-- Whether a text can stand behind a name in a path that leads nowhere above what the name is that
of. -/
structure IsTail (x : String) : Prop where
  start : x = "" ∨ isFromTop x = true
  staysBelow : StaysBelow [] (components x)

/-- A path put behind a tail. -/
def extend (x path : String) : String :=
  if endsInSlash x then x ++ path else x ++ "/" ++ path

/-- The components of a path, put one after the other behind a tail. -/
def extendAll (x path : String) : String :=
  (components path).foldl (fun y c => y ++ "/" ++ c.text) x

variable {n m : Name} {x y path : String}

theorem isTail_empty : IsTail "" :=
  ⟨.inl rfl, trivial⟩

theorem ne_empty_of_isFromTop (h : isFromTop x = true) : x ≠ "" := by
  rintro rfl
  cases h

/-- A text from the top is what follows its slash. -/
theorem exists_of_isFromTop (h : isFromTop x = true) : ∃ y, x = "/" ++ y := by
  obtain ⟨s, hs⟩ := List.head?_eq_some_iff.1 (of_decide_eq_true h)
  refine ⟨String.ofList s, ?_⟩
  simp [← String.toList_inj, hs]

theorem components_slash (y : String) : components ("/" ++ y) = components y := by
  have h := components_append_slash "" y
  rwa [String.empty_append, components_empty, List.nil_append] at h

/-- **The components of a path that begins with a name are the name and those of its tail.** -/
theorem components_tail (n : Name) (h : IsTail x) :
    components (n.text ++ x) = .name n :: components x := by
  rcases h.start with rfl | htop
  · rw [String.append_empty, components_text_name, components_empty]
  · obtain ⟨y, rfl⟩ := exists_of_isFromTop htop
    rw [← String.append_assoc, components_append_slash, components_text_name, components_slash]
    rfl

theorem isFromTop_tail (n : Name) (x : String) : isFromTop (n.text ++ x) = false := by
  rw [isFromTop_append n.isName.1, isFromTop_of_isName n.isName]

theorem isEmpty_tail (n : Name) (x : String) : (n.text ++ x).isEmpty = false := by
  rw [Bool.eq_false_iff, Ne, String.isEmpty_iff, String.append_eq_empty_iff, not_and_or]
  exact .inl n.isName.1

theorem endsInSlash_append (a : String) {b : String} (hb : b ≠ "") :
    endsInSlash (a ++ b) = endsInSlash b := by
  rw [endsInSlash, endsInSlash, String.toList_append,
    List.getLast?_append_of_ne_nil _ fun h => hb (String.toList_eq_nil_iff.1 h)]

theorem endsInSlash_text (n : Name) : endsInSlash n.text = false := by
  have h := endsInSlash_join_name "" n
  rwa [join, isFromTop_of_isName n.isName, if_neg Bool.false_ne_true, if_pos (by rfl),
    String.empty_append] at h

/-- A name does not end in a slash, so a path does if its tail does. -/
theorem endsInSlash_tail (n : Name) (x : String) : endsInSlash (n.text ++ x) = endsInSlash x := by
  by_cases hx : x = ""
  · subst hx
    rw [String.append_empty, endsInSlash_text]
    rfl
  · exact endsInSlash_append n.text hx

theorem steps_tail (n : Name) (h : IsTail x) :
    steps (n.text ++ x) = .name n :: (components x).filter (· != .here) := by
  rw [steps_eq, components_tail n h]
  rfl

/-- The path of where one stands begins with no name. -/
theorem steps_tail_ne_here (n : Name) (h : IsTail x) : (steps (n.text ++ x) == [.here]) = false := by
  rw [steps_tail n h, beq_eq_false_iff_ne]
  simp

/-- **Whether a path leads through a directory does not hang on the name that both begin with.** -/
theorem isUnder_tail (n m : Name) (hx : IsTail x) (hy : IsTail y) :
    isUnder (n.text ++ x) (n.text ++ y) = isUnder (m.text ++ x) (m.text ++ y) := by
  rw [isUnder, isUnder, steps_tail n hx, steps_tail n hy, steps_tail m hx, steps_tail m hy,
    List.isPrefixOf_cons_cons, List.isPrefixOf_cons_cons, beq_self_eq_true, beq_self_eq_true]

/-! ## 3. Longer tails -/

theorem components_extend (x path : String) :
    components (extend x path) = components x ++ components path := by
  rw [extend]
  split
  · rename_i hslash
    exact components_of_endsInSlash hslash path
  · exact components_append_slash x path

theorem isFromTop_append_slash (hx : x = "" ∨ isFromTop x = true) (path : String) :
    isFromTop (x ++ "/" ++ path) = true := by
  rcases hx with rfl | htop
  · rw [String.empty_append, isFromTop_append (by decide)]
    rfl
  · rw [String.append_assoc, isFromTop_append (ne_empty_of_isFromTop htop), htop]

theorem isFromTop_extend (hx : x = "" ∨ isFromTop x = true) (path : String) :
    isFromTop (extend x path) = true := by
  rw [extend]
  split
  · rename_i hslash
    rcases hx with rfl | htop
    · cases hslash
    · rw [isFromTop_append (ne_empty_of_isFromTop htop), htop]
  · exact isFromTop_append_slash hx path

theorem IsTail.extend (hx : IsTail x) (h : StaysBelow (placeOf x) (components path)) :
    IsTail (extend x path) where
  start := .inr (isFromTop_extend hx.start path)
  staysBelow := by
    rw [components_extend]
    exact staysBelow_append.2 ⟨hx.staysBelow, h⟩

/-- **A path joined to one that begins with a name is put behind its tail.** -/
theorem join_tail (n : Name) (x : String) (hpath : isFromTop path = false) :
    join (n.text ++ x) path = n.text ++ extend x path := by
  rw [join, hpath, if_neg Bool.false_ne_true, isEmpty_tail, endsInSlash_tail, Bool.false_or, extend]
  split
  · rw [String.append_assoc]
  · rw [String.append_assoc, String.append_assoc, String.append_assoc]

theorem utf8ByteSize_extend_le (x path : String) :
    (extend x path).utf8ByteSize ≤ x.utf8ByteSize + 1 + path.utf8ByteSize := by
  have hslash : ("/" : String).utf8ByteSize = 1 := rfl
  rw [extend]
  split <;> simp only [String.utf8ByteSize_append, hslash] <;> omega

/-- A name put behind a tail. -/
theorem IsTail.extend_name (hx : IsTail x) (k : Name) : IsTail (Path.extend x k.text) := by
  refine hx.extend ?_
  rw [components_text_name]
  trivial

/-- A tail with a slash and a name behind it. -/
theorem IsTail.slash (hx : IsTail x) (k : Name) : IsTail (x ++ "/" ++ k.text) where
  start := .inr (isFromTop_append_slash hx.start k.text)
  staysBelow := by
    rw [components_append_slash, components_text_name]
    exact staysBelow_append.2 ⟨hx.staysBelow, trivial⟩

/-- The path from a directory whose path begins with a name is put behind the tail of that. -/
theorem below_tail (n : Name) (x path : String) :
    below (n.text ++ x) path = n.text ++ extendAll x path := by
  rw [below, extendAll]
  generalize components path = cs
  induction cs generalizing x with
  | nil => rfl
  | cons c cs ih =>
      rw [List.foldl_cons, List.foldl_cons, isEmpty_tail, if_neg Bool.false_ne_true,
        String.append_assoc, String.append_assoc, ih, String.append_assoc]

/-! ## 4. Places -/

/-- **The place of a path that begins with a name lies below that name.** -/
theorem placeOf_tail (n : Name) (h : IsTail x) : placeOf (n.text ++ x) = n :: placeOf x := by
  rw [placeOf, components_tail n h, placeFrom]
  exact h.staysBelow.placeFrom_append [n]

theorem placeOf_extend (x path : String) :
    placeOf (extend x path) = placeFrom (placeOf x) (components path) := by
  rw [placeOf, components_extend, Tree.placeFrom_append]
  rfl

/-- A path that nowhere goes up, put behind a tail, adds its place to that of the tail. -/
theorem placeOf_extend_of_notUp (x : String) (hup : .up ∉ components path) :
    placeOf (extend x path) = placeOf x ++ placeOf path := by
  have h := (staysBelow_of_notUp hup []).placeFrom_append (placeOf x)
  rw [placeOf_extend]
  rwa [List.append_nil] at h

theorem placeOf_extend_name (x : String) (k : Name) :
    placeOf (extend x k.text) = placeOf x ++ [k] := by
  rw [placeOf_extend, components_text_name]
  rfl

/-! ## 5. Parents -/

/-- Cutting the last name off a path leaves what stands before its slash, if that ends in a name. -/
theorem parent_append_name {a : String} {j : Name}
    (hlast : (splitOn '/' a.toList).getLast? = some j.text.toList) (k : Name) :
    parent (a ++ "/" ++ k.text) = a := by
  have hkept (i : Name) : (i.text.toList.isEmpty || i.text.toList = ['.']) = false := by
    rw [← Bool.not_eq_true, Bool.or_eq_true, not_or, List.isEmpty_iff, String.toList_eq_nil_iff,
      decide_eq_true_iff]
    exact ⟨i.isName.1, fun h => i.isName.2.1 (String.toList_inj.1 h)⟩
  have hsplit : splitOn '/' (a ++ "/" ++ k.text).toList = splitOn '/' a.toList ++ [k.text.toList] := by
    have hchars : (a ++ "/" ++ k.text).toList = a.toList ++ '/' :: k.text.toList := by
      simp
    rw [hchars, splitOn_append_cons, splitOn_of_not_mem k.isName.slash_not_mem]
  obtain ⟨front, hfront⟩ := List.getLast?_eq_some_iff.1 hlast
  rw [parent, hsplit, List.reverse_append, List.reverse_singleton, List.singleton_append]
  dsimp only
  rw [List.dropWhile_cons_of_neg (by rw [hkept]; exact Bool.false_ne_true), List.tail_cons, hfront,
    List.reverse_append, List.reverse_singleton, List.singleton_append,
    List.dropWhile_cons_of_neg (by rw [hkept]; exact Bool.false_ne_true), List.reverse_cons,
    List.reverse_reverse, ← hfront, intercalate_splitOn, String.ofList_toList]

/-- Whether a tail is empty or ends in a name, as that of a directory does. -/
def EndsInName (x : String) : Prop :=
  x = "" ∨ ∃ (y : String) (j : Name), x = y ++ "/" ++ j.text

theorem EndsInName.extend_text (h : EndsInName x) (k : Name) :
    extend x k.text = x ++ "/" ++ k.text := by
  rw [extend, if_neg]
  rcases h with rfl | ⟨y, j, rfl⟩
  · decide
  · rw [endsInSlash_append _ j.isName.1, endsInSlash_text]
    exact Bool.false_ne_true

/-- Above a name behind a tail that ends in a name stands the tail alone. -/
theorem parent_tail (n k : Name) (hx : EndsInName x) :
    parent (n.text ++ extend x k.text) = n.text ++ x := by
  rw [hx.extend_text, ← String.append_assoc, ← String.append_assoc]
  rcases hx with rfl | ⟨y, j, rfl⟩
  · refine parent_append_name (j := n) ?_ k
    rw [String.append_empty, splitOn_of_not_mem n.isName.slash_not_mem]
    rfl
  · refine parent_append_name (j := j) ?_ k
    have hchars : (n.text ++ (y ++ "/" ++ j.text)).toList =
        (n.text ++ y).toList ++ '/' :: j.text.toList := by
      simp
    rw [hchars, splitOn_append_cons, splitOn_of_not_mem j.isName.slash_not_mem, List.getLast?_concat]

end Quire.Path
