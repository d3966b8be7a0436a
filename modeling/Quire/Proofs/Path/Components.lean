import Mathlib.Data.List.Infix
import Quire.Path.Basic
import Quire.Proofs.Text.Split
import Quire.Tree.Basic

/-!
# Components of paths that were put together

A slash keeps the components on its two sides apart, so **the components of a joined path are those
of its two parts** (`components_join`, `components_below`), unless the second part is from the top,
and the components of a place that is written as a path are its names (`components_pathOf`).
-/

namespace Quire.Path

open Quire.Text

/-! ## 1. Single components -/

theorem components_empty : components "" = [] := rfl

theorem IsName.slash_not_mem {text : String} (h : IsName text) : '/' ∉ text.toList :=
  h.2.2.2

/-- A nonempty text without a slash is one component. -/
theorem components_of_slash_not_mem {text : String} (hne : text ≠ "") (h : '/' ∉ text.toList) :
    components text = [Component.ofString text] := by
  have hlist : text.toList.isEmpty = false := by
    rw [List.isEmpty_eq_false_iff]
    exact fun e => hne (String.toList_eq_nil_iff.1 e)
  rw [components, parts, splitOn_of_not_mem h, List.filter_cons, hlist]
  simp

theorem ofString_text (n : Name) : Component.ofString n.text = .name n := by
  rw [Component.ofString, dif_pos n.isName]

@[simp] theorem components_text_name (n : Name) : components n.text = [.name n] := by
  rw [components_of_slash_not_mem n.isName.1 n.isName.slash_not_mem, ofString_text]

theorem components_text (c : Component) : components c.text = [c] := by
  cases c with
  | here => rfl
  | up => rfl
  | name n => exact components_text_name n

/-- A name is one component. -/
theorem components_of_isName {text : String} (h : IsName text) :
    components text = [.name ⟨text, h⟩] :=
  components_text_name ⟨text, h⟩

/-! ## 2. Paths on two sides of a slash -/

/-- **A slash keeps components apart.** -/
theorem components_append_slash (a b : String) :
    components (a ++ "/" ++ b) = components a ++ components b := by
  have hchars : (a ++ "/" ++ b).toList = a.toList ++ '/' :: b.toList := by
    rw [String.toList_append, String.toList_append, List.append_assoc]
    rfl
  rw [components, components, components, parts, parts, parts, hchars, splitOn_append_cons,
    List.filter_append, List.map_append, List.map_append]

theorem components_of_endsInSlash {a : String} (h : endsInSlash a = true) (b : String) :
    components (a ++ b) = components a ++ components b := by
  obtain ⟨s, hs⟩ : ∃ s, a.toList = s ++ ['/'] :=
    List.getLast?_eq_some_iff.1 (of_decide_eq_true h)
  have ha : a = String.ofList s ++ "/" := by
    rw [← String.toList_inj, hs, String.toList_append, String.toList_ofList]
    rfl
  have hlast := components_append_slash (String.ofList s) ""
  rw [String.append_empty, components_empty, List.append_nil] at hlast
  rw [ha, components_append_slash, hlast]

/-- **The components of a joined path are those of its two parts.** -/
theorem components_join (a : String) {b : String} (h : isFromTop b = false) :
    components (join a b) = components a ++ components b := by
  rw [join, h, if_neg Bool.false_ne_true]
  split
  · rename_i hor
    rcases Bool.or_eq_true_iff.1 hor with he | he
    · rw [String.isEmpty_iff.1 he, String.empty_append, components_empty, List.nil_append]
    · exact components_of_endsInSlash he b
  · exact components_append_slash a b

theorem components_below (dir path : String) :
    components (below dir path) = components dir ++ components path := by
  rw [below]
  generalize components path = cs
  induction cs generalizing dir with
  | nil => exact (List.append_nil _).symm
  | cons c cs ih =>
      rw [List.foldl_cons, ih]
      split
      · rename_i he
        rw [String.isEmpty_iff.1 he, components_text, components_empty]
        rfl
      · rw [components_append_slash, components_text, List.append_assoc]
        rfl

theorem isFromTop_of_isName {text : String} (h : IsName text) : isFromTop text = false := by
  rw [isFromTop]
  exact decide_eq_false fun hhead => h.slash_not_mem (List.mem_of_head? hhead)

theorem isFromTop_append {a : String} (ha : a ≠ "") (b : String) :
    isFromTop (a ++ b) = isFromTop a := by
  rw [isFromTop, isFromTop, String.toList_append, List.head?_append]
  cases h : a.toList with
  | nil => exact absurd (String.toList_eq_nil_iff.1 h) ha
  | cons c cs => rfl

/-- A joined path is from the top if its first part is, or its second. -/
theorem isFromTop_join (a : String) {b : String} (hb : isFromTop b = false) :
    isFromTop (join a b) = isFromTop a := by
  rw [join, hb, if_neg Bool.false_ne_true]
  by_cases ha : a = ""
  · subst ha
    rw [if_pos (by rfl), String.empty_append, hb]
    rfl
  · split
    · exact isFromTop_append ha b
    · rw [String.append_assoc]
      exact isFromTop_append ha _

/-- A path without components that does not begin with a slash is empty. -/
theorem eq_empty_of_components_eq_nil {path : String} (h : components path = [])
    (htop : isFromTop path = false) : path = "" := by
  rw [components, List.map_eq_nil_iff, parts, List.map_eq_nil_iff, List.filter_eq_nil_iff] at h
  rw [isFromTop, decide_eq_false_iff_not] at htop
  rw [← String.toList_eq_nil_iff]
  cases hs : path.toList with
  | nil => rfl
  | cons c cs =>
      rw [hs, List.head?_cons, Option.some.injEq] at htop
      obtain ⟨part, parts, hcs⟩ := List.exists_cons_of_ne_nil (splitOn_ne_nil '/' cs)
      rw [hs, splitOn_cons_of_ne htop hcs] at h
      exact absurd rfl (h (c :: part) List.mem_cons_self)

theorem endsInSlash_join_empty {dir : String} (h : dir ≠ "") : endsInSlash (join dir "") = true := by
  have hempty : isFromTop "" = false := rfl
  rw [join, hempty, if_neg Bool.false_ne_true]
  split
  · rename_i hor
    rcases Bool.or_eq_true_iff.1 hor with he | he
    · exact absurd (String.isEmpty_iff.1 he) h
    · rw [String.append_empty]
      exact he
  · rw [String.append_empty, endsInSlash, String.toList_append]
    exact decide_eq_true List.getLast?_concat

/-! ## 3. Steps -/

/-- Components without those, after the first, that stay where they are. -/
def stepsOf : List Component → List Component
  | [] => []
  | c :: cs => c :: cs.filter (· != .here)

theorem steps_eq (path : String) : steps path = stepsOf (components path) := by
  rw [steps]
  cases components path <;> rfl

theorem stepsOf_concat_name (cs : List Component) (n : Name) :
    stepsOf (cs ++ [.name n]) = stepsOf cs ++ [.name n] := by
  cases cs with
  | nil => rfl
  | cons c cs => simp [stepsOf]

/-! ## 4. Names and places -/

/-- **The components of a place are its names.** -/
theorem components_pathOf (p : Tree.Place) :
    components (Tree.pathOf p) = p.map .name := by
  rw [Tree.pathOf]
  induction p with
  | nil => rfl
  | cons n ns ih =>
      cases ns with
      | nil =>
          rw [List.map_singleton, List.map_singleton, String.intercalate_singleton,
            components_text_name]
      | cons m ms =>
          rw [List.map_cons, List.map_cons, String.intercalate_cons_cons, components_append_slash,
            components_text_name, ← List.map_cons, ih]
          rfl

/-- **A path whose last component is a name ends with it**, unless it ends in a slash. -/
theorem text_suffix_of_components {path : String} {cs : List Component} {n : Name}
    (h : components path = cs ++ [.name n]) (hslash : endsInSlash path = false) :
    n.text.toList <:+ path.toList := by
  -- what stands after the last slash is the last component
  have hlast {part : List Char} {ds : List Component} (hnot : '/' ∉ part) (hne : part ≠ [])
      (hcs : cs ++ [.name n] = ds ++ components (String.ofList part)) : n.text.toList = part := by
    rw [components_of_slash_not_mem (by simpa [← String.toList_inj] using hne) (by simpa using hnot)]
      at hcs
    have hend := (List.concat_inj.1 (show cs.concat (.name n) =
      ds.concat (Component.ofString (String.ofList part)) by
        rwa [List.concat_eq_append, List.concat_eq_append])).2
    rw [Component.ofString] at hend
    split at hend
    · rw [Component.name.inj hend, String.toList_ofList]
    · split at hend <;> cases hend
  by_cases hmem : '/' ∈ path.toList
  · obtain ⟨rest, front, hsplit, hrest⟩ :=
      List.eq_append_cons_of_mem (List.mem_reverse.2 hmem)
    have hchars : path.toList = front.reverse ++ '/' :: rest.reverse := by
      rw [← List.reverse_reverse path.toList, hsplit]
      simp
    have hpath : path = String.ofList front.reverse ++ "/" ++ String.ofList rest.reverse := by
      rw [← String.toList_inj, hchars]
      simp
    have hne : rest.reverse ≠ [] := by
      intro he
      rw [endsInSlash, hchars, he, List.getLast?_concat] at hslash
      exact absurd hslash (by decide)
    rw [hpath, components_append_slash] at h
    rw [hlast (by simpa using hrest) hne h.symm, hchars, ← List.singleton_append,
      ← List.append_assoc]
    exact List.suffix_append _ _
  · have hne : path.toList ≠ [] := by
      intro he
      rw [String.toList_eq_nil_iff.1 he, components_empty] at h
      simp at h
    have hcs : cs ++ [.name n] = [] ++ components (String.ofList path.toList) := by
      rw [String.ofList_toList, h, List.nil_append]
    rw [hlast hmem hne hcs]

/-- The file name of a path that ends in a name. -/
theorem fileName?_of_components {path : String} {cs : List Component} {n : Name}
    (h : components path = cs ++ [.name n]) : fileName? path = some n := by
  rw [fileName?, h, List.reverse_append]
  rfl

/-! ## 5. Slashes that make no difference -/

/-- Whether a path is written like another, but for slashes left out that make no difference. -/
structure IsShorter (a b : String) : Prop where
  sublist : a.toList.Sublist b.toList
  components : components a = components b
  isFromTop : isFromTop a = isFromTop b

theorem IsShorter.refl (a : String) : IsShorter a a :=
  ⟨.refl _, rfl, rfl⟩

theorem below_text (dir : String) (n : Name) :
    below dir n.text = if dir.isEmpty then n.text else dir ++ "/" ++ n.text := by
  rw [below, components_text_name]
  rfl

/-- **A name is joined with no more slashes than it is put below.** -/
theorem IsShorter.join_below {a b : String} (h : IsShorter a b) (n : Name) :
    IsShorter (join a n.text) (below b n.text) where
  sublist := by
    have hname := isFromTop_of_isName n.isName
    rw [join, hname, if_neg Bool.false_ne_true, below_text]
    cases hb : b.isEmpty with
    | true =>
        have ha : a = "" := by
          have hsub := h.sublist
          rw [String.isEmpty_iff.1 hb] at hsub
          exact String.toList_eq_nil_iff.1 (List.sublist_nil.1 hsub)
        rw [ha, if_pos (by rfl), if_pos rfl, String.empty_append]
    | false =>
        rw [if_neg Bool.false_ne_true, String.append_assoc, String.append_assoc, String.toList_append]
        split
        · rw [String.toList_append, String.toList_append]
          exact h.sublist.append (List.sublist_append_right _ _)
        · rw [String.toList_append]
          exact h.sublist.append (.refl _)
  components := by
    rw [components_join a (isFromTop_of_isName n.isName), components_below, h.components]
  isFromTop := by
    rw [isFromTop_join a (isFromTop_of_isName n.isName), h.isFromTop, below_text]
    cases hb : b.isEmpty with
    | true =>
        rw [if_pos rfl, isFromTop_of_isName n.isName, String.isEmpty_iff.1 hb]
        rfl
    | false =>
        have hne : b ≠ "" := by
          rintro rfl
          cases hb
        rw [if_neg Bool.false_ne_true, String.append_assoc, isFromTop_append hne]

/-- A path whose name comes last is not written with a slash last. -/
theorem endsInSlash_join_name (a : String) (n : Name) : endsInSlash (join a n.text) = false := by
  have hlast (front : List Char) : (front ++ n.text.toList).getLast? ≠ some '/' := by
    rw [List.getLast?_append]
    cases h : n.text.toList.getLast? with
    | none => exact absurd (String.toList_eq_nil_iff.1 (List.getLast?_eq_none_iff.1 h)) n.isName.1
    | some c =>
        rintro ⟨rfl⟩
        exact n.isName.slash_not_mem (List.mem_of_getLast? h)
  rw [join, isFromTop_of_isName n.isName, if_neg Bool.false_ne_true, endsInSlash]
  split
  · rw [String.toList_append]
    exact decide_eq_false (hlast _)
  · rw [String.toList_append]
    exact decide_eq_false (hlast _)

end Quire.Path
