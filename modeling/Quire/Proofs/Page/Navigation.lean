import Quire.Page.Layout
import Quire.Proofs.Document.Links

/-!
# The links of the navigation

The anchors of a text are found at opening angle brackets, and the reference of each is what stands
between its quotes, decoded (`references`). Nothing that is escaped holds a bracket or a quote, so
titles and folder names are not taken for anchors, and no reference ends early: **the navigation has a
link for every document of the table of contents, in order, and no other** (`references_navigation`).
-/

namespace Quire.Page

open Quire.Document (anchor anchor_append)
open Quire.Site (MarkdownFile Toc)
open Quire.Text (dropMark?)

/-! ## 1. References -/

/-- The reference of an anchor that a text begins with, decoded. -/
def reference? (s : List Char) : Option String :=
  (dropMark? "<a href=\"".toList s).map fun inside =>
    String.ofList (Html.unescapeChars (inside.takeWhile (· != '\x22')))

/-- The references of the anchors in a text, in order, decoded. -/
def references : List Char → List String
  | [] => []
  | c :: s => (reference? (c :: s)).toList ++ references s

theorem references_append_of_not_mem {a : List Char} (h : '<' ∉ a) (s : List Char) :
    references (a ++ s) = references s := by
  induction a with
  | nil => rfl
  | cons c a ih =>
      rw [List.mem_cons, not_or] at h
      have hno : reference? (c :: (a ++ s)) = none := by
        show (if '<' = c then _ else _ : Option (List Char)).map _ = none
        rw [if_neg h.1]
        rfl
      rw [List.cons_append, references, hno, ih h.2]
      rfl

theorem not_mem_escape (text : String) : '<' ∉ (Html.escape text).toList := by
  rw [Html.escape, String.toList_ofList]
  exact fun h => (Html.escapeChars_special h).1 rfl

/-- The reference of an anchor decodes to its target. -/
theorem reference?_anchor (label target s : List Char) :
    reference? (anchor label target ++ s) = some (String.ofList target) := by
  have hquote : ∀ c ∈ Html.escapeChars target, (c != '\x22') = true := fun c hc =>
    bne_iff_ne.2 (Html.escapeChars_special hc).2.2
  rw [anchor_append, reference?, Text.dropMark?_append, Option.map_some,
    List.takeWhile_append_of_pos hquote, List.takeWhile_cons_of_neg (by decide), List.append_nil,
    Html.unescapeChars_escapeChars]

/-- **A link with an escaped label is one anchor.** -/
theorem references_linkMarkup (label target : String) (s : List Char) :
    references ((linkMarkup (Html.escape label) target).toList ++ s) = target :: references s := by
  have hfront : '<' ∉ "a href=\"".toList ++ (Html.escapeChars target.toList ++
      '\x22' :: '>' :: (Html.escape label).toList) := by
    rw [List.mem_append, List.mem_append, List.mem_cons, List.mem_cons]
    rintro (h | h | h | h | h)
    · exact absurd h (by decide)
    · exact (Html.escapeChars_special h).1 rfl
    · exact absurd h (by decide)
    · exact absurd h (by decide)
    · exact not_mem_escape label h
  have hlast (s : List Char) : references ("</a>".toList ++ s) = references s := rfl
  have hfirst := reference?_anchor (Html.escape label).toList target.toList s
  have hcons : anchor (Html.escape label).toList target.toList ++ s =
      '<' :: (("a href=\"".toList ++ (Html.escapeChars target.toList ++
        '\x22' :: '>' :: (Html.escape label).toList)) ++ ("</a>".toList ++ s)) := by
    have hopen : "<a href=\"".toList = '<' :: "a href=\"".toList := rfl
    rw [anchor_append, hopen]
    simp only [List.append_assoc, List.cons_append]
  rw [hcons, String.ofList_toList] at hfirst
  rw [linkMarkup, String.toList_ofList, hcons, references, hfirst,
    references_append_of_not_mem hfront, hlast]
  rfl

/-! ## 2. The navigation -/

/-- The documents of a table of contents, folder by folder. -/
def listed (toc : Toc) : List MarkdownFile :=
  toc.folders.flatMap (·.2)

theorem references_join {α : Type} {markup : α → String} {refs : α → List String}
    (h : ∀ x s, references ((markup x).toList ++ s) = refs x ++ references s) (l : List α)
    (s : List Char) :
    references ((String.join (l.map markup)).toList ++ s) = l.flatMap refs ++ references s := by
  rw [String.toList_join, List.flatMap_map]
  induction l with
  | nil => rfl
  | cons x l ih =>
      rw [List.flatMap_cons, List.flatMap_cons, List.append_assoc, List.append_assoc, h, ih]

theorem references_entryMarkup (c : Context) (f : MarkdownFile) (s : List Char) :
    references ((entryMarkup c f).toList ++ s) = [c.page f.displayName] ++ references s := by
  have hshape (x : String) : (element "li" x ++ "\n").toList ++ s =
      "<li>".toList ++ (x.toList ++ ("</li>\n".toList ++ s)) := by
    simp [element, ToString.toString]
  have hfront (s : List Char) : references ("<li>".toList ++ s) = references s := rfl
  have hback (s : List Char) : references ("</li>\n".toList ++ s) = references s := rfl
  rw [entryMarkup, hshape, hfront, references_linkMarkup, hback]
  rfl

theorem references_folderMarkup (c : Context) (folder : String) (files : List MarkdownFile)
    (s : List Char) : references ((folderMarkup c folder files).toList ++ s) =
      files.map (fun f => c.page f.displayName) ++ references s := by
  have hshape : folderMarkup c folder files = "<details>\n<summary>" ++ Html.escape folder ++
      "</summary>\n<ul>\n" ++ String.join (files.map (entryMarkup c)) ++ "</ul>\n</details>\n" :=
    rfl
  have hfront (s : List Char) : references ("<details>\n<summary>".toList ++ s) = references s := rfl
  have hlist (s : List Char) : references ("</summary>\n<ul>\n".toList ++ s) = references s := rfl
  have hback (s : List Char) : references ("</ul>\n</details>\n".toList ++ s) = references s := rfl
  rw [hshape]
  simp only [String.toList_append, List.append_assoc]
  rw [hfront, references_append_of_not_mem (not_mem_escape folder), hlist,
    references_join (references_entryMarkup c), hback, List.map_eq_flatMap]

/-- **The links of the navigation are those of the documents in the table of contents.** -/
theorem references_navigation (c : Context) (toc : Toc) :
    references (navigation c toc).toList = (listed toc).map fun f => c.page f.displayName := by
  have hshape : navigation c toc = "<aside>\n<nav aria-label=\"Contents\">\n" ++
      String.join (toc.folders.map fun x => folderMarkup c x.1 x.2) ++ "</nav>\n</aside>" :=
    rfl
  have hfront (s : List Char) :
      references ("<aside>\n<nav aria-label=\"Contents\">\n".toList ++ s) = references s := rfl
  have hback : references "</nav>\n</aside>".toList = [] := rfl
  rw [hshape]
  simp only [String.toList_append, List.append_assoc]
  rw [hfront, references_join fun x : String × List MarkdownFile =>
    references_folderMarkup c x.1 x.2, hback, List.append_nil, listed, List.map_flatMap]

end Quire.Page
