import Quire.Page.Block
import Quire.Proofs.Document.Form

/-!
# Targets of links and images

A line that is one image is read as one image, and a line that is one link as one paragraph. Emphasis
is turned into tags before links and images are looked for, so **what is read as the target is the
target with its emphasis in tags** (`class_linkText`, `class_imageText`); it is the target as it was
written exactly if no star and no low line stands there twice (`emphasize_eq_self_iff`).

From there on nothing is lost: the reference of an anchor decodes to the target (`href?_anchor`), and
an image is named by the last component of its path (`isLastComponent_imageName`).
-/

namespace Quire.Document

open Quire.Highlight (Language)
open Quire.Text

/-! ## 1. Lines that are a link or an image -/

/-- A line that is one link. -/
def linkLine (label target : String) : String :=
  "[" ++ label ++ "](" ++ target ++ ")"

/-- A line that is one image. -/
def imageLine (alt path : String) : String :=
  "!" ++ linkLine alt path

theorem toList_linkLine (label target : String) :
    (linkLine label target).toList = linkText label.toList target.toList := by
  simp [linkLine, linkText]

theorem toList_imageLine (alt path : String) :
    (imageLine alt path).toList = imageText alt.toList path.toList := by
  rw [imageLine, String.toList_append, toList_linkLine]
  rfl

section Marked

variable {label : List Char} (hlabel : ∀ c ∈ label, isMark c = false) (target : List Char)

include hlabel

/-- A link keeps its shape when the emphasis of its target is turned into tags. -/
theorem emphasize_linkText :
    emphasize (linkText label target) = linkText label (emphasize target) := by
  have hfront : ∀ c ∈ '[' :: (label ++ [']', '(']), isMark c = false :=
    List.forall_mem_cons.2 ⟨rfl, List.forall_mem_append.2 ⟨hlabel, by decide⟩⟩
  have h := emphasize_append_left hfront (target ++ [')'])
  rw [emphasize_append_right (b := [')']) (by decide) target] at h
  exact h

theorem emphasize_imageText :
    emphasize (imageText label target) = imageText label (emphasize target) := by
  have h := emphasize_append_left (a := ['!']) (by decide) (linkText label target)
  rw [emphasize_linkText hlabel] at h
  exact h

/-- **A line that is one link is text**, with the emphasis of the target in tags. -/
theorem class_linkText : LineClass.of (.ofRaw (linkText label target)) =
    .text (linkText label (emphasize target)) := by
  have htrim : trim (linkText label target) = linkText label target := by
    rw [linkText, ← List.append_assoc]
    exact trim_ends rfl rfl _
  have hrule : isRule (trim (linkText label target)) = false := by
    rw [htrim]
    exact isRule_cons_of_not_mem (by decide) _
  rw [ofRaw_of_isRule_eq_false hrule, htrim, emphasize_linkText hlabel]
  exact ofText_text (c := '[') rfl (by decide) _

/-- **A line that is one image is text**, with the emphasis of the path in tags. -/
theorem class_imageText : LineClass.of (.ofRaw (imageText label target)) =
    .text (imageText label (emphasize target)) := by
  have htrim : trim (imageText label target) = imageText label target := by
    rw [imageText, linkText, ← List.append_assoc, ← List.cons_append]
    exact trim_ends rfl rfl _
  have hrule : isRule (trim (imageText label target)) = false := by
    rw [htrim]
    exact isRule_cons_of_not_mem (by decide) _
  rw [ofRaw_of_isRule_eq_false hrule, htrim, emphasize_imageText hlabel]
  exact ofText_text (c := '!') rfl (by decide) _

end Marked

/-! ## 2. The blocks of such a line -/

/-- A text with its emphasis in tags. -/
def emphasized (text : String) : String :=
  String.ofList (emphasize text.toList)

/-- What can be the label of a link: it holds no bracket and no emphasis and lies on one line. -/
def IsLabel (label : String) : Prop :=
  ∀ c ∈ "[]*_\n".toList, c ∉ label.toList

/-- What can be the target of a link: it holds neither the bracket that opens a link nor the
parenthesis that ends one, and lies on one line. -/
def IsTarget (target : String) : Prop :=
  ∀ c ∈ "[)\n".toList, c ∉ target.toList

theorem IsLabel.isMark_eq_false {label : String} (h : IsLabel label) :
    ∀ c ∈ label.toList, isMark c = false :=
  isMark_eq_false_of_not_mem (h '*' (by decide)) (h '_' (by decide))

/-- **A target with its emphasis in tags is a target.** -/
theorem IsTarget.emphasized {target : String} (h : IsTarget target) :
    IsTarget (emphasized target) := by
  intro c hc
  rw [Document.emphasized, String.toList_ofList]
  exact not_mem_emphasize (by revert c; decide) (h c hc)

theorem ne_empty_of_toList_eq_cons {text : String} {c : Char} {s : List Char}
    (h : text.toList = c :: s) : text ≠ "" := by
  rintro rfl
  cases h

variable {language : Language}

/-- A line of text comes to the blocks of this text. -/
theorem ofString_of_class {line : String} {s : List Char} (hne : line ≠ "")
    (hfeed : '\n' ∉ line.toList) (hclass : LineClass.of (.ofRaw line.toList) = .text s) :
    ofString language line = textBlocks s := by
  rw [ofString_eq_nested, lines_of_newline_not_mem hne hfeed, List.map_singleton, nested, hclass,
    nested]
  exact List.append_nil _

section Lines

variable {label target : String} (hlabel : IsLabel label) (htarget : IsTarget target)

include hlabel htarget

theorem newline_not_mem_linkText : '\n' ∉ linkText label.toList target.toList := by
  simp [linkText, hlabel '\n' (by decide), htarget '\n' (by decide)]

/-- **A line that is one image is one block.** -/
theorem ofString_imageLine :
    ofString language (imageLine label target) = [.image label (emphasized target)] := by
  have hfeed : '\n' ∉ (imageLine label target).toList := by
    rw [toList_imageLine, imageText, List.mem_cons, not_or]
    exact ⟨by decide, newline_not_mem_linkText hlabel htarget⟩
  have hne := ne_empty_of_toList_eq_cons (toList_imageLine label target)
  have hclass := class_imageText hlabel.isMark_eq_false target.toList
  rw [← toList_imageLine] at hclass
  have hwritten := htarget.emphasized
  rw [ofString_of_class hne hfeed hclass, textBlocks_imageText, String.ofList_toList]
  · rfl
  · exact fun c hc => hlabel c (by revert c; decide)
  · intro c hc
    have := hwritten c (by revert c; decide)
    rwa [emphasized, String.toList_ofList] at this

/-- **A line that is one link is one anchor.** -/
theorem ofString_linkLine : ofString language (linkLine label target) =
    [.paragraph (String.ofList (anchor label.toList (emphasize target.toList)))] := by
  have hfeed : '\n' ∉ (linkLine label target).toList := by
    rw [toList_linkLine]
    exact newline_not_mem_linkText hlabel htarget
  have hne := ne_empty_of_toList_eq_cons (toList_linkLine label target)
  have hclass := class_linkText hlabel.isMark_eq_false target.toList
  rw [← toList_linkLine] at hclass
  rw [ofString_of_class hne hfeed hclass, textBlocks_linkText]
  · exact fun c hc => hlabel c (by revert c; decide)
  · intro c hc
    have := htarget.emphasized c (by revert c; decide)
    rwa [emphasized, String.toList_ofList] at this

end Lines

/-! ## 3. What is made of a target -/

/-- The reference of an anchor that a text begins with, decoded. -/
def href? (text : String) : Option String := do
  let inside ← dropMark? "<a href=\"".toList text.toList
  let (reference, _) ← upTo? ['\x22'] inside
  return String.ofList (Html.unescapeChars reference)

/-- **The reference of an anchor decodes to its target.** -/
theorem href?_anchor (label : List Char) {target : List Char} (h : '\n' ∉ target) :
    href? (String.ofList (anchor label target)) = some (String.ofList target) := by
  have hquote : '\x22' ∉ Html.escapeChars target := fun hc => (Html.escapeChars_special hc).2.2 rfl
  have hfeed : '\n' ∉ Html.escapeChars target := Html.not_mem_escapeChars (by decide) h
  have hupTo := upTo?_append [] hquote hfeed ('>' :: (label ++ "</a>".toList))
  have hshape : anchor label target = "<a href=\"".toList ++
      (Html.escapeChars target ++ ['\x22'] ++ '>' :: (label ++ "</a>".toList)) := by
    have h := anchor_append label target []
    rwa [List.append_nil, List.append_nil, List.append_cons] at h
  have htoList : (String.ofList (anchor label target)).toList = anchor label target :=
    String.toList_ofList
  rw [href?, htoList, hshape, dropMark?_append, Option.bind_eq_bind, Option.bind_some, hupTo]
  exact congrArg (some ∘ String.ofList) (Html.unescapeChars_escapeChars target)

/-- The last component of a path: what stands after all of its slashes and backslashes. -/
structure IsLastComponent (path name : String) : Prop where
  no_separator : ∀ c ∈ ['/', '\\'], c ∉ name.toList
  exists_directory : ∃ directory : String,
    path = directory ++ name ∧ ∀ c ∈ directory.toList.getLast?, c ∈ ['/', '\\']

/-- **An image is named by the last component of its path.** -/
theorem isLastComponent_imageName (path : String) :
    IsLastComponent path (Page.imageName path) where
  no_separator c hc hmem := by
    rw [Page.imageName, String.toList_ofList, List.mem_reverse] at hmem
    have hkept := List.mem_takeWhile_imp hmem
    rw [Bool.and_eq_true, bne_iff_ne, bne_iff_ne] at hkept
    rcases List.mem_cons.1 hc with rfl | hc
    · exact hkept.1 rfl
    · exact hkept.2 (List.mem_singleton.1 hc)
  exists_directory := by
    refine ⟨String.ofList (path.toList.reverse.dropWhile fun c => c != '/' && c != '\\').reverse,
      ?_, fun c hc => ?_⟩
    · rw [Page.imageName, ← String.ofList_append, ← List.reverse_append,
        List.takeWhile_append_dropWhile, List.reverse_reverse, String.ofList_toList]
    · rw [String.toList_ofList, List.getLast?_reverse] at hc
      have hfirst := List.head?_dropWhile_not (fun c => c != '/' && c != '\\') path.toList.reverse
      rw [Option.mem_def.1 hc] at hfirst
      simpa [or_iff_not_imp_left] using hfirst

/-! ## 4. Targets -/

/-- **The target of a link or an image reaches the output with its emphasis in tags.** An image that
stands alone is one block with this path, and in markup it is named by the last component of it; a
link that stands alone is one paragraph, and the reference of its anchor decodes to this target.
That is the target as it was written exactly if no star and no low line stands there twice. -/
theorem target_emphasized (language : Language) {label target : String} (hlabel : IsLabel label)
    (htarget : IsTarget target) :
    ofString language (imageLine label target) = [.image label (emphasized target)] ∧
      (∃ name, IsLastComponent (emphasized target) name ∧
        ∀ c : Page.Context, Page.blockMarkup c (.image label (emphasized target)) =
          "<img src=\"" ++ c.images ++ "/" ++ Html.escape name ++ "\" alt=\"" ++
            Html.escape label ++ "\" />") ∧
      (∃ text, ofString language (linkLine label target) = [.paragraph text] ∧
        href? text = some (emphasized target)) ∧
      (emphasized target = target ↔
        target.toList.count '*' ≤ 1 ∧ target.toList.count '_' ≤ 1) := by
  refine ⟨ofString_imageLine hlabel htarget,
    ⟨_, isLastComponent_imageName _, fun c => ?_⟩,
    ⟨_, ofString_linkLine hlabel htarget, href?_anchor _ ?_⟩, ?_⟩
  · rfl
  · exact not_mem_emphasize (by decide) (htarget '\n' (by decide))
  · rw [← emphasize_eq_self_iff (htarget '\n' (by decide)), emphasized, ← String.toList_inj,
      String.toList_ofList]

/-- With no star in it, one low line in a target does no harm. -/
theorem target_emphasized_tag_png :
    IsLabel "tag" ∧ IsTarget "img/a_b.png" ∧
      ofString .csharp (imageLine "tag" "img/a_b.png") =
        [.image "tag" (emphasized "img/a_b.png")] ∧
      emphasized "img/a_b.png" = "img/a_b.png" := by
  have hlabel : IsLabel "tag" := by unfold IsLabel; decide
  have htarget : IsTarget "img/a_b.png" := by unfold IsTarget; decide
  have h := target_emphasized .csharp hlabel htarget
  exact ⟨hlabel, htarget, h.1, h.2.2.2.2 (by decide)⟩

/-- Not every target is read as it was written: two low lines in a path are taken for emphasis. -/
theorem not_forall_target_as_written :
    ¬∀ label target : String,
      (∀ text ∈ [label, target], text ≠ "" ∧ trim text.toList = text.toList ∧
        ∀ c ∈ "[]()<>\n\r".toList, c ∉ text.toList) →
      '*' ∉ label.toList → '_' ∉ label.toList →
      ofString .csharp (imageLine label target) = [.image label target] := by
  intro h
  have hlabel : IsLabel "t" := by unfold IsLabel; decide
  have htarget : IsTarget "a_b_c.png" := by unfold IsTarget; decide
  have himage := h "t" "a_b_c.png" (by decide) (by decide) (by decide)
  rw [ofString_imageLine hlabel htarget] at himage
  have hsame : emphasized "a_b_c.png" = "a_b_c.png" :=
    (Block.image.inj (List.cons.inj himage).1).2
  rw [← String.toList_inj, emphasized, String.toList_ofList,
    emphasize_eq_self_iff (htarget '\n' (by decide))] at hsame
  exact absurd hsame (by decide)

end Quire.Document
