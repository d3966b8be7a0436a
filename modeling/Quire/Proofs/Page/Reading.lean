import Mathlib.Data.List.ModifyLast
import Quire.Page.Layout
import Quire.Proofs.Document.Links
import Quire.Proofs.Html.Escape
import Quire.Proofs.Site.Toc
import Quire.Proofs.Text.Order
import Quire.Proofs.Text.Split

/-!
# Reading the navigation back

Markup is read tag by tag: from an opening bracket up to a closing one, with the text behind it
(`tags?`). A reader keeps the elements that are open, wants each closed before the one around it, and
takes no text but in a summary and in an anchor, and these nowhere but where a navigation has them
(`Reader.step`). Escaped text holds no bracket and no quote, so **what it reads in a navigation are the
folders of the table of contents with the titles of their documents and the links to them**
(`readNavigation_navigation`), whatever the names are.
-/

namespace Quire.Page

open Quire.Site (MarkdownFile Toc TocStep)
open Quire.Text (splitOn)

/-! ## 1. Tags -/

/-- A tag, by what stands between its brackets, and the text behind it. -/
structure Tag where
  inside : List Char
  behind : List Char
  deriving DecidableEq

/-- Tags as they are written. -/
def writeTags (tags : List Tag) : List Char :=
  tags.flatMap fun t => '<' :: (t.inside ++ '>' :: t.behind)

/-- The tags of markup, if nothing stands before the first. -/
def tags? (s : List Char) : Option (List Tag) :=
  match splitOn '<' s with
  | [] :: parts => some <| parts.map fun part =>
      ⟨part.takeWhile (· != '>'), (part.dropWhile (· != '>')).tail⟩
  | _ => none

/-- Whether a tag can be told from what stands around it. -/
def Tag.IsPlain (t : Tag) : Prop :=
  '<' ∉ t.inside ∧ '>' ∉ t.inside ∧ '<' ∉ t.behind

instance (t : Tag) : Decidable t.IsPlain :=
  inferInstanceAs (Decidable (_ ∧ _ ∧ _))

theorem splitOn_writeTags {tags : List Tag} (h : ∀ t ∈ tags, t.IsPlain) :
    splitOn '<' (writeTags tags) = [] :: tags.map fun t => t.inside ++ '>' :: t.behind := by
  induction tags with
  | nil => rfl
  | cons t tags ih =>
      rw [List.forall_mem_cons] at h
      obtain ⟨⟨hinside, -, hbehind⟩, hrest⟩ := h
      have hpart : '<' ∉ t.inside ++ '>' :: t.behind := by
        simp [hinside, hbehind]
      have hwrite : writeTags (t :: tags) =
          '<' :: ((t.inside ++ '>' :: t.behind) ++ writeTags tags) := rfl
      rw [hwrite, Text.splitOn_cons_self, List.map_cons]
      have hnext := ih hrest
      cases tags with
      | nil => rw [writeTags, List.flatMap_nil, List.append_nil, Text.splitOn_of_not_mem hpart]; rfl
      | cons u tags =>
          have hcons : writeTags (u :: tags) =
              '<' :: ((u.inside ++ '>' :: u.behind) ++ writeTags tags) := rfl
          rw [hcons, Text.splitOn_cons_self] at hnext
          rw [hcons, Text.splitOn_append hpart, (List.cons.inj hnext).2]

/-- **Plain tags are read back.** -/
theorem tags?_writeTags {tags : List Tag} (h : ∀ t ∈ tags, t.IsPlain) :
    tags? (writeTags tags) = some tags := by
  rw [tags?, splitOn_writeTags h]
  dsimp only
  rw [List.map_map]
  refine congrArg some ((List.map_congr_left fun t ht => ?_).trans (List.map_id tags))
  have hend : ∀ c ∈ t.inside, (c != '>') = true := fun c hc =>
    bne_iff_ne.2 fun e => (h t ht).2.1 (e ▸ hc)
  simp only [Function.comp_apply]
  rw [List.takeWhile_append_of_pos hend, List.takeWhile_cons_of_neg (by decide), List.append_nil,
    List.dropWhile_append_of_pos hend, List.dropWhile_cons_of_neg (by decide)]
  rfl

/-! ## 2. The reader -/

/-- A folder with the titles of its documents and the links to them. -/
abbrev Group := String × List (String × String)

/-- The text that markup stands for. -/
def textOf (s : List Char) : String :=
  String.ofList (Html.unescapeChars s)

/-- The name of the element that a tag opens. -/
def Tag.name (t : Tag) : String :=
  String.ofList (t.inside.takeWhile (· != ' '))

/-- The link of an anchor. -/
def Tag.link? (t : Tag) : Option String :=
  match splitOn '\x22' t.inside with
  | [front, target, []] => if front = "a href=".toList then some (textOf target) else none
  | _ => none

/-- Whether nothing but blanks stands behind a tag. -/
def Tag.isBare (t : Tag) : Bool :=
  t.behind.all (·.isWhitespace)

/-- What was read: the elements that are open, the innermost first, and the folders. -/
structure Reader where
  opened : List String
  groups : List Group
  deriving DecidableEq

namespace Reader

/-- The folders with what an opening tag comes to. -/
def open? (r : Reader) (t : Tag) : Option (List Group) :=
  match r.opened, t.name with
  | ["nav", "aside"], "details" => if t.isBare then some (r.groups ++ [("", [])]) else none
  | ["details", "nav", "aside"], "summary" =>
    some (r.groups.modifyLast fun g => (g.1 ++ textOf t.behind, g.2))
  | ["li", "ul", "details", "nav", "aside"], "a" =>
    t.link?.map fun link => r.groups.modifyLast fun g => (g.1, g.2 ++ [(textOf t.behind, link)])
  | _, name => if name ∉ ["details", "summary", "a"] ∧ t.isBare then some r.groups else none

/-- A reader after one more tag. -/
def step (r : Reader) (t : Tag) : Option Reader :=
  match t.inside with
  | '/' :: name =>
    match r.opened with
    | inner :: outer =>
      if inner = String.ofList name ∧ t.isBare then some ⟨outer, r.groups⟩ else none
    | [] => none
  | _ => (r.open? t).map fun groups => ⟨t.name :: r.opened, groups⟩

end Reader

/-- The folders of a navigation, if all that is opened in it is closed. -/
def readNavigation (s : List Char) : Option (List Group) := do
  let r ← (← tags? s).foldlM Reader.step ⟨[], []⟩
  if r.opened = [] then some r.groups else none

/-! ## 3. What is read of a navigation -/

/-- The tags of the line of a document. -/
def entryTags (c : Context) (f : MarkdownFile) : List Tag :=
  [⟨"li".toList, []⟩,
    ⟨"a href=\"".toList ++ (Html.escapeChars (c.page f.displayName).toList ++ ['\x22']),
      Html.escapeChars f.displayName.toList⟩,
    ⟨"/a".toList, []⟩, ⟨"/li".toList, ['\n']⟩]

/-- The tags of the group of a folder. -/
def folderTags (c : Context) (folder : String) (files : List MarkdownFile) : List Tag :=
  [⟨"details".toList, ['\n']⟩, ⟨"summary".toList, Html.escapeChars folder.toList⟩,
    ⟨"/summary".toList, ['\n']⟩, ⟨"ul".toList, ['\n']⟩] ++ files.flatMap (entryTags c) ++
    [⟨"/ul".toList, ['\n']⟩, ⟨"/details".toList, ['\n']⟩]

/-- The tags of a navigation. -/
def navigationTags (c : Context) (toc : Toc) : List Tag :=
  [⟨"aside".toList, ['\n']⟩, ⟨"nav aria-label=\"Contents\"".toList, ['\n']⟩] ++
    toc.folders.flatMap (fun x => folderTags c x.1 x.2) ++
    [⟨"/nav".toList, ['\n']⟩, ⟨"/aside".toList, []⟩]

/-- What is to be read of a document. -/
def titleLink (c : Context) (f : MarkdownFile) : String × String :=
  (f.displayName, c.page f.displayName)

theorem textOf_escapeChars (s : String) : textOf (Html.escapeChars s.toList) = s := by
  rw [textOf, Html.unescapeChars_escapeChars, String.ofList_toList]

theorem link?_anchor (target : String) (behind : List Char) :
    Tag.link? ⟨"a href=\"".toList ++ (Html.escapeChars target.toList ++ ['\x22']), behind⟩ =
      some target := by
  have hfront : "a href=\"".toList = "a href=".toList ++ ['\x22'] := rfl
  have hquote : '\x22' ∉ Html.escapeChars target.toList := fun h =>
    (Html.escapeChars_special h).2.2 rfl
  rw [Tag.link?, hfront, List.append_assoc, List.singleton_append,
    Text.splitOn_append (by decide), Text.splitOn_append hquote]
  dsimp only [splitOn]
  rw [if_pos rfl, textOf_escapeChars]

variable {c : Context} {groups : List Group} {folder : String} {links : List (String × String)}

/-- **One document is one link.** -/
theorem foldlM_entryTags (f : MarkdownFile) :
    (entryTags c f).foldlM Reader.step ⟨["ul", "details", "nav", "aside"],
        groups ++ [(folder, links)]⟩ =
      some ⟨["ul", "details", "nav", "aside"],
        groups ++ [(folder, links ++ [titleLink c f])]⟩ := by
  have hopen : Reader.step ⟨["li", "ul", "details", "nav", "aside"], groups ++ [(folder, links)]⟩
      ⟨"a href=\"".toList ++ (Html.escapeChars (c.page f.displayName).toList ++ ['\x22']),
        Html.escapeChars f.displayName.toList⟩ =
      some ⟨["a", "li", "ul", "details", "nav", "aside"],
        groups ++ [(folder, links ++ [titleLink c f])]⟩ := by
    show (Option.map _ (Option.map _ (Tag.link? _))) = _
    rw [link?_anchor, Option.map_some, Option.map_some, List.modifyLast_concat, textOf_escapeChars]
    rfl
  have hitem : Reader.step ⟨["ul", "details", "nav", "aside"], groups ++ [(folder, links)]⟩
      ⟨"li".toList, []⟩ =
      some ⟨["li", "ul", "details", "nav", "aside"], groups ++ [(folder, links)]⟩ := rfl
  rw [entryTags, List.foldlM_cons, hitem, Option.bind_eq_bind, Option.bind_some, List.foldlM_cons,
    hopen]
  rfl

/-- **The documents of a folder are its links, in order.** -/
theorem foldlM_flatMap_entryTags (files : List MarkdownFile) :
    (files.flatMap (entryTags c)).foldlM Reader.step ⟨["ul", "details", "nav", "aside"],
        groups ++ [(folder, links)]⟩ =
      some ⟨["ul", "details", "nav", "aside"],
        groups ++ [(folder, links ++ files.map (titleLink c))]⟩ := by
  induction files generalizing links with
  | nil => simp
  | cons f files ih =>
      rw [List.flatMap_cons, List.foldlM_append, foldlM_entryTags, Option.bind_eq_bind,
        Option.bind_some, ih, List.append_assoc]
      rfl

/-- **One folder is one group.** -/
theorem foldlM_folderTags (folder : String) (files : List MarkdownFile) :
    (folderTags c folder files).foldlM Reader.step ⟨["nav", "aside"], groups⟩ =
      some ⟨["nav", "aside"], groups ++ [(folder, files.map (titleLink c))]⟩ := by
  have hsummary : Reader.step ⟨["details", "nav", "aside"], groups ++ [("", [])]⟩
      ⟨"summary".toList, Html.escapeChars folder.toList⟩ =
      some ⟨["summary", "details", "nav", "aside"], groups ++ [(folder, [])]⟩ := by
    show Option.map _ (some (List.modifyLast _ _)) = _
    rw [List.modifyLast_concat, textOf_escapeChars, String.empty_append]
    rfl
  have hdetails : Reader.step ⟨["nav", "aside"], groups⟩ ⟨"details".toList, ['\n']⟩ =
      some ⟨["details", "nav", "aside"], groups ++ [("", [])]⟩ := rfl
  have hlist : [⟨"/summary".toList, ['\n']⟩, ⟨"ul".toList, ['\n']⟩].foldlM Reader.step
      ⟨["summary", "details", "nav", "aside"], groups ++ [(folder, [])]⟩ =
      some ⟨["ul", "details", "nav", "aside"], groups ++ [(folder, [])]⟩ := rfl
  rw [folderTags, List.foldlM_append, List.foldlM_append, List.foldlM_cons, hdetails,
    Option.bind_eq_bind, Option.bind_some, List.foldlM_cons, hsummary, Option.bind_eq_bind,
    Option.bind_some, hlist, Option.bind_some, foldlM_flatMap_entryTags]
  rfl

theorem foldlM_flatMap_folderTags (folders : List (String × List MarkdownFile)) :
    (folders.flatMap fun x => folderTags c x.1 x.2).foldlM Reader.step ⟨["nav", "aside"], groups⟩ =
      some ⟨["nav", "aside"], groups ++ folders.map fun x => (x.1, x.2.map (titleLink c))⟩ := by
  induction folders generalizing groups with
  | nil => simp
  | cons x folders ih =>
      rw [List.flatMap_cons, List.foldlM_append, foldlM_folderTags, Option.bind_eq_bind,
        Option.bind_some, ih, List.append_assoc]
      rfl

/-- **The tags of a navigation are read as its folders.** -/
theorem foldlM_navigationTags (c : Context) (toc : Toc) :
    (navigationTags c toc).foldlM Reader.step ⟨[], []⟩ =
      some ⟨[], toc.folders.map fun x => (x.1, x.2.map (titleLink c))⟩ := by
  have haside : Reader.step ⟨[], []⟩ ⟨"aside".toList, ['\n']⟩ = some ⟨["aside"], []⟩ := rfl
  have hnav : Reader.step ⟨["aside"], []⟩ ⟨"nav aria-label=\"Contents\"".toList, ['\n']⟩ =
      some ⟨["nav", "aside"], []⟩ := by decide +kernel
  rw [navigationTags, List.foldlM_append, List.foldlM_append, List.foldlM_cons, haside,
    Option.bind_eq_bind, Option.bind_some, List.foldlM_cons, hnav, Option.bind_eq_bind,
    Option.bind_some, List.foldlM_nil, Option.pure_def, Option.bind_some, foldlM_flatMap_folderTags]
  rfl

/-! ## 4. The navigation as tags -/

theorem toList_entryMarkup (c : Context) (f : MarkdownFile) :
    (entryMarkup c f).toList = writeTags (entryTags c f) := by
  have hshape (x : String) : (element "li" x ++ "\n").toList =
      "<li>".toList ++ (x.toList ++ "</li>\n".toList) := by
    simp [element, ToString.toString]
  have hitem : "<li>".toList = '<' :: ("li".toList ++ ['>']) := rfl
  have hanchor : "<a href=\"".toList = '<' :: "a href=\"".toList := rfl
  have hclose : "</a>".toList ++ "</li>\n".toList =
      '<' :: ("/a".toList ++ '>' :: '<' :: ("/li".toList ++ ['>', '\n'])) := rfl
  simp only [entryMarkup, hshape, linkMarkup, String.toList_ofList, Document.anchor_append,
    Html.escape, entryTags, writeTags, List.flatMap_cons, List.flatMap_nil, hitem, hanchor, hclose,
    List.append_assoc, List.cons_append, List.nil_append, List.append_nil]

theorem writeTags_append (a b : List Tag) : writeTags (a ++ b) = writeTags a ++ writeTags b :=
  List.flatMap_append

theorem toList_join {α : Type} {markup : α → String} {tags : α → List Tag}
    (h : ∀ x, (markup x).toList = writeTags (tags x)) (l : List α) :
    (String.join (l.map markup)).toList = writeTags (l.flatMap tags) := by
  rw [String.toList_join, List.flatMap_map, writeTags, List.flatMap_assoc]
  exact List.flatMap_congr fun x _ => h x

theorem toList_folderMarkup (c : Context) (folder : String) (files : List MarkdownFile) :
    (folderMarkup c folder files).toList = writeTags (folderTags c folder files) := by
  have hshape : folderMarkup c folder files = "<details>\n<summary>" ++ Html.escape folder ++
      "</summary>\n<ul>\n" ++ String.join (files.map (entryMarkup c)) ++ "</ul>\n</details>\n" :=
    rfl
  rw [hshape, folderTags, writeTags_append, writeTags_append, ← toList_join (toList_entryMarkup c)]
  simp [writeTags, Html.escape]

theorem toList_navigation (c : Context) (toc : Toc) :
    (navigation c toc).toList = writeTags (navigationTags c toc) := by
  have hshape : navigation c toc = "<aside>\n<nav aria-label=\"Contents\">\n" ++
      String.join (toc.folders.map fun x => folderMarkup c x.1 x.2) ++ "</nav>\n</aside>" :=
    rfl
  rw [hshape, navigationTags, writeTags_append, writeTags_append,
    ← toList_join fun x : String × List MarkdownFile => toList_folderMarkup c x.1 x.2]
  simp [writeTags]

theorem isPlain_escape (s t : List Char) :
    Tag.IsPlain ⟨"a href=\"".toList ++ (Html.escapeChars s ++ ['\x22']), Html.escapeChars t⟩ := by
  have hopen (u : List Char) : '<' ∉ Html.escapeChars u := fun h =>
    (Html.escapeChars_special h).1 rfl
  have hclose : '>' ∉ Html.escapeChars s := fun h => (Html.escapeChars_special h).2.1 rfl
  refine ⟨?_, ?_, hopen t⟩
  · simp [hopen]
  · simp [hclose]

theorem isPlain_entryTags (c : Context) (f : MarkdownFile) : ∀ t ∈ entryTags c f, t.IsPlain := by
  simp only [entryTags, List.forall_mem_cons]
  exact ⟨by decide, isPlain_escape _ _, by decide, by decide, List.forall_mem_nil _⟩

theorem isPlain_folderTags (c : Context) (folder : String) (files : List MarkdownFile) :
    ∀ t ∈ folderTags c folder files, t.IsPlain := by
  have hsummary : Tag.IsPlain ⟨"summary".toList, Html.escapeChars folder.toList⟩ := by
    have hname : '<' ∉ "summary".toList ∧ '>' ∉ "summary".toList := by decide
    exact ⟨hname.1, hname.2, fun h => (Html.escapeChars_special h).1 rfl⟩
  simp only [folderTags, List.forall_mem_append, List.forall_mem_cons, List.forall_mem_flatMap]
  exact ⟨⟨⟨by decide, hsummary, by decide, by decide, List.forall_mem_nil _⟩,
    fun f _ => isPlain_entryTags c f⟩, by decide, by decide, List.forall_mem_nil _⟩

/-- **Nothing that is escaped is taken for a tag.** -/
theorem isPlain_navigationTags (c : Context) (toc : Toc) :
    ∀ t ∈ navigationTags c toc, t.IsPlain := by
  simp only [navigationTags, List.forall_mem_append, List.forall_mem_cons, List.forall_mem_flatMap]
  exact ⟨⟨⟨by decide, by decide, List.forall_mem_nil _⟩, fun x _ => isPlain_folderTags c x.1 x.2⟩,
    by decide, by decide, List.forall_mem_nil _⟩

/-- **A navigation is read as the folders of its table of contents.** -/
theorem readNavigation_navigation (c : Context) (toc : Toc) :
    readNavigation (navigation c toc).toList =
      some (toc.folders.map fun x => (x.1, x.2.map (titleLink c))) := by
  rw [readNavigation, toList_navigation, tags?_writeTags (isPlain_navigationTags c toc),
    Option.bind_eq_bind, Option.bind_some, foldlM_navigationTags, Option.bind_eq_bind,
    Option.bind_some, if_pos rfl]

/-- **Nothing is lost in the navigation, and nothing gets in.** However a table of contents was built,
reading its navigation gives the folders that were named, strictly in the order of the bytes of their
names, and for each the titles of the documents added to it, in their order, with the links to their
pages. -/
theorem navigation_decodable (c : Context) (steps : List TocStep) :
    ∃ groups, readNavigation (navigation c (TocStep.build steps)).toList = some groups ∧
      (groups.Pairwise fun a b => Text.bytes a.1 < Text.bytes b.1) ∧
      (∀ folder, folder ∈ groups.map Prod.fst ↔ folder ∈ steps.map TocStep.folder) ∧
      ∀ g ∈ groups, g.2 = (steps.filterMap (TocStep.fileIn? g.1)).map fun f =>
        (f.displayName, c.page f.displayName) := by
  refine ⟨_, readNavigation_navigation c _, ?_, fun folder => ?_, ?_⟩
  · exact List.pairwise_map.2 ((TocStep.build steps).sorted.imp Text.bytes_lt_iff.2)
  · rw [List.map_map, List.mem_map]
    constructor
    · rintro ⟨⟨name, files⟩, hmem, rfl⟩
      exact (TocStep.mem_build steps).1 hmem |>.1
    · intro h
      exact ⟨(folder, _), (TocStep.mem_build steps).2 ⟨h, rfl⟩, rfl⟩
  · intro g hg
    obtain ⟨⟨name, files⟩, hmem, rfl⟩ := List.mem_map.1 hg
    rw [((TocStep.mem_build steps).1 hmem).2]
    rfl

end Quire.Page
