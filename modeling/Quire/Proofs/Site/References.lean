import Quire.Proofs.Site.Pages

/-!
# References into the output directory

Where a page refers to and where the build puts a file are computed apart: a reference is text that is
written for the place of the page, a location is a path that was joined. Resolved from the directory of
its page, **a reference leads to the location of what it refers to** (`references_lead`), for every
output directory that is relative: among the content pages always, and from the index unless the output
directory has the empty name. There the index writes its references from the top.

That a path leads like another is meant for wherever one stands, so nothing is asked of the tree.
-/

namespace Quire.Site

open Quire.Page (Context)
open Quire.Path (Component)
open Quire.Tree (placeFrom)

/-! ## 1. Paths that lead alike -/

/-- Whether two paths lead to the same place, by what is written in them: from wherever one stands, if
they do not begin at the top, or both from the top. -/
structure LeadAlike (a b : String) : Prop where
  isFromTop : Path.isFromTop a = Path.isFromTop b
  placeFrom : ∀ p, placeFrom p (Path.components a) = placeFrom p (Path.components b)

namespace LeadAlike

variable {a b c : String}

theorem symm (h : LeadAlike a b) : LeadAlike b a :=
  ⟨h.isFromTop.symm, fun p => (h.placeFrom p).symm⟩

theorem trans (h : LeadAlike a b) (h' : LeadAlike b c) : LeadAlike a c :=
  ⟨h.isFromTop.trans h'.isFromTop, fun p => (h.placeFrom p).trans (h'.placeFrom p)⟩

end LeadAlike

/-! ## 2. What a page refers to -/

/-- A directory of the output that holds files for pages to use. -/
inductive Shared where
  | resources
  | images

/-- The name of the directory. -/
def Shared.dir : Shared → String
  | resources => Page.resourceDir
  | images => Page.imageDir

/-- Its location. -/
def Shared.location (l : Layout) : Shared → String
  | resources => l.resources
  | images => l.images

/-- The reference to it. -/
def Shared.text (c : Context) : Shared → String
  | resources => c.resources
  | images => c.images

/-- What a page can refer to in the output: a directory of files to use, a file in it, or the page with a
title. -/
inductive Reference where
  | directory (d : Shared)
  | file (d : Shared) (name : String)
  | page (title : String)

namespace Reference

/-- The reference as it is written on a page. -/
def text (c : Context) : Reference → String
  | directory d => d.text c
  | file d name => s!"{d.text c}/{name}"
  | page title => c.page title

/-- The location of what is referred to. -/
def target (l : Layout) : Reference → String
  | directory d => d.location l
  | file d name => Path.join (d.location l) name
  | page title => Path.join l.content (MarkdownFile.pageFile title)

/-- Whether the file or the title that is referred to does not begin with a slash. -/
def IsRelative : Reference → Prop
  | directory _ => True
  | file _ name => Path.isFromTop name = false
  | page title => Path.isFromTop title = false

/-- The components of the location inside the output directory. -/
def inside : Reference → List Component
  | directory d => [Component.ofString d.dir]
  | file d name => Component.ofString d.dir :: Path.components name
  | page title => .name contentName :: Path.components (MarkdownFile.pageFile title)

end Reference

variable {source output : String} {r : Reference}

theorem isName_dir (d : Shared) : Path.IsName d.dir := by
  cases d <;> decide

theorem components_dir (d : Shared) : Path.components d.dir = [Component.ofString d.dir] :=
  Path.components_of_slash_not_mem (isName_dir d).1 (isName_dir d).slash_not_mem

theorem location_under (source output : String) (d : Shared) :
    d.location (.under source output) = Path.join (Layout.under source output).root d.dir := by
  cases d <;> rfl

theorem text_content (d : Shared) : d.text .content = ".." ++ "/" ++ d.dir := by
  cases d <;> rfl

theorem text_index (output : String) (d : Shared) : d.text (.index output) = output ++ "/" ++ d.dir := by
  cases d <;> rfl

theorem isFromTop_pageFile {title : String} (h : Path.isFromTop title = false) :
    Path.isFromTop (MarkdownFile.pageFile title) = false := by
  by_cases hne : title = ""
  · subst hne
    decide
  · rw [← h]
    exact Path.isFromTop_append hne ".html"

/-! ## 3. Locations -/

theorem isFromTop_location (source output : String) (d : Shared) :
    Path.isFromTop (d.location (.under source output)) =
      Path.isFromTop (Layout.under source output).root := by
  rw [location_under, Path.isFromTop_join _ (Path.isFromTop_of_isName (isName_dir d))]

theorem isFromTop_target (h : r.IsRelative) :
    Path.isFromTop (r.target (.under source output)) =
      Path.isFromTop (Layout.under source output).root := by
  cases r with
  | directory d => exact isFromTop_location source output d
  | file d name => exact (Path.isFromTop_join _ h).trans (isFromTop_location source output d)
  | page title =>
      exact (Path.isFromTop_join _ (isFromTop_pageFile h)).trans
        (Path.isFromTop_join _ (Path.isFromTop_of_isName contentName.isName))

theorem components_location (source output : String) (d : Shared) :
    Path.components (d.location (.under source output)) =
      Path.components (Layout.under source output).root ++ [Component.ofString d.dir] := by
  rw [location_under, Path.components_join _ (Path.isFromTop_of_isName (isName_dir d)), components_dir]

theorem components_target (h : r.IsRelative) :
    Path.components (r.target (.under source output)) =
      Path.components (Layout.under source output).root ++ r.inside := by
  cases r with
  | directory d => exact components_location source output d
  | file d name =>
      rw [Reference.target, Path.components_join _ h, components_location, List.append_assoc]
      rfl
  | page title =>
      rw [Reference.target, Path.components_join _ (isFromTop_pageFile h), components_content,
        List.append_assoc]
      rfl

/-! ## 4. References of content pages -/

theorem isFromTop_text_content (h : r.IsRelative) : Path.isFromTop (r.text .content) = false := by
  have hup (d : Shared) (rest : String) : Path.isFromTop (d.text .content ++ rest) = false := by
    rw [text_content, String.append_assoc, String.append_assoc, Path.isFromTop_append (by decide)]
    decide
  cases r with
  | directory d =>
      have hdir := hup d ""
      rwa [String.append_empty] at hdir
  | file d name =>
      have hfile := hup d ("/" ++ name)
      rwa [← String.append_assoc] at hfile
  | page title => exact isFromTop_pageFile h

theorem components_text_content (d : Shared) :
    Path.components (d.text .content) = [.up, Component.ofString d.dir] := by
  rw [text_content, Path.components_append_slash, components_dir]
  rfl

/-- **From the directory of the content pages, a reference leads to what it refers to.** For a directory it
goes up first, out of that of the content pages. -/
theorem placeFrom_content (p : Tree.Place) (r : Reference) :
    placeFrom p (.name contentName :: Path.components (r.text .content)) = placeFrom p r.inside := by
  have hup (cs : List Component) : placeFrom p (.name contentName :: .up :: cs) = placeFrom p cs := by
    rw [Tree.placeFrom, Tree.placeFrom, List.dropLast_concat]
  cases r with
  | directory d =>
      rw [Reference.text, components_text_content, hup]
      rfl
  | file d name =>
      show placeFrom p (_ :: Path.components (d.text .content ++ "/" ++ name)) = _
      rw [Path.components_append_slash, components_text_content, List.cons_append, hup]
      rfl
  | page title => rfl

/-! ## 5. References of the index -/

theorem components_text_index (output : String) (r : Reference) :
    Path.components (r.text (.index output)) = Path.components output ++ r.inside := by
  have hdir (d : Shared) : Path.components (d.text (.index output)) =
      Path.components output ++ [Component.ofString d.dir] := by
    rw [text_index, Path.components_append_slash, components_dir]
  cases r with
  | directory d => exact hdir d
  | file d name =>
      show Path.components (d.text (.index output) ++ "/" ++ name) = _
      rw [Path.components_append_slash, hdir, List.append_assoc]
      rfl
  | page title =>
      show Path.components (output ++ "/" ++ contentName.text ++ "/" ++ _) = _
      rw [Path.components_append_slash, Path.components_append_slash, Path.components_text_name,
        List.append_assoc]
      rfl

/-- A reference of the index begins with the output directory and a slash. -/
theorem exists_text_index (output : String) (r : Reference) :
    ∃ rest, r.text (.index output) = output ++ ("/" ++ rest) := by
  cases r with
  | directory d => exact ⟨d.dir, by rw [Reference.text, text_index, String.append_assoc]⟩
  | file d name =>
      refine ⟨d.dir ++ "/" ++ name, ?_⟩
      show d.text (.index output) ++ "/" ++ name = _
      rw [text_index]
      simp only [String.append_assoc]
  | page title =>
      refine ⟨Page.contentDir ++ "/" ++ MarkdownFile.pageFile title, ?_⟩
      show output ++ "/" ++ Page.contentDir ++ "/" ++ MarkdownFile.pageFile title = _
      simp only [String.append_assoc]

theorem isFromTop_text_index (h : output ≠ "") (r : Reference) :
    Path.isFromTop (r.text (.index output)) = Path.isFromTop output := by
  obtain ⟨rest, hrest⟩ := exists_text_index output r
  rw [hrest, Path.isFromTop_append h]

/-- Above an output directory of the empty name, the index refers from the top. -/
theorem isFromTop_text_index_empty (r : Reference) :
    Path.isFromTop (r.text (.index "")) = true := by
  obtain ⟨rest, hrest⟩ := exists_text_index "" r
  rw [hrest, String.empty_append, Path.isFromTop_append (by decide)]
  decide

/-! ## 6. References and locations -/

theorem isFromTop_root (h : Path.isFromTop output = false) :
    Path.isFromTop (Layout.under source output).root = Path.isFromTop source :=
  Path.isFromTop_join source h

/-- Among the content pages, every reference leads to the location of what it refers to. -/
theorem content_leads (source output : String) (hr : r.IsRelative) :
    LeadAlike (Path.join (Layout.under source output).content (r.text .content))
      (r.target (.under source output)) where
  isFromTop := by
    rw [Path.isFromTop_join _ (isFromTop_text_content hr), isFromTop_target hr]
    exact Path.isFromTop_join _ (Path.isFromTop_of_isName contentName.isName)
  placeFrom p := by
    rw [Path.components_join _ (isFromTop_text_content hr), components_content, components_target hr,
      List.append_assoc, List.singleton_append, Tree.placeFrom_append, placeFrom_content,
      ← Tree.placeFrom_append]

/-- From the index, a reference leads there too if the output directory has a name. -/
theorem index_leads (source : String) (houtput : Path.isFromTop output = false) (hne : output ≠ "")
    (hr : r.IsRelative) :
    LeadAlike (Path.join source (r.text (.index output))) (r.target (.under source output)) := by
  have htop : Path.isFromTop (r.text (.index output)) = false := by
    rw [isFromTop_text_index hne, houtput]
  have hroot : Path.components (Layout.under source output).root =
      Path.components source ++ Path.components output := Path.components_join source houtput
  refine ⟨?_, fun p => ?_⟩
  · rw [Path.isFromTop_join _ htop, isFromTop_target hr, isFromTop_root houtput]
  · rw [Path.components_join _ htop, components_text_index, components_target hr, hroot,
      List.append_assoc]

/-- If it has none, no reference of the index leads there, unless the source is from the top itself. -/
theorem not_index_leads (hsource : Path.isFromTop source = false) (hr : r.IsRelative) :
    ¬ LeadAlike (Path.join source (r.text (.index ""))) (r.target (.under source "")) := by
  intro h
  have htop := h.isFromTop
  rw [Path.join, isFromTop_text_index_empty, if_pos rfl, isFromTop_text_index_empty,
    isFromTop_target hr, isFromTop_root (by decide), hsource] at htop
  cases htop

/-- **References and the layout agree.** Resolved from the directory of its page, a reference leads to the
location of what it refers to, and the same one of a content page and of the index lead alike. Only for
an output directory of the empty name does the index refer elsewhere. -/
theorem references_lead (source : String) (houtput : Path.isFromTop output = false)
    (hr : r.IsRelative) :
    LeadAlike (Path.join (Layout.under source output).content (r.text .content))
        (r.target (.under source output)) ∧
      (output ≠ "" →
        LeadAlike (Path.join source (r.text (.index output))) (r.target (.under source output)) ∧
        LeadAlike (Path.join (Layout.under source output).content (r.text .content))
          (Path.join source (r.text (.index output)))) ∧
      (output = "" → Path.isFromTop source = false →
        ¬ LeadAlike (Path.join source (r.text (.index output))) (r.target (.under source output))) := by
  have hcontent := content_leads source output hr
  refine ⟨hcontent, fun hne => ?_, ?_⟩
  · have hindex := index_leads source houtput hne hr
    exact ⟨hindex, hcontent.trans hindex.symm⟩
  · rintro rfl hsource
    exact not_index_leads hsource hr

/-- An image is found from both kinds of pages below an output directory that goes up and down and is
written with a slash last, and not from the index beside the images. -/
theorem references_lead_image :
    LeadAlike (Path.join "s/./a/../b/Content" "../Img/x.png") (Path.join "s" "./a/../b//Img/x.png") ∧
      ¬ LeadAlike (Path.join "s" "/Img/x.png") "s/Img/x.png" := by
  have himage : (Reference.file .images "x.png").IsRelative := by
    show Path.isFromTop "x.png" = false
    decide
  have hb : Path.isFromTop "./a/../b/" = false := by decide
  obtain ⟨-, hnamed, -⟩ := references_lead "s" hb himage
  have hnone : Path.isFromTop "" = false := by decide
  obtain ⟨-, -, hempty⟩ := references_lead "s" hnone himage
  exact ⟨(hnamed (by decide)).2, hempty rfl (by decide)⟩

end Quire.Site
