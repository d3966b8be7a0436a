import Quire.Proofs.Site.Pages
import Quire.Proofs.Site.Staging

/-!
# Staging is not seen

Where the output directory is named by one plain name, all that staging makes or changes lies in that
directory (`outputs_stage`). No document is looked for there, so **the documents, what they hold, and
the table of contents are the same before and after** (`documents_eq_of_outputs`,
`contents_eq_of_outputs`, `blocksOf_eq_of_outputs`).
-/

namespace Quire.Site

open Quire.Path (IsName Name)
open Quire.Tree (Directory Grows Place placeOf)

variable {source output : String} {o : Options} {t u v : Tree} {p r : Place} {f : Filter}

/-! ## 1. Where the output goes -/

/-- Whether a place is that of the output directory, or lies in it. -/
def IsInside (source output : String) (p : Place) : Prop :=
  placeOf (Layout.under source output).root <+: p

/-- Whether all that is new, and all files that hold something else, lie in the output directory. -/
def Outputs (source output : String) (t u : Tree) : Prop :=
  Grows (IsInside source output) (IsInside source output) t u

theorem directories_under (source output : String) : (Layout.under source output).directories =
    [Page.imageDir, Page.contentDir, Page.resourceDir].map
      (Path.join (Layout.under source output).root) := by
  rw [Layout.directories]
  rfl

theorem isInside_append {name : String} (hname : IsName name) {q : Place} :
    IsInside source output (placeOf (Path.join (Layout.under source output).root name) ++ q) := by
  rw [Tree.placeOf_join_name _ ⟨name, hname⟩, List.append_assoc]
  exact List.prefix_append _ _

theorem isInside_image (name : Name) :
    IsInside source output (placeOf ((Layout.under source output).image name)) := by
  rw [Layout.image, Tree.placeOf_join_name]
  exact isInside_append (by decide)

theorem isInside_asset (h : (Layout.under source output).IsAsset p) : IsInside source output p := by
  have hnames : ∀ a ∈ assets, IsName a.1 := by decide
  obtain ⟨a, ha, rfl⟩ := h
  rw [Layout.asset, Tree.placeOf_join_name _ ⟨a.1, hnames a ha⟩]
  exact isInside_append (by decide)

section Named

variable (hout : IsName output)

include hout

theorem placeOf_root : placeOf (Layout.under source output).root = placeOf source ++ [⟨output, hout⟩] :=
  Tree.placeOf_join_name source ⟨output, hout⟩

/-- **Directories on the way to the output are there, or are output.** -/
theorem isInside_of_isDirectory (hsource : t.HasMade source)
    (h : (Layout.under source output).IsDirectory p) :
    t.kind? p = some .directory ∨ IsInside source output p := by
  have hsteps {name : String} (hname : IsName name) :
      Path.steps (Path.join (Layout.under source output).root name) =
        Path.stepsOf (Path.components source) ++ [.name ⟨output, hout⟩] ++ [.name ⟨name, hname⟩] := by
    rw [Path.steps_eq, Path.components_join _ (Path.isFromTop_of_isName hname),
      Path.components_of_isName hname, Path.stepsOf_concat_name]
    show Path.stepsOf (Path.components (Path.join source output)) ++ _ = _
    rw [Path.components_join _ (Path.isFromTop_of_isName hout), Path.components_of_isName hout,
      Path.stepsOf_concat_name]
  have hway (name : String) (hname : IsName name)
      (h : Tree.IsOnWay (Path.join (Layout.under source output).root name) p) :
      t.kind? p = some .directory ∨ IsInside source output p := by
    obtain ⟨cs, hcs, rfl⟩ := h
    rw [hsteps hname, List.prefix_concat_iff, List.prefix_concat_iff] at hcs
    rw [IsInside, placeOf_root hout]
    rcases hcs with rfl | rfl | ⟨ds, hds⟩
    · right
      rw [Tree.placeFrom_append, Tree.placeFrom_append, Tree.placeFrom_stepsOf]
      exact List.prefix_append _ _
    · right
      rw [Tree.placeFrom_append, Tree.placeFrom_stepsOf]
      exact List.prefix_rfl
    · left
      have hpass := Tree.passes_stepsOf.2 hsource.2.2
      rw [← hds, Tree.passes_append] at hpass
      exact hpass.1.kind? (Tree.kind?_nil t)
  obtain ⟨dir, hdir, hp⟩ := h
  rw [directories_under, List.mem_map] at hdir
  obtain ⟨name, hname, rfl⟩ := hdir
  have hnames : ∀ name ∈ [Page.imageDir, Page.contentDir, Page.resourceDir], IsName name := by decide
  exact hway name (hnames name hname) hp

/-- **What is staged is output.** -/
theorem outputs_stage (hsource : t.HasMade source) {F : String → Prop}
    (hgrows : Grows (Layout.under source output).IsAsset (Layout.under source output).IsDirectory t u)
    (hstages : Stages (Layout.under source output) F u v) : Outputs source output t v where
  toPersists := hgrows.toPersists.trans hstages.persists
  of_file hp := by
    rcases hstages.copied hp with hp | ⟨_, name, _, -, -, hl, -, -⟩
    · exact (hgrows.of_file hp).imp_right isInside_asset
    · obtain ⟨-, -, -, rfl, -⟩ := Tree.locate_eq_file.1 hl
      exact .inr (isInside_image name)
  of_directory hp := by
    rcases hgrows.of_directory (hstages.fills.kind?_eq_directory.1 hp) with hp | hp
    · exact .inl hp
    · exact isInside_of_isDirectory hout hsource hp

/-! ## 2. What is not seen -/

omit hout in
/-- The files beside the output directory are the same, where it is a directory in the end. -/
theorem file_iff_of_outputs (h : Outputs source output t u)
    (hroot : u.kind? (placeOf (Layout.under source output).root) = some .directory)
    (hp : IsInside source output p → p = placeOf (Layout.under source output).root)
    {c : ByteArray} : u.kind? p = some (.file c) ↔ t.kind? p = some (.file c) := by
  by_cases hinside : IsInside source output p
  · rw [hp hinside, hroot]
    refine iff_of_false (by simp) fun hc => ?_
    obtain ⟨e, he⟩ := h.file hc
    rw [hroot] at he
    cases he
  · rw [h.kind?_eq hinside hinside]

/-- No document is looked for in the output directory, but for one that goes by its name. -/
theorem eq_root_of_admits (hexcl : output ∈ f.excludedDirectories) (hr : f.Admits r)
    (hinside : IsInside source output (placeOf source ++ r)) :
    placeOf source ++ r = placeOf (Layout.under source output).root := by
  obtain ⟨q, n, rfl, -, -, hdirs⟩ := hr
  rw [IsInside, placeOf_root hout, List.prefix_append_right_inj] at hinside
  rw [placeOf_root hout]
  cases q with
  | nil =>
      rw [List.nil_append] at hinside ⊢
      rw [hinside.eq_of_length rfl]
  | cons m ms =>
      have hm : (⟨output, hout⟩ : Name) = m := by simpa using hinside
      exact absurd (hm ▸ hexcl) (hdirs m List.mem_cons_self)

section Outputs

variable {d : Directory} (hd : sourceDirectory source t = .ok d) (h : Outputs source output t u)
  (hroot : u.kind? (placeOf (Layout.under source output).root) = some .directory)

include hd h

/-- **The table of contents is the same.** -/
theorem contents_eq_of_outputs {excluded : List String} (hexcl : output ∈ excluded) :
    contents source excluded u = contents source excluded t := by
  have hinside {n : Name} {q : Place} (hn : n.text ∉ excluded) :
      ¬ IsInside source output (placeOf source ++ n :: q) := by
    rw [IsInside, placeOf_root hout, List.prefix_append_right_inj]
    intro hp
    have hn' : (⟨output, hout⟩ : Name) = n := by simpa using hp
    exact hn (hn' ▸ hexcl)
  obtain ⟨e, he⟩ := exists_sourceDirectory h.toPersists hd
  refine (contents_eq hd he (fun n hn => ⟨h.directory, fun hk => ?_⟩) fun n m hn _ => ?_).symm
  · exact (h.of_directory hk).resolve_right (hinside hn)
  · rw [h.kind?_eq (hinside hn) (hinside hn)]

include hroot

/-- **The documents are the same.** -/
theorem documents_eq_of_outputs (hexcl : output ∈ f.excludedDirectories) :
    documents source f u = documents source f t := by
  obtain ⟨e, he⟩ := exists_sourceDirectory h.toPersists hd
  exact (documents_eq hd he fun r hr => exists_congr fun c =>
    (file_iff_of_outputs h hroot (eq_root_of_admits hout hexcl hr)).symm).symm

/-- **What the documents hold is the same.** -/
theorem blocksOf_eq_of_outputs {language : Highlight.Language} {docs : List MarkdownFile}
    (hexcl : output ∈ f.excludedDirectories) (hdocs : documents source f t = .ok docs)
    {g : MarkdownFile} (hg : g ∈ docs) :
    blocksOf source language u g = blocksOf source language t g := by
  have hsource := (sourceDirectory_eq_ok.1 hd).1
  exact blocksOf_eq hsource (h.hasMade hsource) hdocs (fun r c hr hc =>
    (file_iff_of_outputs h hroot (eq_root_of_admits hout hexcl hr)).2 hc) hg

end Outputs

end Named

theorem mem_allExcluded (o : Options) : o.outputDirectory ∈ o.allExcluded := by
  rw [Options.allExcluded]
  split
  · rename_i h
    exact List.contains_iff_mem.1 h
  · simp

end Quire.Site
