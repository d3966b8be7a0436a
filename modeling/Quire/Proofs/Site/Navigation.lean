import Quire.Proofs.Page.Navigation
import Quire.Proofs.Path.Parent
import Quire.Proofs.Site.Rebuild

/-!
# Where the navigation leads

The navigation lists the documents right inside the folders of the source, and each link of it is named
for the page of its document. The documents that become pages are found in another way: deeper ones are
too, and those with a name that is skipped are not. So **a link leads to a page that was written exactly
if a document with its title was converted** (`navigation_leads`), and this is so for every listed
document but those that are skipped.

All this holds for every output directory but the one of the empty name: the index would refer to pages
in it from the top, where they are not.
-/

namespace Quire.Site

open Quire.Page (Context listed references)
open Quire.Path (Component Name)
open Quire.Tree (placeFrom placeOf)

variable {source output : String} {o : Options} {toc : Toc} {docs : List MarkdownFile} {copied : Nat}
  {report : BuildReport} {f : MarkdownFile} {s t u : Tree} {path page : String} {w v : Workspace}

/-! ## 1. Where references lead -/

/-- Whether a reference on a page leads to one of some pages: read from the directory that the page is
in, it stands for the same place. -/
def LeadsToOne (page reference : String) (pages : List String) : Prop :=
  ∃ target ∈ pages, placeOf (Path.join (Path.parent page) reference) = placeOf target

/-- The parent of a path leads to where it lies. -/
theorem placeOf_parent {cs : List Component} {n : Name}
    (h : Path.components path = cs ++ [.name n]) :
    placeOf (Path.parent path) = (placeOf path).dropLast := by
  have hparent := Path.filter_components_parent path
  rw [h, List.filter_append] at hparent
  rw [Tree.placeOf_concat h, List.dropLast_concat, placeOf, ← Tree.placeFrom_filter, hparent]
  show placeFrom [] ((cs.filter _ ++ [Component.name n]).dropLast) = _
  rw [List.dropLast_concat, Tree.placeFrom_filter]

theorem placeOf_join_congr {a b : String} (h : placeOf a = placeOf b) (reference : String) :
    placeOf (Path.join a reference) = placeOf (Path.join b reference) := by
  cases htop : Path.isFromTop reference with
  | true => rw [Path.join, Path.join, htop, if_pos rfl, if_pos rfl]
  | false => rw [Tree.placeOf_join a htop, Tree.placeOf_join b htop, h]

/-- Among the content pages, a link leads to the page that it is named for. -/
theorem placeOf_join_content (l : Layout) (f : MarkdownFile) :
    placeOf (Path.join l.content (Context.content.page f.displayName)) = placeOf (l.page f) :=
  rfl

theorem components_index_page (output : String) (f : MarkdownFile) :
    Path.components ((Context.index output).page f.displayName) =
      Path.components output ++ [.name contentName] ++ [.name (pageName f)] := by
  show Path.components (output ++ "/" ++ contentName.text ++ "/" ++ (pageName f).text) = _
  rw [Path.components_append_slash, Path.components_append_slash, Path.components_text_name,
    Path.components_text_name]

/-- From the source directory, a link leads there as well, unless the output directory has the empty
name. -/
theorem placeOf_join_index (hne : output ≠ "") (f : MarkdownFile) :
    placeOf (Path.join source ((Context.index output).page f.displayName)) =
      placeOf ((Layout.under source output).page f) := by
  have htop : Path.isFromTop ((Context.index output).page f.displayName) = Path.isFromTop output := by
    show Path.isFromTop (output ++ "/" ++ Page.contentDir ++ "/" ++ f.pageFileName) = _
    rw [String.append_assoc, String.append_assoc, String.append_assoc, Path.isFromTop_append hne]
  have hcomponents : Path.components ((Layout.under source output).page f) =
      Path.components (Path.join source output) ++ [.name contentName] ++ [.name (pageName f)] := by
    rw [components_page, components_content]
    rfl
  rw [placeOf, placeOf, hcomponents]
  cases houtput : Path.isFromTop output with
  | true =>
      rw [houtput] at htop
      rw [Path.join, htop, if_pos rfl, components_index_page, Path.join, houtput, if_pos rfl]
  | false =>
      rw [houtput] at htop
      rw [Path.components_join _ htop, components_index_page, Path.components_join _ houtput]
      simp only [List.append_assoc]

theorem fileName?_page (c : Context) (f : MarkdownFile) :
    Path.fileName? (c.page f.displayName) = some (pageName f) := by
  cases c with
  | content =>
      have hcs : Path.components (Context.content.page f.displayName) = [] ++ [.name (pageName f)] :=
        Path.components_of_isName (isName_pageFileName f)
      exact Path.fileName?_of_components hcs
  | index output => exact Path.fileName?_of_components (components_index_page output f)

/-! ## 2. Listed documents -/

/-- Whether a document is left out by its name. -/
def IsSkipped (o : Options) (f : MarkdownFile) : Prop :=
  ∃ name, Path.fileName? f.path = some name ∧ name.text ∈ o.skippedFiles

/-- **The listed documents are those right inside the folders that are not excluded.** -/
theorem mem_listed {excluded : List String} (h : contents source excluded t = .ok toc) :
    f ∈ listed toc ↔ ∃ n m : Name, f = ⟨Tree.pathOf [n, m]⟩ ∧ n.text ∉ excluded ∧
      isDocumentName m = true ∧ ∃ c, t.kind? (placeOf source ++ [n, m]) = some (.file c) := by
  obtain ⟨d, hd, rfl⟩ := contents_eq_ok.1 h
  have hdistinct := distinct_of_sourceDirectory hd
  have hat (n m : Name) (c : ByteArray) : t.kind? (placeOf source ++ [n, m]) = some (.file c) ↔
      ∃ i, d.get? n = some (.directory i) ∧ i.get? m = some (.file c) := by
    rw [Tree.kind?_eq_file, at?_source hd, Tree.Directory.at?_cons]
    cases d.get? n with
    | none => simp
    | some e => cases e <;> simp [Tree.Entry.at?, Tree.Directory.at?_singleton]
  simp only [listed, List.mem_flatMap, mem_folders hdistinct, hat]
  constructor
  · rintro ⟨-, ⟨n, i, hn, hexcl, rfl⟩, hf⟩
    rw [folderEntry, List.mem_map] at hf
    obtain ⟨m, hm, rfl⟩ := hf
    obtain ⟨hdoc, c, hc⟩ := (mem_documentNames (hdistinct.get? hn)).1 hm
    exact ⟨n, m, rfl, hexcl, hdoc, c, i, hn, hc⟩
  · rintro ⟨n, m, rfl, hexcl, hdoc, c, i, hn, hc⟩
    exact ⟨_, ⟨n, i, hn, hexcl, rfl⟩, List.mem_map_of_mem
      ((mem_documentNames (hdistinct.get? hn)).2 ⟨hdoc, c, hc⟩)⟩

/-- **A listed document is converted unless it is skipped.** -/
theorem mem_documents_iff_not_isSkipped (htoc : contents source o.allExcluded t = .ok toc)
    (hdocs : documents source o.filter t = .ok docs) (hf : f ∈ listed toc) :
    f ∈ docs ↔ ¬ IsSkipped o f := by
  obtain ⟨n, m, rfl, hexcl, hdoc, hc⟩ := (mem_listed htoc).1 hf
  have hname : Path.fileName? (Tree.pathOf [n, m]) = some m := fileName?_pathOf [n] m
  rw [mem_documents hdocs]
  constructor
  · rintro ⟨r, hr, ⟨q, k, rfl, -, hskip, -⟩, -⟩ ⟨name, hfile, hmem⟩
    rw [hr, fileName?_pathOf] at hfile
    exact hskip (Option.some.inj hfile ▸ hmem)
  · intro hskip
    refine ⟨[n, m], rfl, ⟨[n], m, rfl, hdoc, fun hmem => hskip ⟨m, hname, hmem⟩, ?_⟩, hc⟩
    rintro k hk
    rw [List.mem_singleton.1 hk]
    exact hexcl

/-! ## 3. The navigation of a site -/

/-- What the navigation of a page comes to that stands where `c` says. -/
structure IsNavigated (toc : Toc) (docs : List MarkdownFile) (pages : List String) (t : Tree)
    (page : String) (c : Context) : Prop where
  /-- The page is one with the navigation of the table of contents. -/
  text : ∃ title blocks, t.readBytes page = .ok (Page.pageMarkup c title blocks toc).toUTF8
  /-- Its links are those of the listed documents. -/
  links : references (Page.navigation c toc).toList = (listed toc).map fun f => c.page f.displayName
  /-- Each goes by the name of the page of its document. -/
  named : ∀ f ∈ listed toc, Path.fileName? (c.page f.displayName) = some (pageName f)
  /-- It leads to a page that was written exactly if a document with its title was converted. -/
  leads : c ≠ .index "" → ∀ f ∈ listed toc,
    LeadsToOne page (c.page f.displayName) pages ↔ ∃ g ∈ docs, g.displayName = f.displayName

/-- From where the reference of a document leads to its page, it leads to a page that was written exactly
if a document with its title was converted. -/
theorem leadsToOne_iff {l : Layout} {reference : String}
    (h : placeOf (Path.join (Path.parent page) reference) = placeOf (l.page f)) :
    LeadsToOne page reference (docs.map l.page) ↔ ∃ g ∈ docs, g.displayName = f.displayName := by
  rw [LeadsToOne, h]
  constructor
  · rintro ⟨target, htarget, hplace⟩
    obtain ⟨g, hg, rfl⟩ := List.mem_map.1 htarget
    exact ⟨g, hg, ((placeOf_page_inj l f g).1 hplace).symm⟩
  · rintro ⟨g, hg, hname⟩
    exact ⟨l.page g, List.mem_map_of_mem hg, (placeOf_page_inj l f g).2 hname.symm⟩

/-- Every page of a report is written, and so is the index. -/
theorem IsBuilt.written (h : IsBuilt source o s copied toc docs u report)
    (hpage : page ∈ report.pages ++ report.index.toList) :
    (∃ cs n, Path.components page = cs ++ [.name n]) ∧ s.CanWrite page ∧
      ∃ x ∈ siteFiles source o toc (blocksAt source o.language s) docs, x.1 = placeOf page := by
  rw [h.report, List.mem_append, Option.mem_toList] at hpage
  rcases hpage with hpage | hpage
  · have hpages := pages_addAll {} (Layout.under source o.outputDirectory)
      (blocksAt source o.language s) docs
    obtain ⟨f, hf, rfl⟩ := List.mem_map.1 ((congrArg (page ∈ ·) hpages).mp hpage)
    exact ⟨⟨_, _, components_page _ f⟩, canWrite_page (h.isWritable.targets f hf), _,
      List.mem_append_left _ (mem_pageFiles.2 ⟨f, hf, rfl⟩), by dsimp only⟩
  · obtain ⟨f, hf, rfl⟩ := Option.map_eq_some_iff.1 hpage
    have hne : docs ≠ [] := by
      rintro rfl
      cases hf
    exact ⟨⟨_, indexName, components_indexPath source⟩, canWrite_index (h.isWritable.indexTarget hne),
      _, List.mem_append_right _ (mem_indexFiles.2 ⟨f, hf, rfl⟩), by dsimp only⟩

theorem IsBuilt.isNavigated (h : IsBuilt source o s copied toc docs u report)
    (hpage : page ∈ report.pages ++ report.index.toList) :
    ∃ c ∈ [Context.content, .index o.outputDirectory],
      IsNavigated toc docs report.pages u page c := by
  obtain ⟨⟨cs, n, hcs⟩, hcan, hplace⟩ := h.written hpage
  obtain ⟨front, content, back, hfiles, hback⟩ := Tree.exists_last hplace
  have hread := h.readBytes hcan hfiles hback
  have hmem : (placeOf page, content) ∈
      siteFiles source o toc (blocksAt source o.language s) docs := by
    rw [hfiles]
    simp
  have hparent := placeOf_parent hcs
  have hpages : report.pages = docs.map (Layout.under source o.outputDirectory).page := by
    rw [h.report]
    exact pages_addAll {} _ _ docs
  rw [hpages]
  rcases List.mem_append.1 hmem with hmem | hmem
  · obtain ⟨g, -, hg⟩ := mem_pageFiles.1 hmem
    rw [Prod.mk.injEq] at hg
    obtain ⟨hplace, rfl⟩ := hg
    rw [← hplace, placeOf_page, List.dropLast_concat] at hparent
    refine ⟨.content, List.mem_cons_self, ⟨_, _, hread⟩, Page.references_navigation _ toc,
      fun f _ => fileName?_page _ f, fun _ f _ => leadsToOne_iff ?_⟩
    rw [placeOf_join_congr hparent, placeOf_join_content]
  · obtain ⟨g, -, hg⟩ := mem_indexFiles.1 hmem
    rw [Prod.mk.injEq] at hg
    obtain ⟨hplace, rfl⟩ := hg
    rw [← hplace, placeOf_indexPath, List.dropLast_concat] at hparent
    refine ⟨.index o.outputDirectory, by simp, ⟨_, _, hread⟩, Page.references_navigation _ toc,
      fun f _ => fileName?_page _ f, fun hne f _ => leadsToOne_iff ?_⟩
    rw [placeOf_join_congr hparent, placeOf_join_index (fun he => hne (by rw [he]))]

/-- **The links of the navigation lead to pages that were written**, from every page and from the index,
exactly for the listed documents with the title of one that was converted; these are all but those that
are skipped, and some of those. -/
theorem navigation_leads (h : (build source o).runOn w = (.ok report, v)) :
    ∃ toc docs, contents source o.allExcluded v.tree = .ok toc ∧
      documents source o.filter v.tree = .ok docs ∧
      (∀ f ∈ listed toc, f ∈ docs ↔ ¬ IsSkipped o f) ∧
      ∀ page ∈ report.pages ++ report.index.toList,
        ∃ c ∈ [Context.content, .index o.outputDirectory],
          IsNavigated toc docs report.pages v.tree page c := by
  obtain ⟨-, copied, s, toc, docs, -, -, hbuilt⟩ := of_build h
  exact ⟨toc, docs, contents_again hbuilt, documents_again hbuilt,
    fun f hf => mem_documents_iff_not_isSkipped hbuilt.contents hbuilt.documents hf,
    fun page hpage => hbuilt.isNavigated hpage⟩

/-- What is found in the small site once it is built. -/
theorem found_sample (h : (build "s" sampleOptions).runOn ⟨sampleTree, []⟩ = (.ok report, v)) :
    documents "s" sampleOptions.filter v.tree = .ok sampleDocuments ∧
      contents "s" sampleOptions.allExcluded v.tree =
        contents "s" sampleOptions.allExcluded sampleStaged.tree := by
  obtain ⟨-, copied, s, toc, docs, hstage, -, hbuilt⟩ := of_build h
  rw [stage_sample, Prod.mk.injEq] at hstage
  obtain ⟨-, rfl⟩ := hstage
  have hdocs := documents_again hbuilt
  rw [← hbuilt.documents] at hdocs
  exact ⟨hdocs.trans (documents_sample (by decide +kernel)),
    (contents_again hbuilt).trans hbuilt.contents.symm⟩

/-- In the small site, there is a page with a link that leads to no page: that for the document that is
skipped. -/
theorem navigation_leads_sample : ∃ report v toc page c,
    (build "s" sampleOptions).runOn ⟨sampleTree, []⟩ = (.ok report, v) ∧ page ∈ report.pages ∧
      IsNavigated toc sampleDocuments report.pages v.tree page c ∧
      ∃ f ∈ listed toc, IsSkipped sampleOptions f ∧
        ¬ LeadsToOne page (c.page f.displayName) report.pages := by
  obtain ⟨v, h⟩ := build_sample
  obtain ⟨toc, docs, htoc, hdocs, -, hnavigated⟩ := navigation_leads h
  obtain ⟨hdocs', htoc'⟩ := found_sample h
  rw [hdocs'] at hdocs
  cases hdocs
  rw [htoc'] at htoc
  have hpage : (Layout.under "s" "O").page ⟨"G/a.md"⟩ ∈ (siteReport "s" sampleOptions 1
      (blocksAt "s" sampleOptions.language sampleStaged.tree) sampleDocuments).pages := by
    rw [siteReport, Progress.report, pages_addAll]
    exact List.mem_cons_self
  obtain ⟨c, hc, hpageNavigated⟩ := hnavigated _ (List.mem_append_left _ hpage)
  have hreadme : (⟨"G/Readme.md"⟩ : MarkdownFile) ∈ listed toc := by
    refine (mem_listed htoc).2 ⟨⟨"G", by decide⟩, ⟨"Readme.md", by decide⟩, by decide, by decide,
      by decide, ?_⟩
    have hkind : (sampleStaged.tree.kind? (placeOf "s" ++ [⟨"G", by decide⟩,
        ⟨"Readme.md", by decide⟩])).map Tree.Kind.isDirectory = some false := by decide +kernel
    revert hkind
    cases sampleStaged.tree.kind? (placeOf "s" ++ [⟨"G", by decide⟩, ⟨"Readme.md", by decide⟩]) with
    | none => simp
    | some k => cases k <;> simp [Tree.Kind.isDirectory]
  refine ⟨_, v, toc, _, c, h, hpage, hpageNavigated, _, hreadme,
    ⟨⟨"Readme.md", by decide⟩, by decide, by decide⟩, ?_⟩
  rw [hpageNavigated.leads _ _ hreadme]
  · decide
  · rintro rfl
    revert hc
    decide

end Quire.Site
