import Mathlib.Data.Finset.Card
import Quire.Proofs.Site.Build
import Quire.Proofs.Site.Output

/-!
# What a build reports

Pages go by the names of documents alone, so a later document replaces the page of an earlier one. The
report has **each replaced document once for each time it is replaced** (`overwritten_addAll`), which
makes as many as there are documents, less the names of their pages (`length_replaced`).

Where the output directory has one plain name, staging is not seen and the index is no content page.
Then the report and the pages that are written can be told from the tree that the build was started on
(`build_accounts`): **every document has its page in the report, every page holds what its last document
comes to, and the index what the very last one does.**
-/

namespace Quire.Site

open Quire.Document (Block)
open Quire.Path (IsName)
open Quire.Tree (placeOf)

variable {source : String} {o : Options} {toc : Toc} {docs : List MarkdownFile} {copied : Nat}
  {report : BuildReport} {f g : MarkdownFile} {blocks : MarkdownFile → List Block} {s t u : Tree}
  {w v : Workspace}

/-! ## 1. Replaced documents -/

/-- For each document whose page has the name of that of an earlier one, the latest such. -/
def replaced (docs : List MarkdownFile) : List MarkdownFile :=
  docs.zipIdx.filterMap fun (f, i) =>
    (docs.take i).reverse.find? fun g => g.pageFileName == f.pageFileName

theorem replaced_concat (docs : List MarkdownFile) (f : MarkdownFile) :
    replaced (docs ++ [f]) =
      replaced docs ++ (docs.reverse.find? fun g => g.pageFileName == f.pageFileName).toList := by
  rw [replaced, List.zipIdx_append, List.filterMap_append]
  congr 1
  · refine List.filterMap_congr fun ⟨g, i⟩ hmem => ?_
    have hi := List.snd_lt_of_mem_zipIdx hmem
    dsimp only
    rw [List.take_append_of_le_length (by omega)]
  · rw [List.zipIdx_singleton, Nat.zero_add, List.filterMap_cons]
    dsimp only
    rw [List.take_left]
    cases docs.reverse.find? _ <;> rfl

theorem overwritten_addAll (l : Layout) (blocks : MarkdownFile → List Block)
    (docs : List MarkdownFile) :
    (({} : Progress).addAll l blocks docs).overwritten = (replaced docs).map (·.path) := by
  induction docs using List.reverseRecOn with
  | nil => rfl
  | append_singleton docs f ih =>
      have hwritten := written_addAll {} l blocks docs
      rw [List.append_nil] at hwritten
      rw [replaced_concat, List.map_append, ← ih, Progress.addAll, List.foldl_append]
      show _ ++ (((({} : Progress).addAll l blocks docs).writer? f.pageFileName).map _).toList = _
      rw [Progress.writer?, hwritten]
      cases docs.reverse.find? _ <;> rfl

/-- **As many documents are replaced as there are, less the names of their pages.** -/
theorem length_replaced (docs : List MarkdownFile) :
    (replaced docs).length + (docs.map (·.pageFileName)).toFinset.card = docs.length := by
  induction docs using List.reverseRecOn with
  | nil => rfl
  | append_singleton docs f ih =>
      rw [replaced_concat, List.map_append, List.toFinset_append, List.length_append,
        List.length_append, List.map_singleton, List.toFinset_cons, List.toFinset_nil,
        Finset.union_comm, Finset.insert_union, Finset.empty_union]
      cases hfind : docs.reverse.find? fun g => g.pageFileName == f.pageFileName with
      | some g =>
          have hmem : f.pageFileName ∈ (docs.map (·.pageFileName)).toFinset := by
            have hname := List.find?_some hfind
            rw [beq_iff_eq] at hname
            rw [List.mem_toFinset, ← hname]
            exact List.mem_map_of_mem (List.mem_reverse.1 (List.mem_of_find?_eq_some hfind))
          rw [Finset.insert_eq_of_mem hmem, Option.toList_some, List.length_singleton,
            List.length_singleton]
          omega
      | none =>
          have hmem : f.pageFileName ∉ (docs.map (·.pageFileName)).toFinset := by
            rw [List.mem_toFinset, List.mem_map]
            rintro ⟨g, hg, hname⟩
            have hno := List.find?_eq_none.1 hfind g (List.mem_reverse.2 hg)
            rw [beq_iff_eq] at hno
            exact hno hname
          rw [Finset.card_insert_of_notMem hmem, Option.toList_none, List.length_nil,
            List.length_singleton]
          omega

theorem replaced_eq_nil_iff : replaced docs = [] ↔ (docs.map (·.pageFileName)).Nodup := by
  have hlength := length_replaced docs
  have hcard := Multiset.toFinset_card_eq_card_iff_nodup
    (m := (docs.map (·.pageFileName) : Multiset String))
  rw [Multiset.coe_nodup, Multiset.coe_card, List.length_map] at hcard
  rw [← List.length_eq_zero_iff, ← hcard]
  change _ + Finset.card (docs.map (·.pageFileName)).toFinset = _ at hlength
  show _ ↔ Finset.card (docs.map (·.pageFileName)).toFinset = _
  omega

/-- The page of a document has the name of that of another exactly if the documents have one name. -/
theorem pageFileName_eq_iff {filter : Filter} (h : documents source filter t = .ok docs)
    (hf : f ∈ docs) (hg : g ∈ docs) :
    f.pageFileName = g.pageFileName ↔ Path.fileName? f.path = Path.fileName? g.path := by
  obtain ⟨-, rfl, ⟨p, n, rfl, hn, -, -⟩, -⟩ := (mem_documents h).1 hf
  obtain ⟨-, rfl, ⟨q, m, rfl, hm, -, -⟩, -⟩ := (mem_documents h).1 hg
  rw [MarkdownFile.pageFileName, MarkdownFile.pageFileName, displayName_pathOf, displayName_pathOf,
    fileName?_pathOf, fileName?_pathOf, pageFile_injective.eq_iff, Option.some.injEq]
  constructor
  · intro hstem
    apply Path.Name.ext
    rw [← String.toList_inj, text_of_isDocumentName hn, text_of_isDocumentName hm, hstem]
  · rintro rfl
    rfl

/-- **No document is replaced exactly if no two have one name.** -/
theorem replaced_eq_nil_iff_nodup {filter : Filter} (h : documents source filter t = .ok docs) :
    replaced docs = [] ↔ (docs.map fun f => Path.fileName? f.path).Nodup := by
  rw [replaced_eq_nil_iff, List.nodup_map_iff_inj_on (nodup_documents h),
    List.nodup_map_iff_inj_on (nodup_documents h)]
  exact forall₂_congr fun f hf => forall₂_congr fun g hg => by rw [pageFileName_eq_iff h hf hg]

/-! ## 2. The account -/

/-- How a report and the tree `u` that a build left account for documents, with their table of contents
and their blocks, in the tree `t` that it was started on. -/
structure Accounts (source : String) (o : Options) (toc : Toc) (docs : List MarkdownFile)
    (blocks : MarkdownFile → List Block) (report : BuildReport) (t u : Tree) : Prop where
  /-- Every document has its page in the report, in order. -/
  pages : report.pages = docs.map (Layout.under source o.outputDirectory).page
  /-- Each document that is replaced is in the report, in the order of those that replace it. -/
  overwritten : report.overwritten = (replaced docs).map (·.path)
  /-- These are as many as there are documents, less the names of their pages. -/
  length : report.overwritten.length + (docs.map (·.pageFileName)).toFinset.card = docs.length
  /-- There are none exactly if no two documents have one name. -/
  unique : report.overwritten = [] ↔ (docs.map fun f => Path.fileName? f.path).Nodup
  /-- Every content page holds what the last document with its name comes to. -/
  page : ∀ front f back, docs = front ++ f :: back →
    (∀ g ∈ back, g.pageFileName ≠ f.pageFileName) →
    u.readBytes ((Layout.under source o.outputDirectory).page f) =
      .ok (contentPage toc f (blocks f)).toUTF8
  /-- The index is in the report exactly if there is a document. -/
  index : report.index = if docs = [] then none else some (indexPath source)
  /-- It holds what the last document comes to. -/
  last : ∀ f ∈ docs.getLast?, u.readBytes (indexPath source) =
    .ok (indexPage o.outputDirectory toc f (blocks f)).toUTF8
  /-- Without documents it is not written. -/
  none : docs = [] → ∀ c, u.kind? (placeOf (indexPath source)) = some (.file c) ↔
    t.kind? (placeOf (indexPath source)) = some (.file c)

/-- The index has no place of a content page, where the output directory has one plain name. -/
theorem placeOf_indexPath_ne (hout : IsName o.outputDirectory) (f : MarkdownFile) :
    placeOf (indexPath source) ≠ placeOf ((Layout.under source o.outputDirectory).page f) := by
  rw [placeOf_indexPath, placeOf_page, placeOf_content, placeOf_root hout]
  intro h
  have hlength := congrArg List.length h
  simp at hlength

section IsBuilt

variable (h : IsBuilt source o s copied toc docs u report)

include h

theorem IsBuilt.overwritten : report.overwritten = (replaced docs).map (·.path) := by
  rw [h.report]
  exact overwritten_addAll _ _ docs

/-- A page holds what was written to it last. -/
theorem IsBuilt.readBytes_page (hout : IsName o.outputDirectory) {front back : List MarkdownFile}
    (hdocs : docs = front ++ f :: back) (hback : ∀ g ∈ back, g.pageFileName ≠ f.pageFileName) :
    u.readBytes ((Layout.under source o.outputDirectory).page f) =
      .ok (contentPage toc f (blocksAt source o.language s f)).toUTF8 := by
  have hf : f ∈ docs := by simp [hdocs]
  have hpages := pageFiles_append (Layout.under source o.outputDirectory) toc
    (blocksAt source o.language s) front (f :: back)
  rw [← hdocs, pageFiles_cons] at hpages
  have hfiles : siteFiles source o toc (blocksAt source o.language s) docs = _ :=
    congrArg (· ++ indexFiles source o toc (blocksAt source o.language s) docs) hpages
  rw [List.append_assoc, List.cons_append] at hfiles
  refine h.readBytes (canWrite_page (h.isWritable.targets f hf)) hfiles fun x hx => ?_
  rcases List.mem_append.1 hx with hx | hx
  · obtain ⟨g, hg, hplace⟩ := exists_of_mem_pageFiles hx
    rw [hplace, Ne, placeOf_page_inj]
    exact fun hname => hback g hg (congrArg MarkdownFile.pageFile hname)
  · obtain ⟨g, -, rfl⟩ := mem_indexFiles.1 hx
    exact placeOf_indexPath_ne hout f

/-- The index is written after all pages. -/
theorem IsBuilt.readBytes_indexPath (hf : f ∈ docs.getLast?) : u.readBytes (indexPath source) =
    .ok (indexPage o.outputDirectory toc f (blocksAt source o.language s f)).toUTF8 := by
  have hne : docs ≠ [] := by
    rintro rfl
    cases hf
  have hfiles : siteFiles source o toc (blocksAt source o.language s) docs =
      pageFiles (Layout.under source o.outputDirectory) toc (blocksAt source o.language s) docs ++
        [(placeOf (indexPath source),
          (indexPage o.outputDirectory toc f (blocksAt source o.language s f)).toUTF8)] := by
    rw [siteFiles, indexFiles, Option.mem_def.1 hf]
    rfl
  exact h.readBytes (canWrite_index (h.isWritable.indexTarget hne)) hfiles (by simp)

theorem IsBuilt.index : report.index = if docs = [] then none else some (indexPath source) := by
  rw [h.report]
  show docs.getLast?.map _ = _
  split
  · rename_i hnil
    rw [hnil]
    rfl
  · rename_i hne
    rw [List.getLast?_eq_some_getLast hne]
    rfl

/-- The place of the index is not inside of the output directory, so staging leaves it alone. -/
theorem IsBuilt.kind?_indexPath (hout : IsName o.outputDirectory) (hdocs : docs = [])
    (houtputs : Outputs source o.outputDirectory t s)
    (hroot : s.kind? (placeOf (Layout.under source o.outputDirectory).root) = some .directory)
    (c : ByteArray) : u.kind? (placeOf (indexPath source)) = some (.file c) ↔
      t.kind? (placeOf (indexPath source)) = some (.file c) := by
  have hsame : u = s := by
    rw [h.tree, hdocs]
    rfl
  rw [hsame]
  refine file_iff_of_outputs houtputs hroot fun hinside => ?_
  rw [IsInside, placeOf_root hout, placeOf_indexPath] at hinside
  rw [placeOf_root hout, placeOf_indexPath]
  exact (hinside.eq_of_length (by simp)).symm

theorem IsBuilt.accounts (hout : IsName o.outputDirectory)
    (houtputs : Outputs source o.outputDirectory t s)
    (hroot : s.kind? (placeOf (Layout.under source o.outputDirectory).root) = some .directory) :
    Accounts source o toc docs (blocksAt source o.language s) report t u where
  pages := by
    rw [h.report]
    exact pages_addAll {} _ _ docs
  overwritten := h.overwritten
  length := by
    rw [h.overwritten, List.length_map]
    exact length_replaced docs
  unique := by
    rw [h.overwritten, List.map_eq_nil_iff]
    exact replaced_eq_nil_iff_nodup h.documents
  page _ _ _ := h.readBytes_page hout
  index := h.index
  last _ := h.readBytes_indexPath
  none hdocs := h.kind?_indexPath hout hdocs houtputs hroot

end IsBuilt

/-- **A build accounts for every document and every replaced page**, where the output directory has one
plain name. -/
theorem build_accounts (hout : IsName o.outputDirectory)
    (h : (build source o).runOn w = (.ok report, v)) :
    ∃ toc docs blocks, contents source o.allExcluded w.tree = .ok toc ∧
      documents source o.filter w.tree = .ok docs ∧
      (∀ f ∈ docs, blocksOf source o.language w.tree f = .ok (blocks f)) ∧
      Accounts source o toc docs blocks report w.tree v.tree := by
  obtain ⟨⟨d, hd⟩, copied, s, toc, docs, hstage, hsource, hbuilt⟩ := of_build h
  have houtputs : Outputs source o.outputDirectory w.tree s.tree := by
    obtain ⟨t, hgrows, hstages⟩ := exists_stage source (Layout.under source o.outputDirectory)
      o.imagePatterns w
    rw [hstage] at hstages
    exact outputs_stage hout (sourceDirectory_eq_ok.1 hd).1 hgrows hstages
  have hroot : s.tree.kind? (placeOf (Layout.under source o.outputDirectory).root) =
      some .directory := by
    have hcontent := (hasMade_content_of_stage hstage).kind?
    rw [placeOf_content] at hcontent
    exact Tree.kind?_of_append (List.cons_ne_nil _ _) (by rw [hcontent]; simp)
  have hexcl := mem_allExcluded o
  have hdocs := documents_eq_of_outputs (f := o.filter) hout hd houtputs hroot hexcl
  rw [hbuilt.documents] at hdocs
  refine ⟨toc, docs, blocksAt source o.language s.tree, ?_, hdocs.symm, fun f hf => ?_,
    hbuilt.accounts hout houtputs hroot⟩
  · rw [← contents_eq_of_outputs hout hd houtputs hexcl, hbuilt.contents]
  · rw [← blocksOf_eq_of_outputs hout hd houtputs hroot hexcl hdocs.symm hf,
      hbuilt.isWritable.read f hf]

/-- In the small site, the second document of a name replaces the first. -/
theorem build_accounts_sample : IsName sampleOptions.outputDirectory ∧ ∃ report v toc blocks,
    (build "s" sampleOptions).runOn ⟨sampleTree, []⟩ = (.ok report, v) ∧
      Accounts "s" sampleOptions toc sampleDocuments blocks report sampleTree v.tree ∧
      report.overwritten = ["G/a.md"] := by
  have hout : IsName sampleOptions.outputDirectory := by decide
  obtain ⟨v, h⟩ := build_sample
  obtain ⟨toc, docs, blocks, -, hdocs, -, haccounts⟩ := build_accounts hout h
  have hsample : documents "s" sampleOptions.filter sampleTree = .ok sampleDocuments :=
    documents_sample (by decide +kernel)
  rw [hsample] at hdocs
  cases hdocs
  refine ⟨hout, _, v, toc, blocks, h, haccounts, ?_⟩
  rw [haccounts.overwritten]
  decide +kernel

end Quire.Site
