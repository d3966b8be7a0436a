import Quire.Proofs.Site.Navigation
import Quire.Proofs.Site.Output

/-!
# The output directory as input

What a build writes must not be read again by the next one, so the scan leaves out the output directory.
It goes by names, though: a directory is left out if one of the names that lead to it is in the list of
those excluded, and this list has the output directory as it was written in the options. So **the output
directory is left out if it is written as a name, and read like any other if it is not**
(`build_reads_output`): written with a slash last, from a dot on, or as a way through several
directories, it is no name, and is left out only if one of the names on the way is excluded in its own
right.
-/

namespace Quire.Site

open Quire.Page (Context)
open Quire.Path (Name)
open Quire.Tree (Place pathOf placeOf)

variable {source : String} {o : Options} {q r : Place} {toc : Toc} {docs : List MarkdownFile}
  {report : BuildReport} {t : Tree} {w v : Workspace}

/-! ## 1. Names on the way -/

theorem mem_allExcluded_iff {text : String} :
    text ∈ o.allExcluded ↔ text ∈ o.excludedDirectories ∨ text = o.outputDirectory := by
  rw [Options.allExcluded]
  split
  · rename_i h
    refine ⟨.inl, ?_⟩
    rintro (hmem | rfl)
    · exact hmem
    · exact List.contains_iff_mem.1 h
  · rw [List.mem_append, List.mem_singleton]

/-- Whether a scan passes by the directory that some names lead to. -/
def Options.PassesBy (o : Options) (q : Place) : Prop :=
  ∃ n ∈ q, n.text ∈ o.allExcluded

/-- A document below a directory is admitted if the scan does not pass by the directory, and admits it
there. -/
theorem admits_append (hr : r ≠ []) :
    o.filter.Admits (q ++ r) ↔ ¬ o.PassesBy q ∧ o.filter.Admits r := by
  induction q with
  | nil => simp [Options.PassesBy]
  | cons n ns ih =>
      have hcons : o.PassesBy (n :: ns) ↔ n.text ∈ o.allExcluded ∨ o.PassesBy ns := by
        simp only [Options.PassesBy, List.mem_cons, exists_eq_or_imp]
      have hbelow : o.filter.Admits (n :: (ns ++ r)) ↔
          n.text ∉ o.allExcluded ∧ o.filter.Admits (ns ++ r) := Filter.admits_cons (by simp [hr])
      rw [List.cons_append, hbelow, ih, hcons, not_or, and_assoc]

/-- **An output directory that is written as a name is passed by.** -/
theorem passesBy_of_isName (h : Path.IsName o.outputDirectory)
    (hq : placeOf (Layout.under source o.outputDirectory).root = placeOf source ++ q) :
    o.PassesBy q := by
  rw [placeOf_root h, List.append_cancel_left_eq] at hq
  exact ⟨⟨o.outputDirectory, h⟩, hq ▸ List.mem_singleton_self _, mem_allExcluded o⟩

/-- **Written in any other way, it is passed by only for another reason.** -/
theorem passesBy_iff_of_not_isName (h : ¬ Path.IsName o.outputDirectory) :
    o.PassesBy q ↔ ∃ n ∈ q, n.text ∈ o.excludedDirectories := by
  refine exists_congr fun n => and_congr_right fun _ => ?_
  rw [mem_allExcluded_iff]
  refine ⟨fun hn => hn.resolve_right fun he => h (he ▸ n.isName), .inl⟩

/-! ## 2. What a scan finds in the output directory -/

/-- What documents and contents have to do with a directory under the source that some names lead to. -/
structure Reads (source : String) (o : Options) (t : Tree) (toc : Toc) (docs : List MarkdownFile)
    (q : Place) : Prop where
  /-- The documents that lie in it are those that are admitted there, if the scan does not pass by it. -/
  documents : ∀ f, f ∈ docs ∧ q <+: placeOf f.path ↔
    ¬ o.PassesBy q ∧ ∃ r, f = ⟨pathOf (q ++ r)⟩ ∧ o.filter.Admits r ∧
      ∃ c, t.kind? (placeOf source ++ (q ++ r)) = some (.file c)
  /-- It is listed, right inside the source, if the scan does not pass by it. -/
  folder : ∀ n, q = [n] → ((∃ files, (n.text, files) ∈ toc.folders) ↔ ¬ o.PassesBy q)

theorem reads_of_directory (htoc : contents source o.allExcluded t = .ok toc)
    (hdocs : documents source o.filter t = .ok docs)
    (hdir : t.kind? (placeOf source ++ q) = some .directory) : Reads source o t toc docs q where
  documents f := by
    rw [mem_documents hdocs]
    constructor
    · rintro ⟨⟨p, rfl, hadmits, c, hc⟩, hpre⟩
      rw [Tree.placeOf_pathOf] at hpre
      obtain ⟨r, rfl⟩ := hpre
      have hr : r ≠ [] := by
        rintro rfl
        rw [List.append_nil, hdir] at hc
        cases hc
      obtain ⟨hpass, hadmits⟩ := (admits_append hr).1 hadmits
      exact ⟨hpass, r, rfl, hadmits, c, hc⟩
    · rintro ⟨hpass, r, rfl, hadmits, hc⟩
      rw [Tree.placeOf_pathOf]
      exact ⟨⟨q ++ r, rfl, (admits_append (Filter.ne_nil_of_admits hadmits)).2 ⟨hpass, hadmits⟩, hc⟩,
        List.prefix_append q r⟩
  folder n hn := by
    obtain ⟨d, hd, rfl⟩ := contents_eq_ok.1 htoc
    have hpass : o.PassesBy q ↔ n.text ∈ o.allExcluded := by
      rw [hn]
      simp [Options.PassesBy]
    rw [hpass]
    constructor
    · rintro ⟨files, hmem⟩
      obtain ⟨m, i, -, hexcl, hentry⟩ := (mem_folders (distinct_of_sourceDirectory hd)).1 hmem
      have htext : n.text = m.text := congrArg Prod.fst hentry
      rwa [htext]
    · intro hexcl
      obtain ⟨i, hi⟩ := Tree.kind?_eq_directory.1 hdir
      rw [at?_source hd, hn, Tree.Directory.at?_singleton] at hi
      exact ⟨_, (mem_folders (distinct_of_sourceDirectory hd)).2 ⟨n, i, hi, hexcl, rfl⟩⟩

/-! ## 3. What a build reads of it -/

/-- The output directory is there once it is staged. -/
theorem kind?_root_of_stage {n : Nat} {patterns : List String}
    (h : (stage source (Layout.under source o.outputDirectory) patterns).runOn w = (.ok n, v)) :
    v.tree.kind? (placeOf (Layout.under source o.outputDirectory).root) = some .directory := by
  have hcontent := (hasMade_content_of_stage h).kind?
  rw [placeOf_content] at hcontent
  exact Tree.kind?_of_append (List.cons_ne_nil _ _) (by rw [hcontent]; simp)

/-- **A build reads the output directory like any other, unless the scan passes by it**, as it does if the
output directory is written as a name. -/
theorem build_reads_output (h : (build source o).runOn w = (.ok report, v))
    (hq : placeOf (Layout.under source o.outputDirectory).root = placeOf source ++ q) :
    ∃ toc docs, contents source o.allExcluded v.tree = .ok toc ∧
      documents source o.filter v.tree = .ok docs ∧
      report.pages = docs.map (Layout.under source o.outputDirectory).page ∧
      (∀ page ∈ report.pages ++ report.index.toList,
        ∃ c ∈ [Context.content, .index o.outputDirectory],
          IsNavigated toc docs report.pages v.tree page c) ∧
      Reads source o v.tree toc docs q ∧
      (Path.IsName o.outputDirectory → o.PassesBy q) ∧
      (¬ Path.IsName o.outputDirectory →
        (o.PassesBy q ↔ ∃ n ∈ q, n.text ∈ o.excludedDirectories)) := by
  obtain ⟨-, copied, s, toc, docs, hstage, -, hbuilt⟩ := of_build h
  have hroot := hbuilt.grows.directory (kind?_root_of_stage hstage)
  rw [hq] at hroot
  refine ⟨toc, docs, contents_again hbuilt, documents_again hbuilt, ?_,
    fun page hpage => hbuilt.isNavigated hpage,
    reads_of_directory (contents_again hbuilt) (documents_again hbuilt) hroot,
    fun hname => passesBy_of_isName hname hq, passesBy_iff_of_not_isName⟩
  rw [hbuilt.report]
  exact pages_addAll {} _ _ docs

/-! ## 4. A directory written with a slash -/

/-- Options with the output directory written with a slash last. -/
def slashedOptions : Options :=
  { outputDirectory := "O/", imagePatterns := [] }

/-- A source with one document, in the directory that the output goes to. -/
def slashedTree : Tree :=
  ((Tree.empty.putDirectory (placeOf "s")).putDirectory (placeOf "s/O")).putFile (placeOf "s/O/x.md")
    "x".toUTF8

/-- The workspace once the output directory is staged. -/
def slashedStaged : Workspace :=
  ((stage "s" (Layout.under "s" "O/") []).runOn ⟨slashedTree, []⟩).2

theorem stage_slashed :
    (stage "s" (Layout.under "s" "O/") []).runOn ⟨slashedTree, []⟩ = (.ok 0, slashedStaged) := by
  rw [slashedStaged]
  exact Action.runOn_eq_of_toOption (by decide +kernel)

theorem documents_slashed {t : Tree}
    (h : (sourceDirectory "s" t).toOption.map (slashedOptions.filter.collect []) =
      some [[⟨"O", by decide⟩, ⟨"x.md", by decide⟩]]) :
    documents "s" slashedOptions.filter t = .ok [⟨"O/x.md"⟩] := by
  rw [documents_of_collect h (by decide)]
  decide

theorem isWritable_slashed : IsWritable "s" slashedOptions
    (blocksAt "s" slashedOptions.language slashedStaged.tree) [⟨"O/x.md"⟩] slashedStaged.tree :=
  isWritable_of_isSome (by decide +kernel) (by decide +kernel) (by decide +kernel)
    (by decide +kernel) (by decide +kernel)

/-- What is found once the site is built. -/
theorem found_slashed (h : (build "s" slashedOptions).runOn ⟨slashedTree, []⟩ = (.ok report, v)) :
    documents "s" slashedOptions.filter v.tree = .ok [⟨"O/x.md"⟩] := by
  obtain ⟨-, copied, s, toc, docs, hstage, -, hbuilt⟩ := of_build h
  have hstaged : (stage "s" (Layout.under "s" "O/") []).runOn ⟨slashedTree, []⟩ = (.ok copied, s) :=
    hstage
  rw [stage_slashed, Prod.mk.injEq] at hstaged
  obtain ⟨-, rfl⟩ := hstaged
  rw [documents_again hbuilt, ← hbuilt.documents]
  exact documents_slashed (by decide +kernel)

/-- The document in the output directory is converted, and the directory is listed. -/
theorem build_reads_output_slashed : ∃ report v toc,
    (build "s" slashedOptions).runOn ⟨slashedTree, []⟩ = (.ok report, v) ∧
      contents "s" slashedOptions.allExcluded v.tree = .ok toc ∧
      report.pages = ["s/O/Content/x.html"] ∧ ∃ files, ("O", files) ∈ toc.folders := by
  have hold : documents "s" slashedOptions.filter slashedTree = .ok [⟨"O/x.md"⟩] :=
    documents_slashed (by decide +kernel)
  have hdocs : documents "s" slashedOptions.filter slashedStaged.tree = .ok [⟨"O/x.md"⟩] :=
    documents_slashed (by decide +kernel)
  obtain ⟨d, hd, -⟩ := documents_eq_ok.1 hold
  obtain ⟨e, he, -⟩ := documents_eq_ok.1 hdocs
  obtain ⟨v, h, -⟩ := run_build (o := slashedOptions) hd stage_slashed
    (contents_eq_ok.2 ⟨e, he, rfl⟩) hdocs isWritable_slashed
  have hroot : placeOf (Layout.under "s" slashedOptions.outputDirectory).root =
      placeOf "s" ++ [⟨"O", by decide⟩] := by decide
  obtain ⟨toc, docs, htoc, hfound, hpages, -, hreads, -, hpasses⟩ := build_reads_output h hroot
  rw [found_slashed h, Except.ok.injEq] at hfound
  rw [← hfound] at hpages
  have hpass : ¬ slashedOptions.PassesBy [⟨"O", by decide⟩] := by
    rw [hpasses (by decide)]
    decide
  refine ⟨_, v, toc, h, htoc, hpages.trans ?_, (hreads.folder _ rfl).2 hpass⟩
  decide

end Quire.Site
