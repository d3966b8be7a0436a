import Quire.Proofs.Site.Build

/-!
# Building twice

Once a build has staged its output directory, all that it writes are pages, and a page is neither a
document nor an asset, and no directory (`not_isPagePlace_of_admits`, `not_isPagePlace_of_isAsset`). So a
second build finds everything staged, the same documents that hold the same, and the same table of
contents. It writes the same files in the same order, and **nothing changes** (`rebuild_fixpoint`), as
long as no image pattern takes a page for an image.
-/

namespace Quire.Site

open Quire.Tree (Place placeOf)

variable {source : String} {o : Options} {toc : Toc} {docs : List MarkdownFile} {copied : Nat}
  {report : BuildReport} {s t u : Tree} {p : Place} {path : String} {w v : Workspace}

/-! ## 1. What pages are told from -/

/-- No page is written over an asset. -/
theorem not_isPagePlace_of_isAsset {l : Layout} (h : l.IsAsset p) : ¬ IsPagePlace p := by
  have hassets : ∀ a ∈ assets, Path.IsName a.1 ∧ a.1.toList.getLast? ≠ some 'l' := by decide
  obtain ⟨a, ha, rfl⟩ := h
  obtain ⟨hname, hend⟩ := hassets a ha
  rintro ⟨q, n, hplace, title, hpage⟩
  rw [Layout.asset, Tree.placeOf_join_name l.resources ⟨a.1, hname⟩] at hplace
  have hconcat : (placeOf l.resources).concat ⟨a.1, hname⟩ = q.concat n := by
    rw [List.concat_eq_append, List.concat_eq_append, hplace]
  obtain ⟨-, rfl⟩ := List.concat_inj.1 hconcat
  rw [hpage, List.getLast?_append_of_ne_nil _ (by decide)] at hend
  exact hend (by decide)

/-- Whether a path is written like that of a page. -/
def EndsLikePage (path : String) : Prop :=
  ".html".toList <:+ path.toList

/-- A path that leads to a page is written like that of a page. -/
theorem endsLikePage_of_locate {c : ByteArray} (h : t.locate path = .ok (.file p c))
    (hp : IsPagePlace p) : EndsLikePage path := by
  obtain ⟨-, hslash, ⟨ds, m, hcs, -, -⟩, hplace, -⟩ := Tree.locate_eq_file.1 h
  obtain ⟨q, n, rfl, title, hpage⟩ := hp
  have hconcat : (Tree.placeFrom [] ds).concat m = q.concat n := by
    rw [List.concat_eq_append, List.concat_eq_append, hplace, Tree.placeOf_concat hcs]
  obtain ⟨-, rfl⟩ := List.concat_inj.1 hconcat
  have hsuffix := Path.text_suffix_of_components hcs hslash
  rw [hpage] at hsuffix
  exact (List.suffix_append title _).trans hsuffix

/-! ## 2. What a second build finds -/

section Again

variable (h : IsBuilt source o s copied toc docs u report)

include h

/-- The same documents. -/
theorem documents_again : documents source o.filter u = .ok docs := by
  obtain ⟨d, hd, -⟩ := documents_eq_ok.1 h.documents
  obtain ⟨e, he⟩ := exists_sourceDirectory h.grows.toPersists hd
  rw [← documents_eq hd he fun r hr => ?_]
  · exact h.documents
  · rw [h.grows.kind?_eq (not_isPagePlace_of_admits hr _) id]

/-- The same table of contents. -/
theorem contents_again : contents source o.allExcluded u = .ok toc := by
  obtain ⟨d, hd, -⟩ := documents_eq_ok.1 h.documents
  obtain ⟨e, he⟩ := exists_sourceDirectory h.grows.toPersists hd
  rw [← contents_eq hd he (fun n hn => ?_) fun n m hn hm => ?_]
  · exact h.contents
  · exact ⟨h.grows.directory, fun hk => (h.grows.of_directory hk).resolve_right id⟩
  · have hadmits : (⟨[], []⟩ : Filter).Admits [n, m] := ⟨[n], m, rfl, hm, by simp, by simp⟩
    rw [h.grows.kind?_eq (not_isPagePlace_of_admits hadmits _) id]

/-- Documents that hold the same, and pages and an index that can be written. -/
theorem isWritable_again (hsource : s.HasMade source) :
    IsWritable source o (blocksAt source o.language s) docs u := by
  have hfills := h.grows.fills
  exact
    { read := fun f hf => by
        rw [blocksOf_eq_of_grows hsource h.documents h.grows hf, h.isWritable.read f hf]
      parents := h.isWritable.parents
      targets := fun f hf => hfills.canWrite_iff.2 (h.isWritable.targets f hf)
      indexParents := h.isWritable.indexParents
      indexTarget := fun hne => hfills.canWrite_iff.2 (h.isWritable.indexTarget hne) }

/-- **The same site, written again, changes nothing.** -/
theorem putFiles_again :
    u.putFiles (siteFiles source o toc (blocksAt source o.language s) docs) = u := by
  have hopen := h.isWritable.isOpen_siteFiles toc
  refine Tree.putFiles_self fun front p c back hl hback => ?_
  rw [h.tree, hl]
  exact Tree.kind?_putFiles (hl ▸ hopen) hback

end Again

/-! ## 3. The fixpoint -/

/-- **A build straight after a build changes nothing and reports the same, with no image copied**, as
long as no image pattern finds a path that is written like that of a page. -/
theorem rebuild_fixpoint (h : (build source o).runOn w = (.ok report, v))
    (hpatterns : ∀ path, IsMatched source o.imagePatterns v.tree path → ¬ EndsLikePage path) :
    ∃ v', (build source o).runOn v = (.ok { report with imagesCopied := 0 }, v') ∧
      v'.tree = v.tree := by
  obtain ⟨-, copied, s, toc, docs, hstage, hsource, hbuilt⟩ := of_build h
  have hgrows := hbuilt.grows
  have hfills := hgrows.fills
  have hstaged : IsStaged source (Layout.under source o.outputDirectory) o.imagePatterns v.tree := by
    refine isStaged_of_stage hstage hfills
      (fun p hp => hgrows.kind?_eq (not_isPagePlace_of_isAsset hp) id) fun path hpath hfile => ?_
    obtain ⟨p, c, hl⟩ := Tree.hasFile_iff.1 hfile
    obtain ⟨-, -, -, -, hat⟩ := Tree.locate_eq_file.1 hl
    rcases hgrows.of_file (Tree.kind?_eq_file.2 hat) with hold | hpage
    · exact Tree.hasFile_iff.2 ⟨p, c, hfills.locate_file_of_kind? hl hold⟩
    · exact absurd (endsLikePage_of_locate hl hpage) (hpatterns path hpath)
  obtain ⟨d, hd, -⟩ := documents_eq_ok.1 (documents_again hbuilt)
  obtain ⟨v', hrun, htree⟩ := gives_build hd hstaged (contents_again hbuilt)
    (documents_again hbuilt) (isWritable_again hbuilt hsource) v rfl
  rw [putFiles_again hbuilt] at htree
  refine ⟨v', ?_, htree⟩
  rw [hrun, hbuilt.report]
  rfl

/-- The small site, built twice: its image is copied once. -/
theorem rebuild_fixpoint_sample : ∃ report v v',
    (build "s" sampleOptions).runOn ⟨sampleTree, []⟩ = (.ok report, v) ∧ report.imagesCopied = 1 ∧
      (∀ path, IsMatched "s" sampleOptions.imagePatterns v.tree path → ¬ EndsLikePage path) ∧
      (build "s" sampleOptions).runOn v = (.ok { report with imagesCopied := 0 }, v') ∧
      v'.tree = v.tree := by
  obtain ⟨v, h⟩ := build_sample
  have hpattern : (Glob.Pattern.ofString (Path.join "s" "G/a.png")).toOption =
      some ⟨["s", "G", "a.png"].map .literal, false⟩ := by decide +kernel
  have hmatched (path : String) (hpath : IsMatched "s" sampleOptions.imagePatterns v.tree path) :
      ¬ EndsLikePage path := by
    obtain ⟨pattern, hmem, p, hp, hpath⟩ := hpath
    rw [List.mem_singleton.1 hmem] at hp
    rw [hp] at hpattern
    rw [Option.some.inj hpattern, Glob.mem_paths] at hpath
    obtain ⟨q, hq, hfinds⟩ := hpath
    rw [Glob.eq_of_finds_literals hq hfinds, EndsLikePage]
    decide +kernel
  obtain ⟨v', hagain, htree⟩ := rebuild_fixpoint h hmatched
  exact ⟨_, v, v', h, rfl, hmatched, hagain, htree⟩

end Quire.Site
