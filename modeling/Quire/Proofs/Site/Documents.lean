import Quire.Proofs.Site.Pages

/-!
# Which documents are found

A name is that of a document if it ends in `.md` and has something before that
(`isDocumentName_iff`). **Every file with such a name is found once and in order, unless its own name
is skipped or it lies under a directory with an excluded one** (`documents_found`); directories with
such names are not. The order in which the entries of directories are listed makes no difference.
-/

namespace Quire.Site

open Quire.Path (Name)
open Quire.Tree (Place pathOf placeOf)

variable {root : String} {t u : Tree} {f : Filter}

/-! ## 1. Names -/

/-- **Documents are told by the end of their names, with something before it.** -/
theorem isDocumentName_iff {n : Name} :
    isDocumentName n = true ↔ ∃ stem, stem ≠ "" ∧ n.text = stem ++ ".md" := by
  constructor
  · intro h
    have htext := text_of_isDocumentName h
    refine ⟨n.stem, fun hstem => ?_, String.toList_injective ?_⟩
    · rw [hstem] at htext
      obtain rfl : n = ⟨".md", by decide⟩ := Path.Name.ext (String.toList_injective htext)
      exact absurd h (by decide)
    · rw [String.toList_append, htext]
  · rintro ⟨stem, hstem, htext⟩
    have hreversed : n.text.toList.reverse = 'd' :: 'm' :: '.' :: stem.toList.reverse := by
      rw [htext, String.toList_append, List.reverse_append]
      rfl
    obtain ⟨c, cs, hcs⟩ := List.exists_cons_of_ne_nil (l := stem.toList.reverse)
      (by simpa using hstem)
    rw [isDocumentName, Name.extension?, hreversed, hcs]
    rfl

/-! ## 2. Order -/

theorem lt_pathOf {p q : Place} :
    Path.lt (pathOf p) (pathOf q) = placeLt p q := by
  rw [Path.lt, Path.components_pathOf, Path.components_pathOf, placeLt]

theorem MarkdownFile.lt_of_placeLt {p q : Place} (h : PlaceLt p q) :
    MarkdownFile.lt ⟨pathOf p⟩ ⟨pathOf q⟩ = true := by
  rw [MarkdownFile.lt, lt_pathOf, placeLt_iff.2 h, Bool.true_or]

/-! ## 3. Documents -/

theorem sourceDirectory_of_hasDirectory (h : t.hasDirectory root = true) :
    ∃ d, sourceDirectory root t = .ok d := by
  obtain ⟨d, hd⟩ := Option.isSome_iff_exists.1 h
  exact ⟨d, by rw [sourceDirectory, hd]⟩

theorem persists_of_relisted (h : t.top.Relisted u.top) : Tree.Persists t u where
  directory hp := (Tree.kind?_of_relisted h _).trans hp
  file hp := ⟨_, (Tree.kind?_of_relisted h _).trans hp⟩

/-- **The order of listing makes no difference to what is found.** -/
theorem documents_of_relisted (h : t.top.Relisted u.top) (ht : t.hasDirectory root = true) :
    documents root f u = documents root f t := by
  obtain ⟨d, hd⟩ := sourceDirectory_of_hasDirectory ht
  obtain ⟨e, he⟩ := exists_sourceDirectory (persists_of_relisted h) hd
  refine documents_eq he hd fun r _ => ?_
  rw [Tree.kind?_of_relisted h]

/-- **Exactly the files with the names of documents are found that are not left out, each once, by
its path from the source directory, and in the order of these paths.** -/
theorem documents_found (h : t.hasDirectory root = true) (f : Filter) :
    ∃ places : List Place,
      documents root f t = .ok (places.map fun p => ⟨pathOf p⟩) ∧
      (∀ p, p ∈ places ↔ ∃ q n, p = q ++ [n] ∧
        (∃ c, t.kind? (placeOf root ++ p) = some (.file c)) ∧
        (∃ stem, stem ≠ "" ∧ n.text = stem ++ ".md") ∧
        (∀ m ∈ q, m.text ∉ f.excludedDirectories) ∧ n.text ∉ f.skippedFiles) ∧
      places.Nodup ∧
      (places.map fun p => MarkdownFile.mk (pathOf p)).Pairwise (fun a b => a.lt b = true) ∧
      ∀ u : Tree, t.top.Relisted u.top → documents root f u = documents root f t := by
  obtain ⟨d, hd⟩ := sourceDirectory_of_hasDirectory h
  have hdistinct := distinct_of_sourceDirectory hd
  have hsorted := Filter.pairwise_places (f := f) hdistinct
  refine ⟨f.places d, documents_eq_ok.2 ⟨d, hd, rfl⟩, fun p => ?_, hsorted.nodup,
    List.pairwise_map.2 (hsorted.imp MarkdownFile.lt_of_placeLt),
    fun u hu => documents_of_relisted hu h⟩
  simp only [Filter.mem_places hdistinct, Filter.Admits, isDocumentName_iff, Tree.kind?_eq_file,
    at?_source hd]
  constructor
  · rintro ⟨⟨q, n, rfl, hdoc, hskip, hexcl⟩, c, hc⟩
    exact ⟨q, n, rfl, ⟨c, hc⟩, hdoc, hexcl, hskip⟩
  · rintro ⟨q, n, rfl, ⟨c, hc⟩, hdoc, hexcl, hskip⟩
    exact ⟨⟨q, n, rfl, hdoc, hskip, hexcl⟩, c, hc⟩

/-- A source with a directory whose name is that of a document, names with dots in front, a file
that can be skipped, a directory that can be excluded, and one that holds nothing. -/
def dottedTree : Tree :=
  let d : Name := ⟨"d", by decide⟩
  let draft : Name := ⟨"Draft", by decide⟩
  let folder : Name := ⟨"y.md", by decide⟩
  let document : Name := ⟨"b.md", by decide⟩
  ((((((((Tree.empty.putDirectory [d]).putFile [d, ⟨".md", by decide⟩] .empty).putFile
    [d, ⟨"..md", by decide⟩] .empty).putFile [d, ⟨"Notes.md", by decide⟩] .empty).putDirectory
    [d, ⟨"Empty", by decide⟩]).putDirectory [d, draft]).putFile [d, draft, document] .empty).putDirectory
    [d, folder]).putFile [d, folder, document] .empty

/-- Of the dotted tree two documents are found, however it is listed. -/
theorem documents_dotted :
    documents "d" ⟨["Draft"], ["Notes.md"]⟩ dottedTree = .ok [⟨"..md"⟩, ⟨"y.md/b.md"⟩] ∧
    ∀ u : Tree, dottedTree.top.Relisted u.top →
      documents "d" ⟨["Draft"], ["Notes.md"]⟩ u = .ok [⟨"..md"⟩, ⟨"y.md/b.md"⟩] := by
  have hsource : dottedTree.hasDirectory "d" = true := by decide +kernel
  obtain ⟨places, -, -, -, -, hsame⟩ := documents_found hsource ⟨["Draft"], ["Notes.md"]⟩
  have hcollect : (sourceDirectory "d" dottedTree).toOption.map
      (Filter.collect ⟨["Draft"], ["Notes.md"]⟩ []) =
      some [[⟨"..md", by decide⟩], [⟨"y.md", by decide⟩, ⟨"b.md", by decide⟩]] := by
    decide +kernel
  have hfound : documents "d" ⟨["Draft"], ["Notes.md"]⟩ dottedTree =
      .ok [⟨"..md"⟩, ⟨"y.md/b.md"⟩] := by
    rw [documents_of_collect hcollect (by decide)]
    decide
  exact ⟨hfound, fun u hu => (hsame u hu).trans hfound⟩

end Quire.Site
