import Quire.Proofs.Site.Documents
import Quire.Proofs.Text.Order

/-!
# What stands in the table of contents

The table of contents has a folder for every directory right inside the source that is not excluded,
whether documents are in it or not, and for each the documents right inside it (`isFolder_iff`,
`mem_group`). It is put together directory by directory, while the documents are looked for however
deep they lie and sorted last. **Yet the documents of the one, folder by folder, are those of the other
that lie in a directory right inside the source, in the same order** (`contents_agree`).
-/

namespace Quire.Site

open Quire.Path (Name)
open Quire.Tree (Directory Entry Place pathOf placeOf)

variable {root : String} {t : Tree} {d : Directory} {excluded : List String}

/-! ## 1. Places in folders -/

/-- The places of the documents that an entry of the source comes to, if it is a folder. -/
def folderPlaces (excluded : List String) : Name × Entry → List Place
  | (_, .file _) => []
  | (folder, .directory inside) =>
    if excluded.contains folder.text then []
    else (documentNames inside).map fun name => [folder, name]

/-- The places of the documents in the folders of a source, folder by folder. -/
def contentsPlaces (excluded : List String) (d : Directory) : List Place :=
  d.sorted.flatMap (folderPlaces excluded)

/-- Documents of the table of contents have the places of those in the folders. -/
theorem flatMap_folders (hd : d.Distinct) :
    (contentsOf excluded d).folders.flatMap Prod.snd =
      (contentsPlaces excluded d).map fun p => ⟨pathOf p⟩ := by
  rw [folders_contentsOf hd, contentsPlaces, List.map_flatMap]
  induction d.sorted with
  | nil => rfl
  | cons x l ih =>
      obtain ⟨folder, e⟩ := x
      rw [List.filterMap_cons, List.flatMap_cons, ← ih]
      cases e with
      | file c => rfl
      | directory i =>
          rw [groupOf?, folderPlaces]
          by_cases h : excluded.contains folder.text = true
          · rw [if_pos h, if_pos h]
            rfl
          · rw [if_neg h, if_neg h, List.map_map]
            rfl

theorem mem_folderPlaces {x : Name × Entry} {p : Place} (hx : x.2.Distinct) :
    p ∈ folderPlaces excluded x ↔ ∃ n i, x.2 = .directory i ∧ x.1.text ∉ excluded ∧
      p = [x.1, n] ∧ isDocumentName n = true ∧ ∃ c, i.get? n = some (.file c) := by
  obtain ⟨folder, e⟩ := x
  cases e with
  | file c => simp [folderPlaces]
  | directory i =>
      rw [folderPlaces]
      split
      · rename_i h
        rw [List.contains_iff_mem] at h
        simp [h]
      · rename_i h
        rw [List.contains_iff_mem] at h
        simp only [List.mem_map, mem_documentNames (show i.Distinct from hx), Entry.directory.injEq]
        constructor
        · rintro ⟨n, ⟨hdoc, hfile⟩, rfl⟩
          exact ⟨n, i, rfl, h, rfl, hdoc, hfile⟩
        · rintro ⟨n, _, rfl, -, rfl, hdoc, hfile⟩
          exact ⟨n, ⟨hdoc, hfile⟩, rfl⟩

/-- **A document is in a folder if it is one of the source with a place of two names.** -/
theorem mem_contentsPlaces (hd : d.Distinct) {p : Place} : p ∈ contentsPlaces excluded d ↔
    p ∈ Filter.places ⟨excluded, []⟩ d ∧ p.length = 2 := by
  rw [contentsPlaces, List.mem_flatMap, Filter.mem_places hd]
  constructor
  · rintro ⟨⟨m, e⟩, hx, hp⟩
    have hm := (Directory.mem_sorted hd).1 hx
    obtain ⟨n, i, rfl, hexcl, rfl, hdoc, c, hc⟩ := (mem_folderPlaces (hd.get? hm)).1 hp
    refine ⟨⟨⟨[m], n, rfl, hdoc, List.not_mem_nil, by simpa using hexcl⟩, c, ?_⟩, rfl⟩
    rw [Directory.at?_cons, hm, Option.bind_some]
    exact (Directory.at?_singleton n i).trans hc
  · rintro ⟨⟨⟨q, n, rfl, hdoc, -, hexcl⟩, c, hc⟩, hlen⟩
    obtain ⟨m, rfl⟩ := List.length_eq_one_iff.1 (show q.length = 1 by simpa using hlen)
    rw [List.singleton_append, Directory.at?_cons] at hc
    cases hm : d.get? m with
    | none => rw [hm] at hc; cases hc
    | some e =>
        rw [hm, Option.bind_some] at hc
        cases e with
        | file b => cases hc
        | directory i =>
            refine ⟨(m, .directory i), (Directory.mem_sorted hd).2 hm,
              (mem_folderPlaces (hd.get? hm)).2 ⟨n, i, rfl, hexcl m (by simp), rfl, hdoc, c, ?_⟩⟩
            exact (Directory.at?_singleton n i).symm.trans hc

/-- **The places in the folders come in order.** -/
theorem pairwise_contentsPlaces (hd : d.Distinct) :
    (contentsPlaces excluded d).Pairwise PlaceLt := by
  have hplaces {x : Name × Entry} (hx : x ∈ d.sorted) {p : Place}
      (hp : p ∈ folderPlaces excluded x) : ∃ n, p = [x.1, n] := by
    obtain ⟨n, -, -, -, h, -⟩ :=
      (mem_folderPlaces (hd.get? ((Directory.mem_sorted hd).1 hx))).1 hp
    exact ⟨n, h⟩
  refine List.pairwise_flatMap.2 ⟨fun x hx => ?_, ?_⟩
  · obtain ⟨m, e⟩ := x
    have hm := hd.get? ((Directory.mem_sorted hd).1 hx)
    cases e with
    | file c => exact List.Pairwise.nil
    | directory i =>
        rw [folderPlaces]
        split
        · exact List.Pairwise.nil
        · refine List.pairwise_map.2 ((pairwise_documentNames hm).imp fun h => ?_)
          exact List.cons_lt_cons_iff.2 (.inr ⟨rfl, List.cons_lt_cons_iff.2 (.inl h)⟩)
  · refine hd.pairwise_sorted.imp_of_mem fun {a b} ha hb hab p hp q hq => ?_
    obtain ⟨n, rfl⟩ := hplaces ha hp
    obtain ⟨m, rfl⟩ := hplaces hb hq
    exact List.cons_lt_cons_iff.2 (.inl hab)

/-! ## 2. Folders and documents -/

/-- **The folders are the directories right inside the source that are not excluded.** -/
theorem mem_map_folders (h : sourceDirectory root t = .ok d) {folder : String} :
    folder ∈ (contentsOf excluded d).folders.map Prod.fst ↔
      ∃ n : Name, n.text = folder ∧ n.text ∉ excluded ∧
        t.kind? (placeOf root ++ [n]) = some .directory := by
  have hd := distinct_of_sourceDirectory h
  simp only [List.mem_map, mem_folders hd, Tree.kind?_eq_directory, at?_source h,
    Directory.at?_singleton]
  constructor
  · rintro ⟨-, ⟨n, i, hn, hexcl, rfl⟩, rfl⟩
    exact ⟨n, rfl, hexcl, i, hn⟩
  · rintro ⟨n, rfl, hexcl, i, hn⟩
    exact ⟨folderEntry n i, ⟨n, i, hn, hexcl, rfl⟩, rfl⟩

/-- **The documents of a folder are those right inside it.** -/
theorem mem_group (h : sourceDirectory root t = .ok d) {x : String × List MarkdownFile}
    (hx : x ∈ (contentsOf excluded d).folders) {g : MarkdownFile} :
    g ∈ x.2 ↔ ∃ m n : Name, m.text = x.1 ∧ g = ⟨pathOf [m, n]⟩ ∧ isDocumentName n = true ∧
      ∃ c, t.kind? (placeOf root ++ [m, n]) = some (.file c) := by
  have hd := distinct_of_sourceDirectory h
  obtain ⟨m, i, hm, -, rfl⟩ := (mem_folders hd).1 hx
  have hat (n : Name) : t.at? (placeOf root ++ [m, n]) = i.get? n := by
    rw [at?_source h, Directory.at?_cons, hm, Option.bind_some]
    exact Directory.at?_singleton n i
  simp only [folderEntry, List.mem_map, mem_documentNames (show i.Distinct from hd.get? hm),
    Tree.kind?_eq_file]
  constructor
  · rintro ⟨n, ⟨hdoc, c, hc⟩, rfl⟩
    exact ⟨m, n, rfl, rfl, hdoc, c, (hat n).trans hc⟩
  · rintro ⟨k, n, hk, rfl, hdoc, c, hc⟩
    obtain rfl := Path.Name.ext hk
    exact ⟨n, ⟨hdoc, c, (hat n).symm.trans hc⟩, rfl⟩

/-- No document is in a folder twice. -/
theorem nodup_group (hd : d.Distinct) {x : String × List MarkdownFile}
    (hx : x ∈ (contentsOf excluded d).folders) : x.2.Nodup := by
  obtain ⟨m, i, hm, -, rfl⟩ := (mem_folders hd).1 hx
  refine (pairwise_documentNames (hd.get? hm)).nodup.map fun a b h => ?_
  have hplace := congrArg placeOf (congrArg MarkdownFile.path h)
  rw [Tree.placeOf_pathOf, Tree.placeOf_pathOf] at hplace
  exact (List.cons.inj (List.cons.inj hplace).2).1

/-- **The two ways to the documents of a source agree.** The folders are the directories right inside
it that are not excluded, in the order of the bytes of their names; each has the documents right inside
it; and folder by folder these are the documents of the source with paths of two components. -/
theorem contents_agree (h : t.hasDirectory root = true) (excluded : List String) :
    ∃ toc docs, contents root excluded t = .ok toc ∧ documents root ⟨excluded, []⟩ t = .ok docs ∧
      (toc.folders.Pairwise fun a b => Text.bytes a.1 < Text.bytes b.1) ∧
      (∀ folder, folder ∈ toc.folders.map Prod.fst ↔
        ∃ n : Name, n.text = folder ∧ n.text ∉ excluded ∧
          t.kind? (placeOf root ++ [n]) = some .directory) ∧
      (∀ x ∈ toc.folders, x.2.Nodup ∧ ∀ g, g ∈ x.2 ↔
        ∃ m n : Name, m.text = x.1 ∧ g = ⟨pathOf [m, n]⟩ ∧
          (∃ stem, stem ≠ "" ∧ n.text = stem ++ ".md") ∧
          ∃ c, t.kind? (placeOf root ++ [m, n]) = some (.file c)) ∧
      toc.folders.flatMap Prod.snd =
        docs.filter fun g => (Path.components g.path).length = 2 := by
  obtain ⟨d, hd⟩ := sourceDirectory_of_hasDirectory h
  have hdistinct := distinct_of_sourceDirectory hd
  refine ⟨contentsOf excluded d, Filter.documents ⟨excluded, []⟩ d, contents_eq_ok.2 ⟨d, hd, rfl⟩,
    documents_eq_ok.2 ⟨d, hd, rfl⟩, ?_, fun _ => mem_map_folders hd, fun x hx => ⟨nodup_group hdistinct hx, fun g => ?_⟩, ?_⟩
  · exact (contentsOf excluded d).sorted.imp Text.bytes_lt_iff.2
  · simp only [mem_group hd hx, isDocumentName_iff]
  · -- both are strictly in the order of places
    have hplaces : contentsPlaces excluded d =
        (Filter.places ⟨excluded, []⟩ d).filter fun p => p.length = 2 := by
      refine (pairwise_contentsPlaces hdistinct).eq_of_mem_iff
        ((Filter.pairwise_places hdistinct).filter _) fun {p} => ?_
      rw [mem_contentsPlaces hdistinct, List.mem_filter, decide_eq_true_iff]
    rw [flatMap_folders hdistinct, hplaces, Filter.documents_eq, List.filter_map]
    simp [Function.comp_def, Path.components_pathOf]

/-- In the dotted tree a folder that holds nothing is listed, and an excluded one is not. -/
theorem contents_dotted : ∃ toc docs, contents "d" ["Draft"] dottedTree = .ok toc ∧
    documents "d" ⟨["Draft"], []⟩ dottedTree = .ok docs ∧
    "Empty" ∈ toc.folders.map Prod.fst ∧ "Draft" ∉ toc.folders.map Prod.fst ∧
    docs = [⟨"..md"⟩, ⟨"Notes.md"⟩, ⟨"y.md/b.md"⟩] ∧
    toc.folders.flatMap Prod.snd = [⟨"y.md/b.md"⟩] := by
  have hsource : dottedTree.hasDirectory "d" = true := by decide +kernel
  obtain ⟨toc, docs, htoc, hdocs, -, hfolder, -, hagree⟩ := contents_agree hsource ["Draft"]
  have hcollect : (sourceDirectory "d" dottedTree).toOption.map (Filter.collect ⟨["Draft"], []⟩ []) =
      some [[⟨"..md", by decide⟩], [⟨"Notes.md", by decide⟩],
        [⟨"y.md", by decide⟩, ⟨"b.md", by decide⟩]] := by
    decide +kernel
  have hfound : documents "d" ⟨["Draft"], []⟩ dottedTree =
      .ok [⟨"..md"⟩, ⟨"Notes.md"⟩, ⟨"y.md/b.md"⟩] := by
    rw [documents_of_collect hcollect (by decide)]
    decide
  obtain rfl := Except.ok.inj (hdocs.symm.trans hfound)
  refine ⟨toc, _, htoc, hdocs, (hfolder _).2 ⟨⟨"Empty", by decide⟩, rfl, by decide, rfl⟩, ?_, rfl,
    hagree.trans (by decide)⟩
  rw [hfolder]
  rintro ⟨n, hn, hexcl, -⟩
  exact hexcl (by rw [hn]; exact List.mem_cons_self)

end Quire.Site
