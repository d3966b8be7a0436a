import Quire.Proofs.Site.Scan
import Quire.Proofs.Tree.Growth

/-!
# What a source comes to in a tree

What is found in a source directory is told by the kinds of the places under it (`mem_documents`). So
**trees that have the same files where documents can be, and the same folders, have the same documents
and the same table of contents** (`documents_eq`, `contents_eq`), and a document that holds the same in
both reads the same (`readText_congr`).
-/

namespace Quire.Site

open Quire.Path (Component Name)
open Quire.Tree (Directory HasMade Persists Place pathOf placeOf)

variable {source : String} {t u : Tree} {d e : Directory} {f : Filter}

/-! ## 1. The source directory -/

theorem sourceDirectory_eq_ok {d : Directory} : sourceDirectory source t = .ok d ↔
    t.HasMade source ∧ source ≠ "" ∧ t.at? (placeOf source) = some (.directory d) := by
  have hfound : sourceDirectory source t = .ok d ↔ t.directory? source = some d := by
    rw [sourceDirectory]
    cases t.directory? source <;> simp
  rw [hfound, Tree.directory?_eq_some]
  simp only [Tree.locate_eq_directory, Tree.IsFollowed, HasMade]
  constructor
  · rintro ⟨p, ⟨hr, hne, htop⟩, hpass, rfl, hat⟩
    exact ⟨⟨hr, htop, hpass⟩, hne, hat⟩
  · rintro ⟨⟨hr, htop, hpass⟩, hne, hat⟩
    exact ⟨_, ⟨hr, hne, htop⟩, hpass, rfl, hat⟩

/-- The source directory stays one. -/
theorem exists_sourceDirectory {d : Directory} (h : Persists t u)
    (ht : sourceDirectory source t = .ok d) : ∃ e, sourceDirectory source u = .ok e := by
  obtain ⟨hmade, hne, hat⟩ := sourceDirectory_eq_ok.1 ht
  obtain ⟨e, he⟩ := Tree.kind?_eq_directory.1 (h.directory (Tree.kind?_eq_directory.2 ⟨d, hat⟩))
  exact ⟨e, sourceDirectory_eq_ok.2 ⟨h.hasMade hmade, hne, he⟩⟩

/-- What stands under the source directory is looked up in it. -/
theorem at?_source (h : sourceDirectory source t = .ok d) (r : Place) :
    t.at? (placeOf source ++ r) = d.at? r :=
  Directory.at?_append_of_directory (sourceDirectory_eq_ok.1 h).2.2 r

theorem distinct_of_sourceDirectory (h : sourceDirectory source t = .ok d) : d.Distinct :=
  t.distinct.at? (sourceDirectory_eq_ok.1 h).2.2

/-! ## 2. Documents and contents -/

theorem documents_eq_ok {docs : List MarkdownFile} : documents source f t = .ok docs ↔
    ∃ d, sourceDirectory source t = .ok d ∧ docs = f.documents d := by
  rw [documents]
  cases sourceDirectory source t with
  | error e => simp [Except.map]
  | ok d => simp [Except.map, eq_comm]

theorem contents_eq_ok {excluded : List String} {toc : Toc} : contents source excluded t = .ok toc ↔
    ∃ d, sourceDirectory source t = .ok d ∧ toc = contentsOf excluded d := by
  rw [contents]
  cases sourceDirectory source t with
  | error e => simp [Except.map]
  | ok d => simp [Except.map, eq_comm]

/-- Documents that are collected in order are found as they are collected. -/
theorem documents_of_collect {places : List Place}
    (h : (sourceDirectory source t).toOption.map (f.collect []) = some places)
    (hsorted : places.Pairwise fun p q => (!placeLt q p) = true) :
    documents source f t = .ok (places.map fun p => ⟨pathOf p⟩) := by
  rw [documents]
  cases hd : sourceDirectory source t with
  | error e =>
      rw [hd] at h
      cases h
  | ok d =>
      rw [hd] at h
      have hcollect := Option.some.inj h
      refine congrArg Except.ok ?_
      rw [Filter.documents_of_pairwise (by rwa [hcollect]), hcollect]

/-- **Documents are the admitted files under the source directory.** -/
theorem mem_documents {docs : List MarkdownFile} (h : documents source f t = .ok docs)
    {g : MarkdownFile} : g ∈ docs ↔ ∃ r, g = ⟨pathOf r⟩ ∧ f.Admits r ∧
      ∃ c, t.kind? (placeOf source ++ r) = some (.file c) := by
  obtain ⟨d, hd, rfl⟩ := documents_eq_ok.1 h
  rw [Filter.documents_eq, List.mem_map]
  simp only [Filter.mem_places (distinct_of_sourceDirectory hd), Tree.kind?_eq_file, at?_source hd]
  exact exists_congr fun r => by rw [and_comm, eq_comm]

theorem nodup_documents {docs : List MarkdownFile} (h : documents source f t = .ok docs) :
    docs.Nodup := by
  obtain ⟨d, hd, rfl⟩ := documents_eq_ok.1 h
  exact Filter.nodup_documents (distinct_of_sourceDirectory hd)

/-- **Trees with the same admitted files have the same documents.** -/
theorem documents_eq (ht : sourceDirectory source t = .ok d) (hu : sourceDirectory source u = .ok e)
    (h : ∀ r, f.Admits r → ((∃ c, t.kind? (placeOf source ++ r) = some (.file c)) ↔
      ∃ c, u.kind? (placeOf source ++ r) = some (.file c))) :
    documents source f t = documents source f u := by
  simp only [Tree.kind?_eq_file, at?_source ht, at?_source hu] at h
  rw [documents, documents, ht, hu]
  exact congrArg Except.ok (Filter.documents_congr (distinct_of_sourceDirectory ht)
    (distinct_of_sourceDirectory hu) h)

/-- **Trees with the same folders, and the same documents in these, have the same contents.** -/
theorem contents_eq {excluded : List String} (ht : sourceDirectory source t = .ok d)
    (hu : sourceDirectory source u = .ok e)
    (hfolder : ∀ n : Name, n.text ∉ excluded →
      (t.kind? (placeOf source ++ [n]) = some .directory ↔
        u.kind? (placeOf source ++ [n]) = some .directory))
    (hdocument : ∀ n m : Name, n.text ∉ excluded → isDocumentName m = true →
      ((∃ c, t.kind? (placeOf source ++ [n, m]) = some (.file c)) ↔
        ∃ c, u.kind? (placeOf source ++ [n, m]) = some (.file c))) :
    contents source excluded t = contents source excluded u := by
  simp only [Tree.kind?_eq_directory, Tree.kind?_eq_file, at?_source ht, at?_source hu,
    Directory.at?_singleton] at hfolder hdocument
  rw [contents, contents, ht, hu]
  exact congrArg Except.ok (contentsOf_congr (distinct_of_sourceDirectory ht)
    (distinct_of_sourceDirectory hu) hfolder hdocument)

/-! ## 3. What a document holds -/

theorem placeOf_below_pathOf (source : String) (r : Place) :
    placeOf (Path.below source (pathOf r)) = placeOf source ++ r := by
  rw [Tree.placeOf_below, Path.components_pathOf, Tree.placeFrom_names]

/-- Where a path that is made of names leads, from a directory that is there. -/
theorem locate_below_pathOf (hsource : t.HasMade source) (q : Place) (n : Name) {p : Place}
    {c : ByteArray} : t.locate (Path.below source (pathOf (q ++ [n]))) = .ok (.file p c) ↔
      Tree.IsFollowed (Path.below source (pathOf (q ++ [n]))) ∧
      Path.endsInSlash (Path.below source (pathOf (q ++ [n]))) = false ∧
      (∀ m ∈ q ++ [n], m.text.utf8ByteSize ≤ Tree.maxNameSize) ∧
      p = placeOf source ++ (q ++ [n]) ∧ t.kind? p = some (.file c) := by
  have hcs : Path.components (Path.below source (pathOf (q ++ [n]))) =
      (Path.components source ++ q.map .name) ++ [.name n] := by
    rw [Path.components_below, Path.components_pathOf, List.map_append, List.append_assoc]
    rfl
  rw [Tree.locate_eq_file, placeOf_below_pathOf]
  refine and_congr_right fun _ => and_congr_right fun _ => ?_
  constructor
  · rintro ⟨⟨ds, m, hds, hpass, hm⟩, rfl, hat⟩
    have hconcat : (Path.components source ++ q.map Component.name).concat (.name n) =
        ds.concat (.name m) := by
      rw [List.concat_eq_append, List.concat_eq_append, ← hcs, hds]
    obtain ⟨rfl, hnm⟩ := List.concat_inj.1 hconcat
    cases hnm
    rw [Tree.passes_append] at hpass
    have hq := ((Tree.passes_names hsource.kind?).1 hpass.2).1
    refine ⟨fun k hk => ?_, rfl, Tree.kind?_eq_file.2 hat⟩
    rcases List.mem_append.1 hk with hk | hk
    · exact hq k hk
    · exact List.mem_singleton.1 hk ▸ hm
  · rintro ⟨hsize, rfl, hkind⟩
    have hdir : t.kind? (placeOf source ++ q) = some .directory := by
      rw [← List.append_assoc] at hkind
      exact Tree.kind?_of_append (List.cons_ne_nil n []) (by rw [hkind]; simp)
    have hpass := Tree.passes_append.2 ⟨hsource.2.2, (Tree.passes_names hsource.kind?).2
      ⟨fun k hk => hsize k (List.mem_append_left _ hk), hdir⟩⟩
    exact ⟨⟨_, n, hcs, hpass, hsize n (by simp)⟩, rfl, Tree.kind?_eq_file.1 hkind⟩

/-- **A file of the source reads the same in two trees that have it both.** -/
theorem readText_congr (ht : t.HasMade source) (hu : u.HasMade source) {r : Place} (hr : r ≠ [])
    {c : ByteArray} (hkt : t.kind? (placeOf source ++ r) = some (.file c))
    (hku : u.kind? (placeOf source ++ r) = some (.file c)) :
    readText source (pathOf r) u = readText source (pathOf r) t := by
  obtain ⟨q, n, rfl⟩ : ∃ q n, r = q ++ [n] := by
    rcases List.eq_nil_or_concat r with rfl | ⟨q, n, rfl⟩
    · exact absurd rfl hr
    · exact ⟨q, n, List.concat_eq_append⟩
  have hiff : t.locate (Path.below source (pathOf (q ++ [n]))) =
        .ok (.file (placeOf source ++ (q ++ [n])) c) ↔
      u.locate (Path.below source (pathOf (q ++ [n]))) =
        .ok (.file (placeOf source ++ (q ++ [n])) c) := by
    rw [locate_below_pathOf ht, locate_below_pathOf hu, hkt, hku]
  -- either the path leads to the file, or it is not followed at all
  have hcases {t : Tree} (hk : t.kind? (placeOf source ++ (q ++ [n])) = some (.file c)) :
      t.locate (Path.below source (pathOf (q ++ [n]))) =
        .ok (.file (placeOf source ++ (q ++ [n])) c) ∨
      t.hasEntry (Path.below source (pathOf (q ++ [n]))) = false := by
    rw [or_iff_not_imp_right, Bool.not_eq_false, Tree.hasEntry_iff]
    rintro (⟨p, i, hl⟩ | ⟨p, d, hl⟩)
    · obtain ⟨-, -, hp, hat⟩ := Tree.locate_eq_directory.1 hl
      rw [← placeOf_below_pathOf, ← hp, Tree.kind?_eq_directory.2 ⟨i, hat⟩] at hk
      cases hk
    · obtain ⟨-, -, -, hp, hat⟩ := Tree.locate_eq_file.1 hl
      rw [placeOf_below_pathOf] at hp
      subst hp
      rw [Tree.kind?_eq_file.2 hat] at hk
      cases hk
      exact hl
  rcases hcases hkt with hl | hnone
  · rw [readText, readText, Tree.hasEntry, Tree.hasEntry, Tree.readText, Tree.readText,
      Tree.readBytes, Tree.readBytes, hl, hiff.1 hl]
  · have hnone' : u.hasEntry (Path.below source (pathOf (q ++ [n]))) = false := by
      refine (hcases hku).resolve_left fun hl => ?_
      rw [Tree.hasEntry, hiff.2 hl] at hnone
      cases hnone
    simp only [readText, hnone, hnone', Bool.false_eq_true, if_false]

end Quire.Site
