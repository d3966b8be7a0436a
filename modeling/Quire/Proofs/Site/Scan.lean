import Mathlib.Data.List.Lex
import Quire.Proofs.Tree.Following
import Quire.Proofs.Tree.Listing
import Quire.Site.Scan

/-!
# What is found in a source

The documents are the files whose names and places admit it (`mem_places`), strictly in the order of
their places (`pairwise_places`), and the table of contents has a group for every directory right
inside that is not excluded, with the documents right inside that (`mem_folders`). So **both hang on
nothing but where files and directories are** (`documents_congr`, `contentsOf_congr`): what the files
hold, in which order they are listed, and whatever has a place that is not admitted, makes no
difference.
-/

namespace Quire.Site

open Quire.Path (Name)
open Quire.Tree (Directory Entry Place pathOf)

/-! ## 1. Order -/

/-- Places in order: by the texts of their names. -/
def PlaceLt (p q : Place) : Prop :=
  p.map Name.text < q.map Name.text

theorem placeLt_iff {p q : Place} : placeLt p q = true ↔ PlaceLt p q := by
  rw [placeLt, PlaceLt]
  induction p generalizing q with
  | nil =>
      cases q with
      | nil => simp [Path.componentsLt]
      | cons m ms => simp [Path.componentsLt]
  | cons n ns ih =>
      cases q with
      | nil => simp [Path.componentsLt]
      | cons m ms =>
          rw [List.map_cons, List.map_cons, List.map_cons, List.map_cons, Path.componentsLt,
            List.cons_lt_cons_iff]
          split
          · rename_i heq
            cases heq
            rw [ih]
            simp
          · rename_i hne
            have htext : n.text ≠ m.text := fun h => hne (congrArg _ (Path.Name.ext h))
            simp [Path.Component.lt, Path.Name.lt, htext]

theorem map_text_injective : Function.Injective (List.map Name.text) :=
  List.map_injective_iff.2 fun _ _ => Path.Name.ext

instance : Std.Irrefl PlaceLt where
  irrefl p := lt_irrefl (p.map Name.text)

instance : Std.Antisymm PlaceLt where
  antisymm _ _ h k := absurd h (not_lt_of_gt k)

/-! ## 2. Documents -/

variable {f : Filter} {d e : Directory} {p r : Place} {n : Name}

/-- Whether a filter admits a document at a place: by its name, and by those of the directories that
it lies in. -/
def Filter.Admits (f : Filter) (r : Place) : Prop :=
  ∃ q n, r = q ++ [n] ∧ isDocumentName n = true ∧ n.text ∉ f.skippedFiles ∧
    ∀ m ∈ q, m.text ∉ f.excludedDirectories

theorem Filter.ne_nil_of_admits (h : f.Admits r) : r ≠ [] := by
  obtain ⟨q, n, rfl, -⟩ := h
  simp

theorem Filter.admits_singleton :
    f.Admits [n] ↔ isDocumentName n = true ∧ n.text ∉ f.skippedFiles := by
  constructor
  · rintro ⟨q, m, h, hdoc, hskip, -⟩
    obtain ⟨rfl, rfl⟩ := List.concat_inj.1 (show [].concat n = q.concat m by simpa using h)
    exact ⟨hdoc, hskip⟩
  · rintro ⟨hdoc, hskip⟩
    exact ⟨[], n, rfl, hdoc, hskip, by simp⟩

theorem Filter.admits_cons (hr : r ≠ []) :
    f.Admits (n :: r) ↔ n.text ∉ f.excludedDirectories ∧ f.Admits r := by
  constructor
  · rintro ⟨q, m, h, hdoc, hskip, hexcl⟩
    cases q with
    | nil => exact absurd (List.cons.inj h).2 hr
    | cons k ks =>
        obtain ⟨rfl, rfl⟩ := List.cons.inj h
        rw [List.forall_mem_cons] at hexcl
        exact ⟨hexcl.1, ks, m, rfl, hdoc, hskip, hexcl.2⟩
  · rintro ⟨hn, q, m, rfl, hdoc, hskip, hexcl⟩
    exact ⟨n :: q, m, rfl, hdoc, hskip, List.forall_mem_cons.2 ⟨hn, hexcl⟩⟩

/-- A file in a directory is the first that is listed or among the others. -/
theorem at?_file_eq_file {c b : ByteArray} {rest : Directory} (hn : n ∉ rest.names) (hr : r ≠ []) :
    (Directory.file n c rest).at? r = some (.file b) ↔
      (r = [n] ∧ c = b) ∨ rest.at? r = some (.file b) := by
  cases r with
  | nil => exact absurd rfl hr
  | cons m ms =>
      rw [Directory.at?_cons, Directory.get?]
      by_cases hm : n = m
      · subst hm
        rw [if_pos rfl, Directory.at?_eq_none_of_not_mem hn]
        cases ms <;> simp [Entry.at?]
      · rw [if_neg hm, ← Directory.at?_cons]
        simp [Ne.symm hm]

theorem at?_dir_eq_file {b : ByteArray} {i rest : Directory} (hn : n ∉ rest.names) (hr : r ≠ []) :
    (Directory.dir n i rest).at? r = some (.file b) ↔
      (∃ s, s ≠ [] ∧ r = n :: s ∧ i.at? s = some (.file b)) ∨ rest.at? r = some (.file b) := by
  cases r with
  | nil => exact absurd rfl hr
  | cons m ms =>
      rw [Directory.at?_cons, Directory.get?]
      by_cases hm : n = m
      · subst hm
        rw [if_pos rfl, Directory.at?_eq_none_of_not_mem hn]
        simp only [Option.bind_some, Entry.at?, List.cons.injEq, true_and, reduceCtorEq, or_false]
        constructor
        · intro h
          refine ⟨ms, ?_, rfl, h⟩
          rintro rfl
          cases h
        · rintro ⟨s, -, rfl, h⟩
          exact h
      · rw [if_neg hm, ← Directory.at?_cons]
        simp [Ne.symm hm]

/-- **Those files are found that are admitted.** -/
theorem Filter.mem_collect (hd : d.Distinct) {above : Place} :
    p ∈ f.collect above d ↔
      ∃ r, p = above ++ r ∧ f.Admits r ∧ ∃ c, d.at? r = some (.file c) := by
  induction d generalizing above with
  | nil =>
      simp only [Filter.collect, List.not_mem_nil, false_iff]
      rintro ⟨r, -, hr, c, hc⟩
      cases r with
      | nil => exact Filter.ne_nil_of_admits hr rfl
      | cons m ms => cases hc
  | file n c rest ih =>
      have hsplit : (∃ r, p = above ++ r ∧ f.Admits r ∧
            ∃ b, (Directory.file n c rest).at? r = some (.file b)) ↔
          (f.Admits [n] ∧ p = above ++ [n]) ∨ p ∈ f.collect above rest := by
        rw [ih hd.2]
        constructor
        · rintro ⟨r, hp, hr, b, hb⟩
          rcases (at?_file_eq_file hd.1 (ne_nil_of_admits hr)).1 hb with ⟨rfl, -⟩ | hb
          · exact .inl ⟨hr, hp⟩
          · exact .inr ⟨r, hp, hr, b, hb⟩
        · rintro (⟨hr, hp⟩ | ⟨r, hp, hr, b, hb⟩)
          · exact ⟨[n], hp, hr, c, (at?_file_eq_file hd.1 (by simp)).2 (.inl ⟨rfl, rfl⟩)⟩
          · exact ⟨r, hp, hr, b, (at?_file_eq_file hd.1 (ne_nil_of_admits hr)).2 (.inr hb)⟩
      rw [hsplit, Filter.collect, Filter.admits_singleton]
      split <;> simp_all
  | dir n i rest ihi ih =>
      have hsplit : (∃ r, p = above ++ r ∧ f.Admits r ∧
            ∃ b, (Directory.dir n i rest).at? r = some (.file b)) ↔
          (n.text ∉ f.excludedDirectories ∧ p ∈ f.collect (above ++ [n]) i) ∨
            p ∈ f.collect above rest := by
        rw [ih hd.2.2, ihi hd.2.1]
        constructor
        · rintro ⟨r, hp, hr, b, hb⟩
          rcases (at?_dir_eq_file hd.1 (ne_nil_of_admits hr)).1 hb with ⟨s, hs, rfl, hi⟩ | hb
          · obtain ⟨hn, hadm⟩ := (admits_cons hs).1 hr
            exact .inl ⟨hn, s, by simpa using hp, hadm, b, hi⟩
          · exact .inr ⟨r, hp, hr, b, hb⟩
        · rintro (⟨hn, s, hp, hs, b, hb⟩ | ⟨r, hp, hr, b, hb⟩)
          · have hne := ne_nil_of_admits hs
            exact ⟨n :: s, by simpa using hp, (admits_cons hne).2 ⟨hn, hs⟩, b,
              (at?_dir_eq_file hd.1 (by simp)).2 (.inl ⟨s, hne, rfl, hb⟩)⟩
          · exact ⟨r, hp, hr, b, (at?_dir_eq_file hd.1 (ne_nil_of_admits hr)).2 (.inr hb)⟩
      rw [hsplit, Filter.collect]
      split <;> simp_all

/-- No file is found twice. -/
theorem Filter.nodup_collect (hd : d.Distinct) (above : Place) : (f.collect above d).Nodup := by
  induction d generalizing above with
  | nil => exact List.nodup_nil
  | file n c rest ih =>
      rw [Filter.collect]
      split
      · refine List.nodup_cons.2 ⟨fun hmem => ?_, ih hd.2 above⟩
        obtain ⟨r, hr, -, b, hb⟩ := (mem_collect hd.2).1 hmem
        rw [← List.append_cancel_left hr, Directory.at?_eq_none_of_not_mem hd.1] at hb
        cases hb
      · exact ih hd.2 above
  | dir n i rest ihi ih =>
      rw [Filter.collect]
      split
      · exact ih hd.2.2 above
      · refine List.nodup_append.2 ⟨ihi hd.2.1 _, ih hd.2.2 above, fun a ha b hb hab => ?_⟩
        obtain ⟨s, rfl, -⟩ := (mem_collect hd.2.1).1 ha
        obtain ⟨r, hr, -, c, hc⟩ := (mem_collect hd.2.2).1 hb
        rw [← hab, List.append_assoc] at hr
        rw [← List.append_cancel_left hr, List.singleton_append,
          Directory.at?_eq_none_of_not_mem hd.1] at hc
        cases hc

/-- The places of the documents, in order. -/
def Filter.places (f : Filter) (d : Directory) : List Place :=
  (f.collect [] d).mergeSort fun p q => !placeLt q p

theorem Filter.documents_eq (f : Filter) (d : Directory) :
    f.documents d = (f.places d).map fun p => ⟨pathOf p⟩ :=
  rfl

/-- **Documents are admitted files.** -/
theorem Filter.mem_places (hd : d.Distinct) :
    p ∈ f.places d ↔ f.Admits p ∧ ∃ c, d.at? p = some (.file c) := by
  rw [Filter.places, List.mem_mergeSort, mem_collect hd]
  simp

/-- **Documents are strictly in the order of their places.** -/
theorem Filter.pairwise_places (hd : d.Distinct) : (f.places d).Pairwise PlaceLt := by
  refine Tree.pairwise_mergeSort_of_nodup (f := List.map Name.text) (fun a b => ?_)
    ((nodup_collect hd []).map map_text_injective)
  rw [Bool.not_eq_true', ← Bool.not_eq_true, placeLt_iff, PlaceLt, not_lt]

/-- **Two directories with the same admitted files have the same documents.** -/
theorem Filter.documents_congr (hd : d.Distinct) (he : e.Distinct)
    (h : ∀ r, f.Admits r → ((∃ c, d.at? r = some (.file c)) ↔ ∃ c, e.at? r = some (.file c))) :
    f.documents d = f.documents e := by
  rw [documents_eq, documents_eq, (pairwise_places hd).eq_of_mem_iff (pairwise_places he)]
  intro r
  rw [mem_places hd, mem_places he]
  exact and_congr_right (h r)

/-- Documents that are listed in order are found in this order. -/
theorem Filter.documents_of_pairwise
    (h : (f.collect [] d).Pairwise fun p q => (!placeLt q p) = true) :
    f.documents d = (f.collect [] d).map fun p => ⟨pathOf p⟩ := by
  rw [documents, List.mergeSort_of_pairwise h]

/-- Documents have different paths. -/
theorem Filter.nodup_documents (hd : d.Distinct) : (f.documents d).Nodup := by
  rw [documents_eq]
  refine (pairwise_places hd).nodup.map fun p q h => ?_
  rw [MarkdownFile.mk.injEq] at h
  rw [← Tree.placeOf_pathOf p, h, Tree.placeOf_pathOf]

/-! ## 3. Contents -/

/-- The names of the documents right inside a directory, in order. -/
def documentNames (d : Directory) : List Name :=
  (d.sorted.filter fun x => !x.2.isDirectory && isDocumentName x.1).map Prod.fst

theorem pairwise_documentNames (hd : d.Distinct) :
    (documentNames d).Pairwise fun a b => a.text < b.text :=
  List.pairwise_map.2 (hd.pairwise_sorted.filter _)

theorem mem_documentNames (hd : d.Distinct) :
    n ∈ documentNames d ↔ isDocumentName n = true ∧ ∃ c, d.get? n = some (.file c) := by
  rw [documentNames, List.mem_map]
  constructor
  · rintro ⟨⟨m, e⟩, hmem, rfl⟩
    rw [List.mem_filter, Directory.mem_sorted hd, Bool.and_eq_true] at hmem
    obtain ⟨he, hfile, hdoc⟩ := hmem
    cases e with
    | directory i => cases hfile
    | file c => exact ⟨hdoc, c, he⟩
  · rintro ⟨hdoc, c, hc⟩
    exact ⟨(n, .file c), List.mem_filter.2 ⟨(Directory.mem_sorted hd).2 hc, hdoc⟩, rfl⟩

/-- The group of a folder. -/
def folderEntry (folder : Name) (inside : Directory) : String × List MarkdownFile :=
  (folder.text, (documentNames inside).map fun name => ⟨pathOf [folder, name]⟩)

theorem updateFolder_append {es : List (String × List MarkdownFile)} {folder : String}
    (h : ∀ e ∈ es, e.1 < folder) (g : List MarkdownFile → List MarkdownFile)
    (rest : List (String × List MarkdownFile)) :
    updateFolder folder g (es ++ rest) = es ++ updateFolder folder g rest := by
  induction es with
  | nil => rfl
  | cons e es ih =>
      obtain ⟨name, files⟩ := e
      rw [List.forall_mem_cons] at h
      rw [List.cons_append, updateFolder, if_neg (ne_of_gt h.1), if_neg (not_lt_of_gt h.1), ih h.2]
      rfl

/-- A folder whose name comes last is filled document by document. -/
theorem folders_addDocuments {es : List (String × List MarkdownFile)} {folder : Name}
    (hes : ∀ e ∈ es, e.1 < folder.text) (l : List (Name × Entry)) {files : List MarkdownFile}
    {toc : Toc} (h : toc.folders = es ++ [(folder.text, files)]) :
    (addDocuments folder toc l).folders =
      es ++ [(folder.text, files ++ ((l.filter fun x => !x.2.isDirectory && isDocumentName x.1).map
        Prod.fst).map fun name => ⟨pathOf [folder, name]⟩)] := by
  induction l generalizing files toc with
  | nil =>
      show toc.folders = _
      rw [h]
      simp
  | cons x l ih =>
      obtain ⟨name, e⟩ := x
      show (addDocuments folder (if !e.isDirectory && isDocumentName name then
        toc.addFile folder.text ⟨pathOf [folder, name]⟩ else toc) l).folders = _
      rw [List.filter_cons]
      split
      · have hadd : (toc.addFile folder.text ⟨pathOf [folder, name]⟩).folders =
            es ++ [(folder.text, files ++ [⟨pathOf [folder, name]⟩])] := by
          show updateFolder folder.text (· ++ [⟨pathOf [folder, name]⟩]) toc.folders = _
          rw [h, updateFolder_append hes, updateFolder, if_pos rfl]
        rw [ih hadd, List.map_cons, List.map_cons, List.append_assoc]
        rfl
      · exact ih h

/-- The group that an entry of the source directory comes to, if it is that of a folder. -/
def groupOf? (excluded : List String) : Name × Entry → Option (String × List MarkdownFile)
  | (_, .file _) => none
  | (name, .directory inside) =>
    if excluded.contains name.text then none else some (folderEntry name inside)

/-- A table of contents with what an entry of the source directory comes to. -/
def addEntry (excluded : List String) (toc : Toc) (x : Name × Entry) : Toc :=
  match x.2 with
  | .file _ => toc
  | .directory inside =>
    if excluded.contains x.1.text then toc
    else addDocuments x.1 (toc.addFolder x.1.text) inside.sorted

theorem contentsOf_eq (excluded : List String) (d : Directory) :
    contentsOf excluded d = d.sorted.foldl (addEntry excluded) .empty :=
  rfl

theorem folders_foldl {excluded : List String} {l : List (Name × Entry)} {toc : Toc}
    (hl : l.Pairwise fun a b => a.1.text < b.1.text)
    (htoc : ∀ e ∈ toc.folders, ∀ x ∈ l, e.1 < x.1.text) :
    (l.foldl (addEntry excluded) toc).folders =
      toc.folders ++ l.filterMap (groupOf? excluded) := by
  induction l generalizing toc with
  | nil => simp
  | cons x l ih =>
      obtain ⟨name, e⟩ := x
      rw [List.pairwise_cons] at hl
      have hrest : ∀ e ∈ toc.folders, ∀ x ∈ l, e.1 < x.1.text := fun e he x hx =>
        htoc e he x (List.mem_cons_of_mem _ hx)
      rw [List.foldl_cons, List.filterMap_cons]
      cases e with
      | file c => exact ih hl.2 hrest
      | directory i =>
          rw [addEntry, groupOf?]
          dsimp only
          split
          · exact ih hl.2 hrest
          · have hname : ∀ e ∈ toc.folders, e.1 < name.text := fun e he =>
              htoc e he (name, .directory i) List.mem_cons_self
            have hadd : (toc.addFolder name.text).folders = toc.folders ++ [(name.text, [])] := by
              have := updateFolder_append hname id []
              rwa [List.append_nil] at this
            have hfolder := folders_addDocuments hname i.sorted hadd
            rw [ih hl.2, hfolder, List.append_assoc]
            · rfl
            · intro e he x hx
              rw [hfolder, List.mem_append, List.mem_singleton] at he
              rcases he with he | rfl
              · exact hrest e he x hx
              · exact hl.1 x hx

/-- **The table of contents has the directories in the order of their names.** -/
theorem folders_contentsOf {excluded : List String} (hd : d.Distinct) :
    (contentsOf excluded d).folders = d.sorted.filterMap (groupOf? excluded) := by
  rw [contentsOf_eq, folders_foldl hd.pairwise_sorted (fun e he => by cases he)]
  rfl

/-- **Its groups are those of the directories that are not excluded.** -/
theorem mem_folders {excluded : List String} (hd : d.Distinct)
    {x : String × List MarkdownFile} : x ∈ (contentsOf excluded d).folders ↔
      ∃ n i, d.get? n = some (.directory i) ∧ n.text ∉ excluded ∧ x = folderEntry n i := by
  rw [folders_contentsOf hd, List.mem_filterMap]
  constructor
  · rintro ⟨⟨n, e⟩, hmem, hx⟩
    cases e with
    | file c => cases hx
    | directory i =>
        rw [groupOf?] at hx
        split at hx
        · cases hx
        · rename_i hn
          rw [List.contains_iff_mem] at hn
          exact ⟨n, i, (Directory.mem_sorted hd).1 hmem, hn, (Option.some.inj hx).symm⟩
  · rintro ⟨n, i, hn, hexcl, rfl⟩
    refine ⟨(n, .directory i), (Directory.mem_sorted hd).2 hn, ?_⟩
    rw [groupOf?, if_neg]
    rwa [List.contains_iff_mem]

/-- Tables of contents with the same groups are the same. -/
theorem Toc.ext_mem {a b : Toc} (h : ∀ x, x ∈ a.folders ↔ x ∈ b.folders) : a = b := by
  have hfolders : a.folders = b.folders := by
    have : Std.Irrefl fun a b : String × List MarkdownFile => a.1 < b.1 := ⟨fun a => lt_irrefl a.1⟩
    have : Std.Antisymm fun a b : String × List MarkdownFile => a.1 < b.1 :=
      ⟨fun _ _ h k => absurd h (not_lt_of_gt k)⟩
    exact a.sorted.eq_of_mem_iff b.sorted h
  cases a
  cases b
  cases hfolders
  rfl

/-- **Two directories with the same folders, and the same documents in these, have the same table of
contents.** -/
theorem contentsOf_congr {excluded : List String} (hd : d.Distinct) (he : e.Distinct)
    (hfolder : ∀ n : Name, n.text ∉ excluded →
      ((∃ i, d.get? n = some (.directory i)) ↔ ∃ i, e.get? n = some (.directory i)))
    (hdocument : ∀ n m : Name, n.text ∉ excluded → isDocumentName m = true →
      ((∃ c, d.at? [n, m] = some (.file c)) ↔ ∃ c, e.at? [n, m] = some (.file c))) :
    contentsOf excluded d = contentsOf excluded e := by
  have hnames {n : Name} {i j : Directory} (hn : n.text ∉ excluded)
      (hi : d.get? n = some (.directory i)) (hj : e.get? n = some (.directory j)) :
      folderEntry n i = folderEntry n j := by
    have hi' := hd.get? hi
    have hj' := he.get? hj
    rw [folderEntry, folderEntry,
      (pairwise_documentNames hi').eq_of_mem_iff (pairwise_documentNames hj')]
    intro m
    rw [mem_documentNames hi', mem_documentNames hj']
    refine and_congr_right fun hm => ?_
    have h := hdocument n m hn hm
    rw [Directory.at?_cons, Directory.at?_cons, hi, hj] at h
    simpa [Entry.at?, Directory.at?_singleton] using h
  refine Toc.ext_mem fun x => ?_
  rw [mem_folders hd, mem_folders he]
  constructor
  · rintro ⟨n, i, hi, hn, rfl⟩
    obtain ⟨j, hj⟩ := (hfolder n hn).1 ⟨i, hi⟩
    exact ⟨n, j, hj, hn, hnames hn hi hj⟩
  · rintro ⟨n, j, hj, hn, rfl⟩
    obtain ⟨i, hi⟩ := (hfolder n hn).2 ⟨j, hj⟩
    exact ⟨n, i, hi, hn, (hnames hn hi hj).symm⟩

end Quire.Site
