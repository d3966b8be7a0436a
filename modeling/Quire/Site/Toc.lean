import Quire.Site.MarkdownFile

/-!
# Tables of contents

A table of contents lists folders, each with its documents. Folders are in the order of their names,
each name once; the documents of a folder are in the order in which they were added. Both go into
the type: the folders are kept with the proof that their names increase strictly.
-/

namespace Quire.Site

/-! ## 1. Sorted entries -/

/-- The entries with the documents of one folder put through `f`; the folder is added in its place
if it is not there. -/
def updateFolder (folder : String) (f : List MarkdownFile → List MarkdownFile) :
    List (String × List MarkdownFile) → List (String × List MarkdownFile)
  | [] => [(folder, f [])]
  | (name, files) :: rest =>
    if folder = name then (name, f files) :: rest
    else if folder < name then (folder, f []) :: (name, files) :: rest
    else (name, files) :: updateFolder folder f rest

/-- A name that is in no entry and is not added is in no entry after. -/
theorem mem_updateFolder {folder n : String} {f : List MarkdownFile → List MarkdownFile}
    {es : List (String × List MarkdownFile)} {fs : List MarkdownFile}
    (h : (n, fs) ∈ updateFolder folder f es) : n = folder ∨ ∃ gs, (n, gs) ∈ es := by
  induction es with
  | nil =>
    simp only [updateFolder, List.mem_singleton, Prod.mk.injEq] at h
    exact .inl h.1
  | cons e rest ih =>
    obtain ⟨name, files⟩ := e
    simp only [updateFolder] at h
    split at h
    · simp only [List.mem_cons, Prod.mk.injEq] at h
      rcases h with ⟨rfl, _⟩ | h
      · exact .inr ⟨files, by simp⟩
      · exact .inr ⟨fs, by simp [h]⟩
    split at h
    · simp only [List.mem_cons, Prod.mk.injEq] at h
      rcases h with ⟨rfl, _⟩ | ⟨rfl, _⟩ | h
      · exact .inl rfl
      · exact .inr ⟨files, by simp⟩
      · exact .inr ⟨fs, by simp [h]⟩
    · simp only [List.mem_cons, Prod.mk.injEq] at h
      rcases h with ⟨rfl, _⟩ | h
      · exact .inr ⟨files, by simp⟩
      · rcases ih h with h | ⟨gs, h⟩
        · exact .inl h
        · exact .inr ⟨gs, by simp [h]⟩

/-- Strictly increasing names stay so. -/
theorem pairwise_updateFolder {folder : String} {f : List MarkdownFile → List MarkdownFile}
    {es : List (String × List MarkdownFile)} (h : es.Pairwise fun a b => a.1 < b.1) :
    (updateFolder folder f es).Pairwise fun a b => a.1 < b.1 := by
  induction es with
  | nil => simp [updateFolder]
  | cons e rest ih =>
    obtain ⟨name, files⟩ := e
    rw [List.pairwise_cons] at h
    simp only [updateFolder]
    split
    · exact List.pairwise_cons.2 h
    rename_i hne
    split
    · rename_i hlt
      refine List.pairwise_cons.2 ⟨?_, List.pairwise_cons.2 h⟩
      intro b hb
      simp only [List.mem_cons] at hb
      rcases hb with rfl | hb
      · exact hlt
      · exact String.lt_trans hlt (h.1 b hb)
    · rename_i hnlt
      refine List.pairwise_cons.2 ⟨?_, ih h.2⟩
      intro b hb
      obtain ⟨n, fs⟩ := b
      rcases mem_updateFolder hb with rfl | ⟨gs, hg⟩
      · rcases Decidable.em (name < n) with hlt | hge
        · exact hlt
        · exact absurd (String.le_antisymm (String.not_lt.1 hge) (String.not_lt.1 hnlt)) hne
      · exact h.1 (n, gs) hg

/-! ## 2. Tables of contents -/

/-- A table of contents: folders, in strictly increasing order of their names, with their
documents. -/
structure Toc where
  folders : List (String × List MarkdownFile)
  sorted : folders.Pairwise fun a b => a.1 < b.1

namespace Toc

/-- The table without folders. -/
def empty : Toc :=
  ⟨[], List.Pairwise.nil⟩

/-- The table with a folder; one that is there already is left alone. -/
def addFolder (t : Toc) (folder : String) : Toc :=
  ⟨updateFolder folder id t.folders, pairwise_updateFolder t.sorted⟩

/-- The table with a document put last in a folder. -/
def addFile (t : Toc) (folder : String) (file : MarkdownFile) : Toc :=
  ⟨updateFolder folder (· ++ [file]) t.folders, pairwise_updateFolder t.sorted⟩

/-- The number of folders. -/
def size (t : Toc) : Nat :=
  t.folders.length

/-- Whether there are no folders. -/
def isEmpty (t : Toc) : Bool :=
  t.folders.isEmpty

/-- The number of documents in all folders. -/
def fileCount (t : Toc) : Nat :=
  t.folders.foldl (fun n e => n + e.2.length) 0

end Toc

end Quire.Site
