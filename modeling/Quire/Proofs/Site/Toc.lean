import Mathlib.Data.List.Induction
import Mathlib.Data.String.Basic
import Quire.Site.Toc

/-!
# How a table of contents is built

A table of contents is built by adding folders and documents, one after the other (`TocStep`). What it
has of a folder can be told from the steps: it is there if a step named it, **with the documents of the
steps that added to it, in their order** (`mem_build`).
-/

namespace Quire.Site

/-! ## 1. Looking up -/

section Lookup

variable {es : List (String × List MarkdownFile)} {folder name : String}
  {files : List MarkdownFile}

theorem lookup_cons_eq (first name : String) (files : List MarkdownFile)
    (es : List (String × List MarkdownFile)) :
    ((first, files) :: es).lookup name = if name = first then some files else es.lookup name := by
  rw [List.lookup_cons]
  by_cases h : name = first
  · simp [h]
  · rw [beq_eq_false_iff_ne.2 h, if_neg h]

theorem lookup_eq_none_of_lt (h : ∀ e ∈ es, name < e.1) : es.lookup name = none := by
  rw [List.lookup_eq_none_iff]
  exact fun e he => bne_iff_ne.2 (ne_of_lt (h e he))

/-- **One folder is changed, and the others are not.** -/
theorem lookup_updateFolder (hs : es.Pairwise fun a b => a.1 < b.1)
    (f : List MarkdownFile → List MarkdownFile) :
    (updateFolder folder f es).lookup name =
      if name = folder then some (f ((es.lookup name).getD [])) else es.lookup name := by
  induction es with
  | nil =>
      rw [updateFolder, lookup_cons_eq]
      rfl
  | cons e rest ih =>
      obtain ⟨first, files⟩ := e
      rw [List.pairwise_cons] at hs
      rw [updateFolder]
      by_cases hfirst : folder = first
      · rw [if_pos hfirst, lookup_cons_eq, lookup_cons_eq, hfirst]
        split <;> rfl
      by_cases hlt : folder < first
      · have hnone : ((first, files) :: rest).lookup folder = none :=
          lookup_eq_none_of_lt (List.forall_mem_cons.2 ⟨hlt, fun e he => hlt.trans (hs.1 e he)⟩)
        rw [if_neg hfirst, if_pos hlt, lookup_cons_eq]
        by_cases hname : name = folder
        · rw [if_pos hname, if_pos hname, hname, hnone]
          rfl
        · rw [if_neg hname, if_neg hname]
      · rw [if_neg hfirst, if_neg hlt, lookup_cons_eq, lookup_cons_eq, ih hs.2]
        by_cases hname : name = first
        · rw [if_pos hname, if_pos hname, if_neg (hname ▸ Ne.symm hfirst)]
        · rw [if_neg hname, if_neg hname]

/-- Where every name stands once, looking up finds what is there. -/
theorem mem_iff_lookup (hs : es.Pairwise fun a b => a.1 < b.1) :
    (name, files) ∈ es ↔ es.lookup name = some files := by
  induction es with
  | nil => simp
  | cons e rest ih =>
      obtain ⟨first, firstFiles⟩ := e
      rw [List.pairwise_cons] at hs
      rw [List.mem_cons, lookup_cons_eq, ih hs.2, Prod.mk.injEq]
      by_cases hname : name = first
      · have hnone : rest.lookup name = none := lookup_eq_none_of_lt (hname ▸ hs.1)
        simp [hname, hname ▸ hnone, eq_comm]
      · simp [hname]

end Lookup

/-! ## 2. Steps -/

/-- What can be done to a table of contents. -/
inductive TocStep where
  | addFolder (folder : String)
  | addFile (folder : String) (file : MarkdownFile)

namespace TocStep

variable {name : String} {files : List MarkdownFile}

/-- The folder that a step names. -/
def folder : TocStep → String
  | addFolder name => name
  | addFile name _ => name

/-- The document that a step adds to a folder. -/
def fileIn? (name : String) : TocStep → Option MarkdownFile
  | addFolder _ => none
  | addFile other file => if other = name then some file else none

/-- A table of contents after a step. -/
def run (toc : Toc) : TocStep → Toc
  | addFolder name => toc.addFolder name
  | addFile name file => toc.addFile name file

/-- The table of contents that steps build. -/
def build (steps : List TocStep) : Toc :=
  steps.foldl run .empty

theorem lookup_run (toc : Toc) (step : TocStep) (name : String) :
    (run toc step).folders.lookup name =
      if name = step.folder then
        some ((toc.folders.lookup name).getD [] ++ (step.fileIn? name).toList)
      else toc.folders.lookup name := by
  cases step with
  | addFolder other =>
      rw [run, Toc.addFolder, lookup_updateFolder toc.sorted]
      simp [folder, fileIn?]
  | addFile other file =>
      rw [run, Toc.addFile, lookup_updateFolder toc.sorted]
      by_cases h : name = other <;> simp [folder, fileIn?, h]

theorem filterMap_fileIn?_eq_nil {steps : List TocStep} (h : name ∉ steps.map folder) :
    steps.filterMap (fileIn? name) = [] := by
  refine List.filterMap_eq_nil_iff.2 fun step hstep => ?_
  cases step with
  | addFolder other => rfl
  | addFile other file =>
      refine if_neg ?_
      rintro rfl
      exact h (List.mem_map_of_mem hstep)

/-- **A folder has the documents of the steps that added to it.** -/
theorem lookup_build (steps : List TocStep) (name : String) :
    (build steps).folders.lookup name =
      if name ∈ steps.map folder then some (steps.filterMap (fileIn? name)) else none := by
  induction steps using List.reverseRecOn with
  | nil => rfl
  | append_singleton steps step ih =>
      have hrun : build (steps ++ [step]) = run (build steps) step := by
        rw [build, List.foldl_concat, build]
      have hlast : [step].filterMap (fileIn? name) = (step.fileIn? name).toList := by
        cases h : step.fileIn? name <;> simp [h]
      rw [hrun, lookup_run, ih, List.filterMap_append, hlast]
      simp only [List.map_append, List.map_cons, List.map_nil, List.mem_append, List.mem_singleton]
      by_cases hname : name = step.folder
      · rw [if_pos hname]
        by_cases hbefore : name ∈ steps.map folder
        · rw [if_pos hbefore, if_pos (.inl hbefore), Option.getD_some]
        · rw [if_neg hbefore, if_pos (.inr hname), Option.getD_none,
            filterMap_fileIn?_eq_nil hbefore]
      · have hnone : step.fileIn? name = none := by
          cases step with
          | addFolder other => rfl
          | addFile other file => exact if_neg fun e => hname e.symm
        rw [if_neg hname, hnone]
        simp [hname]

/-- **The folders are those that were named, each with what was added to it.** -/
theorem mem_build (steps : List TocStep) :
    (name, files) ∈ (build steps).folders ↔
      name ∈ steps.map folder ∧ files = steps.filterMap (fileIn? name) := by
  rw [mem_iff_lookup (build steps).sorted, lookup_build]
  split
  · rename_i h
    simp [h, eq_comm]
  · rename_i h
    simp [h]

end TocStep

end Quire.Site
