import Quire.Proofs.Glob.Shared
import Quire.Proofs.Site.Build

/-!
# What the source directory is called

A build reaches everything by paths that begin with the name of the source directory. As long as the
name is plain to patterns and the options lead nowhere outside, only what stands behind it counts:
**builds of one directory under two names go alike** (`alike_build`), down to what becomes of the
directory, whatever else there is next to it. A name that is not plain is read as part of the image
patterns, which then find other paths than the options ask for.

What the system refuses for its length may hang on the name, so the names have to leave room for the
paths that a build comes to, or be equally long (`Renaming`).
-/

namespace Quire.Site

open Quire.Action (Alike)
open Quire.Document (Block)
open Quire.Glob (SameFault SameTail surplus)
open Quire.Path (IsTail Name extend)
open Quire.Tree (Directory Interchangeable Shares Place placeOf pathOf spanOf stretchOf)

/-! ## 1. What is alike -/

/-- Whether two failures are of one kind. The paths that they tell may differ. -/
inductive AccessError.SameKind : AccessError → AccessError → Prop
  | missing (path path' : String) : SameKind (.missing path) (.missing path')
  | system (cause : Tree.SystemError) : SameKind (.system cause) (.system cause)
  | noSource (path path' : String) : SameKind (.noSource path) (.noSource path')
  | badPattern (pattern : String) {e f : Glob.Refusal} : SameFault e f →
      SameKind (.badPattern pattern e) (.badPattern pattern f)

/-- Whether two builds failed at the same and for causes of one kind. -/
inductive BuildError.SameKind : BuildError → BuildError → Prop
  | staging {c d : AccessError} : c.SameKind d → SameKind (.staging c) (.staging d)
  | document (path : String) {c d : AccessError} : c.SameKind d →
      SameKind (.document path c) (.document path d)
  | access {c d : AccessError} : c.SameKind d → SameKind (.access c) (.access d)

/-- A report with its paths behind those of the source directory. -/
def BuildReport.behind (source : String) (r : BuildReport) : BuildReport :=
  { r with pages := r.pages.map (source ++ ·), index := r.index.map (source ++ ·) }

/-- Whether two reports are one, each behind its source directory. -/
def BuildReport.Alike (source source' : String) (r s : BuildReport) : Prop :=
  ∃ q : BuildReport, r = q.behind source ∧ s = q.behind source'

/-! ## 2. Options -/

/-- Whether options lead nowhere outside of the source directory: the output directory and the image
patterns are relative to it, and do not go up above it on the way. -/
structure Options.StaysInside (o : Options) : Prop where
  output : Path.isFromTop o.outputDirectory = false ∧
    Path.StaysBelow [] (Path.components o.outputDirectory)
  patterns : ∀ pattern ∈ o.imagePatterns, Path.isFromTop pattern = false ∧
    ∀ p, Glob.Pattern.behindSlash pattern = .ok p → Glob.staysInside 0 p.pieces = true

/-- How much longer the paths that a pattern finds can be than their places. -/
def patternSurplus (span : Nat) (pattern : String) : Nat :=
  match Glob.Pattern.behindSlash pattern with
  | .ok p => surplus span p.pieces
  | .error _ => 0

/-- How much longer the paths of a build can be than their places. -/
def Options.surplus (o : Options) (span : Nat) : Nat :=
  o.outputDirectory.utf8ByteSize + ((o.imagePatterns.map (patternSurplus span)).max?.getD 0)

/-- How many bytes the places in a directory can take while a site is built there. -/
def Options.span (o : Options) (d : Directory) : Nat :=
  max d.span (stretchOf (Path.components o.outputDirectory) + 300)

/-- How many bytes can stand behind the name of the source directory in the paths of a build. -/
def Options.room (o : Options) (d : Directory) : Nat :=
  2 * o.span d + o.surplus (o.span d)

/-- What two names have to come to for builds of one directory under them to go alike. -/
structure Renaming (n m : Name) (o : Options) (span room : Nat) : Prop where
  first : ∀ c ∈ n.text.toList, Glob.IsPlain c
  second : ∀ c ∈ m.text.toList, Glob.IsPlain c
  inside : o.StaysInside
  names : Interchangeable n m room
  output : stretchOf (Path.components o.outputDirectory) + 300 ≤ span
  room : 2 * span + o.surplus span ≤ room

variable {n m : Name} {o : Options} {span room : Nat}

/-! ## 3. The output directory -/

/-- The name of the directory of the images. -/
def imageName : Name :=
  ⟨Page.imageDir, by decide⟩

/-- The name of the directory of the style sheet and the script. -/
def resourceName : Name :=
  ⟨Page.resourceDir, by decide⟩

/-- What stands behind the name of the source directory in the path of the output directory. -/
def rootTail (o : Options) : String :=
  extend "" o.outputDirectory

/-- What stands behind the name of the source directory in the path of a directory of the output. -/
def partTail (o : Options) (part : Name) : String :=
  extend (rootTail o) part.text

theorem join_root (n : Name) (h : Path.isFromTop o.outputDirectory = false) :
    Path.join n.text o.outputDirectory = n.text ++ rootTail o := by
  have hjoin := Path.join_tail n "" h
  rwa [String.append_empty] at hjoin

/-- The layout of the output directory, by tails behind the name of the source directory. -/
theorem layout_eq (n : Name) (h : Path.isFromTop o.outputDirectory = false) :
    Layout.under n.text o.outputDirectory =
      { root := n.text ++ rootTail o
        images := n.text ++ partTail o imageName
        content := n.text ++ partTail o contentName
        resources := n.text ++ partTail o resourceName } := by
  have hpart (part : Name) : Path.join (n.text ++ rootTail o) part.text = n.text ++ partTail o part :=
    Path.join_tail n _ (Path.isFromTop_of_isName part.isName)
  rw [Layout.under, join_root n h]
  exact congr (congr (congrArg (Layout.mk (n.text ++ rootTail o)) (hpart imageName))
    (hpart contentName)) (hpart resourceName)

/-- The names of the three directories of the output. -/
def partNames : List Name :=
  [imageName, contentName, resourceName]

theorem size_le_of_mem_partNames {part : Name} (h : part ∈ partNames) : part.text.utf8ByteSize ≤ 7 := by
  revert part
  decide

theorem components_partTail (o : Options) (part : Name) :
    Path.components (partTail o part) = Path.components o.outputDirectory ++ [.name part] := by
  rw [partTail, rootTail, Path.components_extend, Path.components_extend, Path.components_text_name,
    Path.components_empty, List.nil_append]

namespace Renaming

variable (r : Renaming n m o span room)

include r

theorem isTail_root : IsTail (rootTail o) :=
  Path.isTail_empty.extend r.inside.output.2

theorem isTail_part (part : Name) : IsTail (partTail o part) :=
  r.isTail_root.extend_name part

theorem stretch_part {part : Name} (hpart : part ∈ partNames) :
    stretchOf (Path.components (partTail o part)) + Tree.maxNameSize + 1 ≤ span := by
  have houtput := r.output
  have hsize := size_le_of_mem_partNames hpart
  rw [components_partTail, Tree.stretchOf_append, Tree.stretchOf, Tree.stretchOf, Tree.maxNameSize]
  omega

theorem span_part {part : Name} (hpart : part ∈ partNames) :
    spanOf (placeOf (partTail o part)) + Tree.maxNameSize + 1 ≤ span := by
  have hstretch := r.stretch_part hpart
  have hplace := Tree.spanOf_placeOf_le (partTail o part)
  omega

/-- There is room for the paths of the entries of the output directory. -/
theorem room_part {part : Name} (hpart : part ∈ partNames) {size : Nat} (hsize : size ≤ span + 13) :
    (partTail o part).utf8ByteSize + 1 + size ≤ room := by
  have houtput := r.output
  have hroom := r.room
  have hroot := Path.utf8ByteSize_extend_le "" o.outputDirectory
  have htail := Path.utf8ByteSize_extend_le (rootTail o) part.text
  have hempty : ("" : String).utf8ByteSize = 0 := rfl
  have hname := size_le_of_mem_partNames hpart
  rw [Options.surplus] at hroom
  rw [rootTail] at htail
  rw [partTail, rootTail]
  omega

/-! ## 4. Staging -/

theorem alike_stageDirectories :
    Alike (Shares n m span) AccessError.SameKind Eq
      (stageDirectories (Layout.under n.text o.outputDirectory))
      (stageDirectories (Layout.under m.text o.outputDirectory)) := by
  have hparts : List.Forall₂ (fun dir dir' => ∃ part ∈ partNames, dir = n.text ++ partTail o part ∧
        dir' = m.text ++ partTail o part)
      (partNames.map fun part => n.text ++ partTail o part)
      (partNames.map fun part => m.text ++ partTail o part) := by
    rw [List.forall₂_map_left_iff, List.forall₂_map_right_iff, List.forall₂_same]
    exact fun part hpart => ⟨part, hpart, rfl, rfl⟩
  rw [layout_eq n r.inside.output.1, layout_eq m r.inside.output.1]
  refine Action.alike_forM hparts ?_
  rintro _ _ ⟨part, hpart, rfl, rfl⟩
  refine Alike.onFailure (E := Eq) (Action.alike_changeStepwise fun t u h => ?_) ?_
  · have hsize := r.room_part hpart (Nat.zero_le _)
    have hspan := r.stretch_part hpart
    exact h.makeDirectories r.names (r.isTail_part part) (by omega) (by omega)
  · rintro e _ rfl
    exact .system e

theorem alike_stageAssets :
    Alike (Shares n m span) AccessError.SameKind Eq
      (stageAssets (Layout.under n.text o.outputDirectory))
      (stageAssets (Layout.under m.text o.outputDirectory)) := by
  have hassets : List.Forall₂ (fun a b => a = b ∧ ∃ h : Path.IsName a.1, a.1.utf8ByteSize ≤ 13)
      assets assets := by
    refine List.forall₂_same.2 fun a ha => ⟨rfl, ?_⟩
    revert a
    rw [assets]
    simp only [List.forall_mem_cons]
    exact ⟨⟨by decide, by decide⟩, ⟨by decide, by decide⟩, by simp⟩
  rw [stageAssets_eq, stageAssets_eq]
  refine Action.alike_forM hassets ?_
  rintro ⟨name, text⟩ _ ⟨rfl, hname, hsize⟩
  dsimp only at hname hsize
  have hpart : resourceName ∈ partNames := by decide
  have htop := Path.isFromTop_of_isName hname
  rw [stageAsset, stageAsset, Layout.asset, Layout.asset, layout_eq n r.inside.output.1,
    layout_eq m r.inside.output.1]
  dsimp only
  rw [Path.join_tail n _ htop, Path.join_tail m _ htop]
  refine Alike.onFailure (E := Eq) (Action.alike_change fun t u h => ?_) ?_
  · have hroom := r.room_part hpart (hsize.trans (Nat.le_add_left 13 span))
    exact h.write r.names (r.isTail_part resourceName) ⟨name, hname⟩
      ((Path.utf8ByteSize_extend_le _ _).trans hroom) (r.span_part hpart) text.toUTF8
  · rintro e _ rfl
    exact .system e

omit r in
/-- A file below the name of the source directory has its own name, behind whatever name it is. -/
theorem exists_fileName {t u : Tree} {x : String} (h : Shares n m span t u) (hx : IsTail x)
    (hfile : t.hasFile (n.text ++ x) = true) : ∃ k : Name, k.text.utf8ByteSize ≤ span ∧
      Path.fileName? (n.text ++ x) = some k ∧ Path.fileName? (m.text ++ x) = some k := by
  obtain ⟨p, c, hl⟩ := Tree.hasFile_iff.1 hfile
  obtain ⟨-, -, ⟨ds, k, hcs, -, -⟩, rfl, hat⟩ := Tree.locate_eq_file.1 hl
  have hplace := Path.placeOf_tail n hx
  have hentry := h.spanOf_le_of_hasEntry hx (Tree.hasEntry_iff.2 (.inr ⟨_, c, hl⟩))
  rw [Path.components_tail n hx] at hcs
  rcases List.eq_nil_or_concat (Path.components x) with hnil | ⟨front, last, hlast⟩
  · obtain ⟨d, hd, -⟩ := h.directory
    rw [hplace, placeOf, hnil] at hat
    cases hat.symm.trans hd
  · rw [List.concat_eq_append] at hlast
    rw [hlast, ← List.cons_append] at hcs
    obtain rfl := List.head_eq_of_cons_eq (List.append_inj' hcs rfl).2
    refine ⟨k, ?_, ?_, ?_⟩
    · rw [Tree.placeOf_concat hlast, Tree.spanOf_append, Tree.spanOf_cons] at hentry
      omega
    · have hcs := Path.components_tail n hx
      rw [hlast, ← List.cons_append] at hcs
      exact Path.fileName?_of_components hcs
    · have hcs := Path.components_tail m hx
      rw [hlast, ← List.cons_append] at hcs
      exact Path.fileName?_of_components hcs

theorem alike_stageImage (copied : Nat) {path path' : String}
    (hpath : SameTail n m (span + o.surplus span) path path') :
    Alike (Shares n m span) AccessError.SameKind Eq
      (stageImage (Layout.under n.text o.outputDirectory) copied path)
      (stageImage (Layout.under m.text o.outputDirectory) copied path') := by
  obtain ⟨x, hx, hsize, rfl, rfl⟩ := hpath
  have hroom := r.room
  have hxroom : x.utf8ByteSize ≤ room := by omega
  rw [layout_eq n r.inside.output.1, layout_eq m r.inside.output.1]
  refine Action.alike_tree.bind fun t u h => ?_
  dsimp only
  rw [← h.hasFile_eq r.names hx hxroom, ← Path.isUnder_tail n m hx r.isTail_root]
  split
  · exact Action.alike_pure rfl
  rename_i hcond
  rw [Bool.or_eq_true, not_or, Bool.not_eq_true', Bool.not_eq_false] at hcond
  obtain ⟨k, hk, hn, hm⟩ := exists_fileName h hx hcond.1
  have htop := Path.isFromTop_of_isName k.isName
  have hpart : imageName ∈ partNames := by decide
  have himage := (Path.utf8ByteSize_extend_le (partTail o imageName) k.text).trans
    (r.room_part hpart (by omega))
  rw [hn, hm]
  dsimp only
  rw [Path.join_tail n _ htop, Path.join_tail m _ htop,
    h.hasEntry_eq r.names ((r.isTail_part imageName).extend_name k) himage]
  split
  · exact (Action.alike_note _ _).bind fun _ _ _ => Action.alike_pure rfl
  · refine Alike.bind (A := Eq) (Alike.onFailure (E := Eq) (Action.alike_change fun t u h => ?_) ?_)
      fun _ _ _ => Action.alike_pure rfl
    · exact h.copy r.names hx hxroom (r.isTail_part imageName) k himage (r.span_part hpart)
    · rintro e _ rfl
      exact .system e

theorem alike_stagePattern (copied : Nat) {pattern : String} (hpattern : pattern ∈ o.imagePatterns) :
    Alike (Shares n m span) AccessError.SameKind Eq
      (stagePattern n.text (Layout.under n.text o.outputDirectory) copied pattern)
      (stagePattern m.text (Layout.under m.text o.outputDirectory) copied pattern) := by
  obtain ⟨htop, hpieces⟩ := r.inside.patterns pattern hpattern
  have hjoin (k : Name) : Path.join k.text pattern = k.text ++ extend "" pattern := by
    have h := Path.join_tail k "" htop
    rwa [String.append_empty] at h
  have hfirst := Glob.ofString_behind r.first pattern
  have hsecond := Glob.ofString_behind r.second pattern
  have hsurplus : patternSurplus span pattern ≤ o.surplus span :=
    (List.le_max?_getD_of_mem (List.mem_map_of_mem hpattern)).trans (Nat.le_add_left _ _)
  rw [stagePattern, stagePattern, hjoin, hjoin]
  rw [patternSurplus] at hsurplus
  have hstays (p : Glob.Pattern) (hp : Glob.Pattern.behindSlash pattern = .ok p) :
      Glob.Stays 0 p.pieces := by
    refine ⟨hpieces p hp, fun text htext => ?_⟩
    rw [Glob.Pattern.behindSlash] at hp
    split at hp
    · cases hp
      cases htext
    · exact Glob.slash_not_mem_of_mem_pieces hp htext
  generalize Glob.Pattern.ofString (n.text ++ extend "" pattern) = a at hfirst
  generalize Glob.Pattern.ofString (m.text ++ extend "" pattern) = b at hsecond
  generalize Glob.Pattern.behindSlash pattern = c at hfirst hsecond hsurplus hstays
  cases hfirst with
  | error he =>
      cases hsecond with
      | error hf => exact Action.alike_throw (.badPattern pattern (he.trans hf.symm))
  | @ok _ q hp =>
      cases hsecond with
      | ok hq =>
          subst hp
          subst hq
          have hroom := r.room
          exact Glob.alike_foldM r.names (by omega)
            (fun b path path' hpath => r.alike_stageImage b hpath)
            (fun b path => keeps_fills_stageImage b path) (fun b path => keeps_fills_stageImage b path)
            (hstays q rfl) hsurplus q.directoriesOnly copied

theorem alike_stage : Alike (Shares n m span) AccessError.SameKind Eq
    (stage n.text (Layout.under n.text o.outputDirectory) o.imagePatterns)
    (stage m.text (Layout.under m.text o.outputDirectory) o.imagePatterns) := by
  rw [stage_eq, stage_eq]
  refine r.alike_stageDirectories.bind fun _ _ _ => r.alike_stageAssets.bind fun _ _ _ => ?_
  refine Action.alike_foldlM (P := fun p q => p = q ∧ p ∈ o.imagePatterns)
    (List.forall₂_same.2 fun pattern hpattern => ⟨rfl, hpattern⟩) ?_ rfl
  rintro pattern _ ⟨rfl, hpattern⟩ copied _ rfl
  exact r.alike_stagePattern copied hpattern

/-! ## 5. Reading -/

omit r in
theorem agree_sourceDirectory {t u : Tree} (h : Shares n m span t u) (hnames : Interchangeable n m room) :
    Agree AccessError.SameKind Eq (sourceDirectory n.text t) (sourceDirectory m.text u) := by
  have hdirectory := h.directory?_eq hnames Path.isTail_empty (Nat.zero_le _)
  rw [String.append_empty, String.append_empty] at hdirectory
  rw [sourceDirectory, sourceDirectory, hdirectory]
  cases u.directory? m.text with
  | none => exact .error (.noSource _ _)
  | some d => exact .ok rfl

theorem agree_contents {t u : Tree} (h : Shares n m span t u) (excluded : List String) :
    Agree AccessError.SameKind Eq (contents n.text excluded t) (contents m.text excluded u) := by
  have hsource := agree_sourceDirectory h r.names
  rw [contents, contents]
  generalize sourceDirectory n.text t = a at hsource
  generalize sourceDirectory m.text u = b at hsource
  cases hsource with
  | ok hd => exact .ok (congrArg (contentsOf excluded) hd)
  | error he => exact .error he

omit r in
/-- Whether a document lies at a place within a span. -/
def Within (span : Nat) (f : MarkdownFile) : Prop :=
  ∃ (q : Place) (k : Name), f = ⟨pathOf (q ++ [k])⟩ ∧ spanOf (q ++ [k]) ≤ span

theorem agree_documents {t u : Tree} (h : Shares n m span t u) (filter : Filter) :
    Agree AccessError.SameKind (fun files files' => files = files' ∧ ∀ f ∈ files, Within span f)
      (documents n.text filter t) (documents m.text filter u) := by
  have hsource := agree_sourceDirectory h r.names
  have hwithin (files : List MarkdownFile) (hfiles : documents n.text filter t = .ok files) :
      ∀ f ∈ files, Within span f := by
    intro f hf
    obtain ⟨_, rfl, ⟨q, k, rfl, -, -⟩, c, hk⟩ := (mem_documents hfiles).1 hf
    refine ⟨q, k, rfl, h.within ?_⟩
    rw [placeOf, Path.components_text_name] at hk
    rw [show n :: (q ++ [k]) = Tree.placeFrom [] [.name n] ++ (q ++ [k]) from rfl, hk]
    simp
  rw [documents] at hwithin ⊢
  rw [documents]
  generalize sourceDirectory n.text t = a at hsource hwithin
  generalize sourceDirectory m.text u = b at hsource
  cases hsource with
  | ok hd => exact .ok ⟨congrArg filter.documents hd, hwithin _ rfl⟩
  | error he => exact .error he

omit r in
theorem sublist_stem (k : Name) : k.stem.toList.Sublist k.text.toList := by
  rw [Name.stem]
  split
  · exact .refl _
  · exact .refl _
  · rename_i before _ h
    have hsub := (List.dropWhile_suffix (fun c => c != '.') (l := k.text.toList.reverse)).sublist
    rw [h] at hsub
    rw [String.toList_ofList, ← List.reverse_reverse k.text.toList]
    exact ((List.sublist_cons_self _ _).trans hsub).reverse

omit r in
/-- The page of a document has a name that is hardly longer than the span of its place. -/
theorem size_pageName_le {f : MarkdownFile} (hf : Within span f) :
    (pageName f).text.utf8ByteSize ≤ span + 5 := by
  obtain ⟨q, k, rfl, hspan⟩ := hf
  have hstem := Text.byteSize_le_of_sublist (sublist_stem k)
  rw [Text.byteSize_toList, Text.byteSize_toList] at hstem
  have hending : (".html" : String).utf8ByteSize = 5 := by decide
  have hpage : (pageName ⟨pathOf (q ++ [k])⟩).text = k.stem ++ ".html" := by
    rw [← String.toList_inj, String.toList_append]
    show (MarkdownFile.pageFile _).toList = _
    rw [toList_pageFile, displayName_pathOf]
  rw [Tree.spanOf_append, Tree.spanOf_cons] at hspan
  rw [hpage, String.utf8ByteSize_append, hending]
  omega

theorem agree_readText {t u : Tree} (h : Shares n m span t u) {f : MarkdownFile} (hf : Within span f) :
    Agree AccessError.SameKind Eq (readText n.text f.path t) (readText m.text f.path u) := by
  obtain ⟨q, k, rfl, hspan⟩ := hf
  have hroom := r.room
  obtain ⟨htail, hsize⟩ := Tree.extendAll_pathOf Path.isTail_empty (q ++ [k])
  have hempty : ("" : String).utf8ByteSize = 0 := rfl
  have hbelow (j : Name) : Path.below j.text (pathOf (q ++ [k])) =
      j.text ++ Path.extendAll "" (pathOf (q ++ [k])) := by
    have hbelow := Path.below_tail j "" (pathOf (q ++ [k]))
    rwa [String.append_empty] at hbelow
  rw [readText, readText]
  dsimp only
  rw [hbelow, hbelow, h.hasEntry_eq r.names htail (by omega), h.readText_eq r.names htail (by omega)]
  split
  · cases u.readText (m.text ++ Path.extendAll "" (pathOf (q ++ [k]))) with
    | ok text => exact .ok rfl
    | error e => exact .error (.system e)
  · exact .error (.missing _ _)

theorem alike_loadDocument {f : MarkdownFile} (hf : Within span f) :
    Alike (Shares n m span) BuildError.SameKind Eq (loadDocument n.text o.language f)
      (loadDocument m.text o.language f) := by
  refine Alike.bind (A := Eq) (Alike.onFailure (Action.alike_ask fun t u h => r.agree_readText h hf)
    fun _ _ he => .document f.path he) ?_
  rintro text _ rfl
  dsimp only
  exact Alike.bind (A := Eq) (Action.alike_forM (P := Eq) (List.forall₂_same.2 fun _ _ => rfl)
    fun _ _ _ => Action.alike_note _ _) fun _ _ _ => Action.alike_pure rfl

/-! ## 6. Writing -/

/-- **A text is written alike to an entry behind one tail.** -/
theorem alike_writeText {z path root root' : String} {k : Name} (hz : IsTail z)
    (hend : Path.EndsInName z) (hn : Path.below root path = n.text ++ extend z k.text)
    (hm : Path.below root' path = m.text ++ extend z k.text)
    (hroom : (extend z k.text).utf8ByteSize ≤ room)
    (hstretch : stretchOf (Path.components z) + Tree.maxNameSize + 1 ≤ span) (text : String) :
    Alike (Shares n m span) AccessError.SameKind Eq (writeText root path text)
      (writeText root' path text) := by
  have hzroom : z.utf8ByteSize ≤ room := by
    rw [hend.extend_text, String.utf8ByteSize_append, String.utf8ByteSize_append] at hroom
    omega
  have hplace := Tree.spanOf_placeOf_le z
  rw [writeText_def, writeText_def, hn, hm]
  refine Alike.onFailure (E := Eq) (Alike.bind (A := Eq) (Action.alike_changeStepwise fun t u h => ?_)
    fun _ _ _ => Action.alike_change fun t u h => ?_) ?_
  · exact h.makeParents r.names hz hend k hzroom (by omega)
  · exact h.write r.names hz k hroom (by omega) text.toUTF8
  · rintro e _ rfl
    exact .system e

omit r in
/-- What stands behind the name of the source directory in the path that a page is written to. -/
theorem below_page (k : Name) (f : MarkdownFile) :
    Path.below (k.text ++ rootTail o) s!"{Page.contentDir}/{f.pageFileName}" =
      k.text ++ extend (rootTail o ++ "/" ++ contentName.text) (pageName f).text := by
  have hend : Path.EndsInName (rootTail o ++ "/" ++ contentName.text) := .inr ⟨_, contentName, rfl⟩
  rw [Path.below_tail, hend.extend_text, Path.extendAll, components_contentDir]
  rfl

theorem alike_writePage {f : MarkdownFile} (hf : Within span f) (text : String) :
    Alike (Shares n m span) AccessError.SameKind Eq
      (writeText (Layout.under n.text o.outputDirectory).root
        s!"{Page.contentDir}/{f.pageFileName}" text)
      (writeText (Layout.under m.text o.outputDirectory).root
        s!"{Page.contentDir}/{f.pageFileName}" text) := by
  have hend : Path.EndsInName (rootTail o ++ "/" ++ contentName.text) := .inr ⟨_, contentName, rfl⟩
  have hname := size_pageName_le hf
  have hroom := r.room
  have houtput := r.output
  have hroot := Path.utf8ByteSize_extend_le "" o.outputDirectory
  have hempty : ("" : String).utf8ByteSize = 0 := rfl
  have hslash : ("/" : String).utf8ByteSize = 1 := rfl
  have hcontent : contentName.text.utf8ByteSize = 7 := by decide
  rw [Options.surplus] at hroom
  rw [layout_eq n r.inside.output.1, layout_eq m r.inside.output.1]
  refine r.alike_writeText (r.isTail_root.slash contentName) hend (below_page n f) (below_page m f)
    ?_ ?_ text
  · rw [hend.extend_text, rootTail]
    simp only [String.utf8ByteSize_append, hslash, hcontent]
    omega
  · rw [Path.components_append_slash, rootTail, Path.components_extend, Path.components_text_name,
      Path.components_empty, List.nil_append, Tree.stretchOf_append, Tree.stretchOf, Tree.stretchOf,
      hcontent, Tree.maxNameSize]
    omega

end Renaming

/-- How far a conversion has come, with its paths behind those of the source directory. -/
def Progress.behind (source : String) (p : Progress) : Progress :=
  { p with pages := p.pages.map (source ++ ·) }

/-- Whether two conversions have come equally far, each behind its source directory. -/
def Progress.Alike (source source' : String) (p q : Progress) : Prop :=
  ∃ s : Progress, p = s.behind source ∧ q = s.behind source'

namespace Renaming

variable (r : Renaming n m o span room)

include r

theorem page_eq (k : Name) (f : MarkdownFile) : (Layout.under k.text o.outputDirectory).page f =
    k.text ++ extend (partTail o contentName) f.pageFileName := by
  rw [Layout.page, layout_eq k r.inside.output.1]
  exact Path.join_tail k _ (Path.isFromTop_of_isName (isName_pageFileName f))

/-- One more document brings two conversions equally far. -/
theorem alike_add {p q : Progress} (hpq : p.Alike n.text m.text q) (f : MarkdownFile)
    (blocks : List Block) : (p.add (Layout.under n.text o.outputDirectory) f blocks).Alike n.text m.text
      (q.add (Layout.under m.text o.outputDirectory) f blocks) := by
  obtain ⟨s, rfl, rfl⟩ := hpq
  have hadd (k : Name) : (s.behind k.text).add (Layout.under k.text o.outputDirectory) f blocks =
      Progress.behind k.text
        { pages := s.pages ++ [extend (partTail o contentName) f.pageFileName]
          overwritten := s.overwritten ++ ((s.writer? f.pageFileName).map (·.path)).toList
          written := f :: s.written
          last := some (f, blocks) } := by
    rw [Progress.add, r.page_eq, Progress.behind, Progress.behind, List.map_append, List.map_singleton]
    rfl
  exact ⟨_, hadd n, hadd m⟩

theorem alike_convert (toc : Toc) {p q : Progress} (hpq : p.Alike n.text m.text q) {f : MarkdownFile}
    (hf : Within span f) : Alike (Shares n m span) BuildError.SameKind (Progress.Alike n.text m.text)
      (convert n.text o (Layout.under n.text o.outputDirectory) toc p f)
      (convert m.text o (Layout.under m.text o.outputDirectory) toc q f) := by
  rw [convert_def, convert_def]
  refine (r.alike_loadDocument hf).bind ?_
  rintro blocks _ rfl
  refine Alike.bind (A := Eq) (Alike.onFailure (r.alike_writePage hf _) fun _ _ he =>
    .document f.path he) fun _ _ _ => ?_
  have hwriter : p.writer? f.pageFileName = q.writer? f.pageFileName := by
    obtain ⟨s, rfl, rfl⟩ := hpq
    rfl
  rw [hwriter]
  refine Alike.bind (A := Eq) ?_ fun _ _ _ => Alike.bind (A := Eq) (Action.alike_note _ _)
    fun _ _ _ => Action.alike_pure (r.alike_add hpq f blocks)
  cases (q.writer? f.pageFileName).map (·.path) with
  | none => exact Action.alike_pure rfl
  | some path => exact Action.alike_note _ _

theorem alike_writeIndex (toc : Toc) (f : MarkdownFile) (blocks : List Block) :
    Alike (Shares n m span) BuildError.SameKind
      (fun a b => ∃ x, a = n.text ++ x ∧ b = m.text ++ x)
      (writeIndex n.text o toc f blocks) (writeIndex m.text o toc f blocks) := by
  have hroom := r.room
  have houtput := r.output
  have hend : Path.EndsInName "" := .inl rfl
  have hcomponents : Path.components Page.indexFile = [.name indexName] :=
    Path.components_text_name indexName
  have hbelow (k : Name) : Path.below k.text Page.indexFile = k.text ++ extend "" indexName.text := by
    have hbelow := Path.below_tail k "" Page.indexFile
    rw [Path.extendAll, hcomponents, String.append_empty] at hbelow
    rw [hbelow, hend.extend_text]
    rfl
  have hindex (k : Name) : indexPath k.text = k.text ++ extend "" indexName.text := by
    have hjoin := Path.join_tail k "" (Path.isFromTop_of_isName indexName.isName)
    rwa [String.append_empty] at hjoin
  rw [writeIndex_def, writeIndex_def, hindex, hindex]
  refine Alike.bind (A := Eq) (Alike.onFailure (r.alike_writeText Path.isTail_empty hend (hbelow n)
    (hbelow m) ?_ ?_ _) fun _ _ he => .access he) fun _ _ _ => Alike.bind (A := Eq)
      (Action.alike_note _ _) fun _ _ _ => Action.alike_pure ⟨_, rfl, rfl⟩
  · have hsize : (extend "" indexName.text).utf8ByteSize = 11 := by decide
    omega
  · rw [Path.components_empty, Tree.stretchOf, Tree.maxNameSize]
    omega

theorem alike_writeLast (toc : Toc) {p q : Progress} (hpq : p.Alike n.text m.text q) :
    Alike (Shares n m span) BuildError.SameKind
      (fun a b => ∃ x : Option String, a = x.map (n.text ++ ·) ∧ b = x.map (m.text ++ ·))
      (writeLast n.text o toc p) (writeLast m.text o toc q) := by
  have hlast : p.last = q.last := by
    obtain ⟨s, rfl, rfl⟩ := hpq
    rfl
  rw [writeLast, writeLast, hlast]
  cases q.last with
  | none => exact (Action.alike_note _ _).bind fun _ _ _ => Action.alike_pure ⟨none, rfl, rfl⟩
  | some last =>
      obtain ⟨f, blocks⟩ := last
      dsimp only
      rw [map_eq_pure_bind, map_eq_pure_bind]
      refine (r.alike_writeIndex toc f blocks).bind ?_
      rintro _ _ ⟨x, rfl, rfl⟩
      exact Action.alike_pure ⟨some x, rfl, rfl⟩

theorem alike_writeSite (copied : Nat) :
    Alike (Shares n m span) BuildError.SameKind (BuildReport.Alike n.text m.text)
      (writeSite n.text o copied) (writeSite m.text o copied) := by
  rw [writeSite, writeSite]
  refine Alike.bind (A := Eq) (Alike.onFailure (Action.alike_ask fun t u h => r.agree_contents h _)
    fun _ _ he => .access he) ?_
  rintro toc _ rfl
  refine Alike.bind (Alike.onFailure (Action.alike_ask fun t u h => r.agree_documents h _)
    fun _ _ he => .access he) ?_
  rintro files _ ⟨rfl, hfiles⟩
  refine Alike.bind (A := Eq) (Action.alike_note _ _) fun _ _ _ => ?_
  refine Alike.bind (A := Progress.Alike n.text m.text) (Action.alike_foldlM
    (P := fun f g => f = g ∧ Within span f) (List.forall₂_same.2 fun f hf => ⟨rfl, hfiles f hf⟩)
    ?_ ⟨{}, rfl, rfl⟩) fun p q hpq => ?_
  · rintro f _ ⟨rfl, hf⟩ p q hpq
    exact r.alike_convert toc hpq hf
  · refine (r.alike_writeLast toc hpq).bind ?_
    rintro _ _ ⟨index, rfl, rfl⟩
    obtain ⟨s, rfl, rfl⟩ := hpq
    exact Action.alike_pure ⟨s.report copied index, rfl, rfl⟩

/-- **Builds of one directory under two names go alike.** -/
theorem alike_build : Alike (Shares n m span) BuildError.SameKind (BuildReport.Alike n.text m.text)
    (build n.text o) (build m.text o) := by
  rw [build_def, build_def]
  refine Alike.bind (A := Eq) (Alike.onFailure
    (Action.alike_ask fun t u h => agree_sourceDirectory h r.names) fun _ _ he => .access he)
    fun _ _ _ => ?_
  refine Alike.bind (A := Eq) (Alike.onFailure r.alike_stage fun _ _ he => .staging he) ?_
  rintro copied _ rfl
  exact Alike.bind (A := Eq) (Action.alike_note _ _) fun _ _ _ => r.alike_writeSite copied

end Renaming

/-! ## 7. Builds -/

/-- Whether a name can be that of an entry as far as the system goes: it is not too long and has no null
in it. -/
def IsEntryName (n : Name) : Prop :=
  n.text.utf8ByteSize ≤ Tree.maxNameSize ∧ '\x00' ∉ n.text.toList

instance (n : Name) : Decidable (IsEntryName n) :=
  inferInstanceAs (Decidable (_ ∧ _))

/-- Whether a name is plain to patterns. -/
def IsPlainName (n : Name) : Prop :=
  ∀ c ∈ n.text.toList, Glob.IsPlain c

instance (n : Name) : Decidable (IsPlainName n) :=
  inferInstanceAs (Decidable (∀ c ∈ n.text.toList, _))

/-- Whether two names are equally long, or leave room for the paths of a build. -/
def LeavesRoom (n m : Name) (o : Options) (d : Directory) : Prop :=
  n.text.utf8ByteSize = m.text.utf8ByteSize ∨
    n.text.utf8ByteSize + o.room d ≤ Tree.maxPathSize ∧
      m.text.utf8ByteSize + o.room d ≤ Tree.maxPathSize

instance (n m : Name) (o : Options) (d : Directory) : Decidable (LeavesRoom n m o d) :=
  inferInstanceAs (Decidable (_ ∨ _))

/-- **A build does not depend on what the source directory is called**, if the name is plain to patterns:
under two names the same becomes of the directory, and there is the same report, or a failure of the
same kind. -/
theorem build_renamed {v w : Workspace} {d : Directory} (hn : v.tree.at? [n] = some (.directory d))
    (hm : w.tree.at? [m] = some (.directory d)) (hentry : IsEntryName n ∧ IsEntryName m)
    (hplain : IsPlainName n ∧ IsPlainName m) (ho : o.StaysInside) (hroom : LeavesRoom n m o d) :
    Agree BuildError.SameKind (BuildReport.Alike n.text m.text) ((build n.text o).runOn v).1
      ((build m.text o).runOn w).1 ∧
    ∃ e, ((build n.text o).runOn v).2.tree.at? [n] = some (.directory e) ∧
      ((build m.text o).runOn w).2.tree.at? [m] = some (.directory e) := by
  have hnames : Interchangeable n m (o.room d) :=
    Tree.interchangeable hentry.1.1 hentry.2.1 hentry.1.2 hentry.2.2 hroom
  have hrenaming : Renaming n m o (o.span d) (o.room d) :=
    ⟨hplain.1, hplain.2, ho, hnames, le_max_right _ _, Nat.le_refl _⟩
  have hshares : Shares n m (o.span d) v.tree w.tree := by
    refine ⟨⟨d, hn, hm⟩, fun {q} hq => ?_⟩
    have hat : d.at? q ≠ none := by
      rw [Ne, Tree.kind?_eq_none] at hq
      rwa [← Directory.at?_append_of_directory hn q]
    exact (Directory.spanOf_le_span hat).trans (le_max_left _ _)
  obtain ⟨hagree, hafter⟩ := hrenaming.alike_build v w hshares
  exact ⟨hagree, hafter.directory⟩

theorem isName_sample : Path.IsName "s" := by decide

theorem isName_other : Path.IsName "site" := by decide

/-- The name of the source of the sample. -/
def sampleName : Name :=
  ⟨"s", isName_sample⟩

/-- Another name. -/
def otherName : Name :=
  ⟨"site", isName_other⟩

/-- What the source of the sample holds. -/
def sampleSource : Directory :=
  match sampleTree.at? [sampleName] with
  | some (.directory d) => d
  | _ => .nil

/-- The source under the other name, next to a file of the old one. -/
def otherTree : Tree :=
  let t := Tree.empty.putFile [sampleName] .empty
  let source : sampleTree.top.get? sampleName = some (.directory sampleSource) := rfl
  { top := t.top.putAt (.directory sampleSource) [otherName]
    distinct := t.distinct.putAt (sampleTree.distinct.get? source) }

theorem staysInside_sample : sampleOptions.StaysInside where
  output := by decide
  patterns pattern hpattern := by
    obtain rfl := List.mem_singleton.1 hpattern
    refine ⟨by decide, fun p hp => ?_⟩
    have hpieces : Glob.Pattern.behindSlash "G/a.png" =
        .ok ⟨[.literal "G", .literal "a.png"], false⟩ := by decide +kernel
    cases hpieces.symm.trans hp
    decide

/-- Under the other name there is the same site and the same report. -/
theorem build_renamed_sample : ∃ (q : BuildReport) (e : Directory),
    ((build "s" sampleOptions).runOn ⟨sampleTree, []⟩).1 = .ok (q.behind "s") ∧
    ((build "site" sampleOptions).runOn ⟨otherTree, []⟩).1 = .ok (q.behind "site") ∧
    ((build "s" sampleOptions).runOn ⟨sampleTree, []⟩).2.tree.at? [sampleName] = some (.directory e) ∧
    ((build "site" sampleOptions).runOn ⟨otherTree, []⟩).2.tree.at? [otherName] =
      some (.directory e) := by
  have hs : sampleTree.at? [sampleName] = some (.directory sampleSource) := rfl
  have ht : otherTree.at? [otherName] = some (.directory sampleSource) := rfl
  have hroom : LeavesRoom sampleName otherName sampleOptions sampleSource := .inr (by decide +kernel)
  obtain ⟨hagree, e, hafter⟩ := build_renamed (v := ⟨sampleTree, []⟩) (w := ⟨otherTree, []⟩)
    hs ht (by decide) (by decide) staysInside_sample hroom
  have hname : sampleName.text = "s" := rfl
  have hothername : otherName.text = "site" := rfl
  obtain ⟨v, hbuild⟩ := build_sample
  rw [hname, hothername] at hagree hafter
  rw [hbuild] at hagree hafter ⊢
  generalize ((build "site" sampleOptions).runOn ⟨otherTree, []⟩).1 = other at hagree ⊢
  cases hagree with
  | ok halike =>
      obtain ⟨q, hq, rfl⟩ := halike
      exact ⟨q, e, congrArg _ hq, rfl, hafter⟩

end Quire.Site
