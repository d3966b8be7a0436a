import Quire.Proofs.Site.Pages
import Quire.Proofs.Site.Source
import Quire.Proofs.Site.Staging

/-!
# What a build comes to

A build stages its output directory, looks for the documents, converts them, and makes the index from the
last one. Once the directory is staged, all that it writes can be listed beforehand: a page for every
document, in order, and then the index (`siteFiles`). **A build that went well could write all this, and
wrote this and nothing else** (`of_build`, `IsBuilt`), and **a build that can write all this goes well**
(`run_build`, `gives_build`). Everything written is at the place of a page (`IsBuilt.grows`), and what is
written last to a place is read there (`IsBuilt.readBytes`).
-/

namespace Quire.Site

open Quire.Action (Keeps Gives)
open Quire.Document (Block)
open Quire.Path (Name)
open Quire.Tree (Grows GrowsBelow Place parentRefusal? placeOf)

variable {source output index : String} {o : Options} {toc : Toc} {f : MarkdownFile}
  {blocks : List Block} {t u : Tree} {w v : Workspace}

/-! ## 1. The index -/

/-- The name of the index. -/
def indexName : Name :=
  ⟨Page.indexFile, by decide⟩

/-- The path of the index, as it is reported. -/
def indexPath (source : String) : String :=
  Path.join source Page.indexFile

/-- The path that the index is written to, which leads to the same place. -/
def indexTarget (source : String) : String :=
  Path.below source Page.indexFile

theorem components_indexTarget (source : String) :
    Path.components (Path.below source Page.indexFile) =
      Path.components source ++ [.name indexName] := by
  rw [Path.components_below]
  exact congrArg (Path.components source ++ ·) (Path.components_text_name indexName)

theorem components_indexPath (source : String) :
    Path.components (indexPath source) = Path.components source ++ [.name indexName] := by
  have htop : Path.isFromTop Page.indexFile = false := Path.isFromTop_of_isName indexName.isName
  rw [indexPath, Path.components_join _ htop]
  exact congrArg (Path.components source ++ ·) (Path.components_text_name indexName)

theorem placeOf_indexPath (source : String) :
    placeOf (indexPath source) = placeOf source ++ [indexName] :=
  Tree.placeOf_join_name source indexName

theorem placeOf_indexTarget (source : String) :
    placeOf (indexTarget source) = placeOf (indexPath source) := by
  rw [placeOf_indexPath, indexTarget, Tree.placeOf_concat (components_indexTarget source)]
  rfl

/-- An index that can be written can be written by the path that is reported. -/
theorem canWrite_index (h : t.CanWrite (indexTarget source)) : t.CanWrite (indexPath source) :=
  h.of_shorter ((Path.IsShorter.refl source).join_below indexName)
    (Path.endsInSlash_join_name source indexName)

/-- The index, made from a document. -/
def indexPage (output : String) (toc : Toc) (f : MarkdownFile) (blocks : List Block) : String :=
  Page.pageMarkup (.index output) f.displayName blocks toc

theorem writeIndex_def (source : String) (o : Options) (toc : Toc) (f : MarkdownFile)
    (blocks : List Block) :
    writeIndex source o toc f blocks =
      Action.onFailure (writeText source Page.indexFile (indexPage o.outputDirectory toc f blocks))
        .access >>= fun _ =>
      announce (.wroteIndex (indexPath source)) >>= fun _ => pure (indexPath source) :=
  rfl

theorem of_writeIndex (h : (writeIndex source o toc f blocks).runOn w = (.ok index, v))
    (hsource : w.tree.HasMade source) :
    parentRefusal? (indexTarget source) = none ∧ w.tree.CanWrite (indexTarget source) ∧
      v.tree = w.tree.putFile (placeOf (indexPath source))
        (indexPage o.outputDirectory toc f blocks).toUTF8 ∧
      index = indexPath source := by
  rw [writeIndex_def, Action.bind_eq_ok] at h
  obtain ⟨_, w₁, hwrite, h⟩ := h
  rw [Action.onFailure_eq_ok] at hwrite
  obtain ⟨hparents, hcan, hput⟩ := of_writeText (components_indexTarget source) hsource hwrite
  rw [Action.bind_eq_ok] at h
  obtain ⟨_, w₂, hnote, h⟩ := h
  cases hnote
  cases h
  rw [← placeOf_indexTarget, indexTarget]
  exact ⟨hparents, hcan, hput, rfl⟩

theorem gives_writeIndex (o : Options) (toc : Toc) (f : MarkdownFile) (blocks : List Block)
    (hsource : t.HasMade source)
    (hparents : parentRefusal? (indexTarget source) = none)
    (hcan : t.CanWrite (indexTarget source)) :
    Gives (writeIndex source o toc f blocks) t (indexPath source)
      (t.putFile (placeOf (indexPath source)) (indexPage o.outputDirectory toc f blocks).toUTF8) := by
  have hwrite := gives_writeText (components_indexTarget source) hsource hparents hcan
    (indexPage o.outputDirectory toc f blocks)
  rw [← indexTarget, placeOf_indexTarget] at hwrite
  rw [writeIndex_def]
  refine (hwrite.onFailure _).bind ?_
  exact (Action.gives_note _ _).bind (Action.gives_pure _ _)

/-! ## 2. The parts of a build -/

/-- What is left out of the documents. -/
def Options.filter (o : Options) : Filter :=
  ⟨o.allExcluded, o.skippedFiles⟩

/-- The index, written from the latest document that was converted. -/
def writeLast (source : String) (o : Options) (toc : Toc) (done : Progress) :
    Action BuildError (Option String) :=
  match done.last with
  | some (file, blocks) => some <$> writeIndex source o toc file blocks
  | none => announce (.noDocuments source) >>= fun _ => pure none

/-- What is reported once everything is written. -/
def Progress.report (done : Progress) (copied : Nat) (index : Option String) : BuildReport where
  pages := done.pages
  imagesCopied := copied
  index := index
  overwritten := done.overwritten

/-- What a build does once the output directory is staged. -/
def writeSite (source : String) (o : Options) (copied : Nat) : Action BuildError BuildReport :=
  Action.onFailure (Action.ask (contents source o.allExcluded)) .access >>= fun toc =>
  Action.onFailure (Action.ask (documents source o.filter)) .access >>= fun files =>
  announce (.converting files.length) >>= fun _ =>
  files.foldlM (convert source o (Layout.under source o.outputDirectory) toc) {} >>= fun done =>
  writeLast source o toc done >>= fun index => pure (done.report copied index)

theorem build_def (source : String) (o : Options) :
    build source o = Action.onFailure (Action.ask (sourceDirectory source)) .access >>= fun _ =>
      Action.onFailure (stage source (Layout.under source o.outputDirectory) o.imagePatterns)
        .staging >>= fun copied =>
      announce (.staged (Layout.under source o.outputDirectory).root copied) >>= fun _ =>
      writeSite source o copied := by
  rw [build]
  refine bind_congr fun _ => bind_congr fun copied => bind_congr fun _ => bind_congr fun toc =>
    bind_congr fun files => bind_congr fun _ => bind_congr fun done => ?_
  rw [writeLast]
  cases done.last <;> rfl

/-! ## 3. Success -/

/-- The file that the index is written to, with what it gets, if there is a document. -/
def indexFiles (source : String) (o : Options) (toc : Toc) (blocks : MarkdownFile → List Block)
    (docs : List MarkdownFile) : List (Place × ByteArray) :=
  (docs.getLast?.map fun f => (placeOf (indexPath source),
    (indexPage o.outputDirectory toc f (blocks f)).toUTF8)).toList

theorem mem_indexFiles {source : String} {o : Options} {toc : Toc}
    {blocks : MarkdownFile → List Block} {docs : List MarkdownFile} {x : Place × ByteArray} :
    x ∈ indexFiles source o toc blocks docs ↔ ∃ f, docs.getLast? = some f ∧
      (placeOf (indexPath source), (indexPage o.outputDirectory toc f (blocks f)).toUTF8) = x := by
  rw [indexFiles, Option.mem_toList, Option.map_eq_some_iff]

/-- The files that a site is written to, with what they get, in the order in which they are
written. -/
def siteFiles (source : String) (o : Options) (toc : Toc) (blocks : MarkdownFile → List Block)
    (docs : List MarkdownFile) : List (Place × ByteArray) :=
  pageFiles (Layout.under source o.outputDirectory) toc blocks docs ++
    indexFiles source o toc blocks docs

/-- The report of a site. -/
def siteReport (source : String) (o : Options) (copied : Nat) (blocks : MarkdownFile → List Block)
    (docs : List MarkdownFile) : BuildReport :=
  (({} : Progress).addAll (Layout.under source o.outputDirectory) blocks docs).report copied
    (docs.getLast?.map fun _ => indexPath source)

/-- What it takes for a site to be written: the documents can be converted and, if there are any, the
index can be written. -/
structure IsWritable (source : String) (o : Options) (blocks : MarkdownFile → List Block)
    (docs : List MarkdownFile) (t : Tree) : Prop
    extends AreConvertible source o.outputDirectory o.language blocks docs t where
  indexParents : docs ≠ [] → parentRefusal? (indexTarget source) = none
  indexTarget : docs ≠ [] → t.CanWrite (indexTarget source)

/-- Whether a site can be written is computed by reading the documents and writing empty files. -/
theorem isWritable_of_isSome {docs : List MarkdownFile}
    (hread : ∀ f ∈ docs, (readText source f.path t).toOption.isSome = true)
    (hparents : ∀ f ∈ docs,
      parentRefusal? ((Layout.under source o.outputDirectory).pageTarget f) = none)
    (htargets : ∀ f ∈ docs, (t.write
      ((Layout.under source o.outputDirectory).pageTarget f) .empty).toOption.isSome = true)
    (hindexParents : parentRefusal? (indexTarget source) = none)
    (hindexTarget : (t.write (indexTarget source) .empty).toOption.isSome = true) :
    IsWritable source o (blocksAt source o.language t) docs t where
  read f hf := blocksOf_eq_blocksAt (hread f hf)
  parents := hparents
  targets f hf := .of_isSome (htargets f hf)
  indexParents _ := hindexParents
  indexTarget _ := .of_isSome hindexTarget

/-- What comes of a build that staged its output directory: from the tree `s` that this left, the
documents and their table of contents, the tree with the site, and the report. -/
structure IsBuilt (source : String) (o : Options) (s : Tree) (copied : Nat) (toc : Toc)
    (docs : List MarkdownFile) (u : Tree) (report : BuildReport) : Prop where
  contents : contents source o.allExcluded s = .ok toc
  documents : documents source o.filter s = .ok docs
  isWritable : IsWritable source o (blocksAt source o.language s) docs s
  tree : u = s.putFiles (siteFiles source o toc (blocksAt source o.language s) docs)
  report : report = siteReport source o copied (blocksAt source o.language s) docs

variable {copied : Nat} {report : BuildReport} {docs : List MarkdownFile}

theorem grows_of_putFiles_pageFiles {l : Layout} (toc : Toc) (blocks : MarkdownFile → List Block)
    (h : ∀ f ∈ docs, t.IsOpen (placeOf (l.page f))) :
    Grows IsPagePlace (fun _ => False) t (t.putFiles (pageFiles l toc blocks docs)) := by
  refine (Tree.grows_putFiles fun x hx => ?_).mono (fun p ⟨x, hx, hp⟩ => ?_) fun _ h => h
  · obtain ⟨f, hf, hplace⟩ := exists_of_mem_pageFiles hx
    rw [hplace]
    exact h f hf
  · obtain ⟨f, hf, hplace⟩ := exists_of_mem_pageFiles hx
    rw [hp, hplace]
    exact isPagePlace_page l f

/-- Pages do not change what documents hold. -/
theorem blocksOf_eq_of_grows {language : Highlight.Language} {filter : Filter}
    (hsource : t.HasMade source) (hdocs : documents source filter t = .ok docs)
    (hgrows : Grows IsPagePlace (fun _ => False) t u) (hf : f ∈ docs) :
    blocksOf source language u f = blocksOf source language t f := by
  refine blocksOf_eq hsource (hgrows.hasMade hsource) hdocs (fun r c hr hc => ?_) hf
  rwa [hgrows.kind?_eq (not_isPagePlace_of_admits hr _) id]

theorem AreConvertible.isOpen {blocks : MarkdownFile → List Block} {language : Highlight.Language}
    (h : AreConvertible source output language blocks docs t) :
    ∀ f ∈ docs, t.IsOpen (placeOf ((Layout.under source output).page f)) := by
  intro f hf
  rw [← placeOf_pageTarget]
  exact (h.targets f hf).isOpen

section WriteLast

variable {done : Progress} {blocks : MarkdownFile → List Block} {x : Option String}
  (hdone : done.last = docs.getLast?.map fun f => (f, blocks f))

include hdone

theorem of_writeLast (h : (writeLast source o toc done).runOn w = (.ok x, v))
    (hsource : w.tree.HasMade source) :
    (docs ≠ [] → parentRefusal? (indexTarget source) = none) ∧
      (docs ≠ [] → w.tree.CanWrite (indexTarget source)) ∧
      v.tree = w.tree.putFiles (indexFiles source o toc blocks docs) ∧
      x = docs.getLast?.map fun _ => indexPath source := by
  rw [writeLast, hdone] at h
  rw [indexFiles]
  cases hlast : docs.getLast? with
  | none =>
      have hnil := List.getLast?_eq_none_iff.1 hlast
      rw [hlast, Option.map_none] at h
      dsimp only at h
      rw [Action.bind_eq_ok] at h
      obtain ⟨_, w₁, hnote, h⟩ := h
      cases hnote
      cases h
      exact ⟨fun hne => absurd hnil hne, fun hne => absurd hnil hne, rfl, rfl⟩
  | some f =>
      rw [hlast, Option.map_some] at h
      dsimp only at h
      rw [map_eq_pure_bind, Action.bind_eq_ok] at h
      obtain ⟨path, w₁, hwrite, h⟩ := h
      cases h
      obtain ⟨hparents, hcan, hput, rfl⟩ := of_writeIndex hwrite hsource
      exact ⟨fun _ => hparents, fun _ => hcan, hput, rfl⟩

theorem gives_writeLast (o : Options) (toc : Toc) (hsource : t.HasMade source)
    (hparents : docs ≠ [] → parentRefusal? (indexTarget source) = none)
    (hcan : docs ≠ [] → t.CanWrite (indexTarget source)) :
    Gives (writeLast source o toc done) t (docs.getLast?.map fun _ => indexPath source)
      (t.putFiles (indexFiles source o toc blocks docs)) := by
  rw [writeLast, hdone, indexFiles]
  cases hlast : docs.getLast? with
  | none => exact (Action.gives_note _ t).bind (Action.gives_pure none t)
  | some f =>
      have hne : docs ≠ [] := by
        rintro rfl
        cases hlast
      have hwrite := gives_writeIndex o toc f (blocks f) hsource
        (hparents hne) (hcan hne)
      rw [Option.map_some, Option.map_some]
      dsimp only
      rw [map_eq_pure_bind]
      exact hwrite.bind (Action.gives_pure _ _)

end WriteLast

/-- **A site that was written was writable, and nothing but its files was written.** -/
theorem of_writeSite (hsource : w.tree.HasMade source)
    (hcontent : w.tree.HasMade (Layout.under source o.outputDirectory).content)
    (h : (writeSite source o copied).runOn w = (.ok report, v)) :
    ∃ toc docs, IsBuilt source o w.tree copied toc docs v.tree report := by
  rw [writeSite, Action.bind_eq_ok] at h
  obtain ⟨toc, w₁, htoc, h⟩ := h
  rw [Action.onFailure_eq_ok, Action.ask_eq_ok] at htoc
  obtain ⟨htoc, rfl⟩ := htoc
  rw [Action.bind_eq_ok] at h
  obtain ⟨docs, w₂, hdocs, h⟩ := h
  rw [Action.onFailure_eq_ok, Action.ask_eq_ok] at hdocs
  obtain ⟨hdocs, rfl⟩ := hdocs
  rw [Action.bind_eq_ok] at h
  obtain ⟨_, w₃, hnote, h⟩ := h
  have htree : w₃.tree = w₂.tree := by
    cases hnote
    rfl
  rw [Action.bind_eq_ok] at h
  obtain ⟨done, w₄, hconvert, h⟩ := h
  rw [Action.bind_eq_ok] at h
  obtain ⟨index, w₅, hindex, h⟩ := h
  cases h
  rw [← htree] at hsource hcontent htoc hdocs ⊢
  obtain ⟨hconv, hpages, rfl⟩ := of_convertAll (fun f _ => isPagePlace_page _ f)
    (fun u hu f hf => blocksOf_eq_of_grows hsource hdocs hu hf) hcontent hconvert
  have hgrows := grows_of_putFiles_pageFiles toc (blocksAt source o.language w₃.tree) hconv.isOpen
  rw [← hpages] at hgrows
  have hfills := hgrows.fills
  obtain ⟨hparents, hcan, hput, rfl⟩ := of_writeLast (last_addAll _ _ _) hindex
    (hgrows.hasMade hsource)
  refine ⟨toc, docs, htoc, hdocs, ⟨hconv, hparents, fun hne => hfills.canWrite_iff.1 (hcan hne)⟩,
    ?_, rfl⟩
  rw [siteFiles, Tree.putFiles_append, ← hpages]
  exact hput

/-- **A site that is writable is written.** -/
theorem gives_writeSite (copied : Nat) {blocks : MarkdownFile → List Block} (hsource : t.HasMade source)
    (hcontent : t.HasMade (Layout.under source o.outputDirectory).content)
    (htoc : contents source o.allExcluded t = .ok toc)
    (hdocs : documents source o.filter t = .ok docs) (h : IsWritable source o blocks docs t) :
    Gives (writeSite source o copied) t (siteReport source o copied blocks docs)
      (t.putFiles (siteFiles source o toc blocks docs)) := by
  have hgrows := grows_of_putFiles_pageFiles toc blocks h.isOpen
  have hfills := hgrows.fills
  have hconvert := gives_convertAll toc {} (fun f _ => isPagePlace_page _ f)
    (fun u hu f hf => blocksOf_eq_of_grows hsource hdocs hu hf) hcontent h.toAreConvertible
  have hlast := gives_writeLast
    (last_addAll (Layout.under source o.outputDirectory) blocks docs) o toc (hgrows.hasMade hsource)
    h.indexParents fun hne => hfills.canWrite_iff.2 (h.indexTarget hne)
  rw [← Tree.putFiles_append] at hlast
  rw [writeSite]
  refine ((Action.gives_ask htoc).onFailure _).bind (((Action.gives_ask hdocs).onFailure _).bind
    ((Action.gives_note _ t).bind (hconvert.bind (hlast.bind ?_))))
  exact Action.gives_pure _ _

/-- **A build that goes well stages the output directory, and then writes the site.** -/
theorem of_build (h : (build source o).runOn w = (.ok report, v)) :
    (∃ d, sourceDirectory source w.tree = .ok d) ∧ ∃ copied s toc docs,
      (stage source (Layout.under source o.outputDirectory) o.imagePatterns).runOn w =
        (.ok copied, s) ∧
      s.tree.HasMade source ∧
      IsBuilt source o s.tree copied toc docs v.tree report := by
  rw [build_def, Action.bind_eq_ok] at h
  obtain ⟨d, w₁, hd, h⟩ := h
  rw [Action.onFailure_eq_ok, Action.ask_eq_ok] at hd
  obtain ⟨hd, rfl⟩ := hd
  rw [Action.bind_eq_ok] at h
  obtain ⟨copied, s, hstage, h⟩ := h
  rw [Action.onFailure_eq_ok] at hstage
  rw [Action.bind_eq_ok] at h
  obtain ⟨_, s', hnote, h⟩ := h
  have htree : s'.tree = s.tree := by
    cases hnote
    rfl
  have hsource := (persists_of_stage hstage).hasMade (sourceDirectory_eq_ok.1 hd).1
  have hcontent := hasMade_content_of_stage hstage
  rw [← htree] at hsource hcontent
  obtain ⟨toc, docs, hbuilt⟩ := of_writeSite hsource hcontent h
  rw [htree] at hsource hbuilt
  exact ⟨⟨d, hd⟩, copied, s, toc, docs, hstage, hsource, hbuilt⟩

/-- **A build that can stage the output directory, and then write the site, goes well.** -/
theorem run_build {d : Tree.Directory} (hd : sourceDirectory source w.tree = .ok d)
    (hstage : (stage source (Layout.under source o.outputDirectory) o.imagePatterns).runOn w =
      (.ok copied, v)) {blocks : MarkdownFile → List Block}
    (htoc : contents source o.allExcluded v.tree = .ok toc)
    (hdocs : documents source o.filter v.tree = .ok docs) (h : IsWritable source o blocks docs v.tree) :
    ∃ v', (build source o).runOn w = (.ok (siteReport source o copied blocks docs), v') ∧
      v'.tree = v.tree.putFiles (siteFiles source o toc blocks docs) := by
  have hsource := (persists_of_stage hstage).hasMade (sourceDirectory_eq_ok.1 hd).1
  have hwrite := gives_writeSite copied hsource (hasMade_content_of_stage hstage) htoc hdocs h
  have hrest : Gives (announce (.staged (Layout.under source o.outputDirectory).root copied) >>=
      fun _ => writeSite source o copied) v.tree (siteReport source o copied blocks docs)
      (v.tree.putFiles (siteFiles source o toc blocks docs)) :=
    (Action.gives_note _ v.tree).bind hwrite
  obtain ⟨v', hrun, htree⟩ := hrest v rfl
  refine ⟨v', ?_, htree⟩
  rw [build_def, Action.bind_eq_ok]
  refine ⟨d, w, ?_, ?_⟩
  · rw [Action.onFailure_eq_ok, Action.ask_eq_ok]
    exact ⟨hd, rfl⟩
  · rw [Action.bind_eq_ok]
    refine ⟨copied, v, ?_, hrun⟩
    rw [Action.onFailure_eq_ok]
    exact hstage

/-- **A build on a tree whose output directory is staged writes the site.** -/
theorem gives_build {d : Tree.Directory} (hd : sourceDirectory source t = .ok d)
    (hstaged : IsStaged source (Layout.under source o.outputDirectory) o.imagePatterns t)
    {blocks : MarkdownFile → List Block} (htoc : contents source o.allExcluded t = .ok toc)
    (hdocs : documents source o.filter t = .ok docs) (h : IsWritable source o blocks docs t) :
    Gives (build source o) t (siteReport source o 0 blocks docs)
      (t.putFiles (siteFiles source o toc blocks docs)) := by
  rintro w rfl
  obtain ⟨v, hstage, htree⟩ := gives_stage hstaged w rfl
  rw [← htree] at htoc hdocs h ⊢
  exact run_build hd hstage htoc hdocs h

/-! ## 4. What a site is written to -/

variable {s : Tree}

theorem isPagePlace_index (source : String) : IsPagePlace (placeOf (indexPath source)) :=
  ⟨_, _, placeOf_indexPath source, "Index".toList, by decide⟩

theorem isPagePlace_of_mem_siteFiles {blocks : MarkdownFile → List Document.Block}
    {x : Place × ByteArray} (h : x ∈ siteFiles source o toc blocks docs) : IsPagePlace x.1 := by
  rcases List.mem_append.1 h with h | h
  · obtain ⟨f, -, hplace⟩ := exists_of_mem_pageFiles h
    rw [hplace]
    exact isPagePlace_page _ f
  · obtain ⟨f, -, rfl⟩ := mem_indexFiles.1 h
    exact isPagePlace_index source

theorem IsWritable.isOpen_siteFiles {blocks : MarkdownFile → List Document.Block}
    (h : IsWritable source o blocks docs t) (toc : Toc) :
    ∀ x ∈ siteFiles source o toc blocks docs, t.IsOpen x.1 := by
  intro x hx
  rcases List.mem_append.1 hx with hx | hx
  · obtain ⟨f, hf, hplace⟩ := exists_of_mem_pageFiles hx
    rw [hplace]
    exact h.isOpen f hf
  · obtain ⟨f, hf, rfl⟩ := mem_indexFiles.1 hx
    have hne : docs ≠ [] := by
      rintro rfl
      cases hf
    rw [← placeOf_indexTarget]
    exact (h.indexTarget hne).isOpen

/-- **A build, once its output directory is staged, adds and changes pages alone.** -/
theorem IsBuilt.grows (h : IsBuilt source o s copied toc docs u report) :
    Grows IsPagePlace (fun _ => False) s u := by
  rw [h.tree]
  refine (Tree.grows_putFiles (h.isWritable.isOpen_siteFiles toc)).mono (fun p ⟨x, hx, hp⟩ => ?_)
    fun _ h => h
  rw [hp]
  exact isPagePlace_of_mem_siteFiles hx

/-- What is written last to the place of a path is read there. -/
theorem IsBuilt.readBytes {path : String} {c : ByteArray} {front back : List (Place × ByteArray)}
    (h : IsBuilt source o s copied toc docs u report) (hcan : s.CanWrite path)
    (hfiles : siteFiles source o toc (blocksAt source o.language s) docs =
      front ++ (placeOf path, c) :: back) (hback : ∀ x ∈ back, x.1 ≠ placeOf path) :
    u.readBytes path = .ok c := by
  have hopen := h.isWritable.isOpen_siteFiles toc
  refine (h.grows.fills.canWrite_iff.2 hcan).readBytes ?_
  rw [h.tree, hfiles]
  exact Tree.kind?_putFiles (hfiles ▸ hopen) hback

/-! ## 5. A small site -/

/-- Options with one image. -/
def sampleOptions : Options :=
  { outputDirectory := "O", imagePatterns := ["G/a.png"] }

/-- A source with two documents of one name, one that is skipped, and an image. -/
def sampleTree : Tree :=
  let s : Name := ⟨"s", by decide⟩
  let g : Name := ⟨"G", by decide⟩
  let h : Name := ⟨"H", by decide⟩
  let readme : Name := ⟨"Readme.md", by decide⟩
  let document : Name := ⟨"a.md", by decide⟩
  let image : Name := ⟨"a.png", by decide⟩
  ((((((Tree.empty.putDirectory [s]).putDirectory [s, g]).putDirectory [s, h]).putFile
    [s, g, readme] "# Read me".toUTF8).putFile [s, g, document] "# First".toUTF8).putFile
    [s, g, image] .empty).putFile [s, h, document] "# Second".toUTF8

/-- The documents of the source. -/
def sampleDocuments : List MarkdownFile :=
  [⟨"G/a.md"⟩, ⟨"H/a.md"⟩]

/-- The workspace once the output directory is staged. -/
def sampleStaged : Workspace :=
  ((stage "s" (Layout.under "s" sampleOptions.outputDirectory)
    sampleOptions.imagePatterns).runOn ⟨sampleTree, []⟩).2

theorem stage_sample : (stage "s" (Layout.under "s" sampleOptions.outputDirectory)
    sampleOptions.imagePatterns).runOn ⟨sampleTree, []⟩ = (.ok 1, sampleStaged) := by
  rw [sampleStaged]
  exact Action.runOn_eq_of_toOption (by decide +kernel)

theorem documents_sample {t : Tree}
    (h : (sourceDirectory "s" t).toOption.map (sampleOptions.filter.collect []) =
      some [[⟨"G", by decide⟩, ⟨"a.md", by decide⟩], [⟨"H", by decide⟩, ⟨"a.md", by decide⟩]]) :
    documents "s" sampleOptions.filter t = .ok sampleDocuments := by
  rw [documents_of_collect h (by decide)]
  decide

theorem isWritable_sample : IsWritable "s" sampleOptions
    (blocksAt "s" sampleOptions.language sampleStaged.tree) sampleDocuments sampleStaged.tree :=
  isWritable_of_isSome (by decide +kernel) (by decide +kernel) (by decide +kernel)
    (by decide +kernel) (by decide +kernel)

/-- The site is built. -/
theorem build_sample : ∃ v, (build "s" sampleOptions).runOn ⟨sampleTree, []⟩ =
    (.ok (siteReport "s" sampleOptions 1
      (blocksAt "s" sampleOptions.language sampleStaged.tree) sampleDocuments), v) := by
  have hdocs : documents "s" sampleOptions.filter sampleStaged.tree = .ok sampleDocuments :=
    documents_sample (by decide +kernel)
  have hold : documents "s" sampleOptions.filter sampleTree = .ok sampleDocuments :=
    documents_sample (by decide +kernel)
  obtain ⟨d, hd, -⟩ := documents_eq_ok.1 hold
  obtain ⟨e, he, -⟩ := documents_eq_ok.1 hdocs
  have htoc : contents "s" sampleOptions.allExcluded sampleStaged.tree =
    .ok (contentsOf sampleOptions.allExcluded e) := contents_eq_ok.2 ⟨e, he, rfl⟩
  obtain ⟨v, h, -⟩ := run_build (o := sampleOptions) hd stage_sample htoc hdocs isWritable_sample
  exact ⟨v, h⟩

end Quire.Site
