import Quire.Proofs.Site.Source
import Quire.Proofs.Tree.Files
import Quire.Proofs.Workspace
import Quire.Site.Build

/-!
# What a conversion writes

A page has the stem of its document for a name, with an ending that no document has, so **no page is
written over a document** (`not_isPagePlace_of_admits`). A conversion reads the document and writes its
page (`keeps_convert`), and where the directory of the pages is there, it comes to one file at the place
of the page (`of_convert`, `gives_convert`).

From this both directions for a run over all documents: **documents that were converted could be read and
written to begin with, and nothing but their pages was written** (`of_convertAll`), and **documents that
can be read and written are converted** (`gives_convertAll`). The documents read the same on the way, as
pages are no documents.
-/

namespace Quire.Site

open Quire.Action (Keeps Gives)
open Quire.Document (Block)
open Quire.Highlight (Language)
open Quire.Path (IsName Name)
open Quire.Tree (Fills Grows GrowsBelow Place parentRefusal? pathOf placeOf)

/-! ## 1. Names of pages -/

section Names

variable {n m : Name} {f g : MarkdownFile}

theorem toList_pageFile (title : String) :
    (MarkdownFile.pageFile title).toList = title.toList ++ ".html".toList := by
  exact String.toList_append

/-- Different titles are those of different pages. -/
theorem pageFile_injective : Function.Injective MarkdownFile.pageFile := by
  intro a b h
  rw [← String.toList_inj, toList_pageFile, toList_pageFile] at h
  exact String.toList_inj.1 (List.append_cancel_right h)

theorem slash_not_mem_stem (n : Name) : '/' ∉ n.stem.toList := by
  have hsub : n.stem.toList ⊆ n.text.toList := by
    intro c hc
    rw [Name.stem] at hc
    split at hc
    · exact hc
    · exact hc
    · rename_i before _ h
      rw [String.toList_ofList, List.mem_reverse] at hc
      have hmem : c ∈ n.text.toList.reverse.dropWhile (· != '.') := by
        rw [h]
        exact List.mem_cons_of_mem _ hc
      exact List.mem_reverse.1 ((List.dropWhile_suffix _).subset hmem)
  exact fun h => n.isName.slash_not_mem (hsub h)

/-- **Every page has a name that an entry can have.** -/
theorem isName_pageFileName (f : MarkdownFile) : IsName f.pageFileName := by
  have hslash : '/' ∉ f.displayName.toList := by
    rw [MarkdownFile.displayName]
    split
    · exact slash_not_mem_stem _
    · decide
  have hchars : f.pageFileName.toList = f.displayName.toList ++ ".html".toList := toList_pageFile _
  have hlength : 5 ≤ f.pageFileName.toList.length := by
    rw [hchars, List.length_append]
    exact Nat.le_add_left 5 _
  have hne {s : String} (hs : s.toList.length < 5) : f.pageFileName ≠ s := by
    rintro rfl
    omega
  refine ⟨hne (by decide), hne (by decide), hne (by decide), ?_⟩
  rw [hchars, List.mem_append, not_or]
  exact ⟨hslash, by decide⟩

/-- The name of the page of a document. -/
def pageName (f : MarkdownFile) : Name :=
  ⟨f.pageFileName, isName_pageFileName f⟩

/-- **The name of a document is its stem and the ending for documents.** -/
theorem text_of_isDocumentName (h : isDocumentName n = true) :
    n.text.toList = n.stem.toList ++ ".md".toList := by
  rw [isDocumentName, beq_iff_eq, Name.extension?] at h
  rw [Name.stem]
  have hparts : n.text.toList = (n.text.toList.reverse.dropWhile (· != '.')).reverse ++
      (n.text.toList.reverse.takeWhile (· != '.')).reverse := by
    rw [← List.reverse_append, List.takeWhile_append_dropWhile, List.reverse_reverse]
  split at h
  · cases h
  · cases h
  · rename_i hnil hone
    obtain ⟨x, before, hdrop⟩ := List.exists_cons_of_ne_nil hnil
    have hdot : x = '.' := by
      have := List.head?_dropWhile_not (· != '.') n.text.toList.reverse
      rw [hdrop] at this
      simpa using this
    have hmd := congrArg String.toList (Option.some.inj h)
    rw [String.toList_ofList] at hmd
    rw [hmd] at hparts
    rw [hdrop] at hparts hone ⊢
    cases before with
    | nil => exact absurd rfl (hone x)
    | cons y ys =>
        subst hdot
        rw [hparts]
        simp

theorem fileName?_pathOf (q : Place) (n : Name) : Path.fileName? (pathOf (q ++ [n])) = some n := by
  have hcs : Path.components (pathOf (q ++ [n])) = q.map .name ++ [.name n] := by
    rw [Path.components_pathOf, List.map_append]
    rfl
  exact Path.fileName?_of_components hcs

theorem displayName_pathOf (q : Place) (n : Name) :
    (⟨pathOf (q ++ [n])⟩ : MarkdownFile).displayName = n.stem := by
  rw [MarkdownFile.displayName, fileName?_pathOf]

/-- Whether a place is one that a page can have: its name has the ending for pages. -/
def IsPagePlace (p : Place) : Prop :=
  ∃ q n, p = q ++ [n] ∧ ∃ title, n.text.toList = title ++ ".html".toList

/-- **No page is written over a document.** -/
theorem not_isPagePlace_of_admits {filter : Filter} {r : Place} (h : filter.Admits r) (p : Place) :
    ¬ IsPagePlace (p ++ r) := by
  obtain ⟨q, n, rfl, hdoc, -, -⟩ := h
  rintro ⟨q', m, hplace, title, hpage⟩
  have hconcat : (p ++ q).concat n = q'.concat m := by
    rw [List.concat_eq_append, List.concat_eq_append, ← hplace, List.append_assoc]
  obtain ⟨-, rfl⟩ := List.concat_inj.1 hconcat
  have hlast := congrArg List.getLast? ((text_of_isDocumentName hdoc).symm.trans hpage)
  rw [List.getLast?_append_of_ne_nil _ (by decide), List.getLast?_append_of_ne_nil _ (by decide)]
    at hlast
  exact absurd hlast (by decide)

end Names

/-! ## 2. Writing where the directory is -/

section Writing

variable {root path text dir : String} {n : Name} {t u : Tree} {w v : Workspace}

theorem writeText_def (root path text : String) :
    writeText root path text = Action.onFailure
      (Action.changeStepwise (Tree.makeParents · (Path.below root path)) >>= fun _ =>
        Action.change (Tree.writeText · (Path.below root path) text)) .system :=
  rfl

theorem of_writeText (h : Path.components (Path.below root path) = Path.components dir ++ [.name n])
    (hdir : w.tree.HasMade dir) {x : Unit}
    (hrun : (writeText root path text).runOn w = (.ok x, v)) :
    parentRefusal? (Path.below root path) = none ∧ w.tree.CanWrite (Path.below root path) ∧
      v.tree = w.tree.putFile (placeOf (Path.below root path)) text.toUTF8 := by
  rw [writeText_def, Action.onFailure_eq_ok, Action.bind_eq_ok] at hrun
  obtain ⟨_, w', hparents, hwrite⟩ := hrun
  rw [Action.changeStepwise_eq_ok, Tree.makeParents_of_hasMade h hdir] at hparents
  obtain ⟨hnone, rfl⟩ := hparents
  rw [Action.change_eq_ok] at hwrite
  obtain ⟨t, ht, rfl⟩ := hwrite
  dsimp only at hnone ht
  exact ⟨hnone, Tree.write_eq_ok.1 ht⟩

theorem gives_writeText (h : Path.components (Path.below root path) = Path.components dir ++ [.name n])
    (hdir : t.HasMade dir) (hparents : parentRefusal? (Path.below root path) = none)
    (hcan : t.CanWrite (Path.below root path)) (text : String) :
    Gives (writeText root path text) t ()
      (t.putFile (placeOf (Path.below root path)) text.toUTF8) := by
  have hmake : Gives (Action.changeStepwise (Tree.makeParents · (Path.below root path))) t () t := by
    refine Action.gives_changeStepwise ?_
    rw [Tree.makeParents_of_hasMade h hdir, hparents]
  have hwrite : Gives (Action.change (Tree.writeText · (Path.below root path) text)) t ()
      (t.putFile (placeOf (Path.below root path)) text.toUTF8) := by
    refine Action.gives_change ?_
    rw [Tree.writeText, Tree.write_eq_ok]
    exact ⟨hcan, rfl⟩
  rw [writeText_def]
  refine Gives.onFailure (hmake.bind ?_) _
  exact hwrite

end Writing

/-! ## 3. Reading documents -/

section Reading

variable {source : String} {language : Language} {file : MarkdownFile} {blocks : List Block}
  {t u : Tree} {w v : Workspace}

/-- The blocks of a document in a tree. -/
def blocksOf (source : String) (language : Language) (t : Tree) (file : MarkdownFile) :
    Except AccessError (List Block) :=
  (readText source file.path t).map fun text => Document.ofRope language (.ofString text)

theorem keeps_loadDocument {R : Tree → Tree → Prop} [IsPreorder Tree R] (source : String)
    (language : Language) (file : MarkdownFile) : Keeps R (loadDocument source language file) :=
  ((Action.keeps_ask _).onFailure _).bind fun _ =>
    (Action.keeps_forM fun _ _ => Action.keeps_note _).bind fun _ => Action.keeps_pure _

theorem of_loadDocument (h : (loadDocument source language file).runOn w = (.ok blocks, v)) :
    blocksOf source language w.tree file = .ok blocks ∧ v.tree = w.tree := by
  have hkeeps := keeps_loadDocument (R := Eq) source language file w
  rw [h] at hkeeps
  refine ⟨?_, hkeeps.symm⟩
  rw [loadDocument, Action.bind_eq_ok] at h
  obtain ⟨text, w', htext, h⟩ := h
  rw [Action.onFailure_eq_ok, Action.ask_eq_ok] at htext
  obtain ⟨htext, rfl⟩ := htext
  rw [Action.bind_eq_ok] at h
  obtain ⟨_, w', -, h⟩ := h
  cases h
  rw [blocksOf, htext]
  rfl

/-- **Documents read the same in two trees in which they hold the same.** -/
theorem blocksOf_eq {filter : Filter} {docs : List MarkdownFile} (ht : t.HasMade source)
    (hu : u.HasMade source) (hdocs : documents source filter t = .ok docs)
    (hsame : ∀ r c, filter.Admits r → t.kind? (placeOf source ++ r) = some (.file c) →
      u.kind? (placeOf source ++ r) = some (.file c)) (hfile : file ∈ docs) :
    blocksOf source language u file = blocksOf source language t file := by
  obtain ⟨r, rfl, hr, c, hc⟩ := (mem_documents hdocs).1 hfile
  rw [blocksOf, blocksOf, readText_congr ht hu (Filter.ne_nil_of_admits hr) hc (hsame r c hr hc)]

theorem gives_loadDocument (h : blocksOf source language t file = .ok blocks) :
    Gives (loadDocument source language file) t blocks t := by
  rw [blocksOf] at h
  cases htext : readText source file.path t with
  | error e =>
      rw [htext] at h
      cases h
  | ok text =>
      rw [htext] at h
      cases h
      exact ((Action.gives_ask htext).onFailure _).bind
        ((Action.gives_forM_self fun _ _ => Action.gives_note _ t).bind (Action.gives_pure _ t))

end Reading

/-! ## 4. Content pages -/

section Pages

/-- The name of the directory of the content pages. -/
def contentName : Name :=
  ⟨Page.contentDir, by decide⟩

theorem components_content (source output : String) :
    Path.components (Layout.under source output).content =
      Path.components (Layout.under source output).root ++ [.name contentName] := by
  show Path.components (Path.join _ contentName.text) = _
  rw [Path.components_join _ (Path.isFromTop_of_isName contentName.isName),
    Path.components_text_name]
  rfl

theorem placeOf_content (source output : String) :
    placeOf (Layout.under source output).content =
      placeOf (Layout.under source output).root ++ [contentName] :=
  Tree.placeOf_join_name _ contentName

/-- The path of the page of a document. -/
def Layout.page (l : Layout) (f : MarkdownFile) : String :=
  Path.join l.content f.pageFileName

/-- The path that the page of a document is written to, which leads to the same place. -/
def Layout.pageTarget (l : Layout) (f : MarkdownFile) : String :=
  Path.below l.root s!"{Page.contentDir}/{f.pageFileName}"

theorem components_page (l : Layout) (f : MarkdownFile) :
    Path.components (l.page f) = Path.components l.content ++ [.name (pageName f)] := by
  rw [Layout.page, Path.components_join _ (Path.isFromTop_of_isName (isName_pageFileName f)),
    Path.components_of_isName (isName_pageFileName f)]
  rfl

theorem placeOf_page (l : Layout) (f : MarkdownFile) :
    placeOf (l.page f) = placeOf l.content ++ [pageName f] :=
  Tree.placeOf_join_name l.content (pageName f)

/-- Pages of one layout have one place exactly if the documents have one title. -/
theorem placeOf_page_inj (l : Layout) (f g : MarkdownFile) :
    placeOf (l.page f) = placeOf (l.page g) ↔ f.displayName = g.displayName := by
  rw [placeOf_page, placeOf_page, List.append_cancel_left_eq, List.singleton_inj]
  constructor
  · exact fun h => pageFile_injective (congrArg Name.text h)
  · exact fun h => Path.Name.ext (congrArg MarkdownFile.pageFile h)

theorem isPagePlace_page (l : Layout) (f : MarkdownFile) : IsPagePlace (placeOf (l.page f)) :=
  ⟨_, _, placeOf_page l f, _, toList_pageFile f.displayName⟩

theorem components_contentDir (f : MarkdownFile) :
    Path.components s!"{Page.contentDir}/{f.pageFileName}" =
      [.name contentName, .name (pageName f)] := by
  show Path.components (contentName.text ++ "/" ++ (pageName f).text) = _
  rw [Path.components_append_slash, Path.components_text_name, Path.components_text_name]
  rfl

theorem components_pageTarget (source output : String) (f : MarkdownFile) :
    Path.components (Path.below (Layout.under source output).root
        s!"{Page.contentDir}/{f.pageFileName}") =
      Path.components (Layout.under source output).content ++ [.name (pageName f)] := by
  rw [Path.components_below, components_content, components_contentDir, List.append_assoc]
  rfl

theorem placeOf_pageTarget (source output : String) (f : MarkdownFile) :
    placeOf ((Layout.under source output).pageTarget f) =
      placeOf ((Layout.under source output).page f) := by
  rw [Layout.pageTarget, placeOf, components_pageTarget, placeOf, components_page]

/-- A page that can be written can be written by the path that is reported. -/
theorem canWrite_page {source output : String} {f : MarkdownFile} {t : Tree}
    (h : t.CanWrite ((Layout.under source output).pageTarget f)) :
    t.CanWrite ((Layout.under source output).page f) := by
  have hbelow : (Layout.under source output).pageTarget f =
      Path.below (Path.below (Layout.under source output).root contentName.text)
        (pageName f).text := by
    rw [Layout.pageTarget, Path.below, components_contentDir, Path.below_text, Path.below_text]
    rfl
  rw [hbelow] at h
  exact h.of_shorter (((Path.IsShorter.refl _).join_below contentName).join_below (pageName f))
    (Path.endsInSlash_join_name _ (pageName f))

/-- The content page of a document. -/
def contentPage (toc : Toc) (f : MarkdownFile) (blocks : List Block) : String :=
  Page.pageMarkup .content f.displayName blocks toc

/-- How far a conversion is once one more document has its page. -/
def Progress.add (p : Progress) (l : Layout) (f : MarkdownFile) (blocks : List Block) : Progress where
  pages := p.pages ++ [l.page f]
  overwritten := p.overwritten ++ ((p.writer? f.pageFileName).map (·.path)).toList
  written := f :: p.written
  last := some (f, blocks)

variable {source : String} {o : Options} {l : Layout} {toc : Toc} {p q : Progress}
  {f : MarkdownFile} {blocks : List Block} {t u : Tree} {w v : Workspace}

theorem convert_def (source : String) (o : Options) (l : Layout) (toc : Toc) (p : Progress)
    (f : MarkdownFile) :
    convert source o l toc p f = loadDocument source o.language f >>= fun blocks =>
      Action.onFailure (writeText l.root s!"{Page.contentDir}/{f.pageFileName}"
        (contentPage toc f blocks)) (.document f.path) >>= fun _ =>
      ((p.writer? f.pageFileName).map (·.path)).forM (fun path =>
        announce (.replaced f.path path (l.page f))) >>= fun _ =>
      announce (.wrote (l.page f) blocks.length) >>= fun _ => pure (p.add l f blocks) :=
  rfl

theorem keeps_announcements {R : Tree → Tree → Prop} [IsPreorder Tree R] (previous : Option String)
    (n : String → BuildNotice) (m : BuildNotice) (q : Progress) :
    Keeps R (previous.forM (fun path => announce (n path)) >>= fun _ => announce m >>= fun _ =>
      (pure q : Action BuildError Progress)) := by
  refine Keeps.bind ?_ fun _ => (Action.keeps_note _).bind fun _ => Action.keeps_pure _
  cases previous with
  | none => exact Action.keeps_pure _
  | some path => exact Action.keeps_note _

/-- What comes of a conversion that goes well. -/
theorem of_convert {output : String}
    (h : (convert source o (Layout.under source output) toc p f).runOn w = (.ok q, v))
    (hdir : w.tree.HasMade (Layout.under source output).content) :
    ∃ blocks, blocksOf source o.language w.tree f = .ok blocks ∧
      parentRefusal? ((Layout.under source output).pageTarget f) = none ∧
      w.tree.CanWrite ((Layout.under source output).pageTarget f) ∧
      v.tree = w.tree.putFile (placeOf ((Layout.under source output).page f))
        (contentPage toc f blocks).toUTF8 ∧
      q = p.add (Layout.under source output) f blocks := by
  rw [convert_def, Action.bind_eq_ok] at h
  obtain ⟨blocks, w₁, hload, h⟩ := h
  obtain ⟨hblocks, htree⟩ := of_loadDocument hload
  rw [Action.bind_eq_ok] at h
  obtain ⟨x, w₂, hwrite, h⟩ := h
  rw [Action.onFailure_eq_ok] at hwrite
  rw [← htree] at hdir hblocks ⊢
  obtain ⟨hparents, hcan, hput⟩ := of_writeText (components_pageTarget source output f) hdir hwrite
  have hrest := keeps_announcements (R := Eq) ((p.writer? f.pageFileName).map (·.path))
    (fun path => .replaced f.path path ((Layout.under source output).page f))
    (.wrote ((Layout.under source output).page f) blocks.length)
    (p.add (Layout.under source output) f blocks) w₂
  rw [h] at hrest
  rw [Action.bind_eq_ok] at h
  obtain ⟨_, w₃, -, h⟩ := h
  rw [Action.bind_eq_ok] at h
  obtain ⟨_, w₄, -, h⟩ := h
  cases h
  rw [← placeOf_pageTarget, Layout.pageTarget]
  exact ⟨blocks, hblocks, hparents, hcan, hrest.symm.trans hput, rfl⟩

theorem gives_convert {output : String} (toc : Toc) (p : Progress)
    (hblocks : blocksOf source o.language t f = .ok blocks)
    (hdir : t.HasMade (Layout.under source output).content)
    (hparents : parentRefusal? ((Layout.under source output).pageTarget f) = none)
    (hcan : t.CanWrite ((Layout.under source output).pageTarget f)) :
    Gives (convert source o (Layout.under source output) toc p f) t
      (p.add (Layout.under source output) f blocks)
      (t.putFile (placeOf ((Layout.under source output).page f))
        (contentPage toc f blocks).toUTF8) := by
  rw [convert_def, ← placeOf_pageTarget]
  generalize hu : t.putFile _ _ = u
  have hwrite := gives_writeText (components_pageTarget source output f) hdir hparents hcan
    (contentPage toc f blocks)
  rw [← Layout.pageTarget, hu] at hwrite
  refine (gives_loadDocument hblocks).bind (Gives.bind (hwrite.onFailure _) (Gives.bind (u := u)
    (x := ()) ?_ ((Action.gives_note _ u).bind (Action.gives_pure _ u))))
  cases (p.writer? f.pageFileName).map (·.path) with
  | none => exact Action.gives_pure () u
  | some path => exact Action.gives_note _ u

end Pages

/-! ## 5. All content pages -/

section AllPages

variable {source output : String} {o : Options} {toc : Toc} {p q : Progress} {t u : Tree}
  {w v : Workspace} {pages : Place → Prop} {files : List MarkdownFile}
  {blocks : MarkdownFile → List Block}

/-- The blocks of a document in a tree, none if it cannot be read. -/
def blocksAt (source : String) (language : Language) (t : Tree) (f : MarkdownFile) : List Block :=
  (blocksOf source language t f).toOption.getD []

theorem blocksAt_eq {language : Language} {f : MarkdownFile} {bs : List Block}
    (h : blocksOf source language t f = .ok bs) : blocksAt source language t f = bs := by
  rw [blocksAt, h]
  rfl

theorem blocksOf_eq_blocksAt {language : Language} {f : MarkdownFile}
    (h : (readText source f.path t).toOption.isSome = true) :
    blocksOf source language t f = .ok (blocksAt source language t f) := by
  rw [blocksAt, blocksOf]
  cases htext : readText source f.path t with
  | ok text => rfl
  | error e =>
      rw [htext] at h
      cases h

/-- The files that the content pages of documents are written to, with what they get. -/
def pageFiles (l : Layout) (toc : Toc) (blocks : MarkdownFile → List Block)
    (files : List MarkdownFile) : List (Place × ByteArray) :=
  files.map fun f => (placeOf (l.page f), (contentPage toc f (blocks f)).toUTF8)

theorem pageFiles_cons (l : Layout) (toc : Toc) (blocks : MarkdownFile → List Block)
    (f : MarkdownFile) (files : List MarkdownFile) :
    pageFiles l toc blocks (f :: files) =
      (placeOf (l.page f), (contentPage toc f (blocks f)).toUTF8) :: pageFiles l toc blocks files :=
  rfl

theorem pageFiles_append (l : Layout) (toc : Toc) (blocks : MarkdownFile → List Block)
    (front back : List MarkdownFile) : pageFiles l toc blocks (front ++ back) =
      pageFiles l toc blocks front ++ pageFiles l toc blocks back :=
  List.map_append

theorem mem_pageFiles {l : Layout} {x : Place × ByteArray} : x ∈ pageFiles l toc blocks files ↔
    ∃ f ∈ files, (placeOf (l.page f), (contentPage toc f (blocks f)).toUTF8) = x :=
  List.mem_map

theorem exists_of_mem_pageFiles {l : Layout} {x : Place × ByteArray}
    (h : x ∈ pageFiles l toc blocks files) : ∃ f ∈ files, x.1 = placeOf (l.page f) := by
  obtain ⟨f, hf, hx⟩ := mem_pageFiles.1 h
  exact ⟨f, hf, by rw [← hx]⟩

/-- How far a conversion is once documents have their pages. -/
def Progress.addAll (p : Progress) (l : Layout) (blocks : MarkdownFile → List Block)
    (files : List MarkdownFile) : Progress :=
  files.foldl (fun p f => p.add l f (blocks f)) p

theorem Progress.addAll_cons (p : Progress) (l : Layout) (blocks : MarkdownFile → List Block)
    (f : MarkdownFile) (files : List MarkdownFile) :
    p.addAll l blocks (f :: files) = (p.add l f (blocks f)).addAll l blocks files :=
  rfl

theorem last_addAll (l : Layout) (blocks : MarkdownFile → List Block) (files : List MarkdownFile) :
    (({} : Progress).addAll l blocks files).last = files.getLast?.map fun f => (f, blocks f) := by
  rcases List.eq_nil_or_concat files with rfl | ⟨front, f, rfl⟩
  · rfl
  · rw [List.concat_eq_append, List.getLast?_concat, Progress.addAll, List.foldl_append]
    rfl

theorem pages_addAll (p : Progress) (l : Layout) (blocks : MarkdownFile → List Block)
    (files : List MarkdownFile) : (p.addAll l blocks files).pages = p.pages ++ files.map l.page := by
  induction files generalizing p with
  | nil => exact (List.append_nil _).symm
  | cons f files ih =>
      rw [Progress.addAll_cons, ih, List.map_cons, Progress.add, List.append_assoc]
      rfl

theorem written_addAll (p : Progress) (l : Layout) (blocks : MarkdownFile → List Block)
    (files : List MarkdownFile) :
    (p.addAll l blocks files).written = files.reverse ++ p.written := by
  induction files generalizing p with
  | nil => rfl
  | cons f files ih =>
      rw [Progress.addAll_cons, ih, Progress.add, List.reverse_cons, List.append_assoc]
      rfl

/-- What it takes for documents to be converted from a tree: they can be read, and their pages can be
written. -/
structure AreConvertible (source output : String) (language : Language)
    (blocks : MarkdownFile → List Block) (files : List MarkdownFile) (t : Tree) : Prop where
  read : ∀ f ∈ files, blocksOf source language t f = .ok (blocks f)
  parents : ∀ f ∈ files, parentRefusal? ((Layout.under source output).pageTarget f) = none
  targets : ∀ f ∈ files, t.CanWrite ((Layout.under source output).pageTarget f)

/-- **Documents that were converted were convertible, and nothing but their pages was written.** -/
theorem of_convertAll {t₀ : Tree}
    (hpages : ∀ f ∈ files, pages (placeOf ((Layout.under source output).page f)))
    (hread : ∀ u, Grows pages (fun _ => False) w.tree u → ∀ f ∈ files,
      blocksOf source o.language u f = blocksOf source o.language t₀ f)
    (hdir : w.tree.HasMade (Layout.under source output).content)
    (h : (files.foldlM (convert source o (Layout.under source output) toc) p).runOn w = (.ok q, v)) :
    AreConvertible source output o.language (blocksAt source o.language t₀) files w.tree ∧
      v.tree = w.tree.putFiles (pageFiles (Layout.under source output) toc
        (blocksAt source o.language t₀) files) ∧
      q = p.addAll (Layout.under source output) (blocksAt source o.language t₀) files := by
  induction files generalizing p w with
  | nil =>
      cases h
      exact ⟨⟨by simp, by simp, by simp⟩, rfl, rfl⟩
  | cons f files ih =>
      rw [List.foldlM_cons, Action.bind_eq_ok] at h
      obtain ⟨p', w', hfirst, hrest⟩ := h
      obtain ⟨blocks, hblocks, hparents, hcan, htree, rfl⟩ := of_convert hfirst hdir
      rw [List.forall_mem_cons] at hpages
      have hopen := hcan.isOpen
      rw [placeOf_pageTarget] at hopen
      have hgrows : Grows pages (fun _ => False) w.tree w'.tree := by
        rw [htree]
        exact .putFile hopen hpages.1 _
      have hold := hread w.tree (.refl _ _ _)
      rw [List.forall_mem_cons] at hold
      have hat := blocksAt_eq (hold.1.symm.trans hblocks)
      obtain ⟨⟨hread', hparents', htargets'⟩, htree', hq⟩ := ih hpages.2
        (fun u hu g hg => hread u (hgrows.trans hu) g (List.mem_cons_of_mem _ hg))
        (hgrows.hasMade hdir) hrest
      have hfills : Fills w.tree w'.tree := hgrows.fills
      refine ⟨⟨List.forall_mem_cons.2 ⟨by rw [hat, hblocks], fun g hg => ?_⟩,
        List.forall_mem_cons.2 ⟨hparents, hparents'⟩,
        List.forall_mem_cons.2 ⟨hcan, fun g hg => hfills.canWrite_iff.1 (htargets' g hg)⟩⟩, ?_, ?_⟩
      · rw [hold.2 g hg, ← hread w'.tree hgrows g (List.mem_cons_of_mem _ hg), hread' g hg]
      · rw [htree', htree, pageFiles_cons, Tree.putFiles_cons, hat]
      · rw [hq, Progress.addAll_cons, hat]

/-- **Documents that are convertible are converted.** -/
theorem gives_convertAll (toc : Toc) (p : Progress)
    (hpages : ∀ f ∈ files, pages (placeOf ((Layout.under source output).page f)))
    (hread : ∀ u, Grows pages (fun _ => False) t u → ∀ f ∈ files,
      blocksOf source o.language u f = blocksOf source o.language t f)
    (hdir : t.HasMade (Layout.under source output).content)
    (h : AreConvertible source output o.language blocks files t) :
    Gives (files.foldlM (convert source o (Layout.under source output) toc) p) t
      (p.addAll (Layout.under source output) blocks files)
      (t.putFiles (pageFiles (Layout.under source output) toc blocks files)) := by
  induction files generalizing p t with
  | nil => exact Action.gives_pure p t
  | cons f files ih =>
      obtain ⟨hblocks, hparents, htargets⟩ := h
      rw [List.forall_mem_cons] at hpages hblocks hparents htargets
      have hopen := htargets.1.isOpen
      rw [placeOf_pageTarget] at hopen
      have hfirst := gives_convert toc p hblocks.1 hdir hparents.1 htargets.1
      obtain ⟨u, hu⟩ : ∃ u, u = t.putFile (placeOf ((Layout.under source output).page f))
        (contentPage toc f (blocks f)).toUTF8 := ⟨_, rfl⟩
      have hgrows : Grows pages (fun _ => False) t u := hu ▸ .putFile hopen hpages.1 _
      have hfills : Fills t u := hgrows.fills
      have hrest := ih (p.add (Layout.under source output) f (blocks f)) hpages.2
        (fun u' hu' g hg => by rw [hread u' (hgrows.trans hu') g (List.mem_cons_of_mem _ hg),
          hread u hgrows g (List.mem_cons_of_mem _ hg)])
        (hgrows.hasMade hdir)
        ⟨fun g hg => by rw [hread u hgrows g (List.mem_cons_of_mem _ hg), hblocks.2 g hg],
          hparents.2, fun g hg => hfills.canWrite_iff.2 (htargets.2 g hg)⟩
      rw [← hu] at hfirst
      rw [List.foldlM_cons, pageFiles_cons, Tree.putFiles_cons, ← hu, Progress.addAll_cons]
      exact hfirst.bind hrest

end AllPages

end Quire.Site
