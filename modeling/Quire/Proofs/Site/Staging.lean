import Quire.Proofs.Glob.Paths
import Quire.Site.Staging

/-!
# What staging does to a tree

Staging makes the three directories, writes the two assets, and from then on only adds images:
everything that is there stays as it is, and **every entry that comes is a copy, under its own name, of
a file that a pattern finds** (`Stages`, `keepsUpTo_stageImages`). Once all went well nothing is left to
be done: **staging what is staged succeeds, copies nothing and changes nothing** (`gives_stage`).
-/

namespace Quire.Site

open Quire.Action (Keeps KeepsUpTo Gives)
open Quire.Path (Name)
open Quire.Tree (Fills Grows IsOnWay Kind Persists Place placeOf)

/-! ## 1. Directories and assets -/

/-- The three directories. -/
def Layout.directories (l : Layout) : List String :=
  [l.images, l.content, l.resources]

/-- Whether a place is that of one of the three directories, or of one on the way there. -/
def Layout.IsDirectory (l : Layout) (p : Place) : Prop :=
  ∃ dir ∈ l.directories, IsOnWay dir p

/-- The style sheet and the script, with the names of their files. -/
def assets : List (String × String) :=
  [(Page.styleFile, Page.styleSheet), (Page.scriptFile, Page.script)]

/-- The path of an asset. -/
def Layout.asset (l : Layout) (name : String) : String :=
  Path.join l.resources name

/-- Whether a place is that of an asset. -/
def Layout.IsAsset (l : Layout) (p : Place) : Prop :=
  ∃ a ∈ assets, p = placeOf (l.asset a.1)

variable {l : Layout} {t u : Tree} {p : Place} {path : String} {w v : Workspace}

theorem keeps_stageDirectories (l : Layout) :
    Keeps (Grows (fun _ => False) l.IsDirectory) (stageDirectories l) := by
  refine Action.keeps_forM fun dir hdir => Keeps.onFailure (Action.keeps_changeStepwise fun t => ?_) _
  exact (Tree.grows_makeDirectories t dir).mono (fun _ h => h) fun p hp => ⟨dir, hdir, hp⟩

theorem hasMade_of_stageDirectories (h : (stageDirectories l).runOn w = (.ok (), v)) :
    ∀ dir ∈ l.directories, v.tree.HasMade dir := by
  intro dir hdir
  obtain ⟨w', v', hmake, -, hv⟩ := Action.exists_of_forM_eq_ok
    (Q := Grows (fun _ => False) (fun _ => True))
    (fun dir _ => Keeps.onFailure (Action.keeps_changeStepwise fun t =>
      (Tree.grows_makeDirectories t dir).mono (fun _ h => h) fun _ _ => trivial) _) h hdir
  rw [Action.onFailure_eq_ok, Action.changeStepwise_eq_ok] at hmake
  obtain ⟨hnone, rfl⟩ := hmake
  exact hv.hasMade (Tree.hasMade_makeDirectories hnone)

/-- An asset written to its file. -/
def stageAsset (l : Layout) (a : String × String) : Action AccessError Unit :=
  Action.onFailure (Action.change (Tree.writeText · (l.asset a.1) a.2)) .system

theorem stageAssets_eq (l : Layout) : stageAssets l = assets.forM (stageAsset l) := rfl

theorem keeps_stageAsset {a : String × String} (ha : a ∈ assets) :
    Keeps (Grows l.IsAsset fun _ => False) (stageAsset l a) := by
  refine Keeps.onFailure (Action.keeps_change fun t u h => ?_) _
  obtain ⟨hcan, rfl⟩ := Tree.write_eq_ok.1 h
  exact .putFile hcan.isOpen ⟨a, ha, rfl⟩ _

theorem keeps_stageAssets (l : Layout) :
    Keeps (Grows l.IsAsset fun _ => False) (stageAssets l) := by
  rw [stageAssets_eq]
  exact Action.keeps_forM fun a ha => keeps_stageAsset ha

/-- Whether the assets are in their files. -/
def Layout.HasAssets (l : Layout) (t : Tree) : Prop :=
  ∀ a ∈ assets, t.locate (l.asset a.1) = .ok (.file (placeOf (l.asset a.1)) a.2.toUTF8)

theorem hasAssets_of_stageAssets (h : (stageAssets l).runOn w = (.ok (), v)) :
    l.HasAssets v.tree := by
  rw [stageAssets_eq, assets, List.forM, List.forM, List.forM] at h
  simp only [stageAsset, Action.bind_eq_ok, Action.onFailure_eq_ok, Action.change_eq_ok] at h
  obtain ⟨-, w₁, ⟨t₁, hstyle, rfl⟩, -, w₂, ⟨t₂, hscript, rfl⟩, hend⟩ := h
  cases hend
  dsimp only at hscript
  obtain ⟨hcan, ht₁⟩ := Tree.write_eq_ok.1 hstyle
  have hlstyle := hcan.locate_putFile Page.styleSheet.toUTF8
  rw [← ht₁] at hlstyle
  obtain ⟨hcan, rfl⟩ := Tree.write_eq_ok.1 hscript
  have hlscript := hcan.locate_putFile Page.script.toUTF8
  have hgrows : Grows (· = placeOf (l.asset Page.scriptFile)) (fun _ => False) t₁
      (t₁.putFile (placeOf (l.asset Page.scriptFile)) Page.script.toUTF8) := by
    refine .putFile hcan.isOpen ?_ _
    rfl
  have hne : placeOf (l.asset Page.styleFile) ≠ placeOf (l.asset Page.scriptFile) := by
    have hstyle := Tree.placeOf_join_name l.resources ⟨Page.styleFile, by decide⟩
    have hscript := Tree.placeOf_join_name l.resources ⟨Page.scriptFile, by decide⟩
    rw [Layout.asset, Layout.asset, hstyle, hscript]
    simp [Page.styleFile, Page.scriptFile]
  have hkept := hgrows.kind?_eq hne id
  obtain ⟨-, -, -, -, hat⟩ := Tree.locate_eq_file.1 hlstyle
  rw [Tree.kind?_eq_file.2 hat] at hkept
  refine List.forall_mem_cons.2 ⟨hgrows.locate_file_of_kind? hlstyle hkept, ?_⟩
  exact List.forall_mem_cons.2 ⟨hlscript, by simp⟩

/-! ## 2. Images -/

/-- The path that an image is copied to. -/
def Layout.image (l : Layout) (name : Name) : String :=
  Path.join l.images name.text

/-- Whether what stands at a place of a tree is the copy of a file whose path is among some, under the
name that this path ends in. -/
def Layout.IsCopy (l : Layout) (F : String → Prop) (t : Tree) (p : Place) (k : Kind) : Prop :=
  ∃ path name content, F path ∧ Path.fileName? path = some name ∧
    t.locate (l.image name) = .ok (.file p content) ∧ t.readBytes path = .ok content ∧
    k = .file content

/-- Whether a tree is another with images: everything is there as it was, and what is new are copies
of files whose paths are among some. -/
structure Stages (l : Layout) (F : String → Prop) (t u : Tree) : Prop where
  kept : ∀ {p : Place} {k : Kind}, t.kind? p = some k → u.kind? p = some k
  copied : ∀ {p : Place} {k : Kind}, u.kind? p = some k → t.kind? p = some k ∨ l.IsCopy F u p k

namespace Stages

variable {F : String → Prop}

theorem persists (h : Stages l F t u) : Persists t u where
  directory hp := h.kept hp
  file hp := ⟨_, h.kept hp⟩

theorem locate_file (h : Stages l F t u) {c : ByteArray} (hl : t.locate path = .ok (.file p c)) :
    u.locate path = .ok (.file p c) := by
  obtain ⟨-, -, -, -, hat⟩ := Tree.locate_eq_file.1 hl
  exact h.persists.locate_file_of_kind? hl (h.kept (Tree.kind?_eq_file.2 hat))

theorem readBytes (h : Stages l F t u) {c : ByteArray} (hr : t.readBytes path = .ok c) :
    u.readBytes path = .ok c := by
  obtain ⟨p, hl⟩ := Tree.readBytes_eq_ok.1 hr
  exact Tree.readBytes_eq_ok.2 ⟨p, h.locate_file hl⟩

theorem isCopy {k : Kind} (h : Stages l F t u) (hp : l.IsCopy F t p k) : l.IsCopy F u p k := by
  obtain ⟨path, name, c, hF, hname, hl, hr, hk⟩ := hp
  exact ⟨path, name, c, hF, hname, h.locate_file hl, h.readBytes hr, hk⟩

instance : IsPreorder Tree (Stages l F) where
  refl _ := ⟨fun h => h, .inl⟩
  trans _ _ _ h k :=
    { kept := fun hp => k.kept (h.kept hp)
      copied := fun hp => (k.copied hp).elim (fun hu => (h.copied hu).imp_right k.isCopy) .inr }

theorem fills (h : Stages l F t u) : Fills t u where
  toPersists := h.persists
  of_file _ := .inr trivial
  of_directory hp := by
    rcases h.copied hp with hp | ⟨_, _, _, -, -, -, -, hk⟩
    · exact .inl hp
    · cases hk

end Stages

/-- A copy that is made where nothing was adds one image. -/
theorem stages_of_copy {F : String → Prop} {name : Name} (hF : F path)
    (hname : Path.fileName? path = some name) (hfree : t.hasEntry (l.image name) = false)
    (h : t.copy path (l.image name) = .ok u) : Stages l F t u := by
  rw [Tree.copy] at h
  split at h
  · rename_i c hread
    obtain ⟨hcan, hu⟩ := Tree.write_eq_ok.1 h
    have hopen := hcan.isOpen
    have hl := hcan.locate_putFile c
    rw [← hu] at hl
    have hnone : t.kind? (placeOf (l.image name)) = none := hcan.kind?_eq_none hfree
    have hkept {p : Place} {k : Kind} (hp : t.kind? p = some k) : u.kind? p = some k := by
      rw [hu, Tree.kind?_putFile hopen, if_neg, hp]
      rintro rfl
      rw [hnone] at hp
      cases hp
    refine ⟨hkept, fun {p k} hp => ?_⟩
    by_cases hpl : p = placeOf (l.image name)
    · right
      subst hpl
      obtain ⟨q, hq⟩ := Tree.readBytes_eq_ok.1 hread
      have hpersists : Persists t u := ⟨hkept, fun hp => ⟨_, hkept hp⟩⟩
      obtain ⟨-, -, -, -, hat⟩ := Tree.locate_eq_file.1 hq
      have hqu := hpersists.locate_file_of_kind? hq (hkept (Tree.kind?_eq_file.2 hat))
      refine ⟨path, name, c, hF, hname, hl, Tree.readBytes_eq_ok.2 ⟨q, hqu⟩, ?_⟩
      rw [hu, Tree.kind?_putFile hopen, if_pos rfl] at hp
      exact (Option.some.inj hp).symm
    · rw [hu, Tree.kind?_putFile hopen, if_neg hpl] at hp
      exact .inl hp
  · cases h

/-- **What is done at one path adds an image or nothing.** -/
theorem keeps_stageImage {F : String → Prop} (hF : F path) (copied : Nat) :
    Keeps (Stages l F) (stageImage l copied path) := by
  intro w
  rw [stageImage, Action.runOn_bind, Action.runOn_tree]
  dsimp only
  split
  · exact refl_of (Stages l F) w.tree
  split
  · exact refl_of (Stages l F) w.tree
  · rename_i name hname
    split
    · exact refl_of (Stages l F) w.tree
    · rename_i hfree
      rw [Action.runOn_bind, Action.runOn_onFailure, Action.runOn_change]
      cases hcopy : w.tree.copy path (Path.join l.images name.text) with
      | error e => exact refl_of (Stages l F) w.tree
      | ok u => exact stages_of_copy hF hname (Bool.eq_false_iff.2 hfree) hcopy

/-- Whether a path is that of an image with a name: a file that is not in the output directory. -/
def Layout.takes (l : Layout) (t : Tree) (name : Name) (path : String) : Bool :=
  t.hasFile path && !Path.isUnder path l.root && Path.fileName? path == some name

theorem Layout.takes_iff : l.takes t name path = true ↔
    t.hasFile path = true ∧ Path.isUnder path l.root = false ∧ Path.fileName? path = some name := by
  simp [Layout.takes, and_assoc]

/-- **What is done at a path**: nothing if it is not that of an image, or there is an entry under its
name, and else the image is copied there. -/
theorem stageImage_eq_ok {copied n : Nat} (h : (stageImage l copied path).runOn w = (.ok n, v)) :
    (v.tree = w.tree ∧ n = copied ∧
      ∀ name, l.takes w.tree name path = true → w.tree.hasEntry (l.image name) = true) ∨
    ∃ name c, l.takes w.tree name path = true ∧ w.tree.readBytes path = .ok c ∧
      w.tree.hasEntry (l.image name) = false ∧ w.tree.CanWrite (l.image name) ∧
      v.tree = w.tree.putFile (placeOf (l.image name)) c ∧ n = copied + 1 := by
  rw [stageImage, Action.bind_eq_ok] at h
  obtain ⟨t, w', htree, h⟩ := h
  cases htree
  split at h
  · rename_i hcond
    cases h
    refine .inl ⟨rfl, rfl, fun name htakes => ?_⟩
    obtain ⟨hfile, hunder, -⟩ := Layout.takes_iff.1 htakes
    simp [hfile, hunder] at hcond
  rename_i hcond
  rw [Bool.or_eq_true, not_or, Bool.not_eq_true', Bool.not_eq_false, Bool.not_eq_true] at hcond
  split at h
  · rename_i hname
    cases h
    refine .inl ⟨rfl, rfl, fun name htakes => ?_⟩
    rw [(Layout.takes_iff.1 htakes).2.2] at hname
    cases hname
  rename_i name hname
  dsimp only at h
  split at h
  · rename_i hentry
    cases h
    refine .inl ⟨rfl, rfl, fun other htakes => ?_⟩
    rw [(Layout.takes_iff.1 htakes).2.2, Option.some.injEq] at hname
    rwa [hname]
  · rename_i hentry
    rw [Action.bind_eq_ok] at h
    obtain ⟨x, w', hcopy, hend⟩ := h
    cases hend
    rw [Action.onFailure_eq_ok, Action.change_eq_ok] at hcopy
    obtain ⟨t, hcopy, rfl⟩ := hcopy
    rw [Tree.copy] at hcopy
    split at hcopy
    · rename_i c hread
      obtain ⟨hcan, rfl⟩ := Tree.write_eq_ok.1 hcopy
      exact .inr ⟨name, c, Layout.takes_iff.2 ⟨hcond.1, hcond.2, hname⟩, hread,
        Bool.eq_false_iff.2 hentry, hcan, rfl, rfl⟩
    · cases hcopy

/-- Whether a path need not be staged: it leads through the output directory, or there is an entry in
its place. -/
def Layout.IsSettled (l : Layout) (t : Tree) (path : String) : Prop :=
  Path.isUnder path l.root = true ∨
    ∀ name, Path.fileName? path = some name → t.hasEntry (l.image name) = true

theorem Layout.IsSettled.mono (h : Persists t u) (hp : l.IsSettled t path) :
    l.IsSettled u path :=
  hp.imp_right fun hentry name hname => h.hasEntry (hentry name hname)

/-- **A file is settled once it had its turn.** -/
theorem isSettled_of_stageImage {copied n : Nat}
    (h : (stageImage l copied path).runOn w = (.ok n, v)) (hfile : w.tree.hasFile path = true) :
    l.IsSettled v.tree path := by
  cases hunder : Path.isUnder path l.root with
  | true => exact .inl hunder
  | false =>
      refine .inr fun name hname => ?_
      have htakes : l.takes w.tree name path = true := Layout.takes_iff.2 ⟨hfile, hunder, hname⟩
      rcases stageImage_eq_ok h with ⟨htree, -, hentry⟩ | ⟨other, c, hother, -, -, hcan, htree, -⟩
      · rw [htree]
        exact hentry name htakes
      · rw [(Layout.takes_iff.1 hother).2.2, Option.some.injEq] at hname
        rw [htree, ← hname]
        exact Tree.hasEntry_iff.2 (.inr ⟨_, c, hcan.locate_putFile c⟩)

/-- Nothing is done at a path that leads to no file, or is settled. -/
theorem gives_stageImage (h : t.hasFile path = true → l.IsSettled t path) (copied : Nat) :
    Gives (stageImage l copied path) t copied t := by
  refine (Action.gives_tree t).bind ?_
  split
  · exact Action.gives_pure copied t
  rename_i hcond
  rw [Bool.or_eq_true, not_or, Bool.not_eq_true', Bool.not_eq_false] at hcond
  split
  · exact Action.gives_pure copied t
  · rename_i name hname
    have hentry := (h hcond.1).resolve_left hcond.2 name hname
    rw [Layout.image] at hentry
    rw [if_pos hentry]
    exact (Action.gives_note _ t).bind (Action.gives_pure copied t)

/-- Whether a path is one that a pattern from a source directory stands for. -/
def IsMatched (source : String) (patterns : List String) (t : Tree) (path : String) : Prop :=
  ∃ pattern ∈ patterns, ∃ p, Glob.Pattern.ofString (Path.join source pattern) = .ok p ∧
    path ∈ p.paths t

section Images

variable {source : String} {patterns : List String}

/-- The images that patterns find, staged one pattern after the other. -/
def stageImages (source : String) (l : Layout) (patterns : List String) (copied : Nat) :
    Action AccessError Nat :=
  patterns.foldlM (stagePattern source l) copied

theorem keeps_stagePattern (source : String) (l : Layout) (copied : Nat) (pattern : String) :
    Keeps (Stages l fun _ => True) (stagePattern source l copied pattern) := by
  rw [stagePattern]
  cases Glob.Pattern.ofString (Path.join source pattern) with
  | error cause => exact Action.keeps_throw _
  | ok p => exact Glob.keeps_foldM (fun n path => keeps_stageImage trivial n) p copied

theorem keeps_fills_stageImage (copied : Nat) (path : String) :
    Keeps Fills (stageImage l copied path) :=
  (keeps_stageImage (F := fun _ => True) trivial copied).mono fun _ _ h => h.fills

theorem keeps_fills_stagePattern (source : String) (l : Layout) (copied : Nat) (pattern : String) :
    Keeps Fills (stagePattern source l copied pattern) :=
  (keeps_stagePattern source l copied pattern).mono fun _ _ h => h.fills

/-- **The images that are staged are copies of files that a pattern stands for at the end.** -/
theorem keepsUpTo_stageImages (s : Tree) (copied : Nat) :
    KeepsUpTo Fills s (Stages l (IsMatched source patterns s)) (stageImages source l patterns copied) := by
  refine Action.keepsUpTo_foldlM (fun pattern _ n => keeps_fills_stagePattern source l n pattern)
    (fun pattern hpattern n => ?_) copied
  rw [stagePattern]
  cases hp : Glob.Pattern.ofString (Path.join source pattern) with
  | error cause => exact (Action.keeps_throw _).upTo Fills s
  | ok p =>
      exact Glob.keepsUpTo_foldM (F := IsMatched source patterns s) keeps_fills_stageImage
        (fun n path hpath => keeps_stageImage hpath n)
        (fun path hpath => ⟨pattern, hpattern, p, hp, hpath⟩) n

/-- A file that is a copy is settled by itself, however its path is written. -/
theorem Layout.IsCopy.isSettled {F : String → Prop} {k : Kind} (h : l.IsCopy F t p k)
    {c : ByteArray} (hl : t.locate path = .ok (.file p c)) : l.IsSettled t path := by
  obtain ⟨_, name, d, -, -, himage, -, -⟩ := h
  refine .inr fun n hn => ?_
  obtain ⟨-, -, ⟨ds, m, hcs, -, -⟩, hp, -⟩ := Tree.locate_eq_file.1 hl
  obtain ⟨-, -, -, hq, -⟩ := Tree.locate_eq_file.1 himage
  rw [Path.fileName?_of_components hcs, Option.some.injEq] at hn
  have hlast : m = name := by
    rw [hp, Tree.placeOf_concat hcs, Layout.image, Tree.placeOf_join_name] at hq
    exact List.concat_inj.1 (by rwa [List.concat_eq_append, List.concat_eq_append]) |>.2
  rw [← hn, hlast]
  exact Tree.hasEntry_iff.2 (.inr ⟨p, d, himage⟩)

/-- **A file that is there now was there, or it is a copy and so settled.** -/
theorem Stages.hasFile_or_isSettled {F : String → Prop} (h : Stages l F t u)
    (hfile : u.hasFile path = true) : t.hasFile path = true ∨ l.IsSettled u path := by
  obtain ⟨p, c, hl⟩ := Tree.hasFile_iff.1 hfile
  obtain ⟨-, -, -, -, hat⟩ := Tree.locate_eq_file.1 hl
  rcases h.copied (Tree.kind?_eq_file.2 hat) with hold | hcopy
  · exact .inl (Tree.hasFile_iff.2 ⟨p, c, h.fills.locate_file_of_kind? hl hold⟩)
  · exact .inr (hcopy.isSettled hl)

theorem exists_stagePattern_of_stageImages {copied n : Nat}
    (h : (stageImages source l patterns copied).runOn w = (.ok n, v)) {pattern : String}
    (hpattern : pattern ∈ patterns) :
    ∃ p m k w' v', Glob.Pattern.ofString (Path.join source pattern) = .ok p ∧
      (p.foldM Action.tree (stageImage l) m).runOn w' = (.ok k, v') ∧
      Stages l (fun _ => True) w'.tree v'.tree ∧ Stages l (fun _ => True) v'.tree v.tree := by
  obtain ⟨m, k, w', v', hturn, -, hv⟩ := Action.exists_of_foldlM_eq_ok
    (fun pattern _ n => keeps_stagePattern source l n pattern) h hpattern
  have hkeeps := keeps_stagePattern source l m pattern w'
  rw [hturn] at hkeeps
  rw [stagePattern] at hturn
  split at hturn
  · cases hturn
  · rename_i p hp
    exact ⟨p, m, k, w', v', hp, hturn, hkeeps, hv⟩

/-- **After staging, every file that a pattern stands for is settled.** -/
theorem isSettled_of_stageImages {copied n : Nat}
    (h : (stageImages source l patterns copied).runOn w = (.ok n, v)) (hu : Fills v.tree u)
    (hpath : IsMatched source patterns u path) (hfile : v.tree.hasFile path = true) :
    l.IsSettled v.tree path := by
  obtain ⟨pattern, hpattern, p, hp, hpath⟩ := hpath
  obtain ⟨p', m, k, w', v', hp', hturn, hw', hv'⟩ :=
    exists_stagePattern_of_stageImages h hpattern
  rw [hp, Except.ok.injEq] at hp'
  subst hp'
  rcases (trans_of _ hw' hv').hasFile_or_isSettled hfile with hold | hsettled
  · -- the file was there before the pattern had its turn
    have hturned := Glob.settled_of_foldM (S := fun t path => l.IsSettled t path)
      (fun h => Layout.IsSettled.mono h.toPersists) keeps_fills_stageImage
      isSettled_of_stageImage hturn (trans_of Fills hv'.fills hu) hpath hold
    exact hturned.mono hv'.persists
  · exact hsettled

end Images

/-! ## 3. Everything -/

section Stage

variable {source : String} {patterns : List String}

theorem stage_eq (source : String) (l : Layout) (patterns : List String) :
    stage source l patterns = stageDirectories l >>= fun _ => stageAssets l >>= fun _ =>
      stageImages source l patterns 0 :=
  rfl

/-- Staging succeeds if its three parts do. -/
theorem stage_eq_ok {n : Nat} : (stage source l patterns).runOn w = (.ok n, v) ↔
    ∃ w₁ made, (stageDirectories l).runOn w = (.ok (), w₁) ∧
      (stageAssets l).runOn w₁ = (.ok (), made) ∧
      (stageImages source l patterns 0).runOn made = (.ok n, v) := by
  rw [stage_eq, Action.bind_eq_ok]
  constructor
  · rintro ⟨_, w₁, hdirectories, h⟩
    obtain ⟨_, made, hassets, himages⟩ := Action.bind_eq_ok.1 h
    exact ⟨w₁, made, hdirectories, hassets, himages⟩
  · rintro ⟨w₁, made, hdirectories, hassets, himages⟩
    exact ⟨(), w₁, hdirectories, Action.bind_eq_ok.2 ⟨(), made, hassets, himages⟩⟩

/-- **Staging grows a tree by the three directories and the assets, and then by images.** -/
theorem exists_stage (source : String) (l : Layout) (patterns : List String) (w : Workspace) :
    ∃ t, Grows l.IsAsset l.IsDirectory w.tree t ∧
      Stages l (IsMatched source patterns ((stage source l patterns).runOn w).2.tree) t
        ((stage source l patterns).runOn w).2.tree := by
  have hkeeps : Keeps (Grows l.IsAsset l.IsDirectory) (stageDirectories l) :=
    (keeps_stageDirectories l).mono fun _ _ h => h.mono (fun _ hp => hp.elim) fun _ hp => hp
  have hdirectories := hkeeps w
  rw [stage_eq, Action.runOn_bind]
  rcases hrun : (stageDirectories l).runOn w with ⟨e | x, w₁⟩ <;> rw [hrun] at hdirectories
  · exact ⟨w₁.tree, hdirectories, refl_of _ w₁.tree⟩
  have hkeeps' : Keeps (Grows l.IsAsset l.IsDirectory) (stageAssets l) :=
    (keeps_stageAssets l).mono fun _ _ h => h.mono (fun _ hp => hp) fun _ hp => hp.elim
  have hassets := hkeeps' w₁
  dsimp only
  rw [Action.runOn_bind]
  rcases hrun : (stageAssets l).runOn w₁ with ⟨e | x, w₂⟩ <;> rw [hrun] at hassets
  · exact ⟨w₂.tree, hdirectories.trans hassets, refl_of _ w₂.tree⟩
  · exact ⟨w₂.tree, hdirectories.trans hassets,
      keepsUpTo_stageImages _ 0 w₂ (refl_of Fills _)⟩

/-- What there is of an output directory that was staged: the directories, the assets, and every image
that would be staged again. -/
structure IsStaged (source : String) (l : Layout) (patterns : List String) (t : Tree) : Prop where
  directories : ∀ dir ∈ l.directories, t.HasMade dir
  assets : l.HasAssets t
  readable : ∀ pattern ∈ patterns, ∃ p,
    Glob.Pattern.ofString (Path.join source pattern) = .ok p
  images : ∀ path, IsMatched source patterns t path → t.hasFile path = true → l.IsSettled t path

/-- **What is staged is staged again without a change.** -/
theorem gives_stage (h : IsStaged source l patterns t) :
    Gives (stage source l patterns) t 0 t := by
  rw [stage_eq]
  refine Gives.bind (u := t) (x := ()) ?_ (Gives.bind (u := t) (x := ()) ?_ ?_)
  · exact Action.gives_forM_self fun dir hdir => (Action.gives_changeStepwise
      (Tree.makeDirectories_of_hasMade (h.directories dir hdir))).onFailure _
  · refine Action.gives_forM_self fun a ha => (Action.gives_change ?_).onFailure _
    have hl := h.assets a ha
    obtain ⟨-, -, -, -, hat⟩ := Tree.locate_eq_file.1 hl
    exact Tree.write_eq_ok.2
      ⟨.of_locate_file hl, (Tree.putFile_self (Tree.kind?_eq_file.2 hat)).symm⟩
  · refine Action.gives_foldlM_self (fun pattern hpattern n => ?_) 0
    obtain ⟨p, hp⟩ := h.readable pattern hpattern
    rw [stagePattern, hp]
    exact Glob.gives_foldM (fun path hpath n =>
      gives_stageImage (h.images path ⟨pattern, hpattern, p, hp, hpath⟩) n) n

/-- **What was staged is staged**, also in a tree that got other files since, as long as no pattern
finds one of those. -/
theorem isStaged_of_stage {n : Nat} (h : (stage source l patterns).runOn w = (.ok n, v))
    (hu : Fills v.tree u) (hassets : ∀ p, l.IsAsset p → u.kind? p = v.tree.kind? p)
    (hold : ∀ path, IsMatched source patterns u path → u.hasFile path = true →
      v.tree.hasFile path = true) : IsStaged source l patterns u := by
  obtain ⟨w₁, w₂, hdirectories, hassets', himages⟩ := stage_eq_ok.1 h
  have hgrows := keeps_stageAssets l w₁
  rw [hassets'] at hgrows
  have hstages : Stages l (fun _ => True) w₂.tree v.tree := by
    have := Action.keeps_foldlM (fun pattern _ n => keeps_stagePattern source l n pattern)
      (l := patterns) 0 w₂
    rwa [show (patterns.foldlM (stagePattern source l) 0).runOn w₂ = _ from himages] at this
  refine ⟨fun dir hdir => ?_, fun a ha => ?_, fun pattern hpattern => ?_, fun path hpath hfile => ?_⟩
  · exact hu.hasMade (hstages.persists.hasMade
      (hgrows.hasMade (hasMade_of_stageDirectories hdirectories dir hdir)))
  · have hl := hstages.locate_file (hasAssets_of_stageAssets hassets' a ha)
    obtain ⟨-, -, -, -, hat⟩ := Tree.locate_eq_file.1 hl
    have hkept := hassets (placeOf (l.asset a.1)) ⟨a, ha, rfl⟩
    rw [Tree.kind?_eq_file.2 hat] at hkept
    exact hu.toPersists.locate_file_of_kind? hl hkept
  · obtain ⟨p, -, -, -, -, hp, -⟩ := exists_stagePattern_of_stageImages himages hpattern
    exact ⟨p, hp⟩
  · exact (isSettled_of_stageImages himages hu hpath (hold path hpath hfile)).mono hu.toPersists

/-- Nothing is gone once the output directory is staged. -/
theorem persists_of_stage {n : Nat} (h : (stage source l patterns).runOn w = (.ok n, v)) :
    Persists w.tree v.tree := by
  obtain ⟨t, hgrows, hstages⟩ := exists_stage source l patterns w
  rw [h] at hstages
  exact hgrows.toPersists.trans hstages.persists

/-- The content directory is there once it is staged. -/
theorem hasMade_content_of_stage {n : Nat} (h : (stage source l patterns).runOn w = (.ok n, v)) :
    v.tree.HasMade l.content := by
  have hstaged := isStaged_of_stage h (refl_of Fills _) (fun _ _ => rfl) fun _ _ h => h
  exact hstaged.directories l.content (by simp [Layout.directories])

end Stage

end Quire.Site
