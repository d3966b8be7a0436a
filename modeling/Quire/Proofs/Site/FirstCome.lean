import Quire.Proofs.Glob.Order
import Quire.Proofs.Glob.Sorted
import Quire.Proofs.Site.Staging

/-!
# Which image is staged under a name

The copies that staging makes are found by the walks that are still to come, and by the walk that is
on. They lead nowhere and have their names taken, so it makes no difference to find all paths first:
**images are staged as if one went through the paths that were found before any was**
(`alike_stageImages`). Gone through in this order, the first image of a name is copied if nothing has
the name, and nothing is ever written over (`IsStagedFrom`, kept by each path and so by all of them).
Together with what was there before, this says of every place what stands there in the end
(`stage_first_come`).

The paths of one pattern need not come in order: if more than one component follows two stars, a path
that is less deep can be found first (section 5).
-/

namespace Quire.Site

open Quire.Action (Alike Gives)
open Quire.Path (Name)
open Quire.Tree (Fills Grows Kind Persists Place placeOf)

variable {source : String} {l : Layout} {patterns : List String} {t u : Tree} {path : String}
  {name : Name} {w v : Workspace}

/-! ## 1. What is found -/

/-- The paths that a pattern from a source directory stands for. -/
def matchedBy (source : String) (t : Tree) (pattern : String) : List String :=
  match Glob.Pattern.ofString (Path.join source pattern) with
  | .ok p => p.paths t
  | .error _ => []

/-- The paths that patterns from a source directory stand for, pattern by pattern. -/
def matched (source : String) (patterns : List String) (t : Tree) : List String :=
  patterns.flatMap (matchedBy source t)

theorem placeOf_image (l : Layout) (name : Name) :
    placeOf (l.image name) = placeOf l.images ++ [name] :=
  Tree.placeOf_join_name l.images name

theorem placeOf_image_ne {other : Name} (h : other ≠ name) :
    placeOf (l.image other) ≠ placeOf (l.image name) := by
  rw [placeOf_image, placeOf_image]
  simpa using h

/-- Where there is no image, everything is as it was. -/
theorem Stages.kind?_eq {F : String → Prop} {p : Place} (h : Stages l F t u)
    (hp : ∀ name, p ≠ placeOf (l.image name)) : u.kind? p = t.kind? p := by
  cases hk : u.kind? p with
  | none => exact (h.persists.eq_none hk).symm
  | some k =>
      rcases h.copied hk with hold | ⟨_, name, _, -, -, hl, -, -⟩
      · exact hold.symm
      · obtain ⟨-, -, -, rfl, -⟩ := Tree.locate_eq_file.1 hl
        exact absurd rfl (hp name)

theorem Layout.HasAssets.kind?_ne_none {p : Place} (h : l.HasAssets t) (hp : l.IsAsset p) :
    t.kind? p ≠ none := by
  obtain ⟨a, ha, rfl⟩ := hp
  obtain ⟨-, -, -, -, hat⟩ := Tree.locate_eq_file.1 (h a ha)
  rw [Tree.kind?_eq_file.2 hat]
  exact Option.some_ne_none _

/-! ## 2. Going through the paths -/

theorem alike_stageImage (copied : Nat) (path : String) :
    Alike Eq Eq Eq (stageImage l copied path) (stageImage l copied path) := by
  refine Action.alike_tree.bind fun t u htu => ?_
  subst htu
  split
  · exact Action.alike_pure rfl
  split
  · exact Action.alike_pure rfl
  · dsimp only
    split
    · exact (Action.alike_note _ _).bind fun _ _ _ => Action.alike_pure rfl
    · refine Alike.bind (A := Eq) ?_ fun _ _ _ => Action.alike_pure rfl
      refine (Action.alike_change (E := Eq) fun t u htu => ?_).onFailure fun _ _ h => h ▸ rfl
      subst htu
      cases Tree.copy t path _ with
      | ok u => exact .ok rfl
      | error e => exact .error rfl

/-- Where nothing was, nothing is done: there is nothing still, or a copy. -/
theorem gives_stageImage_of_new (h : Stages l (fun _ => True) t u)
    (hnew : t.kind? (placeOf path) = none) (copied : Nat) :
    Gives (stageImage l copied path) u copied u := by
  refine gives_stageImage (fun hfile => ?_) copied
  rcases h.hasFile_or_isSettled hfile with hold | hsettled
  · exact absurd hnew (Tree.kind?_ne_none_of_hasEntry (Tree.hasEntry_of_hasFile hold))
  · exact hsettled

/-- **Images are staged as if all paths had been found before any image was.** -/
theorem alike_stageImages (hreadable : ∀ pattern ∈ patterns, ∃ p,
    Glob.Pattern.ofString (Path.join source pattern) = .ok p) (copied : Nat) :
    Alike (fun u v => u = v ∧ Stages l (fun _ => True) t u) Eq Eq
      (stageImages source l patterns copied)
      ((matched source patterns t).foldlM (stageImage l) copied) := by
  have hact (b : Nat) (path : String) :
      Alike (fun u v => u = v ∧ Stages l (fun _ => True) t u) Eq Eq
        (stageImage l b path) (stageImage l b path) :=
    (alike_stageImage b path).and_keeps (keeps_stageImage trivial b)
  rw [stageImages, matched]
  induction patterns generalizing copied with
  | nil => exact Action.alike_pure rfl
  | cons pattern patterns ih =>
      rw [List.forall_mem_cons] at hreadable
      obtain ⟨⟨p, hp⟩, hrest⟩ := hreadable
      rw [List.foldlM_cons, List.flatMap_cons, List.foldlM_append]
      refine Alike.bind (A := Eq) ?_ fun b c hbc => ?_
      · rw [stagePattern, matchedBy, hp]
        exact Glob.alike_foldM_paths (fun h => h.fills) (fun h hnew b => gives_stageImage_of_new h hnew b)
          hact p copied
      · subst hbc
        exact ih hrest b

/-! ## 3. The first of a name -/

theorem Layout.exists_readBytes_of_takes (h : l.takes t name path = true) :
    ∃ c, t.readBytes path = .ok c := by
  obtain ⟨p, c, hl⟩ := Tree.hasFile_iff.1 (Layout.takes_iff.1 h).1
  exact ⟨c, Tree.readBytes_eq_ok.2 ⟨p, hl⟩⟩

/-- An image that was there is one still. -/
theorem Layout.takes_mono (h : Persists t u) (hp : l.takes t name path = true) :
    l.takes u name path = true := by
  obtain ⟨hfile, hrest⟩ := Layout.takes_iff.1 hp
  exact Layout.takes_iff.2 ⟨h.hasFile hfile, hrest⟩

/-- An image that would be copied was there before: if it were a copy, its name would be taken. -/
theorem takes_of_stages (h : Stages l (fun _ => True) t u) (hp : l.takes u name path = true)
    (hfree : u.hasEntry (l.image name) = false) : l.takes t name path = true := by
  obtain ⟨hfile, hunder, hname⟩ := Layout.takes_iff.1 hp
  rcases h.hasFile_or_isSettled hfile with hold | hroot | hentry
  · exact Layout.takes_iff.2 ⟨hold, hunder, hname⟩
  · rw [hunder] at hroot
    cases hroot
  · rw [hentry name hname] at hfree
    cases hfree

/-- Whether a tree is another after some paths were gone through, with a number of images copied:
under a name that was free there is a copy of the first path that is taken for it, and nothing if none
is. -/
structure IsStagedFrom (l : Layout) (t : Tree) (paths : List String) (u : Tree) (n : Nat) : Prop where
  stages : Stages l (fun _ => True) t u
  image : ∀ name, t.kind? (placeOf (l.image name)) = none →
    u.kind? (placeOf (l.image name)) =
      (paths.find? (l.takes t name)).bind fun path => (t.readBytes path).toOption.map Kind.file
  count : ∃ names : List Name, names.Nodup ∧ names.length = n ∧ ∀ name, name ∈ names ↔
    t.kind? (placeOf (l.image name)) = none ∧ u.kind? (placeOf (l.image name)) ≠ none

namespace IsStagedFrom

variable {paths : List String} {n m : Nat}

theorem nil (l : Layout) (t : Tree) : IsStagedFrom l t [] t 0 where
  stages := refl_of _ t
  image _ h := h
  count := ⟨[], List.nodup_nil, rfl, fun _ => by simp⟩

/-- No path was taken for a name that is free. -/
theorem find?_eq_none (h : IsStagedFrom l t paths u n)
    (hfree : u.kind? (placeOf (l.image name)) = none) : paths.find? (l.takes t name) = none := by
  have himage := h.image name (h.stages.persists.eq_none hfree)
  rw [hfree] at himage
  cases hfind : paths.find? (l.takes t name) with
  | none => rfl
  | some path =>
      obtain ⟨c, hc⟩ := Layout.exists_readBytes_of_takes (List.find?_some hfind)
      rw [hfind, Option.bind_some, hc] at himage
      cases himage

/-- A path that is not taken for a free name makes no difference. -/
theorem skip (h : IsStagedFrom l t paths u n) (hskip : ∀ name, l.takes t name path = true →
    u.kind? (placeOf (l.image name)) ≠ none) : IsStagedFrom l t (paths ++ [path]) u n where
  stages := h.stages
  image name hname := by
    rw [h.image name hname, List.find?_append]
    cases hfind : paths.find? (l.takes t name) with
    | some p => rfl
    | none =>
        have hfree := h.image name hname
        rw [hfind, Option.bind_none] at hfree
        rw [List.find?_singleton, if_neg fun htakes => hskip name htakes hfree]
        rfl
  count := h.count

/-- A path that is taken for a free name adds its copy. -/
theorem copy (h : IsStagedFrom l t paths u n) {c : ByteArray} (htakes : l.takes t name path = true)
    (hread : t.readBytes path = .ok c) (hfree : u.kind? (placeOf (l.image name)) = none)
    (hopen : u.IsOpen (placeOf (l.image name)))
    (hstages : Stages l (fun _ => True) t (u.putFile (placeOf (l.image name)) c)) :
    IsStagedFrom l t (paths ++ [path]) (u.putFile (placeOf (l.image name)) c) (n + 1) where
  stages := hstages
  image other hother := by
    rw [List.find?_append, Tree.kind?_putFile hopen]
    by_cases heq : other = name
    · subst heq
      rw [if_pos rfl, h.find?_eq_none hfree, Option.none_or, List.find?_singleton, if_pos htakes,
        Option.bind_some, hread]
      rfl
    · rw [if_neg (placeOf_image_ne heq), List.find?_singleton, if_neg, Option.or_none,
        h.image other hother]
      intro hothers
      have hname := (Layout.takes_iff.1 htakes).2.2
      rw [(Layout.takes_iff.1 hothers).2.2, Option.some.injEq] at hname
      exact heq hname
  count := by
    obtain ⟨names, hnodup, hlength, hmem⟩ := h.count
    refine ⟨name :: names, List.nodup_cons.2 ⟨fun hold => ?_, hnodup⟩, by simp [hlength], ?_⟩
    · exact ((hmem name).1 hold).2 hfree
    intro other
    rw [List.mem_cons, hmem, Tree.kind?_putFile hopen]
    by_cases heq : other = name
    · subst heq
      simp [h.stages.persists.eq_none hfree]
    · simp [heq, placeOf_image_ne heq]

/-- **One more path.** -/
theorem step (h : IsStagedFrom l t paths w.tree n)
    (hrun : (stageImage l n path).runOn w = (.ok m, v)) :
    IsStagedFrom l t (paths ++ [path]) v.tree m := by
  have hkept : Stages l (fun _ => True) w.tree ((stageImage l n path).runOn w).2.tree :=
    keeps_stageImage trivial n w
  rw [hrun] at hkept
  rcases stageImage_eq_ok hrun with ⟨htree, rfl, hskip⟩ |
    ⟨name, c, htakes, hread, hfree, hcan, htree, rfl⟩
  · rw [htree]
    exact h.skip fun name htakes => Tree.kind?_ne_none_of_hasEntry
      (hskip name (Layout.takes_mono h.stages.persists htakes))
  · have htakes' := takes_of_stages h.stages htakes hfree
    obtain ⟨d, hd⟩ := Layout.exists_readBytes_of_takes htakes'
    have hsame := h.stages.readBytes hd
    rw [hread, Except.ok.injEq] at hsame
    subst hsame
    rw [htree] at hkept ⊢
    exact h.copy htakes' hd (hcan.kind?_eq_none hfree) hcan.isOpen (trans_of _ h.stages hkept)

/-- **All paths, one after the other.** -/
theorem run {front : List String} (h : IsStagedFrom l t front w.tree n)
    (hrun : (paths.foldlM (stageImage l) n).runOn w = (.ok m, v)) :
    IsStagedFrom l t (front ++ paths) v.tree m := by
  induction paths generalizing front n w with
  | nil =>
      cases hrun
      rwa [List.append_nil]
  | cons path paths ih =>
      rw [List.foldlM_cons, Action.bind_eq_ok] at hrun
      obtain ⟨k, w', hfirst, hrest⟩ := hrun
      rw [List.append_cons]
      exact ih (h.step hfirst) hrest

end IsStagedFrom

/-- Staging images succeeds exactly if going through the paths that were there to be found does. -/
theorem stageImages_eq_ok {copied n : Nat} (hreadable : ∀ pattern ∈ patterns, ∃ p,
    Glob.Pattern.ofString (Path.join source pattern) = .ok p) :
    (∃ v, (stageImages source l patterns copied).runOn w = (.ok n, v) ∧ v.tree = u) ↔
      ∃ v, ((matched source patterns w.tree).foldlM (stageImage l) copied).runOn w = (.ok n, v) ∧
        v.tree = u := by
  obtain ⟨hagree, htree, -⟩ :=
    alike_stageImages (t := w.tree) (l := l) hreadable copied w w ⟨rfl, refl_of _ w.tree⟩
  generalize (stageImages source l patterns copied).runOn w = x at hagree htree ⊢
  generalize ((matched source patterns w.tree).foldlM (stageImage l) copied).runOn w = y
    at hagree htree ⊢
  obtain ⟨r, v⟩ := x
  obtain ⟨r', v'⟩ := y
  dsimp only at htree
  cases hagree with
  | ok hn =>
      subst hn
      simp [htree]
  | error _ => simp

/-- **Under a free name the first image that a pattern finds is staged.** -/
theorem isStagedFrom_of_stageImages {n : Nat}
    (h : (stageImages source l patterns 0).runOn w = (.ok n, v)) :
    IsStagedFrom l w.tree (matched source patterns w.tree) v.tree n := by
  have hreadable : ∀ pattern ∈ patterns, ∃ p,
      Glob.Pattern.ofString (Path.join source pattern) = .ok p := by
    intro pattern hpattern
    obtain ⟨p, -, -, -, -, hp, -⟩ := exists_stagePattern_of_stageImages h hpattern
    exact ⟨p, hp⟩
  obtain ⟨v', hrun, htree⟩ := (stageImages_eq_ok hreadable).1 ⟨v, h, rfl⟩
  rw [← htree]
  exact (IsStagedFrom.nil l w.tree).run hrun

/-! ## 4. Everything -/

/-- Whether a path is the first to be taken for a name: no pattern before the one that finds it finds
one that is taken, and nor does this pattern before it. If the pattern is orderly, the path is the least
that it finds and that is taken. -/
structure IsFirst (source : String) (l : Layout) (before : List String) (pattern : String) (t : Tree)
    (name : Name) (path : String) : Prop where
  takes : l.takes t name path = true
  before : ∀ other ∈ matched source before t, l.takes t name other = false
  found : ∃ front back, matchedBy source t pattern = front ++ path :: back ∧
    ∀ other ∈ front, l.takes t name other = false
  least : (∀ p, Glob.Pattern.ofString (Path.join source pattern) = .ok p →
      Glob.isOrderly p.pieces = true) →
    ∀ other ∈ matchedBy source t pattern, l.takes t name other = true →
      Path.stepsLt other path = false

theorem pairwise_matchedBy {pattern : String} (h : ∀ p,
    Glob.Pattern.ofString (Path.join source pattern) = .ok p → Glob.isOrderly p.pieces = true)
    (t : Tree) : (matchedBy source t pattern).Pairwise fun a b => Path.stepsLt b a = false := by
  rw [matchedBy]
  split
  · rename_i p hp
    exact Glob.pairwise_paths (h p hp) t
  · exact .nil

/-- The first path that is taken is found by one of the patterns. -/
theorem exists_isFirst (h : (matched source patterns t).find? (l.takes t name) = some path) :
    ∃ before pattern after, patterns = before ++ pattern :: after ∧
      IsFirst source l before pattern t name path := by
  rw [matched, List.find?_flatMap, List.findSome?_eq_some_iff] at h
  obtain ⟨before, pattern, after, rfl, hfind, hbefore⟩ := h
  rw [List.find?_eq_some_iff_append] at hfind
  obtain ⟨htakes, front, back, hfound, hfront⟩ := hfind
  refine ⟨before, pattern, after, rfl, htakes, fun other hother => ?_, ⟨front, back, hfound, ?_⟩, ?_⟩
  · obtain ⟨p, hp, hother⟩ := List.mem_flatMap.1 hother
    simpa using List.find?_eq_none.1 (hbefore p hp) other hother
  · simpa using hfront
  · intro horderly other hother htaken
    have hsorted := pairwise_matchedBy horderly t
    rw [hfound, List.pairwise_append, List.pairwise_cons] at hsorted
    rw [hfound, List.mem_append, List.mem_cons] at hother
    rcases hother with hfirst | rfl | hlast
    · have := hfront other hfirst
      rw [htaken] at this
      cases this
    · exact Path.stepsLt_self other
    · exact hsorted.2.1.1 other hlast

/-- What comes to stand under the name of an image, with the tree in between that has the directories
and the assets and no image yet. -/
inductive FirstCome (source : String) (l : Layout) (patterns : List String) (t made u : Tree)
    (name : Name) : Prop
  /-- What there was is there still. -/
  | kept {k : Kind} : t.kind? (placeOf (l.image name)) = some k →
      u.kind? (placeOf (l.image name)) = some k → FirstCome source l patterns t made u name
  /-- The way to one of the directories leads over the name. -/
  | directory : t.kind? (placeOf (l.image name)) = none → l.IsDirectory (placeOf (l.image name)) →
      u.kind? (placeOf (l.image name)) = some .directory → FirstCome source l patterns t made u name
  /-- The first image of the name was copied. -/
  | copied {before after : List String} {pattern path : String} {c : ByteArray} :
      t.kind? (placeOf (l.image name)) = none → ¬ l.IsDirectory (placeOf (l.image name)) →
      patterns = before ++ pattern :: after → IsFirst source l before pattern made name path →
      made.readBytes path = .ok c → u.readBytes path = .ok c →
      u.kind? (placeOf (l.image name)) = some (.file c) → FirstCome source l patterns t made u name
  /-- There is no image of the name. -/
  | absent : t.kind? (placeOf (l.image name)) = none → ¬ l.IsDirectory (placeOf (l.image name)) →
      (∀ path ∈ matched source patterns made, l.takes made name path = false) →
      u.kind? (placeOf (l.image name)) = none → FirstCome source l patterns t made u name

/-- What staging makes of a tree, with the tree in between and the number of images copied. -/
structure IsStagedFirstCome (source : String) (l : Layout) (patterns : List String)
    (t made u : Tree) (n : Nat) : Prop where
  image : ∀ name, ¬ l.IsAsset (placeOf (l.image name)) → FirstCome source l patterns t made u name
  count : ∃ names : List Name, names.Nodup ∧ names.length = n ∧ ∀ name, name ∈ names ↔
    ¬ l.IsAsset (placeOf (l.image name)) ∧ t.kind? (placeOf (l.image name)) = none ∧
      ∃ c, u.kind? (placeOf (l.image name)) = some (.file c)
  asset : ∀ a ∈ assets, u.readBytes (l.asset a.1) = .ok a.2.toUTF8
  directory : ∀ p, l.IsDirectory p → u.kind? p = some .directory
  rest : ∀ p, ¬ l.IsDirectory p → ¬ l.IsAsset p → (∀ name, p ≠ placeOf (l.image name)) →
    u.kind? p = t.kind? p

/-- No image has the place of an asset in the layout of an output directory. -/
theorem not_isAsset_image (parent output : String) (name : Name) :
    ¬ (Layout.under parent output).IsAsset (placeOf ((Layout.under parent output).image name)) := by
  rintro ⟨a, ha, hplace⟩
  have hasset : ∃ n : Name, n.text = a.1 := by
    simp only [assets, List.mem_cons, List.not_mem_nil, or_false] at ha
    rcases ha with rfl | rfl
    · exact ⟨⟨Page.styleFile, by decide⟩, rfl⟩
    · exact ⟨⟨Page.scriptFile, by decide⟩, rfl⟩
  obtain ⟨n, hn⟩ := hasset
  have himages := Tree.placeOf_join_name (Path.join parent output) ⟨Page.imageDir, by decide⟩
  have hresources := Tree.placeOf_join_name (Path.join parent output) ⟨Page.resourceDir, by decide⟩
  rw [placeOf_image, Layout.asset, ← hn, Tree.placeOf_join_name] at hplace
  have hdir := (List.append_inj' hplace rfl).1
  rw [show placeOf (Layout.under parent output).images = _ from himages,
    show placeOf (Layout.under parent output).resources = _ from hresources,
    List.append_cancel_left_eq] at hdir
  simp [Page.imageDir, Page.resourceDir] at hdir

/-- Images can be staged after all else is. -/
theorem stage_eq_ok_of_made {made : Workspace} {n : Nat}
    (hmade : (stage source l []).runOn w = (.ok 0, made))
    (h : (stageImages source l patterns 0).runOn made = (.ok n, v)) :
    (stage source l patterns).runOn w = (.ok n, v) := by
  obtain ⟨w₁, _, hdirectories, hassets, hend⟩ := stage_eq_ok.1 hmade
  cases hend
  exact stage_eq_ok.2 ⟨w₁, made, hdirectories, hassets, h⟩

/-- The tree between, in which there is all but the images. -/
theorem exists_made_of_stage {n : Nat} (h : (stage source l patterns).runOn w = (.ok n, v)) :
    ∃ made, (stage source l []).runOn w = (.ok 0, made) ∧
      Grows l.IsAsset l.IsDirectory w.tree made.tree ∧ l.HasAssets made.tree ∧
      (∀ dir ∈ l.directories, made.tree.HasMade dir) ∧
      IsStagedFrom l made.tree (matched source patterns made.tree) v.tree n := by
  obtain ⟨w₁, made, hdirectories, hassets, himages⟩ := stage_eq_ok.1 h
  have hfirst := keeps_stageDirectories l w
  have hsecond := keeps_stageAssets l w₁
  rw [hdirectories] at hfirst
  rw [hassets] at hsecond
  refine ⟨made, stage_eq_ok.2 ⟨w₁, made, hdirectories, hassets, rfl⟩, ?_,
    hasAssets_of_stageAssets hassets, fun dir hdir => ?_, isStagedFrom_of_stageImages himages⟩
  · exact (hfirst.mono (fun _ h => h.elim) fun _ h => h).trans
      (hsecond.mono (fun _ h => h) fun _ h => h.elim)
  · exact hsecond.hasMade (hasMade_of_stageDirectories hdirectories dir hdir)

section Made

variable {made : Tree} {n : Nat} (hgrows : Grows l.IsAsset l.IsDirectory t made)
  (hstaged : IsStagedFrom l made (matched source patterns made) u n)

include hgrows hstaged

theorem firstCome_of_isStagedFrom (hdirectory : ∀ p, l.IsDirectory p → u.kind? p = some .directory)
    (name : Name) (hname : ¬ l.IsAsset (placeOf (l.image name))) :
    FirstCome source l patterns t made u name := by
  cases hold : t.kind? (placeOf (l.image name)) with
  | some k => exact .kept hold (hstaged.stages.kept (hgrows.kind?_eq_some hname hold))
  | none =>
      by_cases hdir : l.IsDirectory (placeOf (l.image name))
      · exact .directory hold hdir (hdirectory _ hdir)
      have hfree := hgrows.kind?_eq hname hdir
      rw [hold] at hfree
      have himage := hstaged.image name hfree
      cases hfind : (matched source patterns made).find? (l.takes made name) with
      | none =>
          rw [hfind, Option.bind_none] at himage
          refine .absent hold hdir (fun path hpath => ?_) himage
          simpa using List.find?_eq_none.1 hfind path hpath
      | some path =>
          obtain ⟨before, pattern, after, hpatterns, hfirst⟩ := exists_isFirst hfind
          obtain ⟨c, hc⟩ := Layout.exists_readBytes_of_takes hfirst.takes
          rw [hfind, Option.bind_some, hc] at himage
          exact .copied hold hdir hpatterns hfirst hc (hstaged.stages.readBytes hc) himage

/-- The copies that were made are counted. -/
theorem exists_names_of_isStagedFrom (hassets : l.HasAssets made) :
    ∃ names : List Name, names.Nodup ∧ names.length = n ∧ ∀ name, name ∈ names ↔
      ¬ l.IsAsset (placeOf (l.image name)) ∧ t.kind? (placeOf (l.image name)) = none ∧
        ∃ c, u.kind? (placeOf (l.image name)) = some (.file c) := by
  obtain ⟨names, hnodup, hlength, hmem⟩ := hstaged.count
  refine ⟨names, hnodup, hlength, fun name => ?_⟩
  rw [hmem]
  constructor
  · rintro ⟨hfree, hnew⟩
    refine ⟨fun hasset => hassets.kind?_ne_none hasset hfree, hgrows.toPersists.eq_none hfree, ?_⟩
    obtain ⟨k, hk⟩ := Option.ne_none_iff_exists'.1 hnew
    rcases hstaged.stages.copied hk with hold | ⟨_, _, c, -, -, -, -, rfl⟩
    · rw [hfree] at hold
      cases hold
    · exact ⟨c, hk⟩
  · rintro ⟨hasset, hold, c, hc⟩
    refine ⟨?_, by simp [hc]⟩
    cases hmade : made.kind? (placeOf (l.image name)) with
    | none => rfl
    | some k =>
        have hkept := hstaged.stages.kept hmade
        rw [hc, Option.some.injEq] at hkept
        subst hkept
        have hbefore := (hgrows.of_file hmade).resolve_right hasset
        rw [hold] at hbefore
        cases hbefore

end Made

/-- **Images are staged first come, first served, and nothing is written over.** -/
theorem stage_first_come {n : Nat} (h : (stage source l patterns).runOn w = (.ok n, v)) :
    ∃ made, (stage source l []).runOn w = (.ok 0, made) ∧
      IsStagedFirstCome source l patterns w.tree made.tree v.tree n ∧
      ∀ parent output, l = Layout.under parent output → ∀ name,
        ¬ l.IsAsset (placeOf (l.image name)) := by
  obtain ⟨made, hmade, hgrows, hassets, hdirectories, hstaged⟩ := exists_made_of_stage h
  have hdirectory (p : Place) (hp : l.IsDirectory p) : v.tree.kind? p = some .directory := by
    obtain ⟨dir, hdir, hway⟩ := hp
    exact hstaged.stages.kept ((hdirectories dir hdir).kind?_of_isOnWay hway)
  refine ⟨made, hmade, ?_, fun parent output hl name => hl ▸ not_isAsset_image parent output name⟩
  exact
    { image := firstCome_of_isStagedFrom hgrows hstaged hdirectory
      count := exists_names_of_isStagedFrom hgrows hstaged hassets
      asset := fun a ha => Tree.readBytes_eq_ok.2 ⟨_, hstaged.stages.locate_file (hassets a ha)⟩
      directory := hdirectory
      rest := fun p hdir hasset himage =>
        (hstaged.stages.kind?_eq himage).trans (hgrows.kind?_eq hasset hdir) }

/-! ## 5. A small tree -/

/-- A directory with images of one name, the one deeper than the other. -/
def nestedTree : Tree :=
  (((((Tree.empty.putDirectory (placeOf "s")).putDirectory (placeOf "s/a")).putDirectory
    (placeOf "s/a/a")).putDirectory (placeOf "s/a/a/a")).putFile (placeOf "s/a/a/i.png")
    ⟨#[1]⟩).putFile (placeOf "s/a/a/a/i.png") ⟨#[2]⟩

/-- The workspace with the directories and the assets. -/
def nestedMade : Workspace :=
  ((stage "s" (Layout.under "s" "O") []).runOn ⟨nestedTree, []⟩).2

theorem stage_nestedMade :
    (stage "s" (Layout.under "s" "O") []).runOn ⟨nestedTree, []⟩ = (.ok 0, nestedMade) := by
  rw [nestedMade]
  exact Action.runOn_eq_of_toOption (by decide +kernel)

theorem ofString_nested : Glob.Pattern.ofString (Path.join "s" "a/**/a/i.png") =
    .ok ⟨[.literal "s", .literal "a", .anyDepth, .literal "a", .literal "i.png"], false⟩ := by
  decide +kernel

/-- What two stars are tried on in the three directories. -/
theorem fill_nested (rest : List Glob.Piece) :
    Glob.fill nestedMade.tree (.anyDepth :: rest) "s/a" true =
      [.entry "s/a/a" ⟨"a", by decide⟩ true (.anyDepth :: rest)] ∧
    Glob.fill nestedMade.tree (.anyDepth :: rest) "s/a/a" true =
      [.entry "s/a/a/a" ⟨"a", by decide⟩ true (.anyDepth :: rest),
        .entry "s/a/a/i.png" ⟨"i.png", by decide⟩ false (.anyDepth :: rest)] ∧
    Glob.fill nestedMade.tree (.anyDepth :: rest) "s/a/a/a" true =
      [.entry "s/a/a/a/i.png" ⟨"i.png", by decide⟩ false (.anyDepth :: rest)] := by
  have hfirst : Glob.inside "s/a" "a" = "s/a/a" := by decide +kernel
  have hsecond : Glob.inside "s/a/a" "a" = "s/a/a/a" := by decide +kernel
  have hupper : Glob.inside "s/a/a" "i.png" = "s/a/a/i.png" := by decide +kernel
  have hlower : Glob.inside "s/a/a/a" "i.png" = "s/a/a/a/i.png" := by decide +kernel
  rw [Glob.fill_anyDepth_of_pairwise [(⟨"a", by decide⟩, true)] (by decide +kernel)
      (by decide +kernel),
    Glob.fill_anyDepth_of_pairwise
      [(⟨"a", by decide⟩, true), (⟨"i.png", by decide⟩, false)] (by decide +kernel)
      (by decide +kernel),
    Glob.fill_anyDepth_of_pairwise [(⟨"i.png", by decide⟩, false)] (by decide +kernel)
      (by decide +kernel)]
  simp only [List.map_cons, List.map_nil, hfirst, hsecond, hupper, hlower, and_self]

/-- The image that is less deep is found first. -/
theorem matchedBy_nested : matchedBy "s" nestedMade.tree "a/**/a/i.png" =
    ["s/a/a/i.png", "s/a/a/a/i.png"] := by
  have hreach : Glob.Pattern.reach
      ⟨[.literal "s", .literal "a", .anyDepth, .literal "a", .literal "i.png"], false⟩
      nestedMade.tree = 42 := by
    decide +kernel
  have hsource : Glob.inside "." "s" = "s" := by decide +kernel
  have hdir : Glob.inside "s" "a" = "s/a" := by decide +kernel
  have hupper : Glob.fill nestedMade.tree [.literal "i.png"] "s/a/a" true =
      [.found "s/a/a/i.png" false] := by
    decide +kernel
  have hlower : Glob.fill nestedMade.tree [.literal "i.png"] "s/a/a/a" true =
      [.found "s/a/a/a/i.png" false] := by
    decide +kernel
  rw [matchedBy, ofString_nested]
  dsimp only
  rw [Glob.paths_eq, hreach,
    Glob.fill_literal_of_hasDirectory hsource (by decide) (by decide +kernel) (by simp),
    Glob.fill_literal_of_hasDirectory hdir (by decide) (by decide +kernel) (by simp),
    (fill_nested _).1]
  simp [Glob.Pending.hits, Glob.Pending.advance, Glob.mergeDepths, Glob.tryPiece, Glob.accepted,
    Glob.Piece.isMatch, fill_nested, hupper, hlower]

/-- The workspace after the two images had their turns. -/
def nestedStaged : Workspace :=
  ((["s/a/a/i.png", "s/a/a/a/i.png"].foldlM (stageImage (Layout.under "s" "O")) 0).runOn
    nestedMade).2

theorem stage_nested : ∃ v, (stage "s" (Layout.under "s" "O") ["a/**/a/i.png"]).runOn
    ⟨nestedTree, []⟩ = (.ok 1, v) ∧ v.tree = nestedStaged.tree := by
  have hmatched : matched "s" ["a/**/a/i.png"] nestedMade.tree =
      ["s/a/a/i.png", "s/a/a/a/i.png"] := by
    rw [matched, List.flatMap_singleton, matchedBy_nested]
  have hreadable : ∀ pattern ∈ ["a/**/a/i.png"], ∃ p,
      Glob.Pattern.ofString (Path.join "s" pattern) = .ok p :=
    List.forall_mem_singleton.2 ⟨_, ofString_nested⟩
  have hturns : (["s/a/a/i.png", "s/a/a/a/i.png"].foldlM (stageImage (Layout.under "s" "O")) 0).runOn
      nestedMade = (.ok 1, nestedStaged) := by
    rw [nestedStaged]
    exact Action.runOn_eq_of_toOption (by decide +kernel)
  rw [← hmatched] at hturns
  obtain ⟨v, himages, htree⟩ := (stageImages_eq_ok hreadable).2 ⟨_, hturns, rfl⟩
  exact ⟨v, stage_eq_ok_of_made stage_nestedMade himages, htree⟩

/-- One of the two images is staged. -/
theorem stage_first_come_nested : ∃ v made,
    (stage "s" (Layout.under "s" "O") ["a/**/a/i.png"]).runOn ⟨nestedTree, []⟩ = (.ok 1, v) ∧
      (stage "s" (Layout.under "s" "O") []).runOn ⟨nestedTree, []⟩ = (.ok 0, made) ∧
      IsStagedFirstCome "s" (Layout.under "s" "O") ["a/**/a/i.png"] nestedTree made.tree v.tree 1 := by
  obtain ⟨v, hrun, -⟩ := stage_nested
  obtain ⟨made, hmade, hstaged, -⟩ := stage_first_come hrun
  exact ⟨v, made, hrun, hmade, hstaged⟩

/-- A directory that is made on the way to the images can stand among them, and the image that is found
first need not be the one whose path comes first. -/
theorem stage_dotted_nested :
    (∃ v, (stage "s" (Layout.under "s" "O/Img/x/../..") []).runOn ⟨nestedTree, []⟩ = (.ok 0, v) ∧
      nestedTree.hasEntry ((Layout.under "s" "O/Img/x/../..").image ⟨"x", by decide⟩) = false ∧
      v.tree.hasDirectory ((Layout.under "s" "O/Img/x/../..").image ⟨"x", by decide⟩) = true) ∧
    ∃ v, (stage "s" (Layout.under "s" "O") ["a/**/a/i.png"]).runOn ⟨nestedTree, []⟩ = (.ok 1, v) ∧
      matchedBy "s" nestedMade.tree "a/**/a/i.png" = ["s/a/a/i.png", "s/a/a/a/i.png"] ∧
      Path.stepsLt "s/a/a/a/i.png" "s/a/a/i.png" = true ∧
      (nestedTree.readBytes "s/a/a/a/i.png").toOption = some ⟨#[2]⟩ ∧
      (v.tree.readBytes ((Layout.under "s" "O").image ⟨"i.png", by decide⟩)).toOption =
        some ⟨#[1]⟩ := by
  refine ⟨⟨_, Action.runOn_eq_of_toOption (by decide +kernel), by decide +kernel, by decide +kernel⟩, ?_⟩
  obtain ⟨v, hrun, htree⟩ := stage_nested
  refine ⟨v, hrun, matchedBy_nested, by decide +kernel, by decide +kernel, ?_⟩
  rw [htree]
  decide +kernel

end Quire.Site
