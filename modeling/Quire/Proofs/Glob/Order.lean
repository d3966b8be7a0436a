import Quire.Proofs.Alike
import Quire.Proofs.Glob.Paths

/-!
# Walking past new files

A walk may come to files that were not there when it began, as what is done at the paths puts them
there. New files are listed among the old entries and lead nowhere (`thins_fill`, `thins_advance`). So
if nothing is done at the paths of new files, **a walk through a tree that changes goes as if the paths
had been found beforehand, and were then gone through in their order** (`alike_foldM_paths`).
-/

namespace Quire.Glob

open Quire.Action (Alike Gives)
open Quire.Path (Name)
open Quire.Tree (Directory Entry Fills Kind placeOf)

/-! ## 1. Thinned lists -/

/-- Whether a list is another without some of its elements, which all have a property. -/
inductive Thins {α : Type} (P : α → Prop) : List α → List α → Prop
  | nil : Thins P [] []
  | keep {a : α} {l k : List α} : Thins P l k → Thins P (a :: l) (a :: k)
  | drop {a : α} {l k : List α} : P a → Thins P l k → Thins P (a :: l) k

namespace Thins

variable {α β : Type} {P : α → Prop}

theorem refl (l : List α) : Thins P l l := by
  induction l with
  | nil => exact .nil
  | cons a l ih => exact .keep ih

theorem of_forall {l : List α} (h : ∀ a ∈ l, P a) : Thins P l [] := by
  induction l with
  | nil => exact .nil
  | cons a l ih =>
      rw [List.forall_mem_cons] at h
      exact .drop h.1 (ih h.2)

theorem append {l k l' k' : List α} (h : Thins P l k) (h' : Thins P l' k') :
    Thins P (l ++ l') (k ++ k') := by
  induction h with
  | nil => exact h'
  | keep _ ih => exact .keep ih
  | drop ha _ ih => exact .drop ha ih

theorem flatMap {f g : β → List α} (h : ∀ b, Thins P (f b) (g b)) (l : List β) :
    Thins P (l.flatMap f) (l.flatMap g) := by
  induction l with
  | nil => exact .nil
  | cons b l ih =>
      rw [List.flatMap_cons, List.flatMap_cons]
      exact (h b).append ih

/-- What a filter takes from a list is mapped alike, and the rest has the property. -/
theorem map_filter {f g : β → α} {r : β → Bool} {l : List β}
    (hkeep : ∀ b ∈ l, r b = true → f b = g b) (hdrop : ∀ b ∈ l, r b = false → P (f b)) :
    Thins P (l.map f) ((l.filter r).map g) := by
  induction l with
  | nil => exact .nil
  | cons b l ih =>
      rw [List.forall_mem_cons] at hkeep hdrop
      have hrest := ih hkeep.2 hdrop.2
      cases hb : r b with
      | true =>
          rw [List.filter_cons_of_pos hb, List.map_cons, List.map_cons, ← hkeep.1 hb]
          exact .keep hrest
      | false =>
          rw [List.filter_cons_of_neg (by simp [hb]), List.map_cons]
          exact .drop (hdrop.1 hb) hrest

end Thins

/-! ## 2. New files -/

/-- Whether something to be tried is a file that a tree has not. -/
def Pending.IsNew (t : Tree) : Pending → Prop
  | found path _ => t.kind? (placeOf path) = none
  | entry path _ isDirectory _ => isDirectory = false ∧ t.kind? (placeOf path) = none

variable {t u : Tree} {piece : Piece} {pieces rest : List Piece} {dir path : String}
  {isDirectory directoriesOnly : Bool} {p q : Pending}

theorem kind?_ne_directory (h : Fills t u) (hp : t.kind? (placeOf path) = none) :
    u.kind? (placeOf path) ≠ some .directory := by
  rw [ne_eq, h.kind?_eq_directory, hp]
  simp

/-- By way of a new file nothing is found but new files. -/
theorem Pending.IsNew.of_finds (h : Fills t u) (hq : q.IsNew t)
    (hfinds : q.Finds u directoriesOnly path) : t.kind? (placeOf path) = none := by
  cases q with
  | found way isDirectory => rwa [eq_of_finds_found hfinds]
  | entry way name isDirectory pieces =>
      obtain ⟨rfl, hnone⟩ := hq
      rwa [eq_of_finds_entry hfinds (kind?_ne_directory h hnone)]

/-- What a literal leads to is there, or it is a new file. -/
theorem kind?_eq_none_of_hasEntry (h : Fills t u) (hu : u.hasEntry path = true)
    (ht : t.hasEntry path = false) : t.kind? (placeOf path) = none := by
  rw [← Bool.not_eq_true, Tree.hasEntry_iff, not_or] at ht
  rcases Tree.hasEntry_iff.1 hu with ⟨p, i, hl⟩ | ⟨p, c, hl⟩
  · obtain ⟨j, hj⟩ := h.exists_directory?_iff.1 ⟨i, Tree.directory?_eq_some.2 ⟨p, hl⟩⟩
    obtain ⟨r, hr⟩ := Tree.directory?_eq_some.1 hj
    exact absurd ⟨r, j, hr⟩ ht.1
  · obtain ⟨-, -, -, rfl, hat⟩ := Tree.locate_eq_file.1 hl
    cases hk : t.kind? (placeOf path) with
    | none => rfl
    | some k =>
        cases k with
        | directory =>
            have := h.kind?_eq_directory.2 hk
            rw [Tree.kind?_eq_file.2 hat] at this
            cases this
        | file d => exact absurd ⟨_, d, h.locate_file_of_kind? hl hk⟩ ht.2

section Fill

variable (h : Fills t u)

include h

omit h in
/-- The entries that a directory lists, told by their names and kinds. -/
theorem map_sorted_eq {d : Directory} (hd : t.directory? dir = some d) (pieces : List Piece) :
    (d.sorted.map fun (name, e) =>
      Pending.entry (inside dir name.text) name e.isDirectory pieces) =
    (d.sorted.map Prod.fst).map fun name => .entry (inside dir name.text) name
      ((t.kind? (placeOf dir ++ [name])).any Kind.isDirectory) pieces := by
  rw [List.map_map]
  refine List.map_congr_left fun x hx => ?_
  obtain ⟨name, e⟩ := x
  have hname := (Directory.mem_sorted (distinct_of_directory? hd)).1 hx
  simp [kind?_of_directory? hd, hname, Entry.isDirectory_kind]

/-- A directory has the names that it had, with others among them. -/
theorem map_fst_sorted_eq {d e : Directory} (hd : t.directory? dir = some d)
    (he : u.directory? dir = some e) :
    d.sorted.map Prod.fst = (e.sorted.map Prod.fst).filter fun name => (d.get? name).isSome := by
  have hpairwise {i : Directory} (hi : i.Distinct) :
      (i.sorted.map Prod.fst).Pairwise fun a b => a.text < b.text :=
    List.pairwise_map.2 hi.pairwise_sorted
  have hmem {i : Directory} (hi : i.Distinct) (name : Name) :
      name ∈ i.sorted.map Prod.fst ↔ (i.get? name).isSome = true := by
    rw [List.mem_map, Option.isSome_iff_exists]
    constructor
    · rintro ⟨⟨name, x⟩, hx, rfl⟩
      exact ⟨x, (Directory.mem_sorted hi).1 hx⟩
    · rintro ⟨x, hx⟩
      exact ⟨(name, x), (Directory.mem_sorted hi).2 hx, rfl⟩
  have hd' := distinct_of_directory? hd
  have he' := distinct_of_directory? he
  refine (hpairwise hd').eq_of_mem_iff ((hpairwise he').filter _) fun {name} => ?_
  rw [List.mem_filter, hmem hd', hmem he']
  refine ⟨fun hname => ⟨?_, hname⟩, fun hname => hname.2⟩
  obtain ⟨x, hx⟩ := Option.isSome_iff_exists.1 hname
  have hkind := kind?_of_directory? hd name
  rw [hx] at hkind
  obtain ⟨k, hk, -⟩ := h.exists_kind? hkind
  rw [kind?_of_directory? he, Option.map_eq_some_iff] at hk
  obtain ⟨y, hy, -⟩ := hk
  rw [hy, Option.isSome_some]

/-- The entries of a directory are listed with new files among them. -/
theorem thins_listed {d e : Directory} (hd : t.directory? dir = some d)
    (he : u.directory? dir = some e) (pieces : List Piece) :
    Thins (Pending.IsNew t)
      (e.sorted.map fun (name, x) => .entry (inside dir name.text) name x.isDirectory pieces)
      (d.sorted.map fun (name, x) => .entry (inside dir name.text) name x.isDirectory pieces) := by
  rw [map_sorted_eq hd, map_sorted_eq he, map_fst_sorted_eq h hd he]
  refine .map_filter (fun name _ hold => ?_) fun name _ hnew => ?_
  · obtain ⟨x, hx⟩ := Option.isSome_iff_exists.1 hold
    have hkind := kind?_of_directory? hd name
    rw [hx, Option.map_some] at hkind
    obtain ⟨k, hk, hsame⟩ := h.exists_kind? hkind
    rw [hkind, hk, Option.any_some, Option.any_some, hsame]
  · have hnone : t.kind? (placeOf dir ++ [name]) = none := by
      rw [kind?_of_directory? hd, Option.map_eq_none_iff]
      exact Option.not_isSome_iff_eq_none.1 (by simp [hnew])
    refine ⟨?_, by rwa [placeOf_inside]⟩
    cases hk : u.kind? (placeOf dir ++ [name]) with
    | none => rfl
    | some k =>
        cases k with
        | file c => rfl
        | directory =>
            have := h.kind?_eq_directory.1 hk
            rw [hnone] at this
            cases this

/-- A literal leads where it led, or to a new file. -/
theorem thins_literal (harrive : ∀ path, Thins (Pending.IsNew t) (arrive u rest path)
    (arrive t rest path)) (text : String) :
    Thins (Pending.IsNew t) (fill u (.literal text :: rest) dir isDirectory)
      (fill t (.literal text :: rest) dir isDirectory) := by
  rw [fill_literal, fill_literal]
  split
  · split
    · exact harrive _
    · exact .nil
  cases ht : t.hasEntry (inside dir text) with
  | true =>
      rw [h.hasEntry ht, if_pos rfl, if_pos rfl]
      exact harrive _
  | false =>
      rw [if_neg Bool.false_ne_true]
      split
      · rename_i hu
        refine .of_forall fun q hq => ?_
        have hnone := kind?_eq_none_of_hasEntry h hu ht
        rcases mem_arrive hq with rfl | hq
        · exact hnone
        · have hdir : u.hasDirectory (inside dir text) = false :=
            Bool.eq_false_iff.2 fun hdir => kind?_ne_directory h hnone (kind?_of_hasDirectory hdir)
          rw [hdir, fill_eq_nil (kind?_ne_directory h hnone)] at hq
          cases hq
      · exact .nil

/-- **What is to be tried on pieces is what it was, with new files among it.** -/
theorem thins_fill : Thins (Pending.IsNew t) (fill u pieces dir isDirectory)
    (fill t pieces dir isDirectory) := by
  induction pieces generalizing dir isDirectory with
  | nil => exact .nil
  | cons piece rest ih =>
      have harrive (path : String) : Thins (Pending.IsNew t) (arrive u rest path)
          (arrive t rest path) := by
        rw [arrive, arrive, h.hasDirectory_eq]
        split
        · exact .refl _
        · exact ih
      by_cases hpiece : ∃ text, piece = .literal text
      · obtain ⟨text, rfl⟩ := hpiece
        exact thins_literal h harrive text
      · rw [not_exists] at hpiece
        rw [fill_of_ne_literal hpiece, fill_of_ne_literal hpiece]
        cases isDirectory with
        | false => exact .nil
        | true =>
            simp only [if_true]
            cases hd : t.directory? dir with
            | none =>
                have hu : u.directory? dir = none := by
                  have : u.hasDirectory dir = t.hasDirectory dir := h.hasDirectory_eq
                  rw [Tree.hasDirectory, Tree.hasDirectory, hd] at this
                  exact Option.not_isSome_iff_eq_none.1 (by simp [this])
                rw [hu]
                exact .nil
            | some d =>
                obtain ⟨e, he⟩ := h.exists_directory?_iff.2 ⟨d, hd⟩
                rw [he]
                exact (Thins.flatMap (fun dot => harrive _) _).append (thins_listed h hd he _)

/-- **What comes of trying something is what it was, with new files among it.** -/
theorem thins_advance (p : Pending) : Thins (Pending.IsNew t) (p.advance u directoriesOnly).2
    (p.advance t directoriesOnly).2 := by
  rw [Pending.advance_eq, Pending.advance_eq]
  exact .flatMap (fun _ => thins_fill h) p.onward

end Fill

/-! ## 3. Walks -/

/-- What is found down to a depth is found down to every other that is enough. -/
theorem hits_congr {height n m : Nat} (hheight : t.height ≤ height) (hp : p.Fits height)
    (hn : p.weight height < n) (hm : p.weight height < m) :
    p.hits t directoriesOnly n = p.hits t directoriesOnly m := by
  induction n generalizing p m with
  | zero => exact absurd hn (Nat.not_lt_zero _)
  | succ n ih =>
      obtain ⟨m, rfl⟩ := Nat.exists_eq_add_one_of_ne_zero (Nat.ne_zero_of_lt hm)
      rw [Pending.hits, Pending.hits]
      refine congrArg _ (List.flatMap_congr fun q hq => ?_)
      obtain ⟨hfits, hweight⟩ := weight_lt_of_mem_advance hheight hp hq
      exact ih hfits (by omega) (by omega)

/-- A tree is as high as one whose files and directories it has. -/
theorem height_le_of_persists (h : Tree.Persists t u) : t.height ≤ u.height := by
  refine Tree.Directory.height_le t.distinct fun place hplace => ?_
  have hkind : u.kind? place ≠ none := fun hnone =>
    hplace (Tree.kind?_eq_none.1 (h.eq_none hnone))
  obtain ⟨k, hk⟩ := Option.ne_none_iff_exists'.1 hkind
  exact Tree.length_le_height_of_kind? hk

section Alike

variable {ε β : Type} {act : β → String → Action ε β} {I : Tree → Prop}
  (hfills : ∀ {u}, I u → Fills t u)
  (hidle : ∀ {u path}, I u → t.kind? (placeOf path) = none → ∀ b, Gives (act b path) u b u)
  (hact : ∀ b path, Alike (fun u v => u = v ∧ I u) Eq Eq (act b path) (act b path))

include hfills hidle

/-- New files that are to be tried among other things make no difference. -/
theorem alike_foldlM_thins {n : Nat} {l k : List Pending} (hl : Thins (Pending.IsNew t) l k)
    (h : ∀ b q, Alike (fun u v => u = v ∧ I u) Eq Eq
      (Pending.foldM Action.tree directoriesOnly act n b q)
      ((q.hits t directoriesOnly n).foldlM act b)) (b : β) :
    Alike (fun u v => u = v ∧ I u) Eq Eq
      (l.foldlM (Pending.foldM Action.tree directoriesOnly act n) b)
      ((k.flatMap (Pending.hits t directoriesOnly n)).foldlM act b) := by
  induction hl generalizing b with
  | nil => exact Action.alike_pure rfl
  | @keep q l k _ ih =>
      rw [List.foldlM_cons, List.flatMap_cons, List.foldlM_append]
      refine (h b q).bind fun c c' hc => ?_
      subst hc
      exact ih c
  | @drop q l k hq _ ih =>
      rw [List.foldlM_cons]
      rintro v w ⟨htree, hI⟩
      have hgives : Gives (Pending.foldM Action.tree directoriesOnly act n b q) v.tree b v.tree :=
        gives_pendingFoldM (fun path hpath => hidle hI (hq.of_finds (hfills hI) hpath)) n b
      obtain ⟨v', hv', hsame⟩ := hgives v rfl
      rw [Action.runOn_bind, hv']
      exact ih b v' w ⟨hsame.trans htree, hsame ▸ hI⟩

include hact

/-- **Trying something and what comes of it goes as if its paths had been found beforehand.** -/
theorem alike_pendingFoldM_hits (n : Nat) (b : β) (p : Pending) :
    Alike (fun u v => u = v ∧ I u) Eq Eq
      (Pending.foldM Action.tree directoriesOnly act n b p)
      ((p.hits t directoriesOnly n).foldlM act b) := by
  induction n generalizing b p with
  | zero => exact Action.alike_pure rfl
  | succ n ih =>
      rintro v w ⟨htree, hI⟩
      have hthins : Thins (Pending.IsNew t) (p.advance v.tree directoriesOnly).2
          (p.advance t directoriesOnly).2 := thins_advance (hfills hI) p
      have hnext := alike_foldlM_thins hfills hidle hthins ih
      rw [foldM_succ, Action.runOn_bind, Action.runOn_tree, Pending.hits, List.foldlM_append]
      dsimp only
      rw [fst_advance v.tree t]
      refine Alike.bind (R := fun u v => u = v ∧ I u) (A := Eq) ?_ (fun c c' hc => ?_) v w
        ⟨htree, hI⟩
      · cases (p.advance t directoriesOnly).1 with
        | none => exact Action.alike_pure rfl
        | some path =>
            rw [Option.toList_some, List.foldlM_cons]
            simp only [List.foldlM_nil, bind_pure]
            exact hact b path
      · subst hc
        exact hnext c

/-- **A walk goes as if its paths had been found beforehand.** -/
theorem alike_foldM_paths (p : Pattern) (b : β) :
    Alike (fun u v => u = v ∧ I u) Eq Eq (p.foldM Action.tree act b)
      ((p.paths t).foldlM act b) := by
  rintro v w ⟨htree, hI⟩
  have hheight := height_le_of_persists (hfills hI).toPersists
  have hpaths : p.paths t = (fill t p.pieces "." true).flatMap
      (Pending.hits t p.directoriesOnly (p.reach v.tree)) := by
    rw [paths_eq]
    refine List.flatMap_congr fun q hq => ?_
    obtain ⟨hfits, hweight⟩ := fits_of_mem_fill (le_refl t.height) hq
    exact hits_congr (le_refl _) hfits (lt_reach (Nat.le_succ _) hweight)
      (lt_reach (hheight.trans (Nat.le_succ _)) hweight)
  rw [Pattern.foldM_eq, Action.runOn_bind, Action.runOn_tree, hpaths]
  exact alike_foldlM_thins hfills hidle (thins_fill (hfills hI))
    (fun b q => alike_pendingFoldM_hits hfills hidle hact _ b q) b v w ⟨htree, hI⟩

end Alike

end Quire.Glob
