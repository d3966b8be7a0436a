import Quire.Proofs.Path.Components
import Quire.Proofs.Tree.Place
import Quire.Tree.Access

/-!
# Where paths lead

There are no links in a tree, so **the place a path leads to can be read off the path alone**
(`placeOf`); the tree only decides whether it leads there. It does if all names on the way are those
of directories (`Passes`), and then the last component decides what is found: a directory, a file
or a free place (`locate_eq_directory`, `locate_eq_file`, `locate_eq_free`).

So whatever is found is still found in every tree in which the directories of this one are
directories and its files are files (`Persists`).
-/

namespace Quire.Tree

open Quire.Path (Component Name)

/-! ## 1. Places of paths -/

/-- The place that components lead to from a place. -/
def placeFrom : Place → List Component → Place
  | p, [] => p
  | p, .here :: cs => placeFrom p cs
  | p, .up :: cs => placeFrom p.dropLast cs
  | p, .name n :: cs => placeFrom (p ++ [n]) cs

/-- The place that a path leads to. -/
def placeOf (path : String) : Place :=
  placeFrom [] (Path.components path)

theorem placeFrom_append (p : Place) (cs ds : List Component) :
    placeFrom p (cs ++ ds) = placeFrom (placeFrom p cs) ds := by
  induction cs generalizing p with
  | nil => rfl
  | cons c cs ih => cases c <;> exact ih _

theorem placeFrom_names (p q : Place) : placeFrom p (q.map .name) = p ++ q := by
  induction q generalizing p with
  | nil => exact (List.append_nil p).symm
  | cons n ns ih =>
      rw [List.map_cons, placeFrom, ih, List.append_assoc]
      rfl

/-- Components that stay where they are lead nowhere else. -/
theorem placeFrom_filter (p : Place) (cs : List Component) :
    placeFrom p (cs.filter (· != .here)) = placeFrom p cs := by
  induction cs generalizing p with
  | nil => rfl
  | cons c cs ih => cases c <;> exact ih _

theorem placeFrom_stepsOf (cs : List Component) (p : Place) :
    placeFrom p (Path.stepsOf cs) = placeFrom p cs := by
  cases cs with
  | nil => rfl
  | cons c cs => cases c <;> exact placeFrom_filter _ cs

theorem placeOf_pathOf (p : Place) : placeOf (pathOf p) = p := by
  rw [placeOf, Path.components_pathOf, placeFrom_names, List.nil_append]

theorem placeOf_join (a : String) {b : String} (h : Path.isFromTop b = false) :
    placeOf (Path.join a b) = placeFrom (placeOf a) (Path.components b) := by
  rw [placeOf, Path.components_join a h, placeFrom_append]
  rfl

theorem placeOf_join_name (a : String) (n : Name) :
    placeOf (Path.join a n.text) = placeOf a ++ [n] := by
  rw [placeOf_join a (Path.isFromTop_of_isName n.isName), Path.components_text_name]
  rfl

theorem placeOf_below (dir path : String) :
    placeOf (Path.below dir path) = placeFrom (placeOf dir) (Path.components path) := by
  rw [placeOf, Path.components_below, placeFrom_append]
  rfl

/-! ## 2. Ways through directories -/

/-- Whether components lead through directories alone. -/
def Passes (t : Tree) : Place → List Component → Prop
  | _, [] => True
  | p, .here :: cs => t.Passes p cs
  | p, .up :: cs => t.Passes p.dropLast cs
  | p, .name n :: cs => n.text.utf8ByteSize ≤ maxNameSize ∧
      t.kind? (p ++ [n]) = some .directory ∧ t.Passes (p ++ [n]) cs

variable {t : Tree} {p q : Place} {cs ds : List Component} {closed : Bool} {path : String}

theorem passes_append : t.Passes p (cs ++ ds) ↔ t.Passes p cs ∧ t.Passes (placeFrom p cs) ds := by
  induction cs generalizing p with
  | nil => exact ⟨fun h => ⟨trivial, h⟩, fun h => h.2⟩
  | cons c cs ih =>
      cases c with
      | here => exact ih
      | up => exact ih
      | name n => simp only [List.cons_append, Passes, placeFrom, ih, and_assoc]

theorem passes_filter : t.Passes p (cs.filter (· != .here)) ↔ t.Passes p cs := by
  induction cs generalizing p with
  | nil => exact Iff.rfl
  | cons c cs ih =>
      cases c with
      | here => exact ih
      | up => exact ih
      | name n => exact and_congr_right fun _ => and_congr_right fun _ => ih

theorem passes_stepsOf : t.Passes p (Path.stepsOf cs) ↔ t.Passes p cs := by
  cases cs with
  | nil => exact Iff.rfl
  | cons c cs =>
      cases c with
      | here => exact passes_filter
      | up => exact passes_filter
      | name n => exact and_congr_right fun _ => and_congr_right fun _ => passes_filter

/-- Names lead through directories if none is too long and there is a directory in the end. -/
theorem passes_names (hp : t.kind? p = some .directory) : t.Passes p (q.map .name) ↔
    (∀ n ∈ q, n.text.utf8ByteSize ≤ maxNameSize) ∧ t.kind? (p ++ q) = some .directory := by
  induction q generalizing p with
  | nil => simp [Passes, hp]
  | cons n ns ih =>
      have happend : p ++ n :: ns = (p ++ [n]) ++ ns := by simp
      rw [List.map_cons, Passes, List.forall_mem_cons, happend]
      constructor
      · rintro ⟨hn, hdir, hpass⟩
        obtain ⟨hns, hend⟩ := (ih hdir).1 hpass
        exact ⟨⟨hn, hns⟩, hend⟩
      · rintro ⟨⟨hn, hns⟩, hend⟩
        have hdir : t.kind? (p ++ [n]) = some .directory := by
          cases ns with
          | nil => rwa [List.append_nil] at hend
          | cons m ms => exact kind?_of_append (List.cons_ne_nil m ms) (by rw [hend]; simp)
        exact ⟨hn, hdir, (ih hdir).2 ⟨hns, hend⟩⟩

theorem kind?_dropLast (h : t.kind? p = some .directory) :
    t.kind? p.dropLast = some .directory := by
  rcases List.eq_nil_or_concat p with rfl | ⟨q, n, rfl⟩
  · exact h
  · rw [List.concat_eq_append, List.dropLast_concat]
    rw [List.concat_eq_append] at h
    exact kind?_of_append (List.cons_ne_nil n []) (by rw [h]; simp)

/-- What is led to through directories is a directory. -/
theorem Passes.kind? (h : t.Passes p cs) (hp : t.kind? p = some .directory) :
    t.kind? (placeFrom p cs) = some .directory := by
  induction cs generalizing p with
  | nil => exact hp
  | cons c cs ih =>
      cases c with
      | here => exact ih h hp
      | up => exact ih h (kind?_dropLast hp)
      | name n => exact ih h.2.2 h.2.1

/-! ## 3. Following components -/

theorem follow_append (h : t.Passes p cs) (closed : Bool) (ds : List Component) :
    t.follow closed (cs ++ ds) p = t.follow closed ds (placeFrom p cs) := by
  induction cs generalizing p with
  | nil => rfl
  | cons c cs ih =>
      cases c with
      | here => exact ih h
      | up => exact ih h
      | name n =>
          obtain ⟨i, hi⟩ := kind?_eq_directory.1 h.2.1
          rw [List.cons_append, follow]
          simp only [Nat.not_lt.2 h.1, if_false, hi]
          exact ih h.2.2

theorem follow_name {n : Name} (h : n.text.utf8ByteSize ≤ maxNameSize) :
    t.follow closed [.name n] p =
      match t.at? (p ++ [n]) with
      | some (.directory i) => .ok (.directory (p ++ [n]) i)
      | some (.file c) => if closed then .error .notDirectory else .ok (.file (p ++ [n]) c)
      | none => .ok (.free (p ++ [n])) := by
  rw [follow]
  simp only [Nat.not_lt.2 h, if_false]
  cases hn : t.at? (p ++ [n]) with
  | none => rfl
  | some e =>
      cases e with
      | directory i => simp only [follow, hn]
      | file c => cases closed <;> rfl

/-- What components lead to, and how. -/
inductive Leads (t : Tree) (closed : Bool) (p : Place) (cs : List Component) : Spot → Prop
  | directory {i : Directory} : t.Passes p cs → t.at? (placeFrom p cs) = some (.directory i) →
      t.Leads closed p cs (.directory (placeFrom p cs) i)
  | file (ds : List Component) {n : Name} {c : ByteArray} : cs = ds ++ [.name n] →
      t.Passes p ds → n.text.utf8ByteSize ≤ maxNameSize → closed = false →
      t.at? (placeFrom p cs) = some (.file c) → t.Leads closed p cs (.file (placeFrom p cs) c)
  | free (ds : List Component) {n : Name} : cs = ds ++ [.name n] →
      t.Passes p ds → n.text.utf8ByteSize ≤ maxNameSize → t.at? (placeFrom p cs) = none →
      t.Leads closed p cs (.free (placeFrom p cs))

/-- A component that leads through a directory can be put in front. -/
theorem Leads.cons {c : Component} {s : Spot} (hc : t.Passes p [c])
    (h : t.Leads closed (placeFrom p [c]) cs s) : t.Leads closed p (c :: cs) s := by
  have hplace : placeFrom p (c :: cs) = placeFrom (placeFrom p [c]) cs := placeFrom_append p [c] cs
  have hpass {ds : List Component} (hds : t.Passes (placeFrom p [c]) ds) :
      t.Passes p ([c] ++ ds) := passes_append.2 ⟨hc, hds⟩
  cases h with
  | directory hds hat =>
      rw [← hplace] at hat ⊢
      exact .directory (hpass hds) hat
  | file ds hcs hds hm hclosed hat =>
      rw [← hplace] at hat ⊢
      exact .file (c :: ds) (by rw [hcs]; rfl) (hpass hds) hm hclosed hat
  | free ds hcs hds hm hat =>
      rw [← hplace] at hat ⊢
      exact .free (c :: ds) (by rw [hcs]; rfl) (hpass hds) hm hat

theorem leads_of_follow {s : Spot} (h : t.follow closed cs p = .ok s) : t.Leads closed p cs s := by
  induction cs generalizing p with
  | nil =>
      rw [follow] at h
      split at h
      · rename_i i hi
        cases h
        exact .directory trivial hi
      · cases h
  | cons c cs ih =>
      cases c with
      | here => exact (ih h).cons (c := .here) trivial
      | up => exact (ih h).cons (c := .up) trivial
      | name n =>
          rw [follow] at h
          split at h
          · cases h
          rename_i hn
          have hsize := Nat.not_lt.1 hn
          split at h
          · rename_i i hi
            exact (ih h).cons (c := .name n) ⟨hsize, kind?_eq_directory.2 ⟨i, hi⟩, trivial⟩
          · rename_i c hc
            split at h
            · rename_i hend
              rw [Bool.and_eq_true, List.isEmpty_iff, Bool.not_eq_true'] at hend
              obtain ⟨rfl, hclosed⟩ := hend
              cases h
              exact .file [] rfl trivial hsize hclosed hc
            · cases h
          · rename_i hnone
            split at h
            · rename_i hend
              rw [List.isEmpty_iff] at hend
              subst hend
              cases h
              exact .free [] rfl trivial hsize hnone
            · cases h

theorem Leads.follow {s : Spot} (h : t.Leads closed p cs s) : t.follow closed cs p = .ok s := by
  cases h with
  | directory hpass hat =>
      have hfollow := follow_append hpass closed []
      rw [List.append_nil] at hfollow
      rw [hfollow, Tree.follow, hat]
  | file ds hcs hpass hn hc hat =>
      subst hcs
      rw [placeFrom_append] at hat ⊢
      rw [follow_append hpass, follow_name hn]
      simp only [placeFrom] at hat ⊢
      rw [hat, hc]
      rfl
  | free ds hcs hpass hn hat =>
      subst hcs
      rw [placeFrom_append] at hat ⊢
      rw [follow_append hpass, follow_name hn]
      simp only [placeFrom] at hat ⊢
      rw [hat]

/-- **Components are followed to where they lead.** -/
theorem follow_eq_ok {s : Spot} : t.follow closed cs p = .ok s ↔ t.Leads closed p cs s :=
  ⟨leads_of_follow, Leads.follow⟩

/-! ## 4. Following paths -/

/-- Whether a path is followed at all: it is neither empty nor from the top, and the system does not
refuse it. -/
def IsFollowed (path : String) : Prop :=
  refusal? path = none ∧ path ≠ "" ∧ Path.isFromTop path = false

theorem locate_eq_ok {s : Spot} : t.locate path = .ok s ↔
    IsFollowed path ∧ t.Leads (Path.endsInSlash path) [] (Path.components path) s := by
  rw [locate, IsFollowed]
  cases hr : refusal? path with
  | some e => simp
  | none =>
      by_cases hpath : path = "" ∨ Path.isFromTop path = true
      · have hcond : (path.isEmpty || Path.isFromTop path) = true := by
          rw [Bool.or_eq_true, String.isEmpty_iff]
          exact hpath
        rw [if_pos hcond]
        constructor
        · intro h
          cases h
        · rintro ⟨⟨-, hne, htop⟩, -⟩
          rcases hpath with he | he
          · exact absurd he hne
          · rw [he] at htop
            cases htop
      · rw [not_or, Bool.not_eq_true] at hpath
        have hcond : ¬ (path.isEmpty || Path.isFromTop path) = true := by
          rw [Bool.or_eq_true, String.isEmpty_iff, not_or, Bool.not_eq_true]
          exact hpath
        rw [if_neg hcond, follow_eq_ok]
        exact ⟨fun h => ⟨⟨rfl, hpath⟩, h⟩, fun h => h.2⟩

theorem locate_eq_directory {i : Directory} : t.locate path = .ok (.directory q i) ↔
    IsFollowed path ∧ t.Passes [] (Path.components path) ∧ q = placeOf path ∧
      t.at? q = some (.directory i) := by
  rw [locate_eq_ok]
  refine and_congr_right fun _ => ⟨fun h => ?_, fun ⟨hpass, hq, hat⟩ => ?_⟩
  · cases h with
    | directory hpass hat => exact ⟨hpass, rfl, hat⟩
  · subst hq
    exact .directory hpass hat

theorem locate_eq_file {c : ByteArray} : t.locate path = .ok (.file q c) ↔
    IsFollowed path ∧ Path.endsInSlash path = false ∧ (∃ ds n, Path.components path = ds ++ [.name n] ∧
      t.Passes [] ds ∧ n.text.utf8ByteSize ≤ maxNameSize) ∧ q = placeOf path ∧
      t.at? q = some (.file c) := by
  rw [locate_eq_ok]
  refine and_congr_right fun _ => ⟨fun h => ?_, fun ⟨hc, ⟨ds, n, hcs, hpass, hn⟩, hq, hat⟩ => ?_⟩
  · cases h with
    | file ds hcs hpass hn hc hat => exact ⟨hc, ⟨_, _, hcs, hpass, hn⟩, rfl, hat⟩
  · subst hq
    exact .file ds hcs hpass hn hc hat

theorem locate_eq_free : t.locate path = .ok (.free q) ↔
    IsFollowed path ∧ (∃ ds n, Path.components path = ds ++ [.name n] ∧
      t.Passes [] ds ∧ n.text.utf8ByteSize ≤ maxNameSize) ∧ q = placeOf path ∧ t.at? q = none := by
  rw [locate_eq_ok]
  refine and_congr_right fun _ => ⟨fun h => ?_, fun ⟨⟨ds, n, hcs, hpass, hn⟩, hq, hat⟩ => ?_⟩
  · cases h with
    | free ds hcs hpass hn hat => exact ⟨⟨_, _, hcs, hpass, hn⟩, rfl, hat⟩
  · subst hq
    exact .free ds hcs hpass hn hat

/-! ## 5. What stands at the end of a path -/

/-- The kind of the entry that a path leads to. -/
def kindAt? (t : Tree) (path : String) : Option Kind :=
  match t.locate path with
  | .ok (.directory _ _) => some .directory
  | .ok (.file _ c) => some (.file c)
  | _ => none

end Quire.Tree
