import Quire.Proofs.Alike
import Quire.Proofs.Path.Tail
import Quire.Proofs.Tree.Growth

/-!
# Trees that share a directory

Two trees share a directory if it stands under a name in each, whatever else there is (`Shares`). As
long as a path leads nowhere above such a name, what it leads to hangs on the directory alone, so
**paths with one tail behind the two names lead to the same** (`Shares.locate`), and trees that are
changed at such paths share what became of the directory (`Shares.write`, `Shares.makeDirectories`).

The system refuses paths that are too long, and a path may be so behind one name and not behind the
other. Names are interchangeable as long as tails stay within a room in which that does not happen; how
long a tail can be follows from the spans of the places in the directory, which are therefore kept count
of.
-/

namespace Quire.Tree

open Quire.Path (Component IsTail Name extend)

/-! ## 1. Spans -/

/-- How many bytes a place takes, written with a slash before each of its names. -/
def spanOf : Place → Nat
  | [] => 0
  | n :: p => n.text.utf8ByteSize + 1 + spanOf p

@[simp] theorem spanOf_nil : spanOf [] = 0 := rfl

@[simp] theorem spanOf_cons (n : Name) (p : Place) :
    spanOf (n :: p) = n.text.utf8ByteSize + 1 + spanOf p := rfl

@[simp] theorem spanOf_append (p q : Place) : spanOf (p ++ q) = spanOf p + spanOf q := by
  induction p with
  | nil => exact (Nat.zero_add _).symm
  | cons n p ih => rw [List.cons_append, spanOf_cons, spanOf_cons, ih, ← Nat.add_assoc]

theorem spanOf_dropLast_le (p : Place) : spanOf p.dropLast ≤ spanOf p := by
  rcases List.eq_nil_or_concat p with rfl | ⟨q, n, rfl⟩
  · exact Nat.le_refl 0
  · rw [List.concat_eq_append, List.dropLast_concat, spanOf_append]
    exact Nat.le_add_right _ _

/-- How many bytes the names among components take, written with a slash before each. -/
def stretchOf : List Component → Nat
  | [] => 0
  | .here :: cs => stretchOf cs
  | .up :: cs => stretchOf cs
  | .name n :: cs => n.text.utf8ByteSize + 1 + stretchOf cs

theorem stretchOf_append (cs ds : List Component) :
    stretchOf (cs ++ ds) = stretchOf cs + stretchOf ds := by
  induction cs with
  | nil => exact (Nat.zero_add _).symm
  | cons c cs ih =>
      cases c with
      | here => exact ih
      | up => exact ih
      | name n => rw [List.cons_append, stretchOf, stretchOf, ih, ← Nat.add_assoc]

theorem stretchOf_filter (cs : List Component) :
    stretchOf (cs.filter (· != .here)) = stretchOf cs := by
  induction cs with
  | nil => rfl
  | cons c cs ih =>
      cases c with
      | here => exact ih
      | up => exact ih
      | name n => exact congrArg (n.text.utf8ByteSize + 1 + ·) ih

/-- Components lead to no place that takes more than their names. -/
theorem spanOf_placeFrom_le (p : Place) (cs : List Component) :
    spanOf (placeFrom p cs) ≤ spanOf p + stretchOf cs := by
  induction cs generalizing p with
  | nil => exact Nat.le_refl _
  | cons c cs ih =>
      cases c with
      | here => exact ih p
      | up => exact (ih p.dropLast).trans (Nat.add_le_add_right (spanOf_dropLast_le p) _)
      | name n =>
          refine (ih (p ++ [n])).trans ?_
          rw [spanOf_append, spanOf_cons, spanOf_nil, stretchOf]
          omega

theorem spanOf_placeOf_le (path : String) : spanOf (placeOf path) ≤ stretchOf (Path.components path) := by
  have h := spanOf_placeFrom_le [] (Path.components path)
  rwa [spanOf_nil, Nat.zero_add] at h

/-- The largest span of a place in a directory. -/
def Directory.span : Directory → Nat
  | nil => 0
  | file n _ rest => max (n.text.utf8ByteSize + 1) rest.span
  | dir n i rest => max (n.text.utf8ByteSize + 1 + i.span) rest.span

theorem Directory.spanOf_le_span {d : Directory} {p : Place} (h : d.at? p ≠ none) :
    spanOf p ≤ d.span := by
  induction d generalizing p with
  | nil =>
      cases p with
      | nil => exact Nat.le_refl 0
      | cons n ns => exact absurd rfl h
  | file n c rest ih =>
      cases p with
      | nil => exact Nat.zero_le _
      | cons m ms =>
          rw [Directory.at?_cons, Directory.get?] at h
          rw [Directory.span]
          split at h
          · rename_i hn
            cases ms with
            | nil =>
                subst hn
                exact le_max_left _ _
            | cons k ks => exact absurd rfl h
          · rw [← Directory.at?_cons] at h
            exact (ih h).trans (le_max_right _ _)
  | dir n i rest ihi ih =>
      cases p with
      | nil => exact Nat.zero_le _
      | cons m ms =>
          rw [Directory.at?_cons, Directory.get?] at h
          rw [Directory.span]
          split at h
          · rename_i hn
            subst hn
            have hspan := ihi (p := ms) h
            rw [spanOf_cons]
            omega
          · rw [← Directory.at?_cons] at h
            exact (ih h).trans (le_max_right _ _)

/-- **The names of a place, put behind a tail, make it longer by their span.** -/
theorem extendAll_pathOf {x : String} (hx : IsTail x) (p : Place) :
    IsTail (Path.extendAll x (pathOf p)) ∧
      (Path.extendAll x (pathOf p)).utf8ByteSize = x.utf8ByteSize + spanOf p := by
  rw [Path.extendAll, Path.components_pathOf]
  induction p generalizing x with
  | nil => exact ⟨hx, rfl⟩
  | cons k p ih =>
      have hslash : ("/" : String).utf8ByteSize = 1 := rfl
      obtain ⟨htail, hsize⟩ := ih (hx.slash k)
      rw [List.map_cons, List.foldl_cons]
      refine ⟨htail, hsize.trans ?_⟩
      rw [String.utf8ByteSize_append, String.utf8ByteSize_append, hslash, spanOf_cons]
      omega

/-! ## 2. Names -/

/-- Whether two names can stand for one another before tails of at most some bytes, as far as the system
refuses paths. -/
structure Interchangeable (n m : Name) (room : Nat) : Prop where
  first : n.text.utf8ByteSize ≤ maxNameSize
  second : m.text.utf8ByteSize ≤ maxNameSize
  refusal? : ∀ {x : String}, x.utf8ByteSize ≤ room →
    refusal? (n.text ++ x) = refusal? (m.text ++ x)

/-- **Names are interchangeable if they have the same size, or are short enough.** -/
theorem interchangeable {n m : Name} {room : Nat} (hn : n.text.utf8ByteSize ≤ maxNameSize)
    (hm : m.text.utf8ByteSize ≤ maxNameSize) (hnnull : '\x00' ∉ n.text.toList)
    (hmnull : '\x00' ∉ m.text.toList) (h : n.text.utf8ByteSize = m.text.utf8ByteSize ∨
      n.text.utf8ByteSize + room ≤ maxPathSize ∧ m.text.utf8ByteSize + room ≤ maxPathSize) :
    Interchangeable n m room where
  first := hn
  second := hm
  refusal? := by
    intro x hx
    have hnull {k : Name} (hk : '\x00' ∉ k.text.toList) :
        (k.text ++ x).toList.contains '\x00' = x.toList.contains '\x00' := by
      rw [Bool.eq_iff_iff, List.contains_iff_mem, List.contains_iff_mem, String.toList_append,
        List.mem_append, or_iff_right hk]
    have hsize : (maxPathSize < (n.text ++ x).utf8ByteSize) ↔
        maxPathSize < (m.text ++ x).utf8ByteSize := by
      rw [String.utf8ByteSize_append, String.utf8ByteSize_append]
      omega
    rw [Tree.refusal?, Tree.refusal?, hnull hnnull, hnull hmnull]
    simp only [hsize]

/-! ## 3. Shared directories -/

/-- A free place that components lead to is open. -/
theorem isOpen_of_follow {t : Tree} {closed : Bool} {cs : List Component} {p : Place}
    (h : t.follow closed cs [] = .ok (.free p)) : t.IsOpen p := by
  cases follow_eq_ok.1 h with
  | @free ds k hcs hpass hk hat =>
      have hplace : placeFrom [] cs = placeFrom [] ds ++ [k] := by
        rw [hcs, placeFrom_append]
        rfl
      rw [hplace] at hat ⊢
      exact isOpen_of_concat hpass (by rw [kind?_eq_none.2 hat]; simp)

/-- Whether a directory stands under a name in each of two trees, with no place of more than some bytes
in it. -/
structure Shares (n m : Name) (span : Nat) (t u : Tree) : Prop where
  directory : ∃ d, t.at? [n] = some (.directory d) ∧ u.at? [m] = some (.directory d)
  within : ∀ {q : Place}, t.kind? (n :: q) ≠ none → spanOf q ≤ span

/-- Whether two paths lead to the same spot of a shared directory. -/
inductive Spot.Alike (n m : Name) (q : Place) : Spot → Spot → Prop
  | directory (i : Directory) : Alike n m q (.directory (n :: q) i) (.directory (m :: q) i)
  | file (c : ByteArray) : Alike n m q (.file (n :: q) c) (.file (m :: q) c)
  | free : Alike n m q (.free (n :: q)) (.free (m :: q))

namespace Shares

variable {n m : Name} {span room : Nat} {t u : Tree} {x y : String} {q : Place} {cs : List Component}

theorem at?_eq (h : Shares n m span t u) (q : Place) : t.at? (n :: q) = u.at? (m :: q) := by
  obtain ⟨d, ht, hu⟩ := h.directory
  exact (Directory.at?_append_of_directory ht q).trans (Directory.at?_append_of_directory hu q).symm

/-- **Components that lead nowhere above the names lead to the same below both.** -/
theorem follow (h : Shares n m span t u) (hcs : Path.StaysBelow q cs) (closed : Bool) :
    Agree Eq (Spot.Alike n m (placeFrom q cs)) (t.follow closed cs (n :: q))
      (u.follow closed cs (m :: q)) := by
  induction cs generalizing q with
  | nil =>
      rw [Tree.follow, Tree.follow, h.at?_eq q]
      cases u.at? (m :: q) with
      | none => exact .error rfl
      | some e =>
          cases e with
          | directory i => exact .ok (.directory i)
          | file c => exact .error rfl
  | cons c cs ih =>
      cases c with
      | here => exact ih hcs
      | up =>
          rw [Tree.follow, Tree.follow, List.dropLast_cons_of_ne_nil hcs.1,
            List.dropLast_cons_of_ne_nil hcs.1]
          exact ih hcs.2
      | name k =>
          rw [Tree.follow, Tree.follow, List.cons_append, List.cons_append]
          split
          · exact .error rfl
          rw [h.at?_eq]
          cases u.at? (m :: (q ++ [k])) with
          | none =>
              dsimp only
              split
              · rename_i hend
                rw [List.isEmpty_iff.1 hend]
                exact .ok .free
              · exact .error rfl
          | some e =>
              cases e with
              | directory i => exact ih hcs
              | file c =>
                  dsimp only
                  split
                  · rename_i hend
                    rw [Bool.and_eq_true, List.isEmpty_iff] at hend
                    rw [hend.1]
                    exact .ok (.file c)
                  · exact .error rfl

theorem follow_name (h : Shares n m span t u) (hnames : Interchangeable n m room) (hcs : Path.StaysBelow [] cs)
    (closed : Bool) : Agree Eq (Spot.Alike n m (placeFrom [] cs))
      (t.follow closed (.name n :: cs) []) (u.follow closed (.name m :: cs) []) := by
  obtain ⟨d, ht, hu⟩ := h.directory
  rw [Tree.follow, Tree.follow, List.nil_append, List.nil_append, if_neg (Nat.not_lt.2 hnames.first),
    if_neg (Nat.not_lt.2 hnames.second), ht, hu]
  exact h.follow hcs closed

/-- **Paths with one tail behind both names lead to the same.** -/
theorem locate (h : Shares n m span t u) (hnames : Interchangeable n m room) (hx : IsTail x)
    (hroom : x.utf8ByteSize ≤ room) :
    Agree Eq (Spot.Alike n m (placeOf x)) (t.locate (n.text ++ x)) (u.locate (m.text ++ x)) := by
  rw [Tree.locate, Tree.locate, hnames.refusal? hroom]
  cases refusal? (m.text ++ x) with
  | some e => exact .error rfl
  | none =>
      simp only [Path.isEmpty_tail, Path.isFromTop_tail, Path.endsInSlash_tail, Path.components_tail _ hx,
        Bool.or_self, Bool.false_eq_true, if_false]
      exact h.follow_name hnames hx.staysBelow _

/-! ## 4. Asking -/

section Asking

variable (h : Shares n m span t u) (hnames : Interchangeable n m room) (hx : IsTail x)
  (hroom : x.utf8ByteSize ≤ room)

include h hnames hx hroom

theorem hasEntry_eq : t.hasEntry (n.text ++ x) = u.hasEntry (m.text ++ x) := by
  have hspot := h.locate hnames hx hroom
  rw [hasEntry, hasEntry]
  generalize t.locate (n.text ++ x) = r at hspot
  generalize u.locate (m.text ++ x) = s at hspot
  cases hspot with
  | ok h => cases h <;> rfl
  | error h => rfl

theorem directory?_eq : t.directory? (n.text ++ x) = u.directory? (m.text ++ x) := by
  have hspot := h.locate hnames hx hroom
  rw [directory?, directory?]
  generalize t.locate (n.text ++ x) = r at hspot
  generalize u.locate (m.text ++ x) = s at hspot
  cases hspot with
  | ok h => cases h <;> rfl
  | error h => rfl

theorem hasDirectory_eq : t.hasDirectory (n.text ++ x) = u.hasDirectory (m.text ++ x) := by
  rw [hasDirectory, hasDirectory, h.directory?_eq hnames hx hroom]

theorem hasFile_eq : t.hasFile (n.text ++ x) = u.hasFile (m.text ++ x) := by
  have hspot := h.locate hnames hx hroom
  rw [hasFile, hasFile]
  generalize t.locate (n.text ++ x) = r at hspot
  generalize u.locate (m.text ++ x) = s at hspot
  cases hspot with
  | ok h => cases h <;> rfl
  | error h => rfl

theorem readBytes_eq : t.readBytes (n.text ++ x) = u.readBytes (m.text ++ x) := by
  have hspot := h.locate hnames hx hroom
  rw [readBytes, readBytes]
  generalize t.locate (n.text ++ x) = r at hspot
  generalize u.locate (m.text ++ x) = s at hspot
  cases hspot with
  | ok h => cases h <;> rfl
  | error h => rw [h]

theorem readText_eq : t.readText (n.text ++ x) = u.readText (m.text ++ x) := by
  rw [readText, readText, h.readBytes_eq hnames hx hroom]

end Asking

/-- What stands below the name has a place within the span. -/
theorem spanOf_le_of_hasEntry (h : Shares n m span t u) (hx : IsTail x)
    (hentry : t.hasEntry (n.text ++ x) = true) : spanOf (placeOf x) ≤ span := by
  refine h.within ?_
  rw [← Path.placeOf_tail n hx]
  exact kind?_ne_none_of_hasEntry hentry

/-! ## 5. Changing -/

/-- An open place below the name has another above it, or the shared directory itself. -/
theorem ne_nil_of_isOpen (h : Shares n m span t u) (hopen : t.IsOpen (n :: q)) : q ≠ [] := by
  rintro rfl
  obtain ⟨d, ht, -⟩ := h.directory
  obtain ⟨-, -, -, -, hold⟩ := hopen
  exact hold (kind?_eq_directory.2 ⟨d, ht⟩)

/-- What is put below both names is put into the shared directory. -/
theorem at?_putAt (h : Shares n m span t u) (hq : q ≠ []) (e : Entry) :
    ∃ d, (t.top.putAt e (n :: q)).at? [n] = some (.directory d) ∧
      (u.top.putAt e (m :: q)).at? [m] = some (.directory d) := by
  obtain ⟨d, ht, hu⟩ := h.directory
  have hput {k : Name} {top : Directory} (hk : top.at? [k] = some (.directory d)) :
      (top.putAt e (k :: q)).at? [k] = some (.directory (d.putAt e q)) := by
    rw [Directory.at?_singleton] at hk
    rw [Directory.putAt_of_directory e hq hk, Directory.at?_singleton, Directory.get?_put_self]
  exact ⟨d.putAt e q, hput ht, hput hu⟩

theorem putFile (h : Shares n m span t u) (hopen : t.IsOpen (n :: q)) (hspan : spanOf q ≤ span)
    (c : ByteArray) : Shares n m span (t.putFile (n :: q) c) (u.putFile (m :: q) c) where
  directory := h.at?_putAt (h.ne_nil_of_isOpen hopen) (.file c)
  within {p} hp := by
    rw [kind?_putFile hopen] at hp
    split at hp
    · rename_i he
      rwa [(List.cons.inj he).2]
    · exact h.within hp

theorem putDirectory (h : Shares n m span t u) (hopen : t.IsOpen (n :: q)) (hspan : spanOf q ≤ span) :
    Shares n m span (t.putDirectory (n :: q)) (u.putDirectory (m :: q)) where
  directory := h.at?_putAt (h.ne_nil_of_isOpen hopen) (.directory .nil)
  within {p} hp := by
    rw [kind?_putDirectory hopen] at hp
    split at hp
    · rename_i he
      rwa [(List.cons.inj he).2]
    · exact h.within hp

/-- **What is written to paths with one tail behind both names is written to the shared directory.** -/
theorem write (h : Shares n m span t u) (hnames : Interchangeable n m room) (hy : IsTail y) (k : Name)
    (hroom : (extend y k.text).utf8ByteSize ≤ room)
    (hspan : spanOf (placeOf y) + maxNameSize + 1 ≤ span) (c : ByteArray) :
    Agree Eq (Shares n m span) (t.write (n.text ++ extend y k.text) c)
      (u.write (m.text ++ extend y k.text) c) := by
  have hx := hy.extend_name k
  have hcan {v : Tree} (hv : t.write (n.text ++ extend y k.text) c = .ok v) :
      t.IsOpen (n :: placeOf (extend y k.text)) ∧ spanOf (placeOf (extend y k.text)) ≤ span := by
    obtain ⟨hcan, -⟩ := write_eq_ok.1 hv
    refine ⟨Path.placeOf_tail n hx ▸ hcan.isOpen, ?_⟩
    obtain ⟨ds, j, hcs, -, hj⟩ := hcan.way
    rw [Path.components_tail n hx, Path.components_extend, Path.components_text_name,
      ← List.cons_append] at hcs
    obtain ⟨-, hlast⟩ := List.append_inj' hcs rfl
    obtain rfl := Component.name.inj (List.head_eq_of_cons_eq hlast)
    rw [Path.placeOf_extend_name, spanOf_append, spanOf_cons, spanOf_nil]
    omega
  have hspot := h.locate hnames hx hroom
  rw [Tree.write] at hcan ⊢
  rw [Tree.write]
  simp only [Path.endsInSlash_tail] at hcan ⊢
  generalize t.locate (n.text ++ extend y k.text) = r at hspot hcan
  generalize u.locate (m.text ++ extend y k.text) = s at hspot
  cases hspot with
  | error h => exact .error h
  | ok hspot =>
      cases hspot with
      | directory i => exact .error rfl
      | file d =>
          obtain ⟨hopen, hspan⟩ := hcan rfl
          exact .ok (h.putFile hopen hspan c)
      | free =>
          dsimp only at hcan ⊢
          split
          · exact .error rfl
          · rename_i hslash
            obtain ⟨hopen, hspan⟩ := hcan (if_neg hslash)
            exact .ok (h.putFile hopen hspan c)

theorem copy (h : Shares n m span t u) (hnames : Interchangeable n m room) (hx : IsTail x)
    (hxroom : x.utf8ByteSize ≤ room) (hy : IsTail y) (k : Name)
    (hroom : (extend y k.text).utf8ByteSize ≤ room)
    (hspan : spanOf (placeOf y) + maxNameSize + 1 ≤ span) :
    Agree Eq (Shares n m span) (t.copy (n.text ++ x) (n.text ++ extend y k.text))
      (u.copy (m.text ++ x) (m.text ++ extend y k.text)) := by
  rw [Tree.copy, Tree.copy, h.readBytes_eq hnames hx hxroom]
  cases u.readBytes (m.text ++ x) with
  | error e => exact .error rfl
  | ok c => exact h.write hnames hy k hroom hspan c

/-! ## 6. Making directories -/

theorem ensureDirectory (h : Shares n m span t u) (hnames : Interchangeable n m room)
    (hcs : Path.StaysBelow [] cs) (hspan : spanOf (placeFrom [] cs) ≤ span) :
    Agree Eq (Shares n m span) (t.ensureDirectory (.name n :: cs)) (u.ensureDirectory (.name m :: cs)) := by
  have hspot := h.follow_name hnames hcs false
  have hopen {p : Place} (hp : t.follow false (.name n :: cs) [] = .ok (.free p)) : t.IsOpen p :=
    isOpen_of_follow hp
  rw [Tree.ensureDirectory, Tree.ensureDirectory]
  generalize t.follow false (.name n :: cs) [] = r at hspot hopen
  generalize u.follow false (.name m :: cs) [] = s at hspot
  cases hspot with
  | error h => exact .error h
  | ok hspot =>
      cases hspot with
      | directory i => exact .ok h
      | file c => exact .error rfl
      | free => exact .ok (h.putDirectory (hopen rfl) hspan)

/-- One more directory is made alike if those above it are. -/
theorem ensureDirectories_cons {c d : Component} {as bs : List Component} (h : Shares n m span t u)
    (hself : ∀ {t u : Tree}, Shares n m span t u → Agree Eq (Shares n m span)
      (t.ensureDirectory (c :: as).reverse) (u.ensureDirectory (d :: bs).reverse))
    (hcause : (t.ensureDirectories as).2 = (u.ensureDirectories bs).2)
    (habove : Shares n m span (t.ensureDirectories as).1 (u.ensureDirectories bs).1) :
    (t.ensureDirectories (c :: as)).2 = (u.ensureDirectories (d :: bs)).2 ∧
      Shares n m span (t.ensureDirectories (c :: as)).1 (u.ensureDirectories (d :: bs)).1 := by
  have hfirst := hself h
  have hagain := hself habove
  rw [Tree.ensureDirectories, Tree.ensureDirectories]
  generalize t.ensureDirectory (c :: as).reverse = r at hfirst
  generalize u.ensureDirectory (d :: bs).reverse = s at hfirst
  cases hfirst with
  | ok h => exact ⟨rfl, h⟩
  | @error e f he =>
      subst he
      cases e with
      | notFound =>
          generalize t.ensureDirectories as = x at hcause habove hagain
          generalize u.ensureDirectories bs = y at hcause habove hagain
          obtain ⟨t', cause⟩ := x
          obtain ⟨u', cause'⟩ := y
          dsimp only at hcause habove hagain
          subst hcause
          cases cause with
          | some e => exact ⟨rfl, habove⟩
          | none =>
              dsimp only
              generalize t'.ensureDirectory (c :: as).reverse = r at hagain
              generalize u'.ensureDirectory (d :: bs).reverse = s at hagain
              cases hagain with
              | ok h => exact ⟨rfl, h⟩
              | error he => exact ⟨congrArg some he, habove⟩
      | taken | notDirectory | isDirectory | notText | nameTooLong | nullInName => exact ⟨rfl, h⟩

/-- **Directories are made alike**, with the names last in the components, which are given from the last
to the first. -/
theorem ensureDirectories (h : Shares n m span t u) (hnames : Interchangeable n m room)
    (hcs : Path.StaysBelow [] cs.reverse) (hspan : stretchOf cs.reverse ≤ span) :
    (t.ensureDirectories (cs ++ [.name n])).2 = (u.ensureDirectories (cs ++ [.name m])).2 ∧
      Shares n m span (t.ensureDirectories (cs ++ [.name n])).1
        (u.ensureDirectories (cs ++ [.name m])).1 := by
  have hself {cs : List Component} (hcs : Path.StaysBelow [] cs.reverse)
      (hspan : stretchOf cs.reverse ≤ span) {t u : Tree} (h : Shares n m span t u) :
      Agree Eq (Shares n m span) (t.ensureDirectory (cs ++ [Component.name n]).reverse)
        (u.ensureDirectory (cs ++ [Component.name m]).reverse) := by
    have hplace := spanOf_placeFrom_le [] cs.reverse
    rw [spanOf_nil, Nat.zero_add] at hplace
    rw [List.reverse_append, List.reverse_append]
    exact h.ensureDirectory hnames hcs (hplace.trans hspan)
  induction cs with
  | nil => exact h.ensureDirectories_cons (hself hcs hspan) rfl h
  | cons c cs ih =>
      have hcs' := hcs
      have hspan' := hspan
      rw [List.reverse_cons, Path.staysBelow_append] at hcs'
      rw [List.reverse_cons, stretchOf_append] at hspan'
      obtain ⟨hcause, habove⟩ := ih hcs'.1 ((Nat.le_add_right _ _).trans hspan')
      exact h.ensureDirectories_cons (hself hcs hspan) hcause habove

/-- **Directories at paths with one tail behind both names are made in the shared directory.** -/
theorem makeDirectories (h : Shares n m span t u) (hnames : Interchangeable n m room) (hx : IsTail x)
    (hroom : x.utf8ByteSize ≤ room) (hspan : stretchOf (Path.components x) ≤ span) :
    (t.makeDirectories (n.text ++ x)).2 = (u.makeDirectories (m.text ++ x)).2 ∧
      Shares n m span (t.makeDirectories (n.text ++ x)).1 (u.makeDirectories (m.text ++ x)).1 := by
  rw [Tree.makeDirectories, Tree.makeDirectories, hnames.refusal? hroom]
  cases refusal? (m.text ++ x) with
  | some e => exact ⟨rfl, h⟩
  | none =>
      simp only [Path.isFromTop_tail, Bool.false_eq_true, if_false]
      rw [Path.steps_tail n hx, Path.steps_tail m hx, List.reverse_cons, List.reverse_cons]
      refine h.ensureDirectories hnames ?_ ?_
      · rw [List.reverse_reverse]
        exact Path.staysBelow_filter.2 hx.staysBelow
      · rwa [List.reverse_reverse, stretchOf_filter]

/-- **The directories above a name behind one tail are made in the shared directory.** -/
theorem makeParents (h : Shares n m span t u) (hnames : Interchangeable n m room) (hx : IsTail x)
    (hend : Path.EndsInName x) (k : Name)
    (hroom : x.utf8ByteSize ≤ room) (hspan : stretchOf (Path.components x) ≤ span) :
    (t.makeParents (n.text ++ extend x k.text)).2 = (u.makeParents (m.text ++ extend x k.text)).2 ∧
      Shares n m span (t.makeParents (n.text ++ extend x k.text)).1
        (u.makeParents (m.text ++ extend x k.text)).1 := by
  have hsteps (j : Name) : (Path.steps (j.text ++ extend x k.text)).reverse.tail =
      ((Path.components x).filter (· != .here)).reverse ++ [.name j] := by
    rw [Path.steps_tail j (hx.extend_name k), Path.components_extend, Path.components_text_name,
      List.filter_append, ← List.cons_append]
    exact (congrArg List.tail (List.reverse_append ..)).trans (List.reverse_cons ..)
  rw [Tree.makeParents, Tree.makeParents, Path.parent_tail n k hend, Path.parent_tail m k hend,
    hnames.refusal? hroom]
  cases refusal? (m.text ++ x) with
  | some e => exact ⟨rfl, h⟩
  | none =>
      simp only [Path.isFromTop_tail, Bool.false_eq_true, if_false]
      rw [hsteps, hsteps]
      refine h.ensureDirectories hnames ?_ ?_
      · rw [List.reverse_reverse]
        exact Path.staysBelow_filter.2 hx.staysBelow
      · rwa [List.reverse_reverse, stretchOf_filter]

end Shares

end Quire.Tree
