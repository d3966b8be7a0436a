import Mathlib.Data.List.Infix
import Quire.Tree.Basic

/-!
# What stands at a place

A place is looked up name by name, so what stands below a directory is looked up in that directory
(`at?_append`). Putting an entry at a place of a directory changes nothing that is not at or below
that place (`kind?_putAt_of_not_prefix`); what stands at and below it is the entry
(`at?_putAt_append`). So **where a file is written, or an empty directory made, every other place
holds what it held before** (`kind?_putFile`, `kind?_putDirectory`).

As far as a build goes, a directory is the same as long as it is one; `Kind` is an entry with what
a directory holds left aside.
-/

namespace Quire.Tree

open Quire.Path (Name)

/-! ## 1. Putting twice -/

namespace Directory

theorem put_cons_self (n : Name) (e f : Entry) (d : Directory) :
    (cons n e d).put n f = cons n f d := by
  cases e <;> simp [cons, put]

theorem put_cons_of_ne {n m : Name} (h : n ≠ m) (e f : Entry) (d : Directory) :
    (cons n e d).put m f = cons n e (d.put m f) := by
  cases e <;> simp [cons, put, h]

theorem get?_put_self (n : Name) (e : Entry) (d : Directory) : (d.put n e).get? n = some e := by
  rw [get?_put, if_pos rfl]

/-- The entry that was put last under a name counts. -/
theorem put_put (n : Name) (e f : Entry) (d : Directory) : (d.put n e).put n f = d.put n f := by
  induction d with
  | nil => exact put_cons_self n e f nil
  | file m c rest ih =>
      by_cases h : m = n
      · simp only [put, h, if_true, put_cons_self]
      · simp only [put, h, if_false, ih]
  | dir m i rest _ ih =>
      by_cases h : m = n
      · simp only [put, h, if_true, put_cons_self]
      · simp only [put, h, if_false, ih]

/-- Putting what is there changes nothing. -/
theorem put_self {n : Name} {e : Entry} {d : Directory} (h : d.get? n = some e) :
    d.put n e = d := by
  induction d with
  | nil => cases h
  | file m c rest ih =>
      by_cases hm : m = n
      · simp only [get?, hm, if_true, Option.some.injEq] at h
        subst h
        simp only [put, hm, if_true, cons]
      · simp only [get?, hm, if_false] at h
        simp only [put, hm, if_false, ih h]
  | dir m i rest _ ih =>
      by_cases hm : m = n
      · simp only [get?, hm, if_true, Option.some.injEq] at h
        subst h
        simp only [put, hm, if_true, cons]
      · simp only [get?, hm, if_false] at h
        simp only [put, hm, if_false, ih h]

/-- Entries under two names can be put in either order, if there is one under the first already:
then only the second can be new, and be put last. -/
theorem put_comm {n m : Name} (hne : n ≠ m) (e f : Entry) {d : Directory}
    (h : (d.get? m).isSome) : (d.put m f).put n e = (d.put n e).put m f := by
  induction d with
  | nil => cases h
  | file k c rest ih =>
      by_cases hm : k = m
      · subst hm
        simp only [put, if_true, if_neg hne.symm, put_cons_of_ne hne.symm]
      · simp only [get?, hm, if_false] at h
        by_cases hn : k = n
        · subst hn
          simp only [put, if_true, hm, if_false, put_cons_of_ne hne]
        · simp only [put, hm, hn, if_false, ih h]
  | dir k i rest _ ih =>
      by_cases hm : k = m
      · subst hm
        simp only [put, if_true, if_neg hne.symm, put_cons_of_ne hne.symm]
      · simp only [get?, hm, if_false] at h
        by_cases hn : k = n
        · subst hn
          simp only [put, if_true, hm, if_false, put_cons_of_ne hne]
        · simp only [put, hm, hn, if_false, ih h]

end Directory

/-! ## 2. Entries by place -/

/-- The entry at a place below an entry. Below a file there is nothing. -/
def Entry.at? (p : Place) : Entry → Option Entry
  | .directory i => i.at? p
  | .file c => if p.isEmpty then some (.file c) else none

namespace Directory

theorem at?_cons (n : Name) (ns : Place) (d : Directory) :
    d.at? (n :: ns) = (d.get? n).bind (·.at? ns) := by
  rw [at?]
  cases d.get? n with
  | none => rfl
  | some e => cases e <;> rfl

end Directory

@[simp] theorem Entry.at?_nil (e : Entry) : e.at? [] = some e := by
  cases e <;> rfl

namespace Directory

/-- **What stands below a directory is looked up in it.** -/
theorem at?_append (p q : Place) (d : Directory) :
    d.at? (p ++ q) = (d.at? p).bind (·.at? q) := by
  induction p generalizing d with
  | nil => rfl
  | cons n ns ih =>
      rw [List.cons_append, at?_cons, at?_cons]
      cases d.get? n with
      | none => rfl
      | some e =>
          cases e with
          | directory i => exact ih i
          | file c =>
              cases ns with
              | nil => rfl
              | cons m ms => rfl

theorem at?_append_of_directory {p : Place} {d i : Directory} (h : d.at? p = some (.directory i))
    (q : Place) : d.at? (p ++ q) = i.at? q := by
  rw [at?_append, h]
  rfl

theorem at?_singleton (n : Name) (d : Directory) : d.at? [n] = d.get? n := by
  rw [at?_cons]
  cases d.get? n <;> simp

theorem putAt_cons (e : Entry) (n : Name) {p : Place} (hp : p ≠ []) (d : Directory) :
    d.putAt e (n :: p) =
      match d.get? n with
      | some (.directory i) => d.put n (.directory (i.putAt e p))
      | _ => d := by
  cases p with
  | nil => exact absurd rfl hp
  | cons m ms => rfl

/-- What is put below a directory is put into it. -/
theorem putAt_of_directory (e : Entry) {n : Name} {p : Place} (hp : p ≠ []) {d i : Directory}
    (h : d.get? n = some (.directory i)) :
    d.putAt e (n :: p) = d.put n (.directory (i.putAt e p)) := by
  rw [putAt_cons e n hp, h]

/-- Nothing is put below what is no directory. -/
theorem putAt_of_not_directory (e : Entry) {n : Name} {p : Place} (hp : p ≠ []) {d : Directory}
    (h : ¬ ∃ i, d.get? n = some (.directory i)) : d.putAt e (n :: p) = d := by
  rw [putAt_cons e n hp]
  split
  · rename_i i hi
    exact absurd ⟨i, hi⟩ h
  · rfl

/-- Putting at a place is putting under its first name, or nothing at all, whatever else a directory
holds. -/
theorem exists_putAt_eq (e : Entry) (n : Name) (p : Place) :
    ∃ g : Option Entry → Option Entry, ∀ d : Directory,
      d.putAt e (n :: p) = ((g (d.get? n)).map (d.put n)).getD d := by
  cases p with
  | nil => exact ⟨fun _ => some e, fun _ => rfl⟩
  | cons m ms =>
      refine ⟨fun f => match f with
        | some (.directory i) => some (.directory (i.putAt e (m :: ms)))
        | _ => none, fun d => ?_⟩
      rw [putAt_cons e n (by simp)]
      cases d.get? n with
      | none => rfl
      | some f => cases f <;> rfl

/-- Putting at a place does not touch the other names. -/
theorem get?_putAt_of_ne {n m : Name} (h : n ≠ m) (e : Entry) (p : Place) (d : Directory) :
    (d.putAt e (n :: p)).get? m = d.get? m := by
  obtain ⟨g, hg⟩ := exists_putAt_eq e n p
  rw [hg]
  cases g (d.get? n) with
  | none => rfl
  | some x =>
      rw [Option.map_some, Option.getD_some, get?_put, if_neg h]

/-- What is put at a place stands there. -/
theorem at?_putAt_append {p : Place} {n : Name} {d i : Directory}
    (h : d.at? p = some (.directory i)) (e : Entry) (q : Place) :
    (d.putAt e (p ++ [n])).at? (p ++ n :: q) = e.at? q := by
  induction p generalizing d with
  | nil =>
      rw [List.nil_append, List.nil_append, putAt, at?_cons, get?_put_self]
      rfl
  | cons m ms ih =>
      rw [at?_cons] at h
      obtain ⟨f, hm, hf⟩ := Option.bind_eq_some_iff.1 h
      cases f with
      | file c => cases ms <;> cases hf
      | directory j =>
          rw [List.cons_append, List.cons_append, putAt_of_directory e (by simp) hm, at?_cons,
            get?_put_self]
          exact ih hf

end Directory

/-! ## 3. Kinds -/

/-- What an entry is: a directory, whatever it holds, or a file with its content. -/
inductive Kind where
  | directory
  | file (content : ByteArray)

/-- Whether a kind is that of directories. -/
def Kind.isDirectory : Kind → Bool
  | .directory => true
  | .file _ => false

/-- The kind of an entry. -/
def Entry.kind : Entry → Kind
  | .directory _ => .directory
  | .file c => .file c

@[simp] theorem Entry.kind_directory (i : Directory) : (Entry.directory i).kind = .directory := rfl

@[simp] theorem Entry.kind_file (c : ByteArray) : (Entry.file c).kind = .file c := rfl

theorem Entry.isDirectory_kind (e : Entry) : e.kind.isDirectory = e.isDirectory := by
  cases e <;> rfl

theorem Entry.kind_eq_directory {e : Entry} : e.kind = .directory ↔ ∃ i, e = .directory i := by
  cases e <;> simp

theorem Entry.kind_eq_file {e : Entry} {c : ByteArray} : e.kind = .file c ↔ e = .file c := by
  cases e <;> simp

namespace Directory

/-- The kind of the entry at a place. -/
def kind? (d : Directory) (p : Place) : Option Kind :=
  (d.at? p).map Entry.kind

theorem kind?_eq_directory {d : Directory} {p : Place} :
    d.kind? p = some .directory ↔ ∃ i, d.at? p = some (.directory i) := by
  cases h : d.at? p <;> simp [kind?, h, Entry.kind_eq_directory]

theorem kind?_eq_file {d : Directory} {p : Place} {c : ByteArray} :
    d.kind? p = some (.file c) ↔ d.at? p = some (.file c) := by
  cases h : d.at? p <;> simp [kind?, h, Entry.kind_eq_file]

theorem kind?_eq_none {d : Directory} {p : Place} : d.kind? p = none ↔ d.at? p = none := by
  simp [kind?]

theorem kind?_append_of_directory {p : Place} {d i : Directory}
    (h : d.at? p = some (.directory i)) (q : Place) : d.kind? (p ++ q) = i.kind? q := by
  rw [kind?, kind?, at?_append_of_directory h]

/-- **Only what is at or below a place is changed by putting an entry there.** -/
theorem kind?_putAt_of_not_prefix {p q : Place} (hne : p ≠ []) (h : ¬ p <+: q) (e : Entry)
    (d : Directory) : (d.putAt e p).kind? q = d.kind? q := by
  induction p generalizing d q with
  | nil => exact absurd rfl hne
  | cons n ns ih =>
      cases q with
      | nil => rfl
      | cons m ms =>
          simp only [kind?, at?_cons]
          by_cases hm : n = m
          · subst hm
            have hns : ¬ ns <+: ms := fun hp => h ((List.prefix_cons_inj n).2 hp)
            have hne' : ns ≠ [] := by
              rintro rfl
              exact hns (List.nil_prefix)
            by_cases hdir : ∃ i, d.get? n = some (.directory i)
            · obtain ⟨i, hi⟩ := hdir
              rw [putAt_of_directory e hne' hi, get?_put_self, hi]
              exact ih hne' hns i
            · rw [putAt_of_not_directory e hne' hdir]
          · rw [get?_putAt_of_ne hm]

/-- **An entry that holds nothing, put where no directory is, changes this place alone.** -/
theorem kind?_putAt {p : Place} {n : Name} {d i : Directory} (hdir : d.at? p = some (.directory i))
    (hold : d.kind? (p ++ [n]) ≠ some .directory) {e : Entry} (hbare : ∀ m ms, e.at? (m :: ms) = none)
    (q : Place) :
    (d.putAt e (p ++ [n])).kind? q = if q = p ++ [n] then some e.kind else d.kind? q := by
  by_cases hpre : p ++ [n] <+: q
  · obtain ⟨s, rfl⟩ := hpre
    have hnew : (d.putAt e (p ++ [n])).kind? (p ++ [n] ++ s) = (e.at? s).map Entry.kind := by
      rw [kind?, List.append_assoc, List.singleton_append, at?_putAt_append hdir]
    rw [hnew]
    cases s with
    | nil => simp
    | cons m ms =>
        rw [hbare, if_neg (by simp), kind?, at?_append]
        cases hp : d.at? (p ++ [n]) with
        | none => rfl
        | some f =>
            cases f with
            | file c => rfl
            | directory j => exact absurd (kind?_eq_directory.2 ⟨j, hp⟩) hold
  · have hq : q ≠ p ++ [n] := fun e => hpre (e ▸ List.prefix_rfl)
    rw [if_neg hq]
    exact kind?_putAt_of_not_prefix (by simp) hpre e d

/-! ## 4. Putting twice at places -/

theorem putAt_putAt (e f : Entry) (p : Place) (d : Directory) :
    (d.putAt e p).putAt f p = d.putAt f p := by
  induction p generalizing d with
  | nil => rfl
  | cons n ns ih =>
      cases ns with
      | nil => exact put_put n e f d
      | cons m ms =>
          have hms : m :: ms ≠ [] := List.cons_ne_nil m ms
          by_cases hdir : ∃ i, d.get? n = some (.directory i)
          · obtain ⟨i, hi⟩ := hdir
            rw [putAt_of_directory e hms hi, putAt_of_directory f hms (get?_put_self n _ d),
              putAt_of_directory f hms hi, put_put, ih]
          · rw [putAt_of_not_directory e hms hdir]

/-- Putting what stands at a place changes nothing. -/
theorem putAt_self {e : Entry} {p : Place} (hne : p ≠ []) {d : Directory} (h : d.at? p = some e) :
    d.putAt e p = d := by
  induction p generalizing d with
  | nil => exact absurd rfl hne
  | cons n ns ih =>
      cases ns with
      | nil =>
          rw [at?_singleton] at h
          exact put_self h
      | cons m ms =>
          rw [at?_cons] at h
          obtain ⟨f, hn, hf⟩ := Option.bind_eq_some_iff.1 h
          cases f with
          | file c => cases hf
          | directory i =>
              have hms : m :: ms ≠ [] := List.cons_ne_nil m ms
              rw [putAt_of_directory e hms hn, ih hms hf, put_self hn]

/-- Entries at two places apart can be put in either order, if there is one at the first already. -/
theorem putAt_comm {p q : Place} (hpq : ¬ p <+: q) (hqp : ¬ q <+: p) (e f : Entry) {d : Directory}
    (h : (d.at? q).isSome) : (d.putAt f q).putAt e p = (d.putAt e p).putAt f q := by
  induction p generalizing d q with
  | nil => exact absurd List.nil_prefix hpq
  | cons n ns ih =>
      cases q with
      | nil => exact absurd List.nil_prefix hqp
      | cons m ms =>
          rw [at?_cons] at h
          obtain ⟨_, hsome⟩ := Option.isSome_iff_exists.1 h
          obtain ⟨g, hm, hg⟩ := Option.bind_eq_some_iff.1 hsome
          by_cases hnm : n = m
          · subst hnm
            have hpq' : ¬ ns <+: ms := fun hp => hpq ((List.prefix_cons_inj n).2 hp)
            have hqp' : ¬ ms <+: ns := fun hp => hqp ((List.prefix_cons_inj n).2 hp)
            have hns : ns ≠ [] := by rintro rfl; exact hpq' List.nil_prefix
            have hms : ms ≠ [] := by rintro rfl; exact hqp' List.nil_prefix
            cases g with
            | file c =>
                cases ms with
                | nil => exact absurd rfl hms
                | cons k ks => cases hg
            | directory i =>
                have hi : (i.at? ms).isSome := Option.isSome_iff_exists.2 ⟨_, hg⟩
                rw [putAt_of_directory f hms hm, putAt_of_directory e hns (get?_put_self n _ d),
                  putAt_of_directory e hns hm, putAt_of_directory f hms (get?_put_self n _ d),
                  put_put, put_put, ih hpq' hqp' hi]
          · have hthere : (d.get? m).isSome := Option.isSome_iff_exists.2 ⟨g, hm⟩
            obtain ⟨g, hg⟩ := exists_putAt_eq e n ns
            obtain ⟨k, hk⟩ := exists_putAt_eq f m ms
            rw [hg (d.putAt f (m :: ms)), hk (d.putAt e (n :: ns)), get?_putAt_of_ne (Ne.symm hnm),
              get?_putAt_of_ne hnm, hg d, hk d]
            cases g (d.get? n) with
            | none => rfl
            | some x =>
                cases k (d.get? m) with
                | none => rfl
                | some y => exact put_comm hnm x y hthere

end Directory

end Quire.Tree

namespace Quire.Tree

/-! ## 5. Trees -/

theorem ext_top {t u : Tree} (h : t.top = u.top) : t = u := by
  cases t; cases u; cases h; rfl

/-- The kind of the entry at a place. -/
def kind? (t : Tree) (p : Place) : Option Kind :=
  t.top.kind? p

/-- Whether an entry that holds nothing can be put at a place: it is in a directory, and no directory
itself. -/
def IsOpen (t : Tree) (p : Place) : Prop :=
  ∃ q n, p = q ++ [n] ∧ t.kind? q = some .directory ∧ t.kind? p ≠ some .directory

variable {t : Tree} {p q : Place}

theorem kind?_eq_directory : t.kind? p = some .directory ↔ ∃ i, t.at? p = some (.directory i) :=
  Directory.kind?_eq_directory

theorem kind?_eq_file {c : ByteArray} : t.kind? p = some (.file c) ↔ t.at? p = some (.file c) :=
  Directory.kind?_eq_file

theorem kind?_eq_none : t.kind? p = none ↔ t.at? p = none :=
  Directory.kind?_eq_none

theorem kind?_nil (t : Tree) : t.kind? [] = some .directory := rfl

/-- Whatever has a place below another stands in a directory. -/
theorem kind?_of_append {s : Place} (hs : s ≠ []) (h : t.kind? (p ++ s) ≠ none) :
    t.kind? p = some .directory := by
  rw [kind?, Directory.kind?, Directory.at?_append, Option.map_eq_none_iff.ne] at h
  cases hp : t.top.at? p with
  | none => rw [hp] at h; exact absurd rfl h
  | some f =>
      cases f with
      | directory i => exact Directory.kind?_eq_directory.2 ⟨i, hp⟩
      | file c =>
          cases s with
          | nil => exact absurd rfl hs
          | cons m ms => rw [hp] at h; exact absurd rfl h

/-- **A file that is written changes its own place alone.** -/
theorem kind?_putFile (h : t.IsOpen p) (c : ByteArray) (q : Place) :
    (t.putFile p c).kind? q = if q = p then some (.file c) else t.kind? q := by
  obtain ⟨r, n, rfl, hdir, hold⟩ := h
  obtain ⟨i, hi⟩ := kind?_eq_directory.1 hdir
  exact Directory.kind?_putAt hi hold (fun _ _ => rfl) q

/-- **A directory that is made changes its own place alone.** -/
theorem kind?_putDirectory (h : t.IsOpen p) (q : Place) :
    (t.putDirectory p).kind? q = if q = p then some .directory else t.kind? q := by
  obtain ⟨r, n, rfl, hdir, hold⟩ := h
  obtain ⟨i, hi⟩ := kind?_eq_directory.1 hdir
  exact Directory.kind?_putAt hi hold (fun _ _ => rfl) q

theorem putFile_putFile (t : Tree) (p : Place) (c d : ByteArray) :
    (t.putFile p c).putFile p d = t.putFile p d :=
  ext_top (Directory.putAt_putAt _ _ p t.top)

/-- Writing what a file holds changes nothing. -/
theorem putFile_self {c : ByteArray} (h : t.kind? p = some (.file c)) : t.putFile p c = t := by
  have hne : p ≠ [] := by
    rintro rfl
    cases h
  exact ext_top (Directory.putAt_self hne (kind?_eq_file.1 h))

/-- Two files can be written in either order, if the first is there already. -/
theorem putFile_comm {c : ByteArray} (hq : t.kind? q = some (.file c)) (hp : t.IsOpen p)
    (hne : p ≠ q) (d e : ByteArray) :
    (t.putFile q d).putFile p e = (t.putFile p e).putFile q d := by
  have hpq : ¬ p <+: q := by
    rintro ⟨s, rfl⟩
    obtain ⟨r, n, -, -, hold⟩ := hp
    have hs : s ≠ [] := by
      rintro rfl
      exact hne (List.append_nil p).symm
    exact hold (kind?_of_append hs (by rw [hq]; simp))
  have hqp : ¬ q <+: p := by
    intro hpre
    obtain ⟨r, n, rfl, hdir, -⟩ := hp
    rcases List.prefix_concat_iff.1 hpre with rfl | ⟨s, rfl⟩
    · exact hne rfl
    · cases s with
      | nil =>
          rw [List.append_nil, hq] at hdir
          cases hdir
      | cons m ms =>
          have habove := kind?_of_append (List.cons_ne_nil m ms) (by rw [hdir]; simp)
          rw [hq] at habove
          cases habove
  exact ext_top (Directory.putAt_comm hpq hqp _ _ (Option.isSome_of_eq_some (kind?_eq_file.1 hq)))

end Quire.Tree
