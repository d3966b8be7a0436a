import Mathlib.Order.Defs.Unbundled
import Quire.Proofs.Path.Parent
import Quire.Proofs.Text.Cut
import Quire.Proofs.Tree.Following

/-!
# How a tree grows

Nothing that is done to a tree on the way to a site takes an entry away: directories stay
directories and files stay files (`Persists`), so every path that led somewhere still leads there.
What is new, and which files hold something else, is kept count of by place (`Grows`). **A written
file changes the place its path leads to** (`write_eq_ok`), and **directories are made at places on the
way to the one that is asked for** (`grows_ensureDirectories`), where nothing was.
-/

namespace Quire.Tree

open Quire.Path (Component Name)

/-! ## 1. What stays -/

/-- Whether every directory of a tree is one in another, and every file a file, whatever it holds. -/
structure Persists (t u : Tree) : Prop where
  directory : ∀ {p : Place}, t.kind? p = some .directory → u.kind? p = some .directory
  file : ∀ {p : Place} {c : ByteArray}, t.kind? p = some (.file c) → ∃ d, u.kind? p = some (.file d)

variable {t u v : Tree} {p q : Place} {cs : List Component} {path : String}

/-- A path leads to the same file wherever the directories on its way are passed. -/
theorem locate_file_of_passes (hpasses : ∀ {cs}, t.Passes [] cs → u.Passes [] cs) {c d : ByteArray}
    (hl : t.locate path = .ok (.file p c)) (hd : u.kind? p = some (.file d)) :
    u.locate path = .ok (.file p d) := by
  obtain ⟨hf, hslash, ⟨ds, n, hcs, hpass, hn⟩, hq, -⟩ := locate_eq_file.1 hl
  exact locate_eq_file.2 ⟨hf, hslash, ⟨ds, n, hcs, hpasses hpass, hn⟩, hq, kind?_eq_file.1 hd⟩

namespace Persists

theorem refl (t : Tree) : Persists t t where
  directory h := h
  file h := ⟨_, h⟩

theorem trans (h : Persists t u) (k : Persists u v) : Persists t v where
  directory hp := k.directory (h.directory hp)
  file hp := by
    obtain ⟨d, hd⟩ := h.file hp
    exact k.file hd

theorem eq_none (h : Persists t u) (hp : u.kind? p = none) : t.kind? p = none := by
  match hk : t.kind? p with
  | none => rfl
  | some .directory =>
      rw [h.directory hk] at hp
      cases hp
  | some (.file c) =>
      obtain ⟨d, hd⟩ := h.file hk
      rw [hd] at hp
      cases hp

theorem passes (h : Persists t u) (hp : t.Passes p cs) : u.Passes p cs := by
  induction cs generalizing p with
  | nil => trivial
  | cons c cs ih =>
      cases c with
      | here => exact ih hp
      | up => exact ih hp
      | name n => exact ⟨hp.1, h.directory hp.2.1, ih hp.2.2⟩

theorem locate_directory (h : Persists t u) {i : Directory}
    (hl : t.locate path = .ok (.directory p i)) : ∃ j, u.locate path = .ok (.directory p j) := by
  obtain ⟨hf, hpass, hq, hat⟩ := locate_eq_directory.1 hl
  obtain ⟨j, hj⟩ := kind?_eq_directory.1 (h.directory (kind?_eq_directory.2 ⟨i, hat⟩))
  exact ⟨j, locate_eq_directory.2 ⟨hf, h.passes hpass, hq, hj⟩⟩

theorem locate_file_of_kind? (h : Persists t u) {c d : ByteArray}
    (hl : t.locate path = .ok (.file p c)) (hd : u.kind? p = some (.file d)) :
    u.locate path = .ok (.file p d) :=
  locate_file_of_passes h.passes hl hd

theorem locate_file (h : Persists t u) {c : ByteArray}
    (hl : t.locate path = .ok (.file p c)) : ∃ d, u.locate path = .ok (.file p d) := by
  obtain ⟨-, -, -, -, hat⟩ := locate_eq_file.1 hl
  obtain ⟨d, hd⟩ := h.file (kind?_eq_file.2 hat)
  exact ⟨d, h.locate_file_of_kind? hl hd⟩

end Persists

theorem hasFile_iff : t.hasFile path = true ↔ ∃ p c, t.locate path = .ok (.file p c) := by
  rw [hasFile]
  split <;> simp_all

theorem readBytes_eq_ok {c : ByteArray} :
    t.readBytes path = .ok c ↔ ∃ p, t.locate path = .ok (.file p c) := by
  rw [readBytes]
  split <;> simp_all

theorem directory?_eq_some {i : Directory} :
    t.directory? path = some i ↔ ∃ p, t.locate path = .ok (.directory p i) := by
  rw [directory?]
  split <;> simp_all

theorem hasEntry_iff : t.hasEntry path = true ↔
    (∃ p i, t.locate path = .ok (.directory p i)) ∨ ∃ p c, t.locate path = .ok (.file p c) := by
  rw [hasEntry]
  split <;> simp_all

theorem hasEntry_of_hasFile (h : t.hasFile path = true) : t.hasEntry path = true :=
  hasEntry_iff.2 (.inr (hasFile_iff.1 h))

theorem kind?_ne_none_of_hasEntry (h : t.hasEntry path = true) : t.kind? (placeOf path) ≠ none := by
  rcases hasEntry_iff.1 h with ⟨p, i, hl⟩ | ⟨p, c, hl⟩
  · obtain ⟨-, -, rfl, hat⟩ := locate_eq_directory.1 hl
    rw [kind?_eq_directory.2 ⟨i, hat⟩]
    exact Option.some_ne_none _
  · obtain ⟨-, -, -, rfl, hat⟩ := locate_eq_file.1 hl
    rw [kind?_eq_file.2 hat]
    exact Option.some_ne_none _

/-- A path from the top leads nowhere. -/
theorem isFromTop_of_hasEntry (h : t.hasEntry path = true) : Path.isFromTop path = false := by
  rcases hasEntry_iff.1 h with ⟨p, i, hl⟩ | ⟨p, c, hl⟩
  · exact (locate_eq_directory.1 hl).1.2.2
  · exact (locate_eq_file.1 hl).1.2.2

theorem Persists.hasFile (h : Persists t u) (hp : t.hasFile path = true) : u.hasFile path = true := by
  obtain ⟨p, c, hl⟩ := hasFile_iff.1 hp
  obtain ⟨d, hd⟩ := h.locate_file hl
  exact hasFile_iff.2 ⟨p, d, hd⟩

theorem Persists.hasEntry (h : Persists t u) (hp : t.hasEntry path = true) :
    u.hasEntry path = true := by
  rw [hasEntry_iff] at hp ⊢
  rcases hp with ⟨p, i, hl⟩ | ⟨p, c, hl⟩
  · obtain ⟨j, hj⟩ := h.locate_directory hl
    exact .inl ⟨p, j, hj⟩
  · obtain ⟨d, hd⟩ := h.locate_file hl
    exact .inr ⟨p, d, hd⟩

/-! ## 2. What changes -/

/-- Whether a tree persists in another that has new directories, and new files or files that hold
something else, at given places alone. -/
structure Grows (files dirs : Place → Prop) (t u : Tree) : Prop extends Persists t u where
  of_file : ∀ {p : Place} {c : ByteArray}, u.kind? p = some (.file c) →
    t.kind? p = some (.file c) ∨ files p
  of_directory : ∀ {p : Place}, u.kind? p = some .directory →
    t.kind? p = some .directory ∨ dirs p

namespace Grows

variable {files dirs : Place → Prop}

theorem refl (files dirs : Place → Prop) (t : Tree) : Grows files dirs t t where
  toPersists := .refl t
  of_file h := .inl h
  of_directory h := .inl h

theorem trans (h : Grows files dirs t u) (k : Grows files dirs u v) : Grows files dirs t v where
  toPersists := h.toPersists.trans k.toPersists
  of_file hp := (k.of_file hp).elim h.of_file .inr
  of_directory hp := (k.of_directory hp).elim h.of_directory .inr

instance : IsPreorder Tree (Grows files dirs) where
  refl := .refl files dirs
  trans _ _ _ := .trans

theorem mono {files' dirs' : Place → Prop} (h : Grows files dirs t u)
    (hf : ∀ p, files p → files' p) (hd : ∀ p, dirs p → dirs' p) : Grows files' dirs' t u where
  toPersists := h.toPersists
  of_file hp := (h.of_file hp).imp_right (hf _)
  of_directory hp := (h.of_directory hp).imp_right (hd _)

/-- Where nothing may be new, everything is as it was. -/
theorem kind?_eq (h : Grows files dirs t u) (hf : ¬ files p) (hd : ¬ dirs p) :
    u.kind? p = t.kind? p := by
  match hu : u.kind? p with
  | none => exact (h.toPersists.eq_none hu).symm
  | some .directory => exact ((h.of_directory hu).resolve_right hd).symm
  | some (.file c) => exact ((h.of_file hu).resolve_right hf).symm

/-- Where no file may be new, whatever there was is there still. -/
theorem kind?_eq_some (h : Grows files dirs t u) (hf : ¬ files p) {k : Kind}
    (hp : t.kind? p = some k) : u.kind? p = some k := by
  cases k with
  | directory => exact h.directory hp
  | file c =>
      obtain ⟨d, hd⟩ := h.file hp
      have hold := (h.of_file hd).resolve_right hf
      rw [hp] at hold
      rw [hd, ← hold]

theorem putFile (h : t.IsOpen p) (hp : files p) (c : ByteArray) :
    Grows files dirs t (t.putFile p c) where
  directory {q} hq := by
    rw [kind?_putFile h, if_neg]
    · exact hq
    · rintro rfl
      obtain ⟨_, _, -, -, hold⟩ := h
      exact hold hq
  file {q d} hq := by
    rw [kind?_putFile h]
    split
    · exact ⟨c, rfl⟩
    · exact ⟨d, hq⟩
  of_file {q d} hq := by
    rw [kind?_putFile h] at hq
    split at hq
    · rename_i he
      exact .inr (he ▸ hp)
    · exact .inl hq
  of_directory {q} hq := by
    rw [kind?_putFile h] at hq
    split at hq
    · cases hq
    · exact .inl hq

theorem putDirectory (h : t.IsOpen p) (hfree : t.kind? p = none) (hp : dirs p) :
    Grows files dirs t (t.putDirectory p) where
  directory {q} hq := by
    rw [kind?_putDirectory h]
    split
    · rfl
    · exact hq
  file {q d} hq := by
    rw [kind?_putDirectory h, if_neg]
    · exact ⟨d, hq⟩
    · rintro rfl
      rw [hfree] at hq
      cases hq
  of_file {q d} hq := by
    rw [kind?_putDirectory h] at hq
    split at hq
    · cases hq
    · exact .inl hq
  of_directory {q} hq := by
    rw [kind?_putDirectory h] at hq
    split at hq
    · rename_i he
      exact .inr (he ▸ hp)
    · exact .inl hq

end Grows

/-- Whether a tree persists in another with the same directories. -/
def Fills (t u : Tree) : Prop :=
  Grows (fun _ => True) (fun _ => False) t u

theorem Grows.fills {files : Place → Prop} (h : Grows files (fun _ => False) t u) : Fills t u :=
  h.mono (fun _ _ => trivial) fun _ h => h

namespace Fills

instance : IsPreorder Tree Fills :=
  inferInstanceAs (IsPreorder Tree (Grows (fun _ => True) (fun _ => False)))

theorem kind?_eq_directory (h : Fills t u) :
    u.kind? p = some .directory ↔ t.kind? p = some .directory :=
  ⟨fun hp => (h.of_directory hp).resolve_right id, h.directory⟩

theorem exists_kind? (h : Fills t u) {k : Kind} (hp : t.kind? p = some k) :
    ∃ l, u.kind? p = some l ∧ l.isDirectory = k.isDirectory := by
  cases k with
  | directory => exact ⟨_, h.directory hp, rfl⟩
  | file c =>
      obtain ⟨d, hd⟩ := h.file hp
      exact ⟨_, hd, rfl⟩

theorem passes_iff (h : Fills t u) : u.Passes p cs ↔ t.Passes p cs := by
  induction cs generalizing p with
  | nil => exact Iff.rfl
  | cons c cs ih =>
      cases c with
      | here => exact ih
      | up => exact ih
      | name n => simp only [Passes, h.kind?_eq_directory, ih]

/-- A path that leads to a file led to it before, if the file was there. -/
theorem locate_file_of_kind? (h : Fills t u) {c d : ByteArray}
    (hl : u.locate path = .ok (.file p c)) (hd : t.kind? p = some (.file d)) :
    t.locate path = .ok (.file p d) :=
  locate_file_of_passes h.passes_iff.1 hl hd

/-- **A path leads to a directory in both trees or in neither.** -/
theorem exists_directory?_iff (h : Fills t u) :
    (∃ i, u.directory? path = some i) ↔ ∃ i, t.directory? path = some i := by
  simp only [directory?_eq_some, locate_eq_directory, h.passes_iff]
  constructor
  · rintro ⟨i, p, hf, hpass, rfl, hat⟩
    obtain ⟨j, hj⟩ := Tree.kind?_eq_directory.1
      (h.kind?_eq_directory.1 (Tree.kind?_eq_directory.2 ⟨i, hat⟩))
    exact ⟨j, _, hf, hpass, rfl, hj⟩
  · rintro ⟨i, p, hf, hpass, rfl, hat⟩
    obtain ⟨j, hj⟩ := Tree.kind?_eq_directory.1
      (h.kind?_eq_directory.2 (Tree.kind?_eq_directory.2 ⟨i, hat⟩))
    exact ⟨j, _, hf, hpass, rfl, hj⟩

theorem hasDirectory_eq (h : Fills t u) : u.hasDirectory path = t.hasDirectory path := by
  rw [Bool.eq_iff_iff, hasDirectory, hasDirectory, Option.isSome_iff_exists,
    Option.isSome_iff_exists]
  exact h.exists_directory?_iff

end Fills

/-! ## 3. Writing -/

/-- A path is not refused if one that is written with more is not. -/
theorem refusal?_of_sublist {path' : String} (h : path'.toList.Sublist path.toList)
    (hp : refusal? path = none) : refusal? path' = none := by
  have hsize := Text.byteSize_le_of_sublist h
  rw [Text.byteSize_toList, Text.byteSize_toList] at hsize
  rw [refusal?] at hp ⊢
  split at hp
  · cases hp
  rename_i hnull
  split at hp
  · cases hp
  rename_i hlong
  rw [List.contains_iff_mem] at hnull
  rw [if_neg, if_neg]
  · exact fun h => hlong (lt_of_lt_of_le h hsize)
  · rw [List.contains_iff_mem]
    exact fun hmem => hnull (h.subset hmem)

theorem isOpen_of_concat {n : Name} (hpass : t.Passes [] cs)
    (h : t.kind? (placeFrom [] cs ++ [n]) ≠ some .directory) :
    t.IsOpen (placeFrom [] cs ++ [n]) :=
  ⟨_, n, rfl, hpass.kind? (kind?_nil t), h⟩

theorem placeOf_concat {n : Name} (h : Path.components path = cs ++ [.name n]) :
    placeOf path = placeFrom [] cs ++ [n] := by
  rw [placeOf, h, placeFrom_append]
  rfl

/-- Whether something can be written to a path: it leads to a file, or to a free place and is not
written like the path of a directory. -/
structure CanWrite (t : Tree) (path : String) : Prop where
  followed : IsFollowed path
  slash : Path.endsInSlash path = false
  way : ∃ ds n, Path.components path = ds ++ [.name n] ∧ t.Passes [] ds ∧
    n.text.utf8ByteSize ≤ maxNameSize
  place : t.kind? (placeOf path) ≠ some .directory

theorem CanWrite.isOpen (h : t.CanWrite path) : t.IsOpen (placeOf path) := by
  obtain ⟨ds, n, hcs, hpass, -⟩ := h.way
  have hplace := h.place
  rw [placeOf_concat hcs] at hplace ⊢
  exact isOpen_of_concat hpass hplace

/-- **What is written is found.** -/
theorem CanWrite.locate_putFile (h : t.CanWrite path) (c : ByteArray) :
    (t.putFile (placeOf path) c).locate path = .ok (.file (placeOf path) c) := by
  obtain ⟨ds, n, hcs, hpass, hn⟩ := h.way
  have hgrows : Grows (fun _ => True) (fun _ => True) t (t.putFile (placeOf path) c) :=
    .putFile h.isOpen trivial c
  refine locate_eq_file.2 ⟨h.followed, h.slash, ⟨ds, n, hcs, hgrows.passes hpass, hn⟩, rfl, ?_⟩
  rw [← kind?_eq_file, kind?_putFile h.isOpen, if_pos rfl]

/-- **What can be written is written at the place of the path.** -/
theorem write_eq_ok {c : ByteArray} :
    t.write path c = .ok u ↔ t.CanWrite path ∧ u = t.putFile (placeOf path) c := by
  rw [write]
  constructor
  · intro h
    split at h
    · rename_i p d hl
      cases h
      obtain ⟨hf, hslash, hway, rfl, hat⟩ := locate_eq_file.1 hl
      exact ⟨⟨hf, hslash, hway, by rw [kind?_eq_file.2 hat]; simp⟩, rfl⟩
    · rename_i p hl
      split at h
      · cases h
      rename_i hslash
      cases h
      obtain ⟨hf, hway, rfl, hat⟩ := locate_eq_free.1 hl
      exact ⟨⟨hf, Bool.eq_false_iff.2 hslash, hway, by rw [kind?_eq_none.2 hat]; simp⟩, rfl⟩
    · cases h
    · cases h
  · rintro ⟨⟨hf, hslash, hway, hplace⟩, rfl⟩
    match hk : t.kind? (placeOf path) with
    | some .directory => exact absurd hk hplace
    | some (.file d) => rw [locate_eq_file.2 ⟨hf, hslash, hway, rfl, kind?_eq_file.1 hk⟩]
    | none =>
        rw [locate_eq_free.2 ⟨hf, hway, rfl, kind?_eq_none.1 hk⟩, hslash]
        rfl

theorem CanWrite.of_isSome {c : ByteArray} (h : (t.write path c).toOption.isSome = true) :
    t.CanWrite path := by
  cases hw : t.write path c with
  | ok u => exact (write_eq_ok.1 hw).1
  | error e =>
      rw [hw] at h
      cases h

/-- What can be written to does not hang on the files that there are. -/
theorem Fills.canWrite_iff (h : Fills t u) : u.CanWrite path ↔ t.CanWrite path := by
  constructor
  · rintro ⟨hf, hslash, ⟨ds, n, hcs, hpass, hn⟩, hplace⟩
    exact ⟨hf, hslash, ⟨ds, n, hcs, h.passes_iff.1 hpass, hn⟩,
      fun hdir => hplace (h.kind?_eq_directory.2 hdir)⟩
  · rintro ⟨hf, hslash, ⟨ds, n, hcs, hpass, hn⟩, hplace⟩
    exact ⟨hf, hslash, ⟨ds, n, hcs, h.passes_iff.2 hpass, hn⟩,
      fun hdir => hplace (h.kind?_eq_directory.1 hdir)⟩

/-- **What can be written to a path can be written to a shorter way of writing it**, unless that is one
of writing a directory. -/
theorem CanWrite.of_shorter {path' : String} (h : t.CanWrite path)
    (hshorter : Path.IsShorter path' path) (hslash : Path.endsInSlash path' = false) :
    t.CanWrite path' := by
  obtain ⟨⟨hrefusal, -, htop⟩, -, ⟨ds, n, hcs, hway⟩, hplace⟩ := h
  rw [← hshorter.components] at hcs
  refine ⟨⟨refusal?_of_sublist hshorter.sublist hrefusal, ?_, by rw [hshorter.isFromTop, htop]⟩,
    hslash, ⟨ds, n, hcs, hway⟩, by rwa [placeOf, hshorter.components]⟩
  rintro rfl
  simp [Path.components_empty] at hcs

/-- A file that can be written to can be read. -/
theorem CanWrite.readBytes {c : ByteArray} (h : t.CanWrite path)
    (hk : t.kind? (placeOf path) = some (.file c)) : t.readBytes path = .ok c :=
  readBytes_eq_ok.2 ⟨_, locate_eq_file.2 ⟨h.followed, h.slash, h.way, rfl, kind?_eq_file.1 hk⟩⟩

theorem CanWrite.of_locate_file {c : ByteArray} (h : t.locate path = .ok (.file p c)) :
    t.CanWrite path := by
  obtain ⟨hf, hslash, hway, rfl, hat⟩ := locate_eq_file.1 h
  exact ⟨hf, hslash, hway, by rw [kind?_eq_file.2 hat]; simp⟩

/-- A path that leads to no entry, and can be written to, leads to a free place. -/
theorem CanWrite.kind?_eq_none (h : t.CanWrite path) (hfree : t.hasEntry path = false) :
    t.kind? (placeOf path) = none := by
  match hk : t.kind? (placeOf path) with
  | none => rfl
  | some .directory => exact absurd hk h.place
  | some (.file c) =>
      rw [hasEntry, locate_eq_file.2 ⟨h.followed, h.slash, h.way, rfl, kind?_eq_file.1 hk⟩] at hfree
      cases hfree

/-! ## 4. Making directories -/

/-- A directory that is asked for is made at its place, if it is not there. -/
theorem of_ensureDirectory (h : t.ensureDirectory cs = .ok u) :
    Grows (fun _ => False) (· = placeFrom [] cs) t u ∧ u.Passes [] cs := by
  rw [ensureDirectory] at h
  split at h
  · rename_i p hl
    cases h
    cases follow_eq_ok.1 hl with
    | @free ds n hcs hpass hn hat =>
        subst hcs
        have hplace : placeFrom [] (ds ++ [.name n]) = placeFrom [] ds ++ [n] := placeFrom_append _ _ _
        rw [hplace] at hat ⊢
        have hopen := isOpen_of_concat hpass (by rw [kind?_eq_none.2 hat]; simp)
        have hgrows : Grows (fun _ => False) (· = placeFrom [] ds ++ [n]) t _ :=
          .putDirectory hopen (kind?_eq_none.2 hat) rfl
        refine ⟨hgrows, passes_append.2 ⟨hgrows.passes hpass, hn, ?_, trivial⟩⟩
        rw [kind?_putDirectory hopen, if_pos rfl]
  · rename_i p i hl
    cases h
    cases follow_eq_ok.1 hl with
    | directory hpass hat => exact ⟨.refl _ _ t, hpass⟩
  · cases h
  · cases h

/-- **Directories are made on the way to the one that is asked for, and nowhere else.** -/
theorem grows_ensureDirectories (t : Tree) (cs : List Component) :
    Grows (fun _ => False) (fun p => ∃ ds, ds <+: cs.reverse ∧ p = placeFrom [] ds) t
      (t.ensureDirectories cs).1 := by
  induction cs with
  | nil => exact .refl _ _ t
  | cons c above ih =>
      have hself {t u : Tree} (h : t.ensureDirectory (c :: above).reverse = .ok u) :
          Grows (fun _ => False) (fun p => ∃ ds, ds <+: (c :: above).reverse ∧ p = placeFrom [] ds)
            t u :=
        (of_ensureDirectory h).1.mono (fun _ h => h) fun p hp => ⟨_, List.prefix_rfl, hp⟩
      have hmono := ih.mono (fun _ h => h) fun p ⟨ds, hds, hp⟩ =>
        (⟨ds, hds.trans (by rw [List.reverse_cons]; exact List.prefix_append _ _), hp⟩ :
          ∃ ds, ds <+: (c :: above).reverse ∧ p = placeFrom [] ds)
      rw [ensureDirectories]
      split
      · rename_i u h
        exact hself h
      · split
        · rename_i u e h
          rw [h] at hmono
          exact hmono
        · rename_i u h
          rw [h] at hmono
          split
          · rename_i v hv
            exact hmono.trans (hself hv)
          · exact hmono
      · exact .refl _ _ t

/-- If nothing goes wrong, the directory that was asked for is there. -/
theorem passes_of_ensureDirectories (t : Tree) (cs : List Component)
    (h : (t.ensureDirectories cs).2 = none) :
    (t.ensureDirectories cs).1.Passes [] cs.reverse := by
  cases cs with
  | nil => trivial
  | cons c above =>
      revert h
      rw [ensureDirectories]
      split
      · rename_i u h
        exact fun _ => (of_ensureDirectory h).2
      · split
        · exact fun h => by cases h
        · split
          · rename_i v hv
            exact fun _ => (of_ensureDirectory hv).2
          · exact fun h => by cases h
      · exact fun h => by cases h

/-- Nothing is made where the directory is there already. -/
theorem ensureDirectories_of_passes (h : t.Passes [] cs.reverse) :
    t.ensureDirectories cs = (t, none) := by
  cases cs with
  | nil => rfl
  | cons c above =>
      obtain ⟨i, hi⟩ := kind?_eq_directory.1 (h.kind? (kind?_nil t))
      have hl : t.follow false (c :: above).reverse [] = .ok (.directory _ i) :=
        follow_eq_ok.2 (.directory h hi)
      rw [ensureDirectories, ensureDirectory, hl]

/-! ## 5. Directories by their paths -/

/-- Whether a place is that of a directory a path names, or of one on the way to it. -/
def IsOnWay (path : String) (p : Place) : Prop :=
  ∃ cs, cs <+: Path.steps path ∧ p = placeFrom [] cs

theorem grows_makeDirectories (t : Tree) (path : String) :
    Grows (fun _ => False) (IsOnWay path) t (t.makeDirectories path).1 := by
  rw [makeDirectories]
  split
  · exact .refl _ _ t
  split
  · exact .refl _ _ t
  · have h := grows_ensureDirectories t (Path.steps path).reverse
    rw [List.reverse_reverse] at h
    exact h

/-- Whether everything that a path names is there already, and is a directory. -/
def HasMade (t : Tree) (path : String) : Prop :=
  refusal? path = none ∧ Path.isFromTop path = false ∧ t.Passes [] (Path.components path)

theorem Persists.hasMade (h : Persists t u) (hp : t.HasMade path) : u.HasMade path :=
  ⟨hp.1, hp.2.1, h.passes hp.2.2⟩

theorem HasMade.kind? (h : t.HasMade path) : t.kind? (placeOf path) = some .directory :=
  h.2.2.kind? (kind?_nil t)

/-- What is on the way to a directory that was made is one. -/
theorem HasMade.kind?_of_isOnWay (h : t.HasMade path) (hp : IsOnWay path p) :
    t.kind? p = some .directory := by
  obtain ⟨cs, ⟨ds, hsteps⟩, rfl⟩ := hp
  have hpass := passes_stepsOf.2 h.2.2
  rw [← Path.steps_eq, ← hsteps] at hpass
  exact (passes_append.1 hpass).1.kind? (kind?_nil t)

theorem hasMade_makeDirectories (h : (t.makeDirectories path).2 = none) :
    (t.makeDirectories path).1.HasMade path := by
  revert h
  rw [makeDirectories]
  cases hr : refusal? path with
  | some e => exact fun h => by cases h
  | none =>
      cases htop : Path.isFromTop path with
      | true => exact fun h => by cases h
      | false =>
          intro h
          have hpass := passes_of_ensureDirectories t (Path.steps path).reverse h
          rw [List.reverse_reverse, Path.steps_eq, passes_stepsOf] at hpass
          rw [← Path.steps_eq] at hpass
          exact ⟨hr, htop, hpass⟩

/-- **Directories that are there are not made again.** -/
theorem makeDirectories_of_hasMade (h : t.HasMade path) : t.makeDirectories path = (t, none) := by
  rw [makeDirectories, h.1, h.2.1]
  refine ensureDirectories_of_passes ?_
  rw [List.reverse_reverse, Path.steps_eq, passes_stepsOf]
  exact h.2.2

/-- Why the directories above an entry are not even looked for. -/
def parentRefusal? (path : String) : Option SystemError :=
  match refusal? (Path.parent path) with
  | some e => some e
  | none => if Path.isFromTop path then some .notFound else none

/-- **Nothing is made above an entry whose directory is there.** -/
theorem makeParents_of_hasMade {dir : String} {n : Name}
    (h : Path.components path = Path.components dir ++ [.name n]) (hdir : t.HasMade dir) :
    t.makeParents path = (t, parentRefusal? path) := by
  rw [makeParents, parentRefusal?]
  cases refusal? (Path.parent path) with
  | some e => rfl
  | none =>
      cases Path.isFromTop path with
      | true => rfl
      | false =>
          show t.ensureDirectories (Path.steps path).reverse.tail = (t, none)
          rw [Path.steps_eq, h, Path.stepsOf_concat_name, List.tail_reverse, List.dropLast_concat]
          refine ensureDirectories_of_passes ?_
          rw [List.reverse_reverse, passes_stepsOf]
          exact hdir.2.2

/-- Growth of a tree in which some directories are there already. -/
def GrowsBelow (made : String → Prop) (files dirs : Place → Prop) (t u : Tree) : Prop :=
  (∀ dir, made dir → t.HasMade dir) → Grows files dirs t u

theorem GrowsBelow.mono {made made' : String → Prop} {files files' dirs dirs' : Place → Prop}
    (h : GrowsBelow made files dirs t u) (hm : ∀ dir, made dir → made' dir)
    (hf : ∀ p, files p → files' p) (hd : ∀ p, dirs p → dirs' p) : GrowsBelow made' files' dirs' t u :=
  fun hmade => (h fun dir hdir => hmade dir (hm dir hdir)).mono hf hd

instance {made : String → Prop} {files dirs : Place → Prop} :
    IsPreorder Tree (GrowsBelow made files dirs) where
  refl t _ := .refl files dirs t
  trans _ _ _ h k hmade :=
    have hfirst := h hmade
    hfirst.trans (k fun dir hdir => hfirst.hasMade (hmade dir hdir))

end Quire.Tree
