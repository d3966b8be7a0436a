import Quire.Path.Name

/-!
# Directories

A directory is the list of its entries, each a file with its content or a directory again, in the
order in which they are listed. Nothing hangs on that order: an entry is known by its name. **An
entry that is put is found under its name, and under every other name is found what was found
before** (`get?_put`). No two entries of a directory have one name (`Distinct`), and neither putting
nor erasing changes that.
-/

namespace Quire.Tree

open Quire.Path (Name)

/-! ## 1. Directories and their entries -/

/-- What a directory holds: a list of named files and directories. -/
inductive Directory where
  | nil
  | file (name : Name) (content : ByteArray) (rest : Directory)
  | dir (name : Name) (inside rest : Directory)

instance : Inhabited Directory := ⟨.nil⟩

/-- What a name stands for. -/
inductive Entry where
  | file (content : ByteArray)
  | directory (inside : Directory)

/-- Whether an entry is a directory. -/
def Entry.isDirectory : Entry → Bool
  | file _ => false
  | directory _ => true

namespace Directory

/-- The entry with a name. -/
def get? (name : Name) : Directory → Option Entry
  | nil => none
  | file n c rest => if n = name then some (.file c) else rest.get? name
  | dir n i rest => if n = name then some (.directory i) else rest.get? name

/-- An entry under a name, before others. -/
def cons (name : Name) : Entry → Directory → Directory
  | .file c, rest => file name c rest
  | .directory i, rest => dir name i rest

/-- The directory with an entry put under a name: in the place of the one that has it, or last. -/
def put (name : Name) (e : Entry) : Directory → Directory
  | nil => cons name e nil
  | file n c rest => if n = name then cons name e rest else file n c (rest.put name e)
  | dir n i rest => if n = name then cons name e rest else dir n i (rest.put name e)

/-- The directory without the entry that has a name. -/
def erase (name : Name) : Directory → Directory
  | nil => nil
  | file n c rest => if n = name then rest else file n c (rest.erase name)
  | dir n i rest => if n = name then rest else dir n i (rest.erase name)

/-- The entries with their names, as they are listed. -/
def entries : Directory → List (Name × Entry)
  | nil => []
  | file n c rest => (n, .file c) :: rest.entries
  | dir n i rest => (n, .directory i) :: rest.entries

/-- The names, as they are listed. -/
def names : Directory → List Name
  | nil => []
  | file n _ rest => n :: rest.names
  | dir n _ rest => n :: rest.names

/-- The entries with their names, in the order of the names. -/
def sorted (d : Directory) : List (Name × Entry) :=
  d.entries.mergeSort fun a b => !b.1.lt a.1

/-- How many names the longest way down takes. -/
def height : Directory → Nat
  | nil => 0
  | file _ _ rest => max 1 rest.height
  | dir _ i rest => max (i.height + 1) rest.height

/-! ## 2. Looking up what was put -/

@[simp] theorem get?_cons (name m : Name) (e : Entry) (d : Directory) :
    (cons name e d).get? m = if name = m then some e else d.get? m := by
  cases e <;> rfl

@[simp] theorem names_cons (name : Name) (e : Entry) (d : Directory) :
    (cons name e d).names = name :: d.names := by
  cases e <;> rfl

/-- **An entry that is put is found, and every other is found as before.** -/
theorem get?_put (name m : Name) (e : Entry) (d : Directory) :
    (d.put name e).get? m = if name = m then some e else d.get? m := by
  induction d with
  | nil => simp [put]
  | file n c rest ih =>
    unfold put
    by_cases h : n = name
    · subst h; by_cases hm : n = m <;> simp [get?, hm]
    · by_cases hm : n = m
      · subst hm; simp [get?, h, Ne.symm h]
      · simp [get?, h, hm, ih]
  | dir n i rest _ ih =>
    unfold put
    by_cases h : n = name
    · subst h; by_cases hm : n = m <;> simp [get?, hm]
    · by_cases hm : n = m
      · subst hm; simp [get?, h, Ne.symm h]
      · simp [get?, h, hm, ih]

/-- Putting a name adds at most that name. -/
theorem mem_names_put {name m : Name} {e : Entry} {d : Directory} :
    m ∈ (d.put name e).names ↔ m = name ∨ m ∈ d.names := by
  induction d with
  | nil => simp [put, names]
  | file n c rest ih =>
    unfold put
    by_cases h : n = name
    · subst h; simp [names]
    · simp only [h, if_false, names, List.mem_cons, ih]; grind
  | dir n i rest _ ih =>
    unfold put
    by_cases h : n = name
    · subst h; simp [names]
    · simp only [h, if_false, names, List.mem_cons, ih]; grind

/-- Erasing leaves only names that were there. -/
theorem mem_names_of_erase {name m : Name} {d : Directory} (h : m ∈ (d.erase name).names) :
    m ∈ d.names := by
  induction d with
  | nil => exact h
  | file n c rest ih =>
    unfold erase at h
    split at h
    · exact List.mem_cons_of_mem _ h
    · simp only [names, List.mem_cons] at h ⊢
      exact h.imp id ih
  | dir n i rest _ ih =>
    unfold erase at h
    split at h
    · exact List.mem_cons_of_mem _ h
    · simp only [names, List.mem_cons] at h ⊢
      exact h.imp id ih

/-! ## 3. Distinct names -/

/-- Whether in a directory, and in all below it, no two entries have one name. -/
def Distinct : Directory → Prop
  | nil => True
  | file n _ rest => n ∉ rest.names ∧ rest.Distinct
  | dir n i rest => n ∉ rest.names ∧ i.Distinct ∧ rest.Distinct

end Directory

/-- Whether an entry, if it is a directory, has distinct names. -/
def Entry.Distinct : Entry → Prop
  | file _ => True
  | directory i => i.Distinct

namespace Directory

theorem distinct_cons {name : Name} {e : Entry} {d : Directory} :
    (cons name e d).Distinct ↔ name ∉ d.names ∧ e.Distinct ∧ d.Distinct := by
  cases e <;> simp [cons, Distinct, Entry.Distinct]

/-- What is found in a directory with distinct names has distinct names. -/
theorem Distinct.get? {name : Name} {e : Entry} {d : Directory} (h : d.Distinct)
    (he : d.get? name = some e) : e.Distinct := by
  induction d with
  | nil => simp [Directory.get?] at he
  | file n c rest ih =>
    unfold Directory.get? at he
    split at he
    · cases he; trivial
    · exact ih h.2 he
  | dir n i rest _ ih =>
    unfold Directory.get? at he
    split at he
    · cases he; exact h.2.1
    · exact ih h.2.2 he

/-- Putting an entry keeps names distinct. -/
theorem Distinct.put {name : Name} {e : Entry} {d : Directory} (h : d.Distinct)
    (he : e.Distinct) : (d.put name e).Distinct := by
  induction d with
  | nil => exact distinct_cons.2 ⟨by simp [names], he, trivial⟩
  | file n c rest ih =>
    unfold Directory.put
    split
    · rename_i hn
      exact distinct_cons.2 ⟨hn ▸ h.1, he, h.2⟩
    · rename_i hn
      refine ⟨fun hm => ?_, ih h.2⟩
      rcases mem_names_put.1 hm with hm | hm
      · exact hn hm
      · exact h.1 hm
  | dir n i rest _ ih =>
    unfold Directory.put
    split
    · rename_i hn
      exact distinct_cons.2 ⟨hn ▸ h.1, he, h.2.2⟩
    · rename_i hn
      refine ⟨fun hm => ?_, h.2.1, ih h.2.2⟩
      rcases mem_names_put.1 hm with hm | hm
      · exact hn hm
      · exact h.1 hm

/-- Erasing an entry keeps names distinct. -/
theorem Distinct.erase {name : Name} {d : Directory} (h : d.Distinct) :
    (d.erase name).Distinct := by
  induction d with
  | nil => trivial
  | file n c rest ih =>
    unfold Directory.erase
    split
    · exact h.2
    · exact ⟨fun hm => h.1 (mem_names_of_erase hm), ih h.2⟩
  | dir n i rest _ ih =>
    unfold Directory.erase
    split
    · exact h.2.2
    · exact ⟨fun hm => h.1 (mem_names_of_erase hm), h.2.1, ih h.2.2⟩

end Directory

end Quire.Tree
