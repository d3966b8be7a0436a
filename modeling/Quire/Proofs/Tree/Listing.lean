import Mathlib.Data.List.Sort
import Mathlib.Data.String.Basic
import Quire.Proofs.Tree.Place

/-!
# What a directory lists

With distinct names, **what is listed under a name is what is found under it** (`mem_sorted`), so
nothing that is asked of a list in the order of names hangs on how the directory was filled. No place
is longer than the tree is high, and the highest are as long (`height_le`). Nor does **what stands at a
place hang on the order of listing** (`Relisted`, `kind?_of_relisted`).
-/

namespace Quire.Tree

open Quire.Path (Name)

/-- **What is sorted by texts, each once, is strictly in their order.** -/
theorem pairwise_mergeSort_of_nodup {α β : Type} [LinearOrder β] {f : α → β} {le : α → α → Bool}
    (hle : ∀ a b, le a b = true ↔ f a ≤ f b) {l : List α} (hl : (l.map f).Nodup) :
    (l.mergeSort le).Pairwise fun a b => f a < f b := by
  have hsorted : (l.mergeSort le).Pairwise fun a b => le a b = true := by
    refine List.pairwise_mergeSort (fun a b c hab hbc => ?_) (fun a b => ?_) l
    · rw [hle] at hab hbc ⊢
      exact hab.trans hbc
    · rw [Bool.or_eq_true, hle, hle]
      exact le_total _ _
  have hne : (l.mergeSort le).Pairwise fun a b => f a ≠ f b :=
    List.pairwise_map.1 (((List.mergeSort_perm l le).map f).nodup_iff.2 hl)
  exact hsorted.imp₂ (fun a b h hne => lt_of_le_of_ne ((hle a b).1 h) hne) hne

instance : Std.Irrefl fun a b : Name => a.text < b.text where
  irrefl n := lt_irrefl n.text

instance : Std.Antisymm fun a b : Name => a.text < b.text where
  antisymm _ _ h k := absurd h (not_lt_of_gt k)

namespace Directory

variable {d : Directory} {n : Name} {e : Entry}

/-! ## 1. Names and entries -/

theorem mem_names_of_get? (h : d.get? n = some e) : n ∈ d.names := by
  induction d with
  | nil => cases h
  | file m c rest ih =>
      rw [get?] at h
      split at h
      · rename_i he
        exact he ▸ List.mem_cons_self
      · exact List.mem_cons_of_mem _ (ih h)
  | dir m i rest _ ih =>
      rw [get?] at h
      split at h
      · rename_i he
        exact he ▸ List.mem_cons_self
      · exact List.mem_cons_of_mem _ (ih h)

theorem map_fst_entries (d : Directory) : d.entries.map Prod.fst = d.names := by
  induction d with
  | nil => rfl
  | file n c rest ih => rw [entries, names, List.map_cons, ih]
  | dir n i rest _ ih => rw [entries, names, List.map_cons, ih]

theorem Distinct.nodup_names (h : d.Distinct) : d.names.Nodup := by
  induction d with
  | nil => exact List.nodup_nil
  | file n c rest ih => exact List.nodup_cons.2 ⟨h.1, ih h.2⟩
  | dir n i rest _ ih => exact List.nodup_cons.2 ⟨h.1, ih h.2.2⟩

/-- **What is listed under a name is what is found under it.** -/
theorem mem_entries (h : d.Distinct) : (n, e) ∈ d.entries ↔ d.get? n = some e := by
  induction d with
  | nil => simp [entries, get?]
  | file m c rest ih =>
      rw [entries, List.mem_cons, get?, ih h.2, Prod.mk.injEq]
      by_cases hm : m = n
      · subst hm
        have hrest : rest.get? m ≠ some e := fun hg => h.1 (mem_names_of_get? hg)
        simp [hrest, eq_comm]
      · simp [hm, Ne.symm hm]
  | dir m i rest _ ih =>
      rw [entries, List.mem_cons, get?, ih h.2.2, Prod.mk.injEq]
      by_cases hm : m = n
      · subst hm
        have hrest : rest.get? m ≠ some e := fun hg => h.1 (mem_names_of_get? hg)
        simp [hrest, eq_comm]
      · simp [hm, Ne.symm hm]

theorem mem_sorted (h : d.Distinct) : (n, e) ∈ d.sorted ↔ d.get? n = some e := by
  rw [sorted, List.mem_mergeSort, mem_entries h]

/-- **What is listed in the order of names is strictly in it.** -/
theorem Distinct.pairwise_sorted (h : d.Distinct) :
    d.sorted.Pairwise fun a b => a.1.text < b.1.text := by
  refine pairwise_mergeSort_of_nodup (f := fun x : Name × Entry => x.1.text) (fun a b => ?_) ?_
  · rw [Path.Name.lt, Bool.not_eq_true', decide_eq_false_iff_not, not_lt]
  · have hnames := h.nodup_names
    rw [← map_fst_entries] at hnames
    have := hnames.map (f := Name.text) fun _ _ => Path.Name.ext
    rwa [List.map_map] at this

/-! ## 2. Distinct names at places -/

theorem Distinct.at? {p : Place} (h : d.Distinct) (he : d.at? p = some e) : e.Distinct := by
  induction p generalizing d with
  | nil =>
      cases he
      exact h
  | cons n ns ih =>
      rw [at?_cons] at he
      cases hn : d.get? n with
      | none => rw [hn] at he; cases he
      | some f =>
          rw [hn] at he
          have hf := h.get? hn
          cases f with
          | directory i => exact ih hf he
          | file c =>
              cases ns with
              | nil =>
                  cases he
                  exact hf
              | cons m ms => cases he

/-! ## 3. Height -/

theorem length_le_height {p : Place} (h : d.at? p = some e) : p.length ≤ d.height := by
  induction d generalizing p with
  | nil =>
      cases p with
      | nil => exact Nat.zero_le _
      | cons n ns => cases h
  | file m c rest ih =>
      cases p with
      | nil => exact Nat.zero_le _
      | cons n ns =>
          rw [at?_cons, get?] at h
          rw [height]
          split at h
          · cases ns with
            | nil => exact le_max_left _ _
            | cons k ks => cases h
          · rw [← at?_cons] at h
            exact Nat.le_trans (ih h) (Nat.le_max_right _ _)
  | dir m i rest ihi ih =>
      cases p with
      | nil => exact Nat.zero_le _
      | cons n ns =>
          rw [at?_cons, get?] at h
          rw [height]
          split at h
          · exact Nat.le_trans (Nat.succ_le_succ (ihi h)) (Nat.le_max_left _ _)
          · rw [← at?_cons] at h
            exact Nat.le_trans (ih h) (Nat.le_max_right _ _)

theorem at?_eq_none_of_not_mem (h : n ∉ d.names) (ns : Place) : d.at? (n :: ns) = none := by
  rw [at?_cons]
  cases hn : d.get? n with
  | none => rfl
  | some f => exact absurd (mem_names_of_get? hn) h

theorem ne_of_at?_ne_none {m : Name} {ns : Place} (hm : m ∉ d.names)
    (h : d.at? (n :: ns) ≠ none) : m ≠ n := by
  rintro rfl
  exact h (at?_eq_none_of_not_mem hm ns)

/-- A bound for the places is one for the height. -/
theorem height_le {k : Nat} (hd : d.Distinct)
    (h : ∀ p : Place, d.at? p ≠ none → p.length ≤ k) : d.height ≤ k := by
  induction d generalizing k with
  | nil => exact Nat.zero_le _
  | file m c rest ih =>
      refine Nat.max_le.2 ⟨h [m] (by simp [at?_singleton, get?]), ih hd.2 fun p hp => h p ?_⟩
      cases p with
      | nil => simp [at?]
      | cons n ns =>
          rw [at?_cons, get?, if_neg (ne_of_at?_ne_none hd.1 hp), ← at?_cons]
          exact hp
  | dir m i rest ihi ih =>
      have hone : 1 ≤ k := h [m] (by simp [at?_singleton, get?])
      have hinside : i.height ≤ k - 1 := by
        refine ihi hd.2.1 fun p hp => ?_
        have := h (m :: p) (by rw [at?_cons, get?, if_pos rfl]; exact hp)
        rw [List.length_cons] at this
        omega
      refine Nat.max_le.2 ⟨by omega, ih hd.2.2 fun p hp => h p ?_⟩
      cases p with
      | nil => simp [at?]
      | cons n ns =>
          rw [at?_cons, get?, if_neg (ne_of_at?_ne_none hd.1 hp), ← at?_cons]
          exact hp

/-! ## 4. Listing in another order -/

/-- Directories that hold the same, and list it in whatever order, they and all that are below. -/
inductive Relisted : Directory → Directory → Prop
  | nil : Relisted .nil .nil
  | file (n : Name) (c : ByteArray) {d e : Directory} (h : Relisted d e) :
      Relisted (.file n c d) (.file n c e)
  | dir (n : Name) {i j d e : Directory} (hi : Relisted i j) (h : Relisted d e) :
      Relisted (.dir n i d) (.dir n j e)
  | swap (m n : Name) (a b : Entry) (d : Directory) :
      Relisted (cons m a (cons n b d)) (cons n b (cons m a d))
  | trans {d e f : Directory} (h : Relisted d e) (k : Relisted e f) : Relisted d f

namespace Relisted

theorem perm_names {d e : Directory} (h : Relisted d e) : d.names.Perm e.names := by
  induction h with
  | nil => exact .nil
  | file n c _ ih => exact ih.cons n
  | dir n _ _ _ ih => exact ih.cons n
  | swap m n a b d =>
      simp only [names_cons]
      exact .swap n m d.names
  | trans _ _ ih ih' => exact ih.trans ih'

theorem distinct {d e : Directory} (h : Relisted d e) (hd : d.Distinct) : e.Distinct := by
  induction h with
  | nil => exact hd
  | file n c h ih => exact ⟨mt h.perm_names.mem_iff.2 hd.1, ih hd.2⟩
  | dir n hi h ihi ih => exact ⟨mt h.perm_names.mem_iff.2 hd.1, ihi hd.2.1, ih hd.2.2⟩
  | swap m n a b d =>
      simp only [distinct_cons, names_cons, List.mem_cons, not_or] at hd ⊢
      obtain ⟨⟨hmn, hm⟩, ha, hn, hb, hd⟩ := hd
      exact ⟨⟨Ne.symm hmn, hn⟩, hb, hm, ha, hd⟩
  | trans _ _ ih ih' => exact ih' (ih hd)

/-- **What stands at a place does not hang on the order of listing.** -/
theorem kind?_eq {d e : Directory} (h : Relisted d e) (hd : d.Distinct) (p : Place) :
    e.kind? p = d.kind? p := by
  induction h generalizing p with
  | nil => rfl
  | file n c _ ih =>
      cases p with
      | nil => rfl
      | cons m ms =>
          have hrest := ih hd.2 (m :: ms)
          simp only [kind?, at?_cons, get?] at hrest ⊢
          split
          · rfl
          · exact hrest
  | dir n _ _ ihi ih =>
      cases p with
      | nil => rfl
      | cons m ms =>
          have hrest := ih hd.2.2 (m :: ms)
          simp only [kind?, at?_cons, get?] at hrest ⊢
          split
          · exact ihi hd.2.1 ms
          · exact hrest
  | swap m n a b d =>
      cases p with
      | nil => rfl
      | cons k ks =>
          have hmn : m ≠ n := fun heq =>
            (distinct_cons.1 hd).1 (by rw [names_cons, heq]; exact List.mem_cons_self)
          simp only [kind?, at?_cons, get?_cons]
          by_cases hk : m = k
          · rw [if_neg (hk ▸ Ne.symm hmn), if_pos hk, if_pos hk]
          · rw [if_neg hk, if_neg hk]
  | trans h _ ih ih' => rw [ih' (h.distinct hd), ih hd]

end Relisted

end Directory

/-- Trees that list the same in another order have the same at each place. -/
theorem kind?_of_relisted {t u : Tree} (h : t.top.Relisted u.top) (p : Place) :
    u.kind? p = t.kind? p :=
  h.kind?_eq t.distinct p

/-- No place is longer than the tree is high. -/
theorem length_le_height_of_kind? {t : Tree} {p : Place} {k : Kind} (h : t.kind? p = some k) :
    p.length ≤ t.height := by
  rw [kind?, Directory.kind?, Option.map_eq_some_iff] at h
  obtain ⟨e, he, -⟩ := h
  exact Directory.length_le_height he

end Quire.Tree
