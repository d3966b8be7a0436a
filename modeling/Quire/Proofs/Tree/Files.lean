import Quire.Proofs.Tree.Growth

/-!
# Files written one after the other

Of several contents written to one place the last counts (`kind?_putFiles`). So **what was written
can be written again, all of it and in the same order, and in the end nothing has changed**
(`putFiles_self`), although on the way a place that several contents are written to holds others.
-/

namespace Quire.Tree

variable {t : Tree} {p q : Place} {c : ByteArray} {l front back : List (Place × ByteArray)}

theorem isOpen_of_file (h : t.kind? p = some (.file c)) : t.IsOpen p := by
  rcases List.eq_nil_or_concat p with rfl | ⟨q, n, rfl⟩
  · cases h
  · rw [List.concat_eq_append] at h ⊢
    exact ⟨q, n, rfl, kind?_of_append (List.cons_ne_nil n []) (by rw [h]; simp), by rw [h]; simp⟩

/-- A place stays open when a file is written. -/
theorem IsOpen.putFile (hp : t.IsOpen p) (hq : t.IsOpen q) (c : ByteArray) :
    (t.putFile q c).IsOpen p := by
  obtain ⟨r, n, rfl, hdir, hold⟩ := hp
  have hgrows : Grows (fun _ => True) (fun _ => False) t (t.putFile q c) := .putFile hq trivial c
  exact ⟨r, n, rfl, hgrows.directory hdir, fun h => hold ((hgrows.of_directory h).resolve_right id)⟩

/-- The tree with files written one after the other. -/
def putFiles (t : Tree) (l : List (Place × ByteArray)) : Tree :=
  l.foldl (fun t x => t.putFile x.1 x.2) t

theorem putFiles_cons (t : Tree) (x : Place × ByteArray) (l : List (Place × ByteArray)) :
    t.putFiles (x :: l) = (t.putFile x.1 x.2).putFiles l :=
  rfl

theorem putFiles_append (t : Tree) (l m : List (Place × ByteArray)) :
    t.putFiles (l ++ m) = (t.putFiles l).putFiles m :=
  List.foldl_append

theorem grows_putFiles (h : ∀ x ∈ l, t.IsOpen x.1) :
    Grows (fun p => ∃ x ∈ l, p = x.1) (fun _ => False) t (t.putFiles l) := by
  induction l generalizing t with
  | nil => exact .refl _ _ t
  | cons x l ih =>
      rw [List.forall_mem_cons] at h
      have hfirst : Grows (fun p => ∃ y ∈ x :: l, p = y.1) (fun _ => False) t (t.putFile x.1 x.2) :=
        .putFile h.1 ⟨x, List.mem_cons_self, rfl⟩ x.2
      exact hfirst.trans ((ih fun y hy => (h.2 y hy).putFile h.1 x.2).mono
        (fun p ⟨y, hy, hp⟩ => ⟨y, List.mem_cons_of_mem _ hy, hp⟩) fun _ h => h)

/-- **Of several contents written to one place the last counts.** -/
theorem kind?_putFiles (h : ∀ x ∈ front ++ (p, c) :: back, t.IsOpen x.1)
    (hback : ∀ x ∈ back, x.1 ≠ p) :
    (t.putFiles (front ++ (p, c) :: back)).kind? p = some (.file c) := by
  induction front generalizing t with
  | nil =>
      rw [List.nil_append, List.forall_mem_cons] at h
      have hgrows := grows_putFiles fun x hx => (h.2 x hx).putFile h.1 c
      rw [List.nil_append, putFiles_cons, hgrows.kind?_eq _ id, kind?_putFile h.1, if_pos rfl]
      rintro ⟨x, hx, rfl⟩
      exact hback x hx rfl
  | cons x front ih =>
      rw [List.cons_append, List.forall_mem_cons] at h
      rw [List.cons_append, putFiles_cons]
      exact ih fun y hy => (h.2 y hy).putFile h.1 x.2

/-- What a place holds makes no difference if something else is written to it later. -/
theorem putFiles_putFile (h : ∀ x ∈ l, ∃ d, t.kind? x.1 = some (.file d)) (hp : ∃ x ∈ l, x.1 = p)
    (c : ByteArray) : (t.putFile p c).putFiles l = t.putFiles l := by
  induction l generalizing t with
  | nil => simp at hp
  | cons x l ih =>
      obtain ⟨q, b⟩ := x
      rw [List.forall_mem_cons] at h
      obtain ⟨⟨d, hq⟩, hl⟩ := h
      rw [putFiles_cons, putFiles_cons]
      by_cases hpq : q = p
      · rw [hpq, putFile_putFile]
      · obtain ⟨x, hx, rfl⟩ : ∃ x ∈ l, x.1 = p := by
          obtain ⟨x, hx, hxp⟩ := hp
          rcases List.mem_cons.1 hx with rfl | hx
          · exact absurd hxp hpq
          · exact ⟨x, hx, hxp⟩
        obtain ⟨e, hx'⟩ := hl x hx
        have hgrows : Grows (fun _ => True) (fun _ => False) t (t.putFile q b) :=
          .putFile (isOpen_of_file hq) trivial b
        rw [putFile_comm hx' (isOpen_of_file hq) hpq]
        refine ih (fun y hy => ?_) ⟨x, hx, rfl⟩
        obtain ⟨f, hf⟩ := hl y hy
        exact hgrows.file hf

/-- Whatever is written to a place, something is written to it last. -/
theorem exists_last (h : ∃ x ∈ l, x.1 = p) :
    ∃ front c back, l = front ++ (p, c) :: back ∧ ∀ x ∈ back, x.1 ≠ p := by
  induction l with
  | nil => simp at h
  | cons x l ih =>
      by_cases hagain : ∃ x ∈ l, x.1 = p
      · obtain ⟨front, c, back, rfl, hback⟩ := ih hagain
        exact ⟨x :: front, c, back, rfl, hback⟩
      · obtain ⟨y, hy, rfl⟩ := h
        rcases List.mem_cons.1 hy with rfl | hy
        · exact ⟨[], y.2, l, rfl, fun x hx hxp => hagain ⟨x, hx, hxp⟩⟩
        · exact absurd ⟨y, hy, rfl⟩ hagain

/-- **What is there can be written again without a change**: all of it, if every place holds what is
written to it last. -/
theorem putFiles_self (hlast : ∀ front p c back, l = front ++ (p, c) :: back →
    (∀ x ∈ back, x.1 ≠ p) → t.kind? p = some (.file c)) : t.putFiles l = t := by
  induction l with
  | nil => rfl
  | cons x l ih =>
      obtain ⟨p, c⟩ := x
      have hrest : ∀ front q b back, l = front ++ (q, b) :: back → (∀ x ∈ back, x.1 ≠ q) →
          t.kind? q = some (.file b) := fun front q b back hl hback =>
        hlast ((p, c) :: front) q b back (by rw [hl, List.cons_append]) hback
      rw [putFiles_cons]
      by_cases hagain : ∃ x ∈ l, x.1 = p
      · rw [putFiles_putFile (fun x hx => ?_) hagain, ih hrest]
        obtain ⟨front, d, back, hl, hback⟩ := exists_last ⟨x, hx, rfl⟩
        exact ⟨d, hrest front x.1 d back hl hback⟩
      · have hp := hlast [] p c l rfl fun x hx hxp => hagain ⟨x, hx, hxp⟩
        rw [putFile_self hp, ih hrest]

end Quire.Tree
