import Mathlib.Data.List.Forall2
import Quire.Proofs.Workspace

/-!
# Work that goes alike on two trees

Two actions go alike if from related trees both answer or both fail, with related answers or failures,
and leave related trees (`Alike`). What is in the journals makes no difference. **Actions that are made
up alike of parts that go alike go alike** (`Alike.bind`, `alike_foldlM`), so a relation between trees
has to be looked at only where a tree is asked or changed.
-/

namespace Quire

variable {ε δ α β : Type}

/-! ## 1. Outcomes -/

/-- Whether two outcomes are two answers or two failures, and these are related. -/
inductive Agree (E : ε → δ → Prop) (A : α → β → Prop) : Except ε α → Except δ β → Prop
  | ok {x : α} {y : β} : A x y → Agree E A (.ok x) (.ok y)
  | error {e : ε} {f : δ} : E e f → Agree E A (.error e) (.error f)

/-! ## 2. Actions -/

namespace Action

variable {R : Tree → Tree → Prop} {E : ε → δ → Prop} {A : α → β → Prop}

/-- Whether two actions, on related trees, come to outcomes that agree and leave related trees. -/
def Alike (R : Tree → Tree → Prop) (E : ε → δ → Prop) (A : α → β → Prop) (a : Action ε α)
    (b : Action δ β) : Prop :=
  ∀ v w : Workspace, R v.tree w.tree →
    Agree E A (a.runOn v).1 (b.runOn w).1 ∧ R (a.runOn v).2.tree (b.runOn w).2.tree

theorem alike_pure {x : α} {y : β} (h : A x y) : Alike R E A (pure x) (pure y) :=
  fun _ _ hR => ⟨.ok h, hR⟩

theorem alike_throw {e : ε} {f : δ} (h : E e f) : Alike R E A (throw e) (throw f) :=
  fun _ _ hR => ⟨.error h, hR⟩

theorem alike_tree : Alike R E R (tree : Action ε Tree) (tree : Action δ Tree) :=
  fun _ _ hR => ⟨.ok hR, hR⟩

theorem alike_note (n m : Notice) : Alike R E Eq (note n : Action ε Unit) (note m : Action δ Unit) :=
  fun _ _ hR => ⟨.ok rfl, hR⟩

theorem alike_ask {q : Tree → Except ε α} {r : Tree → Except δ β}
    (h : ∀ t u, R t u → Agree E A (q t) (r u)) : Alike R E A (ask q) (ask r) := by
  intro v w hR
  rw [runOn_ask, runOn_ask]
  exact ⟨h _ _ hR, hR⟩

theorem alike_change {f : Tree → Except ε Tree} {g : Tree → Except δ Tree}
    (h : ∀ t u, R t u → Agree E R (f t) (g u)) : Alike R E Eq (change f) (change g) := by
  intro v w hR
  have hfg := h _ _ hR
  rw [runOn_change, runOn_change]
  generalize f v.tree = r at hfg
  generalize g w.tree = s at hfg
  cases hfg with
  | ok h => exact ⟨.ok rfl, h⟩
  | error h => exact ⟨.error h, hR⟩

theorem alike_changeStepwise {f : Tree → Tree × Option ε} {g : Tree → Tree × Option ε}
    (h : ∀ t u, R t u → (f t).2 = (g u).2 ∧ R (f t).1 (g u).1) :
    Alike R Eq Eq (changeStepwise f) (changeStepwise g) := by
  intro v w hR
  obtain ⟨hcause, hR'⟩ := h _ _ hR
  rw [runOn_changeStepwise, runOn_changeStepwise, hcause]
  cases (g w.tree).2 with
  | none => exact ⟨.ok rfl, hR'⟩
  | some e => exact ⟨.error rfl, hR'⟩

theorem Alike.onFailure {ε' δ' : Type} {E' : ε' → δ' → Prop} {a : Action ε α} {b : Action δ β}
    {f : ε → ε'} {g : δ → δ'} (h : Alike R E A a b) (hE : ∀ e e', E e e' → E' (f e) (g e')) :
    Alike R E' A (Action.onFailure a f) (Action.onFailure b g) := by
  intro v w hR
  obtain ⟨hagree, hR'⟩ := h v w hR
  rw [runOn_onFailure, runOn_onFailure]
  generalize a.runOn v = r at hagree hR'
  generalize b.runOn w = s at hagree hR'
  obtain ⟨r, v'⟩ := r
  obtain ⟨s, w'⟩ := s
  cases hagree with
  | ok h => exact ⟨.ok h, hR'⟩
  | error h => exact ⟨.error (hE _ _ h), hR'⟩

/-- Two actions that go alike on one tree go so among trees that one of them stays in. -/
theorem Alike.and_keeps {S : Tree → Tree → Prop} [IsPreorder Tree S] {t : Tree} {a : Action ε α}
    {b : Action δ β} (h : Alike Eq E A a b) (hkeeps : Keeps S a) :
    Alike (fun u v => u = v ∧ S t u) E A a b := by
  rintro v w ⟨htree, hS⟩
  obtain ⟨hagree, htree'⟩ := h v w htree
  exact ⟨hagree, htree', trans_of S hS (hkeeps v)⟩

variable {α' β' : Type} {B : α' → β' → Prop}

/-- **Two pairs of actions that each go alike go alike one after the other.** -/
theorem Alike.bind {a : Action ε α} {b : Action δ β} {f : α → Action ε α'} {g : β → Action δ β'}
    (h : Alike R E A a b) (hfg : ∀ x y, A x y → Alike R E B (f x) (g y)) :
    Alike R E B (a >>= f) (b >>= g) := by
  intro v w hR
  obtain ⟨hagree, hR'⟩ := h v w hR
  rw [runOn_bind, runOn_bind]
  generalize a.runOn v = r at hagree hR'
  generalize b.runOn w = s at hagree hR'
  obtain ⟨r, v'⟩ := r
  obtain ⟨s, w'⟩ := s
  cases hagree with
  | ok h => exact hfg _ _ h v' w' hR'
  | error h => exact ⟨.error h, hR'⟩

theorem alike_forM {P : α' → β' → Prop} {l : List α'} {k : List β'} {f : α' → Action ε Unit}
    {g : β' → Action δ Unit} (hl : List.Forall₂ P l k) (h : ∀ i j, P i j → Alike R E Eq (f i) (g j)) :
    Alike R E Eq (l.forM f) (k.forM g) := by
  induction hl with
  | nil => exact alike_pure rfl
  | cons hij _ ih => exact (h _ _ hij).bind fun _ _ _ => ih

/-- **Two loops go alike if their rounds do.** -/
theorem alike_foldlM {P : α' → β' → Prop} {l : List α'} {k : List β'} {f : α → α' → Action ε α}
    {g : β → β' → Action δ β} (hl : List.Forall₂ P l k)
    (h : ∀ i j, P i j → ∀ x y, A x y → Alike R E A (f x i) (g y j)) {x : α} {y : β} (hxy : A x y) :
    Alike R E A (l.foldlM f x) (k.foldlM g y) := by
  induction hl generalizing x y with
  | nil => exact alike_pure hxy
  | cons hij _ ih =>
      rw [List.foldlM_cons, List.foldlM_cons]
      exact (h _ _ hij _ _ hxy).bind fun _ _ => ih

end Action

end Quire
