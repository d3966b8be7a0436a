import Mathlib.Order.Defs.Unbundled
import Quire.Workspace

/-!
# What work does to a tree

An action is judged by the tree before and the tree after it. `Keeps R` says that the two are related
by `R` whether the action succeeds or fails; an action keeps a preorder if its parts do. `Gives` says
that an action succeeds on a tree, with which answer, and which tree it leaves; what is in the
journal makes no difference to it. The other way round, an action that succeeded is taken apart into
parts that succeeded (`bind_eq_ok`).
-/

namespace Quire.Action

variable {ε δ α β : Type}

/-! ## 1. Running -/

theorem runOn_bind (a : Action ε α) (f : α → Action ε β) (w : Workspace) :
    (a >>= f).runOn w =
      match a.runOn w with
      | (.ok x, v) => (f x).runOn v
      | (.error e, v) => (.error e, v) := by
  show (ExceptT.bindCont f (a.runOn w).1).run (a.runOn w).2 = _
  rcases a.runOn w with ⟨e | x, v⟩ <;> rfl

theorem runOn_tree (w : Workspace) : (tree : Action ε Tree).runOn w = (.ok w.tree, w) := rfl

theorem runOn_ask (q : Tree → Except ε α) (w : Workspace) : (ask q).runOn w = (q w.tree, w) := by
  rw [ask, runOn_bind, runOn_tree]
  dsimp only
  cases q w.tree <;> rfl

theorem runOn_change (f : Tree → Except ε Tree) (w : Workspace) :
    (change f).runOn w =
      match f w.tree with
      | .ok t => (.ok (), { w with tree := t })
      | .error e => (.error e, w) := by
  rw [change, runOn_bind, runOn_tree]
  dsimp only
  cases f w.tree <;> rfl

theorem runOn_changeStepwise (f : Tree → Tree × Option ε) (w : Workspace) :
    (changeStepwise f).runOn w =
      ((match (f w.tree).2 with
        | none => .ok ()
        | some e => .error e), { w with tree := (f w.tree).1 }) := by
  rw [changeStepwise, runOn_bind, runOn_tree]
  dsimp only
  rcases f w.tree with ⟨t, _ | e⟩ <;> rfl

theorem runOn_onFailure (a : Action ε α) (f : ε → δ) (w : Workspace) :
    (onFailure a f).runOn w =
      match a.runOn w with
      | (.ok x, v) => (.ok x, v)
      | (.error e, v) => (.error (f e), v) := by
  show (ExceptT.run (ExceptT.adapt f a)).run w = _
  rw [ExceptT.run_adapt, StateT.run_map]
  show ((a.runOn w).1.mapError f, (a.runOn w).2) = _
  rcases a.runOn w with ⟨e | x, v⟩ <;> rfl

theorem onFailure_snd (a : Action ε α) (f : ε → δ) (w : Workspace) :
    ((onFailure a f).runOn w).2 = (a.runOn w).2 := by
  rw [runOn_onFailure]
  rcases a.runOn w with ⟨e | x, v⟩ <;> rfl

/-! ## 2. What is kept -/

/-- Whether the trees before and after an action are related, also when it fails. -/
def Keeps (R : Tree → Tree → Prop) (a : Action ε α) : Prop :=
  ∀ w : Workspace, R w.tree (a.runOn w).2.tree

section Keeps

variable {R : Tree → Tree → Prop}

theorem Keeps.mono {S : Tree → Tree → Prop} {a : Action ε α} (h : Keeps R a)
    (hRS : ∀ t u, R t u → S t u) : Keeps S a :=
  fun w => hRS _ _ (h w)

theorem Keeps.onFailure {a : Action ε α} (h : Keeps R a) (f : ε → δ) :
    Keeps R (Action.onFailure a f) := by
  intro w
  rw [onFailure_snd]
  exact h w

theorem keeps_changeStepwise {f : Tree → Tree × Option ε} (h : ∀ t, R t (f t).1) :
    Keeps R (changeStepwise f) := by
  intro w
  rw [runOn_changeStepwise]
  exact h w.tree

variable [IsPreorder Tree R]

theorem keeps_pure (x : α) : Keeps R (pure x : Action ε α) :=
  fun w => refl_of R w.tree

theorem keeps_throw (e : ε) : Keeps R (throw e : Action ε α) :=
  fun w => refl_of R w.tree

theorem keeps_tree : Keeps R (tree : Action ε Tree) :=
  fun w => refl_of R w.tree

theorem keeps_note (n : Notice) : Keeps R (note n : Action ε Unit) :=
  fun w => refl_of R w.tree

theorem keeps_ask (q : Tree → Except ε α) : Keeps R (ask q) := by
  intro w
  rw [runOn_ask]
  exact refl_of R w.tree

theorem keeps_change {f : Tree → Except ε Tree} (h : ∀ t u, f t = .ok u → R t u) :
    Keeps R (change f) := by
  intro w
  rw [runOn_change]
  cases hf : f w.tree with
  | error e => exact refl_of R w.tree
  | ok t => exact h _ _ hf

/-- **What two actions keep is kept by one after the other.** -/
theorem Keeps.bind {a : Action ε α} {f : α → Action ε β} (ha : Keeps R a)
    (hf : ∀ x, Keeps R (f x)) : Keeps R (a >>= f) := by
  intro w
  have h := ha w
  rw [runOn_bind]
  rcases hrun : a.runOn w with ⟨e | x, v⟩
  · rw [hrun] at h
    exact h
  · rw [hrun] at h
    exact trans_of R h (hf x v)

theorem keeps_forM {β : Type} {f : β → Action ε Unit} {l : List β} (h : ∀ x ∈ l, Keeps R (f x)) :
    Keeps R (l.forM f) := by
  induction l with
  | nil => exact keeps_pure ()
  | cons x l ih =>
      rw [List.forall_mem_cons] at h
      exact h.1.bind fun _ => ih h.2

theorem keeps_foldlM {β : Type} {f : α → β → Action ε α} {l : List β}
    (h : ∀ x ∈ l, ∀ b, Keeps R (f b x)) (b : α) : Keeps R (l.foldlM f b) := by
  induction l generalizing b with
  | nil => exact keeps_pure b
  | cons x l ih =>
      rw [List.forall_mem_cons] at h
      rw [List.foldlM_cons]
      exact (h.1 b).bind fun c => ih h.2 c

/-- Two loops run alike if their rounds do on all trees that the first may come to. -/
theorem runOn_foldlM_congr {β : Type} {f g : α → β → Action ε α} {l : List β} {t : Tree}
    (hf : ∀ x ∈ l, ∀ b, Keeps R (f b x))
    (h : ∀ x ∈ l, ∀ b (w : Workspace), R t w.tree → (f b x).runOn w = (g b x).runOn w) (b : α)
    {w : Workspace} (hw : R t w.tree) : (l.foldlM f b).runOn w = (l.foldlM g b).runOn w := by
  induction l generalizing b w with
  | nil => rfl
  | cons x l ih =>
      rw [List.forall_mem_cons] at hf h
      have hkept := hf.1 b w
      rw [List.foldlM_cons, List.foldlM_cons, runOn_bind, runOn_bind, ← h.1 b w hw]
      rcases hrun : (f b x).runOn w with ⟨e | c, v⟩
      · rfl
      · rw [hrun] at hkept
        exact ih hf.2 h.2 c (trans_of R hw hkept)

end Keeps

/-- Whether the trees before and after an action are related if a tree is still ahead of the one
after it. -/
def KeepsUpTo (Q : Tree → Tree → Prop) (s : Tree) (R : Tree → Tree → Prop) (a : Action ε α) : Prop :=
  ∀ w : Workspace, Q (a.runOn w).2.tree s → R w.tree (a.runOn w).2.tree

section KeepsUpTo

variable {Q R : Tree → Tree → Prop} {s : Tree}

theorem Keeps.upTo {a : Action ε α} (h : Keeps R a) (Q : Tree → Tree → Prop) (s : Tree) :
    KeepsUpTo Q s R a :=
  fun w _ => h w

variable [IsPreorder Tree Q] [IsPreorder Tree R]

/-- What is ahead of the tree after both of two actions is ahead of the one between them. -/
theorem KeepsUpTo.bind {a : Action ε α} {f : α → Action ε β} (ha : KeepsUpTo Q s R a)
    (hQ : ∀ x, Keeps Q (f x)) (hf : ∀ x, KeepsUpTo Q s R (f x)) : KeepsUpTo Q s R (a >>= f) := by
  intro w
  have h := ha w
  rw [runOn_bind]
  rcases hrun : a.runOn w with ⟨e | x, v⟩
  · rw [hrun] at h
    exact h
  · rw [hrun] at h
    intro hs
    exact trans_of R (h (trans_of Q (hQ x v) hs)) (hf x v hs)

theorem keepsUpTo_foldlM {β : Type} {f : α → β → Action ε α} {l : List β}
    (hQ : ∀ x ∈ l, ∀ b, Keeps Q (f b x)) (h : ∀ x ∈ l, ∀ b, KeepsUpTo Q s R (f b x)) (b : α) :
    KeepsUpTo Q s R (l.foldlM f b) := by
  induction l generalizing b with
  | nil => exact (keeps_pure b).upTo Q s
  | cons x l ih =>
      rw [List.forall_mem_cons] at h hQ
      rw [List.foldlM_cons]
      exact (h.1 b).bind (fun c => keeps_foldlM hQ.2 c) fun c => ih hQ.2 h.2 c

end KeepsUpTo

/-! ## 3. Success -/

variable {w v : Workspace} {x : α} {y : β}

/-- An action that answers succeeds. -/
theorem runOn_eq_of_toOption {a : Action ε α} {w : Workspace} {x : α}
    (h : (a.runOn w).1.toOption = some x) : a.runOn w = (.ok x, (a.runOn w).2) := by
  generalize a.runOn w = r at h
  obtain ⟨e | y, v⟩ := r
  · cases h
  · cases h
    rfl

/-- **Two actions one after the other succeed if both do.** -/
theorem bind_eq_ok {a : Action ε α} {f : α → Action ε β} :
    (a >>= f).runOn w = (.ok y, v) ↔
      ∃ x u, a.runOn w = (.ok x, u) ∧ (f x).runOn u = (.ok y, v) := by
  rw [runOn_bind]
  rcases a.runOn w with ⟨e | x, u⟩
  · simp
  · refine ⟨fun h => ⟨x, u, rfl, h⟩, ?_⟩
    rintro ⟨_, _, h, hf⟩
    cases h
    exact hf

theorem onFailure_eq_ok {a : Action ε α} {f : ε → δ} :
    (onFailure a f).runOn w = (.ok x, v) ↔ a.runOn w = (.ok x, v) := by
  rw [runOn_onFailure]
  rcases a.runOn w with ⟨e | x, u⟩ <;> simp

theorem ask_eq_ok {q : Tree → Except ε α} :
    (ask q).runOn w = (.ok x, v) ↔ q w.tree = .ok x ∧ v = w := by
  rw [runOn_ask, Prod.mk.injEq, eq_comm (a := w)]

theorem change_eq_ok {f : Tree → Except ε Tree} {x : Unit} :
    (change f).runOn w = (.ok x, v) ↔ ∃ t, f w.tree = .ok t ∧ v = { w with tree := t } := by
  rw [runOn_change]
  cases f w.tree <;> simp [eq_comm]

theorem changeStepwise_eq_ok {f : Tree → Tree × Option ε} {x : Unit} :
    (changeStepwise f).runOn w = (.ok x, v) ↔
      (f w.tree).2 = none ∧ v = { w with tree := (f w.tree).1 } := by
  rw [runOn_changeStepwise]
  cases (f w.tree).2 <;> simp [eq_comm]

/-- Everything in a list has its turn if all goes well. -/
theorem exists_of_foldlM_eq_ok {Q : Tree → Tree → Prop} [IsPreorder Tree Q]
    {f : α → β → Action ε α} {l : List β} (hQ : ∀ x ∈ l, ∀ b, Keeps Q (f b x)) {b c : α}
    (h : (l.foldlM f b).runOn w = (.ok c, v)) {x : β} (hx : x ∈ l) :
    ∃ b' c' w' v', (f b' x).runOn w' = (.ok c', v') ∧ Q w.tree w'.tree ∧ Q v'.tree v.tree := by
  induction l generalizing b w with
  | nil => cases hx
  | cons y l ih =>
      rw [List.forall_mem_cons] at hQ
      rw [List.foldlM_cons, bind_eq_ok] at h
      obtain ⟨d, u, hy, hl⟩ := h
      have hfirst := hQ.1 b w
      rw [hy] at hfirst
      rcases List.mem_cons.1 hx with rfl | hx
      · have hrest := keeps_foldlM hQ.2 d u
        rw [hl] at hrest
        exact ⟨b, d, w, u, hy, refl_of Q w.tree, hrest⟩
      · obtain ⟨b', c', w', v', hrun, hw, hv⟩ := ih hQ.2 hl hx
        exact ⟨b', c', w', v', hrun, trans_of Q hfirst hw, hv⟩

theorem exists_of_forM_eq_ok {Q : Tree → Tree → Prop} [IsPreorder Tree Q] {f : β → Action ε Unit}
    {l : List β} (hQ : ∀ x ∈ l, Keeps Q (f x)) (h : (l.forM f).runOn w = (.ok (), v)) {x : β}
    (hx : x ∈ l) :
    ∃ w' v', (f x).runOn w' = (.ok (), v') ∧ Q w.tree w'.tree ∧ Q v'.tree v.tree := by
  induction l generalizing w with
  | nil => cases hx
  | cons y l ih =>
      rw [List.forall_mem_cons] at hQ
      rw [List.forM, bind_eq_ok] at h
      obtain ⟨_, u, hy, hl⟩ := h
      have hfirst := hQ.1 w
      rw [hy] at hfirst
      rcases List.mem_cons.1 hx with rfl | hx
      · have hrest := keeps_forM hQ.2 u
        rw [hl] at hrest
        exact ⟨w, u, hy, refl_of Q w.tree, hrest⟩
      · obtain ⟨w', v', hrun, hw, hv⟩ := ih hQ.2 hl hx
        exact ⟨w', v', hrun, trans_of Q hfirst hw, hv⟩

/-- Whether an action succeeds on a tree, whatever is in the journal, with an answer and a tree that
it leaves. -/
def Gives (a : Action ε α) (t : Tree) (x : α) (u : Tree) : Prop :=
  ∀ w : Workspace, w.tree = t → ∃ v, a.runOn w = (.ok x, v) ∧ v.tree = u

section Gives

variable {t u s : Tree}

theorem gives_pure (x : α) (t : Tree) : Gives (pure x : Action ε α) t x t :=
  fun w hw => ⟨w, rfl, hw⟩

theorem gives_note (n : Notice) (t : Tree) : Gives (note n : Action ε Unit) t () t :=
  fun _ hw => ⟨_, rfl, hw⟩

theorem gives_tree (t : Tree) : Gives (tree : Action ε Tree) t t t := by
  rintro w rfl
  exact ⟨w, rfl, rfl⟩

theorem gives_ask {q : Tree → Except ε α} (h : q t = .ok x) : Gives (ask q) t x t := by
  rintro w rfl
  exact ⟨w, by rw [runOn_ask, h], rfl⟩

theorem gives_change {f : Tree → Except ε Tree} (h : f t = .ok u) : Gives (change f) t () u := by
  rintro w rfl
  exact ⟨{ w with tree := u }, by rw [runOn_change, h], rfl⟩

theorem gives_changeStepwise {f : Tree → Tree × Option ε} (h : f t = (u, none)) :
    Gives (changeStepwise f) t () u := by
  rintro w rfl
  exact ⟨{ w with tree := u }, by rw [runOn_changeStepwise, h], rfl⟩

theorem Gives.onFailure {a : Action ε α} (h : Gives a t x u) (f : ε → δ) :
    Gives (Action.onFailure a f) t x u := by
  intro w hw
  obtain ⟨v, hv, hu⟩ := h w hw
  exact ⟨v, onFailure_eq_ok.2 hv, hu⟩

theorem Gives.bind {a : Action ε α} {f : α → Action ε β} (ha : Gives a t x u)
    (hf : Gives (f x) u y s) : Gives (a >>= f) t y s := by
  intro w hw
  obtain ⟨v, hv, hu⟩ := ha w hw
  obtain ⟨r, hr, hs⟩ := hf v hu
  exact ⟨r, bind_eq_ok.2 ⟨x, v, hv, hr⟩, hs⟩

/-- What changes nothing, done for everything in a list, changes nothing. -/
theorem gives_foldlM_self {f : α → β → Action ε α} {l : List β}
    (h : ∀ x ∈ l, ∀ b, Gives (f b x) t b t) (b : α) : Gives (l.foldlM f b) t b t := by
  induction l with
  | nil => exact gives_pure b t
  | cons x l ih =>
      rw [List.forall_mem_cons] at h
      rw [List.foldlM_cons]
      exact (h.1 b).bind (ih h.2)

theorem gives_forM_self {f : β → Action ε Unit} {l : List β} (h : ∀ x ∈ l, Gives (f x) t () t) :
    Gives (l.forM f) t () t := by
  induction l with
  | nil => exact gives_pure () t
  | cons x l ih =>
      rw [List.forall_mem_cons] at h
      exact h.1.bind (ih h.2)

end Gives

/-! ## 4. Failure -/

/-- Two actions one after the other fail if the first does, or the second after it. -/
theorem bind_eq_error {a : Action ε α} {f : α → Action ε β} {e : ε} :
    (a >>= f).runOn w = (.error e, v) ↔ a.runOn w = (.error e, v) ∨
      ∃ x u, a.runOn w = (.ok x, u) ∧ (f x).runOn u = (.error e, v) := by
  rw [runOn_bind]
  rcases a.runOn w with ⟨e' | x, u⟩
  · simp
  · refine ⟨fun h => .inr ⟨x, u, rfl, h⟩, ?_⟩
    rintro (h | ⟨_, _, h, hf⟩)
    · cases h
    · cases h
      exact hf

theorem onFailure_eq_error {a : Action ε α} {f : ε → δ} {d : δ} :
    (onFailure a f).runOn w = (.error d, v) ↔ ∃ e, a.runOn w = (.error e, v) ∧ f e = d := by
  rw [runOn_onFailure]
  rcases a.runOn w with ⟨e | x, u⟩
  · constructor
    · intro h
      cases h
      exact ⟨e, rfl, rfl⟩
    · rintro ⟨_, h, rfl⟩
      cases h
      rfl
  · simp

/-- Whether an action fails in given ways alone, on whatever tree. -/
def FailsWith (P : ε → Prop) (a : Action ε α) : Prop :=
  ∀ w e v, a.runOn w = (.error e, v) → P e

section FailsWith

variable {P : ε → Prop}

theorem FailsWith.bind {a : Action ε α} {f : α → Action ε β} (ha : FailsWith P a)
    (hf : ∀ x, FailsWith P (f x)) : FailsWith P (a >>= f) := by
  intro w e v h
  rcases bind_eq_error.1 h with h | ⟨x, u, -, h⟩
  · exact ha w e v h
  · exact hf x u e v h

theorem FailsWith.onFailure {Q : δ → Prop} {a : Action ε α} {f : ε → δ} (ha : FailsWith P a)
    (h : ∀ e, P e → Q (f e)) : FailsWith Q (Action.onFailure a f) := by
  intro w d v hrun
  obtain ⟨e, he, rfl⟩ := onFailure_eq_error.1 hrun
  exact h e (ha w e v he)

end FailsWith

end Quire.Action
