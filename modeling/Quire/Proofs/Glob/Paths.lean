import Quire.Proofs.Glob.Walk

/-!
# Walking while the tree changes

What is done at the paths that a walk finds may put new files into the directories that it goes
through. **Every path that it hands on is one that the pattern stands for in the tree at the end**
(`keepsUpTo_foldM`), and **every file that was there at the beginning, and that the pattern stands
for at the end, has been handed on** (`settled_of_foldM`): the walk is never cut off by the bound for
how deep it goes, as the tree can become higher by one level only. In a tree that stays as it is, the
paths that are handed on are exactly those that are found (`mem_paths`).
-/

namespace Quire.Glob

open Quire.Action (Keeps KeepsUpTo Gives)
open Quire.Tree (Fills)

/-- Whether a pattern stands for a path in a tree. -/
def Pattern.Finds (p : Pattern) (t : Tree) (path : String) : Prop :=
  ∃ q ∈ fill t p.pieces "." true, q.Finds t p.directoriesOnly path

/-- One step of the walk, and then the next ones. -/
theorem foldM_succ {m : Type → Type} [Monad m] {β : Type} (tree : m Tree)
    (directoriesOnly : Bool) (act : β → String → m β) (n : Nat) (b : β) (p : Pending) :
    Pending.foldM tree directoriesOnly act (n + 1) b p =
      tree >>= fun t =>
        (match (p.advance t directoriesOnly).1 with
          | some path => act b path
          | none => pure b) >>= fun b =>
        (p.advance t directoriesOnly).2.foldlM (Pending.foldM tree directoriesOnly act n) b := by
  rw [Pending.foldM]
  refine bind_congr fun t => ?_
  rcases p.advance t directoriesOnly with ⟨_ | path, next⟩ <;> rfl

/-! ## 1. Trees that stay as they are -/

section Paths

variable {t : Tree} {directoriesOnly : Bool} {path : String} {height : Nat}

/-- The paths found by trying something and what comes of it, down to a depth. -/
def Pending.hits (t : Tree) (directoriesOnly : Bool) : Nat → Pending → List String
  | 0, _ => []
  | depth + 1, p =>
    (p.advance t directoriesOnly).1.toList ++
      (p.advance t directoriesOnly).2.flatMap (Pending.hits t directoriesOnly depth)

theorem run_foldM (n : Nat) (b : List String) (p : Pending) :
    Id.run (Pending.foldM (pure t) directoriesOnly (fun found path => pure (found ++ [path])) n b p) =
      b ++ p.hits t directoriesOnly n := by
  induction n generalizing b p with
  | zero => exact (List.append_nil b).symm
  | succ n ih =>
      have hnext (l : List Pending) (b : List String) :
          Id.run (l.foldlM (Pending.foldM (pure t) directoriesOnly
            (fun found path => pure (found ++ [path])) n) b) =
          b ++ l.flatMap (Pending.hits t directoriesOnly n) := by
        induction l generalizing b with
        | nil => exact (List.append_nil b).symm
        | cons q l ihl =>
            rw [List.foldlM_cons, List.flatMap_cons, ← List.append_assoc, ← ih b q]
            exact ihl _
      rw [Pending.hits, ← List.append_assoc, ← hnext, foldM_succ, pure_bind]
      cases (p.advance t directoriesOnly).1 with
      | none =>
          rw [Option.toList_none, List.append_nil]
          rfl
      | some path => rfl

theorem mem_hits {n : Nat} {p : Pending} (hheight : t.height ≤ height) (hp : p.Fits height)
    (hn : p.weight height < n) :
    path ∈ p.hits t directoriesOnly n ↔ p.Finds t directoriesOnly path := by
  induction n generalizing p with
  | zero => exact absurd hn (Nat.not_lt_zero _)
  | succ n ih =>
      rw [Pending.hits, List.mem_append, Option.mem_toList, List.mem_flatMap]
      have hnext {q : Pending} (hq : q ∈ (p.advance t directoriesOnly).2) :
          path ∈ q.hits t directoriesOnly n ↔ q.Finds t directoriesOnly path := by
        obtain ⟨hfits, hweight⟩ := weight_lt_of_mem_advance hheight hp hq
        exact ih hfits (by omega)
      constructor
      · rintro (hhit | ⟨q, hq, hpath⟩)
        · exact .here hhit
        · exact .later hq ((hnext hq).1 hpath)
      · intro h
        cases h with
        | here hhit => exact .inl hhit
        | later hq hfinds => exact .inr ⟨_, hq, (hnext hq).2 hfinds⟩

/-- The bound for how deep a walk goes is enough, also when the tree becomes higher by one level. -/
theorem lt_reach {p : Pattern} {n : Nat} (hheight : height ≤ t.height + 1)
    (hn : n < p.pieces.length * (height + 1)) : n < p.reach t := by
  have hmul : p.pieces.length * (height + 1) ≤ p.pieces.length * (t.height + 2) :=
    Nat.mul_le_mul_left _ (Nat.succ_le_succ hheight)
  rw [Pattern.reach, Nat.succ_mul]
  omega

/-- The paths that a pattern stands for, one thing to be tried after the other. -/
theorem paths_eq (p : Pattern) (t : Tree) : p.paths t = (fill t p.pieces "." true).flatMap
    (Pending.hits t p.directoriesOnly (p.reach t)) := by
  have hpaths (l : List Pending) (b : List String) :
      Id.run (l.foldlM (Pending.foldM (pure t) p.directoriesOnly
        (fun found path => pure (found ++ [path])) (p.reach t)) b) =
      b ++ l.flatMap (Pending.hits t p.directoriesOnly (p.reach t)) := by
    induction l generalizing b with
    | nil => exact (List.append_nil b).symm
    | cons q l ih =>
        rw [List.foldlM_cons, List.flatMap_cons, ← List.append_assoc, ← run_foldM _ b q]
        exact ih _
  exact hpaths _ []

/-- **The paths that a pattern stands for are those that it finds.** -/
theorem mem_paths {p : Pattern} : path ∈ p.paths t ↔ p.Finds t path := by
  rw [paths_eq, List.mem_flatMap, Pattern.Finds]
  refine exists_congr fun q => and_congr_right fun hq => ?_
  obtain ⟨hfits, hweight⟩ := fits_of_mem_fill (le_refl t.height) hq
  exact mem_hits (le_refl _) hfits (lt_reach (Nat.le_succ _) hweight)

end Paths

/-! ## 2. Trees that change -/

/-- More files make a tree higher by one level at most. -/
theorem height_le_of_fills {t u : Tree} (h : Fills t u) : u.height ≤ t.height + 1 := by
  refine Tree.Directory.height_le u.distinct fun p hp => ?_
  rcases List.eq_nil_or_concat p with rfl | ⟨q, n, rfl⟩
  · exact Nat.zero_le _
  · rw [List.concat_eq_append] at hp ⊢
    have hdir := Tree.kind?_of_append (List.cons_ne_nil n []) fun hnone => hp (Tree.kind?_eq_none.1 hnone)
    have := Tree.length_le_height_of_kind? (h.kind?_eq_directory.1 hdir)
    rw [List.length_append, List.length_singleton]
    omega

variable {ε β : Type} {act : β → String → Action ε β} {directoriesOnly : Bool}

theorem Pattern.foldM_eq (p : Pattern) (b : β) :
    p.foldM Action.tree act b =
      Action.tree >>= fun t => (fill t p.pieces "." true).foldlM
        (Pending.foldM Action.tree p.directoriesOnly act (p.reach t)) b :=
  rfl

section Keeps

variable {R : Tree → Tree → Prop} [IsPreorder Tree R]

/-- What is done at a path that is found, if one is, keeps what is kept at every path. -/
theorem keeps_hit (h : ∀ b path, Keeps R (act b path)) (hit : Option String) (b : β) :
    Keeps R (match hit with
      | some path => act b path
      | none => pure b) := by
  cases hit with
  | none => exact Action.keeps_pure b
  | some path => exact h b path

theorem keeps_pendingFoldM (h : ∀ b path, Keeps R (act b path)) (directoriesOnly : Bool) (n : Nat)
    (b : β) (p : Pending) :
    Keeps R (Pending.foldM Action.tree directoriesOnly act n b p) := by
  induction n generalizing b p with
  | zero => exact Action.keeps_pure b
  | succ n ih =>
      rw [foldM_succ]
      exact Action.keeps_tree.bind fun t => (keeps_hit h _ b).bind fun c =>
        Action.keeps_foldlM (fun q _ b => ih b q) c

theorem keeps_foldM (h : ∀ b path, Keeps R (act b path)) (p : Pattern) (b : β) :
    Keeps R (p.foldM Action.tree act b) := by
  rw [Pattern.foldM_eq]
  exact Action.keeps_tree.bind fun t =>
    Action.keeps_foldlM (fun q _ b => keeps_pendingFoldM h _ _ b q) b

end Keeps

section Found

variable {R : Tree → Tree → Prop} [IsPreorder Tree R] {F : String → Prop} {s : Tree}
  (hfills : ∀ b path, Keeps Fills (act b path)) (hact : ∀ b path, F path → Keeps R (act b path))

include hfills hact

theorem keepsUpTo_pendingFoldM {p : Pending} (hF : ∀ path, p.Finds s directoriesOnly path → F path)
    (n : Nat) (b : β) :
    KeepsUpTo Fills s R (Pending.foldM Action.tree directoriesOnly act n b p) := by
  induction n generalizing b p with
  | zero => exact (Action.keeps_pure b).upTo Fills s
  | succ n ih =>
      intro w hs
      have hw : Fills w.tree s :=
        trans_of Fills (keeps_pendingFoldM hfills _ (n + 1) b p w) hs
      rw [foldM_succ, Action.runOn_bind, Action.runOn_tree] at hs ⊢
      refine KeepsUpTo.bind (R := R) ?_ (fun c => Action.keeps_foldlM
        (fun q _ b => keeps_pendingFoldM hfills _ n b q) c) (fun c => Action.keepsUpTo_foldlM
        (fun q _ b => keeps_pendingFoldM hfills _ n b q) (fun q hq b => ih (fun path hpath =>
          hF path (.later (mem_advance_mono hw hq) hpath)) b) c) w hs
      cases hhit : (p.advance w.tree directoriesOnly).1 with
      | none => exact (Action.keeps_pure b).upTo Fills s
      | some path =>
          exact (hact b path (hF path (.here ((fst_advance s w.tree _ p).trans hhit)))).upTo Fills s

/-- **What holds of all paths that a pattern stands for at the end holds of all that are handed
on.** -/
theorem keepsUpTo_foldM {p : Pattern} (hF : ∀ path ∈ p.paths s, F path) (b : β) :
    KeepsUpTo Fills s R (p.foldM Action.tree act b) := by
  intro w hs
  have hw : Fills w.tree s := trans_of Fills (keeps_foldM hfills p b w) hs
  rw [Pattern.foldM_eq, Action.runOn_bind, Action.runOn_tree] at hs ⊢
  refine Action.keepsUpTo_foldlM (fun q _ b => keeps_pendingFoldM hfills _ _ b q)
    (fun q hq b => keepsUpTo_pendingFoldM hfills hact (fun path hpath => ?_) _ b) b w hs
  exact hF path (mem_paths.2 ⟨q, mem_fill_mono hw hq, hpath⟩)

end Found

section Settled

variable {S : Tree → String → Prop} {path : String} {u : Tree}
  (hS : ∀ {t u : Tree}, Fills t u → S t path → S u path)
  (hfills : ∀ b path, Keeps Fills (act b path))
  (hact : ∀ {b c : β} {w v : Workspace}, (act b path).runOn w = (.ok c, v) →
    w.tree.hasFile path = true → S v.tree path)

include hS hfills hact

theorem settled_of_pendingFoldM {height n : Nat} {b c : β} {p : Pending} {w v : Workspace}
    (h : (Pending.foldM Action.tree directoriesOnly act n b p).runOn w = (.ok c, v))
    (hu : Fills v.tree u) (hheight : u.height ≤ height) (hp : p.Fits height)
    (hn : p.weight height < n) (hfinds : p.Finds u directoriesOnly path)
    (hfile : w.tree.hasFile path = true) : S v.tree path := by
  induction n generalizing b c p w v with
  | zero => exact absurd hn (Nat.not_lt_zero _)
  | succ n ih =>
      have hw := keeps_pendingFoldM hfills directoriesOnly (n + 1) b p w
      rw [h] at hw
      have hwu : Fills w.tree u := trans_of Fills hw hu
      rw [foldM_succ, Action.bind_eq_ok] at h
      obtain ⟨t, w', htree, h⟩ := h
      cases htree
      rw [Action.bind_eq_ok] at h
      obtain ⟨b', w', hhit, hnext⟩ := h
      have hrest := Action.keeps_foldlM (R := Fills) (l := (p.advance w.tree directoriesOnly).2)
        (fun q _ b => keeps_pendingFoldM hfills directoriesOnly n b q) b' w'
      rw [hnext] at hrest
      cases hfinds with
      | here hfound =>
          rw [fst_advance w.tree u, hfound] at hhit
          exact hS hrest (hact hhit hfile)
      | @later _ q hq hqfinds =>
          obtain ⟨hfits, hweight⟩ := weight_lt_of_mem_advance hheight hp hq
          have hqold := mem_advance_of_finds hwu hfile hq hqfinds
          obtain ⟨b'', c'', w'', v'', hturn, hw'', hv''⟩ := Action.exists_of_foldlM_eq_ok
            (fun q _ b => keeps_pendingFoldM hfills directoriesOnly n b q) hnext hqold
          have hfirst := keeps_hit hfills (p.advance w.tree directoriesOnly).1 b w
          rw [hhit] at hfirst
          have hfile'' : w''.tree.hasFile path = true := (trans_of Fills hfirst hw'').hasFile hfile
          exact hS hv'' (ih hturn (trans_of Fills hv'' hu) hfits (by omega) hqfinds hfile'')

/-- **Every file that was there, and that the pattern stands for at the end, was handed on.** -/
theorem settled_of_foldM {p : Pattern} {b c : β} {w v : Workspace}
    (h : (p.foldM Action.tree act b).runOn w = (.ok c, v)) (hu : Fills v.tree u)
    (hpath : path ∈ p.paths u) (hfile : w.tree.hasFile path = true) : S v.tree path := by
  have hw := keeps_foldM hfills p b w
  rw [h] at hw
  have hwu : Fills w.tree u := trans_of Fills hw hu
  rw [Pattern.foldM_eq, Action.bind_eq_ok] at h
  obtain ⟨t, w', htree, h⟩ := h
  cases htree
  obtain ⟨q, hq, hqfinds⟩ := mem_paths.1 hpath
  obtain ⟨hfits, hweight⟩ := fits_of_mem_fill (le_refl u.height) hq
  have hqold := mem_fill_of_finds hwu hfile hq hqfinds
  obtain ⟨b', c', w', v', hturn, hw', hv'⟩ := Action.exists_of_foldlM_eq_ok
    (fun q _ b => keeps_pendingFoldM hfills _ _ b q) h hqold
  exact hS hv' (settled_of_pendingFoldM hS hfills hact hturn (trans_of Fills hv' hu)
    (le_refl _) hfits (lt_reach (height_le_of_fills hwu) hweight) hqfinds (hw'.hasFile hfile))

end Settled

section Gives

variable {t : Tree}

theorem gives_pendingFoldM {p : Pending}
    (h : ∀ path, p.Finds t directoriesOnly path → ∀ b, Gives (act b path) t b t) (n : Nat) (b : β) :
    Gives (Pending.foldM Action.tree directoriesOnly act n b p) t b t := by
  induction n generalizing b p with
  | zero => exact Action.gives_pure b t
  | succ n ih =>
      rw [foldM_succ]
      refine (Action.gives_tree t).bind (Gives.bind (u := t) (x := b) ?_ ?_)
      · cases hhit : (p.advance t directoriesOnly).1 with
        | none => exact Action.gives_pure b t
        | some path => exact h path (.here hhit) b
      · exact Action.gives_foldlM_self (fun q hq b =>
          ih (fun path hpath => h path (.later hq hpath)) b) b

/-- **A walk changes nothing if nothing is changed at the paths that the pattern stands for.** -/
theorem gives_foldM {p : Pattern} (h : ∀ path ∈ p.paths t, ∀ b, Gives (act b path) t b t) (b : β) :
    Gives (p.foldM Action.tree act b) t b t := by
  rw [Pattern.foldM_eq]
  refine (Action.gives_tree t).bind (Action.gives_foldlM_self (fun q hq b =>
    gives_pendingFoldM (fun path hpath => h path (mem_paths.2 ⟨q, hq, hpath⟩)) _ b) b)

end Gives

end Quire.Glob
