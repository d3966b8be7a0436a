import Quire.Proofs.Glob.Paths

/-!
# Patterns whose paths come in order

Of two entries of a directory that are tried, all paths by way of the one come before all by way of the
other, as they part where the names do (`pairwise_fill`, `prefix_of_mem_hits`). So **the paths that a
pattern stands for come in their order** (`pairwise_paths`) if it does not try one entry in two ways.
This it does when two stars are followed by more than one piece: an entry that the first of them takes is
gone into for the others first, and then once more for the stars. And of the two dots it tries the upper
one first, so no piece may stand for both.
-/

namespace Quire.Path

/-! ## 1. The order of steps -/

/-- Whether one path comes strictly before another, by the steps that they take. -/
def stepsLt (p q : String) : Bool :=
  componentsLt (steps p) (steps q)

theorem componentsLt_append_self (cs ds : List Component) : componentsLt (cs ++ ds) cs = false := by
  induction cs with
  | nil => cases ds <;> rfl
  | cons c cs ih => rwa [List.cons_append, componentsLt, if_pos rfl]

theorem stepsLt_self (path : String) : stepsLt path path = false := by
  have h := componentsLt_append_self (steps path) []
  rwa [List.append_nil] at h

/-- Whether two lists of components part, and the first of them comes first from there on. -/
def PartsBefore (cs ds : List Component) : Prop :=
  ∃ base c d cs' ds', cs = base ++ c :: cs' ∧ ds = base ++ d :: ds' ∧ c ≠ d ∧ d.lt c = false

variable {cs ds cs' ds' : List Component}

theorem PartsBefore.of_prefix (h : PartsBefore cs ds) (hc : cs <+: cs') (hd : ds <+: ds') :
    PartsBefore cs' ds' := by
  obtain ⟨base, c, d, as, bs, rfl, rfl, hne, hlt⟩ := h
  obtain ⟨as', rfl⟩ := hc
  obtain ⟨bs', rfl⟩ := hd
  refine ⟨base, c, d, as ++ as', bs ++ bs', ?_, ?_, hne, hlt⟩
  · rw [List.append_assoc, List.cons_append]
  · rw [List.append_assoc, List.cons_append]

theorem PartsBefore.componentsLt_eq_false (h : PartsBefore cs ds) : componentsLt ds cs = false := by
  obtain ⟨base, c, d, as, bs, rfl, rfl, hne, hlt⟩ := h
  induction base with
  | nil => rwa [List.nil_append, List.nil_append, componentsLt, if_neg (Ne.symm hne)]
  | cons b base ih => rwa [List.cons_append, List.cons_append, componentsLt, if_pos rfl]

theorem PartsBefore.ne_nil (h : PartsBefore cs ds) : cs ≠ [] ∧ ds ≠ [] := by
  obtain ⟨base, c, d, as, bs, rfl, rfl, -, -⟩ := h
  simp

/-- A path that is joined to one with components takes the steps of both. -/
theorem steps_join {a b : String} (ha : components a ≠ []) (hb : isFromTop b = false) :
    steps (join a b) = steps a ++ (components b).filter (· != .here) := by
  rw [steps_eq, steps_eq, components_join a hb]
  obtain ⟨c, cs, hcs⟩ := List.exists_cons_of_ne_nil ha
  rw [hcs, List.cons_append, stepsOf, stepsOf, List.filter_append, List.cons_append]

end Quire.Path

namespace Quire.Glob

open Quire.Path (Component Name PartsBefore)
open Quire.Tree (Directory)

variable {t : Tree} {piece : Piece} {pieces rest : List Piece} {dir path : String}
  {isDirectory directoriesOnly : Bool} {p q : Pending}

/-! ## 2. The way to a path -/

/-- The steps from where one stands to a path, none if it is that of where one stands. -/
def stepsTo (path : String) : List Component :=
  if isHere path then [] else Path.steps path

theorem stepsTo_of_ne_nil (h : stepsTo path ≠ []) : stepsTo path = Path.steps path := by
  rw [stepsTo] at h ⊢
  split at h
  · exact absurd rfl h
  · rename_i hhere
    rw [if_neg hhere]

theorem prefix_stepsTo_join (dir : String) {text : String} (h : Path.isFromTop text = false) :
    stepsTo dir <+: stepsTo (Path.join dir text) := by
  rw [stepsTo]
  split
  · exact List.nil_prefix
  rename_i hhere
  by_cases hdir : Path.components dir = []
  · rw [Path.steps, hdir]
    exact List.nil_prefix
  have hsteps := Path.steps_join hdir h
  have hne : Path.steps dir ≠ [] := by
    rw [Path.steps_eq]
    obtain ⟨c, cs, hcs⟩ := List.exists_cons_of_ne_nil hdir
    rw [hcs, Path.stepsOf]
    exact List.cons_ne_nil _ _
  rw [stepsTo, if_neg, hsteps]
  · exact List.prefix_append _ _
  · intro hjoin
    obtain ⟨c, cs, hcs⟩ := List.exists_cons_of_ne_nil hne
    have := eq_of_beq hjoin
    rw [hsteps, hcs, List.cons_append, List.cons.injEq, List.append_eq_nil_iff] at this
    rw [isHere, hcs, this.1, this.2.1] at hhere
    exact hhere (beq_self_eq_true _)

theorem prefix_stepsTo_inside (dir : String) {text : String} (h : Path.isFromTop text = false) :
    stepsTo dir <+: stepsTo (inside dir text) := by
  rw [inside]
  split
  · rename_i hhere
    rw [stepsTo, if_pos hhere]
    exact List.nil_prefix
  · exact prefix_stepsTo_join dir h

theorem stepsTo_inside_name (dir : String) (n : Name) :
    stepsTo (inside dir n.text) = stepsTo dir ++ [.name n] := by
  have hof {path : String} {cs : List Component} (h : Path.steps path = cs ++ [.name n]) :
      stepsTo path = cs ++ [.name n] := by
    rw [stepsTo, if_neg, h]
    intro hhere
    have := eq_of_beq hhere
    rw [h] at this
    have hlast := congrArg List.getLast? this
    simp at hlast
  rw [inside]
  split
  · rename_i hhere
    have hsteps : Path.steps n.text = [] ++ [.name n] := by
      rw [Path.steps_eq, Path.components_text_name]
      rfl
    rw [hof hsteps, stepsTo, if_pos hhere]
  · rename_i hhere
    have hsteps : Path.steps (Path.join dir n.text) = Path.steps dir ++ [.name n] := by
      rw [Path.steps_eq, Path.components_join dir (Path.isFromTop_of_isName n.isName),
        Path.components_text_name, Path.stepsOf_concat_name, Path.steps_eq]
    rw [hof hsteps, stepsTo, if_neg hhere]

/-- The dots that lead up come before all names. -/
theorem partsBefore_up {up next : String} {n : Name}
    (hup : stepsTo (Path.join dir "..") <+: stepsTo up)
    (hnext : stepsTo (inside dir n.text) <+: stepsTo next) :
    PartsBefore (stepsTo up) (stepsTo next) := by
  refine PartsBefore.of_prefix ?_ hup hnext
  rw [stepsTo_inside_name]
  have htop : Path.isFromTop ".." = false := by decide
  have hdots : Path.components ".." = [.up] := by decide
  by_cases hhere : isHere dir = true
  · -- the first step stays where it is, and so is the first of all
    have hsteps := eq_of_beq hhere
    have hne : Path.components dir ≠ [] := by
      intro hnil
      rw [Path.steps, hnil] at hsteps
      cases hsteps
    have hjoin : Path.steps (Path.join dir "..") = [.here, .up] := by
      rw [Path.steps_join hne htop, hsteps, hdots]
      rfl
    have hto : stepsTo (Path.join dir "..") = [.here, .up] := by
      rw [stepsTo, isHere, hjoin, if_neg (by decide)]
    rw [hto, stepsTo, if_pos hhere]
    exact ⟨[], .here, .name n, [.up], [], rfl, rfl, Component.noConfusion, rfl⟩
  · have hjoin : Path.steps (Path.join dir "..") = Path.steps dir ++ [.up] := by
      by_cases hne : Path.components dir = []
      · rw [Path.steps_eq, Path.components_join dir htop, hne, hdots, Path.steps_eq, hne]
        rfl
      · rw [Path.steps_join hne htop, hdots]
        rfl
    have hto : stepsTo (Path.join dir "..") = Path.steps dir ++ [.up] := by
      rw [stepsTo, hjoin, if_neg]
      intro hjoinHere
      rw [isHere, hjoin] at hjoinHere
      have hlast := congrArg List.getLast? (eq_of_beq hjoinHere)
      simp at hlast
    rw [hto, stepsTo, if_neg hhere]
    exact ⟨Path.steps dir, .up, .name n, [], [], rfl, rfl, Component.noConfusion, rfl⟩

/-- A path that a piece leads to is below the directory. -/
theorem prefix_of_leads (h : Leads t dir isDirectory piece path) : stepsTo dir <+: stepsTo path := by
  cases h with
  | @dot text hdot _ =>
      refine prefix_stepsTo_inside dir ?_
      have hmem : text ∈ dots := List.contains_iff_mem.1 hdot
      simp only [dots, List.mem_cons, List.not_mem_nil, or_false] at hmem
      rcases hmem with rfl | rfl <;> decide
  | @entry text _ hentry =>
      cases htop : Path.isFromTop text with
      | false => exact prefix_stepsTo_inside dir htop
      | true =>
          have hinside : inside dir text = text := by
            rw [inside, Path.join, htop, if_pos rfl, ite_self]
          rw [hinside] at hentry
          rw [Tree.isFromTop_of_hasEntry hentry] at htop
          cases htop
  | @listed _ dot _ _ _ hdot _ _ =>
      refine prefix_stepsTo_join dir ?_
      simp only [dots, List.mem_cons, List.not_mem_nil, or_false] at hdot
      rcases hdot with rfl | rfl <;> decide

/-- Whatever is to be tried on pieces in a directory is below it. -/
theorem prefix_of_mem_fill (h : q ∈ fill t pieces dir isDirectory) :
    stepsTo dir <+: stepsTo q.way := by
  induction pieces generalizing dir isDirectory with
  | nil => cases h
  | cons piece rest ih =>
      rcases mem_fill_cons.1 h with ⟨path, hlead, hq⟩ | ⟨-, -, d, n, e, -, -, rfl⟩
      · refine (prefix_of_leads hlead).trans ?_
        rcases mem_arrive hq with rfl | hq
        · exact List.prefix_refl _
        · exact ih hq
      · exact prefix_stepsTo_inside dir (Path.isFromTop_of_isName n.isName)

theorem prefix_of_mem_arrive (h : q ∈ arrive t rest path) : stepsTo path <+: stepsTo q.way := by
  rcases mem_arrive h with rfl | h
  · exact List.prefix_refl _
  · exact prefix_of_mem_fill h

/-! ## 3. Orderly patterns -/

/-- Whether pieces try an entry in one way alone, and the entries in their order: no piece stands for
both dots, and one piece at most follows two stars. -/
def isOrderly : List Piece → Bool
  | [] => true
  | .anyDepth :: rest => (mergeDepths (.anyDepth :: rest)).length ≤ 2
  | piece :: rest => !(piece.beginsWithDot && piece.isMatch ".") && isOrderly rest

theorem mergeDepths_of_ne (h : piece ≠ .anyDepth) : mergeDepths (piece :: rest) = piece :: rest := by
  cases piece with
  | literal text => rfl
  | wild tokens => rfl
  | anyDepth => exact absurd rfl h

theorem exists_mergeDepths (rest : List Piece) :
    ∃ next, mergeDepths (.anyDepth :: rest) = .anyDepth :: next := by
  induction rest with
  | nil => exact ⟨[], rfl⟩
  | cons piece rest ih =>
      cases piece with
      | literal text => exact ⟨_, rfl⟩
      | wild tokens => exact ⟨_, rfl⟩
      | anyDepth => exact ih

theorem isOrderly_cons (h : piece ≠ .anyDepth) : isOrderly (piece :: rest) =
    (!(piece.beginsWithDot && piece.isMatch ".") && isOrderly rest) := by
  cases piece with
  | literal text => rfl
  | wild tokens => rfl
  | anyDepth => exact absurd rfl h

/-- Whether something to be tried stands in a directory, with pieces that are orderly. -/
def Pending.IsOrderly : Pending → Prop
  | found _ _ => True
  | entry path _ _ pieces => stepsTo path ≠ [] ∧ isOrderly pieces = true

theorem isOrderly_of_mem_fill (h : isOrderly pieces = true) (hq : q ∈ fill t pieces dir isDirectory) :
    q.IsOrderly := by
  induction pieces generalizing dir isDirectory with
  | nil => cases hq
  | cons piece rest ih =>
      rcases mem_fill_cons.1 hq with ⟨path, hlead, hq⟩ | ⟨-, -, d, n, e, -, -, rfl⟩
      · rcases mem_arrive hq with rfl | hq
        · trivial
        · refine ih ?_ hq
          have hpiece : piece ≠ .anyDepth := by
            rintro rfl
            cases hlead with
            | listed _ _ _ _ hdot => cases hdot
          rw [isOrderly_cons hpiece, Bool.and_eq_true] at h
          exact h.2
      · refine ⟨?_, h⟩
        rw [stepsTo_inside_name]
        simp

/-- Of the dots, the one that leads up is tried at most. -/
theorem filter_dots_of_isOrderly (h : isOrderly (piece :: rest) = true) :
    (dots.filter fun dot => piece.beginsWithDot && piece.isMatch dot) = [] ∨
      piece ≠ .anyDepth ∧ (dots.filter fun dot => piece.beginsWithDot && piece.isMatch dot) = [".."] := by
  by_cases hpiece : piece = .anyDepth
  · subst hpiece
    exact .inl rfl
  rw [isOrderly_cons hpiece, Bool.and_eq_true, Bool.not_eq_true'] at h
  rw [dots, List.filter_cons, List.filter_singleton, h.1]
  cases piece.beginsWithDot && piece.isMatch ".." with
  | true => exact .inr ⟨hpiece, rfl⟩
  | false => exact .inl rfl

/-- The entries of a directory are tried in the order of their paths. -/
theorem pairwise_listed {d : Directory} (h : d.Distinct) (dir : String) (pieces : List Piece) :
    (d.sorted.map fun (name, e) => Pending.entry (inside dir name.text) name e.isDirectory
      pieces).Pairwise fun p q => PartsBefore (stepsTo p.way) (stepsTo q.way) := by
  refine List.pairwise_map.2 (h.pairwise_sorted.imp fun {a b} hab => ?_)
  show PartsBefore (stepsTo (inside dir a.1.text)) (stepsTo (inside dir b.1.text))
  rw [stepsTo_inside_name, stepsTo_inside_name]
  refine ⟨stepsTo dir, .name a.1, .name b.1, [], [], rfl, rfl, fun heq => ?_, ?_⟩
  · rw [Component.name.inj heq] at hab
    exact lt_irrefl _ hab
  · exact decide_eq_false (not_lt_of_gt hab)

/-- **What is to be tried on orderly pieces is in the order of its paths.** -/
theorem pairwise_fill (h : isOrderly pieces = true) : (fill t pieces dir isDirectory).Pairwise
    fun p q => PartsBefore (stepsTo p.way) (stepsTo q.way) := by
  induction pieces generalizing dir isDirectory with
  | nil => exact .nil
  | cons piece rest ih =>
      have harrive (hpiece : piece ≠ .anyDepth) (path : String) : (arrive t rest path).Pairwise
          fun p q => PartsBefore (stepsTo p.way) (stepsTo q.way) := by
        rw [arrive]
        split
        · exact List.pairwise_singleton _ _
        · rw [isOrderly_cons hpiece, Bool.and_eq_true] at h
          exact ih h.2
      by_cases hpiece : ∃ text, piece = .literal text
      · obtain ⟨text, rfl⟩ := hpiece
        rw [fill_literal]
        split
        · split
          · exact harrive Piece.noConfusion _
          · exact .nil
        · split
          · exact harrive Piece.noConfusion _
          · exact .nil
      rw [fill_of_ne_literal (not_exists.1 hpiece)]
      split
      · exact .nil
      rename_i d hd
      have hentries : (d.sorted.map fun (name, e) => Pending.entry (inside dir name.text) name
          e.isDirectory (piece :: rest)).Pairwise
          fun p q => PartsBefore (stepsTo p.way) (stepsTo q.way) := by
        split at hd
        · exact pairwise_listed (distinct_of_directory? hd) dir _
        · cases hd
      rcases filter_dots_of_isOrderly h with hdots | ⟨hne, hdots⟩
      · rw [hdots]
        exact hentries
      · rw [hdots, List.flatMap_singleton]
        refine List.pairwise_append.2 ⟨harrive hne _, hentries, fun p hp q hq => ?_⟩
        obtain ⟨⟨n, e⟩, -, rfl⟩ := List.mem_map.1 hq
        exact partsBefore_up (prefix_of_mem_arrive hp) (List.prefix_refl _)

/-! ## 4. Walks -/

/-- On orderly pieces an entry has to be tried on once at most. -/
theorem exists_fill_onward (h : q.IsOrderly) : ∃ pieces isDirectory,
    (q.onward.flatMap fun x => fill t x.1 q.way x.2) = fill t pieces q.way isDirectory ∧
      isOrderly pieces = true := by
  cases q with
  | found way isDirectory => exact ⟨[], true, rfl, rfl⟩
  | entry way name isDirectory pieces =>
      cases pieces with
      | nil => exact ⟨[], isDirectory, by simp [Pending.onward, mergeDepths, take?, takeFirst?, fill], rfl⟩
      | cons piece rest =>
          by_cases hpiece : piece = .anyDepth
          · subst hpiece
            obtain ⟨next, hnext⟩ := exists_mergeDepths rest
            have hlength : (Piece.anyDepth :: next).length ≤ 2 := by
              rw [← hnext]
              exact of_decide_eq_true h.2
            have horderly : isOrderly (.anyDepth :: next) = true :=
              decide_eq_true ((length_mergeDepths_le _).trans hlength)
            -- where the piece behind the stars takes the entry, none is left for what lies in it
            have hleft : ((take? name (.anyDepth :: next)).map fun left =>
                (left, isDirectory)).toList.flatMap (fun x => fill t x.1 way x.2) = [] := by
              cases next with
              | nil => rfl
              | cons piece next =>
                  obtain rfl : next = [] := by simpa using hlength
                  rw [take?, takeFirst?]
                  split <;> rfl
            rw [Pending.onward, Pending.way, hnext, List.flatMap_append, hleft, List.nil_append]
            cases isDirectory with
            | false => exact ⟨[], true, rfl, rfl⟩
            | true => exact ⟨_, true, List.flatMap_singleton .., horderly⟩
          · have horderly := h.2
            rw [isOrderly_cons hpiece, Bool.and_eq_true] at horderly
            rw [Pending.onward_of_ne (mergeDepths_of_ne hpiece) hpiece, takeFirst?]
            split
            · exact ⟨rest, isDirectory, List.flatMap_singleton .., horderly.2⟩
            · exact ⟨[], true, rfl, rfl⟩

/-- What comes of trying something orderly is what is to be tried on orderly pieces at its path. -/
theorem exists_fill_of_advance {d : Bool} (h : q.IsOrderly) : ∃ pieces isDirectory,
    (q.advance t d).2 = fill t pieces q.way isDirectory ∧ isOrderly pieces = true := by
  rw [Pending.advance_eq]
  exact exists_fill_onward h

/-- What is found by way of something is below it. -/
theorem prefix_of_mem_hits {n : Nat} (hq : q.IsOrderly) (h : path ∈ q.hits t directoriesOnly n) :
    stepsTo q.way <+: stepsTo path := by
  induction n generalizing q with
  | zero => cases h
  | succ n ih =>
      obtain ⟨pieces, isDirectory, hnext, hpieces⟩ :=
        exists_fill_of_advance (t := t) (d := directoriesOnly) hq
      rw [Pending.hits, List.mem_append, Option.mem_toList, List.mem_flatMap, hnext] at h
      rcases h with hhit | ⟨r, hr, hpath⟩
      · rw [eq_way_of_advance hhit]
      · exact (prefix_of_mem_fill hr).trans (ih (isOrderly_of_mem_fill hpieces hr) hpath)

theorem stepsLt_of_partsBefore {a b : String} (h : PartsBefore (stepsTo a) (stepsTo b)) :
    Path.stepsLt b a = false := by
  rw [Path.stepsLt, ← stepsTo_of_ne_nil h.ne_nil.1, ← stepsTo_of_ne_nil h.ne_nil.2]
  exact h.componentsLt_eq_false

theorem stepsLt_of_prefix {a b : String} (h : stepsTo a <+: stepsTo b) (ha : stepsTo a ≠ []) :
    Path.stepsLt b a = false := by
  have hb : stepsTo b ≠ [] := fun hnil => ha (List.prefix_nil.1 (hnil ▸ h))
  obtain ⟨cs, hcs⟩ := h
  rw [Path.stepsLt, ← stepsTo_of_ne_nil ha, ← stepsTo_of_ne_nil hb, ← hcs]
  exact Path.componentsLt_append_self _ _

/-- What is found on orderly pieces is in order if what is found by way of each thing is. -/
theorem pairwise_flatMap_hits {n : Nat} (h : isOrderly pieces = true)
    (hhits : ∀ q : Pending, q.IsOrderly → (q.hits t directoriesOnly n).Pairwise
      fun a b => Path.stepsLt b a = false) :
    ((fill t pieces dir isDirectory).flatMap (Pending.hits t directoriesOnly n)).Pairwise
      fun a b => Path.stepsLt b a = false := by
  refine List.pairwise_flatMap.2 ⟨fun q hq => hhits q (isOrderly_of_mem_fill h hq), ?_⟩
  refine (pairwise_fill h).imp_of_mem fun {p q} hp hq hparts a ha b hb => ?_
  exact stepsLt_of_partsBefore (hparts.of_prefix
    (prefix_of_mem_hits (isOrderly_of_mem_fill h hp) ha)
    (prefix_of_mem_hits (isOrderly_of_mem_fill h hq) hb))

/-- **What is found by trying something orderly is in order.** -/
theorem pairwise_hits (hq : q.IsOrderly) (n : Nat) : (q.hits t directoriesOnly n).Pairwise
    fun a b => Path.stepsLt b a = false := by
  induction n generalizing q with
  | zero => exact .nil
  | succ n ih =>
      obtain ⟨pieces, isDirectory, hnext, hpieces⟩ :=
        exists_fill_of_advance (t := t) (d := directoriesOnly) hq
      rw [Pending.hits, hnext]
      refine List.pairwise_append.2 ⟨?_, pairwise_flatMap_hits hpieces fun r hr => ih hr, ?_⟩
      · cases (q.advance t directoriesOnly).1 with
        | none => exact .nil
        | some path => exact List.pairwise_singleton _ _
      · intro a ha b hb
        rw [Option.mem_toList] at ha
        rw [eq_way_of_advance ha]
        obtain ⟨r, hr, hb⟩ := List.mem_flatMap.1 hb
        refine stepsLt_of_prefix ((prefix_of_mem_fill hr).trans
          (prefix_of_mem_hits (isOrderly_of_mem_fill hpieces hr) hb)) ?_
        cases q with
        | found way isDirectory =>
            rw [← hnext] at hr
            cases hr
        | entry way name isDirectory pieces => exact hq.1

/-- **The paths of an orderly pattern come in order.** -/
theorem pairwise_paths {p : Pattern} (h : isOrderly p.pieces = true) (t : Tree) :
    (p.paths t).Pairwise fun a b => Path.stepsLt b a = false := by
  rw [paths_eq]
  exact pairwise_flatMap_hits h fun q hq => pairwise_hits hq _

/-- All images of one kind, wherever they are, come in order. -/
example : ((Pattern.ofString "s/**/*.png").toOption.map fun p => isOrderly p.pieces) = some true := by
  decide +kernel

end Quire.Glob
