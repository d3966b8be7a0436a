import Quire.Proofs.Glob.Paths
import Quire.Proofs.Glob.Reader
import Quire.Proofs.Tree.Shared

/-!
# Walks in trees that share a directory

Two walks with the same pieces, each from the name of a directory that two trees share, go alike as long
as the pieces lead nowhere above it (`staysInside`): what is to be tried at a path in the one is to be
tried in the other at the path with the same tail behind the other name (`forall₂_fill`,
`Pending.Alike.advance`), and so **what is done at the paths that are found goes alike** (`alike_foldM`).
The walks may be bounded differently, as nothing is known of the rest of the trees, but the bounds make
no difference (`runOn_foldM`).

Every path that is tried has a tail that is hardly longer than its place: an entry that is listed adds
to both, and only the literal pieces and the dots may add to the tail alone (`Reaches`).
-/

namespace Quire.Glob

open Quire.Action (Alike Keeps)
open Quire.Path (IsTail Name extend)
open Quire.Tree (Directory Fills Interchangeable Shares placeOf spanOf)

/-! ## 1. The bound -/

section Bound

variable {ε β : Type} {act : β → String → Action ε β} {directoriesOnly : Bool}
  (hfills : ∀ b path, Keeps Fills (act b path))

include hfills

/-- **A bound that is enough makes no difference.** -/
theorem runOn_pendingFoldM_of_le {height n k : Nat} {b : β} {p : Pending} {w : Workspace}
    (hheight : ∀ u, Fills w.tree u → u.height ≤ height) (hp : p.Fits height)
    (hn : p.weight height < n) (hk : n ≤ k) :
    (Pending.foldM Action.tree directoriesOnly act n b p).runOn w =
      (Pending.foldM Action.tree directoriesOnly act k b p).runOn w := by
  induction n generalizing k b p w with
  | zero => exact absurd hn (Nat.not_lt_zero _)
  | succ n ih =>
      obtain ⟨k, rfl⟩ := Nat.exists_eq_add_one_of_ne_zero (Nat.ne_of_gt (Nat.lt_of_lt_of_le n.succ_pos hk))
      have hself := hheight w.tree (refl_of Fills w.tree)
      have hnext (b : β) {v : Workspace} (hv : Fills w.tree v.tree) :
          ((p.advance w.tree directoriesOnly).2.foldlM
            (Pending.foldM Action.tree directoriesOnly act n) b).runOn v =
          ((p.advance w.tree directoriesOnly).2.foldlM
            (Pending.foldM Action.tree directoriesOnly act k) b).runOn v := by
        refine Action.runOn_foldlM_congr (fun q _ b => keeps_pendingFoldM hfills _ n b q)
          (fun q hq b v hv => ?_) b hv
        obtain ⟨hfits, hweight⟩ := weight_lt_of_mem_advance hself hp hq
        exact ih (fun u hu => hheight u (trans_of Fills hv hu)) hfits (by omega) (by omega)
      rw [foldM_succ, foldM_succ, Action.runOn_bind, Action.runOn_bind, Action.runOn_tree]
      dsimp only
      rw [Action.runOn_bind, Action.runOn_bind]
      cases (p.advance w.tree directoriesOnly).1 with
      | none => exact hnext b (refl_of Fills w.tree)
      | some path =>
          have hkept := hfills b path w
          dsimp only
          rcases hrun : (act b path).runOn w with ⟨e | c, v⟩
          · rfl
          · rw [hrun] at hkept
            exact hnext c hkept

/-- A walk runs as it does with any higher bound. -/
theorem runOn_foldM (p : Pattern) (b : β) {w : Workspace} {k : Nat} (hk : p.reach w.tree ≤ k) :
    (p.foldM Action.tree act b).runOn w = ((fill w.tree p.pieces "." true).foldlM
      (Pending.foldM Action.tree p.directoriesOnly act k) b).runOn w := by
  have hheight (u : Tree) (hu : Fills w.tree u) : u.height ≤ w.tree.height + 1 := height_le_of_fills hu
  rw [Pattern.foldM_eq, Action.runOn_bind, Action.runOn_tree]
  dsimp only
  refine Action.runOn_foldlM_congr (fun q _ b => keeps_pendingFoldM hfills _ _ b q)
    (fun q hq b v hv => ?_) b (refl_of Fills w.tree)
  obtain ⟨hfits, hweight⟩ := fits_of_mem_fill (Nat.le_succ w.tree.height) hq
  exact runOn_pendingFoldM_of_le hfills (fun u hu => hheight u (trans_of Fills hv hu)) hfits
    (lt_reach (Nat.le_refl _) hweight) hk

end Bound

/-! ## 2. Where pieces lead -/

/-- Whether a piece can lead to the directory above. -/
def Piece.leadsUp (p : Piece) : Bool :=
  p == .literal ".." || (p.beginsWithDot && p.isMatch "..")

/-- Whether a piece that does not lead up leads to an entry, and never stays where it is. -/
def Piece.leadsDown : Piece → Bool
  | literal text => decide (Path.IsName text)
  | wild tokens => !((wild tokens).beginsWithDot && (wild tokens).isMatch ".")
  | anyDepth => false

/-- Whether pieces that are followed from some directories deep lead nowhere above where the depth is
counted from, however little each leads down. -/
def staysInside : Nat → List Piece → Bool
  | _, [] => true
  | depth, p :: rest =>
    if p.leadsUp then depth != 0 && staysInside (depth - 1) rest
    else staysInside (if p.leadsDown then depth + 1 else depth) rest

theorem staysInside_mono {d e : Nat} {pieces : List Piece} (hde : d ≤ e)
    (h : staysInside d pieces = true) : staysInside e pieces = true := by
  induction pieces generalizing d e with
  | nil => rfl
  | cons piece rest ih =>
      rw [staysInside] at h ⊢
      split at h
      · rename_i hup
        rw [Bool.and_eq_true, bne_iff_ne] at h
        rw [if_pos hup, Bool.and_eq_true, bne_iff_ne]
        exact ⟨by omega, ih (by omega) h.2⟩
      · rename_i hup
        rw [if_neg hup]
        refine ih ?_ h
        split <;> omega

/-- Whether pieces lead nowhere above where the depth is counted from, and each literal one is one
component. -/
structure Stays (depth : Nat) (pieces : List Piece) : Prop where
  inside : staysInside depth pieces = true
  literal : ∀ text, .literal text ∈ pieces → '/' ∉ text.toList

/-- How many bytes a piece can add to a tail beyond what it adds to its place, which leading up can take
as many bytes from as a place has. -/
def Piece.surplus (span : Nat) (p : Piece) : Nat :=
  (if p.leadsUp then span else 0) +
    match p with
    | literal text => text.utf8ByteSize + 1
    | wild _ => 3
    | anyDepth => 0

/-- How many bytes pieces can add to a tail beyond what they add to its place. -/
def surplus (span : Nat) : List Piece → Nat
  | [] => 0
  | p :: rest => p.surplus span + surplus span rest

section Stays

variable {depth : Nat} {piece : Piece} {pieces rest : List Piece}

theorem Stays.mono {d e : Nat} (h : Stays d pieces) (hde : d ≤ e) : Stays e pieces :=
  ⟨staysInside_mono hde h.inside, h.literal⟩

theorem Stays.literal_rest (h : Stays depth (piece :: rest)) (text : String)
    (htext : .literal text ∈ rest) : '/' ∉ text.toList :=
  h.literal text (List.mem_cons_of_mem _ htext)

/-- Where a piece leads up, there is something above. -/
theorem Stays.up (h : Stays depth (piece :: rest)) (hup : piece.leadsUp = true) :
    depth ≠ 0 ∧ Stays (depth - 1) rest := by
  have hinside := h.inside
  rw [staysInside, if_pos hup, Bool.and_eq_true, bne_iff_ne] at hinside
  exact ⟨hinside.1, hinside.2, h.literal_rest⟩

/-- What stays where it is leads on from as deep as before. -/
theorem Stays.here (h : Stays depth (piece :: rest)) (hdown : piece.leadsDown = false) :
    Stays depth rest := by
  by_cases hup : piece.leadsUp = true
  · exact (h.up hup).2.mono (Nat.sub_le _ _)
  · have hinside := h.inside
    rw [staysInside, if_neg hup, hdown, if_neg Bool.false_ne_true] at hinside
    exact ⟨hinside, h.literal_rest⟩

/-- Whatever a piece leads to, what an entry leads to is deeper still. -/
theorem Stays.down (h : Stays depth (piece :: rest)) : Stays (depth + 1) rest := by
  by_cases hdown : piece.leadsDown = false
  · exact (h.here hdown).mono (Nat.le_succ _)
  by_cases hup : piece.leadsUp = true
  · exact (h.up hup).2.mono (by omega)
  · have hinside := h.inside
    rw [staysInside, if_neg hup, if_pos (Bool.not_eq_false _ ▸ hdown)] at hinside
    exact ⟨hinside, h.literal_rest⟩

/-- Pieces that are merged led nowhere. -/
theorem Stays.mergeDepths (h : Stays depth pieces) : Stays depth (mergeDepths pieces) := by
  induction pieces using mergeDepths.induct with
  | case1 rest ih =>
      rw [Glob.mergeDepths]
      exact ih (h.here rfl)
  | case2 pieces hne =>
      rwa [Glob.mergeDepths]
      exact hne

end Stays

theorem surplus_mergeDepths_le (span : Nat) (pieces : List Piece) :
    surplus span (mergeDepths pieces) ≤ surplus span pieces := by
  induction pieces using mergeDepths.induct with
  | case1 rest ih =>
      rw [mergeDepths]
      exact ih.trans (Nat.le_add_left _ _)
  | case2 pieces hne =>
      rw [mergeDepths]
      exact hne

/-- A component other than two dots does not lead up. -/
theorem notUp_of_component {text : String} (hup : text ≠ "..") (hslash : '/' ∉ text.toList) :
    .up ∉ Path.components text := by
  by_cases hempty : text = ""
  · subst hempty
    simp [Path.components_empty]
  · rw [Path.components_of_slash_not_mem hempty hslash, List.mem_singleton, Path.Component.ofString]
    rw [if_neg hup]
    split <;> simp

/-- A component other than two dots leads to an entry if it is a name, and else nowhere. -/
theorem length_placeOf_component {text : String} (hup : text ≠ "..") (hslash : '/' ∉ text.toList) :
    (placeOf text).length = if Path.IsName text then 1 else 0 := by
  split
  · rename_i hname
    rw [placeOf, Path.components_of_isName hname]
    rfl
  · rename_i hname
    by_cases hempty : text = ""
    · subst hempty
      rfl
    · rw [placeOf, Path.components_of_slash_not_mem hempty hslash, Path.Component.ofString,
        dif_neg hname, if_neg hup]
      rfl

theorem isFromTop_of_component {text : String} (hslash : '/' ∉ text.toList) :
    Path.isFromTop text = false := by
  rw [Path.isFromTop]
  exact decide_eq_false fun hhead => hslash (List.mem_of_head? hhead)

/-! ## 3. Tails -/

/-- Whether a walk can come to a tail with some pieces left: as far as the tail is longer than the span of
its place, that is due to pieces that are not left. -/
structure Reaches (span extra : Nat) (pieces : List Piece) (x : String) : Prop where
  isTail : IsTail x
  size : x.utf8ByteSize + surplus span pieces ≤ spanOf (placeOf x) + extra
  within : spanOf (placeOf x) ≤ span

variable {span extra : Nat} {x text : String} {pieces rest : List Piece} {piece : Piece}

theorem Reaches.size_le (h : Reaches span extra pieces x) : x.utf8ByteSize ≤ span + extra := by
  have hsize := h.size
  have hwithin := h.within
  omega

theorem Reaches.of_surplus_le (h : Reaches span extra pieces x)
    (hrest : surplus span rest ≤ surplus span pieces) : Reaches span extra rest x where
  isTail := h.isTail
  size := by
    have hsize := h.size
    omega
  within := h.within

theorem Reaches.tail (h : Reaches span extra (piece :: rest) x) : Reaches span extra rest x :=
  h.of_surplus_le (Nat.le_add_left _ _)

/-- What a piece adds to a tail by itself, and what it takes from the place, is taken off the surplus. -/
theorem Reaches.extend (h : Reaches span extra (piece :: rest) x)
    (hstays : Path.StaysBelow (placeOf x) (Path.components text))
    (hsize : text.utf8ByteSize + 1 + spanOf (placeOf x) ≤
      piece.surplus span + spanOf (placeOf (extend x text)))
    (hwithin : spanOf (placeOf (extend x text)) ≤ span) :
    Reaches span extra rest (extend x text) where
  isTail := h.isTail.extend hstays
  size := by
    have hx := h.size
    have hextend := Path.utf8ByteSize_extend_le x text
    rw [surplus] at hx
    omega
  within := hwithin

/-- A component that does not go up takes nothing from the place. -/
theorem Reaches.extend_of_notUp (h : Reaches span extra (piece :: rest) x)
    (hup : .up ∉ Path.components text) (hsize : text.utf8ByteSize + 1 ≤ piece.surplus span)
    (hwithin : spanOf (placeOf (Path.extend x text)) ≤ span) :
    Reaches span extra rest (Path.extend x text) := by
  refine h.extend (Path.staysBelow_of_notUp hup _) ?_ hwithin
  rw [Path.placeOf_extend_of_notUp x hup, Tree.spanOf_append]
  omega

/-- Two dots lead up, if there is something above. -/
theorem Reaches.extend_up (h : Reaches span extra (piece :: rest) x) (hne : placeOf x ≠ [])
    (hsize : span + 3 ≤ piece.surplus span) : Reaches span extra rest (Path.extend x "..") := by
  have hcomponents : Path.components ".." = [.up] := rfl
  have hplace : placeOf (Path.extend x "..") = (placeOf x).dropLast := by
    rw [Path.placeOf_extend, hcomponents]
    rfl
  have hbytes : ("..").utf8ByteSize = 2 := rfl
  have hwithin := h.within
  refine h.extend (hcomponents ▸ ⟨hne, trivial⟩) ?_ ?_
  · omega
  · rw [hplace]
    exact (Tree.spanOf_dropLast_le _).trans hwithin

/-- An entry adds as much to a tail as to its place. -/
theorem Reaches.extend_name (h : Reaches span extra pieces x) {k : Name}
    (hwithin : spanOf (placeOf x ++ [k]) ≤ span) : Reaches span extra pieces (Path.extend x k.text) where
  isTail := h.isTail.extend_name k
  size := by
    have hsize := h.size
    have hextend := Path.utf8ByteSize_extend_le x k.text
    rw [Path.placeOf_extend_name, Tree.spanOf_append, Tree.spanOf_cons, Tree.spanOf_nil]
    omega
  within := by
    rw [Path.placeOf_extend_name]
    exact hwithin

/-! ## 4. What is to be tried -/

/-- Whether the same is to be tried in two walks, each behind its name. -/
inductive Pending.Alike (n m : Name) (span extra : Nat) : Pending → Pending → Prop
  | found {x : String} (isDirectory : Bool) : IsTail x → x.utf8ByteSize ≤ span + extra →
      Alike n m span extra (.found (n.text ++ x) isDirectory) (.found (m.text ++ x) isDirectory)
  | entry {x : String} {pieces : List Piece} {depth : Nat} (name : Name) (isDirectory : Bool) :
      Reaches span extra pieces x → (placeOf x).length = depth + 1 → Stays depth pieces →
      Alike n m span extra (.entry (n.text ++ x) name isDirectory pieces)
        (.entry (m.text ++ x) name isDirectory pieces)

/-- Whether two paths have one tail of at most some bytes, each behind its name. -/
def SameTail (n m : Name) (size : Nat) (a b : String) : Prop :=
  ∃ x, IsTail x ∧ x.utf8ByteSize ≤ size ∧ a = n.text ++ x ∧ b = m.text ++ x

theorem inside_tail (n : Name) (hx : IsTail x) (htop : Path.isFromTop text = false) :
    inside (n.text ++ x) text = n.text ++ extend x text := by
  rw [inside, isHere, Path.steps_tail_ne_here n hx, if_neg Bool.false_ne_true, Path.join_tail n x htop]

theorem rel_accepted (n m : Name) (hx : IsTail x) (hsize : x.utf8ByteSize ≤ span + extra)
    (directoriesOnly isDirectory : Bool) : Option.Rel (SameTail n m (span + extra))
      (accepted directoriesOnly (n.text ++ x) isDirectory)
      (accepted directoriesOnly (m.text ++ x) isDirectory) := by
  rw [accepted, accepted]
  split
  · exact .none
  · exact .some ⟨x, hx, hsize, rfl, rfl⟩

/-- A walk from a name begins at the entry of that name. -/
theorem fill_name (t : Tree) (n : Name) (pieces : List Piece) :
    fill t (.literal n.text :: pieces) "." true =
      if t.hasEntry (n.text ++ "") then arrive t pieces (n.text ++ "") else [] := by
  have hinside : inside "." n.text = n.text := by
    have hhere : isHere "." = true := rfl
    rw [inside, hhere, if_pos rfl]
  have hdots : dots.contains n.text = false := by
    rw [Bool.eq_false_iff, Ne, List.contains_iff_mem]
    intro hdot
    rcases List.mem_cons.1 hdot with hup | hdot
    · exact n.isName.2.2.1 hup
    · exact n.isName.2.1 (List.mem_singleton.1 hdot)
  rw [fill_literal, hinside, hdots, if_neg Bool.false_ne_true, String.append_empty]

section Shares

variable {n m : Name} {room : Nat} {t u : Tree} (h : Shares n m span t u)
  (hnames : Interchangeable n m room) (hroom : span + extra ≤ room)

include h hnames hroom

theorem forall₂_arrive (hx : Reaches span extra rest x)
    (hfill : ∀ b, List.Forall₂ (Pending.Alike n m span extra) (fill t rest (n.text ++ x) b)
      (fill u rest (m.text ++ x) b)) :
    List.Forall₂ (Pending.Alike n m span extra) (arrive t rest (n.text ++ x))
      (arrive u rest (m.text ++ x)) := by
  rw [arrive, arrive, h.hasDirectory_eq hnames hx.isTail (hx.size_le.trans hroom)]
  split
  · exact .cons (.found _ hx.isTail hx.size_le) .nil
  · exact hfill _

section Arrives

variable (hstays : Stays (placeOf x).length (piece :: rest)) (hx : Reaches span extra (piece :: rest) x)
  (harrive : ∀ {y : String}, Reaches span extra rest y → Stays (placeOf y).length rest →
    List.Forall₂ (Pending.Alike n m span extra) (arrive t rest (n.text ++ y))
      (arrive u rest (m.text ++ y)))

include hstays hx harrive

omit h hnames hroom in
/-- The directory above is the same behind both names, if it is not above them. -/
theorem forall₂_arrive_up (hup : piece.leadsUp = true) (hsize : span + 3 ≤ piece.surplus span) :
    List.Forall₂ (Pending.Alike n m span extra) (arrive t rest (n.text ++ extend x ".."))
      (arrive u rest (m.text ++ extend x "..")) := by
  obtain ⟨hdepth, hrest⟩ := hstays.up hup
  have hplace : placeOf (extend x "..") = (placeOf x).dropLast := by
    rw [Path.placeOf_extend]
    rfl
  refine harrive (hx.extend_up (List.length_pos_iff.1 (Nat.pos_of_ne_zero hdepth)) hsize) ?_
  rwa [hplace, List.length_dropLast]

omit h hnames hroom in
/-- What stays where it is leads to the same behind both names. -/
theorem forall₂_arrive_here (hdown : piece.leadsDown = false) (hsize : 2 ≤ piece.surplus span) :
    List.Forall₂ (Pending.Alike n m span extra) (arrive t rest (n.text ++ extend x "."))
      (arrive u rest (m.text ++ extend x ".")) := by
  have hplace : placeOf (extend x ".") = placeOf x := by
    rw [Path.placeOf_extend]
    rfl
  refine harrive (hx.extend_of_notUp (notUp_of_component (by decide) (by decide)) hsize ?_) ?_
  · rw [hplace]
    exact hx.within
  · rw [hplace]
    exact hstays.here hdown

theorem forall₂_fill_literal (htext : piece = .literal text) (isDirectory : Bool) :
    List.Forall₂ (Pending.Alike n m span extra) (fill t (piece :: rest) (n.text ++ x) isDirectory)
      (fill u (piece :: rest) (m.text ++ x) isDirectory) := by
  subst htext
  have hslash := hstays.literal text List.mem_cons_self
  have htop := isFromTop_of_component hslash
  have hsize : text.utf8ByteSize + 1 ≤ (Piece.literal text).surplus span := Nat.le_add_left _ _
  rw [fill_literal, fill_literal, inside_tail n hx.isTail htop, inside_tail m hx.isTail htop]
  by_cases hdots : text = ".." ∨ text = "."
  · have hmem : dots.contains text = true := by simpa [dots] using hdots
    rw [if_pos hmem, if_pos hmem]
    split
    · rcases hdots with rfl | rfl
      · exact forall₂_arrive_up hstays hx harrive rfl (Nat.le_refl _)
      · exact forall₂_arrive_here hstays hx harrive rfl hsize
    · exact .nil
  · have hmem : ¬ dots.contains text = true := by simpa [dots] using hdots
    rw [not_or] at hdots
    have hup := notUp_of_component hdots.1 hslash
    have htail := hx.isTail.extend (Path.staysBelow_of_notUp hup _)
    have hroomy : (extend x text).utf8ByteSize ≤ room := by
      have hbound := hx.size
      have hwithin := hx.within
      have hextend := Path.utf8ByteSize_extend_le x text
      rw [surplus] at hbound
      omega
    rw [if_neg hmem, if_neg hmem, ← h.hasEntry_eq hnames htail hroomy]
    split
    · rename_i hthere
      refine harrive (hx.extend_of_notUp hup hsize (h.spanOf_le_of_hasEntry htail hthere)) ?_
      rw [Path.placeOf_extend_of_notUp x hup, List.length_append,
        length_placeOf_component hdots.1 hslash]
      split
      · exact hstays.down
      · rename_i hname
        exact hstays.here (decide_eq_false hname)
    · exact .nil

omit h hnames hroom in
/-- A dot that a piece stands for leads to the same behind both names. -/
theorem forall₂_arrive_dot (hne : ∀ text, piece ≠ .literal text) {dot : String} (hdot : dot ∈ dots)
    (hmatch : (piece.beginsWithDot && piece.isMatch dot) = true) :
    List.Forall₂ (Pending.Alike n m span extra) (arrive t rest (Path.join (n.text ++ x) dot))
      (arrive u rest (Path.join (m.text ++ x) dot)) := by
  have hwild : ∃ tokens, piece = .wild tokens := by
    cases piece with
    | literal text => exact absurd rfl (hne text)
    | wild tokens => exact ⟨tokens, rfl⟩
    | anyDepth => cases hmatch
  obtain ⟨tokens, rfl⟩ := hwild
  rcases List.mem_cons.1 hdot with rfl | hdot
  · have hup : (Piece.wild tokens).leadsUp = true := by
      rw [Piece.leadsUp, hmatch, Bool.or_true]
    have htop : Path.isFromTop ".." = false := rfl
    rw [Path.join_tail n x htop, Path.join_tail m x htop]
    refine forall₂_arrive_up hstays hx harrive hup ?_
    rw [Piece.surplus, if_pos hup]
  · obtain rfl := List.mem_singleton.1 hdot
    have hdown : (Piece.wild tokens).leadsDown = false := by
      rw [Piece.leadsDown, hmatch, Bool.not_true]
    have htop : Path.isFromTop "." = false := rfl
    rw [Path.join_tail n x htop, Path.join_tail m x htop]
    exact forall₂_arrive_here hstays hx harrive hdown (Nat.le_add_left 2 _)

omit hnames hroom harrive in
/-- The entries of a directory are to be tried behind both names. -/
theorem forall₂_entries {d : Directory} (hd : t.directory? (n.text ++ x) = some d) :
    List.Forall₂ (Pending.Alike n m span extra)
      (d.sorted.map fun y =>
        .entry (inside (n.text ++ x) y.1.text) y.1 y.2.isDirectory (piece :: rest))
      (d.sorted.map fun y =>
        .entry (inside (m.text ++ x) y.1.text) y.1 y.2.isDirectory (piece :: rest)) := by
  rw [List.forall₂_map_left_iff, List.forall₂_map_right_iff, List.forall₂_same]
  rintro ⟨k, e⟩ hke
  have hk := (Directory.mem_sorted (distinct_of_directory? hd)).1 hke
  have htop := Path.isFromTop_of_isName k.isName
  dsimp only
  rw [inside_tail n hx.isTail htop, inside_tail m hx.isTail htop]
  refine .entry k _ (hx.extend_name ?_) ?_ hstays
  · obtain ⟨p, hp⟩ := Tree.directory?_eq_some.1 hd
    obtain ⟨-, -, rfl, hat⟩ := Tree.locate_eq_directory.1 hp
    rw [Path.placeOf_tail n hx.isTail] at hat
    refine h.within ?_
    rw [← List.cons_append, Tree.kind?, Directory.kind?_append_of_directory hat, Directory.kind?,
      Directory.at?_singleton, hk]
    simp
  · rw [Path.placeOf_extend_name, List.length_append]
    rfl

theorem forall₂_fill_listed (hne : ∀ text, piece ≠ .literal text) (isDirectory : Bool) :
    List.Forall₂ (Pending.Alike n m span extra) (fill t (piece :: rest) (n.text ++ x) isDirectory)
      (fill u (piece :: rest) (m.text ++ x) isDirectory) := by
  rw [fill_of_ne_literal hne, fill_of_ne_literal hne,
    ← h.directory?_eq hnames hx.isTail (hx.size_le.trans hroom)]
  cases hd : if isDirectory then t.directory? (n.text ++ x) else none with
  | none => exact .nil
  | some d =>
      have hd : t.directory? (n.text ++ x) = some d := by
        cases isDirectory with
        | false => cases hd
        | true => exact hd
      refine List.rel_append (List.rel_flatMap
        (R := fun a b => a = b ∧ a ∈ dots ∧ (piece.beginsWithDot && piece.isMatch a) = true)
        (List.forall₂_same.2 fun dot hdot => ⟨rfl, List.mem_filter.1 hdot⟩) ?_)
        (forall₂_entries h hstays hx hd)
      rintro dot _ ⟨rfl, hdot, hmatch⟩
      exact forall₂_arrive_dot hstays hx harrive hne hdot hmatch

end Arrives

/-- **What has to be tried on pieces in a directory is the same behind both names.** -/
theorem forall₂_fill (hstays : Stays (placeOf x).length pieces) (hx : Reaches span extra pieces x)
    (isDirectory : Bool) : List.Forall₂ (Pending.Alike n m span extra)
      (fill t pieces (n.text ++ x) isDirectory) (fill u pieces (m.text ++ x) isDirectory) := by
  induction pieces generalizing x isDirectory with
  | nil => exact .nil
  | cons piece rest ih =>
      have harrive {y : String} (hy : Reaches span extra rest y) (hrest : Stays (placeOf y).length rest) :=
        forall₂_arrive h hnames hroom hy (ih hrest hy)
      by_cases hliteral : ∃ text, piece = .literal text
      · obtain ⟨text, htext⟩ := hliteral
        exact forall₂_fill_literal h hnames hroom hstays hx harrive htext isDirectory
      · exact forall₂_fill_listed h hnames hroom hstays hx harrive (not_exists.1 hliteral) isDirectory

/-! ## 5. Steps -/

omit h hnames hroom in
/-- What is found by trying the same has one tail. -/
theorem Pending.Alike.hit {p q : Pending} (hpq : Pending.Alike n m span extra p q)
    (directoriesOnly : Bool) :
    Option.Rel (SameTail n m (span + extra)) (p.hit directoriesOnly) (q.hit directoriesOnly) := by
  cases hpq with
  | found isDirectory hx hsize => exact rel_accepted n m hx hsize ..
  | @entry x pieces depth name isDirectory hx hplace hstays =>
      rw [Pending.hit, Pending.hit]
      split
      · split
        · exact .some ⟨x, hx.isTail, hx.size_le, rfl, rfl⟩
        · exact .none
      · split
        · exact rel_accepted n m hx.isTail hx.size_le ..
        · exact .none

/-- **Trying the same comes to the same behind both names.** -/
theorem Pending.Alike.advance {p q : Pending} (hpq : Pending.Alike n m span extra p q)
    (directoriesOnly : Bool) :
    Option.Rel (SameTail n m (span + extra)) (p.advance t directoriesOnly).1
      (q.advance u directoriesOnly).1 ∧
    List.Forall₂ (Pending.Alike n m span extra) (p.advance t directoriesOnly).2
      (q.advance u directoriesOnly).2 := by
  rw [Pending.advance_eq, Pending.advance_eq]
  refine ⟨hpq.hit directoriesOnly, ?_⟩
  cases hpq with
  | found isDirectory hx hsize => exact .nil
  | @entry x pieces depth name isDirectory hx hplace hstays =>
      have hx := hx.of_surplus_le (surplus_mergeDepths_le span pieces)
      have hstays := hstays.mergeDepths
      refine List.rel_flatMap
        (R := fun a b => a = b ∧ a ∈ (Pending.entry (n.text ++ x) name isDirectory pieces).onward)
        (List.forall₂_same.2 fun a ha => ⟨rfl, ha⟩) ?_
      rintro a _ ⟨rfl, ha⟩
      rcases mem_onward_entry.1 ha with ⟨rest, htakes, rfl⟩ | ⟨rest, hrest, -, rfl⟩
      · generalize mergeDepths pieces = merged at hx hstays htakes
        cases htakes with
        | first => exact forall₂_fill h hnames hroom (hplace ▸ hstays.down) hx.tail _
        | second =>
            exact forall₂_fill h hnames hroom (hplace ▸ (hstays.here rfl).down) hx.tail.tail _
      · rw [hrest] at hx hstays
        exact forall₂_fill h hnames hroom (hstays.mono (by omega)) hx true

end Shares

/-! ## 6. Walks -/

section Walks

variable {ε δ β : Type} {n m : Name} {room : Nat} {E : ε → δ → Prop}
  {act : β → String → Action ε β} {act' : β → String → Action δ β}
  (hnames : Interchangeable n m room) (hroom : span + extra ≤ room)
  (hact : ∀ b a a', SameTail n m (span + extra) a a' →
    Alike (Shares n m span) E Eq (act b a) (act' b a'))

include hnames hroom hact

theorem alike_pendingFoldM (directoriesOnly : Bool) (k : Nat) {p q : Pending}
    (hpq : Pending.Alike n m span extra p q) (b : β) :
    Alike (Shares n m span) E Eq (Pending.foldM Action.tree directoriesOnly act k b p)
      (Pending.foldM Action.tree directoriesOnly act' k b q) := by
  induction k generalizing p q b with
  | zero => exact Action.alike_pure rfl
  | succ k ih =>
      rw [foldM_succ, foldM_succ]
      refine Action.alike_tree.bind fun t u h => ?_
      obtain ⟨hhit, hnext⟩ := hpq.advance h hnames hroom directoriesOnly
      refine Alike.bind (A := Eq) ?_ fun c _ hc => hc ▸ Action.alike_foldlM hnext
        (fun p q hpq x y hxy => hxy ▸ ih hpq x) rfl
      generalize (p.advance t directoriesOnly).1 = hit at hhit
      generalize (q.advance u directoriesOnly).1 = hit' at hhit
      cases hhit with
      | none => exact Action.alike_pure rfl
      | some ha => exact hact b _ _ ha

variable (hfills : ∀ b path, Keeps Fills (act b path)) (hfills' : ∀ b path, Keeps Fills (act' b path))

include hfills hfills'

/-- **Walks with the same pieces, each from its name, go alike** if what is done at the paths with one tail
goes alike. -/
theorem alike_foldM (hstays : Stays 0 pieces) (hextra : surplus span pieces ≤ extra)
    (directoriesOnly : Bool) (b : β) : Alike (Shares n m span) E Eq
      (Pattern.foldM ⟨.literal n.text :: pieces, directoriesOnly⟩ Action.tree act b)
      (Pattern.foldM ⟨.literal m.text :: pieces, directoriesOnly⟩ Action.tree act' b) := by
  intro v w h
  have hreaches : Reaches span extra pieces "" := by
    have hplace : placeOf "" = [] := rfl
    refine ⟨Path.isTail_empty, ?_, ?_⟩
    · rw [hplace, Tree.spanOf_nil]
      simpa using hextra
    · rw [hplace]
      exact Nat.zero_le _
  have hfill : List.Forall₂ (Pending.Alike n m span extra)
      (fill v.tree (.literal n.text :: pieces) "." true)
      (fill w.tree (.literal m.text :: pieces) "." true) := by
    rw [fill_name, fill_name, h.hasEntry_eq hnames Path.isTail_empty (Nat.zero_le _)]
    split
    · exact forall₂_arrive h hnames hroom hreaches (forall₂_fill h hnames hroom hstays hreaches)
    · exact .nil
  -- The bounds hang on the whole trees; one that is enough for both walks takes their place.
  have hfirst := le_max_left (Pattern.reach ⟨.literal n.text :: pieces, directoriesOnly⟩ v.tree)
    (Pattern.reach ⟨.literal m.text :: pieces, directoriesOnly⟩ w.tree)
  have hsecond := le_max_right (Pattern.reach ⟨.literal n.text :: pieces, directoriesOnly⟩ v.tree)
    (Pattern.reach ⟨.literal m.text :: pieces, directoriesOnly⟩ w.tree)
  rw [runOn_foldM hfills _ b hfirst, runOn_foldM hfills' _ b hsecond]
  exact Action.alike_foldlM hfill
    (fun p q hpq x y hxy => hxy ▸ alike_pendingFoldM hnames hroom hact directoriesOnly _ hpq x) rfl v w h

end Walks

end Quire.Glob
