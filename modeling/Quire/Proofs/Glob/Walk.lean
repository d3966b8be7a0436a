import Quire.Glob.Walk
import Quire.Proofs.Tree.Growth
import Quire.Proofs.Tree.Listing
import Quire.Proofs.Workspace

/-!
# What a walk comes to

A walk tries paths, one for each way that the pieces of a pattern can be taken, and each comes to others
(`mem_fill_cons`, `Pending.advance_eq`); a path is found by trying something if that or what comes of it
is accepted (`Pending.Finds`).

Files may come into the tree meanwhile, which is no more than that they are listed. **What had to be tried
still has to be tried when there are more files** (`mem_fill_mono`), and **what leads to a file that was
there already was to be tried already** (`mem_fill_of_finds`): a new file is no directory, so nothing is
found by way of it but its own path. **Whatever comes of trying something weighs less than it**
(`weight_lt_of_mem_advance`), so a walk ends by itself.
-/

namespace Quire.Glob

open Quire.Path (Name)
open Quire.Tree (Directory Entry Fills Kind Place placeOf)

variable {t u : Tree} {piece : Piece} {pieces rest : List Piece} {dir path : String}
  {isDirectory directoriesOnly : Bool} {q p : Pending}

/-! ## 1. What has to be tried -/

/-- What is tried next at a path that a piece has led to. -/
def arrive (t : Tree) (rest : List Piece) (path : String) : List Pending :=
  if rest.isEmpty then [.found path (t.hasDirectory path)] else fill t rest path (t.hasDirectory path)

theorem mem_arrive (h : q ∈ arrive t rest path) : q = .found path (t.hasDirectory path) ∨
    q ∈ fill t rest path (t.hasDirectory path) := by
  rw [arrive] at h
  split at h
  · exact .inl (List.mem_singleton.1 h)
  · exact .inr h

/-- Whether a piece leads from a directory to a path without having the directory listed. -/
inductive Leads (t : Tree) (dir : String) (isDirectory : Bool) : Piece → String → Prop
  | dot {text : String} : dots.contains text = true → isDirectory = true →
      Leads t dir isDirectory (.literal text) (inside dir text)
  | entry {text : String} : dots.contains text = false → t.hasEntry (inside dir text) = true →
      Leads t dir isDirectory (.literal text) (inside dir text)
  | listed {piece : Piece} {dot : String} : (∀ text, piece ≠ .literal text) → isDirectory = true →
      t.hasDirectory dir = true → dot ∈ dots → piece.beginsWithDot = true →
      piece.isMatch dot = true → Leads t dir isDirectory piece (Path.join dir dot)

/-- Whether something to be tried is an entry that a directory lists. -/
def IsListed (t : Tree) (pieces : List Piece) (dir : String) (q : Pending) : Prop :=
  ∃ d n e, t.directory? dir = some d ∧ d.get? n = some e ∧
    q = .entry (inside dir n.text) n e.isDirectory pieces

theorem distinct_of_directory? {d : Directory} (h : t.directory? dir = some d) : d.Distinct := by
  obtain ⟨p, hp⟩ := Tree.directory?_eq_some.1 h
  exact t.distinct.at? (Tree.locate_eq_directory.1 hp).2.2.2

theorem fill_literal (t : Tree) (text : String) (rest : List Piece) (dir : String)
    (isDirectory : Bool) : fill t (.literal text :: rest) dir isDirectory =
      if dots.contains text then if isDirectory then arrive t rest (inside dir text) else []
      else if t.hasEntry (inside dir text) then arrive t rest (inside dir text) else [] :=
  rfl

/-- A literal by which a directory goes leads into it. -/
theorem fill_literal_of_hasDirectory {text path : String} (hpath : inside dir text = path)
    (hdot : dots.contains text = false) (hdir : t.hasDirectory path = true) (hrest : rest ≠ []) :
    fill t (.literal text :: rest) dir isDirectory = fill t rest path true := by
  have hentry : t.hasEntry path = true := by
    obtain ⟨d, hd⟩ := Option.isSome_iff_exists.1 hdir
    obtain ⟨p, hl⟩ := Tree.directory?_eq_some.1 hd
    exact Tree.hasEntry_iff.2 (.inl ⟨p, d, hl⟩)
  rw [fill_literal, hdot, hpath, hentry, arrive, if_neg Bool.false_ne_true, if_pos rfl,
    if_neg (by simpa using hrest), hdir]

theorem mem_fill_literal {text : String} : q ∈ fill t (.literal text :: rest) dir isDirectory ↔
    ∃ path, Leads t dir isDirectory (.literal text) path ∧ q ∈ arrive t rest path := by
  rw [fill_literal]
  constructor
  · intro h
    split at h
    · rename_i hdot
      split at h
      · rename_i hdir
        exact ⟨_, .dot hdot hdir, h⟩
      · cases h
    · rename_i hdot
      split at h
      · rename_i hentry
        exact ⟨_, .entry (Bool.eq_false_iff.2 hdot) hentry, h⟩
      · cases h
  · rintro ⟨path, hlead, hq⟩
    cases hlead with
    | dot hdot hdir => rwa [if_pos hdot, if_pos hdir]
    | entry hdot hentry => rwa [if_neg (Bool.eq_false_iff.1 hdot), if_pos hentry]
    | listed hne => exact absurd rfl (hne text)

theorem fill_of_ne_literal (hpiece : ∀ text, piece ≠ .literal text) :
    fill t (piece :: rest) dir isDirectory =
      match if isDirectory then t.directory? dir else none with
      | none => []
      | some d =>
        (dots.filter fun dot => piece.beginsWithDot && piece.isMatch dot).flatMap
            (fun dot => arrive t rest (Path.join dir dot))
          ++ d.sorted.map fun (name, e) =>
            .entry (inside dir name.text) name e.isDirectory (piece :: rest) := by
  cases piece with
  | literal text => exact absurd rfl (hpiece text)
  | wild tokens => rfl
  | anyDepth => rfl

/-- Entries that are listed in order are tried as they are listed. -/
theorem fill_anyDepth_of_pairwise (entries : List (Name × Bool))
    (hentries : (t.directory? dir).map (fun d => d.entries.map fun x => (x.1, x.2.isDirectory)) =
      some entries) (hsorted : entries.Pairwise fun a b => (!b.1.lt a.1) = true) :
    fill t (.anyDepth :: rest) dir true =
      entries.map fun x => .entry (inside dir x.1.text) x.1 x.2 (.anyDepth :: rest) := by
  rw [Option.map_eq_some_iff] at hentries
  obtain ⟨d, hd, rfl⟩ := hentries
  rw [List.pairwise_map] at hsorted
  rw [fill_of_ne_literal (by simp), if_pos rfl, hd]
  simp [Piece.beginsWithDot, Tree.Directory.sorted, List.mergeSort_of_pairwise hsorted]

/-- A piece that is no literal leads to the dots that it stands for, where there is a directory. -/
theorem leads_of_ne_literal (hpiece : ∀ text, piece ≠ .literal text) :
    Leads t dir isDirectory piece path ↔ isDirectory = true ∧ t.hasDirectory dir = true ∧
      ∃ dot ∈ dots, (piece.beginsWithDot && piece.isMatch dot) = true ∧ path = Path.join dir dot := by
  constructor
  · intro h
    cases h with
    | dot => exact absurd rfl (hpiece _)
    | entry => exact absurd rfl (hpiece _)
    | @listed _ dot _ hdir hthere hdot hbegins hmatch =>
        exact ⟨hdir, hthere, dot, hdot, by rw [hbegins, hmatch]; rfl, rfl⟩
  · rintro ⟨hdir, hthere, dot, hdot, hmatch, rfl⟩
    rw [Bool.and_eq_true] at hmatch
    exact .listed hpiece hdir hthere hdot hmatch.1 hmatch.2

theorem mem_fill_listed (hpiece : ∀ text, piece ≠ .literal text) :
    q ∈ fill t (piece :: rest) dir isDirectory ↔
      (∃ path, Leads t dir isDirectory piece path ∧ q ∈ arrive t rest path) ∨
        isDirectory = true ∧ IsListed t (piece :: rest) dir q := by
  rw [fill_of_ne_literal hpiece]
  simp only [leads_of_ne_literal hpiece, IsListed, Tree.hasDirectory]
  cases isDirectory with
  | false => simp
  | true =>
      cases hd : t.directory? dir with
      | none => simp
      | some d =>
          simp only [if_true, List.mem_append, List.mem_flatMap, List.mem_filter, List.mem_map,
            Directory.mem_sorted (distinct_of_directory? hd), Prod.exists]
          refine or_congr ⟨?_, ?_⟩ ⟨?_, ?_⟩
          · rintro ⟨dot, ⟨hdot, hmatch⟩, hq⟩
            exact ⟨_, ⟨trivial, rfl, dot, hdot, hmatch, rfl⟩, hq⟩
          · rintro ⟨_, ⟨-, -, dot, hdot, hmatch, rfl⟩, hq⟩
            exact ⟨dot, ⟨hdot, hmatch⟩, hq⟩
          · rintro ⟨n, e, hne, rfl⟩
            exact ⟨trivial, d, n, e, rfl, hne, rfl⟩
          · rintro ⟨-, _, n, e, ⟨⟩, hne, rfl⟩
            exact ⟨n, e, hne, rfl⟩

/-- **What has to be tried on pieces in a directory** is what the first of them leads to, and, if it
is no literal, the entries that are listed. -/
theorem mem_fill_cons : q ∈ fill t (piece :: rest) dir isDirectory ↔
    (∃ path, Leads t dir isDirectory piece path ∧ q ∈ arrive t rest path) ∨
      (∀ text, piece ≠ .literal text) ∧ isDirectory = true ∧ IsListed t (piece :: rest) dir q := by
  by_cases hpiece : ∃ text, piece = .literal text
  · obtain ⟨text, rfl⟩ := hpiece
    rw [mem_fill_literal]
    exact ⟨.inl, fun h => h.elim id fun h => absurd rfl (h.1 text)⟩
  · rw [mem_fill_listed (not_exists.1 hpiece)]
    exact or_congr_right ⟨fun h => ⟨not_exists.1 hpiece, h⟩, fun h => h.2⟩

/-! ## 2. Inside and outside of directories -/

theorem placeOf_of_isHere (h : isHere dir = true) : placeOf dir = [] := by
  have hsteps : Path.stepsOf (Path.components dir) = [.here] := by
    rw [← Path.steps_eq]
    exact eq_of_beq h
  rw [placeOf, ← Tree.placeFrom_stepsOf, hsteps]
  rfl

theorem placeOf_inside (dir : String) (n : Name) :
    placeOf (inside dir n.text) = placeOf dir ++ [n] := by
  rw [inside]
  split
  · rename_i h
    rw [placeOf_of_isHere h, placeOf, Path.components_text_name]
    rfl
  · exact Tree.placeOf_join_name dir n

theorem kind?_of_hasDirectory (h : t.hasDirectory path = true) :
    t.kind? (placeOf path) = some .directory := by
  obtain ⟨d, hd⟩ := Option.isSome_iff_exists.1 h
  obtain ⟨p, hp⟩ := Tree.directory?_eq_some.1 hd
  obtain ⟨-, -, rfl, hat⟩ := Tree.locate_eq_directory.1 hp
  exact Tree.kind?_eq_directory.2 ⟨d, hat⟩

/-- What stands in a directory is looked up in it. -/
theorem kind?_of_directory? {d : Directory} (hd : t.directory? dir = some d) (n : Name) :
    t.kind? (placeOf dir ++ [n]) = (d.get? n).map Entry.kind := by
  obtain ⟨p, hp⟩ := Tree.directory?_eq_some.1 hd
  obtain ⟨-, -, rfl, hat⟩ := Tree.locate_eq_directory.1 hp
  rw [Tree.kind?, Directory.kind?_append_of_directory hat, Directory.kind?, Directory.at?_singleton]

/-- The entries that are listed, by their kinds. -/
theorem isListed_iff : IsListed t pieces dir q ↔ t.hasDirectory dir = true ∧
    ∃ n k, t.kind? (placeOf dir ++ [n]) = some k ∧
      q = .entry (inside dir n.text) n k.isDirectory pieces := by
  constructor
  · rintro ⟨d, n, e, hd, hn, rfl⟩
    refine ⟨by rw [Tree.hasDirectory, hd]; rfl, n, e.kind,
      by rw [kind?_of_directory? hd, hn]; rfl, ?_⟩
    rw [Entry.isDirectory_kind]
  · rintro ⟨hdir, n, k, hk, rfl⟩
    obtain ⟨d, hd⟩ := Option.isSome_iff_exists.1 hdir
    rw [kind?_of_directory? hd, Option.map_eq_some_iff] at hk
    obtain ⟨e, he, rfl⟩ := hk
    exact ⟨d, n, e, hd, he, by rw [Entry.isDirectory_kind]⟩

/-- **Nothing is inside of what is no directory.** -/
theorem hasEntry_inside_eq_false (h : t.kind? (placeOf dir) ≠ some .directory) (text : String) :
    t.hasEntry (inside dir text) = false := by
  rw [inside]
  split
  · rename_i hhere
    rw [placeOf_of_isHere hhere] at h
    exact absurd (Tree.kind?_nil t) h
  rw [Bool.eq_false_iff]
  intro hentry
  have hpass (hp : t.Passes [] (Path.components dir)) : False :=
    h (hp.kind? (Tree.kind?_nil t))
  cases htop : Path.isFromTop text with
  | true =>
      have hjoin : Path.join dir text = text := by rw [Path.join, htop, if_pos rfl]
      rw [hjoin] at hentry
      rw [Tree.isFromTop_of_hasEntry hentry] at htop
      cases htop
  | false =>
      rcases Tree.hasEntry_iff.1 hentry with ⟨p, i, hl⟩ | ⟨p, c, hl⟩
      · obtain ⟨-, hp, -, -⟩ := Tree.locate_eq_directory.1 hl
        rw [Path.components_join dir htop] at hp
        exact hpass (Tree.passes_append.1 hp).1
      · obtain ⟨hf, hslash, ⟨ds, n, hcs, hp, -⟩, -, -⟩ := Tree.locate_eq_file.1 hl
        rw [Path.components_join dir htop] at hcs
        rcases List.eq_nil_or_concat (Path.components text) with hnil | ⟨ts, c, hts⟩
        · obtain rfl := Path.eq_empty_of_components_eq_nil hnil htop
          by_cases hdir : dir = ""
          · subst hdir
            exact hf.2.1 rfl
          · rw [Path.endsInSlash_join_empty hdir] at hslash
            cases hslash
        · rw [hts, List.concat_eq_append, ← List.append_assoc] at hcs
          obtain ⟨rfl, -⟩ := List.append_inj' hcs rfl
          exact hpass (Tree.passes_append.1 hp).1

theorem fill_eq_nil (h : t.kind? (placeOf dir) ≠ some .directory) (pieces : List Piece) :
    fill t pieces dir false = [] := by
  cases pieces with
  | nil => rfl
  | cons piece rest =>
      rw [List.eq_nil_iff_forall_not_mem]
      intro q hq
      rcases mem_fill_cons.1 hq with ⟨path, hlead, -⟩ | ⟨-, hdir, -⟩
      · cases hlead with
        | dot _ hdir => cases hdir
        | entry _ hentry =>
            rw [hasEntry_inside_eq_false h] at hentry
            cases hentry
        | listed _ hdir => cases hdir
      · cases hdir

/-! ## 3. One step -/

/-- The path that something to be tried is at. -/
def Pending.way : Pending → String
  | found path _ => path
  | entry path _ _ _ => path

/-- Whether a name takes the first of some pieces, or behind two stars the second, and which are
left then. -/
inductive Takes (name : Name) : List Piece → List Piece → Prop
  | first {piece : Piece} {rest : List Piece} : piece ≠ .anyDepth →
      piece.isMatch name.text = true → Takes name (piece :: rest) rest
  | second {piece : Piece} {rest : List Piece} :
      piece.isMatch name.text = true → Takes name (.anyDepth :: piece :: rest) rest

/-- The pieces that are left if a name takes the first of some. -/
def takeFirst? (name : Name) : List Piece → Option (List Piece)
  | [] => none
  | piece :: rest => if piece.isMatch name.text then some rest else none

/-- The pieces that are left if a name takes the first of some, or behind two stars the second. -/
def take? (name : Name) : List Piece → Option (List Piece)
  | .anyDepth :: rest => takeFirst? name rest
  | pieces => takeFirst? name pieces

/-- The path that is found by trying something. -/
def Pending.hit (directoriesOnly : Bool) : Pending → Option String
  | found path isDirectory => accepted directoriesOnly path isDirectory
  | entry path name isDirectory pieces =>
    if mergeDepths pieces = [.anyDepth] then if isDirectory then some path else none
    else if take? name (mergeDepths pieces) = some [] then accepted directoriesOnly path isDirectory
    else none

/-- The pieces that are to be tried next at the path of something that was tried, and whether as in a
directory. -/
def Pending.onward : Pending → List (List Piece × Bool)
  | found _ _ => []
  | entry _ name isDirectory pieces =>
    ((take? name (mergeDepths pieces)).map fun rest => (rest, isDirectory)).toList ++
      if isDirectory ∧ (mergeDepths pieces).head? = some .anyDepth then [(mergeDepths pieces, true)]
      else []

theorem take?_of_ne (h : piece ≠ .anyDepth) (name : Name) :
    take? name (piece :: rest) = takeFirst? name (piece :: rest) := by
  cases piece with
  | literal text => rfl
  | wild tokens => rfl
  | anyDepth => exact absurd rfl h

theorem take?_eq_some {name : Name} : take? name pieces = some rest ↔ Takes name pieces rest := by
  constructor
  · intro h
    cases pieces with
    | nil => cases h
    | cons piece more =>
        by_cases hpiece : piece = .anyDepth
        · subst hpiece
          cases more with
          | nil => cases h
          | cons piece more =>
              obtain ⟨hmatch, h⟩ := Option.ite_none_right_eq_some.1 h
              rw [← Option.some.inj h]
              exact .second hmatch
        · rw [take?_of_ne hpiece, takeFirst?] at h
          obtain ⟨hmatch, h⟩ := Option.ite_none_right_eq_some.1 h
          rw [← Option.some.inj h]
          exact .first hpiece hmatch
  · intro h
    cases h with
    | first hpiece hmatch => rw [take?_of_ne hpiece, takeFirst?, if_pos hmatch]
    | second hmatch => exact if_pos hmatch

theorem tryPiece_eq (t : Tree) (path : String) (name : Name) (piece : Piece) (rest : List Piece) :
    tryPiece t directoriesOnly path name isDirectory piece rest =
      (if takeFirst? name (piece :: rest) = some [] then accepted directoriesOnly path isDirectory
        else none,
      ((takeFirst? name (piece :: rest)).map fun rest => (rest, isDirectory)).toList.flatMap
        fun x => fill t x.1 path x.2) := by
  rw [tryPiece, takeFirst?]
  split
  · cases rest with
    | nil => rfl
    | cons next rest => simp
  · rfl

/-- Where no two stars come first, an entry has to be tried on what its name leaves of the pieces. -/
theorem Pending.onward_of_ne {name : Name} (h : mergeDepths pieces = piece :: rest)
    (hpiece : piece ≠ .anyDepth) : (entry path name isDirectory pieces).onward =
      ((takeFirst? name (piece :: rest)).map fun rest => (rest, isDirectory)).toList := by
  have hhead : ¬ (isDirectory = true ∧ (piece :: rest).head? = some .anyDepth) :=
    fun h => hpiece (Option.some.inj h.2)
  rw [onward, h, if_neg hhead, List.append_nil, take?_of_ne hpiece]

/-- **What comes of trying something** is the path that is found, and what has to be tried at its path on
the pieces that are left. Only the latter depends on the tree. -/
theorem Pending.advance_eq (t : Tree) (directoriesOnly : Bool) (p : Pending) :
    p.advance t directoriesOnly =
      (p.hit directoriesOnly, p.onward.flatMap fun x => fill t x.1 p.way x.2) := by
  cases p with
  | found path isDirectory => rfl
  | entry path name isDirectory pieces =>
      rw [advance, hit, way]
      cases hmerged : mergeDepths pieces with
      | nil =>
          rw [onward, hmerged]
          simp [take?, takeFirst?]
      | cons piece rest =>
          by_cases hpiece : piece = .anyDepth
          · subst hpiece
            rw [onward, hmerged]
            cases rest with
            | nil => cases isDirectory <;> simp [take?, takeFirst?]
            | cons next rest =>
                have htake : take? name (.anyDepth :: next :: rest) = takeFirst? name (next :: rest) :=
                  rfl
                rw [htake]
                cases isDirectory <;> simp [tryPiece_eq]
          · have hone : (piece :: rest) ≠ [.anyDepth] := fun h => hpiece (List.cons.inj h).1
            rw [if_neg hone, onward_of_ne hmerged hpiece, take?_of_ne hpiece]
            cases piece with
            | literal text => exact tryPiece_eq ..
            | wild tokens => exact tryPiece_eq ..
            | anyDepth => exact absurd rfl hpiece

theorem mem_advance : q ∈ (p.advance t directoriesOnly).2 ↔
    ∃ rest isDirectory, (rest, isDirectory) ∈ p.onward ∧ q ∈ fill t rest p.way isDirectory := by
  rw [Pending.advance_eq, List.mem_flatMap, Prod.exists]

/-- An entry has to be tried on what its name leaves of the pieces, and what lies in it on two stars. -/
theorem mem_onward_entry {name : Name} {x : List Piece × Bool} :
    x ∈ (Pending.entry path name isDirectory pieces).onward ↔
      (∃ rest, Takes name (mergeDepths pieces) rest ∧ x = (rest, isDirectory)) ∨
      ∃ rest, mergeDepths pieces = .anyDepth :: rest ∧ isDirectory = true ∧
        x = (.anyDepth :: rest, true) := by
  rw [Pending.onward, List.mem_append, Option.mem_toList, Option.map_eq_some_iff]
  refine or_congr (exists_congr fun rest => ?_) ?_
  · rw [take?_eq_some, eq_comm]
  · rw [List.mem_ite_nil_right, List.mem_singleton, List.head?_eq_some_iff]
    constructor
    · rintro ⟨⟨hdir, rest, hrest⟩, rfl⟩
      exact ⟨rest, hrest, hdir, by rw [hrest]⟩
    · rintro ⟨rest, hrest, hdir, rfl⟩
      exact ⟨⟨hdir, rest, hrest⟩, by rw [hrest]⟩

/-- What is found does not hang on the tree. -/
theorem fst_advance (t u : Tree) (directoriesOnly : Bool) (p : Pending) :
    (p.advance t directoriesOnly).1 = (p.advance u directoriesOnly).1 := by
  rw [Pending.advance_eq, Pending.advance_eq]

/-- Trying something finds its own path if any. -/
theorem eq_way_of_advance (h : (q.advance t directoriesOnly).1 = some path) : path = q.way := by
  rw [Pending.advance_eq] at h
  have haccepted {way : String} {isDirectory : Bool}
      (h : accepted directoriesOnly way isDirectory = some path) : path = way := by
    rw [accepted] at h
    split at h
    · cases h
    · exact (Option.some.inj h).symm
  cases q with
  | found way isDirectory => exact haccepted h
  | entry way name isDirectory pieces =>
      rw [Pending.hit] at h
      split at h
      · split at h
        · exact (Option.some.inj h).symm
        · cases h
      · split at h
        · exact haccepted h
        · cases h

/-! ## 4. What is found -/

/-- Whether a path is found in a tree by trying something and what comes of it. -/
inductive Pending.Finds (t : Tree) (directoriesOnly : Bool) (path : String) : Pending → Prop
  | here {p : Pending} : (p.advance t directoriesOnly).1 = some path → Finds t directoriesOnly path p
  | later {p q : Pending} : q ∈ (p.advance t directoriesOnly).2 → Finds t directoriesOnly path q →
      Finds t directoriesOnly path p

theorem eq_of_finds_found (h : (Pending.found dir isDirectory).Finds t directoriesOnly path) :
    path = dir := by
  cases h with
  | here h => exact eq_way_of_advance h
  | later hq => cases hq

/-- Pieces of text alone lead to the one path that they make up. -/
theorem eq_of_finds_literals {texts : List String}
    (hq : q ∈ fill t (texts.map .literal) dir isDirectory)
    (h : q.Finds t directoriesOnly path) : path = texts.foldl inside dir := by
  induction texts generalizing dir isDirectory with
  | nil => cases hq
  | cons text texts ih =>
      rw [List.map_cons, mem_fill_literal] at hq
      obtain ⟨next, hlead, hq⟩ := hq
      obtain rfl : next = inside dir text := by
        cases hlead with
        | dot => rfl
        | entry => rfl
        | listed hpiece => exact absurd rfl (hpiece text)
      rw [arrive] at hq
      cases texts with
      | nil =>
          rw [List.map_nil, List.isEmpty_nil, if_pos rfl, List.mem_singleton] at hq
          subst hq
          rw [List.foldl_cons, List.foldl_nil]
          exact eq_of_finds_found h
      | cons last texts =>
          rw [List.map_cons, List.isEmpty_cons, if_neg Bool.false_ne_true, ← List.map_cons] at hq
          rw [List.foldl_cons]
          exact ih hq

/-- Where an entry is no directory, its own path alone can be found. -/
theorem eq_of_finds_entry {name : Name}
    (h : (Pending.entry dir name false pieces).Finds t directoriesOnly path)
    (hdir : t.kind? (placeOf dir) ≠ some .directory) : path = dir := by
  cases h with
  | here h => exact eq_way_of_advance h
  | later hq =>
      obtain ⟨rest, isDirectory, honward, hq⟩ := mem_advance.1 hq
      rcases mem_onward_entry.1 honward with ⟨_, -, ⟨⟩⟩ | ⟨_, -, hfalse, -⟩
      · rw [Pending.way, fill_eq_nil hdir] at hq
        cases hq
      · cases hfalse

/-- From the path of a file, that path alone can be found. -/
theorem eq_of_finds_arrive {place : Place} {c : ByteArray}
    (hl : t.locate path = .ok (.file place c)) (hq : q ∈ arrive t rest path) {found : String}
    (h : q.Finds t directoriesOnly found) : found = path := by
  have hdir : t.hasDirectory path = false := by
    rw [Tree.hasDirectory, Tree.directory?, hl]
    rfl
  have hkind : t.kind? (placeOf path) ≠ some .directory := by
    obtain ⟨-, -, -, rfl, hat⟩ := Tree.locate_eq_file.1 hl
    rw [Tree.kind?_eq_file.2 hat]
    simp
  rw [arrive, hdir] at hq
  split at hq
  · rw [List.mem_singleton] at hq
    subst hq
    exact eq_of_finds_found h
  · rw [fill_eq_nil hkind] at hq
    cases hq

/-! ## 5. Walks in two trees -/

section Fills

variable (h : Fills t u)

include h

theorem Leads.mono (hlead : Leads t dir isDirectory piece path) :
    Leads u dir isDirectory piece path := by
  cases hlead with
  | dot hdot hdir => exact .dot hdot hdir
  | entry hdot hentry => exact .entry hdot (h.hasEntry hentry)
  | listed hpiece hdir hthere hdot hbegins hmatch =>
      exact .listed hpiece hdir (h.hasDirectory_eq.trans hthere) hdot hbegins hmatch

theorem IsListed.mono (hq : IsListed t pieces dir q) : IsListed u pieces dir q := by
  obtain ⟨hdir, n, k, hk, rfl⟩ := isListed_iff.1 hq
  obtain ⟨l, hl, hlk⟩ := h.exists_kind? hk
  exact isListed_iff.2 ⟨h.hasDirectory_eq.trans hdir, n, l, hl, by rw [hlk]⟩

/-- **What has to be tried still has to be tried when there are more files.** -/
theorem mem_fill_mono (hq : q ∈ fill t pieces dir isDirectory) :
    q ∈ fill u pieces dir isDirectory := by
  induction pieces generalizing dir isDirectory with
  | nil => cases hq
  | cons piece rest ih =>
      rcases mem_fill_cons.1 hq with ⟨path, hlead, harrive⟩ | ⟨hpiece, hdir, hlisted⟩
      · refine mem_fill_cons.2 (.inl ⟨path, hlead.mono h, ?_⟩)
        rw [arrive] at harrive ⊢
        rw [h.hasDirectory_eq]
        split
        · rename_i hrest
          rwa [if_pos hrest] at harrive
        · rename_i hrest
          rw [if_neg hrest] at harrive
          exact ih harrive
      · exact mem_fill_cons.2 (.inr ⟨hpiece, hdir, hlisted.mono h⟩)

theorem mem_advance_mono (hq : q ∈ (p.advance t directoriesOnly).2) :
    q ∈ (p.advance u directoriesOnly).2 := by
  obtain ⟨rest, isDirectory, honward, hq⟩ := mem_advance.1 hq
  exact mem_advance.2 ⟨rest, isDirectory, honward, mem_fill_mono h hq⟩

variable (hfile : t.hasFile path = true)

include hfile

/-- A literal that stands for a new file leads to nothing that was there already. -/
theorem hasEntry_of_finds_arrive {way : String} (hentry : u.hasEntry way = true)
    (hq : q ∈ arrive u rest way) (hfinds : q.Finds u directoriesOnly path) :
    t.hasEntry way = true := by
  obtain ⟨place, c, hl⟩ := Tree.hasFile_iff.1 hfile
  rcases Tree.hasEntry_iff.1 hentry with ⟨p, i, hdirectory⟩ | ⟨p, d, hnew⟩
  · obtain ⟨j, hj⟩ := h.exists_directory?_iff.1 ⟨i, Tree.directory?_eq_some.2 ⟨p, hdirectory⟩⟩
    obtain ⟨r, hr⟩ := Tree.directory?_eq_some.1 hj
    exact Tree.hasEntry_iff.2 (.inl ⟨r, j, hr⟩)
  · rw [eq_of_finds_arrive hnew hq hfinds] at hl
    exact Tree.hasEntry_iff.2 (.inr ⟨place, c, hl⟩)

/-- **What leads to a file that was there already was to be tried already.** -/
theorem mem_fill_of_finds (hq : q ∈ fill u pieces dir isDirectory)
    (hfinds : q.Finds u directoriesOnly path) : q ∈ fill t pieces dir isDirectory := by
  obtain ⟨place, c, hl⟩ := Tree.hasFile_iff.1 hfile
  obtain ⟨-, -, -, rfl, hat⟩ := Tree.locate_eq_file.1 hl
  induction pieces generalizing dir isDirectory with
  | nil => cases hq
  | cons piece rest ih =>
      rcases mem_fill_cons.1 hq with ⟨way, hlead, harrive⟩ | ⟨hpiece, hdir, hlisted⟩
      · have hback (hlead' : Leads t dir isDirectory piece way) :
            q ∈ fill t (piece :: rest) dir isDirectory := by
          refine mem_fill_cons.2 (.inl ⟨way, hlead', ?_⟩)
          rw [arrive] at harrive ⊢
          rw [h.hasDirectory_eq] at harrive
          split
          · rename_i hrest
            rwa [if_pos hrest] at harrive
          · rename_i hrest
            rw [if_neg hrest] at harrive
            exact ih harrive
        cases hlead with
        | dot hdot hdir => exact hback (.dot hdot hdir)
        | listed hpiece hdir hthere hdot hbegins hmatch =>
            exact hback (.listed hpiece hdir (h.hasDirectory_eq.symm.trans hthere) hdot hbegins hmatch)
        | entry hdot hentry =>
            exact hback (.entry hdot (hasEntry_of_finds_arrive h hfile hentry harrive hfinds))
      · refine mem_fill_cons.2 (.inr ⟨hpiece, hdir, ?_⟩)
        obtain ⟨hthere, n, k, hk, rfl⟩ := isListed_iff.1 hlisted
        refine isListed_iff.2 ⟨h.hasDirectory_eq.symm.trans hthere, ?_⟩
        cases k with
        | directory => exact ⟨n, _, h.kind?_eq_directory.1 hk, rfl⟩
        | file d =>
            have hne : u.kind? (placeOf (inside dir n.text)) ≠ some .directory := by
              rw [placeOf_inside, hk]
              simp
            rw [Kind.isDirectory] at hfinds
            rw [eq_of_finds_entry hfinds hne, placeOf_inside] at hat
            exact ⟨n, _, Tree.kind?_eq_file.2 hat, rfl⟩

theorem mem_advance_of_finds (hq : q ∈ (p.advance u directoriesOnly).2)
    (hfinds : q.Finds u directoriesOnly path) : q ∈ (p.advance t directoriesOnly).2 := by
  obtain ⟨rest, isDirectory, honward, hq⟩ := mem_advance.1 hq
  exact mem_advance.2 ⟨rest, isDirectory, honward, mem_fill_of_finds h hfile hq hfinds⟩

end Fills

/-! ## 6. How deep a walk goes -/

/-- A bound for how deep what comes of trying something lies, in a tree of a height. -/
def Pending.weight (height : Nat) : Pending → Nat
  | .found _ _ => 0
  | .entry path _ _ pieces => pieces.length * (height + 1) - (placeOf path).length

/-- Whether something to be tried can come up in a tree of a height. -/
def Pending.Fits (height : Nat) : Pending → Prop
  | .found _ _ => True
  | .entry path _ _ pieces => pieces ≠ [] ∧ (placeOf path).length ≤ height

variable {height : Nat}

theorem length_le_of_isListed (hheight : t.height ≤ height) (h : IsListed t pieces dir q) :
    ∃ n isDirectory, q = .entry (inside dir n.text) n isDirectory pieces ∧
      (placeOf (inside dir n.text)).length = (placeOf dir).length + 1 ∧
      (placeOf dir).length + 1 ≤ height := by
  obtain ⟨-, n, k, hk, rfl⟩ := isListed_iff.1 h
  have hlength : (placeOf (inside dir n.text)).length = (placeOf dir).length + 1 := by
    rw [placeOf_inside, List.length_append, List.length_singleton]
  refine ⟨n, k.isDirectory, rfl, hlength, ?_⟩
  have hbound := Tree.length_le_height_of_kind? hk
  rw [← placeOf_inside, hlength] at hbound
  exact hbound.trans hheight

/-- What has to be tried on pieces weighs less than all the pieces on every level. -/
theorem fits_of_mem_fill (hheight : t.height ≤ height) (hq : q ∈ fill t pieces dir isDirectory) :
    q.Fits height ∧ q.weight height < pieces.length * (height + 1) := by
  induction pieces generalizing dir isDirectory with
  | nil => cases hq
  | cons piece rest ih =>
      have hlength : (piece :: rest).length * (height + 1) =
          rest.length * (height + 1) + (height + 1) := by
        rw [List.length_cons, Nat.succ_mul]
      rcases mem_fill_cons.1 hq with ⟨way, -, harrive⟩ | ⟨-, -, hlisted⟩
      · rcases mem_arrive harrive with rfl | harrive
        · exact ⟨trivial, by rw [Pending.weight, hlength]; omega⟩
        · obtain ⟨hfits, hweight⟩ := ih harrive
          exact ⟨hfits, by omega⟩
      · obtain ⟨n, b, rfl, hn, hle⟩ := length_le_of_isListed hheight hlisted
        refine ⟨⟨List.cons_ne_nil _ _, by rw [hn]; exact hle⟩, ?_⟩
        rw [Pending.weight, hn]
        omega

theorem length_mergeDepths_le (pieces : List Piece) :
    (mergeDepths pieces).length ≤ pieces.length := by
  induction pieces using mergeDepths.induct with
  | case1 rest ih =>
      rw [mergeDepths]
      exact ih.trans (Nat.le_succ _)
  | case2 pieces h =>
      rw [mergeDepths]
      exact h

theorem Takes.length_lt {name : Name} (h : Takes name pieces rest) :
    rest.length + 1 ≤ pieces.length := by
  cases h <;> simp

/-- **Whatever comes of trying something weighs less than it.** -/
theorem weight_lt_of_mem_advance (hheight : t.height ≤ height) (hp : p.Fits height)
    (hq : q ∈ (p.advance t directoriesOnly).2) :
    q.Fits height ∧ q.weight height < p.weight height := by
  cases p with
  | found path isDirectory => cases hq
  | entry path name isDirectory pieces =>
      have hmerge := length_mergeDepths_le pieces
      have hle := hp.2
      obtain ⟨rest, isDirectory, honward, hq⟩ := mem_advance.1 hq
      rcases mem_onward_entry.1 honward with ⟨rest, htakes, ⟨⟩⟩ | ⟨rest, hrest, -, ⟨⟩⟩
      · obtain ⟨hfits, hweight⟩ := fits_of_mem_fill hheight hq
        have hmul := Nat.mul_le_mul_right (height + 1) (htakes.length_lt.trans hmerge)
        rw [Nat.succ_mul] at hmul
        refine ⟨hfits, ?_⟩
        rw [Pending.weight]
        omega
      · rw [hrest] at hmerge
        have hmul := Nat.mul_le_mul_right (height + 1) hmerge
        have hone : height + 1 ≤ (Piece.anyDepth :: rest).length * (height + 1) :=
          Nat.le_mul_of_pos_left _ (Nat.succ_pos _)
        rcases mem_fill_cons.1 hq with ⟨way, hlead, -⟩ | ⟨-, -, hlisted⟩
        · cases hlead with
          | listed _ _ _ _ hbegins => cases hbegins
        · obtain ⟨n, b, rfl, hn, hdeep⟩ := length_le_of_isListed hheight hlisted
          refine ⟨⟨List.cons_ne_nil _ _, by rw [hn]; exact hdeep⟩, ?_⟩
          rw [Pending.way] at hn
          rw [Pending.weight, Pending.weight, Pending.way, hn]
          omega

end Quire.Glob
