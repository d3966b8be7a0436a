import Quire.Proofs.Regex.Taking

/-!
# The match that is preferred

`Prefers r p q` says that of the matches of `r` that begin at `p` the preferred one ends at `q`. The rules
follow the expression: parts one after another, alternatives of which the first does not match, rounds as
many as there can be, or as few (`Prefers.again`, `Prefers.lazyAgain`). They lead to a match where every
choice that is made first is the right one; where it is not, the places where matches can end are told one
by one (`mem_ends_run`).

A run is a repetition of one set of characters. **It takes all that is of the set** (`prefers_run`).
-/

namespace Quire.Regex

open Place

/-! ## 1. Places behind characters -/

namespace Place

/-- The place between two lists of characters, of which one follows the other. -/
def behind (b : Option Char) (s t : List Char) : Place :=
  facing (s.getLast?.or b) t

variable {b : Option Char} {c : Char} {s t cs : List Char} {p q : Place}

@[simp] theorem behind_nil : behind b [] t = facing b t := rfl

theorem getLast?_cons_or (b : Option Char) (c : Char) (s : List Char) :
    (c :: s).getLast?.or b = s.getLast?.or (some c) := by
  rw [List.getLast?_cons]
  cases s.getLast? <;> rfl

@[simp] theorem behind_cons : behind b (c :: s) t = behind (some c) s t := by
  rw [behind, behind, getLast?_cons_or]

theorem behind_append (x : List Char) :
    behind b (x ++ s) t = behind (x.getLast?.or b) s t := by
  rw [behind, behind, List.getLast?_append, Option.or_assoc]

@[simp] theorem before_behind : (behind b s t).before = s.getLast?.or b := rfl

@[simp] theorem rest_behind : (behind b s t).rest = t := rfl

/-- **The places of a list are those between two parts of it.** -/
theorem reaches_facing_iff :
    (facing b cs).Reaches q ↔ ∃ s t, cs = s ++ t ∧ q = behind b s t := by
  constructor
  · intro h
    generalize hp : facing b cs = p at h
    induction h generalizing b cs with
    | here p => exact ⟨[], cs, rfl, hp.symm⟩
    | @step p q r c hn hr ih =>
        subst hp
        cases cs with
        | nil => cases hn
        | cons d cs =>
            rw [next?_facing_cons, Option.some.injEq, Prod.mk.injEq] at hn
            obtain ⟨s, t, rfl, rfl⟩ := ih hn.2
            exact ⟨d :: s, t, rfl, behind_cons.symm⟩
  · rintro ⟨s, t, rfl, rfl⟩
    induction s generalizing b with
    | nil => exact .here _
    | cons c s ih =>
        rw [behind_cons]
        exact .step next?_facing_cons ih

/-- Behind characters that are all of one kind stands one of that kind. -/
theorem exists_before_behind {P : Char → Prop} (hs : s ≠ []) (h : ∀ c ∈ s, P c) :
    ∃ c, (behind b s t).before = some c ∧ P c := by
  obtain ⟨s, c, rfl⟩ := (List.eq_nil_or_concat s).resolve_left hs
  refine ⟨c, ?_, h c (by simp)⟩
  simp

theorem not_begins_nil {sets : List CharSet} : ¬ (facing b []).Begins sets := by
  rintro ⟨_, hn, -⟩
  cases hn

theorem begins_cons_iff {sets : List CharSet} :
    (facing b (c :: cs)).Begins sets ↔ ∃ set ∈ sets, set.has c = true := by
  simp only [Begins, next?_facing_cons, Option.some.injEq, exists_eq_left']

end Place

/-! ## 2. Preferences -/

/-- The match of an expression that is preferred at one place ends at another. -/
def Prefers (r : Regex) (p q : Place) : Prop :=
  (r.ends p).head? = some q

variable {a r : Regex} {p q s : Place} {b : Option Char} {c : Char} {cs : List Char} {set : CharSet}

theorem prefers_iff : r.Prefers p q ↔ ∃ more, r.ends p = q :: more :=
  List.head?_eq_some_iff

theorem prefers_one (h : set.has c = true) :
    (one set).Prefers (facing b (c :: cs)) (facing (some c) cs) := by
  rw [Prefers, ends_one_cons, if_pos h]
  rfl

theorem prefers_edge (h : isWordAt b ≠ isWordAt cs.head?) :
    (holds .wordEdge).Prefers (facing b cs) (facing b cs) := by
  rw [Prefers, ends_wordEdge, if_pos (bne_iff_ne.2 h)]
  rfl

theorem Prefers.seq (ha : a.Prefers p q) (hr : r.Prefers q s) : (a.seq r).Prefers p s := by
  obtain ⟨_, ha⟩ := prefers_iff.1 ha
  obtain ⟨_, hr⟩ := prefers_iff.1 hr
  rw [Prefers, ends, ha, List.flatMap_cons, hr]
  rfl

theorem Prefers.left (ha : a.Prefers p q) : (a.alt r).Prefers p q := by
  obtain ⟨_, ha⟩ := prefers_iff.1 ha
  rw [Prefers, ends, ha]
  rfl

theorem Prefers.right (ha : a.ends p = []) (hr : r.Prefers p q) : (a.alt r).Prefers p q := by
  rw [Prefers, ends, ha]
  exact hr

/-- What is the only place where matches end is preferred. -/
theorem prefers_of_forall (hq : q ∈ r.ends p) (h : ∀ s ∈ r.ends p, s = q) : r.Prefers p q := by
  cases hends : r.ends p with
  | nil =>
      rw [hends] at hq
      cases hq
  | cons s more =>
      rw [Prefers, hends, List.head?_cons, h s (hends ▸ List.mem_cons_self)]

/-! ## 3. Repetition -/

/-- A repetition without bound is a round and then the repetition, or no round. -/
theorem ends_star (ha : a.mayTakeNothing = false) (greedy : Bool) (p : Place) :
    (times 0 none greedy a).ends p =
      inTurn greedy ((a.ends p).flatMap (times 0 none greedy a).ends) p := by
  have hends : ∀ q, (times 0 none greedy a).ends q = Way.loop a.ends greedy q := fun q => by
    rw [ends, Way.rounds, List.flatMap_singleton]
  have hgoes : Way.Goes a.ends true := by simpa [ha] using goes_ends a
  rw [hends, Way.loop_eq hgoes]
  exact congrArg (inTurn greedy · p) (List.flatMap_congr fun q _ => (hends q).symm)

/-- One round at least is a round, and then any number. -/
theorem ends_plus (greedy : Bool) (a : Regex) :
    (times 1 none greedy a).ends = (a.seq (times 0 none greedy a)).ends := by
  funext p
  simp only [ends, Way.rounds, List.flatMap_singleton, List.flatMap_singleton']

/-- Where there is no round, a repetition takes nothing. -/
theorem ends_times_of_nil (ha : a.ends p = []) (most : Option Nat) (greedy : Bool) :
    (times 0 most greedy a).ends p = [p] := by
  cases most with
  | none =>
      rw [ends, Way.rounds, List.flatMap_singleton, Way.loop, ha]
      cases greedy <;> rfl
  | some most =>
      rw [ends, Way.rounds, List.flatMap_singleton]
      cases most with
      | zero => rfl
      | succ most =>
          rw [Nat.sub_zero, Way.optional, ha]
          cases greedy <;> rfl

theorem prefers_here (ha : a.ends p = []) {most : Option Nat} {greedy : Bool} :
    (times 0 most greedy a).Prefers p p := by
  rw [Prefers, ends_times_of_nil ha]
  rfl

/-- What there need not be is taken if it is there. -/
theorem Prefers.optional (ha : a.Prefers p q) : (times 0 (some 1) true a).Prefers p q := by
  obtain ⟨_, ha⟩ := prefers_iff.1 ha
  rw [Prefers, ends, Way.rounds, List.flatMap_singleton, Way.optional, ha]
  rfl

theorem mem_ends_optional :
    q ∈ (times 0 (some 1) true a).ends p ↔ q = p ∨ q ∈ a.ends p := by
  rw [ends, Way.rounds, List.flatMap_singleton, Way.optional, Way.mem_inTurn]
  exact or_congr_right (by rw [show Way.optional a.ends true 0 = fun q => [q] from rfl,
    List.flatMap_singleton'])

/-- Another round is preferred to none. -/
theorem Prefers.again (hn : a.mayTakeNothing = false) (ha : a.Prefers p q)
    (h : (times 0 none true a).Prefers q s) : (times 0 none true a).Prefers p s := by
  obtain ⟨_, ha⟩ := prefers_iff.1 ha
  obtain ⟨_, h⟩ := prefers_iff.1 h
  rw [Prefers, ends_star hn, ha, List.flatMap_cons, h]
  rfl

theorem Prefers.plus (ha : a.Prefers p q) (h : (times 0 none true a).Prefers q s) :
    (times 1 none true a).Prefers p s := by
  rw [Prefers, ends_plus]
  exact ha.seq h

/-- Where what comes after a repetition matches, no round is preferred to another. -/
theorem Prefers.lazyHere (hn : a.mayTakeNothing = false) (h : r.Prefers p q) :
    ((times 0 none false a).seq r).Prefers p q := by
  obtain ⟨_, h⟩ := prefers_iff.1 h
  rw [Prefers, ends, ends_star hn, inTurn, if_neg Bool.false_ne_true, List.flatMap_cons, h]
  rfl

/-- Where it does not, there must be another round. -/
theorem Prefers.lazyAgain (hn : a.mayTakeNothing = false) (hr : r.ends p = []) (ha : a.Prefers p q)
    (h : ((times 0 none false a).seq r).Prefers q s) :
    ((times 0 none false a).seq r).Prefers p s := by
  obtain ⟨_, ha⟩ := prefers_iff.1 ha
  obtain ⟨_, h⟩ := prefers_iff.1 h
  rw [ends] at h
  rw [Prefers, ends, ends_star hn, inTurn, if_neg Bool.false_ne_true, List.flatMap_cons, hr,
    List.nil_append, ha, List.flatMap_cons, List.flatMap_append, h]
  rfl

/-! ## 4. Runs -/

variable {x t w : List Char} {rs : List Regex}

/-- **A repetition takes all pieces of a text, each of which is a round.** -/
theorem prefers_pieces {f : Char → List Char} (hn : a.mayTakeNothing = false)
    (hx : ∀ c ∈ x, ∀ b t, a.Prefers (facing b (f c ++ t)) (behind b (f c) t))
    (ht : ∀ b, a.ends (facing b t) = []) :
    (times 0 none true a).Prefers (facing b (x.flatMap f ++ t)) (behind b (x.flatMap f) t) := by
  induction x generalizing b with
  | nil => exact prefers_here (ht b)
  | cons c x ih =>
      rw [List.flatMap_cons, behind_append, List.append_assoc]
      exact (hx c List.mem_cons_self b _).again hn
        (ih fun d hd => hx d (List.mem_cons_of_mem _ hd))

/-- **A run takes all characters that are of its set.** -/
theorem prefers_run (hx : ∀ c ∈ x, set.has c = true) (ht : ∀ c ∈ t.head?, set.has c = false) :
    (times 0 none true (one set)).Prefers (facing b (x ++ t)) (behind b x t) := by
  have hstop : ∀ b, (one set).ends (facing b t) = [] := fun b => by
    cases t with
    | nil => exact ends_one_nil set
    | cons d t =>
        rw [ends_one_cons, ht d rfl]
        rfl
  have h := prefers_pieces (f := fun c => [c]) rfl (fun c hc _ _ => prefers_one (hx c hc)) hstop
    (b := b)
  rwa [List.flatMap_singleton'] at h

theorem prefers_run_plus (hne : x ≠ []) (hx : ∀ c ∈ x, set.has c = true)
    (ht : ∀ c ∈ t.head?, set.has c = false) :
    (times 1 none true (one set)).Prefers (facing b (x ++ t)) (behind b x t) := by
  obtain ⟨c, x, rfl⟩ := List.exists_cons_of_ne_nil hne
  rw [behind_cons]
  exact (prefers_one (hx c List.mem_cons_self)).plus
    (prefers_run (fun d hd => hx d (List.mem_cons_of_mem _ hd)) ht)

/-- A run ends behind characters of its set. -/
theorem mem_ends_run {greedy : Bool} :
    q ∈ (times 0 none greedy (one set)).ends (facing b cs) ↔
      ∃ x t, cs = x ++ t ∧ (∀ c ∈ x, set.has c = true) ∧ q = behind b x t := by
  induction cs generalizing b with
  | nil =>
      rw [ends_times_of_nil (ends_one_nil set), List.mem_singleton]
      constructor
      · rintro rfl
        exact ⟨[], [], rfl, nofun, rfl⟩
      · rintro ⟨x, t, h, -, rfl⟩
        obtain ⟨rfl, rfl⟩ := List.append_eq_nil_iff.1 h.symm
        rfl
  | cons c cs ih =>
      rw [ends_star rfl, Way.mem_inTurn, ends_one_cons]
      constructor
      · rintro (rfl | h)
        · exact ⟨[], c :: cs, rfl, nofun, rfl⟩
        · split at h
          · rename_i hc
            rw [List.flatMap_singleton] at h
            obtain ⟨x, t, rfl, hx, rfl⟩ := ih.1 h
            exact ⟨c :: x, t, rfl, List.forall_mem_cons.2 ⟨hc, hx⟩, behind_cons.symm⟩
          · cases h
      · rintro ⟨x, t, h, hx, rfl⟩
        cases x with
        | nil => exact .inl (by rw [behind_nil, h]; rfl)
        | cons d x =>
            obtain ⟨rfl, rfl⟩ := List.cons.inj h
            obtain ⟨hd, hx⟩ := List.forall_mem_cons.1 hx
            rw [if_pos hd, List.flatMap_singleton]
            exact .inr (ih.2 ⟨x, t, rfl, hx, behind_cons⟩)


theorem mem_ends_run_plus {greedy : Bool} :
    q ∈ (times 1 none greedy (one set)).ends (facing b cs) ↔
      ∃ x t, x ≠ [] ∧ cs = x ++ t ∧ (∀ c ∈ x, set.has c = true) ∧ q = behind b x t := by
  rw [ends_plus, ends, List.mem_flatMap]
  cases cs with
  | nil =>
      rw [ends_one_nil]
      constructor
      · rintro ⟨_, h, -⟩
        cases h
      · rintro ⟨x, t, hne, h, -⟩
        exact absurd (List.append_eq_nil_iff.1 h.symm).1 hne
  | cons c cs =>
      rw [ends_one_cons]
      constructor
      · rintro ⟨p, hp, h⟩
        split at hp
        · rename_i hc
          rw [List.mem_singleton.1 hp] at h
          obtain ⟨x, t, rfl, hx, rfl⟩ := mem_ends_run.1 h
          exact ⟨c :: x, t, List.cons_ne_nil c x, rfl, List.forall_mem_cons.2 ⟨hc, hx⟩,
            behind_cons.symm⟩
        · cases hp
      · rintro ⟨x, t, hne, h, hx, rfl⟩
        obtain ⟨d, x, rfl⟩ := List.exists_cons_of_ne_nil hne
        obtain ⟨rfl, rfl⟩ := List.cons.inj h
        obtain ⟨hd, hx⟩ := List.forall_mem_cons.1 hx
        exact ⟨_, by rw [if_pos hd]; exact List.mem_singleton_self _,
          mem_ends_run.2 ⟨x, t, rfl, hx, behind_cons⟩⟩

/-! ## 5. Parts, words and alternatives -/

/-- Parts one after another are the first part and then the others. -/
theorem ends_ofParts_cons (a : Regex) (rs : List Regex) (p : Place) :
    (ofParts (a :: rs)).ends p = (a.ends p).flatMap (ofParts rs).ends := by
  cases rs with
  | nil => exact (List.flatMap_singleton' _).symm
  | cons r rs => rfl

theorem mem_ends_ofParts_cons :
    s ∈ (ofParts (a :: rs)).ends p ↔ ∃ q ∈ a.ends p, s ∈ (ofParts rs).ends q := by
  rw [ends_ofParts_cons, List.mem_flatMap]

theorem Prefers.parts (ha : a.Prefers p q) (h : (ofParts rs).Prefers q s) :
    (ofParts (a :: rs)).Prefers p s := by
  obtain ⟨_, ha⟩ := prefers_iff.1 ha
  obtain ⟨_, h⟩ := prefers_iff.1 h
  rw [Prefers, ends_ofParts_cons, ha, List.flatMap_cons, h]
  rfl

/-- Characters one after another are taken where they stand. -/
theorem Prefers.word (h : (ofParts rs).Prefers (behind b w t) q) :
    (ofParts (w.map char ++ rs)).Prefers (facing b (w ++ t)) q := by
  induction w generalizing b with
  | nil => exact h
  | cons c w ih =>
      rw [behind_cons] at h
      exact (prefers_one (by rw [CharSet.has_single, decide_eq_true rfl])).parts (ih h)

/-- The expression of a list of characters, one after another. -/
def ofWord (w : List Char) : Regex :=
  ofParts (w.map char)

/-- A word matches where it stands. -/
theorem mem_ends_ofWord :
    q ∈ (ofWord w).ends (facing b cs) ↔ ∃ t, cs = w ++ t ∧ q = behind b w t := by
  rw [ofWord]
  induction w generalizing b cs with
  | nil => simp [ofParts, ends]
  | cons c w ih =>
      rw [List.map_cons, ends_ofParts_cons]
      cases cs with
      | nil => simp [char]
      | cons d cs =>
          rw [ends_char_cons]
          by_cases h : d = c
          · subst h
            simp [ih]
          · simp [h]

/-- An alternative matches where one of them does. -/
theorem mem_ends_ofBranches : q ∈ (ofBranches rs).ends p ↔ ∃ r ∈ rs, q ∈ r.ends p := by
  induction rs with
  | nil =>
      have hnone : (ofBranches []).ends p = [] := by
        rw [ofBranches, ends]
        split
        · rfl
        · rfl
      rw [hnone]
      simp
  | cons a rs ih =>
      cases rs with
      | nil => simp [ofBranches]
      | cons b rs =>
          have halt : ofBranches (a :: b :: rs) = a.alt (ofBranches (b :: rs)) := rfl
          rw [halt, ends, List.mem_append, ih]
          exact (List.exists_mem_cons_iff (fun r => q ∈ r.ends p) a (b :: rs)).symm

theorem prefers_ofWord : (ofWord w).Prefers (facing b (w ++ t)) (behind b w t) := by
  have h : (ofParts (w.map char ++ [])).Prefers (facing b (w ++ t)) (behind b w t) := .word rfl
  rwa [List.append_nil] at h

theorem ends_ofWord_eq_nil (h : ¬ w <+: cs) : (ofWord w).ends (facing b cs) = [] := by
  refine List.eq_nil_iff_forall_not_mem.2 fun q hq => ?_
  obtain ⟨t, rfl, -⟩ := mem_ends_ofWord.1 hq
  exact h (List.prefix_append w t)

end Quire.Regex
