import Mathlib.Data.List.MinMax
import Mathlib.Data.Prod.Lex
import Quire.Highlight.Scan
import Quire.Proofs.Highlight.Search
import Quire.Proofs.Regex.Offset

/-!
# Scanning without a memory

A scan keeps the next match of every pattern and searches a pattern again only when the scan has
passed the beginning of what is kept. `Lexer.rescan` keeps nothing: at every offset it comes to, it
searches all patterns anew, takes the match that begins first, and of several that begin at one
offset the one of the pattern listed first.

**The two find the same tokens** (`tokenize_eq_rescan`). What is kept is, once it has been
refreshed, what a search from the place of the scan would find (`refresh_start`): a match that
begins further on is found from any place before it, and a pattern that has run out stays so.
-/

namespace Quire.Highlight

open Quire.Regex (Place Span)
open Quire.Text (isBoundary isRange slice)

/-! ## 1. Searching from an offset -/

namespace Pattern

/-- The byte range of the first match that counts from an offset on. -/
def findAt? (p : Pattern) (source : String) (pos : Nat) : Option (Nat × Nat) :=
  ((Place.at? source pos).bind p.find?).map fun m =>
    (m.start.offset source.utf8ByteSize, m.stop.offset source.utf8ByteSize)

/-- The byte offset where the match that counts ends that begins at an offset, if there is one. -/
def endAt? (p : Pattern) (source : String) (pos : Nat) : Option Nat :=
  ((Place.at? source pos).bind p.matchAt?).map fun m => m.stop.offset source.utf8ByteSize

variable {p : Pattern} {source : String} {pos : Nat} {q : Place}

theorem findAt?_offset (h : (Place.ofString source).Reaches q) :
    p.findAt? source (q.offset source.utf8ByteSize) = (p.find? q).map fun m =>
      (m.start.offset source.utf8ByteSize, m.stop.offset source.utf8ByteSize) := by
  rw [findAt?, Place.at?_offset h, Option.bind_some]

theorem endAt?_offset (h : (Place.ofString source).Reaches q) :
    p.endAt? source (q.offset source.utf8ByteSize) =
      (p.matchAt? q).map fun m => m.stop.offset source.utf8ByteSize := by
  rw [endAt?, Place.at?_offset h, Option.bind_some]

/-- **What is found from an offset on is a part of the source that begins there or further on, and
is not empty.** -/
theorem of_findAt? {a b : Nat} (h : p.findAt? source pos = some (a, b)) :
    pos ≤ a ∧ a < b ∧ isRange source a b = true := by
  obtain ⟨m, hm, he⟩ := Option.map_eq_some_iff.1 h
  obtain ⟨q, hq, hf⟩ := Option.bind_eq_some_iff.1 hm
  obtain ⟨hr, hle⟩ := Place.of_at? hq
  obtain ⟨hqs, hse, hlt, -⟩ := of_find? hf
  simp only [Prod.mk.injEq] at he
  obtain ⟨rfl, rfl⟩ := he
  have hstart := hr.trans hqs
  have h1 := Place.offset_add_left hr
  have h2 := Place.offset_add_left hstart
  have h3 := Place.offset_add_left (hstart.trans hse)
  have := hqs.left_le
  exact ⟨by omega, by omega, Place.isRange_offset hstart hse⟩

/-- What is found from an offset on is the match that counts where it begins. -/
theorem endAt?_of_findAt? {a b : Nat} (h : p.findAt? source pos = some (a, b)) :
    p.endAt? source a = some b := by
  obtain ⟨m, hm, he⟩ := Option.map_eq_some_iff.1 h
  obtain ⟨q, hq, hf⟩ := Option.bind_eq_some_iff.1 hm
  obtain ⟨hqs, -, -, hmatch⟩ := of_find? hf
  simp only [Prod.mk.injEq] at he
  obtain ⟨rfl, rfl⟩ := he
  rw [endAt?_offset ((Place.of_at? hq).1.trans hqs), hmatch, Option.map_some]

/-- **A match that counts is not passed over: a search from no further on finds it, or one that
begins before it.** -/
theorem exists_findAt?_of_endAt? {x b : Nat} (h : p.endAt? source x = some b)
    (hx : isBoundary source.toList x = true) (hle : pos ≤ x) :
    ∃ a' b', p.findAt? source pos = some (a', b') ∧ a' ≤ x := by
  obtain ⟨r, -, hr, rfl⟩ := Place.exists_at? hx
  obtain ⟨q, hq, hqr⟩ := Place.exists_at?_of_le hr hle
  have hsq := (Place.of_at? hq).1
  rw [endAt?_offset hr] at h
  rw [findAt?, hq, Option.bind_some]
  have S := p.isSearch_find?
  cases hf : p.find? q with
  | none =>
      rw [S.find_eq_none_iff.1 hf r hqr] at h
      cases h
  | some m =>
      refine ⟨_, _, rfl, ?_⟩
      obtain ⟨hqs, -, hfirst⟩ := S.find_eq_some_iff.1 hf
      have hrl := Place.offset_add_left hr
      have hsl := Place.offset_add_left (hsq.trans hqs)
      refine Nat.le_of_not_lt fun hlt => ?_
      rw [hfirst r hqr (by omega)] at h
      cases h

end Pattern

/-! ## 2. The scan that keeps nothing -/

/-- A match that a scan may go on with: where it begins, the number and the rule of its pattern, and
where it ends. -/
structure Offer where
  start : Nat
  index : Nat
  rule : Rule
  stop : Nat
  deriving DecidableEq

/-- By what offers are compared: the beginning, and then the place of the pattern in the list. -/
def Offer.key (o : Offer) : Nat ×ₗ Nat :=
  toLex (o.start, o.index)

namespace Lexer

/-- What the patterns offer from an offset on. -/
def offers (l : Lexer) (source : String) (pos : Nat) : List Offer :=
  l.patterns.zipIdx.filterMap fun (p, i) =>
    (p.findAt? source pos).map fun (a, b) => ⟨a, i, p.rule, b⟩

theorem mem_offers {l : Lexer} {source : String} {pos : Nat} {o : Offer} :
    o ∈ l.offers source pos ↔
      ∃ p, l.patterns[o.index]? = some p ∧ p.rule = o.rule ∧
        p.findAt? source pos = some (o.start, o.stop) := by
  obtain ⟨a, i, r, b⟩ := o
  rw [offers, List.mem_filterMap]
  constructor
  · rintro ⟨⟨p, j⟩, hp, hf⟩
    obtain ⟨⟨a', b'⟩, hfind, he⟩ := Option.map_eq_some_iff.1 hf
    simp only [Offer.mk.injEq] at he
    obtain ⟨rfl, rfl, rfl, rfl⟩ := he
    exact ⟨p, List.mem_zipIdx_iff_getElem?.1 hp, rfl, hfind⟩
  · rintro ⟨p, hp, rfl, hfind⟩
    refine ⟨(p, i), List.mem_zipIdx_iff_getElem?.2 hp, ?_⟩
    simp only at hfind ⊢
    rw [hfind]
    rfl

theorem of_mem_offers {l : Lexer} {source : String} {pos : Nat} {o : Offer}
    (h : o ∈ l.offers source pos) :
    pos ≤ o.start ∧ o.start < o.stop ∧ isRange source o.start o.stop = true := by
  obtain ⟨p, -, -, hf⟩ := mem_offers.1 h
  exact Pattern.of_findAt? hf

/-- The token of an offer. -/
def offered (l : Lexer) (source : String) (o : Offer) : Token :=
  let text := slice source o.start o.stop
  ⟨l.categorize o.rule text, text, o.start, o.stop⟩

/-- The tokens from an offset on, where every pattern is searched anew at every offset the scan
comes to. -/
def rescan (l : Lexer) (source : String) (pos : Nat) : List Token :=
  match _h : (l.offers source pos).argmin Offer.key with
  | none => []
  | some o => l.offered source o :: l.rescan source o.stop
  termination_by source.utf8ByteSize - pos
  decreasing_by
    obtain ⟨h1, h2, h3⟩ := of_mem_offers (List.argmin_mem _h)
    obtain ⟨-, -, hb⟩ := Text.isRange_iff.1 h3
    have h4 := Text.le_utf8ByteSize_of_isBoundary hb
    omega

theorem rescan_of_none {l : Lexer} {source : String} {pos : Nat}
    (h : (l.offers source pos).argmin Offer.key = none) : l.rescan source pos = [] := by
  rw [rescan]
  split
  · rfl
  · rename_i o ho
    rw [h] at ho
    cases ho

theorem rescan_of_some {l : Lexer} {source : String} {pos : Nat} {o : Offer}
    (h : (l.offers source pos).argmin Offer.key = some o) :
    l.rescan source pos = l.offered source o :: l.rescan source o.stop := by
  rw [rescan]
  split
  · rename_i ho
    rw [h] at ho
    cases ho
  · rename_i o' ho
    rw [h, Option.some.injEq] at ho
    rw [ho]

end Lexer

/-! ## 3. What is kept is what would be found -/

namespace Candidates

variable {ps : List Pattern} {p : Pattern} {q r : Place} {m : Span}

/-- **Refreshed, the next matches from an earlier place are the next matches from a later one.** -/
theorem refresh_start (h : q.Reaches r) : (start ps q).refresh r = start ps r := by
  rw [refresh, start, start, List.map_map]
  refine List.map_congr_left fun p _ => ?_
  have S := p.isSearch_find?
  rw [Function.comp_apply]
  cases hf : p.find? q with
  | none => rw [S.none_of_reaches hf h]
  | some m =>
      dsimp only
      split
      · rfl
      · rename_i hle
        rw [S.find_of_reaches hf h (Nat.le_of_not_lt hle)]

theorem getElem?_start {i : Nat} {o : Option Span} :
    (start ps q)[i]? = some (p, o) ↔ ps[i]? = some p ∧ p.find? q = o := by
  rw [start, List.getElem?_map, Option.map_eq_some_iff]
  constructor
  · rintro ⟨p', hp, he⟩
    simp only [Prod.mk.injEq] at he
    obtain ⟨rfl, rfl⟩ := he
    exact ⟨hp, rfl⟩
  · rintro ⟨hp, rfl⟩
    exact ⟨p, hp, rfl⟩

/-- The next match of pattern number `i` begins no later than any other, and the patterns whose
matches begin with it are not listed before it. -/
structure IsBest (cs : Candidates) (i : Nat) (p : Pattern) (m : Span) : Prop where
  get : cs[i]? = some (p, some m)
  first : ∀ (j : Nat) (p' : Pattern) (m' : Span), cs[j]? = some (p', some m') →
    m'.start.left ≤ m.start.left
  listed : ∀ (j : Nat) (p' : Pattern) (m' : Span), cs[j]? = some (p', some m') →
    m'.start.left = m.start.left → i ≤ j

/-- It stays the best when a match that begins later, or none, is listed before it. -/
theorem IsBest.cons {cs : Candidates} {i : Nat} {c : Pattern × Option Span}
    (h : IsBest cs i p m) (hc : ∀ m₀, c.2 = some m₀ → m₀.start.left < m.start.left) :
    IsBest (c :: cs) (i + 1) p m where
  get := h.get
  first j p' m' hj := by
    cases j with
    | zero =>
        rw [List.getElem?_cons_zero, Option.some.injEq] at hj
        exact Nat.le_of_lt (hc m' (congrArg Prod.snd hj))
    | succ j => exact h.first j p' m' hj
  listed j p' m' hj e := by
    cases j with
    | zero =>
        rw [List.getElem?_cons_zero, Option.some.injEq] at hj
        have := hc m' (congrArg Prod.snd hj)
        omega
    | succ j => exact Nat.succ_le_succ (h.listed j p' m' hj e)

/-- The first in the list is the best if no other begins before it. -/
theorem IsBest.head {cs : Candidates}
    (h : ∀ (j : Nat) (p' : Pattern) (m' : Span), cs[j]? = some (p', some m') →
      m'.start.left ≤ m.start.left) : IsBest ((p, some m) :: cs) 0 p m where
  get := rfl
  first j p' m' hj := by
    cases j with
    | zero =>
        rw [List.getElem?_cons_zero, Option.some.injEq] at hj
        obtain ⟨-, rfl⟩ : p = p' ∧ m = m' := by simpa using hj
        exact Nat.le_refl _
    | succ j => exact h j p' m' hj
  listed j _ _ _ _ := Nat.zero_le j

theorem getElem?_ne_of_best?_eq_none {cs : Candidates} (h : cs.best? = none) (i : Nat) :
    cs[i]? ≠ some (p, some m) := by
  induction cs generalizing i with
  | nil => exact fun hi => by cases hi
  | cons c cs ih =>
      obtain ⟨p₀, _ | m₀⟩ := c
      · rw [best?] at h
        cases i with
        | zero => exact fun hi => by cases hi
        | succ i => exact ih h i
      · rw [best?] at h
        split at h
        · split at h <;> cases h
        · cases h

/-- **The best of the next matches is the one that is taken.** -/
theorem isBest_of_best? {cs : Candidates} (h : cs.best? = some (p, m)) :
    ∃ i, IsBest cs i p m := by
  induction cs generalizing p m with
  | nil => cases h
  | cons c cs ih =>
      obtain ⟨p₀, _ | m₀⟩ := c
      · rw [best?] at h
        obtain ⟨i, hi⟩ := ih h
        exact ⟨i + 1, hi.cons fun _ h₀ => by cases h₀⟩
      · rw [best?] at h
        cases hb : best? cs with
        | none =>
            rw [hb] at h
            obtain ⟨rfl, rfl⟩ : p₀ = p ∧ m₀ = m := by simpa using h
            exact ⟨0, .head fun j p' m' hj => absurd hj (getElem?_ne_of_best?_eq_none hb j)⟩
        | some b =>
            obtain ⟨p₁, m₁⟩ := b
            obtain ⟨i, hi⟩ := ih hb
            rw [hb] at h
            dsimp only at h
            split at h
            · rename_i hlt
              obtain ⟨rfl, rfl⟩ : p₁ = p ∧ m₁ = m := by simpa using h
              refine ⟨i + 1, hi.cons fun m' hm' => ?_⟩
              rw [Option.some.injEq] at hm'
              rwa [← hm']
            · rename_i hle
              obtain ⟨rfl, rfl⟩ : p₀ = p ∧ m₀ = m := by simpa using h
              refine ⟨0, .head fun j p' m' hj => ?_⟩
              have := hi.first j p' m' hj
              omega

end Candidates

/-! ## 4. The same tokens -/

namespace Lexer

variable {l : Lexer} {source : String} {q r : Place}

/-- **The best of the next matches from a place is the least of the offers from its offset.** -/
theorem argmin_offers {p : Pattern} {m : Span} {i : Nat}
    (hq : (Place.ofString source).Reaches q)
    (h : Candidates.IsBest (.start l.patterns q) i p m) :
    (l.offers source (q.offset source.utf8ByteSize)).argmin Offer.key =
      some ⟨m.start.offset source.utf8ByteSize, i, p.rule,
        m.stop.offset source.utf8ByteSize⟩ := by
  obtain ⟨hp, hf⟩ := Candidates.getElem?_start.1 h.get
  have hmem : ⟨m.start.offset source.utf8ByteSize, i, p.rule, m.stop.offset source.utf8ByteSize⟩ ∈
      l.offers source (q.offset source.utf8ByteSize) := by
    refine mem_offers.2 ⟨p, hp, rfl, ?_⟩
    rw [Pattern.findAt?_offset hq, hf]
    rfl
  have hleast : ∀ o ∈ l.offers source (q.offset source.utf8ByteSize),
      m.start.offset source.utf8ByteSize < o.start ∨
        m.start.offset source.utf8ByteSize = o.start ∧ i ≤ o.index := by
    intro o ho
    obtain ⟨p', hp', -, hfind⟩ := mem_offers.1 ho
    rw [Pattern.findAt?_offset hq] at hfind
    obtain ⟨m', hf', he⟩ := Option.map_eq_some_iff.1 hfind
    have hget := Candidates.getElem?_start.2 ⟨hp', hf'⟩
    have h1 := h.first _ _ _ hget
    have h2 := h.listed _ _ _ hget
    have h3 := Place.offset_add_left (hq.trans (Pattern.of_find? hf).1)
    have h4 := Place.offset_add_left (hq.trans (Pattern.of_find? hf').1)
    rw [← (Prod.mk.inj he).1]
    rcases Nat.lt_or_eq_of_le h1 with hlt | heq
    · exact Or.inl (by omega)
    · exact Or.inr ⟨by omega, h2 heq⟩
  refine List.argmin_eq_some_iff.2 ⟨hmem, fun o ho => ?_, fun o ho hle => ?_⟩
  · rw [Offer.key, Offer.key, Prod.Lex.toLex_le_toLex]
    exact hleast o ho
  · -- an offer that is no greater has the same number, and so is the same
    rw [Offer.key, Offer.key, Prod.Lex.toLex_le_toLex] at hle
    have hge := hleast o ho
    obtain ⟨a, j, rule, b⟩ := o
    dsimp only at hle hge
    obtain ⟨rfl, rfl⟩ : m.start.offset source.utf8ByteSize = a ∧ i = j := by omega
    obtain ⟨p', hp', hrule, hfind⟩ := mem_offers.1 ho
    dsimp only at hp' hrule hfind
    obtain rfl : p = p' := Option.some.inj (hp.symm.trans hp')
    rw [Pattern.findAt?_offset hq, hf, Option.map_some, Option.some.injEq, Prod.mk.injEq] at hfind
    rw [← hrule, hfind.2]

/-- **Scanning with what is kept from an earlier place finds the tokens of the scan that keeps
nothing.** -/
theorem tokensFrom_eq_rescan {n : Nat} (hq : (Place.ofString source).Reaches q)
    (hr : q.Reaches r) (hn : r.left < n) :
    l.tokensFrom source.utf8ByteSize n (.start l.patterns q) r =
      l.rescan source (r.offset source.utf8ByteSize) := by
  induction n generalizing q r with
  | zero => exact absurd hn (Nat.not_lt_zero _)
  | succ n ih =>
      have hsr := hq.trans hr
      rw [tokensFrom, Candidates.refresh_start hr]
      cases hb : Candidates.best? (.start l.patterns r) with
      | none =>
          refine (rescan_of_none (List.argmin_eq_none.2 ?_)).symm
          refine List.eq_nil_iff_forall_not_mem.2 fun o ho => ?_
          obtain ⟨p, hp, -, hfind⟩ := mem_offers.1 ho
          rw [Pattern.findAt?_offset hsr] at hfind
          obtain ⟨m, hf, -⟩ := Option.map_eq_some_iff.1 hfind
          exact Candidates.getElem?_ne_of_best?_eq_none hb _
            (Candidates.getElem?_start.2 ⟨hp, hf⟩)
      | some b =>
          obtain ⟨p, m⟩ := b
          obtain ⟨i, hi⟩ := Candidates.isBest_of_best? hb
          obtain ⟨hrs, hse, hlt, -⟩ := Pattern.of_find? (Candidates.getElem?_start.1 hi.get).2
          have hstop := hrs.left_le
          rw [rescan_of_some (argmin_offers hsr hi)]
          dsimp only
          rw [ih hsr (hrs.trans hse) (by omega), offered,
            token, Place.slice_offset (hsr.trans hrs) hse]

/-- **A scan finds the tokens of the scan that keeps nothing.** -/
theorem tokenize_eq_rescan (l : Lexer) (source : String) :
    l.tokenize source = l.rescan source 0 := by
  rw [tokenize, Place.left_ofString,
    tokensFrom_eq_rescan (.here _) (.here _) (by rw [Place.left_ofString]; omega),
    Place.offset_ofString]

/-! ## 5. What is found and what is passed over -/

/-- The least offer is no greater than any other. -/
theorem argmin_le {pos : Nat} {o : Offer} (h : (l.offers source pos).argmin Offer.key = some o)
    {o' : Offer} (ho' : o' ∈ l.offers source pos) :
    o.start < o'.start ∨ o.start = o'.start ∧ o.index ≤ o'.index := by
  have hle := List.le_of_mem_argmin ho' h
  rwa [Offer.key, Offer.key, Prod.Lex.toLex_le_toLex] at hle

/-- **Of the patterns that have a match where the least offer begins, its own is listed first.** -/
theorem endAt?_of_lt_index {pos : Nat} {o : Offer} {j : Nat} {p : Pattern}
    (h : (l.offers source pos).argmin Offer.key = some o) (hp : l.patterns[j]? = some p)
    (hj : j < o.index) : p.endAt? source o.start = none := by
  obtain ⟨hle, -, hrange⟩ := of_mem_offers (List.argmin_mem h)
  cases he : p.endAt? source o.start with
  | none => rfl
  | some b =>
      obtain ⟨a', b', hf, ha'⟩ :=
        Pattern.exists_findAt?_of_endAt? he (Text.isRange_iff.1 hrange).2.1 hle
      have hmin := argmin_le h (mem_offers.2 ⟨p, hp, rfl, hf⟩ : ⟨a', j, p.rule, b'⟩ ∈ _)
      dsimp only at hmin
      omega

/-- **No match that counts begins where there is no token.** -/
theorem endAt?_of_gap {p : Pattern} {pos x : Nat} (hp : p ∈ l.patterns)
    (hx : isBoundary source.toList x = true) (hle : pos ≤ x)
    (hgap : ∀ t ∈ l.rescan source pos, ¬ (t.start ≤ x ∧ x < t.stop)) :
    p.endAt? source x = none := by
  cases he : p.endAt? source x with
  | none => rfl
  | some b =>
      obtain ⟨j, hj⟩ := List.getElem?_of_mem hp
      induction pos using rescan.induct l source with
      | case1 pos h =>
          obtain ⟨a', b', hf, -⟩ := Pattern.exists_findAt?_of_endAt? he hx hle
          have hmem : ⟨a', j, p.rule, b'⟩ ∈ l.offers source pos := mem_offers.2 ⟨p, hj, rfl, hf⟩
          rw [List.argmin_eq_none.1 h] at hmem
          cases hmem
      | case2 pos o h ih =>
          obtain ⟨a', b', hf, ha'⟩ := Pattern.exists_findAt?_of_endAt? he hx hle
          have hmin := argmin_le h (mem_offers.2 ⟨p, hj, rfl, hf⟩ : ⟨a', j, p.rule, b'⟩ ∈ _)
          rw [rescan_of_some h] at hgap
          -- the offset does not lie before the first token nor within it, so it lies behind
          have hout := hgap _ List.mem_cons_self
          dsimp only [offered] at hmin hout
          exact ih (by omega) fun t ht => hgap t (List.mem_cons_of_mem _ ht)

/-- **Every token is a match that counts, of the first pattern that has one where it begins.** -/
theorem of_mem_rescan {pos : Nat} {t : Token} (ht : t ∈ l.rescan source pos) :
    ∃ (i : Nat) (p : Pattern), l.patterns[i]? = some p ∧ p.endAt? source t.start = some t.stop ∧
      t.category = l.categorize p.rule t.text ∧
      ∀ (j : Nat) (p' : Pattern), j < i → l.patterns[j]? = some p' →
        p'.endAt? source t.start = none := by
  induction pos using rescan.induct l source with
  | case1 pos h =>
      rw [rescan_of_none h] at ht
      cases ht
  | case2 pos o h ih =>
      rw [rescan_of_some h] at ht
      rcases List.mem_cons.1 ht with rfl | ht
      · obtain ⟨p, hp, hrule, hf⟩ := mem_offers.1 (List.argmin_mem h)
        refine ⟨o.index, p, hp, Pattern.endAt?_of_findAt? hf, ?_, fun j p' hj hp' => ?_⟩
        · rw [hrule]
          rfl
        · exact endAt?_of_lt_index h hp' hj
      · exact ih ht

/-- **What a scan keeps cannot be seen.** It finds the tokens of the scan that keeps nothing;
no match that counts begins at an offset where there is no token; and every token is the match of
the first pattern in the list that has one where the token begins. -/
theorem cache_unobservable (l : Lexer) (source : String) :
    l.tokenize source = l.rescan source 0 ∧
    (∀ x, isBoundary source.toList x = true →
      (∀ t ∈ l.tokenize source, ¬ (t.start ≤ x ∧ x < t.stop)) →
        ∀ p ∈ l.patterns, p.endAt? source x = none) ∧
    ∀ t ∈ l.tokenize source, ∃ (i : Nat) (p : Pattern), l.patterns[i]? = some p ∧
      p.endAt? source t.start = some t.stop ∧ t.category = l.categorize p.rule t.text ∧
      ∀ (j : Nat) (p' : Pattern), j < i → l.patterns[j]? = some p' →
        p'.endAt? source t.start = none := by
  rw [tokenize_eq_rescan]
  exact ⟨rfl, fun x hx hgap p hp => endAt?_of_gap hp hx (Nat.zero_le x) hgap,
    fun t ht => of_mem_rescan ht⟩

end Lexer

end Quire.Highlight
