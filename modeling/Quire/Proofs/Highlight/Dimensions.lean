import Quire.Proofs.Highlight.Words

/-!
# Dimensions

A dimension is a numeral with a unit behind it. **A numeral with a unit is one number.** With more small
letters behind the unit it is no dimension, and nothing else is found in it but the digits before the point
of a numeral that has one: a match that is refused is not shortened, but numbers are looked for too, and a
point is an edge of the digits before it (`tokenize_dimension`).
-/

namespace Quire.Highlight

open Quire.Regex (CharSet Place)
open Regex.Place (behind facing)

/-! ## 1. Numerals -/

/-- One digit or more. -/
def IsDigits (s : List Char) : Prop :=
  s ≠ [] ∧ ∀ c ∈ s, c.isDigit = true

/-- A numeral: digits, and a point and more digits if there is a fraction. -/
def numeralText (whole : List Char) (fraction : Option (List Char)) : List Char :=
  whole ++ (fraction.map ('.' :: ·)).getD []

/-- The expression of digits. -/
def digits : Regex :=
  .times 1 none true (.one .digit)

variable {b : Option Char} {c : Char} {s t x w : List Char} {whole : List Char}
  {fraction : Option (List Char)} {u : String} {p q : Place}

theorem has_digit (h : c.isDigit = true) : CharSet.digit.has c = true := by
  have hc := Text.toNat_lt_of_isAlphanum (Text.isAlphanum_of_isDigit h)
  rw [CharSet.has_digit, Text.isDigit_of_ascii hc, h]

/-- Letters are no digits, and the point is none. -/
theorem has_digit_eq_false (h : c.isAlpha = true ∨ c = '.') : CharSet.digit.has c = false := by
  rcases h with h | rfl
  · have hc := Text.toNat_lt_of_isAlphanum (Text.isAlphanum_of_isAlpha h)
    rw [CharSet.has_digit, Text.isDigit_of_ascii hc, Text.isDigit_of_isAlpha h]
  · rw [CharSet.has_digit]
    rfl

/-- Digits are taken up to a letter or a point. -/
theorem prefers_digits (hs : IsDigits s) (ht : ∀ c ∈ t.head?, c.isAlpha = true ∨ c = '.') :
    digits.Prefers (facing b (s ++ t)) (behind b s t) :=
  Regex.prefers_run_plus hs.1 (fun c hc => has_digit (hs.2 c hc))
    fun c hc => has_digit_eq_false (ht c hc)

/-- A numeral is taken up to a letter. -/
theorem prefers_numeral {rs : List Regex} (hwhole : IsDigits whole)
    (hfraction : ∀ f ∈ fraction, IsDigits f) (ht : ∀ c ∈ t.head?, c.isAlpha = true)
    (h : ∀ b, ∃ b', (Regex.ofParts rs).Prefers (facing b t) (facing b' x)) :
    ∃ b', (Regex.ofParts (numeral ++ rs)).Prefers (facing b (numeralText whole fraction ++ t))
      (facing b' x) := by
  have hpoint : Regex.ends (.char '.') (facing (whole.getLast?.or b) t) = [] := by
    cases t with
    | nil => rfl
    | cons c t =>
        rw [Regex.ends_char_cons, if_neg]
        rintro rfl
        exact absurd (ht '.' rfl) (by decide)
  cases fraction with
  | none =>
      obtain ⟨b', h⟩ := h (whole.getLast?.or b)
      rw [numeralText, Option.map_none, Option.getD_none, List.append_nil]
      refine ⟨b', .parts (prefers_digits hwhole fun c hc => .inl (ht c hc))
        (.parts (Regex.prefers_here ?_) h)⟩
      rw [Regex.ends, behind, hpoint]
      rfl
  | some f =>
      obtain ⟨b', h⟩ := h (f.getLast?.or (some '.'))
      rw [numeralText, Option.map_some, Option.getD_some, List.append_assoc]
      exact ⟨b', .parts (prefers_digits hwhole fun c hc => .inr (Option.some.inj hc).symm)
        (.parts (.optional (.seq (Regex.prefers_one (by rw [CharSet.has_single, decide_eq_true rfl]))
          (prefers_digits (hfraction f rfl) fun c hc => .inl (ht c hc)))) h)⟩

/-! ## 2. Units -/

/-- The unit that a word begins with is the only one: no unit begins another. -/
theorem prefers_unit (hu : u ∈ units) :
    anyUnit.Prefers (facing b (u.toList ++ x)) (behind b u.toList x) := by
  have hfree : ∀ v ∈ units, ∀ v' ∈ units, v.toList <+: v'.toList → v = v' := by
    decide +kernel
  refine Regex.prefers_of_forall ?_ fun q hq => ?_
  · exact Regex.mem_ends_ofBranches.2 ⟨_, List.mem_map_of_mem hu,
      Regex.mem_ends_ofWord.2 ⟨x, rfl, rfl⟩⟩
  · obtain ⟨r, hr, hq⟩ := Regex.mem_ends_ofBranches.1 hq
    obtain ⟨v, hv, rfl⟩ := List.mem_map.1 hr
    obtain ⟨t, ht, rfl⟩ := Regex.mem_ends_ofWord.1 hq
    have heq : v = u := by
      rcases List.prefix_or_prefix_of_prefix ⟨x, ht⟩ (List.prefix_append v.toList t) with h | h
      · exact (hfree u hu v hv h).symm
      · exact hfree v hv u hu h
    subst heq
    rw [List.append_cancel_left ht]

/-- A dimension is taken up to the end of its unit. -/
theorem prefers_dimension (hb : Regex.isWordAt b = false) (hwhole : IsDigits whole)
    (hfraction : ∀ f ∈ fraction, IsDigits f) (hu : u ∈ units)
    (halpha : ∀ c ∈ u.toList, c.isAlpha = true) :
    ∃ b', dimension.Prefers (facing b (numeralText whole fraction ++ (u.toList ++ x)))
      (facing b' x) := by
  have hunit : ∀ b, ∃ b', (Regex.ofParts [.maybe anyUnit]).Prefers (facing b (u.toList ++ x))
      (facing b' x) := fun b =>
    ⟨_, .parts (prefers_unit hu).optional rfl⟩
  have hletter : ∀ c ∈ (u.toList ++ x).head?, c.isAlpha = true := fun c hc => by
    have hne : ∀ v ∈ units, v.toList ≠ [] := by decide
    rw [List.head?_append_of_ne_nil _ (hne u hu)] at hc
    exact halpha c (List.mem_of_head? hc)
  obtain ⟨b', h⟩ := prefers_numeral (b := b) hwhole hfraction hletter hunit
  refine ⟨b', .parts (Regex.prefers_edge ?_) h⟩
  obtain ⟨c, s, rfl⟩ := List.exists_cons_of_ne_nil hwhole.1
  rw [hb, numeralText, List.cons_append, List.cons_append, List.head?_cons, Regex.isWordAt,
    isWord_of_isAlphanum (Text.isAlphanum_of_isDigit (hwhole.2 c List.mem_cons_self))]
  exact Bool.false_ne_true

/-! ## 3. Numbers -/

theorem before_of_mem_ends_digits (h : q ∈ digits.ends p) :
    ∃ c, q.before = some c ∧ CharSet.digit.has c = true := by
  rw [p.eq_facing] at h
  obtain ⟨x, t, hne, -, hx, rfl⟩ := Regex.mem_ends_run_plus.1 h
  exact Place.exists_before_behind hne hx

/-- A number ends behind a digit, at the edge of a word. -/
theorem of_mem_ends_number (h : q ∈ number.ends p) :
    (∃ c, q.before = some c ∧ CharSet.digit.has c = true) ∧
      Regex.isWordAt q.before ≠ Regex.isWordAt q.rest.head? := by
  simp only [number, numeral, List.cons_append, List.nil_append, Regex.mem_ends_ofParts_cons,
    Regex.mem_ends_wordEdge] at h
  obtain ⟨_, ⟨rfl, -⟩, q₁, hq₁, q₂, hq₂, q₃, ⟨rfl, hedge⟩, h⟩ := h
  rw [Regex.ofParts, Regex.ends, List.mem_singleton] at h
  subst h
  refine ⟨?_, hedge⟩
  rcases Regex.mem_ends_optional.1 hq₂ with rfl | hq₂
  · exact before_of_mem_ends_digits hq₁
  · obtain ⟨q₄, -, hq₂⟩ := List.mem_flatMap.1 hq₂
    exact before_of_mem_ends_digits hq₂

/-- In an ASCII text that does not end with a digit, a number ends in front of a character that is in no
word. -/
theorem exists_of_mem_ends_number (hs : ∀ c ∈ s, c.toNat < 128)
    (hlast : ∀ c ∈ s.getLast?, CharSet.digit.has c = false) (h : q ∈ number.ends (facing b s)) :
    ∃ x c y, s = x ++ c :: y ∧ q = behind b x (c :: y) ∧ Text.isWord c = false := by
  obtain ⟨⟨d, hd, hdigit⟩, hedge⟩ := of_mem_ends_number h
  obtain ⟨hreach, hfurther⟩ := Regex.goes_ends number _ _ h
  obtain ⟨x, y, rfl, rfl⟩ := Place.reaches_facing_iff.1 hreach
  have hne : x ≠ [] := by
    rintro rfl
    exact absurd (hfurther rfl) (Nat.lt_irrefl _)
  obtain ⟨e, he⟩ := Option.isSome_iff_exists.1 (List.getLast?_isSome.2 hne)
  obtain rfl : e = d := by
    rw [Place.before_behind, he, Option.some_or] at hd
    exact Option.some.inj hd
  cases y with
  | nil =>
      rw [List.append_nil, he] at hlast
      rw [hlast e rfl] at hdigit
      cases hdigit
  | cons c y =>
      have hascii := hs e (List.mem_append_left _ (List.mem_of_getLast? he))
      have hword : Text.isWord e = true := by
        rw [CharSet.has_digit, Text.isDigit_of_ascii hascii] at hdigit
        exact isWord_of_isAlphanum (Text.isAlphanum_of_isDigit hdigit)
      refine ⟨x, c, y, rfl, rfl, ?_⟩
      rw [hd, Place.rest_behind, List.head?_cons, Regex.isWordAt, Regex.isWordAt, hword] at hedge
      exact Bool.eq_false_iff.2 hedge.symm

/-- A word that does not end with a digit is no number, and begins with none. -/
theorem ends_number_eq_nil (hs : ∀ c ∈ s, c.isAlphanum = true)
    (hlast : ∀ c ∈ s.getLast?, CharSet.digit.has c = false) : number.ends (facing b s) = [] := by
  refine List.eq_nil_iff_forall_not_mem.2 fun q hq => ?_
  obtain ⟨x, c, y, rfl, -, hc⟩ :=
    exists_of_mem_ends_number (fun c hc => Text.toNat_lt_of_isAlphanum (hs c hc)) hlast hq
  rw [isWord_of_isAlphanum (hs c (List.mem_append_right x List.mem_cons_self))] at hc
  cases hc

/-- The digits before a point are a number if the word behind it does not end with a digit. -/
theorem prefers_number (hb : Regex.isWordAt b = false) (hw : IsDigits w)
    (hs : ∀ c ∈ s, c.isAlphanum = true) (hlast : ∀ c ∈ s.getLast?, CharSet.digit.has c = false) :
    number.Prefers (facing b (w ++ '.' :: s)) (behind b w ('.' :: s)) := by
  obtain ⟨d, hd⟩ := Option.isSome_iff_exists.1 (List.getLast?_isSome.2 hw.1)
  have hdigits : ∀ c ∈ w, c.isAlphanum = true := fun c hc => Text.isAlphanum_of_isDigit (hw.2 c hc)
  have hpart : ∀ c ∈ w ++ '.' :: s, c.isAlphanum = true ∨ c = '.' := fun c hc => by
    rcases List.mem_append.1 hc with hc | hc
    · exact .inl (hdigits c hc)
    · exact (List.mem_cons.1 hc).symm.imp_left (hs c)
  refine Regex.prefers_of_forall ?_ fun q hq => ?_
  · simp only [number, numeral, List.cons_append, List.nil_append, Regex.mem_ends_ofParts_cons,
      Regex.mem_ends_wordEdge]
    refine ⟨_, ⟨rfl, ?_⟩, behind b w ('.' :: s), Regex.mem_ends_run_plus.2
      ⟨w, '.' :: s, hw.1, rfl, fun c hc => has_digit (hw.2 c hc), rfl⟩, _,
      Regex.mem_ends_optional.2 (.inl rfl), _, ⟨rfl, ?_⟩, List.mem_singleton_self _⟩
    · obtain ⟨c, w, rfl⟩ := List.exists_cons_of_ne_nil hw.1
      rw [Place.before_facing, Place.rest_facing, hb, List.cons_append, List.head?_cons,
        Regex.isWordAt, isWord_of_isAlphanum (hdigits c List.mem_cons_self)]
      exact Bool.false_ne_true
    · rw [Place.before_behind, hd, Option.some_or, Regex.isWordAt,
        isWord_of_isAlphanum (hdigits d (List.mem_of_getLast? hd))]
      exact Bool.false_ne_true.symm
  · have hascii : ∀ c ∈ w ++ '.' :: s, c.toNat < 128 := fun c hc => by
      rcases hpart c hc with h | rfl
      · exact Text.toNat_lt_of_isAlphanum h
      · decide
    have hlast' : ∀ c ∈ (w ++ '.' :: s).getLast?, CharSet.digit.has c = false := fun c hc => by
      rw [List.getLast?_append_cons, List.getLast?_cons, Option.mem_some_iff] at hc
      cases he : s.getLast? with
      | none => exact has_digit_eq_false (.inr (by rw [← hc, he]; rfl))
      | some e => exact hlast c (by rw [← hc, he]; rfl)
    obtain ⟨x, c, y, hxy, rfl, hc⟩ := exists_of_mem_ends_number hascii hlast' hq
    obtain rfl : c = '.' := by
      refine (hpart c (hxy ▸ List.mem_append_right x List.mem_cons_self)).resolve_left fun h => ?_
      rw [isWord_of_isAlphanum h] at hc
      cases hc
    have hfree : ∀ s : List Char, (∀ c ∈ s, c.isAlphanum = true) → '.' ∉ s := fun s hs h =>
      absurd (hs '.' h) (by decide)
    obtain ⟨rfl, -, rfl⟩ := (List.append_cons_inj_of_notMem (hfree w hdigits) (hfree s hs)).1 hxy
    rfl

/-! ## 4. One token, or none -/

namespace Language

variable {k : Clause}

/-- The clause of dimensions. -/
def dimensionClause : Clause :=
  ⟨"dimension", .fixed .number, dimension, some ⟨false, .one lowerPart⟩⟩

/-- The clause of numbers. -/
def numberClause : Clause :=
  ⟨"number", .fixed .number, number, none⟩

/-- The clauses of css: those in front of dimensions, dimensions and numbers. -/
theorem css_cases :
    (∀ k ∈ Language.css.clauses,
      k ∈ Language.css.clauses.take 5 ∨ k = dimensionClause ∨ k = numberClause) ∧
    ∀ k ∈ Language.css.clauses.take 6, k ∈ Language.css.clauses.take 5 ∨ k = dimensionClause := by
  have hall : Language.css.clauses =
      Language.css.clauses.take 5 ++ [dimensionClause, numberClause] := rfl
  have hsix : Language.css.clauses.take 6 =
      Language.css.clauses.take 5 ++ [dimensionClause] := rfl
  refine ⟨fun k hk => ?_, fun k hk => ?_⟩
  · rw [hall] at hk
    simpa only [List.mem_append, List.mem_cons, List.not_mem_nil, or_false] using hk
  · rw [hsix] at hk
    simpa only [List.mem_append, List.mem_singleton] using hk

/-- No clause in front of dimensions begins with a digit. -/
theorem stopAt?_css_of_isDigit (hk : k ∈ Language.css.clauses.take 5) (hc : c.isDigit = true) :
    k.stopAt? (facing b (c :: s)) = none := by
  by_contra h
  have hascii := Text.toNat_lt_of_isAlphanum (Text.isAlphanum_of_isDigit hc)
  exact (of_stopAt?_css (List.mem_of_mem_take hk) hascii h).2.1 hc hk

/-- No clause begins with a point. -/
theorem stopAt?_css_point (hk : k ∈ Language.css.clauses) :
    k.stopAt? (facing b ('.' :: s)) = none := by
  by_contra h
  exact (of_stopAt?_css hk (by decide) h).1 rfl

/-- Inside a word no clause of css matches, if there is no parenthesis behind it. -/
theorem stopAt?_css_inside (hk : k ∈ Language.css.clauses) (hb : Regex.isWordAt b = true)
    (hc : c.isAlphanum = true) (hparen : '(' ∉ c :: s) : k.stopAt? (facing b (c :: s)) = none := by
  by_contra h
  rcases (of_stopAt?_css hk (Text.toNat_lt_of_isAlphanum hc) h).2.2.2 hc with hedge | hmust
  · refine h (Clause.stopAt?_eq_none_of_edge hedge ?_)
    rw [Place.before_facing, Place.rest_facing, List.head?_cons, hb, Regex.isWordAt,
      isWord_of_isAlphanum hc]
  · exact h (Clause.stopAt?_eq_none_of_musts hmust hparen)

/-- A dimension must not have a small letter or a hyphen behind it. -/
theorem allows_dimension :
    dimensionClause.allows (facing b x) = x.head?.all fun c => !lowerPart.has c := by
  have halone : (facing b x).alone = facing none x := rfl
  rw [dimensionClause, Clause.allows, Option.all_some, Condition.allows, halone]
  cases x with
  | nil => rfl
  | cons c x =>
      rw [Regex.ends_one_cons, List.head?_cons, Option.all_some]
      cases lowerPart.has c <;> rfl

/-- With a small letter behind it, a dimension is refused. -/
theorem stopAt?_dimension_eq_none (hb : Regex.isWordAt b = false)
    (hwhole : IsDigits whole) (hfraction : ∀ f ∈ fraction, IsDigits f) (hu : u ∈ units)
    (halpha : ∀ c ∈ u.toList, c.isAlpha = true) (hne : x ≠ []) (hx : ∀ c ∈ x, c.isLower = true) :
    dimensionClause.stopAt? (facing b (numeralText whole fraction ++ (u.toList ++ x))) = none := by
  obtain ⟨b', h⟩ := prefers_dimension (x := x) hb hwhole hfraction hu halpha
  obtain ⟨c, x, rfl⟩ := List.exists_cons_of_ne_nil hne
  have hc := hx c List.mem_cons_self
  have hlower : lowerPart.has c = true := (has_lowerPart_iff (.inl (Text.isAlpha_of_isLower hc))).2
    (Text.isUpper_of_isLower hc)
  have hallows : dimensionClause.allows (facing b' (c :: x)) = false := by
    rw [allows_dimension, List.head?_cons, Option.all_some, hlower]
    rfl
  rw [Clause.stopAt?_of_prefers h, hallows]
  rfl

/-- Digits, a unit and more letters are a word that ends with a letter. -/
theorem isAlphanum_of_mem (hw : IsDigits w) (halpha : ∀ c ∈ u.toList, c.isAlpha = true)
    (hx : ∀ c ∈ x, c.isLower = true) : ∀ c ∈ w ++ (u.toList ++ x), c.isAlphanum = true := by
  intro c hc
  rcases List.mem_append.1 hc with hc | hc
  · exact Text.isAlphanum_of_isDigit (hw.2 c hc)
  · rcases List.mem_append.1 hc with hc | hc
    · exact Text.isAlphanum_of_isAlpha (halpha c hc)
    · exact Text.isAlphanum_of_isAlpha (Text.isAlpha_of_isLower (hx c hc))

theorem has_digit_of_mem_getLast? (hne : x ≠ []) (hx : ∀ c ∈ x, c.isLower = true) :
    ∀ c ∈ (w ++ (u.toList ++ x)).getLast?, CharSet.digit.has c = false := by
  intro c hc
  rw [List.getLast?_append_of_ne_nil _ (List.append_ne_nil_of_right_ne_nil _ hne),
    List.getLast?_append_of_ne_nil _ hne] at hc
  exact has_digit_eq_false (.inl (Text.isAlpha_of_isLower (hx c (List.mem_of_getLast? hc))))

/-- **Digits, a unit and more letters hold no match,** wherever they begin outside a word. -/
theorem stopAt?_css_eq_none (hb : Regex.isWordAt b = false) (hw : IsDigits w) (hu : u ∈ units)
    (halpha : ∀ c ∈ u.toList, c.isAlpha = true) (hne : x ≠ []) (hx : ∀ c ∈ x, c.isLower = true)
    (hk : k ∈ Language.css.clauses)
    (hq : (facing b (w ++ (u.toList ++ x))).Reaches q) : k.stopAt? q = none := by
  have halnum := isAlphanum_of_mem hw halpha hx
  obtain ⟨y, z, hyz, rfl⟩ := Place.reaches_facing_iff.1 hq
  cases z with
  | nil => exact stopAt?_facing_nil hk
  | cons d z =>
      by_cases hy : y = []
      · -- where the digits begin: dimensions and numbers are left
        subst hy
        rw [Place.behind_nil, ← List.nil_append (d :: z), ← hyz]
        rcases css_cases.1 k hk with hk | rfl | rfl
        · obtain ⟨e, w, rfl⟩ := List.exists_cons_of_ne_nil hw.1
          exact stopAt?_css_of_isDigit hk (hw.2 e List.mem_cons_self)
        · have h : dimensionClause.stopAt?
              (facing b (numeralText w none ++ (u.toList ++ x))) = none :=
            stopAt?_dimension_eq_none hb hw nofun hu halpha hne hx
          rwa [numeralText, Option.map_none, Option.getD_none, List.append_nil] at h
        · exact Clause.stopAt?_eq_none_of_ends
            (ends_number_eq_nil halnum (has_digit_of_mem_getLast? hne hx))
      · rw [hyz] at halnum
        obtain ⟨e, he, hword⟩ := Place.exists_before_behind (b := b) (t := d :: z) hy fun c hc =>
          isWord_of_isAlphanum (halnum c (List.mem_append_left _ hc))
        refine stopAt?_css_inside hk ?_ (halnum d (List.mem_append_right y List.mem_cons_self))
          fun h => ?_
        · rw [Place.before_behind] at he
          rw [he]
          exact hword
        · exact absurd (halnum '(' (List.mem_append_right y h)) (by decide)

end Language

/-- **A numeral with a unit is one number, and with more small letters behind it no dimension.** Then
nothing is found in a numeral without a fraction, and in one with a fraction only the digits before the
point: they are a number that ends at the edge of a word. -/
theorem tokenize_dimension {whole : List Char} {fraction : Option (List Char)} {u : String}
    {x : List Char} (hwhole : IsDigits whole) (hfraction : ∀ f ∈ fraction, IsDigits f)
    (hu : u ∈ units) (halpha : ∀ c ∈ u.toList, c.isAlpha = true) (hne : x ≠ [])
    (hx : ∀ c ∈ x, c.isLower = true) :
    Language.css.lexer.IsOne .number (String.ofList (numeralText whole fraction ++ u.toList)) ∧
      Language.css.lexer.tokenize
          (String.ofList (numeralText whole fraction ++ (u.toList ++ x))) =
        match fraction with
        | none => []
        | some _ => [.initial .number (String.ofList whole)] := by
  have hdigit : ∀ s, ∀ k ∈ Language.css.clauses.take 5,
      k.stopAt? (facing none (whole ++ s)) = none := fun s k hk => by
    obtain ⟨c, w, rfl⟩ := List.exists_cons_of_ne_nil hwhole.1
    exact Language.stopAt?_css_of_isDigit hk (hwhole.2 c List.mem_cons_self)
  constructor
  · obtain ⟨b, h⟩ := prefers_dimension (b := none) (x := []) rfl hwhole hfraction hu halpha
    rw [List.append_nil] at h
    refine Language.tokenize_eq_whole (l := .css) (i := 5) (k := Language.dimensionClause) rfl h
      Language.allows_dimension fun k hk => ?_
    rw [numeralText, List.append_assoc]
    exact hdigit _ k hk
  · cases fraction with
    | none =>
        rw [numeralText, Option.map_none, Option.getD_none, List.append_nil]
        exact Language.tokenize_eq_nil fun k hk q hq =>
          Language.stopAt?_css_eq_none rfl hwhole hu halpha hne hx hk hq
    | some f =>
        have htext : numeralText whole (some f) ++ (u.toList ++ x) =
            whole ++ '.' :: (f ++ (u.toList ++ x)) := by
          rw [numeralText, Option.map_some, Option.getD_some, List.append_assoc, List.cons_append]
        have hnumber := prefers_number (b := none) rfl hwhole
          (Language.isAlphanum_of_mem (hfraction f rfl) halpha hx)
          (Language.has_digit_of_mem_getLast? hne hx)
        have hstop := Clause.stopAt?_eq_some (k := Language.numberClause) hnumber rfl
        have hone := Language.tokenize_eq_singleton (l := .css) (i := 6)
          ⟨rfl, hstop, fun k hk => ?_⟩ fun k hk q hq => ?_
        · rw [htext, hone]
          rfl
        · rcases Language.css_cases.2 k hk with hk | rfl
          · exact hdigit _ k hk
          · rw [← htext]
            exact Language.stopAt?_dimension_eq_none rfl hwhole hfraction hu halpha hne hx
        · obtain ⟨y, z, hyz, rfl⟩ := Place.reaches_facing_iff.1 hq
          cases y with
          | nil =>
              rw [Place.behind_nil, ← List.nil_append z, ← hyz]
              exact Language.stopAt?_css_point hk
          | cons c y =>
              obtain ⟨rfl, htail⟩ := List.cons.inj hyz
              rw [Place.behind_cons]
              exact Language.stopAt?_css_eq_none (b := some '.') rfl (hfraction f rfl) hu halpha
                hne hx hk (Place.reaches_facing_iff.2 ⟨y, z, htail, rfl⟩)

/-- Two dimensions with a letter too many, one with a fraction and one without. -/
theorem tokenize_dimension_pixel :
    Language.css.lexer.tokenize
        (String.ofList (numeralText ['1'] (some ['5']) ++ ("px".toList ++ ['a']))) =
        [.initial .number (String.ofList ['1'])] ∧
      Language.css.lexer.tokenize
        (String.ofList (numeralText ['1', '2'] none ++ ("px".toList ++ ['a']))) = [] :=
  have hfive : ∀ f ∈ some ['5'], IsDigits f := fun f hf =>
    Option.some.inj hf ▸ ⟨by decide, by decide⟩
  ⟨(tokenize_dimension ⟨by decide, by decide⟩ hfive (by decide) (by decide) (by decide)
      (by decide)).2,
    (tokenize_dimension ⟨by decide, by decide⟩ (by simp) (by decide) (by decide) (by decide)
      (by decide)).2⟩

end Quire.Highlight
