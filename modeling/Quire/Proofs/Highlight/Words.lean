import Quire.Proofs.Highlight.Languages
import Quire.Proofs.Text.Chars

/-!
# Words

An identifier goes from one edge of a word to another, and the name of a property has a colon behind it.
**A word is one identifier unless it begins or ends with a dollar sign** (`isOne_word`), **and the name of a
property is one token if no letter of it is a capital** (`tokenize_property`).

The clauses of the other tokens do not come into it: none begins with a character that a word begins with,
which is told by going through these characters (`css_firsts`), or it needs a parenthesis.
-/

namespace Quire.Highlight

open Quire.Regex (CharSet Place)
open Regex.Place (behind facing)

/-! ## 1. Identifiers -/

/-- Whether a character may stand in an identifier. -/
def isNamePart (dollar : Bool) (c : Char) : Bool :=
  c.isAlphanum || c == '_' || dollar && c == '$'

variable {dollar : Bool} {c : Char} {s t w : List Char}

theorem toNat_lt_of_isNamePart (h : isNamePart dollar c = true) : c.toNat < 128 := by
  simp only [isNamePart, Bool.or_eq_true, Bool.and_eq_true, beq_iff_eq] at h
  rcases h with (h | rfl) | ⟨-, rfl⟩
  · exact Text.toNat_lt_of_isAlphanum h
  · decide
  · decide

theorem isWord_of_isAlphanum (h : c.isAlphanum = true) : Text.isWord c = true := by
  rw [Text.isWord_of_ascii (Text.toNat_lt_of_isAlphanum h), h, Bool.true_or]

/-- What may stand in an identifier is a character of its expression, one that may begin it unless it is a
digit, and belongs to a word unless it is a dollar sign. -/
theorem of_isNamePart (h : isNamePart dollar c = true) :
    (namePart dollar).has c = true ∧ (c.isDigit = false → (nameStart dollar).has c = true) ∧
      (Text.isWord c = true ↔ c ≠ '$') := by
  have hlow : c = '_' ↔ c.toNat = 95 := Char.toNat_inj.symm
  have hdollar : c = '$' ↔ c.toNat = 36 := Char.toNat_inj.symm
  rw [Text.isWord_of_ascii (toNat_lt_of_isNamePart h)]
  simp only [isNamePart, Bool.or_eq_true, Bool.and_eq_true, beq_iff_eq, Ne, hlow, hdollar,
    ← Bool.not_eq_true, Text.isAlphanum_iff, Text.isAlpha_iff, Text.isUpper_iff, Text.isLower_iff,
    Text.isDigit_iff] at h ⊢
  cases dollar <;>
  simp only [namePart, nameStart, if_true, Bool.false_eq_true, if_false, List.cons_append,
    List.nil_append, CharSet.has_edge_iff, CharSet.has_no_edge, not_false_eq_true, and_true,
    true_and, false_and, or_false] at h ⊢ <;>
  omega

/-- An identifier that goes to the end of a text has the edges of a word at both ends. -/
theorem edges_of_mem_ends (h : Place.behind none w [] ∈ (identifier dollar).ends (facing none w)) :
    Regex.isWordAt w.head? = true ∧ Regex.isWordAt w.getLast? = true := by
  simp only [identifier, Regex.mem_ends_ofParts_cons, Regex.mem_ends_wordEdge] at h
  obtain ⟨_, ⟨rfl, hhead⟩, _, -, _, -, q, ⟨rfl, hlast⟩, h⟩ := h
  rw [Regex.ofParts, Regex.ends, List.mem_singleton] at h
  subst h
  have hnone : Regex.isWordAt none = false := rfl
  rw [Place.before_facing, Place.rest_facing, hnone] at hhead
  rw [Place.before_behind, Place.rest_behind, List.head?_nil, hnone, Option.or_none] at hlast
  exact ⟨Bool.eq_true_of_not_eq_false hhead.symm, Bool.eq_true_of_not_eq_false hlast⟩

theorem prefers_identifier (hc : (nameStart dollar).has c = true)
    (hs : ∀ d ∈ s, (namePart dollar).has d = true) (hhead : Regex.isWordAt (c :: s).head? = true)
    (hlast : Regex.isWordAt (c :: s).getLast? = true) :
    (identifier dollar).Prefers (facing none (c :: s)) (behind (some c) s []) := by
  have hrun := Regex.prefers_run (b := some c) (t := []) hs nofun
  rw [List.append_nil] at hrun
  refine .parts (Regex.prefers_edge ?_) (.parts (Regex.prefers_one hc) (.parts hrun
    (.parts (Regex.prefers_edge ?_) rfl)))
  · rw [hhead]
    exact Bool.false_ne_true
  · rw [← Place.getLast?_cons_or none, Option.or_none, hlast]
    exact Bool.false_ne_true.symm

namespace Language

variable {l : Language}

/-- The clauses of the other tokens begin with no character of an identifier that is no digit. -/
theorem has_firsts_eq_false (hl : l = .csharp ∨ l = .javascript ∨ l = .typescript)
    (h : isNamePart (l != .csharp) c = true) (hc : c.isDigit = false) :
    ∀ k ∈ l.clauses, k.rule ≠ .identifier → ∀ set ∈ k.regex.firsts, set.has c = false :=
  Text.of_ascii (p := fun c => isNamePart (l != .csharp) c = true → c.isDigit = false →
    ∀ k ∈ l.clauses, k.rule ≠ .identifier → ∀ set ∈ k.regex.firsts, set.has c = false)
    (by rcases hl with rfl | rfl | rfl <;> decide +kernel) (toNat_lt_of_isNamePart h) h hc

/-- The clause of identifiers is the only one of its kind. -/
theorem exists_identifier (hl : l = .csharp ∨ l = .javascript ∨ l = .typescript) :
    ∃ i, l.clauses[i]? =
        some ⟨"identifier", .identifier, identifier (l != .csharp), none⟩ ∧
      (∀ k ∈ l.clauses.take i, k.rule ≠ .identifier) ∧
      ∀ k ∈ l.clauses, k.rule = .identifier → k.regex = identifier (l != .csharp) := by
  rcases hl with rfl | rfl | rfl
  · exact ⟨5, rfl, by decide, by decide⟩
  · exact ⟨6, rfl, by decide, by decide⟩
  · exact ⟨6, rfl, by decide, by decide⟩

/-- What matches in front of a character of an identifier that is no digit is the clause of
identifiers. -/
theorem mem_ends_of_stopAt? (hl : l = .csharp ∨ l = .javascript ∨ l = .typescript)
    (h : isNamePart (l != .csharp) c = true) (hc : c.isDigit = false) {k : Clause}
    (hk : k ∈ l.clauses) {q : Place} (hstop : k.stopAt? (facing none (c :: w)) = some q) :
    q ∈ (identifier (l != .csharp)).ends (facing none (c :: w)) := by
  have hrule : k.rule = .identifier := by
    by_contra hrule
    rw [stopAt?_eq_none_of_firsts hk (has_firsts_eq_false hl h hc k hk hrule)] at hstop
    cases hstop
  obtain ⟨_, -, -, hreads⟩ := exists_identifier hl
  rw [← hreads k hk hrule]
  exact Clause.mem_ends_of_stopAt? hstop

end Language

/-- **A word is one token.** Whatever is made of letters, digits and low lines, in javascript and
typescript also of dollar signs, and begins with no digit, is one identifier with the category of the word,
unless it begins or ends with a dollar sign: there is an edge of a word only next to a character of a word,
and the dollar sign is none. -/
theorem isOne_word {l : Language} {w : List Char}
    (hl : l = .csharp ∨ l = .javascript ∨ l = .typescript) (hne : w ≠ [])
    (hw : ∀ c ∈ w, isNamePart (l != .csharp) c = true) (hdigit : ∀ c ∈ w.head?, c.isDigit = false) :
    l.lexer.IsOne (l.lexer.classify (String.ofList w)) (String.ofList w) ↔
      w.head? ≠ some '$' ∧ w.getLast? ≠ some '$' := by
  obtain ⟨c, cs, rfl⟩ := List.exists_cons_of_ne_nil hne
  have hc := hw c List.mem_cons_self
  have hdigit := hdigit c rfl
  obtain ⟨d, hd⟩ := Option.isSome_iff_exists.1 (List.getLast?_isSome.2 hne)
  have hedges : Regex.isWordAt (c :: cs).head? = true ∧ Regex.isWordAt (c :: cs).getLast? = true ↔
      (c :: cs).head? ≠ some '$' ∧ (c :: cs).getLast? ≠ some '$' := by
    rw [hd, List.head?_cons, Ne, Ne, Option.some.injEq, Option.some.injEq]
    exact and_congr (of_isNamePart hc).2.2 (of_isNamePart (hw d (List.mem_of_getLast? hd))).2.2
  rw [← hedges]
  constructor
  · intro h
    have hmem : Token.initial (l.lexer.classify (String.ofList (c :: cs)))
        (String.ofList (c :: cs)) ∈ l.lexer.tokenize (String.ofList (c :: cs ++ [])) := by
      rw [List.append_nil, h]
      exact List.mem_singleton_self _
    obtain ⟨k, hk, hstop⟩ := Language.exists_of_mem_tokenize hmem
    rw [List.append_nil] at hstop
    exact edges_of_mem_ends (Language.mem_ends_of_stopAt? hl hc hdigit hk hstop)
  · rintro ⟨hhead, hlast⟩
    obtain ⟨i, hclause, hbefore, -⟩ := Language.exists_identifier hl
    have hprefers := prefers_identifier ((of_isNamePart hc).2.1 hdigit)
      (fun e he => (of_isNamePart (hw e (List.mem_cons_of_mem c he))).1) hhead hlast
    refine Language.tokenize_eq_whole hclause hprefers rfl fun k hk => ?_
    have hmem := List.mem_of_mem_take hk
    exact Language.stopAt?_eq_none_of_firsts hmem
      (Language.has_firsts_eq_false hl hc hdigit k hmem (hbefore k hk))

/-- A dollar sign inside a word, and one at its end. -/
theorem isOne_word_dollar :
    Language.javascript.lexer.IsOne
        (Language.javascript.lexer.classify (String.ofList ['a', '$', 'b']))
        (String.ofList ['a', '$', 'b']) ∧
      ¬ Language.javascript.lexer.IsOne
        (Language.javascript.lexer.classify (String.ofList ['a', '$']))
        (String.ofList ['a', '$']) :=
  have hfirst : ∀ c ∈ some 'a', c.isDigit = false := fun c hc => Option.some.inj hc ▸ rfl
  have hinside := isOne_word (w := ['a', '$', 'b']) (.inr (.inl rfl)) (by decide) (by decide) hfirst
  have hend := isOne_word (w := ['a', '$']) (.inr (.inl rfl)) (by decide) (by decide) hfirst
  ⟨hinside.2 (by decide), fun h => absurd (hend.1 h) (by decide)⟩

/-! ## 2. Names of properties -/

theorem toNat_lt_of_isAlpha_or (h : c.isAlpha = true ∨ c = '-') : c.toNat < 128 := by
  rcases h with h | rfl
  · exact Text.toNat_lt_of_isAlphanum (Text.isAlphanum_of_isAlpha h)
  · decide

theorem has_lowerPart_iff (h : c.isAlpha = true ∨ c = '-') :
    lowerPart.has c = true ↔ c.isUpper = false := by
  rw [← Char.toNat_inj] at h
  have hval : '-'.toNat = 45 := rfl
  simp only [← Bool.not_eq_true, hval, Text.isAlpha_iff, Text.isUpper_iff, Text.isLower_iff] at h ⊢
  simp only [lowerPart, CharSet.has_edge_iff, CharSet.has_no_edge, Bool.false_eq_true,
    not_false_eq_true, and_true]
  omega

theorem of_isBlank_or_colon {p : Char → Prop}
    (h : ∀ n ∈ 0x3a :: Text.numbersOf Text.blankBands, p (Char.ofNat n))
    (hc : Text.isBlank c = true ∨ c = ':') : p c := by
  have hmem : c.toNat ∈ 0x3a :: Text.numbersOf Text.blankBands := by
    rcases hc with hc | rfl
    · exact List.mem_cons_of_mem _ (Text.mem_numbersOf hc)
    · exact List.mem_cons_self
  have hp := h c.toNat hmem
  rwa [Char.ofNat_toNat] at hp

/-- A colon behind blanks is what a property asks for. -/
theorem allows_markAhead {ws : List Char} (hws : ∀ c ∈ ws, Text.isBlank c = true)
    {b : Option Char} : (Condition.mk true (markAhead ':')).allows (facing b (ws ++ [':'])) = true := by
  have hblanks := Regex.prefers_run (b := none) (t := [':'])
    (fun c hc => (CharSet.has_blank c).trans (hws c hc)) (fun c hc => by
      rw [← Option.some.inj hc, CharSet.has_blank]
      decide)
  have hprefers : (markAhead ':').Prefers (facing none (ws ++ [':'])) (facing (some ':') []) :=
    .parts hblanks (Regex.prefers_one (by rw [CharSet.has_single, decide_eq_true rfl]))
  have halone : (facing b (ws ++ [':'])).alone = facing none (ws ++ [':']) := rfl
  rw [Condition.allows, halone]
  dsimp only
  rw [hprefers]
  rfl

theorem prefers_propertyName {t : List Char} (hs : ∀ c ∈ s, lowerPart.has c = true)
    (hhead : Regex.isWordAt s.head? = true) (ht : ∀ c ∈ t.head?, lowerPart.has c = false) :
    propertyName.Prefers (facing none (s ++ t)) (behind none s t) := by
  have hne : s ≠ [] := by
    rintro rfl
    cases hhead
  refine .parts (Regex.prefers_edge ?_) (.parts (Regex.prefers_run_plus hne hs ht) rfl)
  rw [List.head?_append_of_ne_nil s hne, hhead]
  exact Bool.false_ne_true

/-- A property takes small letters and hyphens only. -/
theorem has_lowerPart_of_mem_ends {t : List Char}
    (h : behind none s t ∈ propertyName.ends (facing none (s ++ t))) :
    ∀ c ∈ s, lowerPart.has c = true := by
  simp only [propertyName, Regex.mem_ends_ofParts_cons, Regex.mem_ends_wordEdge] at h
  obtain ⟨_, ⟨rfl, -⟩, q, hq, h⟩ := h
  rw [Regex.ofParts, Regex.ends, List.mem_singleton] at h
  obtain ⟨x, y, -, hxy, hx, rfl⟩ := Regex.mem_ends_run_plus.1 hq
  obtain rfl : t = y := congrArg Place.rest h
  rwa [List.append_cancel_right hxy]

namespace Language

/-- What a clause of css begins with among the ASCII characters: no point, no digit unless it is one of the
last two, a letter only if it is the clause of properties, and letters and digits at the edge of a word;
where a parenthesis must follow, any letter. -/
theorem css_firsts : ∀ k ∈ Language.css.clauses, ∀ n < 128, ∀ set ∈ k.regex.firsts,
    set.has (Char.ofNat n) = true →
      Char.ofNat n ≠ '.' ∧ ((Char.ofNat n).isDigit = true → k ∉ Language.css.clauses.take 5) ∧
      ((Char.ofNat n).isAlpha = true → k.rule = .identifier ∨ CharSet.single '(' ∈ k.regex.musts) ∧
      ((Char.ofNat n).isAlphanum = true →
        k.startsAtEdge = true ∨ CharSet.single '(' ∈ k.regex.musts) := by
  decide +kernel

variable {k : Clause} {set : CharSet} {b : Option Char}

/-- What is known where a clause of css matches in front of an ASCII character. -/
theorem of_stopAt?_css (hk : k ∈ Language.css.clauses) (hc : c.toNat < 128)
    (h : k.stopAt? (facing b (c :: s)) ≠ none) :
    c ≠ '.' ∧ (c.isDigit = true → k ∉ Language.css.clauses.take 5) ∧
      (c.isAlpha = true → k.rule = .identifier ∨ CharSet.single '(' ∈ k.regex.musts) ∧
      (c.isAlphanum = true → k.startsAtEdge = true ∨ CharSet.single '(' ∈ k.regex.musts) := by
  by_contra hknown
  refine h (stopAt?_eq_none_of_firsts hk fun set hset => Bool.eq_false_iff.2 fun hhas => hknown ?_)
  have hfirst := css_firsts k hk c.toNat hc set hset
  rw [Char.ofNat_toNat] at hfirst
  exact hfirst hhas

/-- Apart from properties no clause of css begins with a letter, where there is no parenthesis. -/
theorem stopAt?_css_of_isAlpha (hk : k ∈ Language.css.clauses) (hrule : k.rule ≠ .identifier)
    (hc : c.isAlpha = true) (hparen : '(' ∉ c :: s) : k.stopAt? (facing b (c :: s)) = none := by
  by_contra h
  have hascii := Text.toNat_lt_of_isAlphanum (Text.isAlphanum_of_isAlpha hc)
  rcases (of_stopAt?_css hk hascii h).2.2.1 hc with hid | hmust
  · exact hrule hid
  · exact h (Clause.stopAt?_eq_none_of_musts hmust hparen)

/-- No clause of css begins with a blank or a colon. -/
theorem has_css_firsts_of_isBlank (hk : k ∈ Language.css.clauses) (hset : set ∈ k.regex.firsts)
    (hc : Text.isBlank c = true ∨ c = ':') : set.has c = false :=
  of_isBlank_or_colon
    (p := fun c => ∀ k ∈ Language.css.clauses, ∀ set ∈ k.regex.firsts, set.has c = false)
    (by decide +kernel) hc k hk set hset

/-- The clause of properties is the only one of its kind. -/
theorem css_property :
    Language.css.clauses[3]? =
        some ⟨"property", .identifier, propertyName, some ⟨true, markAhead ':'⟩⟩ ∧
      (∀ k ∈ Language.css.clauses.take 3, k.rule ≠ .identifier) ∧
      ∀ k ∈ Language.css.clauses, k.rule = .identifier → k.regex = propertyName :=
  ⟨rfl, by decide, by decide⟩

/-- Words that are the same but for the case of ASCII letters are of one category. -/
theorem classify_css {v : List Char} (hs : ∀ c ∈ s, c.toNat < 128)
    (h : v.map Char.toLower = s.map Char.toLower) :
    Language.css.lexer.classify (String.ofList v) = Language.css.lexer.classify (String.ofList s) := by
  have hv : ∀ c ∈ v, c.toNat < 128 := fun c hc => by
    obtain ⟨d, hd, he⟩ := List.mem_map.1 (h ▸ List.mem_map_of_mem hc)
    rw [← Text.toNat_toLower_lt_iff, ← he, Text.toNat_toLower_lt_iff]
    exact hs d hd
  have hkey : Text.lowercase (String.ofList v) = Text.lowercase (String.ofList s) := by
    rw [Text.lowercase, Text.lowercase, String.toList_ofList, String.toList_ofList,
      Text.lowercaseAfter_of_ascii hv, Text.lowercaseAfter_of_ascii hs, h]
  have hfold : Language.css.lexer.ignoreCase = true := ignoreCase_lexer .css
  rw [Lexer.classify, Lexer.classify, foldCase, foldCase, if_pos hfold, if_pos hfold, hkey]

end Language

/-- **The name of a property is one token if it is written in small letters.** What is made of letters and
hyphens, begins with a letter and has a colon behind it, maybe after blanks, is one token with the category
of the word exactly if no letter is a capital. The category is the same in either case. -/
theorem tokenize_property {w ws : List Char} (hw : ∀ c ∈ w, c.isAlpha = true ∨ c = '-')
    (hhead : w.head?.any Char.isAlpha = true) (hws : ∀ c ∈ ws, Text.isBlank c = true) :
    (Language.css.lexer.tokenize (String.ofList (w ++ (ws ++ [':']))) =
        [.initial (Language.css.lexer.classify (String.ofList w)) (String.ofList w)] ↔
      ∀ c ∈ w, c.isUpper = false) ∧
    ∀ v : List Char, v.map Char.toLower = w.map Char.toLower →
      Language.css.lexer.classify (String.ofList v) =
        Language.css.lexer.classify (String.ofList w) := by
  have hascii : ∀ c ∈ w, c.toNat < 128 := fun c hc => toNat_lt_of_isAlpha_or (hw c hc)
  refine ⟨?_, fun v hv => Language.classify_css hascii hv⟩
  obtain ⟨hclause, hbefore, hreads⟩ := Language.css_property
  obtain ⟨c, s, rfl⟩ : ∃ c s, w = c :: s := by
    cases w with
    | nil => cases hhead
    | cons c s => exact ⟨c, s, rfl⟩
  have hc : c.isAlpha = true := hhead
  have hparen : '(' ∉ c :: (s ++ (ws ++ [':'])) := by
    rw [← List.cons_append, List.mem_append, List.mem_append, not_or, not_or]
    refine ⟨fun h => absurd (hw _ h) (by decide), fun h => absurd (hws _ h) (by decide), by decide⟩
  have hlower : (∀ d ∈ c :: s, lowerPart.has d = true) ↔ ∀ d ∈ c :: s, d.isUpper = false :=
    forall₂_congr fun d hd => has_lowerPart_iff (hw d hd)
  rw [← hlower]
  constructor
  · intro h
    obtain ⟨k, hk, hstop⟩ := Language.exists_of_mem_tokenize (h ▸ List.mem_singleton_self _)
    have hrule : k.rule = .identifier := by
      by_contra hrule
      rw [List.cons_append, Language.stopAt?_css_of_isAlpha hk hrule hc hparen] at hstop
      cases hstop
    have hmem := Clause.mem_ends_of_stopAt? hstop
    rw [hreads k hk hrule] at hmem
    exact has_lowerPart_of_mem_ends hmem
  · intro hs
    have hrest : ∀ d ∈ ws ++ [':'], Text.isBlank d = true ∨ d = ':' := fun d hd =>
      (List.mem_append.1 hd).imp (hws d) List.mem_singleton.1
    have hcolon : ∀ d ∈ (ws ++ [':']).head?, lowerPart.has d = false := fun d hd =>
      Language.has_css_firsts_of_isBlank (List.mem_of_getElem? hclause) (by decide)
        (hrest d (List.mem_of_head? hd))
    have hword : Regex.isWordAt (c :: s).head? = true := by
      rw [List.head?_cons, Regex.isWordAt, isWord_of_isAlphanum (Text.isAlphanum_of_isAlpha hc)]
    have hstop := Clause.stopAt?_eq_some
      (k := ⟨"property", .identifier, propertyName, some ⟨true, markAhead ':'⟩⟩)
      (prefers_propertyName hs hword hcolon) (allows_markAhead hws)
    have hfirst : ∀ k ∈ Language.css.clauses.take 3,
        k.stopAt? (facing none (c :: s ++ (ws ++ [':']))) = none := fun k hk =>
      Language.stopAt?_css_of_isAlpha (List.mem_of_mem_take hk) (hbefore k hk) hc hparen
    have hone := Language.tokenize_eq_singleton ⟨hclause, hstop, hfirst⟩ fun k hk q hq => by
      obtain ⟨x, y, hxy, rfl⟩ := Place.reaches_facing_iff.1 hq
      cases y with
      | nil => exact Language.stopAt?_facing_nil hk
      | cons d y =>
          have hd : d ∈ ws ++ [':'] := hxy ▸ List.mem_append_right x List.mem_cons_self
          exact Language.stopAt?_eq_none_of_firsts hk fun _ hset =>
            Language.has_css_firsts_of_isBlank hk hset (hrest d hd)
    rw [hone, Lexer.categorize]

/-- A name in small letters, and one with a capital. -/
theorem tokenize_property_capital :
    Language.css.lexer.tokenize (String.ofList (['t', 'o', 'p'] ++ ([' '] ++ [':']))) =
        [.initial (Language.css.lexer.classify (String.ofList ['t', 'o', 'p']))
          (String.ofList ['t', 'o', 'p'])] ∧
      Language.css.lexer.tokenize (String.ofList (['T', 'o', 'p'] ++ ([' '] ++ [':']))) ≠
        [.initial (Language.css.lexer.classify (String.ofList ['T', 'o', 'p']))
          (String.ofList ['T', 'o', 'p'])] ∧
      Language.css.lexer.classify (String.ofList ['T', 'o', 'p']) =
        Language.css.lexer.classify (String.ofList ['t', 'o', 'p']) :=
  have hsmall := tokenize_property (by decide) (by decide) (by decide)
  have hcapital := tokenize_property (by decide) (by decide) (by decide)
  ⟨hsmall.1.2 (by decide), fun h => absurd (hcapital.1.1 h) (by decide), hsmall.2 _ (by decide)⟩

end Quire.Highlight
