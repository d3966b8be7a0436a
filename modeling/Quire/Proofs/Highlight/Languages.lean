import Mathlib.Data.List.Sort
import Quire.Highlight.Language
import Quire.Proofs.Highlight.Expressions

/-!
# The languages

The patterns of every language as clauses (`Language.clauses`). **Every language can be run, and its lexer
has the patterns that its clauses say** (`Language.compile_grammar`), so that the tokens of a text can be
told from them: a text that begins with a match, with none of a clause listed before it, and that holds no
match behind it, is that one token (`Language.tokenize_eq_singleton`), and one that holds no match at all
has none (`Language.tokenize_eq_nil`).

A set of characters is written by its edges.
-/

namespace Quire

/-! ## 1. Expressions -/

namespace Regex

/-- As many characters of a set as there are. -/
abbrev many (s : CharSet) : Regex :=
  .times 0 none true (.one s)

/-- As many characters of a set as there are, and one at least. -/
abbrev several (s : CharSet) : Regex :=
  .times 1 none true (.one s)

/-- An expression, or nothing. -/
abbrev maybe (r : Regex) : Regex :=
  .times 0 (some 1) true r

end Regex

namespace Highlight

open Quire.Regex (CharSet Place)
open Quire.Text (byteSize byteSize_append byteSize_toList takeBytes_append)

/-! ### Comments -/

/-- Two slashes, and what follows them on the line. -/
def lineComment : Regex :=
  .ofParts [.char '/', .char '/', .many ⟨[0, 0xa, 0xb, 0xd, 0xe]⟩]

/-- Anything between two marks, up to the first mark that ends it. -/
def enclosed (opening closing : List Char) : Regex :=
  .ofParts (opening.map .char ++
    [.seq (.times 0 none false (.one CharSet.none.compl)) (.ofWord closing)])

/-! ### Literals -/

/-- A text between quotes that holds no such quote. -/
def plainQuoted (quote : Char) : Regex :=
  .ofParts [.char quote, .many (CharSet.single quote).compl, .char quote]

/-- A character between quotes, or a double quote written twice. -/
def doubledPiece : Regex :=
  .alt (.one (CharSet.single '\x22').compl) (.seq (.char '\x22') (.char '\x22'))

/-- A text between double quotes, maybe with an at sign before them. -/
def verbatim : Regex :=
  .ofParts [.maybe (.char '@'), .char '\x22', .times 0 none true doubledPiece, .char '\x22']

/-- The characters that stand for themselves between delimiters. -/
def unescaped (delimiter : Char) : CharSet :=
  if delimiter < '\\' then ⟨[0, delimiter.toNat, delimiter.toNat + 1, 0x5c, 0x5d]⟩
  else ⟨[0, 0x5c, 0x5d, delimiter.toNat, delimiter.toNat + 1]⟩

/-- A character behind a backslash, or one that stands for itself. -/
def escapedPiece (delimiter : Char) : Regex :=
  .alt (.seq (.char '\\') (.one .notNewline)) (.one (unescaped delimiter))

/-- A text between delimiters. -/
def delimited (delimiter : Char) : Regex :=
  .ofParts [.char delimiter, .times 0 none true (escapedPiece delimiter), .char delimiter]

/-- A character between quotes. -/
def character : Regex :=
  .ofParts [.char '\x27', escapedPiece '\x27', .char '\x27']

/-- An expression between slashes, with its flags. -/
def slashed : Regex :=
  .ofParts [.char '/',
    .times 1 none true (.alt (.one ⟨[0, 0xa, 0xb, 0xd, 0xe, 0x2f, 0x30, 0x5c, 0x5d]⟩)
      (.seq (.char '\\') (.one .notNewline))),
    .char '/', .many ⟨[0x67, 0x68, 0x69, 0x6a, 0x6d, 0x6e, 0x73, 0x74, 0x75, 0x77, 0x79, 0x7a]⟩]

/-! ### Words -/

/-- The letters. -/
def letter : CharSet :=
  ⟨[0x41, 0x5b, 0x61, 0x7b]⟩

/-- The letters and the low line, and the dollar sign if it is one of them. -/
def nameStart (dollar : Bool) : CharSet :=
  ⟨(if dollar then [0x24, 0x25] else []) ++ [0x41, 0x5b, 0x5f, 0x60, 0x61, 0x7b]⟩

/-- The same with the digits. -/
def namePart (dollar : Bool) : CharSet :=
  ⟨(if dollar then [0x24, 0x25] else []) ++ [0x30, 0x3a, 0x41, 0x5b, 0x5f, 0x60, 0x61, 0x7b]⟩

/-- An identifier, from one edge of a word to another. -/
def identifier (dollar : Bool) : Regex :=
  .ofParts [.holds .wordEdge, .one (nameStart dollar), .many (namePart dollar), .holds .wordEdge]

/-- A name behind an at sign. -/
def decorator : Regex :=
  .ofParts [.char '@', .one (nameStart true), .many (namePart true)]

/-- The small letters and the hyphen. -/
def lowerPart : CharSet :=
  ⟨[0x2d, 0x2e, 0x61, 0x7b]⟩

/-- The name of a property. -/
def propertyName : Regex :=
  .ofParts [.holds .wordEdge, .several lowerPart]

/-- Some mark behind blanks. -/
def markAhead (mark : Char) : Regex :=
  .ofParts [.many .blank, .char mark]

/-- The letters, the digits and the hyphen. -/
def attributePart : CharSet :=
  ⟨[0x2d, 0x2e, 0x30, 0x3a, 0x41, 0x5b, 0x61, 0x7b]⟩

/-- The name of an attribute. -/
def attributeName : Regex :=
  .ofParts [.holds .wordEdge, .one ⟨[0x2d, 0x2e, 0x41, 0x5b, 0x61, 0x7b]⟩, .many attributePart]

/-- A tag. -/
def tag : Regex :=
  .ofParts [.char '<', .maybe (.char '/'), .one letter, .many attributePart,
    .maybe (.ofParts [.several .blank, .many (CharSet.single '>').compl]), .char '>']

/-- A reference to a character by its name. -/
def entity : Regex :=
  .ofParts [.char '&', .one letter, .many ⟨[0x30, 0x3a, 0x41, 0x5b, 0x61, 0x7b]⟩, .char ';']

/-! ### Numbers -/

/-- The digits in base sixteen. -/
def hexDigit : CharSet :=
  ⟨[0x30, 0x3a, 0x41, 0x47, 0x61, 0x67]⟩

/-- A reference to a character by its number. -/
def numericEntity : Regex :=
  .ofParts [.char '&', .char '#',
    .alt (.ofParts [.several ⟨[0x30, 0x3a]⟩, .char ';'])
      (.ofParts [.one ⟨[0x58, 0x59, 0x78, 0x79]⟩, .several hexDigit, .char ';'])]

/-- A color in base sixteen. -/
def hexColor : Regex :=
  .ofParts [.char '#', .ofBranches ([3, 6, 8].map fun n => .times n (some n) true (.one hexDigit)),
    .holds .wordEdge]

/-- A color by its parts. -/
def rgbColor : Regex :=
  .ofParts [.char 'r', .char 'g', .char 'b', .maybe (.char 'a'), .many .blank, .char '(',
    .many (CharSet.single ')').compl, .char ')']

/-- A numeral: digits, and a point and more digits if there is one. -/
def numeral : List Regex :=
  [.several .digit, .maybe (.seq (.char '.') (.several .digit))]

/-- A number that is no part of a word. -/
def number : Regex :=
  .ofParts ((.holds .wordEdge :: numeral) ++ [.holds .wordEdge])

/-- The units of a dimension, in the order in which they are tried. -/
def units : List String :=
  ["px", "em", "rem", "%", "ch", "cm", "mm", "in", "pt", "pc", "vh", "vw", "vmin", "vmax", "deg",
    "rad", "turn", "s", "ms", "hz", "khz"]

/-- One of the units. -/
def anyUnit : Regex :=
  .ofBranches (units.map fun u => .ofWord u.toList)

/-- A dimension: a numeral at the edge of a word, and a unit if there is one. -/
def dimension : Regex :=
  .ofParts ((.holds .wordEdge :: numeral) ++ [.maybe anyUnit])

/-- A power of ten behind a numeral. -/
def exponent : Regex :=
  .maybe (.ofParts [.one ⟨[0x45, 0x46, 0x65, 0x66]⟩, .maybe (.one ⟨[0x2b, 0x2c, 0x2d, 0x2e]⟩),
    .several .digit])

/-- The bases that are marked behind a nought: sixteen, eight and two. Each has its marks and its digits. -/
def sixteen : List Regex :=
  [.char '0', .one ⟨[0x58, 0x59, 0x78, 0x79]⟩, .several hexDigit]

@[inherit_doc sixteen]
def eight : List Regex :=
  [.char '0', .one ⟨[0x4f, 0x50, 0x6f, 0x70]⟩, .several ⟨[0x30, 0x38]⟩]

@[inherit_doc sixteen]
def two : List Regex :=
  [.char '0', .one ⟨[0x42, 0x43, 0x62, 0x63]⟩, .several ⟨[0x30, 0x32]⟩]

/-- A number in one of four bases. -/
def basedNumber : Regex :=
  .ofParts [.holds .wordEdge,
    .ofBranches ([sixteen, eight, two, numeral ++ [exponent]].map .ofParts), .holds .wordEdge]

/-- Digits with low lines between them. -/
def separated : List Regex :=
  [.several .digit, .times 0 none true (.seq (.char '_') (.several .digit))]

/-- A number in one of four bases, maybe with a letter that makes it a large one. -/
def largeNumber : Regex :=
  .seq (.holds .wordEdge) (.ofBranches
    ([sixteen, two, eight, separated ++ [.maybe (.ofParts (.char '.' :: separated)), exponent]].map
      fun rs => .ofParts (rs ++ [.maybe (.char 'n'), .holds .wordEdge])))

/-- One mark, which may be an at sign or may not. -/
def punctuation (atSign : Bool) : Regex :=
  .one ⟨[0x21, 0x22, 0x25, 0x27, 0x28, 0x30, 0x3a, if atSign then 0x41 else 0x40, 0x5b, 0x5c, 0x5d,
    0x5f, 0x7b, 0x7f]⟩

/-! ## 2. Clauses -/

namespace Language

/-- The clauses that javascript and typescript begin with. -/
def scriptClauses : List Clause :=
  [ ⟨"comment", .fixed .comment, lineComment, none⟩,
    ⟨"block-comment", .fixed .comment, enclosed ['/', '*'] ['*', '/'], none⟩,
    ⟨"template", .fixed .template, delimited '\x60', none⟩,
    ⟨"string", .fixed .string, .alt (delimited '\x22') (delimited '\x27'), none⟩ ]

/-- The clauses of a language, in the order of its patterns. -/
def clauses : Language → List Clause
  | csharp =>
    [ ⟨"comment", .fixed .comment, lineComment, none⟩,
      ⟨"block-comment", .fixed .comment, enclosed ['/', '*'] ['*', '/'], none⟩,
      ⟨"string", .fixed .string, verbatim, none⟩,
      ⟨"char", .fixed .string, character, none⟩,
      ⟨"number", .fixed .number, number, none⟩,
      ⟨"identifier", .identifier, identifier false, none⟩,
      ⟨"punctuation", .fixed .punctuation, punctuation false, none⟩ ]
  | html =>
    [ ⟨"comment", .fixed .comment, enclosed ['<', '!', '-', '-'] ['-', '-', '>'], none⟩,
      ⟨"tag", .fixed .punctuation, tag, none⟩,
      ⟨"attribute", .fixed .keyword, attributeName, some ⟨true, markAhead '='⟩⟩,
      ⟨"string", .fixed .string, .alt (plainQuoted '\x22') (plainQuoted '\x27'), none⟩,
      ⟨"entity", .fixed .number, entity, none⟩,
      ⟨"numeric-entity", .fixed .number, numericEntity, none⟩ ]
  | css =>
    [ ⟨"comment", .fixed .comment, enclosed ['/', '*'] ['*', '/'], none⟩,
      ⟨"hex-color", .fixed .number, hexColor, none⟩,
      ⟨"rgb-color", .fixed .number, rgbColor, none⟩,
      ⟨"property", .identifier, propertyName, some ⟨true, markAhead ':'⟩⟩,
      ⟨"string", .fixed .string, .alt (plainQuoted '\x22') (plainQuoted '\x27'), none⟩,
      ⟨"dimension", .fixed .number, dimension, some ⟨false, .one lowerPart⟩⟩,
      ⟨"number", .fixed .number, number, none⟩ ]
  | javascript =>
    scriptClauses ++
      [ ⟨"regex", .fixed .punctuation, slashed, none⟩,
        ⟨"number", .fixed .number, basedNumber, none⟩,
        ⟨"identifier", .identifier, identifier true, none⟩,
        ⟨"punctuation", .fixed .punctuation, punctuation false, none⟩ ]
  | typescript =>
    scriptClauses ++
      [ ⟨"decorator", .fixed .decorator, decorator, none⟩,
        ⟨"number", .fixed .number, largeNumber, none⟩,
        ⟨"identifier", .identifier, identifier true, none⟩,
        ⟨"punctuation", .fixed .punctuation, punctuation true, none⟩ ]

/-- **The patterns of a language are its clauses.** -/
theorem map_clause? (l : Language) : l.grammar.patterns.map (·.clause?) = l.clauses.map some := by
  cases l <;> decide +kernel

end Language

/-- The size of a choice between words, which are put in order by insertion. -/
def insertedSize (forwards : Bool) (ws : List (List UInt8)) : Nat :=
  let ws := if forwards then ws else ws.map List.reverse
  let longest := ws.foldl (fun n w => max n w.length) 0
  32 + Regex.wordTreeSize longest (ws.insertionSort (· ≤ ·))

/-- However the words are put in order, they come in the same order. -/
theorem sizes_alt {a b : Regex} {ws : List (List UInt8)}
    (h : (Regex.alt a b).branches.mapM Regex.wordBytes? = some ws) (forwards : Bool) :
    (Regex.sizes forwards (.alt a b)).1 = insertedSize forwards ws := by
  rw [Regex.sizes, h]
  dsimp only
  rw [Regex.wordsSize, insertedSize, List.mergeSort_eq_insertionSort]

/-- There is room for the expression of a dimension. -/
theorem size_dimension_le : dimension.size ≤ Regex.maxSize := by
  have hwords : anyUnit.branches.mapM Regex.wordBytes? =
      some (units.map fun u => u.toUTF8.toList) := by
    decide +kernel
  have hroom : ∀ forwards, (Regex.sizes forwards (.ofParts (.holds .wordEdge :: numeral))).1 +
      insertedSize forwards (units.map fun u => u.toUTF8.toList) ≤ 100000 := by
    decide +kernel
  have hsizes : ∀ forwards, (Regex.sizes forwards dimension).1 ≤ 100072 := fun forwards => by
    have hparts : (Regex.sizes forwards dimension).1 =
        (Regex.sizes forwards (.ofParts (.holds .wordEdge :: numeral))).1 +
          ((Regex.sizes forwards anyUnit).1 + 72) := by
      change _ + (_ + (_ + (_ + 72))) = _ + (_ + _) + (_ + 72)
      rw [Nat.add_assoc, Nat.add_assoc]
      rfl
    have hunits : (Regex.sizes forwards anyUnit).1 = insertedSize forwards _ :=
      sizes_alt hwords forwards
    have hle := hroom forwards
    omega
  have hmax : Regex.maxSize = 10485760 := rfl
  have hfree : (if dimension.isAnchored then 32 else 112) = 112 := rfl
  have hforwards := hsizes true
  have hbackwards := hsizes false
  rw [Regex.size, hfree, hmax]
  omega

namespace Language

variable {l : Language} {k : Clause} {i : Nat}

/-- **The clauses of a language are plain, and there is room for them.** -/
theorem of_mem_clauses (hk : k ∈ l.clauses) : k.isPlain = true ∧ k.fits = true := by
  have hall : ∀ k ∈ l.clauses, k.isPlain = true ∧ (k.regex = dimension ∨
      k.regex.size ≤ Regex.maxSize) ∧ ∀ a ∈ k.condition, a.held.size ≤ Regex.maxSize := by
    cases l <;> decide +kernel
  obtain ⟨hplain, hsize, hheld⟩ := hall k hk
  refine ⟨hplain, ?_⟩
  rw [Clause.fits, Bool.and_eq_true, decide_eq_true_eq, Option.all_eq_true]
  refine ⟨?_, fun a ha => decide_eq_true (hheld a ha)⟩
  rcases hsize with h | h
  · rw [h]
    exact size_dimension_le
  · exact h

/-- **Every language can be run,** and its patterns are those that its clauses say. -/
theorem compile_grammar (l : Language) :
    l.grammar.compile = .ok l.lexer ∧ l.lexer.patterns = l.clauses.map Clause.pattern ∧
      l.lexer.ignoreCase = l.grammar.ignoreCase := by
  have hforall : List.Forall₂ (fun t k => PatternText.clause? t = some k) l.grammar.patterns
      l.clauses := by
    have hmap := List.forall₂_eq_eq_eq.symm ▸ l.map_clause?
    rwa [List.forall₂_map_left_iff, List.forall₂_map_right_iff] at hmap
  have hpatterns : (l.grammar.patterns.mapM fun t =>
      t.compile.mapError (InvalidPattern.mk l.grammar.name t.name)) =
        .ok (l.clauses.map Clause.pattern) := by
    rw [mapM_eq_ok_iff, List.forall₂_map_right_iff]
    simp only [mapError_eq_ok_iff]
    refine List.forall₂_iff_zip.2 ⟨hforall.length_eq, fun h => ?_⟩
    exact compile_of_clause? ((List.forall₂_iff_zip.1 hforall).2 h)
      (of_mem_clauses (List.of_mem_zip h).2).2
  rw [Language.lexer, Grammar.compile, hpatterns]
  exact ⟨rfl, rfl, rfl⟩

theorem patterns_lexer (l : Language) : l.lexer.patterns = l.clauses.map Clause.pattern :=
  l.compile_grammar.2.1

/-- A language compares words as its grammar says. -/
theorem ignoreCase_lexer (l : Language) : l.lexer.ignoreCase = l.grammar.ignoreCase :=
  l.compile_grammar.2.2

/-! ## 3. Tokens -/

/-- A clause of a language matches from one place to another, and none that is listed before it matches at
the first place. -/
structure IsFirst (l : Language) (i : Nat) (k : Clause) (p q : Place) : Prop where
  clause : l.clauses[i]? = some k
  stop : k.stopAt? p = some q
  before : ∀ k' ∈ l.clauses.take i, k'.stopAt? p = none

variable {w rest : List Char} {b : Option Char} {s q : Place}

/-- A pattern of a lexer finds what a clause says. -/
theorem exists_of_getElem? {c : Pattern} (hc : l.lexer.patterns[i]? = some c) :
    ∃ k, l.clauses[i]? = some k ∧ ∀ q, c.matchAt? q = (k.stopAt? q).map (.mk q) := by
  rw [patterns_lexer, List.getElem?_map] at hc
  obtain ⟨k, hk, rfl⟩ := Option.map_eq_some_iff.1 hc
  exact ⟨k, hk, Clause.matchAt?_pattern (of_mem_clauses (List.mem_of_getElem? hk)).1⟩

theorem exists_of_mem {c : Pattern} (hc : c ∈ l.lexer.patterns) :
    ∃ k ∈ l.clauses, ∀ q, c.matchAt? q = (k.stopAt? q).map (.mk q) := by
  obtain ⟨i, hi⟩ := List.getElem?_of_mem hc
  obtain ⟨k, hk, hmatch⟩ := exists_of_getElem? hi
  exact ⟨k, List.mem_of_getElem? hk, hmatch⟩

/-- **A text that holds no match of a clause has no tokens.** -/
theorem tokenize_eq_nil
    (h : ∀ k ∈ l.clauses, ∀ q, (Place.facing none w).Reaches q → k.stopAt? q = none) :
    l.lexer.tokenize (String.ofList w) = [] := by
  rw [Lexer.tokenize_eq_rescan, ← Place.offset_ofString (String.ofList w)]
  refine Lexer.rescan_eq_nil (.here _) fun c hc q hq => ?_
  obtain ⟨k, hk, hmatch⟩ := exists_of_mem hc
  rw [Place.ofString_ofList] at hq
  rw [hmatch, h k hk q hq, Option.map_none]

/-- **A text that begins with a match of a clause, with none of a clause listed before it, and that holds
no match behind it, is that one token.** -/
theorem tokenize_eq_singleton (h : l.IsFirst i k (.facing none (w ++ rest)) (.facing b rest))
    (hrest : ∀ k' ∈ l.clauses, ∀ q, (Place.facing b rest).Reaches q → k'.stopAt? q = none) :
    l.lexer.tokenize (String.ofList (w ++ rest)) =
      [.initial (l.lexer.categorize k.rule (String.ofList w)) (String.ofList w)] := by
  have hc : l.lexer.patterns[i]? = some k.pattern := by
    rw [patterns_lexer, List.getElem?_map, h.clause, Option.map_some]
  have hplain := (of_mem_clauses (List.mem_of_getElem? h.clause)).1
  have hm : k.pattern.matchAt? (.ofString (String.ofList (w ++ rest))) =
      some ⟨.ofString (String.ofList (w ++ rest)), .facing b rest⟩ := by
    rw [Clause.matchAt?_pattern hplain, Place.ofString_ofList, h.stop, Option.map_some]
  have hreach := (Pattern.of_matchAt? hm).2.1
  rw [Lexer.tokenize_eq_cons hc hm fun j c' hj hc' => ?_,
    Lexer.rescan_eq_nil hreach fun c' hc' q hq => ?_]
  · have hsize : (String.ofList (w ++ rest)).utf8ByteSize = byteSize w + byteSize rest := by
      rw [← byteSize_toList, String.toList_ofList, byteSize_append]
    have htext : (Place.facing none (w ++ rest)).upTo (.facing b rest) = w := by
      rw [Place.upTo, Place.left_facing, Place.left_facing, Place.rest_facing, byteSize_append,
        Nat.add_sub_cancel, takeBytes_append]
    have hrule : k.pattern.rule = k.rule := rfl
    rw [Lexer.token, hrule, Place.ofString_ofList, htext, hsize,
      Place.offset, Place.offset, Place.left_facing, Place.left_facing, byteSize_append,
      Nat.sub_self, Nat.add_sub_cancel, Token.initial, ← byteSize_toList, String.toList_ofList]
  · obtain ⟨k', hk', hmatch⟩ := exists_of_mem hc'
    rw [hmatch, hrest k' hk' q hq, Option.map_none]
  · obtain ⟨k', hk', hmatch⟩ := exists_of_getElem? hc'
    have hmem : k' ∈ l.clauses.take i :=
      List.mem_of_getElem? ((List.getElem?_take_of_lt hj).trans hk')
    rw [hmatch, Place.ofString_ofList, h.before k' hmem, Option.map_none]

/-- A token that a text begins with is a match of a clause. -/
theorem exists_of_mem_tokenize {category : Category}
    (h : Token.initial category (String.ofList w) ∈ l.lexer.tokenize (String.ofList (w ++ rest))) :
    ∃ k ∈ l.clauses, k.stopAt? (.facing none (w ++ rest)) = some (.behind none w rest) := by
  obtain ⟨c, hc, s, hm, hstop⟩ := Lexer.exists_of_mem_tokenize h rfl
  obtain ⟨k, hk, hmatch⟩ := exists_of_mem hc
  have hreach := (Pattern.of_matchAt? hm).2.1
  have hleft := Place.offset_add_left hreach
  dsimp only at hleft hreach
  rw [hmatch] at hm
  rw [Place.ofString_ofList] at hm hreach
  obtain ⟨s', hs', he⟩ := Option.map_eq_some_iff.1 hm
  obtain rfl : s' = s := congrArg Regex.Span.stop he
  have hbehind : (Place.facing none (w ++ rest)).Reaches (.behind none w rest) :=
    Place.reaches_facing_iff.2 ⟨w, rest, rfl, rfl⟩
  -- both places have as many bytes left
  have hrest : s'.left = (Place.behind none w rest).left := by
    rw [← hstop, Token.initial] at hleft
    dsimp only at hleft
    rw [← byteSize_toList, ← byteSize_toList, String.toList_ofList, String.toList_ofList,
      byteSize_append] at hleft
    exact Nat.add_left_cancel hleft
  rw [(hbehind.linear hreach hrest.le).eq_of_left_eq hrest] at hs'
  exact ⟨k, hk, hs'⟩

/-! ## 4. Texts that are one match -/

/-- No clause matches where a text ends. -/
theorem stopAt?_facing_nil (hk : k ∈ l.clauses) : k.stopAt? (.facing b []) = none :=
  Clause.stopAt?_eq_none_of_firsts (of_mem_clauses hk).1 Place.not_begins_nil

/-- No clause matches in front of a character that it does not begin with. -/
theorem stopAt?_eq_none_of_firsts {c : Char} (hk : k ∈ l.clauses)
    (h : ∀ set ∈ k.regex.firsts, set.has c = false) : k.stopAt? (.facing b (c :: w)) = none := by
  refine Clause.stopAt?_eq_none_of_firsts (of_mem_clauses hk).1 fun hq => ?_
  obtain ⟨set, hset, hc⟩ := Place.begins_cons_iff.1 hq
  rw [h set hset] at hc
  cases hc

/-- **A text all of which is the match that a clause prefers, with no match of a clause listed before it,
is one token.** -/
theorem tokenize_eq_whole (hk : l.clauses[i]? = some k)
    (hprefers : k.regex.Prefers (.facing none w) (.facing b []))
    (hallows : k.allows (.facing b []) = true)
    (hfirst : ∀ k' ∈ l.clauses.take i, k'.stopAt? (.facing none w) = none) :
    l.lexer.IsOne (l.lexer.categorize k.rule (String.ofList w)) (String.ofList w) := by
  have hstop : k.stopAt? (.facing none (w ++ [])) = some (.facing b []) := by
    rw [List.append_nil, Clause.stopAt?_eq_some hprefers hallows]
  rw [← List.append_nil w] at hfirst
  have hone := tokenize_eq_singleton ⟨hk, hstop, hfirst⟩ fun k' hk' q hq => by
    obtain ⟨x, y, hxy, rfl⟩ := Place.reaches_facing_iff.1 hq
    obtain ⟨rfl, rfl⟩ := List.append_eq_nil_iff.1 hxy.symm
    exact stopAt?_facing_nil hk'
  rwa [List.append_nil] at hone

end Language

end Highlight

end Quire
