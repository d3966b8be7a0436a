import Quire.Proofs.Highlight.Languages
import Quire.Proofs.Text.Mark

/-!
# Literals and comments

What stands between quotes is written so that no quote in it ends the literal: with each double quote
doubled (`doubled`), or with a backslash before it (`quoted`). **Whatever it is, the literal is one token**,
and so is a comment around anything that does not hold the mark that ends comments (`isOne_literal`).

The match that an expression prefers is followed piece by piece. In a literal every piece is one more round, and
at the quote that ends it there is none (`prefers_doubled`, `prefers_escaped`). In a comment a round is made
only where the end mark does not stand; with the end mark behind it, a text that does not hold it has it
nowhere earlier (`prefers_enclosed`).
-/

namespace Quire.Highlight

open Quire.Regex (CharSet)
open Regex.Place (behind facing)

/-! ## 1. Quotes that are doubled -/

/-- A text with each double quote doubled. -/
def doubled (s : List Char) : List Char :=
  s.flatMap fun c => if c = '\x22' then ['\x22', '\x22'] else [c]

variable {b : Option Char} {c : Char} {s t : List Char}

theorem prefers_doubled (s : List Char) :
    (Regex.times 0 none true doubledPiece).Prefers (facing b (doubled s ++ ['\x22']))
      (behind b (doubled s) ['\x22']) := by
  refine Regex.prefers_pieces rfl (fun c _ b t => ?_) fun b => ?_
  · by_cases hc : c = '\x22'
    · subst hc
      refine .right ?_ (.seq (Regex.prefers_one ?_) (Regex.prefers_one ?_))
      · simp [CharSet.has_compl, CharSet.has_single]
      · simp [CharSet.has_single]
      · simp [CharSet.has_single]
    · rw [if_neg hc]
      exact .left (Regex.prefers_one (by simp [CharSet.has_compl, CharSet.has_single, hc]))
  · simp [doubledPiece, Regex.ends, CharSet.has_compl, CharSet.has_single]

theorem prefers_verbatim (s : List Char) :
    ∃ b', verbatim.Prefers (facing b ('@' :: '\x22' :: (doubled s ++ ['\x22']))) (facing b' []) := by
  refine ⟨_, .parts (.optional (Regex.prefers_one ?_)) (.parts (Regex.prefers_one ?_)
    (.parts (prefers_doubled s) (Regex.prefers_one ?_)))⟩ <;>
  simp [CharSet.has_single]

/-! ## 2. Quotes behind backslashes -/

/-- A text with a backslash before each backslash and each `delimiter`. -/
def escaped (delimiter : Char) (s : List Char) : List Char :=
  s.flatMap fun c => if c = '\\' ∨ c = delimiter then ['\\', c] else [c]

/-- A text between two delimiters. -/
def quoted (delimiter : Char) (s : List Char) : List Char :=
  delimiter :: (escaped delimiter s ++ [delimiter])

theorem has_unescaped_iff {d : Char} (hd : d ≠ '\\') :
    (unescaped d).has c = true ↔ ¬ (c = '\\' ∨ c = d) := by
  have hval : '\\'.toNat = 0x5c := rfl
  have hne : d.toNat ≠ 0x5c := fun h => hd (Char.toNat_inj.1 h)
  have hlt : d < '\\' ↔ d.toNat < 0x5c := Iff.rfl
  rw [← Char.toNat_inj, ← Char.toNat_inj, hval, unescaped]
  split <;> rename_i h <;> rw [hlt] at h <;>
  simp only [CharSet.has_edge_iff, CharSet.has_no_edge, Bool.false_eq_true, not_false_eq_true,
    and_true] <;>
  omega

theorem prefers_escaped {d : Char} (hd : d ≠ '\\') (hnewline : d ≠ '\n') (s : List Char) :
    (Regex.times 0 none true (escapedPiece d)).Prefers (facing b (escaped d s ++ [d]))
      (behind b (escaped d s) [d]) := by
  refine Regex.prefers_pieces rfl (fun c _ b t => ?_) fun b => ?_
  · by_cases hc : c = '\\' ∨ c = d
    · have hc' : c ≠ '\n' := by
        rcases hc with rfl | rfl
        · decide
        · exact hnewline
      rw [if_pos hc]
      refine .left (.seq (Regex.prefers_one ?_) (Regex.prefers_one ?_))
      · simp [CharSet.has_single]
      · simp [CharSet.notNewline, CharSet.has_compl, CharSet.has_single, hc']
    · rw [if_neg hc]
      refine .right ?_ (Regex.prefers_one ?_)
      · simp [Regex.ends, (not_or.1 hc).1]
      · exact (has_unescaped_iff hd).2 hc
  · have hend : (unescaped d).has d = false := by
      rw [← Bool.not_eq_true, has_unescaped_iff hd, not_not]
      exact .inr rfl
    simp [escapedPiece, Regex.ends, hend, hd]

theorem prefers_delimited {d : Char} (hd : d ≠ '\\') (hnewline : d ≠ '\n') (s : List Char) :
    ∃ b', (delimited d).Prefers (facing b (quoted d s)) (facing b' []) := by
  refine ⟨_, .parts (Regex.prefers_one ?_)
    (.parts (prefers_escaped hd hnewline s) (Regex.prefers_one ?_))⟩ <;>
  simp [CharSet.has_single]

/-! ## 3. Comments -/

/-- **What does not hold the mark that ends it is passed over up to that mark.** -/
theorem prefers_upTo {m : List Char} {e : Char} (he : e ∉ m) (hs : ¬ m ++ [e] <:+: s) :
    ∃ b', ((Regex.times 0 none false (.one CharSet.none.compl)).seq (.ofWord (m ++ [e]))).Prefers
      (facing b (s ++ (m ++ [e]))) (facing b' []) := by
  induction s generalizing b with
  | nil =>
      have hmark := Regex.prefers_ofWord (b := b) (w := m ++ [e]) (t := [])
      rw [List.append_nil] at hmark
      exact ⟨_, .lazyHere rfl hmark⟩
  | cons c s ih =>
      have hend : ¬ m ++ [e] <+: c :: s ++ (m ++ [e]) := fun h =>
        hs (Text.prefix_of_prefix_append he (List.cons_ne_nil c s) h).isInfix
      obtain ⟨b', h⟩ := ih (b := some c) fun h => hs (h.trans (List.suffix_cons c s).isInfix)
      exact ⟨b', .lazyAgain rfl (Regex.ends_ofWord_eq_nil hend)
        (Regex.prefers_one (by rw [CharSet.has_compl]; rfl)) h⟩

theorem prefers_enclosed {opening m : List Char} {e : Char} (he : e ∉ m) (hs : ¬ m ++ [e] <:+: s) :
    ∃ b', (enclosed opening (m ++ [e])).Prefers (facing b (opening ++ (s ++ (m ++ [e]))))
      (facing b' []) := by
  obtain ⟨b', h⟩ := prefers_upTo (b := opening.getLast?.or b) he hs
  exact ⟨b', .word h⟩

/-! ## 4. One token -/

namespace Language

variable {l : Language} {i : Nat}

/-- A text is one token if it is the match that a clause prefers, and no clause listed before it begins
with the first character. -/
theorem isOne_of_prefers {name : String} {category : Category} {c : Char} {w : List Char} {r : Regex}
    {b : Option Char} (hk : l.clauses[i]? = some ⟨name, .fixed category, r, none⟩)
    (hr : r.Prefers (facing none (c :: w)) (facing b []))
    (hfirst : ∀ k ∈ l.clauses.take i, ∀ set ∈ k.regex.firsts, set.has c = false) :
    l.lexer.IsOne category (String.ofList (c :: w)) :=
  tokenize_eq_whole hk hr rfl fun k hk' =>
    stopAt?_eq_none_of_firsts (List.mem_of_mem_take hk') (hfirst k hk')

/-- A literal with doubled quotes is one string. -/
theorem isOne_doubled (s : List Char) :
    Language.csharp.lexer.IsOne .string
      (String.ofList ('@' :: '\x22' :: (doubled s ++ ['\x22']))) := by
  obtain ⟨b, h⟩ := prefers_verbatim (b := none) s
  exact isOne_of_prefers (i := 2) rfl h (by decide)

/-- A literal with backslashes before quotes is one string, or one template. -/
theorem isOne_quoted (hl : l = .javascript ∨ l = .typescript) (s : List Char) :
    l.lexer.IsOne .string (String.ofList (quoted '\x22' s)) ∧
      l.lexer.IsOne .string (String.ofList (quoted '\x27' s)) ∧
      l.lexer.IsOne .template (String.ofList (quoted '\x60' s)) := by
  have hstring : l.clauses[3]? =
      some ⟨"string", .fixed .string, .alt (delimited '\x22') (delimited '\x27'), none⟩ := by
    rcases hl with rfl | rfl <;> rfl
  have htemplate : l.clauses[2]? =
      some ⟨"template", .fixed .template, delimited '\x60', none⟩ := by
    rcases hl with rfl | rfl <;> rfl
  refine ⟨?_, ?_, ?_⟩
  · obtain ⟨b, h⟩ := prefers_delimited (b := none) (d := '\x22') (by decide) (by decide) s
    refine isOne_of_prefers hstring (.left h) ?_
    rcases hl with rfl | rfl <;> decide
  · obtain ⟨b, h⟩ := prefers_delimited (b := none) (d := '\x27') (by decide) (by decide) s
    have hdouble : (delimited '\x22').ends (facing none (quoted '\x27' s)) = [] := by
      simp [delimited, quoted, Regex.ends_ofParts_cons]
    refine isOne_of_prefers hstring (.right hdouble h) ?_
    rcases hl with rfl | rfl <;> decide
  · obtain ⟨b, h⟩ := prefers_delimited (b := none) (d := '\x60') (by decide) (by decide) s
    refine isOne_of_prefers htemplate h ?_
    rcases hl with rfl | rfl <;> decide

/-- A comment around what does not hold its end mark is one comment. -/
theorem isOne_enclosed {name : String} {opening m s : List Char} {e : Char}
    (hk : l.clauses[i]? = some ⟨name, .fixed .comment, enclosed opening (m ++ [e]), none⟩)
    (he : e ∉ m) (hs : ¬ m ++ [e] <:+: s)
    (hfirst : ∀ k ∈ l.clauses.take i,
      k.stopAt? (facing none (opening ++ (s ++ (m ++ [e])))) = none) :
    l.lexer.IsOne .comment (String.ofList (opening ++ (s ++ (m ++ [e])))) := by
  obtain ⟨b, hb⟩ := prefers_enclosed (b := none) he hs
  exact tokenize_eq_whole hk hb rfl hfirst

/-- The same where comments to the end of the line are looked for first: they begin with another mark. -/
theorem isOne_blockComment (hl : l = .csharp ∨ l = .javascript ∨ l = .typescript)
    (hs : ¬ ['*', '/'] <:+: s) :
    l.lexer.IsOne .comment (String.ofList (['/', '*'] ++ (s ++ ['*', '/']))) := by
  have hline : l.clauses.take 1 = [⟨"comment", .fixed .comment, lineComment, none⟩] := by
    rcases hl with rfl | rfl | rfl <;> rfl
  have hblock : l.clauses[1]? = some ⟨"block-comment", .fixed .comment,
      enclosed ['/', '*'] (['*'] ++ ['/']), none⟩ := by
    rcases hl with rfl | rfl | rfl <;> rfl
  refine isOne_enclosed (m := ['*']) (e := '/') hblock (by decide) hs fun k hk => ?_
  rw [hline, List.mem_singleton] at hk
  subst hk
  refine Clause.stopAt?_eq_none_of_ends ?_
  simp [lineComment, Regex.ends_ofParts_cons]

end Language

/-- **A literal is one token, and so is a comment that holds no mark that ends it.** With the double quotes
doubled, any text between double quotes behind an at sign is one string of csharp; with backslashes before
them and before backslashes, any text between quotes is one string of javascript and of typescript, and
between backticks one template. Any text that does not hold the mark that ends a comment, with blanks at its
ends or without, is one comment between the marks. -/
theorem isOne_literal (s : List Char) :
    Language.csharp.lexer.IsOne .string
        (String.ofList ('@' :: '\x22' :: (doubled s ++ ['\x22']))) ∧
      (∀ l ∈ [Language.javascript, .typescript],
        l.lexer.IsOne .string (String.ofList (quoted '\x22' s)) ∧
          l.lexer.IsOne .string (String.ofList (quoted '\x27' s)) ∧
          l.lexer.IsOne .template (String.ofList (quoted '\x60' s))) ∧
      (¬ ['*', '/'] <:+: s → ∀ l ∈ [Language.csharp, .css, .javascript, .typescript],
        l.lexer.IsOne .comment (String.ofList ("/*".toList ++ (s ++ "*/".toList)))) ∧
      (¬ ['-', '-', '>'] <:+: s →
        Language.html.lexer.IsOne .comment
          (String.ofList ("<!--".toList ++ (s ++ "-->".toList)))) := by
  refine ⟨Language.isOne_doubled s, fun l hl => ?_, fun hs l hl => ?_, fun hs => ?_⟩
  · exact Language.isOne_quoted (by simpa using hl) s
  · have hcase : l = .css ∨ l = .csharp ∨ l = .javascript ∨ l = .typescript := by
      simp only [List.mem_cons, List.not_mem_nil, or_false] at hl
      tauto
    rcases hcase with rfl | hl
    · exact Language.isOne_enclosed (i := 0) (m := ['*']) (e := '/') rfl (by decide) hs nofun
    · exact Language.isOne_blockComment hl hs
  · exact Language.isOne_enclosed (i := 0) (m := ['-', '-']) (e := '>') rfl (by decide) hs nofun

/-- A text that holds quotes, a backslash, line breaks and the marks that begin comments. -/
theorem isOne_comment_marks :
    ¬ ['*', '/'] <:+: "/* \"\\\n// *".toList ∧
      Language.css.lexer.IsOne .comment (String.ofList ("/*".toList ++
        ("/* \"\\\n// *".toList ++ "*/".toList))) ∧
      ¬ ['-', '-', '>'] <:+: "<!-- -".toList ∧
      Language.html.lexer.IsOne .comment
        (String.ofList ("<!--".toList ++ ("<!-- -".toList ++ "-->".toList))) :=
  have hstar : ¬ ['*', '/'] <:+: "/* \"\\\n// *".toList := by decide
  have hdash : ¬ ['-', '-', '>'] <:+: "<!-- -".toList := by decide
  ⟨hstar, (isOne_literal _).2.2.1 hstar .css (by decide), hdash, (isOne_literal _).2.2.2 hdash⟩

end Quire.Highlight
