import Mathlib.Data.List.Infix
import Quire.Toml.Quoted

/-!
# Quoted strings are read back

The writer chooses among four forms by what a string holds, and the readers of the four go by the
characters alone. So **a string that is written in a form in which it fits is read back, whatever
follows the closing quotes** but another quote (`readString_write`), and **every string fits in the
form that the writer takes** (`Form.fits_of`).

The one place where the characters do not say at once how to go on is a run of quotes in a form for
several lines: three of them close, and up to two after these still belong to the string. A string may
therefore end in two quotes, but nowhere have three in a row that are not escaped.
-/

namespace Quire.Toml

variable {c q : Char} {s t rest : List Char} {k run : Nat} {multiline : Bool}

/-! ## 1. Runs of a character -/

theorem longestRun_mono {m n : Nat} (h : m ≤ n) (c : Char) (s : List Char) :
    longestRun c m s ≤ longestRun c n s := by
  induction s generalizing m n with
  | nil => exact h
  | cons d s ih =>
      rw [longestRun, longestRun]
      split
      · exact ih (Nat.succ_le_succ h)
      · omega

theorem le_longestRun_of_prefix (h : List.replicate k c <+: s) (run : Nat) :
    run + k ≤ longestRun c run s := by
  induction s generalizing k run with
  | nil =>
      cases k with
      | zero => exact le_rfl
      | succ k => cases List.prefix_nil.1 h
  | cons d s ih =>
      rw [longestRun]
      cases k with
      | zero =>
          split
          · exact (Nat.le_succ run).trans (ih (k := 0) List.nil_prefix (run + 1))
          · exact le_max_left _ _
      | succ k =>
          rw [List.replicate_succ, List.cons_prefix_cons] at h
          obtain ⟨rfl, h⟩ := h
          rw [if_pos rfl]
          have hk := ih h (run + 1)
          omega

/-- **A run inside a text is no longer than its longest run.** -/
theorem le_longestRun_of_infix (h : List.replicate k c <:+: s) : k ≤ longestRun c 0 s := by
  induction s with
  | nil =>
      cases k with
      | zero => exact le_rfl
      | succ k => cases List.infix_nil.1 h
  | cons d s ih =>
      rcases List.infix_cons_iff.1 h with hpre | hin
      · have hk := le_longestRun_of_prefix hpre 0
        omega
      · refine (ih hin).trans ?_
        rw [longestRun]
        split
        · exact longestRun_mono (Nat.zero_le 1) c s
        · exact le_max_right _ _

theorem not_mem_of_longestRun_eq_zero (h : longestRun c 0 s = 0) : c ∉ s := by
  intro hmem
  have hrun : List.replicate 1 c <:+: s := (List.singleton_infix_iff c s).2 hmem
  have hle := le_longestRun_of_infix hrun
  omega

/-! ## 2. Escapes -/

theorem toNat_lt_of_isControl (h : isControl c = true) : c.toNat < 128 := by
  rw [isControl, Bool.or_eq_true, Bool.and_eq_true, Bool.and_eq_true, decide_eq_true_eq,
    beq_iff_eq] at h
  omega

/-- A control character is the one whose number its escape has. -/
theorem scalar?_of_isControl (h : isControl c = true) :
    scalar? ['0', '0', hexDigit (c.toNat / 16), hexDigit (c.toNat % 16)] = some c := by
  have hall : ∀ n < 128, scalar? ['0', '0', hexDigit (n / 16), hexDigit (n % 16)] =
      some (Char.ofNat n) := by decide +kernel
  rw [hall c.toNat (toNat_lt_of_isControl h), Char.ofNat_toNat]

/-- An escape is a letter that stands for its character, or the number of this. -/
theorem escape?_eq_some {e : List Char} (h : escape? multiline c = some e) :
    (∃ d, e = ['\\', d] ∧ unescape? d = some c) ∨
      ∃ a b, e = ['\\', 'u', '0', '0', a, b] ∧ scalar? ['0', '0', a, b] = some c := by
  rw [escape?] at h
  split_ifs at h with h₁ h₂ h₃ h₄ h₅ h₆ h₇ h₈ <;> cases h
  · exact .inl ⟨_, rfl, by rw [h₁]; rfl⟩
  · exact .inl ⟨_, rfl, by rw [h₂]; rfl⟩
  · exact .inl ⟨_, rfl, by rw [h₃]; rfl⟩
  · exact .inl ⟨_, rfl, by rw [h₅]; rfl⟩
  · exact .inl ⟨_, rfl, by rw [h₆]; rfl⟩
  · exact .inl ⟨_, rfl, by rw [h₇]; rfl⟩
  · exact .inr ⟨_, _, rfl, scalar?_of_isControl h₈⟩

/-- What needs no escape is no backslash, no control character, and on one line no line feed. -/
theorem escape?_eq_none (h : escape? multiline c = none) :
    c ≠ '\\' ∧ isControl c = false ∧ (c = '\n' → multiline = true) := by
  rw [escape?] at h
  split_ifs at h with h₁ h₂ h₃ h₄ h₅ h₆ h₇ h₈
  · subst h₃
    exact ⟨by decide, by decide, fun _ => h₄⟩
  · exact ⟨h₇, by simpa using h₈, fun hc => absurd hc h₃⟩

theorem exists_backslash_of_escape? {e : List Char} (h : escape? multiline c = some e) :
    ∃ e', e = '\\' :: e' := by
  rcases escape?_eq_some h with ⟨d, rfl, -⟩ | ⟨a, b, rfl, -⟩
  · exact ⟨_, rfl⟩
  · exact ⟨_, rfl⟩

theorem writeEscaped_quote (h : run < 2) (s : List Char) :
    writeEscaped true run ('\x22' :: s) = '\x22' :: writeEscaped true (run + 1) s := by
  rw [writeEscaped, if_pos rfl, if_pos rfl, if_pos h]

theorem writeEscaped_quote_of_le (h : (if multiline then 2 else 0) ≤ run) (s : List Char) :
    writeEscaped multiline run ('\x22' :: s) = '\\' :: '\x22' :: writeEscaped multiline 0 s := by
  rw [writeEscaped, if_pos rfl, if_neg (Nat.not_lt.2 h)]

theorem writeEscaped_of_some {e : List Char} (hquote : c ≠ '\x22')
    (h : escape? multiline c = some e) (run : Nat) (s : List Char) :
    writeEscaped multiline run (c :: s) = e ++ writeEscaped multiline 0 s := by
  rw [writeEscaped, if_neg hquote, h]

theorem writeEscaped_of_none (hquote : c ≠ '\x22') (h : escape? multiline c = none) (run : Nat)
    (s : List Char) : writeEscaped multiline run (c :: s) = c :: writeEscaped multiline 0 s := by
  rw [writeEscaped, if_neg hquote, h]

/-! ## 3. Between double quotes on one line -/

theorem readBasic_unescape {d : Char} (h : unescape? d = some c) (s : List Char) :
    readBasic ('\\' :: d :: s) = andThen (some c) (readBasic s) := by
  unfold unescape? at h
  split at h <;> cases h <;> rfl

theorem readBasic_escape {e : List Char} (h : escape? multiline c = some e) (s : List Char) :
    readBasic (e ++ s) = andThen (some c) (readBasic s) := by
  rcases escape?_eq_some h with ⟨d, rfl, hd⟩ | ⟨a, b, rfl, hab⟩
  · exact readBasic_unescape hd s
  · show andThen (scalar? ['0', '0', a, b]) (readBasic s) = _
    rw [hab]

theorem readBasic_cons (hquote : c ≠ '\x22') (hslash : c ≠ '\\') (hinline : isInline c = true)
    (s : List Char) : readBasic (c :: s) = andThen (some c) (readBasic s) := by
  rw [readBasic, if_pos hinline]
  all_goals intros; contradiction

/-- **Between double quotes on one line, every string is read back.** -/
theorem readBasic_writeEscaped (s rest : List Char) :
    readBasic (writeEscaped false 0 s ++ '\x22' :: rest) = some (s, rest) := by
  induction s with
  | nil => rfl
  | cons c s ih =>
      by_cases hquote : c = '\x22'
      · subst hquote
        have hescaped : unescape? '\x22' = some '\x22' := rfl
        rw [writeEscaped_quote_of_le (Nat.zero_le 0), List.cons_append, List.cons_append,
          readBasic_unescape hescaped, ih]
        rfl
      · cases he : escape? false c with
        | some e =>
            rw [writeEscaped_of_some hquote he, List.append_assoc, readBasic_escape he, ih]
            rfl
        | none =>
            obtain ⟨hslash, hcontrol, hline⟩ := escape?_eq_none he
            have hinline : isInline c = true := by
              rw [isInline, hcontrol, Bool.not_false, Bool.true_and, bne_iff_ne]
              exact fun hc => absurd (hline hc) (by decide)
            rw [writeEscaped_of_none hquote he, List.cons_append,
              readBasic_cons hquote hslash hinline, ih]
            rfl

/-! ## 4. Between single quotes on one line -/

/-- **Between single quotes on one line, a string is read back that has no single quote and nothing that
needs an escape.** -/
theorem readLiteral_append (h : ∀ c ∈ s, c ≠ '\x27' ∧ isInline c = true) (rest : List Char) :
    readLiteral (s ++ '\x27' :: rest) = some (s, rest) := by
  induction s with
  | nil => rfl
  | cons c s ih =>
      obtain ⟨⟨hquote, hinline⟩, htail⟩ := List.forall_mem_cons.1 h
      rw [List.cons_append, readLiteral, if_pos hinline, ih htail]
      · rfl
      · exact hquote

/-! ## 5. Three quotes -/

/-- **Three quotes after a text are the first in a row**, unless the text is nothing but quotes. -/
theorem eq_replicate_or_not_prefix (htext : ¬ List.replicate 3 q <+: s) :
    (∃ k ≤ 2, s = List.replicate k q) ∨ ¬ List.replicate 3 q <+: s ++ List.replicate 3 q ++ rest := by
  by_cases h : List.replicate 3 q <+: s ++ List.replicate 3 q ++ rest
  · have hs : s <+: s ++ List.replicate 3 q ++ rest := by
      rw [List.append_assoc]
      exact List.prefix_append _ _
    rcases List.prefix_or_prefix_of_prefix hs h with hs | hs
    · obtain ⟨hlength, heq⟩ := List.prefix_replicate_iff.1 hs
      refine .inl ⟨s.length, ?_, heq⟩
      by_contra hlt
      refine htext ?_
      rw [heq, show s.length = 3 by omega]
    · exact absurd hs htext
  · exact .inr h

/-- Quotes after the closing ones are those of the string. -/
theorem closing_replicate (hk : k ≤ 2) (hrest : rest.head? ≠ some q) :
    closing q (List.replicate k q ++ rest) = (List.replicate k q, rest) := by
  have hne {a : Char} {more : List Char} (h : (a :: more).head? ≠ some q) : a ≠ q :=
    fun ha => h (congrArg some ha)
  obtain rfl | rfl | rfl : k = 0 ∨ k = 1 ∨ k = 2 := by omega
  · match rest, hrest with
    | [], _ => rfl
    | [a], h => exact if_neg (hne h)
    | a :: b :: more, h => exact if_neg (hne h)
  · match rest, hrest with
    | [], _ => exact if_pos rfl
    | b :: more, h => exact (if_pos rfl).trans (if_neg (hne h))
  · exact (if_pos rfl).trans (if_pos rfl)

theorem replicate_append_replicate (m n : Nat) (q : Char) (rest : List Char) :
    List.replicate m q ++ List.replicate n q ++ rest =
      List.replicate n q ++ (List.replicate m q ++ rest) := by
  rw [← List.append_assoc, List.replicate_append_replicate, List.replicate_append_replicate,
    Nat.add_comm]

/-! ## 6. Between single quotes on several lines -/

theorem readLiteralLines_cons (hgo : ¬ List.replicate 3 '\x27' <+: c :: s)
    (hcontrol : isControl c = false) :
    readLiteralLines (c :: s) = andThen (some c) (readLiteralLines s) := by
  rw [readLiteralLines, hcontrol, if_pos (by rfl)]
  rintro more rfl rfl
  exact hgo (List.prefix_append _ more)

/-- **Between single quotes on several lines, a string is read back that nowhere has three of them in a row
and nothing that needs an escape.** -/
theorem readLiteralLines_append (hcontrol : ∀ c ∈ s, isControl c = false)
    (hrun : ¬ List.replicate 3 '\x27' <:+: s) (hrest : rest.head? ≠ some '\x27') :
    readLiteralLines (s ++ List.replicate 3 '\x27' ++ rest) = some (s, rest) := by
  induction s with
  | nil => exact congrArg some (closing_replicate (k := 0) (Nat.zero_le 2) hrest)
  | cons c s ih =>
      obtain ⟨hc, htail⟩ := List.forall_mem_cons.1 hcontrol
      have hpre : ¬ List.replicate 3 '\x27' <+: c :: s := fun h => hrun h.isInfix
      rcases eq_replicate_or_not_prefix hpre with ⟨k, hk, hs⟩ | hgo
      · rw [hs, replicate_append_replicate]
        exact congrArg some (closing_replicate hk hrest)
      · rw [List.cons_append, List.cons_append] at hgo ⊢
        rw [readLiteralLines_cons hgo hc, ih htail fun h => hrun (List.infix_cons h)]
        rfl

/-! ## 7. Between double quotes on several lines -/

theorem readBasicLines_unescape {d : Char} (h : unescape? d = some c) (s : List Char) :
    readBasicLines false ('\\' :: d :: s) = andThen (some c) (readBasicLines false s) := by
  unfold unescape? at h
  split at h <;> cases h <;> rfl

theorem readBasicLines_escape {e : List Char} (h : escape? multiline c = some e) (s : List Char) :
    readBasicLines false (e ++ s) = andThen (some c) (readBasicLines false s) := by
  rcases escape?_eq_some h with ⟨d, rfl, hd⟩ | ⟨a, b, rfl, hab⟩
  · exact readBasicLines_unescape hd s
  · show andThen (scalar? ['0', '0', a, b]) (readBasicLines false s) = _
    rw [hab]

theorem readBasicLines_cons (hgo : ¬ List.replicate 3 '\x22' <+: c :: s) (hslash : c ≠ '\\')
    (hcontrol : isControl c = false) :
    readBasicLines false (c :: s) = andThen (some c) (readBasicLines false s) := by
  rw [readBasicLines, hcontrol]
  · rfl
  · rintro more rfl rfl
    exact hgo (List.prefix_append _ more)
  all_goals intros; contradiction

theorem eq_zero_of_replicate_prefix {d : Char} {l : List Char} (hd : d ≠ q)
    (h : List.replicate k q <+: d :: l) : k = 0 := by
  cases k with
  | zero => rfl
  | succ k => exact absurd (List.cons_prefix_cons.1 h).1.symm hd

/-- The writer leaves no more than two quotes in a row, those before counted. -/
theorem add_le_of_prefix_writeEscaped (hrun : run ≤ 2)
    (h : List.replicate k '\x22' <+: writeEscaped true run s) : run + k ≤ 2 := by
  induction s generalizing k run with
  | nil =>
      cases k with
      | zero => exact hrun
      | succ k => cases List.prefix_nil.1 h
  | cons c s ih =>
      by_cases hquote : c = '\x22'
      · subst hquote
        by_cases hlt : run < 2
        · cases k with
          | zero => exact hrun
          | succ k =>
              rw [writeEscaped_quote hlt, List.replicate_succ, List.cons_prefix_cons] at h
              have hk := ih hlt h.2
              omega
        · rw [writeEscaped_quote_of_le (Nat.not_lt.1 hlt)] at h
          have hk := eq_zero_of_replicate_prefix (by decide) h
          omega
      · cases he : escape? true c with
        | some e =>
            obtain ⟨e', rfl⟩ := exists_backslash_of_escape? he
            rw [writeEscaped_of_some hquote he] at h
            have hk := eq_zero_of_replicate_prefix (by decide) h
            omega
        | none =>
            rw [writeEscaped_of_none hquote he] at h
            have hk := eq_zero_of_replicate_prefix hquote h
            omega

/-- What is written as nothing but quotes is nothing but quotes. -/
theorem eq_replicate_of_writeEscaped (h : writeEscaped true run s = List.replicate k '\x22') :
    s = List.replicate k '\x22' := by
  have hhead {d : Char} {l : List Char} {n : Nat} (h : d :: l = List.replicate n '\x22') :
      d = '\x22' := List.eq_of_mem_replicate (h ▸ List.mem_cons_self)
  induction s generalizing k run with
  | nil => exact h
  | cons c s ih =>
      by_cases hquote : c = '\x22'
      · subst hquote
        by_cases hlt : run < 2
        · rw [writeEscaped_quote hlt] at h
          cases k with
          | zero => cases h
          | succ k => rw [List.replicate_succ, ih (List.cons.inj h).2]
        · rw [writeEscaped_quote_of_le (Nat.not_lt.1 hlt)] at h
          exact absurd (hhead h) (by decide)
      · cases he : escape? true c with
        | some e =>
            obtain ⟨e', rfl⟩ := exists_backslash_of_escape? he
            rw [writeEscaped_of_some hquote he] at h
            exact absurd (hhead h) (by decide)
        | none =>
            rw [writeEscaped_of_none hquote he] at h
            exact absurd (hhead h) hquote

/-- **Between double quotes on several lines, every string is read back.** -/
theorem readBasicLines_writeEscaped (hrun : run ≤ 2) (s : List Char)
    (hrest : rest.head? ≠ some '\x22') :
    readBasicLines false (writeEscaped true run s ++ List.replicate 3 '\x22' ++ rest) =
      some (s, rest) := by
  induction s generalizing run with
  | nil => exact congrArg some (closing_replicate (k := 0) (Nat.zero_le 2) hrest)
  | cons c s ih =>
      have hpre : ¬ List.replicate 3 '\x22' <+: writeEscaped true run (c :: s) := by
        intro h
        have hle := add_le_of_prefix_writeEscaped hrun h
        omega
      rcases eq_replicate_or_not_prefix hpre with ⟨k, hk, hs⟩ | hgo
      · rw [hs, eq_replicate_of_writeEscaped hs, replicate_append_replicate]
        exact congrArg some (closing_replicate hk hrest)
      · by_cases hquote : c = '\x22'
        · subst hquote
          by_cases hlt : run < 2
          · rw [writeEscaped_quote hlt, List.cons_append, List.cons_append] at hgo ⊢
            rw [readBasicLines_cons hgo (by decide) (by decide), ih hlt]
            rfl
          · have hescaped : unescape? '\x22' = some '\x22' := rfl
            rw [writeEscaped_quote_of_le (Nat.not_lt.1 hlt), List.cons_append, List.cons_append,
              List.cons_append, List.cons_append, readBasicLines_unescape hescaped,
              ih (Nat.zero_le 2)]
            rfl
        · cases he : escape? true c with
          | some e =>
              rw [writeEscaped_of_some hquote he, List.append_assoc, List.append_assoc,
                readBasicLines_escape he, ← List.append_assoc, ih (Nat.zero_le 2)]
              rfl
          | none =>
              obtain ⟨hslash, hcontrol, -⟩ := escape?_eq_none he
              rw [writeEscaped_of_none hquote he, List.cons_append, List.cons_append] at hgo ⊢
              rw [readBasicLines_cons hgo hslash hcontrol, ih (Nat.zero_le 2)]
              rfl

/-! ## 8. In any form -/

/-- Whether a string can stand in a form. Between double quotes every string can. -/
def Form.Fits : Form → List Char → Prop
  | .basic, _ => True
  | .literal, s => ∀ c ∈ s, c ≠ '\x27' ∧ isInline c = true
  | .basicLines, _ => True
  | .literalLines, s => (∀ c ∈ s, isControl c = false) ∧ ¬ List.replicate 3 '\x27' <:+: s

/-- **A string fits in the form that the writer takes.** -/
theorem Form.fits_of (s : List Char) : (Form.of s).Fits s := by
  have hcontrol (h : ¬ s.any isControl = true) : ∀ c ∈ s, isControl c = false := by
    simpa using h
  rw [Form.of]
  split_ifs with hany _ _ hsingle _ hruns
  · trivial
  · trivial
  · trivial
  · rw [Bool.and_eq_true, beq_iff_eq, Bool.not_eq_true', ← Bool.not_eq_true, List.contains_iff_mem]
      at hsingle
    have hquote := not_mem_of_longestRun_eq_zero hsingle.1
    intro c hc
    rw [isInline, hcontrol hany c hc, Bool.not_false, Bool.true_and, bne_iff_ne]
    exact ⟨fun he => hquote (he ▸ hc), fun he => hsingle.2 (he ▸ hc)⟩
  · trivial
  · refine ⟨hcontrol hany, fun h => ?_⟩
    have hle := le_longestRun_of_infix h
    omega
  · trivial
  · trivial

theorem afterBreak_of_ne (h : ∀ c ∈ s.head?, c ≠ '\n' ∧ c ≠ '\r') : afterBreak s = s := by
  unfold afterBreak
  split
  · exact absurd rfl (h _ rfl).1
  · exact absurd rfl (h _ rfl).2
  · rfl

/-- What is written on several lines does not begin with a line break, unless the string does. -/
theorem head?_writeEscaped (h : '\n' ∉ s) :
    ∀ c ∈ (writeEscaped true 0 s ++ List.replicate 3 '\x22' ++ rest).head?, c ≠ '\n' ∧ c ≠ '\r' := by
  intro c hc
  cases s with
  | nil =>
      cases hc
      decide
  | cons d s =>
      by_cases hquote : d = '\x22'
      · subst hquote
        rw [writeEscaped_quote (by decide)] at hc
        cases hc
        decide
      · cases he : escape? true d with
        | some e =>
            obtain ⟨e', rfl⟩ := exists_backslash_of_escape? he
            rw [writeEscaped_of_some hquote he] at hc
            cases hc
            decide
        | none =>
            rw [writeEscaped_of_none hquote he] at hc
            cases hc
            obtain ⟨-, hcontrol, -⟩ := escape?_eq_none he
            refine ⟨fun hd => h (hd ▸ List.mem_cons_self), ?_⟩
            rintro rfl
            cases hcontrol

/-- What a string is written as on several lines follows the opening quotes and, if it has a line break,
one more of these, which is not read. -/
theorem afterBreak_write {body : List Char}
    (hbody : '\n' ∉ s → ∀ c ∈ body.head?, c ≠ '\n' ∧ c ≠ '\r') :
    afterBreak ((if s.contains '\n' then ['\n'] else []) ++ body) = body := by
  split_ifs with h
  · rfl
  · rw [List.contains_iff_mem] at h
    exact afterBreak_of_ne (hbody h)

/-- One quote opens a string on one line, if the text does not go on with two more. -/
theorem not_prefix_of_head? (hbody : s.head? ≠ some q) (hrest : rest.head? ≠ some q) :
    ¬ List.replicate 2 q <+: s ++ q :: rest := by
  intro h
  cases s with
  | nil =>
      obtain ⟨more, rfl⟩ := (List.cons_prefix_cons.1 h).2
      exact hrest rfl
  | cons c s => exact hbody (congrArg some (List.cons_prefix_cons.1 h).1.symm)

theorem readString_double (h : ¬ List.replicate 2 '\x22' <+: s) :
    readString ('\x22' :: s) = readBasic s := by
  rw [readString]
  · rintro more rfl
    exact h (List.prefix_append _ more)

theorem readString_single (h : ¬ List.replicate 2 '\x27' <+: s) :
    readString ('\x27' :: s) = readLiteral s := by
  rw [readString]
  · rintro more rfl
    exact h (List.prefix_append _ more)

theorem readString_three_double (s : List Char) :
    readString (List.replicate 3 '\x22' ++ s) = readBasicLines false (afterBreak s) :=
  rfl

theorem readString_three_single (s : List Char) :
    readString (List.replicate 3 '\x27' ++ s) = readLiteralLines (afterBreak s) :=
  rfl

theorem head?_writeEscaped_ne (s : List Char) : (writeEscaped false 0 s).head? ≠ some '\x22' := by
  cases s with
  | nil => simp [writeEscaped]
  | cons c s =>
      by_cases hquote : c = '\x22'
      · subst hquote
        rw [writeEscaped_quote_of_le (Nat.zero_le 0)]
        simp
      · cases he : escape? false c with
        | some e =>
            obtain ⟨e', rfl⟩ := exists_backslash_of_escape? he
            rw [writeEscaped_of_some hquote he]
            simp
        | none =>
            rw [writeEscaped_of_none hquote he]
            simpa using hquote

/-- **A string that is written in a form in which it fits is read back**, up to the closing quotes, if no
quote follows these. -/
theorem readString_write {f : Form} (h : f.Fits s)
    (hrest : rest.head? ≠ some '\x22' ∧ rest.head? ≠ some '\x27') :
    readString (f.write s ++ rest) = some (s, rest) := by
  obtain ⟨hdouble, hsingle⟩ := hrest
  cases f with
  | basic =>
      have hone := not_prefix_of_head? (head?_writeEscaped_ne s) hdouble
      have htext : Form.basic.write s ++ rest = '\x22' :: (writeEscaped false 0 s ++ '\x22' :: rest) := by
        simp [Form.write, Form.isMultiline, Form.delimiter]
      rw [htext, readString_double hone, readBasic_writeEscaped]
  | literal =>
      have hhead : s.head? ≠ some '\x27' := fun he => (h _ (List.mem_of_head? he)).1 rfl
      have hone := not_prefix_of_head? hhead hsingle
      have htext : Form.literal.write s ++ rest = '\x27' :: (s ++ '\x27' :: rest) := by
        simp [Form.write, Form.isMultiline, Form.delimiter]
      rw [htext, readString_single hone, readLiteral_append h]
  | basicLines =>
      have htext : Form.basicLines.write s ++ rest = List.replicate 3 '\x22' ++
          ((if s.contains '\n' then ['\n'] else []) ++
            (writeEscaped true 0 s ++ List.replicate 3 '\x22' ++ rest)) := by
        rw [Form.write]
        cases s.contains '\n' <;> simp [Form.isMultiline, Form.delimiter, List.replicate]
      rw [htext, readString_three_double, afterBreak_write head?_writeEscaped]
      exact readBasicLines_writeEscaped (Nat.zero_le 2) s hdouble
  | literalLines =>
      obtain ⟨hcontrol, hrun⟩ := h
      have htext : Form.literalLines.write s ++ rest = List.replicate 3 '\x27' ++
          ((if s.contains '\n' then ['\n'] else []) ++ (s ++ List.replicate 3 '\x27' ++ rest)) := by
        rw [Form.write]
        cases s.contains '\n' <;> simp [Form.isMultiline, Form.delimiter, List.replicate]
      rw [htext, readString_three_single, afterBreak_write fun hline c hc => ?_]
      · exact readLiteralLines_append hcontrol hrun hsingle
      · cases s with
        | nil =>
            cases hc
            decide
        | cons d s =>
            cases hc
            refine ⟨fun hd => hline (hd ▸ List.mem_cons_self), ?_⟩
            rintro rfl
            cases hcontrol _ List.mem_cons_self

/-- **A string is read back as it is written.** -/
theorem readString_writeString (s : String)
    (hrest : rest.head? ≠ some '\x22' ∧ rest.head? ≠ some '\x27') :
    readString ((writeString s).toList ++ rest) = some (s.toList, rest) := by
  rw [writeString, String.toList_ofList]
  exact readString_write (Form.fits_of s.toList) hrest

end Quire.Toml
