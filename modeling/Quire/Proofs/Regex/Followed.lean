import Quire.Proofs.Regex.Reading

/-!
# A parenthesis behind a text

What each reader below that of whole expressions makes of a text is compared with what it makes of the
same text with a closing parenthesis behind it (`Follows`). **What is read of the text is read in front
of the parenthesis as well.** Where the text is refused, the parenthesis can be used up, by an escape
or a set that the text leaves open, but then nothing is left to go on with. Sets come first, with
all that can stand in them (`follows_readSet`), and then counts, repetitions, parts and the beginnings
of groups.
-/

namespace Quire.Regex

/-! ## 1. A parenthesis behind a text -/

/-- How the reading of a text and that of the same text with a closing parenthesis behind it go
together. What is read of the text is read in front of the parenthesis as well. Where the text is
refused, it is refused with the parenthesis too, or else the parenthesis has been used up and nothing
is left. -/
inductive Follows {α : Type} :
    Except Fault (α × List Char) → Except Fault (α × List Char) → Prop where
  | read (a : α) (r : List Char) : Follows (.ok (a, r)) (.ok (a, r ++ [')']))
  | refused {e : Fault} {y : Except Fault (α × List Char)} :
      (∀ a r, y = .ok (a, r) → r = []) → Follows (.error e) y

namespace Follows

variable {α β γ : Type}

theorem errors (e e' : Fault) : Follows (α := α) (.error e) (.error e') :=
  .refused fun _ _ h => by cases h

/-- What is settled before the text is looked at is the same for both. -/
theorem of_value {x : Except Fault γ} {f g : γ → Except Fault (α × List Char)}
    (h : ∀ c, x = .ok c → Follows (f c) (g c)) : Follows (x >>= f) (x >>= g) := by
  cases x with
  | error e => exact errors e e
  | ok c => exact h c rfl

/-- **Readings that follow one another go together if each of them does, and if nothing comes of the
second where the first has used up the parenthesis.** -/
theorem bind {x y : Except Fault (α × List Char)}
    {f g : α × List Char → Except Fault (β × List Char)} (h : Follows x y)
    (hread : ∀ a r, x = .ok (a, r) → Follows (f (a, r)) (g (a, r ++ [')'])))
    (hspent : ∀ a b r, g (a, []) = .ok (b, r) → r = []) : Follows (x >>= f) (y >>= g) := by
  cases h with
  | read a r => exact hread a r rfl
  | refused h =>
      refine .refused fun b r hy => ?_
      cases y with
      | error e => cases hy
      | ok p =>
          obtain ⟨a, s⟩ := p
          obtain rfl := h a s rfl
          exact hspent a b r hy

end Follows

/-! ## 2. Members of sets -/

section

variable {p : Char → Bool} {n deep : Nat} {o : OpenSet} {cs : List Char}

theorem takeWhile_paren (h : p ')' = false) (cs : List Char) :
    (cs ++ [')']).takeWhile p = cs.takeWhile p := by
  induction cs with
  | nil => simp [h]
  | cons c cs ih => simp only [List.cons_append, List.takeWhile_cons, ih]

theorem dropWhile_paren (h : p ')' = false) (cs : List Char) :
    (cs ++ [')']).dropWhile p = cs.dropWhile p ++ [')'] := by
  induction cs with
  | nil => simp [h]
  | cons c cs ih =>
      simp only [List.cons_append, List.dropWhile_cons, ih]
      split <;> rfl

theorem follows_readEscape (cs : List Char) :
    Follows (readEscape cs) (readEscape (cs ++ [')'])) := by
  cases cs with
  | nil =>
      refine .refused fun a r h => ?_
      exact (Prod.mk.inj (Except.ok.inj h)).2.symm
  | cons c cs =>
      rw [List.cons_append, readEscape, readEscape]
      cases escape? c with
      | none => exact .errors _ _
      | some e => exact .read e cs

theorem follows_readMember (cs : List Char) :
    Follows (readMember cs) (readMember (cs ++ [')'])) := by
  cases cs with
  | nil =>
      refine .refused fun a r h => ?_
      exact (Prod.mk.inj (Except.ok.inj h)).2.symm
  | cons c cs =>
      by_cases hc : c = '\\'
      · rw [hc, List.cons_append, readMember, readMember]
        exact follows_readEscape cs
      · have hplain (cs : List Char) : readMember (c :: cs) = .ok (.char c, cs) := by
          rw [readMember]
          exact hc
        rw [List.cons_append, hplain, hplain]
        exact .read _ cs

/-- What is made of one character, if that comes first, is made of it with a parenthesis behind the text
as well. -/
theorem first_paren {α : Type} {f : List Char → α × List Char} {d : Char} (hd : ')' ≠ d) {a b : α}
    (hfirst : ∀ cs, f (d :: cs) = (a, cs)) (hplain : ∀ cs, (∀ r, cs ≠ d :: r) → f cs = (b, cs))
    (cs : List Char) : f (cs ++ [')']) = ((f cs).1, (f cs).2 ++ [')']) := by
  by_cases hcs : ∃ r, cs = d :: r
  · obtain ⟨r, rfl⟩ := hcs
    rw [List.cons_append, hfirst, hfirst]
  · have hparen : ∀ r, cs ++ [')'] ≠ d :: r := by
      intro r h
      cases cs with
      | nil => exact hd (List.cons.inj h).1
      | cons c cs => exact hcs ⟨cs, by rw [(List.cons.inj h).1]⟩
    rw [hplain _ hparen, hplain cs (not_exists.1 hcs)]

theorem afterCaret_paren (cs : List Char) :
    afterCaret (cs ++ [')']) = ((afterCaret cs).1, (afterCaret cs).2 ++ [')']) :=
  first_paren (d := '^') (by decide) (fun _ => rfl) (fun cs h => by rw [afterCaret]; exact h) cs

theorem afterBracket_paren (o : OpenSet) (cs : List Char) :
    o.afterBracket (cs ++ [')']) = ((o.afterBracket cs).1, (o.afterBracket cs).2 ++ [')']) :=
  first_paren (d := ']') (by decide) (fun _ => rfl) (fun cs h => by rw [OpenSet.afterBracket]; exact h) cs

/-- A set is opened alike. -/
theorem start_paren (cs : List Char) :
    OpenSet.start (cs ++ [')']) =
      ((OpenSet.start cs).1, (OpenSet.start cs).2 ++ [')']) := by
  have hhyphen : (fun c => c == '-') ')' = false := rfl
  rw [OpenSet.start_eq, OpenSet.start_eq, afterCaret_paren]
  unfold OpenSet.afterHyphens
  dsimp only
  rw [takeWhile_paren hhyphen, dropWhile_paren hhyphen]
  split
  · rfl
  · exact afterBracket_paren _ _

/-- What comes before a character that ends it is the same whatever follows that character. -/
theorem takeWhile_dropWhile_append {c : Char} {t : List Char} (h : cs.dropWhile p = c :: t)
    (s : List Char) :
    (cs ++ s).takeWhile p = cs.takeWhile p ∧ (cs ++ s).dropWhile p = c :: t ++ s := by
  induction cs with
  | nil => cases h
  | cons d cs ih =>
      rw [List.dropWhile_cons] at h
      rw [List.cons_append, List.takeWhile_cons, List.takeWhile_cons, List.dropWhile_cons]
      split at h
      · rename_i hd
        rw [if_pos hd, if_pos hd, if_pos hd, (ih h).1, (ih h).2]
        exact ⟨rfl, rfl⟩
      · rename_i hd
        rw [if_neg hd, if_neg hd, if_neg hd, ← h]
        exact ⟨rfl, rfl⟩

/-- A named set is one with or without a parenthesis behind it. -/
theorem readNamedSet?_paren (cs : List Char) :
    readNamedSet? (cs ++ [')']) = (readNamedSet? cs).map fun (s, r) => (s, r ++ [')']) := by
  cases cs with
  | nil => rfl
  | cons c cs =>
      by_cases hc : c = ':'
      · rw [hc, List.cons_append, readNamedSet?_colon, readNamedSet?_colon, afterCaret_paren]
        dsimp only
        generalize (afterCaret cs).2 = l
        cases hd : l.dropWhile (· != ':') with
        | nil =>
            -- without a colon the parenthesis is passed over with everything else
            have hall : (l ++ [')']).dropWhile (· != ':') = [] := by
              rw [List.dropWhile_append, hd]
              rfl
            rw [hall]
            rfl
        | cons d t =>
            obtain ⟨htake, hdrop⟩ := takeWhile_dropWhile_append hd [')']
            rw [htake, hdrop]
            split
            · rename_i after he
              -- the parenthesis is not the bracket that closes the name
              obtain ⟨rfl, ht⟩ := List.cons.inj he
              cases t with
              | nil => exact absurd (List.cons.inj ht).1 (by decide)
              | cons e t =>
                  obtain ⟨rfl, rfl⟩ := List.cons.inj ht
                  cases namedSet? (l.takeWhile (· != ':')) <;> rfl
            · rename_i hno
              split
              · rename_i after he
                rw [he] at hno
                exact (hno _ rfl).elim
              · rfl
      · rw [List.cons_append, readNamedSet?_of_ne hc, readNamedSet?_of_ne hc]
        rfl

/-! ## 3. Sets -/

/-- Nothing is read of a set where no text is left. -/
theorem readSet_nil_ne_ok {s : Nested CharSet × List Char} : readSet n deep o [] ≠ .ok s := by
  cases n with
  | zero => exact fun h => by rw [readSet] at h; cases h
  | succ n => exact fun h => by rw [readSet_nil] at h; cases h

/-- Nor is anything of it read behind a member. -/
theorem afterMember_nil_ne_ok {a : Escape} {s : Nested CharSet × List Char} :
    afterMember n deep o a [] ≠ .ok s := by
  intro h
  obtain ⟨o', rest, hset, hle⟩ := exists_of_afterMember h
  rw [List.length_nil, Nat.le_zero, List.length_eq_zero_iff] at hle
  rw [hle] at hset
  exact readSet_nil_ne_ok hset

/-- Another character than a parenthesis comes first with a parenthesis behind the text exactly if
it does without. -/
theorem head?_paren {d : Char} (h : ')' ≠ d) (cs : List Char) :
    (cs ++ [')']).head? = some d ↔ cs.head? = some d := by
  cases cs with
  | nil => simp [h]
  | cons c cs => rfl

theorem goesOnToRange_paren (cs : List Char) :
    GoesOnToRange (cs ++ [')']) ↔ GoesOnToRange cs := by
  have hbracket := head?_paren (d := ']') (by decide)
  have hhyphen := head?_paren (d := '-') (by decide)
  constructor
  · rintro ⟨r, hr, h1, h2⟩
    cases cs with
    | nil => exact absurd (List.cons.inj hr).1 (by decide)
    | cons c cs =>
        obtain ⟨rfl, rfl⟩ := List.cons.inj hr
        exact ⟨cs, rfl, mt (hbracket cs).2 h1, mt (hhyphen cs).2 h2⟩
  · rintro ⟨r, rfl, h1, h2⟩
    exact ⟨r ++ [')'], rfl, mt (hbracket r).1 h1, mt (hhyphen r).1 h2⟩

section Step

/-! One step is read alike if every set is that has less text left. -/

variable (ih : ∀ {deep o cs}, cs.length < n →
  Follows (readSet n deep o cs) (readSet (n + 1) deep o (cs ++ [')'])))

include ih

/-- What comes behind a member is read alike. -/
theorem follows_afterMember {a : Escape} (h : cs.length < n) :
    Follows (afterMember n deep o a cs) (afterMember (n + 1) deep o a (cs ++ [')'])) := by
  by_cases hrange : GoesOnToRange cs
  · have hrange' := (goesOnToRange_paren cs).2 hrange
    obtain ⟨r, rfl, h1, h2⟩ := hrange
    obtain ⟨r', hr', h1', h2'⟩ := hrange'
    obtain ⟨-, rfl⟩ := List.cons.inj hr'
    rw [List.cons_append, afterMember_range h1 h2]
    refine (afterMember_range h1' h2').symm ▸ ?_
    refine (follows_readMember r).bind (fun b after hb => ?_) fun b s t hs => ?_
    · have := length_lt_of_readMember hb
      rw [List.length_cons] at h
      exact .of_value fun s _ => ih (by omega)
    · obtain ⟨_, -, hs⟩ := exists_of_bind_eq_ok hs
      exact absurd hs readSet_nil_ne_ok
  · rw [afterMember_alone hrange, afterMember_alone (mt (goesOnToRange_paren cs).1 hrange)]
    exact .of_value fun s _ => ih h

/-- A set that is opened in another is read alike, by its name or as it is written out. -/
theorem follows_bracket (h : cs.length < n) :
    Follows (readSet (n + 1) deep o ('[' :: cs))
      (readSet (n + 2) deep o ('[' :: (cs ++ [')']))) := by
  rw [readSet_bracket, readSet_bracket, readNamedSet?_paren, start_paren]
  cases hnamed : readNamedSet? cs with
  | some p =>
      obtain ⟨s, after⟩ := p
      have := length_lt_of_readNamedSet? hnamed
      exact ih (by omega)
  | none =>
      dsimp only [Option.map_none]
      split
      · exact .errors _ _
      · have hstart := length_start_le cs
        refine (ih (by omega)).bind (fun s after hs => ?_) fun s b r hr =>
          absurd hr readSet_nil_ne_ok
        have := length_lt_of_readSet hs
        exact ih (by dsimp only; omega)

/-- A member is read alike, and so is what comes behind it. -/
theorem follows_member {c : Char} (hclose : c ≠ ']') (hopen : c ≠ '[')
    (hop : setOp? c = none ∨ cs.head? ≠ some c) (h : cs.length < n) :
    Follows (readSet (n + 1) deep o (c :: cs)) (readSet (n + 2) deep o (c :: (cs ++ [')']))) := by
  have hop' : setOp? c = none ∨ (cs ++ [')']).head? ≠ some c := by
    rcases hop with h | h
    · exact .inl h
    · by_cases hc : ')' = c
      · exact .inl (by rw [← hc]; rfl)
      · exact .inr (mt (head?_paren hc cs).1 h)
  rw [readSet_member hclose hopen hop, readSet_member hclose hopen hop']
  refine (follows_readMember (c :: cs)).bind (fun a r ha => ?_) fun a b r hr =>
    absurd hr afterMember_nil_ne_ok
  have := length_lt_of_readMember ha
  rw [List.length_cons] at this
  exact follows_afterMember ih (by omega)

end Step

/-- **A set is read alike with a parenthesis behind the text.** -/
theorem follows_readSet (h : cs.length < n) :
    Follows (readSet n deep o cs) (readSet (n + 1) deep o (cs ++ [')'])) := by
  induction n generalizing deep o cs with
  | zero => exact absurd h (Nat.not_lt_zero _)
  | succ n ih =>
      cases cs with
      | nil =>
          -- the parenthesis is a member, and then nothing is left
          refine .refused fun s r hs => ?_
          rw [List.nil_append, readSet_member (by decide) (by decide) (.inl rfl)] at hs
          obtain ⟨⟨a, after⟩, hmember, hs⟩ := exists_of_bind_eq_ok hs
          obtain ⟨-, rfl⟩ := Prod.mk.inj (Except.ok.inj hmember)
          exact absurd hs afterMember_nil_ne_ok
      | cons c cs =>
          rw [List.length_cons] at h
          by_cases hclose : c = ']'
          · rw [hclose, List.cons_append, readSet_close, readSet_close]
            exact .read _ _
          by_cases hopen : c = '['
          · rw [hopen]
            exact follows_bracket ih (by omega)
          by_cases hop : setOp? c = none ∨ cs.head? ≠ some c
          · exact follows_member ih hclose hopen hop (by omega)
          · obtain ⟨op, cs', hc, rfl⟩ := exists_setOp? hop
            rw [List.length_cons] at h
            rw [List.cons_append, List.cons_append, readSet_operate hc, readSet_operate hc]
            exact ih (by omega)

/-! ## 4. Counts and parts -/

theorem readCount_paren (cs : List Char) :
    readCount (cs ++ [')']) = ((readCount cs).1, (readCount cs).2 ++ [')']) := by
  have hblank : Text.isBlank ')' = false := by decide
  have hdigit : Char.isDigit ')' = false := by decide
  unfold readCount
  dsimp only
  rw [dropWhile_paren hblank, takeWhile_paren hdigit, dropWhile_paren hdigit,
    dropWhile_paren hblank]
  split
  · rfl
  · split <;> rfl

theorem follows_closeCounts (least most : Nat) (cs : List Char) :
    Follows (closeCounts least most cs) (closeCounts least most (cs ++ [')'])) := by
  cases cs with
  | nil => exact .errors _ _
  | cons c cs =>
      by_cases hc : c = '\x7d'
      · rw [hc, List.cons_append, closeCounts, closeCounts]
        split
        · exact .errors _ _
        · exact .read _ _
      · have hopen (cs : List Char) :
            closeCounts least most (c :: cs) = .error .countNotClosed := by
          rw [closeCounts]
          exact fun r he => hc (List.cons.inj he).1
        rw [List.cons_append, hopen, hopen]
        exact .errors _ _

theorem follows_afterCount (first : Except Fault Nat) (cs : List Char) :
    Follows (afterCount first cs) (afterCount first (cs ++ [')'])) := by
  have hopen (d : Char) (cs : List Char) (h : d ≠ ',') (h' : d ≠ '\x7d') (e : Fault) :
      Follows (.error e) (afterCount first (d :: cs)) := by
    rw [afterCount_of_ne first h h']
    cases first <;> exact .errors _ _
  cases cs with
  | nil => exact hopen ')' [] (by decide) (by decide) _
  | cons c cs =>
      by_cases hcomma : c = ','
      · subst hcomma
        cases cs with
        | nil =>
            -- no number is read in the parenthesis
            refine .refused fun counts r h => ?_
            obtain ⟨_, -, h⟩ := exists_of_bind_eq_ok h
            obtain ⟨_, h, -⟩ := exists_of_bind_eq_ok h
            cases h
        | cons d cs =>
            by_cases hbrace : d = '\x7d'
            · subst hbrace
              exact .of_value fun n _ => .read _ _
            · rw [List.cons_append, List.cons_append, afterCount_comma first hbrace,
                afterCount_comma first hbrace, ← List.cons_append, readCount_paren]
              exact .of_value fun n _ => .of_value fun m _ => follows_closeCounts n m _
      by_cases hbrace : c = '\x7d'
      · subst hbrace
        exact .of_value fun n _ => .read _ _
      · rw [List.cons_append, afterCount_of_ne first hcomma hbrace,
          afterCount_of_ne first hcomma hbrace]
        exact .of_value fun _ _ => .errors _ _

/-- Counts are read alike with a parenthesis behind the text. -/
theorem follows_readCounts (cs : List Char) :
    Follows (readCounts cs) (readCounts (cs ++ [')'])) := by
  rw [readCounts_eq, readCounts_eq, readCount_paren]
  exact follows_afterCount _ _

theorem withGreed_paren (least : Nat) (most : Option Nat) (cs : List Char) :
    withGreed least most (cs ++ [')']) =
      ((withGreed least most cs).1, (withGreed least most cs).2 ++ [')']) :=
  first_paren (d := '?') (by decide) (fun _ => rfl) (fun cs h => by rw [withGreed]; exact h) cs

/-- Repetitions are read alike, and where there is none, none is made by the parenthesis. -/
theorem follows_readRepetition? (c : Char) (cs : List Char) :
    readRepetition? (c :: cs) = none ∧ readRepetition? (c :: (cs ++ [')'])) = none ∨
      ∃ x y, readRepetition? (c :: cs) = some x ∧ readRepetition? (c :: (cs ++ [')'])) = some y ∧
        Follows x y := by
  have hgreed (least : Nat) (most : Option Nat) (cs : List Char) :
      Follows (.ok (withGreed least most cs)) (.ok (withGreed least most (cs ++ [')']))) := by
    rw [withGreed_paren]
    exact .read _ _
  by_cases hstar : c = '*'
  · subst hstar
    exact .inr ⟨_, _, rfl, rfl, hgreed 0 none cs⟩
  by_cases hplus : c = '+'
  · subst hplus
    exact .inr ⟨_, _, rfl, rfl, hgreed 1 none cs⟩
  by_cases hquestion : c = '?'
  · subst hquestion
    exact .inr ⟨_, _, rfl, rfl, hgreed 0 (some 1) cs⟩
  by_cases hbrace : c = '\x7b'
  · subst hbrace
    refine .inr ⟨_, _, rfl, rfl, ?_⟩
    refine (follows_readCounts cs).bind (fun counts r _ => hgreed _ _ r) fun counts b r h => ?_
    exact (Prod.mk.inj (Except.ok.inj h)).2.symm
  · have hnone (cs : List Char) : readRepetition? (c :: cs) = none := by
      unfold readRepetition?
      split
      all_goals first
        | rfl
        | (rename_i he; obtain ⟨rfl, -⟩ := List.cons.inj he; contradiction)
    exact .inl ⟨hnone cs, hnone _⟩

/-- A part is read alike with a parenthesis behind the text. -/
theorem follows_readPart (c : Char) (cs : List Char) :
    Follows (readPart (c :: cs)) (readPart (c :: (cs ++ [')']))) := by
  by_cases hset : c = '['
  · rw [hset, readPart_bracket, readPart_bracket, start_paren]
    dsimp only
    rw [List.length_append, List.length_singleton]
    refine (follows_readSet (Nat.lt_succ_self _)).bind (fun s r _ => .read _ _) fun s b r h => ?_
    exact (Prod.mk.inj (Except.ok.inj h)).2.symm
  by_cases hescape : c = '\\'
  · rw [hescape, readPart_escape, readPart_escape]
    refine (follows_readEscape cs).bind (fun e r _ => .read _ _) fun e b r h => ?_
    exact (Prod.mk.inj (Except.ok.inj h)).2.symm
  · rw [readPart_plain hset hescape, readPart_plain hset hescape]
    exact .read _ _

/-- The inside of a group begins alike. -/
theorem follows_readGroupStart (cs : List Char) :
    Follows (readGroupStart cs) (readGroupStart (cs ++ [')'])) := by
  cases cs with
  | nil => exact .read _ _
  | cons c cs =>
      by_cases hc : c = '?'
      · subst hc
        cases cs with
        | nil => exact .errors _ _
        | cons d cs =>
            by_cases hd : d = ':'
            · subst hd
              exact .read _ _
            · have hunknown (cs : List Char) :
                  readGroupStart ('?' :: d :: cs) = .error .unknownGroup := by
                rw [readGroupStart]
                exact fun r he => hd (List.cons.inj he).1
              rw [List.cons_append, List.cons_append, hunknown, hunknown]
              exact .errors _ _
      · have hplain (cs : List Char) : readGroupStart (c :: cs) = .ok (true, c :: cs) := by
          rw [readGroupStart]
          · exact fun r h => hc (List.cons.inj h).1
          · exact fun r h => hc (List.cons.inj h).1
        rw [List.cons_append, hplain, hplain]
        exact .read _ _

end

end Quire.Regex
