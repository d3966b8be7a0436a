import Quire.Proofs.Regex.Followed

/-!
# An expression in a group

A text is put between `(?:` and `)` to make one part of a larger expression. An expression is read
there as it is read by itself (`encloses_readExpr`): the induction is on its steps, and what follows
the parenthesis of a group inside it is read alike again.

**A text that closes no group it has not opened is an expression behind a caret and in a group exactly
if it is one by itself, and there is room for the group** (`ofChars_heldText`). A text that does close
one is cut in two there, which is why it is left out.
-/

namespace Quire.Regex

/-! ## 1. Expressions -/

/-- An expression as far as it is read, inside one more group. -/
def OpenExpr.deeper (o : OpenExpr) : OpenExpr :=
  { o with deep := o.deep + 1 }

/-- How the reading of an expression goes together with that of the same text with a parenthesis
behind it, inside one more group, where `deep` groups are open around it otherwise. What is read of
the text is read in front of the parenthesis as well, unless it is nested so deep that there is no
room for the group. Where the text is refused, it is refused with the parenthesis too, or else the
parenthesis has been used up and nothing is left. -/
inductive Encloses (deep : Nat) : Except Fault (Nested Regex × Nat × List Char) →
    Except Fault (Nested Regex × Nat × List Char) → Prop where
  | read (a : Nested Regex) (groups : Nat) (r : List Char) :
      Encloses deep (.ok (a, groups, r)) (.ok (a, groups, r ++ [')']))
  | tooDeep {x : Except Fault (Nested Regex × Nat × List Char)} (e : Fault) :
      (∀ a groups r, x = .ok (a, groups, r) → maxDepth ≤ a.depth + deep) →
      Encloses deep x (.error e)
  | refused {e : Fault} {y : Except Fault (Nested Regex × Nat × List Char)} :
      (∀ a groups r, y = .ok (a, groups, r) → r = []) → Encloses deep (.error e) y

theorem Encloses.errors (deep : Nat) (e e' : Fault) : Encloses deep (.error e) (.error e') :=
  .refused fun _ _ _ h => by cases h

section

variable {n m deep : Nat} {o : OpenExpr} {cs : List Char}

/-- An expression that begins with what is read alike is read alike if the rest of it is. -/
theorem Encloses.of_follows {α : Type} {x y : Except Fault (α × List Char)}
    {f g : α × List Char → Except Fault (Nested Regex × Nat × List Char)} (h : Follows x y)
    (hread : ∀ a r, x = .ok (a, r) → Encloses deep (f (a, r)) (g (a, r ++ [')'])))
    (hspent : ∀ a b groups r, g (a, []) = .ok (b, groups, r) → r = []) :
    Encloses deep (x >>= f) (y >>= g) := by
  cases h with
  | read a r => exact hread a r rfl
  | refused h =>
      refine .refused fun b groups r hy => ?_
      cases y with
      | error e => cases hy
      | ok p =>
          obtain ⟨a, s⟩ := p
          obtain rfl := h a s rfl
          exact hspent a b groups r hy

theorem eq_nil_of_readExpr_nil {a : Nested Regex} {groups : Nat} {r : List Char}
    (h : readExpr n o [] = .ok (a, groups, r)) : r = [] :=
  List.length_eq_zero_iff.1 (Nat.le_zero.1 (length_le_of_readExpr h))

/-- An expression is nested deeper than the inside of a group in it. -/
theorem depth_lt_of_afterGroup {numbered : Bool} {number groups : Nat} {a : Nested Regex}
    {r : List Char} {x : Except Fault (Nested Regex × Nat × List Char)}
    (h : x >>= afterGroup n o numbered number = .ok (a, groups, r)) :
    ∃ b groups' after, x = .ok (b, groups', after) ∧ b.depth < a.depth := by
  obtain ⟨b, groups', after, hx, h⟩ := exists_of_afterGroup h
  exact ⟨b, groups', _, hx, depth_le_of_readExpr h ⟨_, List.mem_cons_self, Nat.le_refl _⟩⟩

section Step

/-! One step is read alike if every expression is that has less text left. -/

variable (ih : ∀ (o : OpenExpr) {cs}, cs.length < n →
  Encloses o.deep (readExpr n o cs) (readExpr m o.deeper (cs ++ [')'])))

include ih

/-- The rest of a group is read alike if its inside is. -/
theorem encloses_afterGroup {numbered : Bool} {number : Nat}
    {x y : Except Fault (Nested Regex × Nat × List Char)} (h : Encloses (o.deep + 1) x y)
    (hlength : ∀ a groups r, x = .ok (a, groups, r) → r.length ≤ n) :
    Encloses o.deep (x >>= afterGroup n o numbered number)
      (y >>= afterGroup m o.deeper numbered number) := by
  cases h with
  | read a groups r =>
      change Encloses o.deep (afterGroup n o numbered number (a, groups, r))
        (afterGroup m o.deeper numbered number (a, groups, r ++ [')']))
      cases r with
      | nil =>
          -- the group is closed by the parenthesis, and then nothing is left
          rw [afterGroup_open _ _ _ _ (by simp), List.nil_append, afterGroup_close]
          exact .refused fun b groups' s h => eq_nil_of_readExpr_nil h
      | cons c r =>
          have hle := hlength a groups _ rfl
          by_cases hc : c = ')'
          · rw [hc, List.cons_append, afterGroup_close, afterGroup_close]
            exact ih { o.add ⟨if numbered then group number a.value else a.value, a.depth + 1⟩ with
              groups := groups } hle
          · have hopen (r : List Char) : (c :: r).head? ≠ some ')' := by simpa using hc
            rw [List.cons_append, afterGroup_open _ _ _ _ (hopen _),
              afterGroup_open _ _ _ _ (hopen _)]
            exact .errors _ _ _
  | tooDeep e h =>
      refine .tooDeep e fun a groups r hx => ?_
      obtain ⟨b, groups', after, hx, hlt⟩ := depth_lt_of_afterGroup hx
      have := h _ _ _ hx
      omega
  | refused h =>
      refine .refused fun a groups r hy => ?_
      obtain ⟨b, groups', after, hy, -⟩ := exists_of_afterGroup hy
      cases h _ _ _ hy

/-- A group is read alike, or it is what there is no room for. -/
theorem encloses_group (h : cs.length < n) :
    Encloses o.deep (readExpr (n + 1) o ('(' :: cs))
      (readExpr (m + 1) o.deeper ('(' :: (cs ++ [')']))) := by
  have hdeeper : o.deeper.deep = o.deep + 1 := rfl
  rw [readExpr_group, readExpr_group]
  by_cases hdeep : maxDepth ≤ o.deeper.deep
  · rw [if_pos hdeep]
    refine .tooDeep _ fun a groups r hx => ?_
    split at hx
    · cases hx
    · -- the group is a level of its own
      obtain ⟨⟨numbered, inside⟩, -, hx⟩ := exists_of_bind_eq_ok hx
      obtain ⟨b, _, _, -, hlt⟩ := depth_lt_of_afterGroup hx
      omega
  · rw [if_neg hdeep, if_neg (by omega)]
    refine .of_follows (follows_readGroupStart cs) (fun numbered inside hs => ?_)
      fun numbered a groups r hy => ?_
    · have hinside := length_le_of_readGroupStart hs
      refine encloses_afterGroup ih (ih {
        groups := if numbered then o.groups + 1 else o.groups, deep := o.deep + 1 }
          (Nat.lt_of_le_of_lt hinside h)) fun a groups r hx => ?_
      have := length_le_of_readExpr hx
      omega
    · obtain ⟨b, _, _, hb, -⟩ := exists_of_afterGroup hy
      cases eq_nil_of_readExpr_nil hb

/-- A part is read alike, and so is a repetition of the part before it. -/
theorem encloses_part {c : Char} (hopen : c ≠ '(') (hclose : c ≠ ')') (hbar : c ≠ '|')
    (h : cs.length < n) :
    Encloses o.deep (readExpr (n + 1) o (c :: cs))
      (readExpr (m + 1) o.deeper (c :: (cs ++ [')']))) := by
  rw [readExpr_part hopen hclose hbar, readExpr_part hopen hclose hbar]
  rcases follows_readRepetition? c cs with ⟨hx, hy⟩ | ⟨x, y, hx, hy, hxy⟩
  · rw [hx, hy]
    refine .of_follows (follows_readPart c cs) (fun a r ha => ?_)
      fun a b groups r hr => eq_nil_of_readExpr_nil hr
    have hlt := length_lt_of_readPart ha
    rw [List.length_cons] at hlt
    exact ih (o.add a) (by omega)
  · have hsame : o.deeper.parts = o.parts := rfl
    rw [hx, hy, hsame]
    cases hparts : o.parts with
    | nil => exact .errors _ _ _
    | cons a more =>
        refine .of_follows hxy (fun again r ha => ?_)
          fun a b groups r hr => eq_nil_of_readExpr_nil hr
        rw [ha] at hx
        have hlt := length_lt_of_readRepetition? hx
        rw [List.length_cons] at hlt
        exact ih { o with parts := ⟨again a.value, a.depth + 1⟩ :: more } (by omega)

end Step

/-- **An expression is read in a group as it is read by itself**, with a parenthesis behind it. -/
theorem encloses_readExpr (h : cs.length < n) (hm : n < m) :
    Encloses o.deep (readExpr n o cs) (readExpr m o.deeper (cs ++ [')'])) := by
  induction n generalizing m o cs with
  | zero => exact absurd h (Nat.not_lt_zero _)
  | succ n ih =>
      obtain ⟨m, rfl⟩ : ∃ k, m = k + 1 := ⟨m - 1, by omega⟩
      replace ih (o : OpenExpr) {cs : List Char} (h : cs.length < n) :=
        ih (o := o) h (by omega : n < m)
      cases cs with
      | nil =>
          rw [readExpr_nil, List.nil_append, readExpr_close]
          exact .read _ _ _
      | cons c cs =>
          rw [List.length_cons] at h
          have h : cs.length < n := by omega
          by_cases hclose : c = ')'
          · rw [hclose, List.cons_append, readExpr_close, readExpr_close]
            exact .read _ _ _
          by_cases hbar : c = '|'
          · rw [hbar, List.cons_append, readExpr_bar, readExpr_bar]
            exact ih o.another h
          by_cases hopen : c = '('
          · rw [hopen]
            exact encloses_group ih h
          · exact encloses_part ih hopen hclose hbar h

end

/-! ## 2. Whole texts -/

/-- The expression that a text is, however deep it is nested and however large it is. -/
def reading (cs : List Char) : Except Fault (Nested Regex) :=
  readExpr (cs.length + 1) {} cs >>= fun
    | (a, _, []) => .ok a
    | _ => .error .groupNotOpened

/-- The expression if there is room for it. -/
def Nested.fitting (a : Nested Regex) : Except Fault Regex :=
  if maxDepth < a.depth then .error .tooDeep
  else if maxSize < a.value.size then .error .tooLarge
  else .ok a.value

/-- A text behind a caret and in a group. -/
def heldText (cs : List Char) : List Char :=
  '^' :: '(' :: '?' :: ':' :: (cs ++ [')'])

section

variable {cs : List Char} {a : Nested Regex} {r : Regex}

theorem Nested.fitting_eq_ok_iff :
    a.fitting = .ok r ↔ a.depth ≤ maxDepth ∧ a.value.size ≤ maxSize ∧ a.value = r := by
  unfold Nested.fitting
  split
  · rename_i h
    exact ⟨nofun, fun h' => absurd h'.1 (by omega)⟩
  split
  · rename_i h
    exact ⟨nofun, fun h' => absurd h'.2.1 (by omega)⟩
  · rename_i h h'
    rw [Except.ok.injEq]
    exact ⟨fun e => ⟨by omega, by omega, e⟩, fun e => e.2.2⟩

theorem ofChars_eq (cs : List Char) : ofChars cs = reading cs >>= Nested.fitting := by
  unfold ofChars reading
  cases readExpr (cs.length + 1) {} cs with
  | error e => rfl
  | ok p =>
      obtain ⟨a, groups, rest⟩ := p
      cases rest <;> rfl

/-- A group is closed that has not been opened if something is left of the text. -/
theorem eq_nil_of_readExpr {groups : Nat} {rest : List Char}
    (h : ofChars cs ≠ .error .groupNotOpened)
    (hx : readExpr (cs.length + 1) {} cs = .ok (a, groups, rest)) : rest = [] := by
  cases rest with
  | nil => rfl
  | cons c rest =>
      refine absurd ?_ h
      rw [ofChars_eq, reading, hx]
      rfl

/-- Reading a text behind a caret and in a group is reading the caret, the inside of the group and
its end. -/
theorem reading_heldText (cs : List Char) :
    reading (heldText cs) =
      (readExpr (cs.length + 4) (OpenExpr.deeper {}) (cs ++ [')']) >>=
        afterGroup (cs.length + 4) { parts := [⟨holds .textStart, 0⟩] } false 0) >>= fun
        | (a, _, []) => .ok a
        | _ => .error .groupNotOpened := by
  have hlength : (heldText cs).length = cs.length + 4 + 1 := by
    simp only [heldText, List.length_cons, List.length_append, List.length_nil]
  have hcaret (n : Nat) (rest : List Char) :
      readExpr (n + 1) {} ('^' :: rest) =
        readExpr n { parts := [⟨holds .textStart, 0⟩] } rest := by
    rw [readExpr_part (by decide) (by decide) (by decide)]
    rfl
  rw [reading, hlength, heldText, hcaret, readExpr_group, if_neg (by decide)]
  rfl

/-- With the parenthesis read, the expression is held to the beginning, two levels further down. -/
theorem afterGroup_heldText (n : Nat) (a : Nested Regex) (groups : Nat) :
    afterGroup (n + 1) { parts := [⟨holds .textStart, 0⟩] } false 0 (a, groups, [')']) =
      .ok (⟨concat [holds .textStart, a.value], a.depth + 2⟩, groups, []) := by
  have hdepth : jointDepth [a.depth + 1, 0] = a.depth + 2 := by
    have htwo : ¬ [a.depth + 1, 0].length ≤ 1 := by simp
    rw [jointDepth, if_neg htwo, List.foldl_cons, List.foldl_cons, List.foldl_nil]
    omega
  rw [afterGroup_close, readExpr_nil, ← hdepth]
  rfl

/-- **A text that closes no group it has not opened is an expression behind a caret and in a group
exactly if it is one by itself, and there is room for the group.** It is then that expression, held to
the beginning. -/
theorem ofChars_heldText (h : ofChars cs ≠ .error .groupNotOpened) :
    ofChars (heldText cs) = .ok r ↔
      ∃ a, reading cs = .ok a ∧
        Nested.fitting ⟨concat [holds .textStart, a.value], a.depth + 2⟩ = .ok r := by
  have hgroup := encloses_readExpr (o := {}) (Nat.lt_succ_self cs.length)
    (by omega : cs.length + 1 < cs.length + 4)
  rw [ofChars_eq, reading_heldText, reading]
  have hleft {a : Nested Regex} {groups : Nat} {rest : List Char}
      (hx : readExpr (cs.length + 1) {} cs = .ok (a, groups, rest)) : rest = [] :=
    eq_nil_of_readExpr h hx
  generalize readExpr (cs.length + 1) {} cs = x at hgroup hleft ⊢
  generalize readExpr (cs.length + 4) (OpenExpr.deeper {}) (cs ++ [')']) = y at hgroup ⊢
  cases hgroup with
  | read a groups rest =>
      obtain rfl := hleft rfl
      have hgiven : (Except.ok (ε := Fault) (a, groups, [] ++ [')']) >>=
            afterGroup (cs.length + 4) { parts := [⟨holds .textStart, 0⟩] } false 0) =
          .ok (⟨concat [holds .textStart, a.value], a.depth + 2⟩, groups, []) :=
        afterGroup_heldText (cs.length + 3) a groups
      rw [hgiven]
      constructor
      · exact fun hr => ⟨a, rfl, hr⟩
      · rintro ⟨b, hb, hr⟩
        rw [Except.ok.inj hb]
        exact hr
  | tooDeep e hx =>
      constructor
      · exact fun hr => by cases hr
      · rintro ⟨a, ha, hr⟩
        obtain ⟨⟨b, groups, rest⟩, hb, ha⟩ := exists_of_bind_eq_ok ha
        obtain rfl := hleft hb
        have hdeep := hx _ _ _ hb
        have hfits := (Nested.fitting_eq_ok_iff.1 hr).1
        rw [Except.ok.inj ha] at hdeep
        dsimp only at hdeep hfits
        omega
  | refused hy =>
      constructor
      · intro hr
        obtain ⟨_, hr, -⟩ := exists_of_bind_eq_ok hr
        obtain ⟨_, hr, -⟩ := exists_of_bind_eq_ok hr
        obtain ⟨b, groups, after, hy', -⟩ := exists_of_afterGroup hr
        cases hy _ _ _ hy'
      · rintro ⟨a, ha, -⟩
        cases ha

end

end Quire.Regex
