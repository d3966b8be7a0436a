import Quire.Regex.Reader

/-!
# Reading expressions step by step

One step of each reader, told by the character that comes first, and what a reader leaves of its text:
**each takes at least a character** (`length_lt_of_readSet`, `length_lt_of_readPart`), apart from
that of a whole expression, which may stop where it begins (`length_le_of_readExpr`). So the number
that a reader counts down is never used up.
-/

namespace Quire.Regex

/-- What has been read in two steps has been read in each of them. -/
theorem exists_of_bind_eq_ok {ε α β : Type} {x : Except ε α} {f : α → Except ε β} {b : β}
    (h : (x >>= f) = .ok b) : ∃ a, x = .ok a ∧ f a = .ok b := by
  cases x with
  | error e => cases h
  | ok a => exact ⟨a, rfl, h⟩

/-! ## 1. Sets -/

/-- The rest of a set in brackets when a member has been read: it may begin a range. -/
def afterMember (n deep : Nat) (o : OpenSet) (a : Escape) (rest : List Char) :
    Except Fault (Nested CharSet × List Char) :=
  match rest with
  | '-' :: ']' :: _ => do readSet n deep (o.add ⟨← a.member, 0⟩) rest
  | '-' :: '-' :: _ => do readSet n deep (o.add ⟨← a.member, 0⟩) rest
  | '-' :: after => do
    let (b, after) ← readMember after
    readSet n deep (o.add ⟨← a.rangeTo b, 0⟩) after
  | _ => do readSet n deep (o.add ⟨← a.member, 0⟩) rest

/-- Whether a text goes on, behind a member, to the end of a range: a hyphen comes next that is no
member itself and no half of an operation. -/
def GoesOnToRange (cs : List Char) : Prop :=
  ∃ r, cs = '-' :: r ∧ r.head? ≠ some ']' ∧ r.head? ≠ some '-'

/-- Whether a caret comes first, and what follows it. -/
def afterCaret : List Char → Bool × List Char
  | '^' :: r => (true, r)
  | r => (false, r)

/-- A set before its first member, which may be a closing bracket. -/
def OpenSet.afterBracket (o : OpenSet) : List Char → OpenSet × List Char
  | ']' :: r => (o.add ⟨.single ']', 0⟩, r)
  | r => (o, r)

/-- A set behind its caret. Hyphens that come first are members. -/
def OpenSet.afterHyphens (o : OpenSet) (cs : List Char) : OpenSet × List Char :=
  if !(cs.takeWhile (· == '-')).isEmpty then
    ((cs.takeWhile (· == '-')).foldl (fun o c => o.add ⟨.single c, 0⟩) o, cs.dropWhile (· == '-'))
  else o.afterBracket (cs.dropWhile (· == '-'))

theorem OpenSet.start_eq (cs : List Char) :
    OpenSet.start cs =
      OpenSet.afterHyphens ⟨(afterCaret cs).1, none, .none, []⟩ (afterCaret cs).2 :=
  rfl

theorem readNamedSet?_colon (cs : List Char) :
    readNamedSet? (':' :: cs) =
      match (afterCaret cs).2.dropWhile (· != ':') with
      | ':' :: ']' :: after =>
        (namedSet? ((afterCaret cs).2.takeWhile (· != ':'))).map fun s =>
          (if (afterCaret cs).1 then s.compl else s, after)
      | _ => none :=
  rfl

theorem readNamedSet?_of_ne {c : Char} (h : c ≠ ':') (cs : List Char) :
    readNamedSet? (c :: cs) = none := by
  unfold readNamedSet?
  split
  · rename_i he
    exact absurd (List.cons.inj he).1 h
  · rfl

section

variable {n deep : Nat} {o : OpenSet} {c : Char} {cs : List Char}

/-- A member stands by itself where it begins no range. -/
theorem afterMember_alone {a : Escape} (h : ¬ GoesOnToRange cs) :
    afterMember n deep o a cs = a.member >>= fun s => readSet n deep (o.add ⟨s, 0⟩) cs := by
  unfold afterMember
  split
  · rfl
  · rfl
  · rename_i r h1 h2
    refine (h ⟨r, rfl, fun hr => ?_, fun hr => ?_⟩).elim
    · obtain ⟨r', rfl⟩ := List.head?_eq_some_iff.1 hr
      exact h1 r' rfl
    · obtain ⟨r', rfl⟩ := List.head?_eq_some_iff.1 hr
      exact h2 r' rfl
  · rfl

theorem afterMember_range {a : Escape} (h1 : cs.head? ≠ some ']') (h2 : cs.head? ≠ some '-') :
    afterMember n deep o a ('-' :: cs) =
      readMember cs >>= fun (b, after) =>
        a.rangeTo b >>= fun s => readSet n deep (o.add ⟨s, 0⟩) after := by
  unfold afterMember
  split
  · rename_i he
    obtain ⟨-, rfl⟩ := List.cons.inj he
    exact absurd rfl h1
  · rename_i he
    obtain ⟨-, rfl⟩ := List.cons.inj he
    exact absurd rfl h2
  · rename_i he
    obtain ⟨-, rfl⟩ := List.cons.inj he
    rfl
  · rename_i h
    exact (h _ rfl).elim

theorem readSet_nil : readSet (n + 1) deep o [] = .error .setNotClosed :=
  rfl

theorem readSet_close : readSet (n + 1) deep o (']' :: cs) = .ok (o.close, cs) :=
  rfl

theorem readSet_bracket : readSet (n + 1) deep o ('[' :: cs) =
    match readNamedSet? cs with
    | some (s, after) => readSet n deep (o.add ⟨s, 0⟩) after
    | none =>
      if maxDepth ≤ deep then .error .tooDeep
      else
        readSet n (deep + 1) (OpenSet.start cs).1 (OpenSet.start cs).2 >>= fun (s, after) =>
          readSet n deep (o.add s) after :=
  rfl

/-- The operation on sets that a character written twice stands for. -/
def setOp? (c : Char) : Option SetOp :=
  if c = '&' then some .inter
  else if c = '-' then some .diff
  else if c = '~' then some .symmDiff
  else none

theorem readSet_operate {op : SetOp} (h : setOp? c = some op) :
    readSet (n + 1) deep o (c :: c :: cs) = readSet n deep (o.operate op) cs := by
  unfold setOp? at h
  split at h
  · rename_i hc
    obtain rfl := Option.some.inj h
    rw [hc]
    rfl
  split at h
  · rename_i hc
    obtain rfl := Option.some.inj h
    rw [hc]
    rfl
  split at h
  · rename_i hc
    obtain rfl := Option.some.inj h
    rw [hc]
    rfl
  · cases h

theorem exists_setOp? (h : ¬ (setOp? c = none ∨ cs.head? ≠ some c)) :
    ∃ op cs', setOp? c = some op ∧ cs = c :: cs' := by
  rw [not_or, Ne, Decidable.not_not] at h
  obtain ⟨op, hop⟩ := Option.ne_none_iff_exists'.1 h.1
  obtain ⟨cs', rfl⟩ := List.head?_eq_some_iff.1 h.2
  exact ⟨op, cs', hop, rfl⟩

/-- A member comes where no bracket and no operation does. -/
theorem readSet_member (hclose : c ≠ ']') (hopen : c ≠ '[')
    (hop : setOp? c = none ∨ cs.head? ≠ some c) :
    readSet (n + 1) deep o (c :: cs) =
      readMember (c :: cs) >>= fun (a, rest) => afterMember n deep o a rest := by
  have hno : ∀ d op, setOp? d = some op → ∀ r, c :: cs = d :: d :: r → False := by
    intro d op hd r he
    obtain ⟨rfl, rfl⟩ := List.cons.inj he
    rcases hop with h | h
    · rw [hd] at h
      cases h
    · exact h rfl
  rw [readSet]
  · rfl
  · exact fun h => by cases h
  · exact fun r h => hclose (List.cons.inj h).1
  · exact fun r h => hno '&' _ rfl r h
  · exact fun r h => hno '-' _ rfl r h
  · exact fun r h => hno '~' _ rfl r h
  · exact fun r h => hopen (List.cons.inj h).1

end

/-! ## 2. Counts -/

/-- The end of two counts. -/
def closeCounts (least most : Nat) :
    List Char → Except Fault ((Nat × Option Nat) × List Char)
  | '\x7d' :: after =>
    if most < least then .error .countReversed else .ok ((least, some most), after)
  | _ => .error .countNotClosed

/-- The rest of the counts in braces behind the first one. -/
def afterCount (first : Except Fault Nat) (rest : List Char) :
    Except Fault ((Nat × Option Nat) × List Char) :=
  match rest with
  | [] => .error .countNotClosed
  | ',' :: '\x7d' :: after => first >>= fun n => .ok ((n, none), after)
  | [','] => .error .countNotClosed
  | ',' :: more =>
    first >>= fun n => (readCount more).1 >>= fun m => closeCounts n m (readCount more).2
  | '\x7d' :: after => first >>= fun n => .ok ((n, some n), after)
  | _ => first >>= fun _ => .error .countNotClosed

theorem readCounts_eq (cs : List Char) :
    readCounts cs = afterCount (readCount cs).1 (readCount cs).2 :=
  rfl

/-- A second count comes where a comma has no brace behind it. -/
theorem afterCount_comma (first : Except Fault Nat) {c : Char} (h : c ≠ '\x7d') (cs : List Char) :
    afterCount first (',' :: c :: cs) =
      first >>= fun n =>
        (readCount (c :: cs)).1 >>= fun m => closeCounts n m (readCount (c :: cs)).2 := by
  rw [afterCount]
  · exact fun r he => h (List.cons.inj he).1
  · exact fun he => by cases he

/-- Counts are not closed where neither a comma nor a brace comes next. -/
theorem afterCount_of_ne (first : Except Fault Nat) {c : Char} (h : c ≠ ',') (h' : c ≠ '\x7d')
    (cs : List Char) : afterCount first (c :: cs) = first >>= fun _ => .error .countNotClosed := by
  rw [afterCount]
  · exact fun he => by cases he
  · exact fun r he => h (List.cons.inj he).1
  · exact fun he => h (List.cons.inj he).1
  · exact fun r he => h (List.cons.inj he).1
  · exact fun r he => h' (List.cons.inj he).1

/-! ## 3. Expressions -/

/-- The expression that an escape stands for. -/
def Escape.regex : Escape → Regex
  | .char c => Regex.char c
  | .set s => one s
  | .assertion a => holds a

/-- The expression of a character that begins neither a set nor an escape. -/
def plainPart (c : Char) : Regex :=
  if c = '.' then one .notNewline
  else if c = '^' then holds .textStart
  else if c = '$' then holds .textEnd
  else char c

theorem readPart_bracket (cs : List Char) :
    readPart ('[' :: cs) =
      readSet ((OpenSet.start cs).2.length + 1) 1 (OpenSet.start cs).1 (OpenSet.start cs).2 >>=
        fun (s, after) => .ok (⟨one s.value, s.depth⟩, after) :=
  rfl

theorem readPart_escape (cs : List Char) :
    readPart ('\\' :: cs) =
      readEscape cs >>= fun (e, after) => .ok (⟨e.regex, 0⟩, after) := by
  rw [readPart]
  cases readEscape cs with
  | error e => rfl
  | ok p =>
      obtain ⟨e, after⟩ := p
      cases e <;> rfl

theorem readPart_plain {c : Char} (hset : c ≠ '[') (hescape : c ≠ '\\') (cs : List Char) :
    readPart (c :: cs) = .ok (⟨plainPart c, 0⟩, cs) := by
  unfold plainPart
  split
  · rename_i hc
    rw [hc]
    rfl
  split
  · rename_i hc
    rw [hc]
    rfl
  split
  · rename_i hc
    rw [hc]
    rfl
  · rename_i h1 h2 h3
    rw [readPart]
    · exact hset
    · exact hescape
    · exact h1
    · exact h2
    · exact h3

/-- The rest of an expression when the inside of a group has been read: its closing parenthesis comes
next. -/
def afterGroup (n : Nat) (o : OpenExpr) (numbered : Bool) (number : Nat) :
    Nested Regex × Nat × List Char → Except Fault (Nested Regex × Nat × List Char)
  | (a, groups, ')' :: after) =>
    readExpr n { o.add ⟨if numbered then group number a.value else a.value, a.depth + 1⟩ with
      groups := groups } after
  | _ => .error .groupNotClosed

section

variable {n : Nat} {o : OpenExpr} {c : Char} {cs : List Char}

theorem afterGroup_close (numbered : Bool) (number groups : Nat) (a : Nested Regex) :
    afterGroup n o numbered number (a, groups, ')' :: cs) =
      readExpr n { o.add ⟨if numbered then group number a.value else a.value, a.depth + 1⟩ with
        groups := groups } cs :=
  rfl

theorem afterGroup_open (numbered : Bool) (number groups : Nat) (a : Nested Regex)
    (h : cs.head? ≠ some ')') :
    afterGroup n o numbered number (a, groups, cs) = .error .groupNotClosed := by
  cases cs with
  | nil => rfl
  | cons c cs =>
      rw [afterGroup]
      exact fun _ _ _ he => h (congrArg List.head? (Prod.mk.inj (Prod.mk.inj he).2).2)

/-- Behind the inside of a group its closing parenthesis comes next, if the expression is read
on. -/
theorem exists_of_afterGroup {numbered : Bool} {number : Nat}
    {x : Except Fault (Nested Regex × Nat × List Char)} {y : Nested Regex × Nat × List Char}
    (h : x >>= afterGroup n o numbered number = .ok y) :
    ∃ a groups after, x = .ok (a, groups, ')' :: after) ∧
      readExpr n { o.add ⟨if numbered then group number a.value else a.value, a.depth + 1⟩ with
        groups := groups } after = .ok y := by
  obtain ⟨⟨a, groups, cs⟩, rfl, h⟩ := exists_of_bind_eq_ok h
  by_cases hc : cs.head? = some ')'
  · obtain ⟨after, rfl⟩ := List.head?_eq_some_iff.1 hc
    exact ⟨a, groups, after, rfl, h⟩
  · have hopen := (afterGroup_open (n := n) (o := o) numbered number groups a hc).symm.trans h
    cases hopen

theorem readExpr_nil : readExpr (n + 1) o [] = .ok (o.close, o.groups, []) :=
  rfl

theorem readExpr_close : readExpr (n + 1) o (')' :: cs) = .ok (o.close, o.groups, ')' :: cs) :=
  rfl

theorem readExpr_bar : readExpr (n + 1) o ('|' :: cs) = readExpr n o.another cs :=
  rfl

theorem readExpr_group : readExpr (n + 1) o ('(' :: cs) =
    if maxDepth ≤ o.deep then .error .tooDeep
    else
      readGroupStart cs >>= fun (numbered, inside) =>
        readExpr n { groups := if numbered then o.groups + 1 else o.groups, deep := o.deep + 1 }
          inside >>=
        afterGroup n o numbered (if numbered then o.groups + 1 else o.groups) :=
  rfl

/-- A part or a repetition comes where no parenthesis and no bar does. -/
theorem readExpr_part (hopen : c ≠ '(') (hclose : c ≠ ')') (hbar : c ≠ '|') :
    readExpr (n + 1) o (c :: cs) =
      match readRepetition? (c :: cs), o.parts with
      | some _, [] => .error .nothingToRepeat
      | some repetition, a :: more =>
        repetition >>= fun (again, rest) =>
          readExpr n { o with parts := ⟨again a.value, a.depth + 1⟩ :: more } rest
      | none, _ => readPart (c :: cs) >>= fun (a, rest) => readExpr n (o.add a) rest := by
  refine readExpr.eq_6 o (c :: cs) n ?_ ?_ ?_ ?_
  · exact fun h => by cases h
  · exact fun r h => hclose (List.cons.inj h).1
  · exact fun r h => hbar (List.cons.inj h).1
  · exact fun r h => hopen (List.cons.inj h).1

end

/-! ## 4. What is left of the text -/

section

variable {n deep : Nat} {o : OpenSet} {cs r : List Char}

theorem length_lt_of_readEscape {e : Escape} (h : readEscape cs = .ok (e, r)) :
    r.length < cs.length := by
  cases cs with
  | nil => cases h
  | cons c cs =>
      rw [readEscape] at h
      split at h
      · obtain ⟨-, rfl⟩ := Prod.mk.inj (Except.ok.inj h)
        exact Nat.lt_succ_self _
      · cases h

theorem length_lt_of_readMember {a : Escape} (h : readMember cs = .ok (a, r)) :
    r.length < cs.length := by
  unfold readMember at h
  split at h
  · cases h
  · exact Nat.lt_succ_of_lt (length_lt_of_readEscape h)
  · obtain ⟨-, rfl⟩ := Prod.mk.inj (Except.ok.inj h)
    exact Nat.lt_succ_self _

theorem length_afterCaret_le (cs : List Char) : (afterCaret cs).2.length ≤ cs.length := by
  unfold afterCaret
  split
  · exact Nat.le_succ _
  · exact Nat.le_refl _

theorem length_dropWhile_le (p : Char → Bool) (cs : List Char) :
    (cs.dropWhile p).length ≤ cs.length :=
  (List.dropWhile_suffix p).length_le

theorem length_lt_of_readNamedSet? {s : CharSet} (h : readNamedSet? cs = some (s, r)) :
    r.length < cs.length := by
  cases cs with
  | nil => cases h
  | cons c cs =>
      by_cases hc : c = ':'
      · have hcaret := length_afterCaret_le cs
        have hdrop := length_dropWhile_le (· != ':') (afterCaret cs).2
        rw [hc, readNamedSet?_colon] at h
        split at h
        · rename_i hd
          obtain ⟨s', -, he⟩ := Option.map_eq_some_iff.1 h
          obtain ⟨-, rfl⟩ := Prod.mk.inj he
          rw [hd, List.length_cons, List.length_cons] at hdrop
          rw [List.length_cons]
          omega
        · cases h
      · rw [readNamedSet?_of_ne hc] at h
        cases h

theorem length_start_le (cs : List Char) : (OpenSet.start cs).2.length ≤ cs.length := by
  rw [OpenSet.start_eq]
  refine Nat.le_trans ?_ (length_afterCaret_le cs)
  have hdrop := length_dropWhile_le (· == '-') (afterCaret cs).2
  unfold OpenSet.afterHyphens
  split
  · exact hdrop
  · unfold OpenSet.afterBracket
    split
    · rename_i h
      rw [h, List.length_cons] at hdrop
      exact Nat.le_of_succ_le hdrop
    · exact hdrop

/-- Behind a member a set is read on with no more text, if it is read at all. -/
theorem exists_of_afterMember {a : Escape} {s : Nested CharSet}
    (h : afterMember n deep o a cs = .ok (s, r)) :
    ∃ o' rest, readSet n deep o' rest = .ok (s, r) ∧ rest.length ≤ cs.length := by
  unfold afterMember at h
  split at h
  · obtain ⟨_, -, h⟩ := exists_of_bind_eq_ok h
    exact ⟨_, _, h, Nat.le_refl _⟩
  · obtain ⟨_, -, h⟩ := exists_of_bind_eq_ok h
    exact ⟨_, _, h, Nat.le_refl _⟩
  · obtain ⟨⟨b, after⟩, hb, h⟩ := exists_of_bind_eq_ok h
    obtain ⟨_, -, h⟩ := exists_of_bind_eq_ok h
    have := length_lt_of_readMember hb
    exact ⟨_, _, h, by rw [List.length_cons]; omega⟩
  · obtain ⟨_, -, h⟩ := exists_of_bind_eq_ok h
    exact ⟨_, _, h, Nat.le_refl _⟩

/-- **A set that has been read has taken its closing bracket.** -/
theorem length_lt_of_readSet {s : Nested CharSet} (h : readSet n deep o cs = .ok (s, r)) :
    r.length < cs.length := by
  induction n generalizing deep o cs s r with
  | zero => cases h
  | succ n ih =>
      cases cs with
      | nil =>
          rw [readSet_nil] at h
          cases h
      | cons c cs =>
          rw [List.length_cons]
          by_cases hclose : c = ']'
          · rw [hclose, readSet_close] at h
            obtain ⟨-, rfl⟩ := Prod.mk.inj (Except.ok.inj h)
            exact Nat.lt_succ_self _
          by_cases hopen : c = '['
          · rw [hopen, readSet_bracket] at h
            split at h
            · rename_i hnamed
              have := length_lt_of_readNamedSet? hnamed
              have := ih h
              omega
            split at h
            · cases h
            · obtain ⟨⟨s', after⟩, hinner, hrest⟩ := exists_of_bind_eq_ok h
              have := length_start_le cs
              have := ih hinner
              have := ih hrest
              omega
          by_cases hop : setOp? c = none ∨ cs.head? ≠ some c
          · rw [readSet_member hclose hopen hop] at h
            obtain ⟨⟨a, rest⟩, hmember, hrest⟩ := exists_of_bind_eq_ok h
            obtain ⟨o', rest', hset, hle⟩ := exists_of_afterMember hrest
            have hlt := length_lt_of_readMember hmember
            have := ih hset
            rw [List.length_cons] at hlt
            omega
          · obtain ⟨op, cs', hc, rfl⟩ := exists_setOp? hop
            rw [readSet_operate hc] at h
            have := ih h
            rw [List.length_cons]
            omega

/-! ## 5. Parts and repetitions -/

theorem length_readCount_le (cs : List Char) : (readCount cs).2.length ≤ cs.length := by
  have h1 := length_dropWhile_le Text.isBlank cs
  have h2 := length_dropWhile_le Char.isDigit (cs.dropWhile Text.isBlank)
  have h3 := length_dropWhile_le Text.isBlank
    ((cs.dropWhile Text.isBlank).dropWhile Char.isDigit)
  have hrest : (readCount cs).2 =
      ((cs.dropWhile Text.isBlank).dropWhile Char.isDigit).dropWhile Text.isBlank := by
    unfold readCount
    dsimp only
    split
    · rfl
    · split <;> rfl
  rw [hrest]
  omega

theorem length_lt_of_readCounts {counts : Nat × Option Nat} (h : readCounts cs = .ok (counts, r)) :
    r.length < cs.length := by
  have hfirst := length_readCount_le cs
  unfold readCounts at h
  dsimp only at h
  split at h
  · cases h
  · rename_i hd
    obtain ⟨_, -, h⟩ := exists_of_bind_eq_ok h
    obtain ⟨-, rfl⟩ := Prod.mk.inj (Except.ok.inj h)
    rw [hd, List.length_cons, List.length_cons] at hfirst
    omega
  · cases h
  · rename_i more _ _ hd
    have hsecond := length_readCount_le more
    obtain ⟨_, -, h⟩ := exists_of_bind_eq_ok h
    obtain ⟨_, -, h⟩ := exists_of_bind_eq_ok h
    rw [hd, List.length_cons] at hfirst
    split at h
    · rename_i hclose
      rw [hclose, List.length_cons] at hsecond
      split at h
      · cases h
      · obtain ⟨-, rfl⟩ := Prod.mk.inj (Except.ok.inj h)
        omega
    · cases h
  · rename_i hd
    obtain ⟨_, -, h⟩ := exists_of_bind_eq_ok h
    obtain ⟨-, rfl⟩ := Prod.mk.inj (Except.ok.inj h)
    rw [hd, List.length_cons] at hfirst
    omega
  · obtain ⟨_, -, h⟩ := exists_of_bind_eq_ok h
    cases h

theorem length_withGreed_le (least : Nat) (most : Option Nat) (cs : List Char) :
    (withGreed least most cs).2.length ≤ cs.length := by
  unfold withGreed
  split
  · exact Nat.le_succ _
  · exact Nat.le_refl _

theorem length_lt_of_readRepetition? {again : Regex → Regex}
    (h : readRepetition? cs = some (.ok (again, r))) : r.length < cs.length := by
  have hgreed {least : Nat} {most : Option Nat} {rest : List Char}
      (h : withGreed least most rest = (again, r)) : r.length ≤ rest.length := by
    have := length_withGreed_le least most rest
    rwa [h] at this
  unfold readRepetition? at h
  split at h
  · exact Nat.lt_succ_of_le (hgreed (Except.ok.inj (Option.some.inj h)))
  · exact Nat.lt_succ_of_le (hgreed (Except.ok.inj (Option.some.inj h)))
  · exact Nat.lt_succ_of_le (hgreed (Except.ok.inj (Option.some.inj h)))
  · obtain ⟨⟨⟨least, most⟩, after⟩, hcounts, h⟩ := exists_of_bind_eq_ok (Option.some.inj h)
    have := length_lt_of_readCounts hcounts
    have := hgreed (Except.ok.inj h)
    rw [List.length_cons]
    omega
  · cases h

/-- **A part that has been read has taken a character.** -/
theorem length_lt_of_readPart {c : Char} {a : Nested Regex}
    (h : readPart (c :: cs) = .ok (a, r)) : r.length < (c :: cs).length := by
  rw [List.length_cons]
  by_cases hset : c = '['
  · rw [hset, readPart_bracket] at h
    obtain ⟨⟨s, after⟩, hread, h⟩ := exists_of_bind_eq_ok h
    obtain ⟨-, rfl⟩ := Prod.mk.inj (Except.ok.inj h)
    have := length_start_le cs
    have := length_lt_of_readSet hread
    omega
  by_cases hescape : c = '\\'
  · rw [hescape, readPart_escape] at h
    obtain ⟨⟨e, after⟩, hread, h⟩ := exists_of_bind_eq_ok h
    obtain ⟨-, rfl⟩ := Prod.mk.inj (Except.ok.inj h)
    exact Nat.lt_succ_of_lt (length_lt_of_readEscape hread)
  · rw [readPart_plain hset hescape] at h
    obtain ⟨-, rfl⟩ := Prod.mk.inj (Except.ok.inj h)
    exact Nat.lt_succ_self _

theorem length_le_of_readGroupStart {numbered : Bool} (h : readGroupStart cs = .ok (numbered, r)) :
    r.length ≤ cs.length := by
  unfold readGroupStart at h
  split at h
  · obtain ⟨-, rfl⟩ := Prod.mk.inj (Except.ok.inj h)
    simp only [List.length_cons]
    omega
  · cases h
  · obtain ⟨-, rfl⟩ := Prod.mk.inj (Except.ok.inj h)
    exact Nat.le_refl _

end

/-! ## 6. One step of reading an expression -/

/-- What is read on with after one step: what has been read by then, and the text that is left. -/
inductive ReadsOn (n : Nat) (o : OpenExpr) : List Char → OpenExpr → List Char → Prop where
  | bar (cs : List Char) : ReadsOn n o ('|' :: cs) o.another cs
  | group {cs inside after : List Char} {numbered : Bool} {a : Nested Regex} {groups : Nat} :
      o.deep < maxDepth → readGroupStart cs = .ok (numbered, inside) →
      readExpr n { groups := if numbered then o.groups + 1 else o.groups, deep := o.deep + 1 }
        inside = .ok (a, groups, ')' :: after) →
      ReadsOn n o ('(' :: cs)
        { o.add ⟨if numbered then group (if numbered then o.groups + 1 else o.groups) a.value
            else a.value, a.depth + 1⟩ with groups := groups } after
  | repetition {cs rest : List Char} {again : Regex → Regex} {a : Nested Regex}
      {more : List (Nested Regex)} :
      readRepetition? cs = some (.ok (again, rest)) → o.parts = a :: more →
      ReadsOn n o cs { o with parts := ⟨again a.value, a.depth + 1⟩ :: more } rest
  | part {c : Char} {cs rest : List Char} {a : Nested Regex} :
      readPart (c :: cs) = .ok (a, rest) → ReadsOn n o (c :: cs) (o.add a) rest

section

variable {n d : Nat} {o o' : OpenExpr} {cs cs' r : List Char} {a : Nested Regex} {groups : Nat}

/-- **An expression that has been read has come to its end, or has been read on with after one
step.** -/
theorem readExpr_cases (h : readExpr (n + 1) o cs = .ok (a, groups, r)) :
    (a = o.close ∧ groups = o.groups ∧ r = cs) ∨
      ∃ o' cs', ReadsOn n o cs o' cs' ∧ readExpr n o' cs' = .ok (a, groups, r) := by
  have hend {cs : List Char} (h : Except.ok (ε := Fault) (o.close, o.groups, cs) = .ok (a, groups, r)) :
      a = o.close ∧ groups = o.groups ∧ r = cs := by
    obtain ⟨h1, h2⟩ := Prod.mk.inj (Except.ok.inj h)
    obtain ⟨h2, h3⟩ := Prod.mk.inj h2
    exact ⟨h1.symm, h2.symm, h3.symm⟩
  cases cs with
  | nil =>
      rw [readExpr_nil] at h
      exact .inl (hend h)
  | cons c cs =>
      by_cases hclose : c = ')'
      · rw [hclose, readExpr_close] at h
        rw [hclose]
        exact .inl (hend h)
      right
      by_cases hbar : c = '|'
      · rw [hbar, readExpr_bar] at h
        rw [hbar]
        exact ⟨_, _, .bar cs, h⟩
      by_cases hopen : c = '('
      · rw [hopen, readExpr_group] at h
        rw [hopen]
        split at h
        · cases h
        · rename_i hdeep
          obtain ⟨⟨numbered, inside⟩, hstart, h⟩ := exists_of_bind_eq_ok h
          obtain ⟨b, groups', after, hinner, h⟩ := exists_of_afterGroup h
          exact ⟨_, _, .group (Nat.lt_of_not_le hdeep) hstart hinner, h⟩
      · rw [readExpr_part hopen hclose hbar] at h
        split at h
        · cases h
        · rename_i repetition b more hrep hparts
          obtain ⟨⟨again, rest⟩, hok, h⟩ := exists_of_bind_eq_ok h
          rw [hok] at hrep
          exact ⟨_, _, .repetition hrep hparts, h⟩
        · obtain ⟨⟨b, rest⟩, hpart, h⟩ := exists_of_bind_eq_ok h
          exact ⟨_, _, .part hpart, h⟩

/-- **What is left behind an expression is no longer than its text, and what is read on with is
shorter.** -/
theorem length_le_of_readExpr (h : readExpr n o cs = .ok (a, groups, r)) :
    r.length ≤ cs.length := by
  induction n generalizing o cs a groups r with
  | zero => cases h
  | succ n ih =>
      rcases readExpr_cases h with ⟨-, -, rfl⟩ | ⟨o', cs', hstep, h⟩
      · exact Nat.le_refl _
      · have hrest := ih h
        cases hstep with
        | bar => exact Nat.le_succ_of_le hrest
        | group _ hstart hinner =>
            have hle := length_le_of_readGroupStart hstart
            have hin := ih hinner
            rw [List.length_cons] at hin ⊢
            omega
        | repetition hrep _ =>
            have := length_lt_of_readRepetition? hrep
            omega
        | part hpart =>
            have := length_lt_of_readPart hpart
            omega

/-- Whether something among what has been read of an expression is nested so deep. -/
def OpenExpr.HasDepth (o : OpenExpr) (d : Nat) : Prop :=
  ∃ a ∈ o.parts ++ o.earlier, d ≤ a.depth

theorem le_foldl_max {ds : List Nat} {m : Nat} (h : d ≤ m ∨ d ∈ ds) : d ≤ ds.foldl max m := by
  induction ds generalizing m with
  | nil => exact h.resolve_right List.not_mem_nil
  | cons x ds ih =>
      rw [List.foldl_cons]
      refine ih ?_
      rcases h with h | h
      · exact .inl (Nat.le_trans h (Nat.le_max_left _ _))
      · rcases List.mem_cons.1 h with rfl | h
        · exact .inl (Nat.le_max_right _ _)
        · exact .inr h

/-- Things together are nested no less deep than each of them. -/
theorem le_jointDepth {as : List (Nested Regex)} (h : a ∈ as) (hd : d ≤ a.depth) :
    d ≤ jointDepth (as.map (·.depth)) := by
  have := le_foldl_max (m := 0) (.inr (List.mem_map_of_mem (f := (·.depth)) h))
  unfold jointDepth
  omega

theorem OpenExpr.le_depth_alternative (h : ∃ a ∈ o.parts, d ≤ a.depth) :
    d ≤ o.alternative.depth := by
  obtain ⟨a, ha, hd⟩ := h
  exact le_jointDepth ha hd

theorem OpenExpr.HasDepth.close (h : o.HasDepth d) : d ≤ o.close.depth := by
  obtain ⟨a, ha, hd⟩ := h
  have halternative (hp : a ∈ o.parts) : d ≤ o.alternative.depth :=
    OpenExpr.le_depth_alternative ⟨a, hp, hd⟩
  unfold OpenExpr.close
  split
  · rename_i he
    rw [he, List.append_nil] at ha
    exact halternative ha
  · dsimp only
    rcases List.mem_append.1 ha with hp | he
    · exact le_jointDepth (List.mem_reverse.2 List.mem_cons_self) (halternative hp)
    · exact le_jointDepth (List.mem_reverse.2 (List.mem_cons_of_mem _ he)) hd

theorem ReadsOn.hasDepth (h : ReadsOn n o cs o' cs') (hd : o.HasDepth d) : o'.HasDepth d := by
  obtain ⟨a, ha, hd⟩ := hd
  cases h with
  | bar =>
      rcases List.mem_append.1 ha with hp | he
      · exact ⟨o.alternative, List.mem_cons_self, OpenExpr.le_depth_alternative ⟨a, hp, hd⟩⟩
      · exact ⟨a, List.mem_cons_of_mem _ he, hd⟩
  | group => exact ⟨a, List.mem_cons_of_mem _ ha, hd⟩
  | part => exact ⟨a, List.mem_cons_of_mem _ ha, hd⟩
  | @repetition _ _ again b more _ hparts =>
      rw [hparts, List.cons_append] at ha
      rcases List.mem_cons.1 ha with rfl | ha
      · exact ⟨⟨again a.value, a.depth + 1⟩, List.mem_cons_self, Nat.le_succ_of_le hd⟩
      · exact ⟨a, List.mem_cons_of_mem _ ha, hd⟩

/-- **An expression is nested no less deep than what has been read of it before.** -/
theorem depth_le_of_readExpr (h : readExpr n o cs = .ok (a, groups, r)) (hd : o.HasDepth d) :
    d ≤ a.depth := by
  induction n generalizing o cs with
  | zero => cases h
  | succ n ih =>
      rcases readExpr_cases h with ⟨rfl, -, -⟩ | ⟨o', cs', hstep, h⟩
      · exact hd.close
      · exact ih h (hstep.hasDepth hd)

end

end Quire.Regex
