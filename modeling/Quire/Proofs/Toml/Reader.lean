import Quire.Proofs.Toml.Quoted
import Quire.Toml.Reader

/-!
# Files of entries are read back

A file that is written a line for each entry, with a key without quotes and a value, is read by the
statements: blanks are skipped, the key is taken up to the blank that follows it, and the value up to the
end of the line. If every value is read as it is written, **such a file is read as the table of its
entries, in their order** (`read_lines`), as long as no two of them have one key.

The readers count down how many calls lie within each other, and begin with the length of the text. A
value therefore has to be read only by those that may make as many calls as it has characters.
-/

namespace Quire.Toml

variable {c : Char} {s rest : List Char} {key : String} {v : Value} {n levels : Nat}

/-! ## 1. What is not skipped -/

/-- Whether a character is skipped neither between statements nor within a line. -/
def IsSolid (c : Char) : Prop :=
  isBlank c = false ∧ c ≠ '\n' ∧ c ≠ '\r' ∧ c ≠ '#'

instance (c : Char) : Decidable (IsSolid c) :=
  inferInstanceAs (Decidable (_ ∧ _ ∧ _ ∧ _))

theorem skipBlanks_of_isSolid (h : IsSolid c) (s : List Char) : skipBlanks (c :: s) = c :: s := by
  rw [skipBlanks, List.dropWhile_cons, h.1, if_neg Bool.false_ne_true]

theorem skipTrivia_of_isSolid (h : IsSolid c) (s : List Char) :
    skipTrivia false (c :: s) = some (c :: s) := by
  obtain ⟨hblank, hline, hreturn, hcomment⟩ := h
  have hbreak : (decide (c = '\n') || isReturn c s) = false := by
    rw [isReturn, decide_eq_false hline, decide_eq_false hreturn]
    rfl
  rw [skipTrivia, hbreak, if_neg Bool.false_ne_true, if_neg Bool.false_ne_true, hblank,
    if_neg Bool.false_ne_true, if_neg hcomment]

theorem skipTrivia_newline (s : List Char) : skipTrivia false ('\n' :: s) = skipTrivia false s :=
  rfl

theorem skipTrivia_space (s : List Char) : skipTrivia false (' ' :: s) = skipTrivia false s :=
  rfl

theorem afterLine_newline (s : List Char) : afterLine false ('\n' :: s) = some s := by
  rw [afterLine, if_pos rfl]

/-! ## 2. Strings as values -/

/-- A string is written with a quote first. -/
theorem exists_quote (s : String) :
    ∃ q t, (writeString s).toList = q :: t ∧ (q = '\x22' ∨ q = '\x27') := by
  have hdelimiter (f : Form) : ∃ q t, f.delimiter = q :: t ∧ (q = '\x22' ∨ q = '\x27') := by
    cases f
    · exact ⟨_, _, rfl, .inl rfl⟩
    · exact ⟨_, _, rfl, .inr rfl⟩
    · exact ⟨_, _, rfl, .inl rfl⟩
    · exact ⟨_, _, rfl, .inr rfl⟩
  obtain ⟨q, t, hq, hquote⟩ := hdelimiter (Form.of s.toList)
  rw [writeString, String.toList_ofList]
  unfold Form.write
  rw [hq]
  split
  · exact ⟨q, _, rfl, hquote⟩
  · exact ⟨q, _, rfl, hquote⟩

theorem isSolid_quote (h : c = '\x22' ∨ c = '\x27') : IsSolid c := by
  rcases h with rfl | rfl
  · decide
  · decide

/-- **A string is read as the value that it is.** -/
theorem readValue_writeString (n levels : Nat) (s : String)
    (hrest : rest.head? ≠ some '\x22' ∧ rest.head? ≠ some '\x27') :
    readValue (n + 1) levels ((writeString s).toList ++ rest) = some (.string s, rest) := by
  have hread := readString_writeString s hrest
  obtain ⟨q, t, ht, hquote⟩ := exists_quote s
  rw [ht, List.cons_append] at hread ⊢
  have hstring : (readString (q :: (t ++ rest))).map (fun taken =>
      (Value.string (String.ofList taken.1), taken.2)) = some (.string s, rest) := by
    rw [hread, Option.map_some]
    dsimp only
    rw [String.ofList_toList]
  rcases hquote with rfl | rfl
  · exact hstring
  · exact hstring

/-- **An item of an array that is a string is read, and then what follows it.** -/
theorem readItems_string {text : List Char} (item : String)
    (hskip : skipTrivia false text = some ((writeString item).toList ++ rest))
    (hrest : rest.head? ≠ some '\x22' ∧ rest.head? ≠ some '\x27') (n levels : Nat) :
    readItems (n + 2) levels text = (skipTrivia false rest).bind fun after =>
      if after.head? = some ',' then
        (readItems (n + 1) levels after.tail).map fun taken => (.string item :: taken.1, taken.2)
      else if after.head? = some ']' then some ([.string item], after.tail)
      else none := by
  have hvalue := readValue_writeString n levels item hrest
  obtain ⟨q, t, ht, hquote⟩ := exists_quote item
  rw [ht, List.cons_append] at hskip hvalue
  have hbracket : q ≠ ']' := by
    rcases hquote with rfl | rfl
    · decide
    · decide
  rw [readItems, hskip]
  split
  · contradiction
  · rename_i he
    exact absurd (List.cons.inj (Option.some.inj he)).1 hbracket
  · rename_i he
    cases Option.some.inj he
    simp only [hvalue]
    split
    · rename_i hafter
      rw [hafter]
      rfl
    · rename_i hafter
      rw [hafter]
      rfl
    · rename_i hcomma hclose
      cases hafter : skipTrivia false rest with
      | none => rfl
      | some after =>
          cases after with
          | nil => rfl
          | cons c s =>
              have hc : c ≠ ',' := fun hc => hcomma s (by rw [hafter, hc])
              have hd : c ≠ ']' := fun hd => hclose s (by rw [hafter, hd])
              simp [hc, hd]

/-! ## 3. Keys -/

/-- Whether a key can stand without quotes. -/
def IsBare (key : String) : Prop :=
  key ≠ "" ∧ ∀ c ∈ key.toList, isKeyChar c = true

instance (key : String) : Decidable (IsBare key) :=
  inferInstanceAs (Decidable (_ ∧ _))

/-- A character of a key begins nothing else. -/
theorem of_isKeyChar (h : isKeyChar c = true) :
    IsSolid c ∧ c ≠ '\x22' ∧ c ≠ '\x27' ∧ c ≠ '[' ∧ c ≠ '\ufeff' := by
  have hne {d : Char} (hd : isKeyChar d = false) : c ≠ d := by
    rintro rfl
    rw [h] at hd
    cases hd
  have hblank : isBlank c = false := by
    rw [isBlank, decide_eq_false (hne (by decide)), decide_eq_false (hne (by decide))]
    rfl
  exact ⟨⟨hblank, hne (by decide), hne (by decide), hne (by decide)⟩, hne (by decide),
    hne (by decide), hne (by decide), hne (by decide)⟩

theorem exists_head_of_isBare (h : IsBare key) :
    ∃ c s, key.toList = c :: s ∧ isKeyChar c = true := by
  obtain ⟨c, s, hs⟩ := List.exists_cons_of_ne_nil (mt String.toList_eq_nil_iff.1 h.1)
  exact ⟨c, s, hs, h.2 c (by rw [hs]; exact List.mem_cons_self)⟩

theorem readKeyPart_of_isBare (h : IsBare key) (rest : List Char) :
    readKeyPart (key.toList ++ ' ' :: rest) = some (key, ' ' :: rest) := by
  obtain ⟨c, s, hs, hc⟩ := exists_head_of_isBare h
  have hkey : (key.toList ++ ' ' :: rest).takeWhile isKeyChar = key.toList := by
    rw [List.takeWhile_append_of_pos h.2]
    simp [isKeyChar]
  have hne : key.toList.isEmpty = false := by rw [hs]; rfl
  obtain ⟨-, hdouble, hsingle, -⟩ := of_isKeyChar hc
  unfold readKeyPart
  split
  · rename_i he
    rw [hs, List.cons_append] at he
    exact absurd (List.cons.inj he).1 hdouble
  · rename_i he
    rw [hs, List.cons_append] at he
    exact absurd (List.cons.inj he).1 hsingle
  · rw [hkey]
    dsimp only
    rw [hne, if_neg Bool.false_ne_true, List.drop_left, String.ofList_toList]

/-- **A key is read up to the sign that follows it.** -/
theorem readKey_of_isBare (h : IsBare key) (n : Nat) (rest : List Char) :
    readKey (n + 1) (key.toList ++ ' ' :: '=' :: rest) = some ([key], '=' :: rest) := by
  have hparts : readKeyParts (n + 1) (key.toList ++ ' ' :: '=' :: rest) = some ([key], '=' :: rest) := by
    rw [readKeyParts, readKeyPart_of_isBare h]
    rfl
  rw [readKey, hparts]
  rfl

/-! ## 4. Lines -/

/-- A line of a file: an entry, with its value as it is written and as it is read. -/
structure Line where
  key : String
  text : String
  value : Value

namespace Line

/-- The characters of a line. -/
def chars (l : Line) : List Char :=
  l.key.toList ++ ' ' :: '=' :: ' ' :: (l.text.toList ++ ['\n'])

/-- Whether the entry of a line is read as it is written: the key needs no quotes, and the value does not
begin with a blank and is read up to the end of the line. -/
structure IsRead (l : Line) : Prop where
  key : IsBare l.key
  head : ∃ c s, l.text.toList = c :: s ∧ IsSolid c
  value : ∀ n rest, l.text.toList.length ≤ n →
    readValue n maxDepth (l.text.toList ++ '\n' :: rest) = some (l.value, '\n' :: rest)

variable {l : Line} {lines : List Line}

theorem chars_append (l : Line) (rest : List Char) :
    l.chars ++ rest = l.key.toList ++ ' ' :: '=' :: ' ' :: (l.text.toList ++ '\n' :: rest) := by
  simp [chars]

theorem readStatement_chars (h : l.IsRead) (hn : l.text.toList.length ≤ n) (rest : List Char) :
    readStatement n (l.chars ++ rest) = some (.entry [l.key] l.value, '\n' :: rest) := by
  obtain ⟨c, s, hs, hc⟩ := exists_head_of_isBare h.key
  obtain ⟨d, t, ht, hd⟩ := h.head
  obtain ⟨-, -, -, hbracket, -⟩ := of_isKeyChar hc
  obtain ⟨n, rfl⟩ : ∃ m, n = m + 1 := Nat.exists_eq_add_one.2 (by rw [ht] at hn; exact Nat.lt_of_lt_of_le (Nat.succ_pos _) hn)
  rw [chars_append]
  unfold readStatement
  split
  · rename_i he
    rw [hs, List.cons_append] at he
    exact absurd (List.cons.inj he).1 hbracket
  · rename_i he
    rw [hs, List.cons_append] at he
    exact absurd (List.cons.inj he).1 hbracket
  · rw [readKey_of_isBare h.key]
    dsimp only
    have hskip : skipBlanks (' ' :: (l.text.toList ++ '\n' :: rest)) = l.text.toList ++ '\n' :: rest := by
      rw [ht, List.cons_append]
      exact skipBlanks_of_isSolid hd _
    show (readValue (n + 1) maxDepth (skipBlanks (' ' :: (l.text.toList ++ '\n' :: rest)))).map _ = _
    rw [hskip, h.value _ _ hn]
    rfl

theorem readStatements_chars (h : ∀ l ∈ lines, l.IsRead) (hn : (lines.flatMap chars).length < n) :
    readStatements n (lines.flatMap chars) =
      some (lines.map fun l => .entry [l.key] l.value) := by
  induction lines generalizing n with
  | nil =>
      obtain ⟨n, rfl⟩ : ∃ m, n = m + 1 := Nat.exists_eq_add_one.2 hn
      rfl
  | cons l lines ih =>
      obtain ⟨hl, htail⟩ := List.forall_mem_cons.1 h
      obtain ⟨n, rfl⟩ : ∃ m, n = m + 1 := Nat.exists_eq_add_one.2 (Nat.zero_lt_of_lt hn)
      obtain ⟨c, s, hs, hc⟩ := exists_head_of_isBare hl.key
      have hlength : l.text.toList.length + (lines.flatMap chars).length < n := by
        rw [List.flatMap_cons, chars_append] at hn
        simp only [List.length_append, List.length_cons] at hn
        omega
      have hstatement := readStatement_chars (n := n) hl (by omega) (lines.flatMap chars)
      obtain ⟨t, ht⟩ : ∃ t, l.chars ++ lines.flatMap chars = c :: t :=
        ⟨_, by rw [chars_append, hs, List.cons_append]⟩
      rw [ht] at hstatement
      rw [List.flatMap_cons, ht, readStatements, skipTrivia_of_isSolid (of_isKeyChar hc).1]
      dsimp only
      rw [hstatement]
      dsimp only
      rw [afterLine_newline]
      dsimp only
      rw [ih htail (by omega)]
      rfl

/-- **The statements of a file of lines are its entries.** -/
theorem statements_chars (h : ∀ l ∈ lines, l.IsRead) :
    statements (String.ofList (lines.flatMap chars)) =
      some (lines.map fun l => .entry [l.key] l.value) := by
  have hmark (s : List Char) : lines.flatMap chars ≠ '\ufeff' :: s := by
    intro he
    cases lines with
    | nil => cases he
    | cons l lines =>
        obtain ⟨c, t, ht, hc⟩ := exists_head_of_isBare (h l List.mem_cons_self).key
        rw [List.flatMap_cons, chars_append, ht, List.cons_append] at he
        exact (of_isKeyChar hc).2.2.2.2 (List.cons.inj he).1
  rw [statements, String.toList_ofList]
  split
  · rename_i he
    exact absurd he (hmark _)
  · exact readStatements_chars h (Nat.lt_succ_self _)

/-! ## 5. Entries -/

/-- The entry of a line, under its key. -/
def node (l : Line) : String × Node :=
  (l.key, .value l.value)

end Line

theorem Entries.get?_eq_none {es : Entries} {k : String} (h : k ∉ es.map Prod.fst) :
    es.get? k = none := by
  rw [Entries.get?, List.lookup_eq_none_iff]
  intro p hp
  rw [bne_iff_ne]
  rintro rfl
  exact h (List.mem_map_of_mem hp)

theorem Entries.put_eq_append {es : Entries} {k : String} (h : k ∉ es.map Prod.fst) (m : Node) :
    es.put k m = es ++ [(k, m)] := by
  induction es with
  | nil => rfl
  | cons e es ih =>
      rw [List.map_cons, List.mem_cons, not_or] at h
      rw [Entries.put, if_neg (Ne.symm h.1), ih h.2]
      rfl

/-- A value under a new key comes after all others. -/
theorem Entries.addValue_new {es : Entries} {k : String} (h : k ∉ es.map Prod.fst) (v : Value) :
    es.addValue [k] v = some (es ++ [(k, .value v)]) := by
  simp [Entries.addValue, Entries.atTable, Entries.get?_eq_none h, Entries.put_eq_append h]

theorem Line.foldlM_addTo {lines : List Line} {es : Entries}
    (h : (es.map Prod.fst ++ lines.map Line.key).Nodup) :
    (lines.map fun l => Statement.entry [l.key] l.value).foldlM Statement.addTo ([], es) =
      some ([], es ++ lines.map Line.node) := by
  induction lines generalizing es with
  | nil => simp
  | cons l lines ih =>
      have hnew : l.key ∉ es.map Prod.fst := by
        intro hmem
        exact (List.nodup_append.1 h).2.2 _ hmem _ List.mem_cons_self rfl
      have hrest : ((es ++ [l.node]).map Prod.fst ++ lines.map Line.key).Nodup := by
        simpa [Line.node] using h
      have hstep : Statement.addTo ([], es) (.entry [l.key] l.value) = some ([], es ++ [l.node]) := by
        show (Entries.addValue [l.key] l.value es).map _ = _
        rw [Entries.addValue_new hnew]
        rfl
      rw [List.map_cons, List.foldlM_cons, hstep, List.map_cons]
      exact (ih hrest).trans (by rw [List.append_assoc, List.singleton_append])

/-- **A file of lines is read as the table of its entries.** -/
theorem read_lines {lines : List Line} (h : ∀ l ∈ lines, l.IsRead)
    (hkeys : (lines.map Line.key).Nodup) :
    read (String.ofList (lines.flatMap Line.chars)) = some (lines.map Line.node) := by
  rw [read, Line.statements_chars h, Option.bind_some, Entries.ofStatements,
    Line.foldlM_addTo (by simpa using hkeys)]
  rfl

end Quire.Toml
