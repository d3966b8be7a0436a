import Quire.Config.Text
import Quire.Proofs.Toml.Reader

/-!
# Configurations are read back from their text

A configuration is written as five lines, one for each setting, and a text that keeps some of these lines
is a configuration file as well. **Read, it has the settings that were kept, and for every other the one
of a build that nothing is asked of** (`ofText_keptText`); with all lines kept, it is the configuration
that was written (`ofText_text`).
-/

namespace Quire.Config

open Quire.Toml (Line Node Value readItems readValue skipTrivia writeString)

variable {items : List String} {rest : List Char} {n levels : Nat} {c : Config}

/-! ## 1. Arrays -/

/-- An item on a line of its own, with the break before it. -/
def itemChars (item : String) : List Char :=
  '\n' :: ' ' :: ' ' :: ' ' :: ' ' :: ((writeString item).toList ++ [','])

theorem skipTrivia_itemChars (item : String) (rest : List Char) :
    skipTrivia false (itemChars item ++ rest) = some ((writeString item).toList ++ ',' :: rest) := by
  have htext : itemChars item ++ rest =
      '\n' :: ' ' :: ' ' :: ' ' :: ' ' :: ((writeString item).toList ++ ',' :: rest) := by
    simp [itemChars]
  obtain ⟨q, t, ht, hquote⟩ := Toml.exists_quote item
  rw [htext, Toml.skipTrivia_newline, Toml.skipTrivia_space, Toml.skipTrivia_space,
    Toml.skipTrivia_space, Toml.skipTrivia_space, ht, List.cons_append]
  exact Toml.skipTrivia_of_isSolid (Toml.isSolid_quote hquote) _

/-- **Items on lines of their own are read up to the closing bracket.** -/
theorem readItems_itemChars (hn : items.length < n) (rest : List Char) :
    readItems n levels (items.flatMap itemChars ++ '\n' :: ']' :: rest) =
      some (items.map .string, rest) := by
  induction items generalizing n with
  | nil =>
      obtain ⟨n, rfl⟩ : ∃ m, n = m + 1 := Nat.exists_eq_add_one.2 hn
      rfl
  | cons item items ih =>
      rw [List.length_cons] at hn
      obtain ⟨n, rfl⟩ : ∃ m, n = m + 2 := ⟨n - 2, by omega⟩
      rw [List.flatMap_cons, List.append_assoc,
        Toml.readItems_string item (skipTrivia_itemChars item _) (by simp)]
      show (readItems (n + 1) levels (items.flatMap itemChars ++ '\n' :: ']' :: rest)).map _ = _
      rw [ih (by omega)]
      rfl

/-- An array on several lines is its items, each on a line of its own. -/
theorem toList_lines (items : List String) (rest : List Char) :
    '\n' :: ((items.map fun item => "    " ++ writeString item ++ ",\n").flatMap String.toList ++ rest) =
      items.flatMap itemChars ++ '\n' :: rest := by
  induction items with
  | nil => rfl
  | cons item items ih =>
      rw [List.map_cons, List.flatMap_cons, List.flatMap_cons, List.append_assoc, List.append_assoc, ← ih]
      simp [itemChars]

theorem length_le_itemChars (items : List String) : items.length ≤ (items.flatMap itemChars).length := by
  induction items with
  | nil => exact Nat.zero_le 0
  | cons item items ih =>
      rw [List.flatMap_cons, List.length_append, List.length_cons, itemChars, List.length_cons]
      omega

/-- An array is read from the items on. -/
theorem readValue_of_readItems {text : List Char} {values : List Value}
    (h : readItems n levels text = some (values, rest)) :
    readValue (n + 1) (levels + 1) ('[' :: text) = some (.array values, rest) := by
  show (readItems n levels text).map _ = _
  rw [h]
  rfl

theorem toList_arrayText_one (item : String) (rest : List Char) :
    (arrayText [item]).toList ++ rest = '[' :: ((writeString item).toList ++ ']' :: rest) := by
  simp [arrayText]

theorem toList_arrayText_lines (first second : String) (items : List String) (rest : List Char) :
    (arrayText (first :: second :: items)).toList ++ rest =
      '[' :: ((first :: second :: items).flatMap itemChars ++ '\n' :: ']' :: rest) := by
  rw [← toList_lines]
  simp [arrayText]

/-- **An array is read as its items.** -/
theorem readValue_arrayText (hn : (arrayText items).toList.length ≤ n) (rest : List Char) :
    readValue n (levels + 1) ((arrayText items).toList ++ rest) =
      some (.array (items.map .string), rest) := by
  rcases items with _ | ⟨item, _ | ⟨second, items⟩⟩
  · have htext : (arrayText []).toList = ['[', ']'] := by simp [arrayText]
    rw [htext] at hn ⊢
    obtain ⟨n, rfl⟩ : ∃ m, n = m + 2 := ⟨n - 2, (Nat.sub_add_cancel hn).symm⟩
    rfl
  · obtain ⟨q, t, ht, hquote⟩ := Toml.exists_quote item
    have hlength : 3 ≤ (arrayText [item]).toList.length := by simp [arrayText, ht]
    obtain ⟨n, rfl⟩ : ∃ m, n = m + 3 := ⟨n - 3, by omega⟩
    have hskip : skipTrivia false ((writeString item).toList ++ ']' :: rest) =
        some ((writeString item).toList ++ ']' :: rest) := by
      rw [ht]
      exact Toml.skipTrivia_of_isSolid (Toml.isSolid_quote hquote) _
    rw [toList_arrayText_one]
    exact readValue_of_readItems (Toml.readItems_string item hskip (by simp) n levels)
  · have hlength : (arrayText (item :: second :: items)).toList.length =
        ((item :: second :: items).flatMap itemChars).length + 3 := by
      rw [← List.append_nil (arrayText _).toList, toList_arrayText_lines, List.length_cons,
        List.length_append]
      rfl
    have hitems := length_le_itemChars (item :: second :: items)
    obtain ⟨n, rfl⟩ : ∃ m, n = m + 1 := ⟨n - 1, by omega⟩
    rw [toList_arrayText_lines]
    exact readValue_of_readItems (readItems_itemChars (by omega) rest)

/-! ## 2. Settings -/

/-- What a configuration has a key for. -/
inductive Setting where
  | output
  | excluded
  | skipped
  | patterns
  | language
  deriving DecidableEq

namespace Setting

/-- All settings, in the order in which they are written. -/
def all : List Setting :=
  [output, excluded, skipped, patterns, language]

/-- The key of a setting. -/
def key : Setting → String
  | output => outputKey
  | excluded => excludedKey
  | skipped => skippedKey
  | patterns => patternsKey
  | language => languageKey

/-- The line of a setting in a configuration. -/
def line (c : Config) (x : Setting) : Line where
  key := x.key
  text := match x with
    | output => writeString c.outputDirectory
    | excluded => arrayText c.excludedDirectories
    | skipped => arrayText c.skippedFiles
    | patterns => arrayText c.imagePatterns
    | language => writeString c.codeLanguage
  value := match x with
    | output => .string c.outputDirectory
    | excluded => .array (c.excludedDirectories.map .string)
    | skipped => .array (c.skippedFiles.map .string)
    | patterns => .array (c.imagePatterns.map .string)
    | language => .string c.codeLanguage

end Setting

/-- The text of a configuration with the lines of some settings alone. -/
def keptText (c : Config) (kept : Setting → Bool) : String :=
  String.join ((Setting.all.filter kept).map fun x => entryText x.key (x.line c).text)

/-- A configuration with some settings kept, and the others as for a build that nothing is asked of. -/
def keep (c : Config) (kept : Setting → Bool) : Config where
  outputDirectory := if kept .output then c.outputDirectory else ({} : Config).outputDirectory
  excludedDirectories :=
    if kept .excluded then c.excludedDirectories else ({} : Config).excludedDirectories
  skippedFiles := if kept .skipped then c.skippedFiles else ({} : Config).skippedFiles
  imagePatterns := if kept .patterns then c.imagePatterns else ({} : Config).imagePatterns
  codeLanguage := if kept .language then c.codeLanguage else ({} : Config).codeLanguage

variable {kept : Setting → Bool}

theorem keptText_all (c : Config) : c.keptText (fun _ => true) = c.text := by
  simp only [keptText, Setting.all, List.filter_true, List.map_cons, List.map_nil, String.join,
    List.foldl_cons, List.foldl_nil, String.empty_append]
  rfl

theorem keep_all (c : Config) : c.keep (fun _ => true) = c :=
  rfl

/-! ## 3. Reading -/

theorem isRead_string {key : String} (hkey : Toml.IsBare key) (s : String) :
    Line.IsRead ⟨key, writeString s, .string s⟩ where
  key := hkey
  head := by
    obtain ⟨q, t, ht, hquote⟩ := Toml.exists_quote s
    exact ⟨q, t, ht, Toml.isSolid_quote hquote⟩
  value n rest hn := by
    obtain ⟨q, t, ht, -⟩ := Toml.exists_quote s
    obtain ⟨n, rfl⟩ : ∃ m, n = m + 1 := by
      rw [ht, List.length_cons] at hn
      exact ⟨n - 1, by omega⟩
    exact Toml.readValue_writeString n _ s (by simp)

theorem isRead_array {key : String} (hkey : Toml.IsBare key) (items : List String) :
    Line.IsRead ⟨key, arrayText items, .array (items.map .string)⟩ where
  key := hkey
  head := by
    obtain ⟨t, ht⟩ : ∃ t, (arrayText items).toList = '[' :: t := by
      match items with
      | [] => exact ⟨_, rfl⟩
      | [item] => exact ⟨_, by simp [arrayText]; rfl⟩
      | first :: second :: items => exact ⟨_, by simp [arrayText]; rfl⟩
    exact ⟨'[', t, ht, by decide⟩
  value n rest hn := readValue_arrayText hn _

theorem isRead_line (c : Config) (x : Setting) : (x.line c).IsRead := by
  cases x with
  | output => exact isRead_string (by decide) _
  | excluded => exact isRead_array (by decide) _
  | skipped => exact isRead_array (by decide) _
  | patterns => exact isRead_array (by decide) _
  | language => exact isRead_string (by decide) _

theorem toList_entryText (x : Setting) :
    (entryText x.key (x.line c).text).toList = (x.line c).chars := by
  show (x.key ++ " = " ++ (x.line c).text ++ "\n").toList = _
  rw [String.toList_append, String.toList_append, String.toList_append, List.append_assoc,
    List.append_assoc]
  rfl

theorem keptText_eq (c : Config) (kept : Setting → Bool) : c.keptText kept =
    String.ofList (((Setting.all.filter kept).map (Setting.line c)).flatMap Line.chars) := by
  rw [← String.toList_inj, String.toList_ofList, keptText, String.toList_join, List.flatMap_map,
    List.flatMap_map]
  simp only [toList_entryText]

/-- The entries of a text with some settings kept. -/
def keptEntries (c : Config) (kept : Setting → Bool) : Toml.Entries :=
  ((Setting.all.filter kept).map (Setting.line c)).map Line.node

theorem read_keptText (c : Config) (kept : Setting → Bool) :
    Toml.read (c.keptText kept) = some (c.keptEntries kept) := by
  have hkeys : (Setting.all.map Setting.key).Nodup := by decide
  rw [keptText_eq, Toml.read_lines]
  · rfl
  · intro l hl
    obtain ⟨x, -, rfl⟩ := List.mem_map.1 hl
    exact isRead_line c x
  · rw [List.map_map]
    exact hkeys.sublist (List.filter_sublist.map _)

theorem key_injective : Function.Injective Setting.key := by
  intro x y
  cases x <;> cases y <;> decide

theorem lookup_line (c : Config) (xs : List Setting) (x : Setting) :
    ((xs.map (Setting.line c)).map Line.node).lookup x.key =
      if x ∈ xs then some (.value (x.line c).value) else none := by
  induction xs with
  | nil => rfl
  | cons y ys ih =>
      rw [List.map_cons, List.map_cons]
      by_cases hxy : x = y
      · subst hxy
        rw [if_pos List.mem_cons_self]
        exact List.lookup_cons_self
      · have hkey : (x.key == y.key) = false := beq_eq_false_iff_ne.2 fun h => hxy (key_injective h)
        have hlookup : ((y.line c).node :: (ys.map (Setting.line c)).map Line.node).lookup x.key =
            ((ys.map (Setting.line c)).map Line.node).lookup x.key := by
          show (match x.key == y.key with | true => _ | false => _) = _
          rw [hkey]
        rw [hlookup, ih]
        simp only [List.mem_cons, hxy, false_or]

/-- **A setting is found if its line was kept.** -/
theorem get?_keptEntries (c : Config) (kept : Setting → Bool) (x : Setting) :
    (c.keptEntries kept).get? x.key = if kept x then some (.value (x.line c).value) else none := by
  have hmem : x ∈ Setting.all.filter kept ↔ kept x = true := by
    have hall : x ∈ Setting.all := by cases x <;> decide
    rw [List.mem_filter, and_iff_right hall]
  rw [Toml.Entries.get?, keptEntries, lookup_line]
  simp only [hmem]

theorem setting_keptEntries (kept : Setting → Bool) {α : Type} (value? : Value → Option α) (x : Setting)
    {a : α} (h : value? (x.line c).value = some a) (otherwise : α) :
    setting (c.keptEntries kept) x.key value? otherwise = some (if kept x then a else otherwise) := by
  rw [setting, get?_keptEntries]
  split_ifs with hx
  · exact h
  · rfl

theorem strings?_array (items : List String) : strings? (.array (items.map .string)) = some items := by
  show (items.map Value.string).mapM string? = some items
  induction items with
  | nil => rfl
  | cons item items ih =>
      rw [List.map_cons, List.mapM_cons, ih]
      rfl

/-- **A text with some lines kept has the settings of these, and else those of a build that nothing is asked
of.** -/
theorem ofText_keptText (c : Config) (kept : Setting → Bool) :
    ofText (c.keptText kept) = some (c.keep kept) := by
  have houtput := setting_keptEntries (c := c) kept string? .output rfl
  have hexcluded := setting_keptEntries kept strings? .excluded (strings?_array c.excludedDirectories)
  have hskipped := setting_keptEntries kept strings? .skipped (strings?_array c.skippedFiles)
  have hpatterns := setting_keptEntries kept strings? .patterns (strings?_array c.imagePatterns)
  have hlanguage := setting_keptEntries (c := c) kept string? .language rfl
  rw [ofText, read_keptText, Option.bind_some, ofEntries]
  dsimp only [Setting.key] at houtput hexcluded hskipped hpatterns hlanguage
  rw [houtput, hexcluded, hskipped, hpatterns, hlanguage]
  rfl

/-- **A configuration is read back from its text.** -/
theorem ofText_text (c : Config) : ofText c.text = some c := by
  rw [← keptText_all, ofText_keptText, keep_all]

end Quire.Config
