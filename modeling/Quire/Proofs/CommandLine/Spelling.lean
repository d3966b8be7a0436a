import Mathlib.Data.List.Perm.Basic
import Quire.CommandLine.Arguments

/-!
# Words in any order and spelling

What is given after a verb, an operand, a switch or an option with its value, may be written in more than
one way and stand in any order. What was taken last is not looked at yet, so words are followed through
states that come to the same once they are settled: **if what was taken settles to certain parts, then the
words of one more settle to these and that one** (`take_part`), however it is spelled, and so do the words
of any number (`take_parts`).

So **a build is read alike in any order and spelling** (`read_build`): what is read has the values that
were given, and nothing else.
-/

namespace Quire.CommandLine

/-! ## 1. What is given, and how it is written -/

/-- Whether a word can be the value of an option, or an operand, wherever it stands: it is not empty, and
begins neither with a dash nor with an equals sign. -/
def IsValue (s : String) : Prop :=
  s ≠ "" ∧ s.toList.head? ≠ some '-' ∧ s.toList.head? ≠ some '='

instance (s : String) : Decidable (IsValue s) :=
  inferInstanceAs (Decidable (_ ∧ _ ∧ _))

namespace Opt

/-- A switch or option by its letter, if it has one and is to go by it, or else by its long name. -/
def named (o : Opt) (byLetter : Bool) : String :=
  match byLetter, o.short? with
  | true, some c => "-" ++ String.singleton c
  | _, _ => "--" ++ o.long

/-- An option with its value in the same word. -/
def joined (o : Opt) (byLetter : Bool) (value : String) : String :=
  match byLetter, o.short? with
  | true, some c => "-" ++ String.singleton c ++ value
  | _, _ => "--" ++ o.long ++ "=" ++ value

end Opt

/-- Something that is given, and how it is written. -/
inductive Part where
  | operand (s : String)
  | switch (o : Opt) (byLetter : Bool)
  | option (o : Opt) (value : String) (byLetter isJoined : Bool)
  deriving DecidableEq

namespace Part

/-- The words of a part. -/
def words : Part → List String
  | operand s => [s]
  | switch o byLetter => [o.named byLetter]
  | option o value byLetter isJoined =>
    if isJoined then [o.joined byLetter value] else [o.named byLetter, value]

/-- What is given by a part, of which only one may be given. -/
def slot : Part → Option Opt
  | operand _ => none
  | switch o _ => some o
  | option o _ _ _ => some o

def operand? : Part → Option String
  | operand s => some s
  | _ => none

def switch? : Part → Option Opt
  | switch o _ => some o
  | _ => none

def value? : Part → Option (Opt × String)
  | option o value _ _ => some (o, value)
  | _ => none

/-- The value of a part for an option. -/
def valueOf? (o : Opt) : Part → Option String
  | option o' value _ _ => if o' = o then some value else none
  | _ => none

/-- Whether a part has a place where some options and so many operands do. -/
def Fits (options : List Opt) (places : Nat) : Part → Prop
  | operand s => 0 < places ∧ IsValue s
  | switch o _ => o ∈ options ∧ o.takesValue = false ∧ o ≠ .help ∧ o ≠ .version
  | option o value _ _ => o ∈ options ∧ o.takesValue = true ∧ IsValue value

end Part

/-- What parts come to once all is settled. -/
def Given.of (ps : List Part) : Given where
  switches := ps.filterMap Part.switch?
  values := ps.filterMap Part.value?
  operand := (ps.filterMap Part.operand?).head?

/-! ## 2. Words -/

theorem exists_of_isValue {s : String} (h : IsValue s) :
    ∃ c cs, s.toList = c :: cs ∧ c ≠ '-' ∧ c ≠ '=' := by
  obtain ⟨hne, hdash, hequals⟩ := h
  cases hs : s.toList with
  | nil => exact absurd (String.toList_eq_nil_iff.1 hs) hne
  | cons c cs =>
      rw [hs, List.head?_cons] at hdash hequals
      exact ⟨c, cs, rfl, fun e => hdash (e ▸ rfl), fun e => hequals (e ▸ rfl)⟩

theorem isEmpty_of_isValue {s : String} (h : IsValue s) : s.isEmpty = false :=
  String.isEmpty_eq_false_iff.2 h.1

theorem ofString_of_isValue {s : String} (h : IsValue s) : Word.ofString s = .plain := by
  obtain ⟨c, cs, hs, hdash, -⟩ := exists_of_isValue h
  simp only [Word.ofString, hs]
  split
  · rename_i he
    exact absurd (List.cons.inj he).1 hdash
  · rename_i he
    exact absurd (List.cons.inj he).1 hdash
  · rename_i he
    exact absurd (List.cons.inj he).1 hdash
  · rfl

/-- A dash and something else than a second one: letters. -/
theorem ofString_letters {word : String} {c : Char} {cs : List Char} (hword : word.toList = '-' :: c :: cs)
    (hc : c ≠ '-') : Word.ofString word = .letters (c :: cs) := by
  rw [Word.ofString, hword]
  split
  · rename_i he
    exact absurd (List.cons.inj (List.cons.inj he).2).1 hc
  · rename_i he
    exact absurd (List.cons.inj (List.cons.inj he).2).1 hc
  · rename_i he
    rw [(List.cons.inj he).2]
  · rename_i hother
    exact absurd rfl (hother c cs)

theorem splitAtEquals_append {name : List Char} (h : '=' ∉ name) (value : List Char) :
    splitAtEquals (name ++ '=' :: value) = (name, some value) := by
  induction name with
  | nil => rfl
  | cons c name ih =>
      rw [List.mem_cons, not_or] at h
      rw [List.cons_append, splitAtEquals, ih h.2]
      exact fun hc => h.1 hc.symm

namespace Opt

/-- No long name holds an equals sign, and none is empty. -/
theorem toList_long (o : Opt) : ∃ c cs, o.long.toList = c :: cs ∧ '=' ∉ c :: cs := by
  cases o <;> exact ⟨_, _, rfl, by decide⟩

theorem long_injective {a b : Opt} (h : a.long = b.long) : a = b := by
  revert h
  cases a <;> cases b <;> decide

theorem short?_injective {a b : Opt} {c : Char} (ha : a.short? = some c) (hb : b.short? = some c) :
    a = b := by
  rw [← hb] at ha
  revert ha hb
  cases a <;> cases b <;> simp [short?]

theorem ne_dash_of_short? {o : Opt} {c : Char} (h : o.short? = some c) : c ≠ '-' := by
  rintro rfl
  revert h
  cases o <;> decide

/-- **A name is read as itself**: the letter, or the long name. -/
theorem ofString_named (o : Opt) (byLetter : Bool) :
    (∃ c, o.short? = some c ∧ Word.ofString (o.named byLetter) = .letters [c]) ∨
      Word.ofString (o.named byLetter) = .long o.long none := by
  cases byLetter with
  | false => exact .inr (by cases o <;> decide)
  | true =>
      cases hshort : o.short? with
      | none => exact .inr (by revert hshort; cases o <;> decide)
      | some c =>
          refine .inl ⟨c, rfl, ofString_letters ?_ (ne_dash_of_short? hshort)⟩
          simp [named, hshort]

theorem ofString_long_joined (o : Opt) (value : String) :
    Word.ofString ("--" ++ o.long ++ "=" ++ value) = .long o.long (some value) := by
  obtain ⟨c, cs, hlong, hequals⟩ := o.toList_long
  have hchars : ("--" ++ o.long ++ "=" ++ value).toList =
      '-' :: '-' :: (c :: cs ++ '=' :: value.toList) := by
    simp [hlong]
  have hword : Word.ofString ("--" ++ o.long ++ "=" ++ value) =
      .long (String.ofList (splitAtEquals (c :: cs ++ '=' :: value.toList)).1)
        ((splitAtEquals (c :: cs ++ '=' :: value.toList)).2.map String.ofList) := by
    rw [Word.ofString, hchars]
    rfl
  rw [hword, splitAtEquals_append hequals, ← hlong, String.ofList_toList, Option.map_some,
    String.ofList_toList]

/-- **A name with its value in the same word is read as both.** -/
theorem ofString_joined (o : Opt) (byLetter : Bool) (value : String) :
    (∃ c, o.short? = some c ∧
      Word.ofString (o.joined byLetter value) = .letters (c :: value.toList)) ∨
        Word.ofString (o.joined byLetter value) = .long o.long (some value) := by
  cases byLetter with
  | false => exact .inr (o.ofString_long_joined value)
  | true =>
      cases hshort : o.short? with
      | none =>
          simp only [joined, hshort]
          exact .inr (o.ofString_long_joined value)
      | some c =>
          refine .inl ⟨c, rfl, ofString_letters ?_ (ne_dash_of_short? hshort)⟩
          simp [joined, hshort]

end Opt

/-! ## 3. Taking words -/

section Taking

variable {options : List Opt} {places : Nat} {refusal : Refusal} {g g' : Given} {o : Opt}
  {ps qs : List Part} {p : Part}

theorem find?_eq_some {P : Opt → Bool} (ho : o ∈ options) (hP : P o = true)
    (honly : ∀ x, P x = true → x = o) : options.find? P = some o := by
  cases hfind : options.find? P with
  | none => exact absurd hP (List.find?_eq_none.1 hfind o ho)
  | some x => rw [honly x (List.find?_some hfind)]

theorem find?_long (ho : o ∈ options) : options.find? (fun x => x.long == o.long) = some o :=
  find?_eq_some ho BEq.rfl fun _ hx => Opt.long_injective (eq_of_beq hx)

theorem find?_short? (ho : o ∈ options) {c : Char} (hc : o.short? = some c) :
    options.find? (fun x => x.short? == some c) = some o :=
  find?_eq_some ho (by rw [hc]; exact BEq.rfl) fun _ hx => Opt.short?_injective (eq_of_beq hx) hc

/-- **A name does the same by its letter and by its long name.** -/
theorem take_named (hopen : g.escaped = false) (ho : o ∈ options) (byLetter : Bool) :
    g.take options places refusal (o.named byLetter) =
      if o.takesValue then g.addOption o none else g.addSwitch o := by
  rw [Given.take, hopen, if_neg Bool.false_ne_true]
  rcases o.ofString_named byLetter with ⟨c, hc, hword⟩ | hword
  · rw [hword]
    simp only [Given.addLetters, find?_short? ho hc]
    split
    · rfl
    · cases g.addSwitch o <;> rfl
  · rw [hword]
    simp only [find?_long ho]
    rfl

/-- **So it does with its value in the same word.** -/
theorem take_joined (hopen : g.escaped = false) (ho : o ∈ options) (htakes : o.takesValue = true)
    {value : String} (hvalue : IsValue value) (byLetter : Bool) :
    g.take options places refusal (o.joined byLetter value) = g.addOption o (some value) := by
  rw [Given.take, hopen, if_neg Bool.false_ne_true]
  rcases o.ofString_joined byLetter value with ⟨c, hc, hword⟩ | hword
  · obtain ⟨d, ds, hchars, -, hequals⟩ := exists_of_isValue hvalue
    rw [hword]
    simp only [Given.addLetters, find?_short? ho hc, htakes, if_true]
    -- the value begins with no equals sign, so none is taken off it
    rw [hchars]
    split
    · rename_i he
      cases he
    · rename_i he
      exact absurd (List.cons.inj he).1 hequals
    · rw [← hchars, String.ofList_toList]
  · rw [hword]
    simp only [find?_long ho, htakes, if_true]

theorem eq_of_addValue {value : String} (h : g.addValue o value = .ok g') :
    g' = { g with values := g.values ++ [(o, value)] } := by
  rw [Given.addValue] at h
  split at h
  · cases h
  · split at h
    · cases h
    · cases h
      rfl

/-- What a state has is told from what it comes to once it is settled. -/
theorem of_settle (h : g.settle = .ok g') :
    g.escaped = g'.escaped ∧ g.switches = g'.switches ∧ g.hasOperand = g'.operand.isSome ∧
      ∀ o, g.pending ≠ .option o none := by
  simp only [Given.settle] at h
  rw [Given.hasOperand]
  cases hpending : g.pending with
  | nothing =>
      rw [hpending] at h
      cases h
      exact ⟨rfl, rfl, rfl, fun _ => Pending.noConfusion⟩
  | option o value =>
      rw [hpending] at h
      cases value with
      | none => cases h
      | some value =>
          rw [eq_of_addValue h]
          exact ⟨rfl, rfl, rfl, fun _ he => by cases he⟩
  | operand s =>
      rw [hpending] at h
      dsimp only at h
      split at h
      · cases h
      · cases h
        exact ⟨rfl, rfl, rfl, fun _ => Pending.noConfusion⟩

theorem addValue_eq_ok {value : String} (hfresh : g.values.lookup o = none) (hvalue : IsValue value) :
    g.addValue o value = .ok { g with values := g.values ++ [(o, value)] } := by
  rw [Given.addValue, hfresh, isEmpty_of_isValue hvalue, Bool.and_false, if_neg (by simp), if_neg (by simp)]

theorem addSwitch_eq_ok (h : g.settle = .ok g') (hhelp : o ≠ .help) (hversion : o ≠ .version)
    (hfresh : o ∉ g'.switches) :
    g.addSwitch o = .ok { g' with switches := g'.switches ++ [o] } := by
  have hcontains : g'.switches.contains o = false := by simpa using hfresh
  rw [Given.addSwitch, h]
  cases o with
  | help => exact absurd rfl hhelp
  | version => exact absurd rfl hversion
  | _ => exact if_neg (by rw [hcontains]; exact Bool.false_ne_true)

theorem addOption_none (h : g.settle = .ok g') (o : Opt) :
    g.addOption o none = .ok { g' with pending := .option o none } := by
  rw [Given.addOption, h]
  rfl

theorem addOption_some (h : g.settle = .ok g') (o : Opt) (value : String) :
    g.addOption o (some value) = g'.addValue o value := by
  rw [Given.addOption, h]
  rfl

theorem addOperand_eq_ok (h : g.settle = .ok g') (hplaces : 0 < places) (hfresh : g'.operand = none)
    (s : String) : g.addOperand places refusal s = .ok { g' with pending := .operand s } := by
  obtain ⟨-, -, hoperand, -⟩ := of_settle h
  rw [hfresh] at hoperand
  rw [Given.addOperand, hoperand, if_neg (by simp; omega), h]
  rfl

/-- A word that can be a value is the value of the option before it, if that has none. -/
theorem take_value (hopen : g.escaped = false) (hpending : g.pending = .option o none) {s : String}
    (hvalue : IsValue s) :
    g.take options places refusal s = .ok { g with pending := .option o (some s) } := by
  simp only [Given.take, hopen, ofString_of_isValue hvalue, hpending, Bool.false_eq_true, if_false]

/-- Otherwise it is an operand. -/
theorem take_operand (hopen : g.escaped = false) (hpending : ∀ o, g.pending ≠ .option o none)
    {s : String} (hvalue : IsValue s) :
    g.take options places refusal s = g.addOperand places refusal s := by
  simp only [Given.take, hopen, ofString_of_isValue hvalue, Bool.false_eq_true, if_false]

/-! ## 4. Parts -/

theorem settle_of (ps : List Part) : (Given.of ps).settle = .ok (Given.of ps) :=
  rfl

theorem operand_of_fresh (h : none ∉ ps.map Part.slot) : (Given.of ps).operand = none := by
  have hnone : ps.filterMap Part.operand? = [] := by
    refine List.filterMap_eq_nil_iff.2 fun p hp => ?_
    cases p with
    | operand s => exact absurd (List.mem_map_of_mem hp) h
    | switch o byLetter => rfl
    | option o value byLetter isJoined => rfl
  rw [Given.of, hnone]
  rfl

theorem not_mem_switches (h : some o ∉ ps.map Part.slot) : o ∉ (Given.of ps).switches := by
  intro ho
  obtain ⟨p, hp, he⟩ := List.mem_filterMap.1 ho
  cases p with
  | switch o' byLetter =>
      obtain rfl := Option.some.inj he
      exact h (List.mem_map_of_mem hp)
  | operand s => cases he
  | option o' value byLetter isJoined => cases he

theorem lookup_of_fresh (h : some o ∉ ps.map Part.slot) : (Given.of ps).values.lookup o = none := by
  refine List.lookup_eq_none_iff.2 fun e he => ?_
  obtain ⟨p, hp, he⟩ := List.mem_filterMap.1 he
  cases p with
  | option o' value byLetter isJoined =>
      obtain rfl := Option.some.inj he
      refine bne_iff_ne.2 fun ho => ?_
      exact h (ho ▸ List.mem_map_of_mem hp)
  | operand s => cases he
  | switch o' byLetter => cases he

theorem of_concat_operand (hfresh : (Given.of ps).operand = none) (s : String) :
    Given.of (ps ++ [.operand s]) = { Given.of ps with operand := some s } := by
  have hnone : ps.filterMap Part.operand? = [] := List.head?_eq_none_iff.1 hfresh
  simp [Given.of, List.filterMap_append, Part.operand?, Part.switch?, Part.value?, hnone]

theorem of_concat_switch (ps : List Part) (o : Opt) (byLetter : Bool) :
    Given.of (ps ++ [.switch o byLetter]) =
      { Given.of ps with switches := (Given.of ps).switches ++ [o] } := by
  simp [Given.of, List.filterMap_append, Part.operand?, Part.switch?, Part.value?]

theorem of_concat_option (ps : List Part) (o : Opt) (value : String) (byLetter isJoined : Bool) :
    Given.of (ps ++ [.option o value byLetter isJoined]) =
      { Given.of ps with values := (Given.of ps).values ++ [(o, value)] } := by
  simp [Given.of, List.filterMap_append, Part.operand?, Part.switch?, Part.value?]

theorem slot_not_mem (h : ((ps ++ p :: qs).map Part.slot).Nodup) : p.slot ∉ ps.map Part.slot := by
  intro hmem
  rw [List.map_append, List.map_cons, List.nodup_append] at h
  exact h.2.2 _ hmem _ List.mem_cons_self rfl

/-- **The words of a part settle to it**, if nothing was given in its place, whatever is not looked at
yet. -/
theorem take_part (h : g.settle = .ok (Given.of ps)) (hfits : p.Fits options places)
    (hfresh : p.slot ∉ ps.map Part.slot) :
    ∃ g', p.words.foldlM (Given.take options places refusal) g = .ok g' ∧
      g'.settle = .ok (Given.of (ps ++ [p])) := by
  obtain ⟨hopen, -, -, hpending⟩ := of_settle h
  have hopen : g.escaped = false := hopen
  cases p with
  | operand s =>
      obtain ⟨hplaces, hvalue⟩ := hfits
      have hnone := operand_of_fresh hfresh
      have hempty : s.isEmpty = false := isEmpty_of_isValue hvalue
      -- an operand is held until something else is taken or all is at an end
      refine ⟨{ Given.of ps with pending := .operand s }, ?_, ?_⟩
      · rw [Part.words, List.foldlM_cons, take_operand hopen hpending hvalue,
          addOperand_eq_ok h hplaces hnone]
        rfl
      · rw [of_concat_operand hnone, Given.settle]
        dsimp only
        rw [hempty]
        rfl
  | switch o byLetter =>
      obtain ⟨ho, htakes, hhelp, hversion⟩ := hfits
      refine ⟨Given.of (ps ++ [.switch o byLetter]), ?_, settle_of _⟩
      rw [Part.words, List.foldlM_cons, take_named hopen ho, htakes, if_neg Bool.false_ne_true,
        addSwitch_eq_ok h hhelp hversion (not_mem_switches hfresh), of_concat_switch]
      rfl
  | option o value byLetter isJoined =>
      obtain ⟨ho, htakes, hvalue⟩ := hfits
      have hadd := addValue_eq_ok (lookup_of_fresh hfresh) hvalue
      rw [← of_concat_option ps o value byLetter isJoined] at hadd
      cases isJoined with
      | true =>
          -- in the same word a value is looked at at once
          refine ⟨Given.of (ps ++ [.option o value byLetter true]), ?_, settle_of _⟩
          rw [Part.words, if_pos rfl, List.foldlM_cons, take_joined hopen ho htakes hvalue,
            addOption_some h, hadd]
          rfl
      | false =>
          -- in a word of its own it is held, as an operand is
          refine ⟨{ Given.of ps with pending := .option o (some value) }, ?_, hadd⟩
          rw [Part.words, if_neg Bool.false_ne_true, List.foldlM_cons, take_named hopen ho, htakes,
            if_pos rfl, addOption_none h]
          show Given.take options places refusal { Given.of ps with pending := .option o none } value >>=
            pure = _
          rw [take_value rfl rfl hvalue]
          rfl

/-- **So do the words of any number of parts**, of which no two are given in one place. -/
theorem take_parts (refusal : Refusal) (h : g.settle = .ok (Given.of ps))
    (hfits : ∀ q ∈ qs, q.Fits options places) (hnodup : ((ps ++ qs).map Part.slot).Nodup) :
    ∃ g', (qs.flatMap Part.words).foldlM (Given.take options places refusal) g = .ok g' ∧
      g'.settle = .ok (Given.of (ps ++ qs)) := by
  induction qs generalizing g ps with
  | nil => exact ⟨g, rfl, by rw [List.append_nil, h]⟩
  | cons q qs ih =>
      rw [List.forall_mem_cons] at hfits
      obtain ⟨g₁, htake, hsettle⟩ := take_part h hfits.1 (slot_not_mem hnodup)
      rw [List.append_cons] at hnodup ⊢
      obtain ⟨g₂, hmore, hsettle'⟩ := ih hsettle hfits.2 hnodup
      refine ⟨g₂, ?_, hsettle'⟩
      rw [List.flatMap_cons, List.foldlM_append, htake]
      exact hmore

/-- **Before the verb, the words of the switch that may stand there settle to it.** -/
theorem readFrom_flags (h : g.settle = .ok (Given.of ps))
    (hflags : ∀ q ∈ qs, ∃ byLetter, q = .switch .verbose byLetter)
    (hnodup : ((ps ++ qs).map Part.slot).Nodup) (words : List String) :
    ∃ g', readFrom g (qs.flatMap Part.words ++ words) = readFrom g' words ∧
      g'.settle = .ok (Given.of (ps ++ qs)) := by
  induction qs generalizing g ps with
  | nil => exact ⟨g, rfl, by rw [List.append_nil, h]⟩
  | cons q qs ih =>
      rw [List.forall_mem_cons] at hflags
      obtain ⟨⟨byLetter, rfl⟩, hflags⟩ := hflags
      have hopen : g.escaped = false := (of_settle h).1
      have hnext := addSwitch_eq_ok h (by decide) (by decide) (not_mem_switches (slot_not_mem hnodup))
      have htake (refusal : Refusal) : g.take leadingOptions 0 refusal (Opt.verbose.named byLetter) =
          .ok (Given.of (ps ++ [.switch .verbose byLetter])) := by
        rw [take_named hopen (by decide), if_neg (by decide), hnext, of_concat_switch]
      rw [List.append_cons] at hnodup ⊢
      obtain ⟨g₂, hmore, hsettle⟩ := ih (settle_of _) hflags hnodup
      refine ⟨g₂, ?_, hsettle⟩
      have hhelp : Opt.verbose.named byLetter ≠ helpWord := by cases byLetter <;> decide
      have hverb : Verb.ofWord? (Opt.verbose.named byLetter) = none := by cases byLetter <;> decide
      rw [List.flatMap_cons, Part.words, List.singleton_append, List.cons_append, readFrom, hopen, hverb,
        htake, ← hmore]
      simp [hhelp]

theorem readFrom_verb (hopen : g.escaped = false) (v : Verb) (words : List String) :
    readFrom g (v.word :: words) = v.read (g.switches.contains .verbose) words := by
  have hhelp : v.word ≠ helpWord := by cases v <;> decide
  have hverb : Verb.ofWord? v.word = some v := by cases v <;> decide
  rw [readFrom, hopen, hverb]
  simp [hhelp]

end Taking

/-! ## 5. Builds -/

/-- What a build is asked for. -/
structure Request where
  dir : Option String
  config : Option String
  out : Option String
  lang : Option String
  verbose : Bool

namespace Request

/-- All values that are given. -/
def values (q : Request) : List String :=
  [q.dir, q.config, q.out, q.lang].filterMap id

/-- The parts of a request, each spelled in some way. -/
def parts (q : Request) (byLetter isJoined : Opt → Bool) : List Part :=
  let option (o : Opt) (value : Option String) : List Part :=
    value.toList.map fun value => .option o value (byLetter o) (isJoined o)
  q.dir.toList.map .operand ++ (option .config q.config ++ (option .out q.out ++ (option .lang q.lang ++
    if q.verbose then [.switch .verbose (byLetter .verbose)] else [])))

/-- What is to be done. -/
def invocation (q : Request) : Invocation :=
  ⟨q.verbose, .build (q.dir.getD standardDir) q.config q.out q.lang⟩

end Request

variable {q : Request} {byLetter isJoined : Opt → Bool} {before after : List Part}

theorem nodup_slots (q : Request) (byLetter isJoined : Opt → Bool) :
    ((q.parts byLetter isJoined).map Part.slot).Nodup := by
  obtain ⟨dir, config, out, lang, verbose⟩ := q
  cases dir <;> cases config <;> cases out <;> cases lang <;> cases verbose <;>
    simp [Request.parts, Part.slot]

theorem fits_parts (hvalues : ∀ v ∈ q.values, IsValue v) :
    ∀ p ∈ q.parts byLetter isJoined, p.Fits Verb.build.options 1 := by
  have hvalue {v : String} (hv : some v ∈ [q.dir, q.config, q.out, q.lang]) : IsValue v :=
    hvalues v (List.mem_filterMap.2 ⟨_, hv, rfl⟩)
  intro p hp
  simp only [Request.parts, List.mem_append, List.mem_map, Option.mem_toList] at hp
  rcases hp with ⟨v, hv, rfl⟩ | ⟨v, hv, rfl⟩ | ⟨v, hv, rfl⟩ | ⟨v, hv, rfl⟩ | hp
  · exact ⟨by decide, hvalue (by simp [hv])⟩
  · exact ⟨by decide, by decide, hvalue (by simp [hv])⟩
  · exact ⟨by decide, by decide, hvalue (by simp [hv])⟩
  · exact ⟨by decide, by decide, hvalue (by simp [hv])⟩
  · split at hp
    · rw [List.mem_singleton.1 hp]
      exact ⟨by decide, by decide, by decide, by decide⟩
    · cases hp

/-- What no switch gives is given behind the verb, and at most once. -/
theorem head?_filterMap_of_perm {α : Type} {f : Part → Option α} {value : Option α}
    (horder : (before ++ after).Perm (q.parts byLetter isJoined))
    (hbefore : ∀ p ∈ before, ∃ byLetter, p = .switch .verbose byLetter)
    (hf : ∀ byLetter, f (.switch .verbose byLetter) = none)
    (hparts : (q.parts byLetter isJoined).filterMap f = value.toList) :
    (after.filterMap f).head? = value := by
  have hnone : before.filterMap f = [] := by
    refine List.filterMap_eq_nil_iff.2 fun p hp => ?_
    obtain ⟨b, rfl⟩ := hbefore p hp
    exact hf b
  have hperm := horder.filterMap f
  rw [List.filterMap_append, hnone, List.nil_append, hparts] at hperm
  cases value with
  | none => rw [List.perm_nil.1 hperm]; rfl
  | some a => rw [List.perm_singleton.1 hperm]; rfl

theorem lookup_eq_head? (ps : List Part) (o : Opt) :
    (Given.of ps).values.lookup o = (ps.filterMap (Part.valueOf? o)).head? := by
  show (ps.filterMap Part.value?).lookup o = _
  induction ps with
  | nil => rfl
  | cons p ps ih =>
      cases p with
      | operand s => exact ih
      | switch o' b => exact ih
      | option o' value b j =>
          rw [List.filterMap_cons, List.filterMap_cons, Part.value?, Part.valueOf?, List.lookup_cons]
          by_cases ho : o' = o
          · simp [ho]
          · have hne : (o == o') = false := beq_eq_false_iff_ne.2 fun e => ho e.symm
            rw [hne, if_neg ho]
            exact ih

/-- What the parts of a request give, place by place. -/
theorem filterMap_parts (q : Request) (byLetter isJoined : Opt → Bool) :
    (q.parts byLetter isJoined).filterMap Part.operand? = q.dir.toList ∧
    (q.parts byLetter isJoined).filterMap (Part.valueOf? .config) = q.config.toList ∧
    (q.parts byLetter isJoined).filterMap (Part.valueOf? .out) = q.out.toList ∧
    (q.parts byLetter isJoined).filterMap (Part.valueOf? .lang) = q.lang.toList := by
  obtain ⟨dir, config, out, lang, verbose⟩ := q
  cases dir <;> cases config <;> cases out <;> cases lang <;> cases verbose <;>
    exact ⟨rfl, rfl, rfl, rfl⟩

theorem filterMap_switch?_parts (q : Request) (byLetter isJoined : Opt → Bool) :
    (q.parts byLetter isJoined).filterMap Part.switch? = if q.verbose then [.verbose] else [] := by
  obtain ⟨dir, config, out, lang, verbose⟩ := q
  cases dir <;> cases config <;> cases out <;> cases lang <;> cases verbose <;> rfl

/-- The switch is given before the verb or behind it. -/
theorem contains_of_perm (horder : (before ++ after).Perm (q.parts byLetter isJoined)) :
    ((Given.of before).switches.contains .verbose || (Given.of after).switches.contains .verbose) =
      q.verbose := by
  have hperm := horder.filterMap Part.switch?
  rw [List.filterMap_append, filterMap_switch?_parts] at hperm
  have hmem : .verbose ∈ before.filterMap Part.switch? ∨ .verbose ∈ after.filterMap Part.switch? ↔
      q.verbose = true := by
    rw [← List.mem_append, hperm.mem_iff]
    cases q.verbose <;> simp
  rw [Bool.eq_iff_iff, Bool.or_eq_true, List.contains_iff_mem, List.contains_iff_mem]
  exact hmem

/-- **A build is read alike in any order and spelling.** Each value that is given can be written with its
name or its letter before it, in the same word or in one of its own, and all parts stand behind the verb
in any order; the switch may also stand before the verb. What is read has the values that were given, and
nothing else. -/
theorem read_build (hvalues : ∀ v ∈ q.values, IsValue v)
    (horder : (before ++ after).Perm (q.parts byLetter isJoined))
    (hbefore : ∀ p ∈ before, ∃ byLetter, p = .switch .verbose byLetter) :
    read (before.flatMap Part.words ++ Verb.build.word :: after.flatMap Part.words) =
      .ok q.invocation := by
  have hnodup : ((before ++ after).map Part.slot).Nodup :=
    (horder.map Part.slot).nodup_iff.2 (nodup_slots q byLetter isJoined)
  rw [List.map_append, List.nodup_append] at hnodup
  have hfits : ∀ p ∈ after, p.Fits Verb.build.options 1 := fun p hp =>
    fits_parts hvalues p (horder.mem_iff.1 (List.mem_append_right before hp))
  -- The words of both sides are followed, each from where nothing is given.
  have hstart : ({} : Given) = Given.of [] := rfl
  obtain ⟨g, hread, hg⟩ := readFrom_flags (settle_of []) hbefore hnodup.1
    (Verb.build.word :: after.flatMap Part.words)
  obtain ⟨hopen, hswitches, -, -⟩ := of_settle hg
  obtain ⟨g', htake, hg'⟩ := take_parts .unknownArgument (settle_of []) hfits hnodup.2.1
  -- What they come to has the values of the request.
  obtain ⟨hdir, hconfig, hout, hlang⟩ := filterMap_parts q byLetter isJoined
  have hoperand : (Given.of after).operand = q.dir :=
    head?_filterMap_of_perm horder hbefore (fun _ => rfl) hdir
  have hlookup {o : Opt} {value : Option String}
      (hparts : (q.parts byLetter isJoined).filterMap (Part.valueOf? o) = value.toList) :
      (Given.of after).values.lookup o = value := by
    rw [lookup_eq_head?]
    exact head?_filterMap_of_perm horder hbefore (fun _ => rfl) hparts
  rw [read, hstart, hread, readFrom_verb hopen, hswitches, Verb.read, hstart, htake]
  show (g'.settle >>= _) = _
  rw [hg']
  show Except.ok (Invocation.mk ((Given.of before).switches.contains .verbose ||
      (Given.of after).switches.contains .verbose)
    (.build ((Given.of after).operand.getD standardDir) ((Given.of after).values.lookup .config)
      ((Given.of after).values.lookup .out) ((Given.of after).values.lookup .lang))) = _
  rw [contains_of_perm horder, hoperand, hlookup hconfig, hlookup hout, hlookup hlang]
  rfl

/-- Every part once, spelled in different ways, the directory after two of the options and a switch in
front. -/
theorem read_build_spelled :
    read ["-v", "build", "--out=site", "-cmine.toml", "help", "--lang", "ts"] =
      .ok ⟨true, .build "help" (some "mine.toml") (some "site") (some "ts")⟩ :=
  @read_build ⟨some "help", some "mine.toml", some "site", some "ts", true⟩
    (fun o => o == .verbose || o == .config) (fun o => o != .lang)
    [.switch .verbose true]
    [.option .out "site" false true, .option .config "mine.toml" true true, .operand "help",
      .option .lang "ts" false false]
    (by decide) (by decide) (by simp)

end Quire.CommandLine
