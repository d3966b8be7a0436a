import Mathlib.Logic.Function.Basic
import Mathlib.Tactic.SplitIfs
import Quire.Proofs.Text.Chars
import Quire.Proofs.Text.Split
import Quire.Text.Quoted

/-!
# Quoted text tells where it ends

A text that is put together from several is taken apart again if each part tells where it ends
(`TellsEnd`): of a text that begins with what is written for a value, the value is known, and so is what
follows. What tells its end can be written in a run, up to a mark that none of the run begins with
(`TellsEnd.run`), and with separators in between (`TellsEnd.separated`).

**A quoted string tells where it ends** (`tellsEnd_quoted`), whatever it holds and whatever follows: what
is written for each of its characters does (`tellsEnd_quotedChar`), and does not begin with a quote. No
character of it is hidden (`shows_quoted`), so it is on one line.
-/

namespace Quire.Text

/-! ## 1. Texts that tell where they end -/

/-- Whether what is written for a value tells where it ends: texts that begin with what is written for two
values are the same only if the values are, and what follows. -/
def TellsEnd {α : Type} (write : α → List Char) : Prop :=
  ∀ ⦃a b : α⦄ ⦃s t : List Char⦄, write a ++ s = write b ++ t → a = b ∧ s = t

/-- Whether all that is written begins with something, and not with a certain mark. -/
def BeginsOtherwise {α : Type} (mark : Char) (write : α → List Char) : Prop :=
  ∀ a, ∃ c s, write a = c :: s ∧ c ≠ mark

theorem intercalate_map_cons {α : Type} (sep : List Char) (write : α → List Char) (a : α) (as : List α) :
    sep.intercalate ((a :: as).map write) = write a ++ as.flatMap fun b => sep ++ write b := by
  induction as generalizing a with
  | nil => simp
  | cons b as ih =>
      rw [List.map_cons, List.map_cons, List.intercalate_cons_cons, ← List.map_cons, ih,
        List.flatMap_cons, List.append_assoc, List.append_assoc]

namespace TellsEnd

variable {α β : Type} {write : α → List Char} {write' : β → List Char} {mark : Char}

theorem injective (h : TellsEnd write) : Function.Injective write := by
  intro a b hab
  exact (h (congrArg (· ++ []) hab)).1

/-- From a string that begins with what is written. -/
theorem of_append {write : α → String} (h : TellsEnd fun a => (write a).toList) {a b : α} {s t : String}
    (hab : write a ++ s = write b ++ t) : a = b ∧ s = t := by
  have hchars := congrArg String.toList hab
  rw [String.toList_append, String.toList_append] at hchars
  obtain ⟨hfirst, hrest⟩ := h hchars
  exact ⟨hfirst, String.toList_inj.1 hrest⟩

/-- What never begins with what is written for another value tells where it ends. -/
theorem of_prefix_free (h : ∀ a b, write a <+: write b → a = b) : TellsEnd write := by
  intro a b s t hab
  have ha : write a <+: write b ++ t := hab ▸ List.prefix_append _ _
  obtain rfl : a = b := by
    rcases List.prefix_or_prefix_of_prefix ha (List.prefix_append _ _) with hpre | hpre
    · exact h a b hpre
    · exact (h b a hpre).symm
  exact ⟨rfl, List.append_cancel_left hab⟩

/-- After a fixed text. -/
theorem after (h : TellsEnd write) (front : List Char) : TellsEnd fun a => front ++ write a := by
  intro a b s t hab
  rw [List.append_assoc, List.append_assoc] at hab
  exact h (List.append_cancel_left hab)

/-- Before a fixed text. -/
theorem before (h : TellsEnd write) (back : List Char) : TellsEnd fun a => write a ++ back := by
  intro a b s t hab
  rw [List.append_assoc, List.append_assoc] at hab
  obtain ⟨ha, hrest⟩ := h hab
  exact ⟨ha, List.append_cancel_left hrest⟩

/-- One after another. -/
theorem pair (h : TellsEnd write) (h' : TellsEnd write') :
    TellsEnd fun p : α × β => write p.1 ++ write' p.2 := by
  rintro ⟨a, a'⟩ ⟨b, b'⟩ s t hab
  rw [List.append_assoc, List.append_assoc] at hab
  obtain ⟨hfirst, hrest⟩ := h hab
  obtain ⟨hsecond, hfollow⟩ := h' hrest
  exact ⟨Prod.ext hfirst hsecond, hfollow⟩

/-- **What is told apart by the text before a mark tells its end with it.** -/
theorem upTo (hinj : Function.Injective write) (hmark : ∀ a, mark ∉ write a) :
    TellsEnd fun a => write a ++ [mark] := by
  intro a b s t hab
  rw [List.append_assoc, List.append_assoc, List.singleton_append, List.singleton_append] at hab
  have hparts := congrArg (splitOn mark) hab
  rw [splitOn_append (hmark a), splitOn_append (hmark b), List.cons.injEq] at hparts
  rw [hparts.1] at hab
  exact ⟨hinj hparts.1, (List.cons.inj (List.append_cancel_left hab)).2⟩

/-- **In a run, the mark that ends it is told from all that could go on.** -/
theorem run (h : TellsEnd write) (hmark : BeginsOtherwise mark write) :
    TellsEnd fun as : List α => as.flatMap write ++ [mark] := by
  have hend (b : α) (s t : List Char) : mark :: s ≠ write b ++ t := by
    obtain ⟨c, u, hb, hc⟩ := hmark b
    rw [hb]
    exact fun he => hc (List.cons.inj he).1.symm
  intro as bs s t hab
  simp only [List.append_assoc, List.singleton_append] at hab
  induction as generalizing bs with
  | nil =>
      cases bs with
      | nil => exact ⟨rfl, (List.cons.inj hab).2⟩
      | cons b bs =>
          rw [List.flatMap_cons, List.append_assoc] at hab
          exact absurd hab (hend b s _)
  | cons a as ih =>
      rw [List.flatMap_cons, List.append_assoc] at hab
      cases bs with
      | nil => exact absurd hab.symm (hend a t _)
      | cons b bs =>
          rw [List.flatMap_cons, List.append_assoc] at hab
          obtain ⟨rfl, hrest⟩ := h hab
          obtain ⟨rfl, hfollow⟩ := ih hrest
          exact ⟨rfl, hfollow⟩

/-- **With separators in between**: behind the first, each goes on with a separator. -/
theorem separated (h : TellsEnd write) (hmark : BeginsOtherwise mark write) {c : Char}
    (hc : c ≠ mark) (sep : List Char) :
    TellsEnd fun as : List α => (c :: sep).intercalate (as.map write) ++ [mark] := by
  have hrun := (h.after (c :: sep)).run fun a => ⟨c, sep ++ write a, rfl, hc⟩
  have hend (b : α) (bs : List α) (s t : List Char) :
      [mark] ++ s ≠ (c :: sep).intercalate ((b :: bs).map write) ++ [mark] ++ t := by
    obtain ⟨d, u, hb, hd⟩ := hmark b
    rw [intercalate_map_cons, hb]
    exact fun he => hd (List.cons.inj he).1.symm
  intro as bs s t hab
  dsimp only at hab
  cases as with
  | nil =>
      cases bs with
      | nil => exact ⟨rfl, (List.cons.inj hab).2⟩
      | cons b bs => exact absurd hab (hend b bs s t)
  | cons a as =>
      cases bs with
      | nil => exact absurd hab.symm (hend a as t s)
      | cons b bs =>
          rw [intercalate_map_cons, intercalate_map_cons, List.append_assoc, List.append_assoc,
            List.append_assoc, List.append_assoc] at hab
          obtain ⟨rfl, hrest⟩ := h hab
          rw [← List.append_assoc, ← List.append_assoc] at hrest
          obtain ⟨rfl, hfollow⟩ := hrun hrest
          exact ⟨rfl, hfollow⟩

end TellsEnd

/-! ## 2. Digits -/

theorem digitChar_injOn : ∀ j < 16, ∀ k < 16, Nat.digitChar j = Nat.digitChar k → j = k := by
  decide

theorem exists_digitChar_of_mem_toDigits {b n : Nat} {c : Char} (hb : 1 < b) (h : c ∈ Nat.toDigits b n) :
    ∃ k < b, c = k.digitChar := by
  induction n using Nat.strongRecOn with
  | ind n ih =>
      by_cases hn : n < b
      · rw [Nat.toDigits_of_lt_base hn, List.mem_singleton] at h
        exact ⟨n, hn, h⟩
      · have hle := Nat.le_of_not_lt hn
        rw [Nat.toDigits_of_base_le hb hle, List.mem_append, List.mem_singleton] at h
        rcases h with h | h
        · exact ih (n / b) (Nat.div_lt_self (by omega) hb) h
        · exact ⟨n % b, Nat.mod_lt n (by omega), h⟩

/-- **A number is told by its digits**: by the last, and by those before it. -/
theorem toDigits_injective {b : Nat} (hb : 1 < b) (hb' : b ≤ 16) : Function.Injective (Nat.toDigits b) := by
  have hdigit {j k : Nat} (hj : j < b) (hk : k < b) (h : j.digitChar = k.digitChar) : j = k :=
    digitChar_injOn j (by omega) k (by omega) h
  have hone {m n : Nat} (hm : m < b) (hn : b ≤ n) : Nat.toDigits b m ≠ Nat.toDigits b n := by
    rw [Nat.toDigits_of_lt_base hm, Nat.toDigits_of_base_le hb hn, ← List.nil_append [_]]
    exact fun he => Nat.toDigits_ne_nil (List.append_inj_left' he rfl).symm
  intro m n h
  induction m using Nat.strongRecOn generalizing n with
  | ind m ih =>
      rcases Nat.lt_or_ge m b with hm | hm <;> rcases Nat.lt_or_ge n b with hn | hn
      · rw [Nat.toDigits_of_lt_base hm, Nat.toDigits_of_lt_base hn, List.singleton_inj] at h
        exact hdigit hm hn h
      · exact absurd h (hone hm hn)
      · exact absurd h.symm (hone hn hm)
      · rw [Nat.toDigits_of_base_le hb hm, Nat.toDigits_of_base_le hb hn] at h
        have hfront := ih (m / b) (Nat.div_lt_self (by omega) hb) (List.append_inj_left' h rfl)
        have hlast := hdigit (Nat.mod_lt m (by omega)) (Nat.mod_lt n (by omega))
          (List.singleton_inj.1 (List.append_inj_right' h rfl))
        rw [← Nat.div_add_mod m b, ← Nat.div_add_mod n b, hfront, hlast]

/-! ## 3. Characters -/

/-- The characters that are written by name, with the letter that stands for each. -/
def namedChars : List (Char × Char) :=
  [('\x00', '0'), ('\t', 't'), ('\r', 'r'), ('\n', 'n'), ('\\', '\\'), ('\x22', '\x22')]

/-- What is written for a character: a backslash with its letter, its number between braces, or the
character itself. -/
inductive IsSpelling : Char → List Char → Prop where
  | named {c e : Char} (h : (c, e) ∈ namedChars) : IsSpelling c ['\\', e]
  | numbered (c : Char) : IsSpelling c (['\\', 'u', '\x7b'] ++ (hexDigits c.toNat ++ ['\x7d']))
  | itself {c : Char} (hslash : c ≠ '\\') (hquote : c ≠ '\x22') (hshown : isHidden c = false) :
      IsSpelling c [c]

theorem isSpelling_quotedChar (c : Char) : IsSpelling c (quotedChar c) := by
  rw [quotedChar]
  split_ifs with h0 ht hr hn hslash hquote hhidden
  · exact .named (by rw [h0]; decide)
  · exact .named (by rw [ht]; decide)
  · exact .named (by rw [hr]; decide)
  · exact .named (by rw [hn]; decide)
  · exact .named (by rw [hslash]; decide)
  · exact .named (by rw [hquote]; decide)
  · rw [List.append_assoc]
    exact .numbered c
  · exact .itself hslash hquote (Bool.eq_false_iff.2 hhidden)

theorem namedChars_inj : ∀ p ∈ namedChars, ∀ q ∈ namedChars, p.2 = q.2 → p.1 = q.1 := by
  decide

/-- No letter of a named character begins a number. -/
theorem ne_u_of_mem_namedChars : ∀ p ∈ namedChars, p.2 ≠ 'u' := by
  decide

theorem tellsEnd_hexDigits : TellsEnd fun c : Char => hexDigits c.toNat ++ ['\x7d'] := by
  refine .upTo (fun c d h => Char.toNat_inj.1 (toDigits_injective (by decide) (by decide) h)) fun c h => ?_
  obtain ⟨k, hk, he⟩ := exists_digitChar_of_mem_toDigits (by decide) h
  have hbrace : ∀ k < 16, '\x7d' ≠ Nat.digitChar k := by decide
  exact hbrace k hk he

/-- **What is written for a character tells where it ends.** -/
theorem tellsEnd_quotedChar : TellsEnd quotedChar := by
  intro c d s t h
  have hc := isSpelling_quotedChar c
  have hd := isSpelling_quotedChar d
  generalize quotedChar c = x at h hc
  generalize quotedChar d = y at h hd
  -- the first character tells a backslash from all else, and the second a number from a name
  cases hc with
  | named hc =>
      cases hd with
      | named hd =>
          simp only [List.cons_append, List.nil_append, List.cons.injEq, true_and] at h
          exact ⟨namedChars_inj _ hc _ hd h.1, h.2⟩
      | numbered =>
          simp only [List.cons_append, List.nil_append, List.cons.injEq, true_and] at h
          exact absurd h.1 (ne_u_of_mem_namedChars _ hc)
      | itself hslash => exact absurd (List.cons.inj h).1.symm hslash
  | numbered =>
      cases hd with
      | named hd =>
          simp only [List.cons_append, List.nil_append, List.cons.injEq, true_and] at h
          exact absurd h.1.symm (ne_u_of_mem_namedChars _ hd)
      | numbered => exact tellsEnd_hexDigits.after _ h
      | itself hslash => exact absurd (List.cons.inj h).1.symm hslash
  | itself hslash =>
      cases hd with
      | named hd => exact absurd (List.cons.inj h).1 hslash
      | numbered => exact absurd (List.cons.inj h).1 hslash
      | itself hslash' => exact List.cons.inj h

theorem beginsOtherwise_quotedChar : BeginsOtherwise '\x22' quotedChar := by
  intro c
  have hc := isSpelling_quotedChar c
  generalize quotedChar c = x at hc
  cases hc with
  | named h => exact ⟨_, _, rfl, by decide⟩
  | numbered => exact ⟨_, _, rfl, by decide⟩
  | itself hslash hquote => exact ⟨_, _, rfl, hquote⟩

/-! ## 4. Quoted strings -/

theorem toList_quoted (s : String) :
    (quoted s).toList = ['\x22'] ++ (s.toList.flatMap quotedChar ++ ['\x22']) := by
  rw [quoted, String.toList_ofList]
  rfl

/-- **A quoted string tells where it ends.** -/
theorem tellsEnd_quoted : TellsEnd fun s : String => (quoted s).toList := by
  intro a b s t h
  simp only [toList_quoted] at h
  obtain ⟨hchars, hfollow⟩ := (tellsEnd_quotedChar.run beginsOtherwise_quotedChar).after ['\x22'] h
  exact ⟨String.toList_inj.1 hchars, hfollow⟩

/-! ## 5. Text that shows as it is -/

/-- Whether no character of a text is hidden. -/
def Shows (s : List Char) : Prop :=
  ∀ c ∈ s, isHidden c = false

instance (s : List Char) : Decidable (Shows s) :=
  decidableForallMem s

theorem shows_append {s t : List Char} : Shows (s ++ t) ↔ Shows s ∧ Shows t :=
  List.forall_mem_append

theorem shows_flatMap {α : Type} {write : α → List Char} (h : ∀ a, Shows (write a)) (as : List α) :
    Shows (as.flatMap write) := by
  intro c hc
  obtain ⟨a, -, hca⟩ := List.mem_flatMap.1 hc
  exact h a c hca

/-- Text that shows has no hidden character, a line feed or a carriage return among them. -/
theorem Shows.not_mem {s : List Char} (h : Shows s) {c : Char} (hc : isHidden c = true) : c ∉ s := by
  intro hmem
  rw [h c hmem] at hc
  cases hc

theorem shows_toDigits {b : Nat} (hb : 1 < b) (hb' : b ≤ 16) (n : Nat) : Shows (Nat.toDigits b n) := by
  intro c hc
  obtain ⟨k, hk, rfl⟩ := exists_digitChar_of_mem_toDigits hb hc
  have hdigit : ∀ k < 16, isHidden (Nat.digitChar k) = false := by decide
  exact hdigit k (by omega)

theorem shows_quotedChar (c : Char) : Shows (quotedChar c) := by
  have hc := isSpelling_quotedChar c
  generalize quotedChar c = x at hc
  cases hc with
  | named h =>
      have hnamed : ∀ p ∈ namedChars, Shows ['\\', p.2] := by decide
      exact hnamed _ h
  | numbered => exact shows_append.2 ⟨by decide, shows_append.2
      ⟨shows_toDigits (by decide) (by decide) _, by decide⟩⟩
  | itself _ _ hshown => exact fun d hd => List.mem_singleton.1 hd ▸ hshown

/-- **Nothing in a quoted string is hidden.** -/
theorem shows_quoted (s : String) : Shows (quoted s).toList := by
  rw [toList_quoted]
  exact shows_append.2
    ⟨by decide, shows_append.2 ⟨shows_flatMap shows_quotedChar s.toList, by decide⟩⟩

end Quire.Text
