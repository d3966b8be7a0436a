import Quire.Text.Lines

/-!
# What lines hold, and how they are put together

The characters of a line are characters of the text, and none of them is a line feed
(`forall_mem_linesFrom`). Lines that hold no line feed and end in no carriage return are read back
when each is ended by a line feed (`lines_join`). A text in pieces has the lines of the whole
(`Rope.lines_eq`): **where the pieces are cut does not matter**, since the line that one piece leaves
open is held for the next.

A text without carriage returns can be written with one before every line feed, and with one more line feed
after a last line that has none: **it has the lines that it had** (`lines_withReturns`, `lines_endLine`).
-/

namespace Quire.Text

/-! ## 1. The characters of lines -/

/-- Only the end of a line is dropped. -/
theorem mem_of_mem_dropReturn {line : List Char} {c : Char} (h : c ∈ dropReturn line) :
    c ∈ line := by
  unfold dropReturn at h
  split at h
  · rename_i r hr
    rw [← List.mem_reverse, hr]
    exact List.mem_cons_of_mem _ (List.mem_reverse.1 h)
  · exact h

/-- **What holds of every character of a text, line feeds apart, holds in every line of it.** -/
theorem forall_mem_linesFrom {P : Char → Prop} {held s : List Char} (hheld : ∀ c ∈ held, P c)
    (hs : ∀ c ∈ s, c ≠ '\n' → P c) : ∀ l ∈ linesFrom held s, ∀ c ∈ l, P c := by
  induction s generalizing held with
  | nil =>
      intro l hl
      cases held with
      | nil => cases hl
      | cons d held =>
          obtain rfl : l = (d :: held).reverse := List.mem_singleton.1 hl
          exact fun c hc => hheld c (List.mem_reverse.1 hc)
  | cons d s ih =>
      have hrest : ∀ c ∈ s, c ≠ '\n' → P c := fun c hc => hs c (List.mem_cons_of_mem _ hc)
      rw [linesFrom]
      by_cases hd : d = '\n'
      · rw [if_pos hd]
        intro l hl
        rcases List.mem_cons.1 hl with rfl | hl
        · exact fun c hc => hheld c (List.mem_reverse.1 (mem_of_mem_dropReturn hc))
        · exact ih (fun c hc => (List.not_mem_nil hc).elim) hrest l hl
      · rw [if_neg hd]
        refine ih (fun c hc => ?_) hrest
        rcases List.mem_cons.1 hc with rfl | hc
        · exact hs _ List.mem_cons_self hd
        · exact hheld c hc

/-- What holds of every character of a text, line feeds apart, holds in every line of it. -/
theorem forall_mem_lines {P : Char → Prop} {text : String}
    (h : ∀ c ∈ text.toList, c ≠ '\n' → P c) : ∀ l ∈ lines text, ∀ c ∈ l.toList, P c := by
  intro l hl
  obtain ⟨cs, hcs, rfl⟩ := List.mem_map.1 hl
  rw [String.toList_ofList]
  exact forall_mem_linesFrom (fun c hc => (List.not_mem_nil hc).elim) h cs hcs

/-- No line holds a line feed. -/
theorem newline_not_mem_of_mem_lines {text l : String} (h : l ∈ lines text) : '\n' ∉ l.toList :=
  fun hc => forall_mem_lines (fun _ _ hne => hne) l h _ hc rfl

/-! ## 2. Joining lines -/

/-- Lines as a text, each ended by a line feed. -/
def joinLines (ls : List String) : String :=
  String.join (ls.map (· ++ "\n"))

/-- Nothing is dropped from a line that ends in no carriage return. -/
theorem dropReturn_eq_self {line : List Char} (h : line.getLast? ≠ some '\r') :
    dropReturn line = line := by
  rw [List.getLast?_eq_head?_reverse] at h
  unfold dropReturn
  split
  · rename_i r hr
    rw [hr] at h
    exact absurd rfl h
  · rfl

/-- **Lines are read back from the text that they make up.** -/
theorem lines_joinLines {ls : List String} (hfeed : ∀ l ∈ ls, '\n' ∉ l.toList)
    (hreturn : ∀ l ∈ ls, l.toList.getLast? ≠ some '\r') : lines (joinLines ls) = ls := by
  have hjoin : (joinLines ls).toList = ls.flatMap fun l => l.toList ++ ['\n'] := by
    rw [joinLines, String.toList_join, List.flatMap_map]
    simp only [String.toList_append]
    rfl
  rw [lines, hjoin]
  clear hjoin
  induction ls with
  | nil => rfl
  | cons l ls ih =>
      rw [List.flatMap_cons, List.append_assoc, List.singleton_append,
        linesFrom_append_newline _ _ _ (hfeed l List.mem_cons_self), List.reverse_nil,
        List.nil_append, dropReturn_eq_self (hreturn l List.mem_cons_self), List.map_cons,
        String.ofList_toList, ih (fun l' h => hfeed l' (List.mem_cons_of_mem _ h))
        fun l' h => hreturn l' (List.mem_cons_of_mem _ h)]

theorem linesFrom_of_newline_not_mem {held s : List Char} (hne : held.reverse ++ s ≠ [])
    (h : '\n' ∉ s) : linesFrom held s = [held.reverse ++ s] := by
  induction s generalizing held with
  | nil =>
      rw [List.append_nil] at hne ⊢
      rw [linesFrom, if_neg (by simpa using hne)]
  | cons c s ih =>
      rw [List.mem_cons, not_or] at h
      rw [linesFrom, if_neg fun e => h.1 e.symm, ih (by simp) h.2, List.reverse_cons,
        List.append_assoc, List.singleton_append]

/-- A text without a line feed is one line, if it is not empty. -/
theorem lines_of_newline_not_mem {text : String} (hne : text ≠ "") (h : '\n' ∉ text.toList) :
    lines text = [text] := by
  have hne' : text.toList ≠ [] := fun e => hne (String.toList_inj.1 e)
  rw [lines, linesFrom_of_newline_not_mem hne' h]
  exact congrArg (· :: []) String.ofList_toList

/-- **Lines are read back from the text with line feeds in between**, if the last is not empty; here, none
is. -/
theorem lines_intercalate {ls : List String} (hne : ∀ l ∈ ls, l ≠ "") (hfeed : ∀ l ∈ ls, '\n' ∉ l.toList)
    (hreturn : ∀ l ∈ ls, l.toList.getLast? ≠ some '\r') : lines ("\n".intercalate ls) = ls := by
  induction ls with
  | nil => rfl
  | cons l ls ih =>
      rw [List.forall_mem_cons] at hne hfeed hreturn
      cases ls with
      | nil =>
          rw [String.intercalate_singleton]
          exact lines_of_newline_not_mem hne.1 hfeed.1
      | cons m ls =>
          have hrest := ih hne.2 hfeed.2 hreturn.2
          have hchars : ("\n".intercalate (l :: m :: ls)).toList =
              l.toList ++ '\n' :: ("\n".intercalate (m :: ls)).toList := by
            rw [String.intercalate_cons_cons, String.toList_append, String.toList_append]
            simp
          rw [lines, hchars, linesFrom_append_newline _ _ _ hfeed.1, List.reverse_nil, List.nil_append,
            dropReturn_eq_self hreturn.1, List.map_cons, String.ofList_toList, ← lines, hrest]

/-! ## 3. Text in pieces -/

namespace Rope

/-- A piece adds its lines, and what it leaves open is held for what follows. -/
theorem linesFrom_append (held s t : List Char) :
    linesFrom held (s ++ t) = (feed held s).1 ++ linesFrom (feed held s).2 t := by
  induction s generalizing held with
  | nil => rfl
  | cons c s ih =>
      rw [List.cons_append, linesFrom, feed]
      by_cases hc : c = '\n'
      · rw [if_pos hc, if_pos hc, ih]
        rfl
      · rw [if_neg hc, if_neg hc, ih]

theorem linesOf_eq_linesFrom (held : List Char) (ps : List String) :
    linesOf held ps = linesFrom held (ps.flatMap String.toList) := by
  induction ps generalizing held with
  | nil => rfl
  | cons p ps ih =>
      rw [List.flatMap_cons, linesFrom_append, linesOf, ← ih]

/-- **A text in pieces has the lines of the whole text.** -/
theorem lines_eq (r : Rope) : r.lines = Text.lines r.text := by
  rw [lines, linesOf_eq_linesFrom, Text.lines, text, String.toList_join]

/-- What is cut up is the whole text. -/
theorem flatMap_cut (n : Nat) (s : List Char) : (cut n s).flatMap String.toList = s := by
  induction n generalizing s with
  | zero => simp [cut]
  | succ n ih =>
      cases s with
      | nil => rfl
      | cons c s =>
          show (String.ofList ((c :: s).take pieceLength) :: cut n _).flatMap String.toList = c :: s
          rw [List.flatMap_cons, ih, String.toList_ofList, List.take_append_drop]

@[simp] theorem text_ofString (s : String) : (ofString s).text = s := by
  rw [← String.toList_inj, text, String.toList_join, ofString, flatMap_cut]

end Rope

/-! ## 4. Endings of lines -/

/-- The characters that a character becomes when every line feed gets a carriage return before it. -/
def withReturn (c : Char) : List Char :=
  if c = '\n' then ['\r', '\n'] else [c]

/-- A text with a carriage return before every line feed. -/
def withReturns (text : String) : String :=
  String.ofList (text.toList.flatMap withReturn)

/-- The carriage return of an ending is dropped from the line, and nothing else of it. -/
theorem dropReturn_concat (line : List Char) : dropReturn (line ++ ['\r']) = line := by
  rw [dropReturn, List.reverse_append, List.reverse_singleton, List.singleton_append]
  exact List.reverse_reverse line

theorem linesFrom_withReturn {held s : List Char} (hheld : '\r' ∉ held) (hs : '\r' ∉ s) :
    linesFrom held (s.flatMap withReturn) = linesFrom held s := by
  induction s generalizing held with
  | nil => rfl
  | cons c s ih =>
      rw [List.mem_cons, not_or] at hs
      rw [List.flatMap_cons, withReturn]
      by_cases hc : c = '\n'
      · have hline : dropReturn held.reverse = held.reverse :=
          dropReturn_eq_self fun h => hheld (List.mem_reverse.1 (List.mem_of_getLast? h))
        rw [if_pos hc, List.cons_append, List.singleton_append, linesFrom, if_neg (by decide), linesFrom,
          if_pos rfl, List.reverse_cons, dropReturn_concat, ih List.not_mem_nil hs.2, linesFrom, if_pos hc,
          hline]
      · have hheld' : '\r' ∉ c :: held := by
          rw [List.mem_cons, not_or]
          exact ⟨hs.1, hheld⟩
        rw [if_neg hc, List.singleton_append, linesFrom, if_neg hc, ih hheld' hs.2, linesFrom, if_neg hc]

/-- **Carriage returns before the line feeds of a text that has none make no difference.** -/
theorem lines_withReturns {text : String} (h : '\r' ∉ text.toList) :
    lines (withReturns text) = lines text := by
  rw [lines, withReturns, String.toList_ofList, linesFrom_withReturn List.not_mem_nil h, lines]

theorem linesFrom_endLine {held s : List Char} {c : Char} (hlast : s.getLast? = some c)
    (hfeed : c ≠ '\n') (hreturn : c ≠ '\r') : linesFrom held (s ++ ['\n']) = linesFrom held s := by
  induction s generalizing held with
  | nil => cases hlast
  | cons d s ih =>
      rw [List.cons_append, linesFrom, linesFrom]
      cases s with
      | nil =>
          obtain rfl : d = c := Option.some.inj hlast
          have hline : dropReturn (d :: held).reverse = (d :: held).reverse :=
            dropReturn_eq_self fun h => by
              rw [List.reverse_cons, List.getLast?_concat] at h
              exact hreturn (Option.some.inj h)
          rw [if_neg hfeed, if_neg hfeed]
          exact congrArg (· :: []) hline
      | cons e s =>
          rw [List.getLast?_cons_cons] at hlast
          rw [ih hlast, ih hlast]

/-- **A last line that is not ended can be.** -/
theorem lines_endLine {text : String} (hne : text ≠ "") (hfeed : text.toList.getLast? ≠ some '\n')
    (hreturn : '\r' ∉ text.toList) : lines (text ++ "\n") = lines text := by
  cases hlast : text.toList.getLast? with
  | none => exact absurd (String.toList_eq_nil_iff.1 (List.getLast?_eq_none_iff.1 hlast)) hne
  | some c =>
      have hc : c ≠ '\n' := fun h => hfeed (h ▸ hlast)
      have hc' : c ≠ '\r' := fun h => hreturn (h ▸ List.mem_of_getLast? hlast)
      have hchars : (text ++ "\n").toList = text.toList ++ ['\n'] := String.toList_append
      rw [lines, hchars, linesFrom_endLine hlast hc hc', lines]

/-- The ways to write a text: as it is, with a carriage return before every line feed and, if its last line
is not ended, with that line ended. -/
inductive IsWriting (text : String) : String → Prop
  | plain : IsWriting text text
  | returns : IsWriting text (withReturns text)
  | ended (hne : text ≠ "") (hfeed : text.toList.getLast? ≠ some '\n') : IsWriting text (text ++ "\n")
  | endedReturns (hne : text ≠ "") (hfeed : text.toList.getLast? ≠ some '\n') :
      IsWriting text (withReturns (text ++ "\n"))

/-- **However a text without carriage returns is written, it has the same lines.** -/
theorem IsWriting.lines_eq {text written : String} (h : IsWriting text written)
    (hreturn : '\r' ∉ text.toList) : lines written = lines text := by
  cases h with
  | plain => rfl
  | returns => exact lines_withReturns hreturn
  | ended hne hfeed => exact lines_endLine hne hfeed hreturn
  | endedReturns hne hfeed =>
      have hended : '\r' ∉ (text ++ "\n").toList := by
        rw [String.toList_append, List.mem_append, not_or]
        exact ⟨hreturn, by decide⟩
      rw [lines_withReturns hended, lines_endLine hne hfeed hreturn]

end Quire.Text
