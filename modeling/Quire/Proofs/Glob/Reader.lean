import Quire.Glob.Reader
import Quire.Proofs.Alike
import Quire.Proofs.Path.Tail

/-!
# Reading a pattern behind a name

A pattern is read behind the name of a directory, with a slash between them. If the name has no
character that is more than itself to a pattern, **it is one literal piece more and makes no other
difference** (`ofString_behind`): what can be wrong with the pattern is wrong with it in either place,
only told by another position. A name that does have one is read as part of the pattern.
-/

namespace Quire.Glob

open Quire.Path (Name)

/-! ## 1. Positions -/

/-- Whether two refusals are for one fault, wherever it is. -/
def SameFault (e f : Refusal) : Prop :=
  e.fault = f.fault

/-- Whether a text begins a component, given what stands before it. -/
def isStart (before : Option Char) : Bool :=
  before = none || before = some '/'

theorem agree_stars {before before' : Option Char} (h : isStart before = isStart before')
    (position position' : Nat) (s : List Char) :
    Agree SameFault Eq (stars before position s) (stars before' position' s) := by
  rw [isStart, isStart] at h
  unfold stars
  split
  · exact .error rfl
  · rw [h]
    split
    · split
      · exact .ok rfl
      · exact .ok rfl
      · exact .error rfl
    · exact .error rfl
  · exact .ok rfl

/-- Outcomes that agree do so when they are put through one function. -/
theorem agree_map {α β : Type} {a b : Except Refusal α} (h : Agree SameFault Eq a b) (f : α → β) :
    Agree SameFault Eq (a.map f) (b.map f) := by
  cases h with
  | ok h => exact .ok (congrArg f h)
  | error h => exact .error h

/-- **Where a text stands makes no difference to its tokens**, but for whether it begins a component. -/
theorem agree_tokensFrom {before before' : Option Char} (h : isStart before = isStart before')
    (taken position position' : Nat) (s : List Char) :
    Agree SameFault Eq (tokensFrom taken before position s)
      (tokensFrom taken before' position' s) := by
  induction s generalizing taken before before' position position' with
  | nil => cases taken <;> exact .ok rfl
  | cons c cs ih =>
      cases taken with
      | succ taken => exact ih rfl ..
      | zero =>
          unfold tokensFrom
          split
          · exact agree_map (ih rfl ..) _
          · have hstars := agree_stars h position position' cs
            generalize stars before position cs = r at hstars
            generalize stars before' position' cs = r' at hstars
            cases hstars with
            | error hfault => exact .error hfault
            | ok heq =>
                subst heq
                exact agree_map (ih rfl ..) _
          · cases bracket? cs with
            | none => exact .error rfl
            | some b => exact agree_map (ih rfl ..) _
          · exact agree_map (ih rfl ..) _

/-! ## 2. Plain characters -/

/-- Whether a character stands for itself wherever it comes in a pattern. -/
def IsPlain (c : Char) : Prop :=
  c ≠ '?' ∧ c ≠ '*' ∧ c ≠ '['

instance (c : Char) : Decidable (IsPlain c) :=
  inferInstanceAs (Decidable (_ ∧ _ ∧ _))

theorem tokensFrom_cons_plain {c : Char} (hc : IsPlain c) (before : Option Char) (position : Nat)
    (s : List Char) : tokensFrom 0 before position (c :: s) =
      (tokensFrom 0 (some c) (position + 1) s).map (.char c :: ·) := by
  obtain ⟨hquestion, hstar, hbracket⟩ := hc
  conv_lhs => unfold tokensFrom
  split
  · exact absurd rfl hquestion
  · exact absurd rfl hstar
  · exact absurd rfl hbracket
  · rfl

/-- **Plain characters are tokens of their own.** -/
theorem agree_tokensFrom_append {a : List Char} (ha : ∀ c ∈ a, IsPlain c) (before : Option Char)
    (position : Nat) (s : List Char) :
    Agree SameFault (fun ts us => ts = a.map .char ++ us)
      (tokensFrom 0 before position (a ++ s)) (tokensFrom 0 (a.getLast?.or before) 0 s) := by
  induction a generalizing before position with
  | nil => exact agree_tokensFrom (Eq.refl (isStart before)) 0 position 0 s
  | cons c a ih =>
      rw [List.forall_mem_cons] at ha
      rw [List.cons_append, tokensFrom_cons_plain ha.1]
      have hrest := ih ha.2 (some c) (position + 1)
      have hlast : (c :: a).getLast?.or before = a.getLast?.or (some c) := by
        cases a with
        | nil => rfl
        | cons d a =>
            rw [List.getLast?_cons_cons, List.getLast?_eq_some_getLast (List.cons_ne_nil d a)]
            rfl
      rw [hlast]
      generalize tokensFrom 0 (some c) (position + 1) (a ++ s) = r at hrest
      generalize tokensFrom 0 (a.getLast?.or (some c)) 0 s = r' at hrest
      cases hrest with
      | error h => exact .error h
      | ok h => exact .ok (by rw [h]; rfl)

theorem tokens_plain {a : List Char} (ha : ∀ c ∈ a, IsPlain c) : tokens a = .ok (a.map .char) := by
  have h := agree_tokensFrom_append ha none 0 []
  rw [List.append_nil, show tokensFrom 0 (a.getLast?.or none) 0 [] = .ok [] from rfl] at h
  rw [tokens]
  generalize tokensFrom 0 none 0 a = r at h
  cases h with
  | ok h => rw [h, List.append_nil]

/-- A text with a plain name in front, as far as its tokens go. -/
theorem agree_tokens_behind {a : List Char} (ha : ∀ c ∈ a, IsPlain c) (s : List Char) :
    Agree SameFault (fun _ _ => True) (tokens (a ++ '/' :: s)) (tokens s) := by
  have hslash : ∀ c ∈ a ++ ['/'], IsPlain c := by
    intro c hc
    rcases List.mem_append.1 hc with hc | hc
    · exact ha c hc
    · rw [List.mem_singleton.1 hc]
      decide
  have h := agree_tokensFrom_append hslash none 0 s
  have hstart : isStart ((a ++ ['/']).getLast?.or none) = isStart none := by
    rw [List.getLast?_concat]
    rfl
  have h' := agree_tokensFrom hstart 0 0 0 s
  rw [List.append_assoc, List.singleton_append] at h
  rw [tokens, tokens]
  generalize tokensFrom 0 none 0 (a ++ '/' :: s) = r at h
  generalize tokensFrom 0 _ 0 s = r' at h h'
  generalize tokensFrom 0 none 0 s = r'' at h'
  cases h with
  | ok h =>
      cases h' with
      | ok h' => exact .ok trivial
  | error h =>
      cases h' with
      | error h' => exact .error (h.trans h')

/-! ## 3. Patterns -/

theorem ofTokens_plain (a : List Char) : Piece.ofTokens (a.map .char) = .literal (String.ofList a) := by
  have hliteral : literal? (a.map .char) = some a := by
    induction a with
    | nil => rfl
    | cons c a ih => rw [List.map_cons, literal?, ih, Option.map_some]
  rw [Piece.ofTokens, hliteral]

theorem writtenComponents_behind {a : List Char} (ha : '/' ∉ a) (s : List Char) :
    writtenComponents (a ++ '/' :: s) = a :: if s = [] then [] else writtenComponents s := by
  obtain ⟨part, parts, hs⟩ := List.exists_cons_of_ne_nil (Text.splitOn_ne_nil '/' s)
  rw [writtenComponents, writtenComponents, Text.splitOn_append ha, hs]
  by_cases hnil : s = []
  · subst hnil
    cases hs
    rfl
  · rw [if_neg hnil, List.getLast?_cons_cons, List.dropLast_cons_cons]
    have hone : (part :: parts).length ≠ 1 ∨ (part :: parts).getLast? ≠ some [] := by
      refine or_iff_not_imp_left.2 fun hlength => ?_
      obtain rfl := List.length_eq_zero_iff.1 (Nat.succ.inj (not_not.1 hlength))
      have hjoin := Text.intercalate_splitOn '/' s
      rw [hs] at hjoin
      rintro ⟨rfl⟩
      exact hnil hjoin.symm
    have htwo : (a :: part :: parts).length ≠ 1 := by simp
    by_cases hlast : (part :: parts).getLast? = some []
    · rw [if_pos ⟨htwo, hlast⟩, if_pos ⟨hone.resolve_right (not_not.2 hlast), hlast⟩]
    · rw [if_neg fun h => hlast h.2, if_neg fun h => hlast h.2]

/-- The pattern that a text writes when it stands behind a slash. The empty text then stands for what is
before the slash. -/
def Pattern.behindSlash (text : String) : Except Refusal Pattern :=
  if text.isEmpty then .ok ⟨[], true⟩ else Pattern.ofString text

/-- **A plain name in front of a pattern is one literal piece more.** -/
theorem ofString_behind {n : Name} (hn : ∀ c ∈ n.text.toList, IsPlain c) (text : String) :
    Agree SameFault (fun p q => p = ⟨.literal n.text :: q.pieces, q.directoriesOnly⟩)
      (Pattern.ofString (n.text ++ Path.extend "" text)) (Pattern.behindSlash text) := by
  have hchars : (n.text ++ Path.extend "" text).toList = n.text.toList ++ '/' :: text.toList := by
    have hextend : Path.extend "" text = "/" ++ text := rfl
    simp [hextend]
  have hdirectories (c : Char) (cs : List Char) :
      (n.text.toList ++ '/' :: c :: cs).getLast? = (c :: cs).getLast? := by
    rw [List.getLast?_append_of_ne_nil _ (List.cons_ne_nil _ _), List.getLast?_cons_cons]
  have htokens := agree_tokens_behind hn text.toList
  rw [Pattern.ofString, hchars, writtenComponents_behind n.isName.slash_not_mem, List.mapM_cons,
    tokens_plain hn, Pattern.behindSlash]
  by_cases htext : text = ""
  · subst htext
    have hempty : "".toList = [] := rfl
    rw [hempty] at htokens ⊢
    rw [if_pos rfl, if_pos (by rfl)]
    generalize tokens (n.text.toList ++ ['/']) = r at htokens
    cases htokens with
    | ok _ =>
        refine .ok ?_
        show Pattern.mk [Piece.ofTokens (n.text.toList.map .char)] _ = _
        rw [ofTokens_plain, String.ofList_toList, List.getLast?_concat, decide_eq_true rfl]
  · obtain ⟨c, cs, hcs⟩ := List.exists_cons_of_ne_nil fun h => htext (String.toList_eq_nil_iff.1 h)
    rw [hcs] at htokens ⊢
    rw [if_neg (List.cons_ne_nil c cs), if_neg (by simpa using htext), Pattern.ofString, hcs, hdirectories]
    generalize tokens (n.text.toList ++ '/' :: c :: cs) = r at htokens
    generalize tokens (c :: cs) = r' at htokens
    cases htokens with
    | error h => exact .error h
    | ok _ =>
        dsimp only
        cases (writtenComponents (c :: cs)).mapM tokens with
        | error e => exact .error rfl
        | ok components =>
            refine .ok ?_
            rw [List.map_cons, ofTokens_plain, String.ofList_toList]

/-! ## 4. Literal pieces -/

theorem stars_ne_char {before : Option Char} {position taken : Nat} {s : List Char} {token : Token}
    (h : stars before position s = .ok (token, taken)) (c : Char) : token ≠ .char c := by
  unfold stars at h
  split at h
  · cases h
  · split at h
    · split at h <;> cases h <;> simp
    · cases h
  · cases h
    simp

theorem bracket?_ne_char {taken : Nat} {s : List Char} {token : Token}
    (h : bracket? s = some (token, taken)) (c : Char) : token ≠ .char c := by
  unfold bracket? at h
  split at h
  · obtain ⟨held, -, heq⟩ := Option.map_eq_some_iff.1 h
    cases heq
    simp
  · cases h
  · obtain ⟨held, -, heq⟩ := Option.map_eq_some_iff.1 h
    cases heq
    simp
  · cases h

/-- A token that stands for itself is a character of the text. -/
theorem mem_of_char_mem_tokensFrom {taken position : Nat} {before : Option Char} {s : List Char}
    {ts : List Token} (h : tokensFrom taken before position s = .ok ts) {c : Char}
    (hc : .char c ∈ ts) : c ∈ s := by
  induction s generalizing taken position before ts with
  | nil =>
      have hts : ts = [] := by cases taken <;> cases h <;> rfl
      rw [hts] at hc
      cases hc
  | cons d cs ih =>
      have hmap {token : Token} {k : Nat} {before : Option Char} (hne : token ≠ .char c)
          (h : (tokensFrom k before (position + 1) cs).map (token :: ·) = .ok ts) : c ∈ d :: cs := by
        cases hrest : tokensFrom k before (position + 1) cs with
        | error e =>
            rw [hrest] at h
            cases h
        | ok us =>
            rw [hrest] at h
            cases h
            exact List.mem_cons_of_mem _ (ih hrest ((List.mem_cons.1 hc).resolve_left hne.symm))
      cases taken with
      | succ taken => exact List.mem_cons_of_mem _ (ih h hc)
      | zero =>
          unfold tokensFrom at h
          split at h
          · exact hmap (by simp) h
          · split at h
            · rename_i hstars
              exact hmap (stars_ne_char hstars c) h
            · cases h
          · split at h
            · rename_i hbracket
              exact hmap (bracket?_ne_char hbracket c) h
            · cases h
          · by_cases hd : c = d
            · exact hd ▸ List.mem_cons_self
            · exact hmap (fun heq => hd (Token.char.inj heq).symm) h

theorem eq_map_char_of_literal? {ts : List Token} {text : List Char} (h : literal? ts = some text) :
    ts = text.map .char := by
  induction ts generalizing text with
  | nil =>
      cases h
      rfl
  | cons t ts ih =>
      cases t with
      | char c =>
          rw [literal?, Option.map_eq_some_iff] at h
          obtain ⟨rest, hrest, rfl⟩ := h
          rw [ih hrest]
          rfl
      | anyChar | anyRun | oneOf _ | noneOf _ | anyDepth => cases h

/-- What a list is mapped to comes from its members. -/
theorem exists_of_mapM_eq_ok {ε α β : Type} {f : α → Except ε β} {l : List α} {ys : List β}
    (h : l.mapM f = .ok ys) {y : β} (hy : y ∈ ys) : ∃ x ∈ l, f x = .ok y := by
  induction l generalizing ys with
  | nil =>
      cases h
      cases hy
  | cons x l ih =>
      rw [List.mapM_cons] at h
      cases hx : f x with
      | error e =>
          rw [hx] at h
          cases h
      | ok z =>
          rw [hx] at h
          cases hl : l.mapM f with
          | error e =>
              rw [hl] at h
              cases h
          | ok zs =>
              rw [hl] at h
              cases h
              rcases List.mem_cons.1 hy with rfl | hy
              · exact ⟨x, List.mem_cons_self, hx⟩
              · obtain ⟨w, hw, hfw⟩ := ih hl hy
                exact ⟨w, List.mem_cons_of_mem _ hw, hfw⟩

theorem slash_not_mem_of_mem_writtenComponents {s part : List Char}
    (h : part ∈ writtenComponents s) : '/' ∉ part := by
  rw [writtenComponents] at h
  split at h
  · exact Text.not_mem_of_mem_splitOn (List.dropLast_subset _ h)
  · exact Text.not_mem_of_mem_splitOn h

/-- **A literal piece is no path but a component.** -/
theorem slash_not_mem_of_mem_pieces {text literal : String} {p : Pattern}
    (h : Pattern.ofString text = .ok p) (hp : .literal literal ∈ p.pieces) : '/' ∉ literal.toList := by
  rw [Pattern.ofString] at h
  split at h
  · cases h
  split at h
  · cases h
  rename_i components hcomponents
  cases h
  obtain ⟨ts, hts, hpiece⟩ := List.mem_map.1 hp
  obtain ⟨part, hpart, htokens⟩ := exists_of_mapM_eq_ok hcomponents hts
  rw [Piece.ofTokens] at hpiece
  split at hpiece
  · rename_i chars hliteral
    rw [← Piece.literal.inj hpiece, String.toList_ofList]
    intro hslash
    refine slash_not_mem_of_mem_writtenComponents hpart (mem_of_char_mem_tokensFrom htokens ?_)
    rw [eq_map_char_of_literal? hliteral]
    exact List.mem_map_of_mem hslash
  · split at hpiece <;> cases hpiece

end Quire.Glob
