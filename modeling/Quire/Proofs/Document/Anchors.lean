import Quire.Proofs.Document.Links

/-!
# Anchors, turned back into links

An anchor is told from the text around it by its first character: a text that holds no opening angle
bracket has none left but those of its anchors (`anchor?_of_ne`). What stands between the quotes holds
neither a quote nor an angle bracket, and the label no opening one, so **an anchor is read back as the
label and the target it was made of** (`anchor?_anchor_append`). Hence a text is told by what becomes of
it, and no two texts become the same (`substitute_invertible`).
-/

namespace Quire.Document

open Quire.Text

/-! ## 1. Reading an anchor -/

/-- An anchor at the front of a text: its label, its target, which is decoded, and what follows. -/
def anchor? (s : List Char) : Option (List Char × List Char × List Char) := do
  let inside ← dropMark? "<a href=\"".toList s
  let (reference, afterReference) ← upTo? ['\x22', '>'] inside
  let (label, rest) ← upTo? "</a>".toList afterReference
  return (label, Html.unescapeChars reference, rest)

/-- What follows an anchor is shorter than what begins with it. -/
theorem length_of_anchor? {s label target rest : List Char}
    (h : anchor? s = some (label, target, rest)) : rest.length < s.length := by
  obtain ⟨inside, hopen, h⟩ := Option.bind_eq_some_iff.1 h
  obtain ⟨⟨reference, afterReference⟩, hquote, h⟩ := Option.bind_eq_some_iff.1 h
  obtain ⟨⟨l, r⟩, hclose, h⟩ := Option.bind_eq_some_iff.1 h
  obtain ⟨-, -, rfl⟩ : l = label ∧ Html.unescapeChars reference = target ∧ r = rest := by
    simpa using h
  have h1 := length_of_dropMark? hopen
  have h2 := length_of_upTo? hquote
  have h3 := length_of_upTo? hclose
  have hmark : ['\x22', '>'].length = 2 := rfl
  omega

/-- **An anchor begins with an opening angle bracket.** -/
theorem anchor?_of_ne {c : Char} (hc : c ≠ '<') (cs : List Char) : anchor? (c :: cs) = none := by
  have hdrop : dropMark? "<a href=\"".toList (c :: cs) = none := dropMark?_cons_of_ne hc.symm _ _
  rw [anchor?, hdrop]
  rfl

/-- **An anchor is read back as the label and the target it was made of.** -/
theorem anchor?_anchor_append {label target : List Char} (hlabel : ∀ c ∈ ['<', '\n'], c ∉ label)
    (htarget : '\n' ∉ target) (s : List Char) :
    anchor? (anchor label target ++ s) = some (label, target, s) := by
  have hquote : '\x22' ∉ Html.escapeChars target := fun h => (Html.escapeChars_special h).2.2 rfl
  have hfeed : '\n' ∉ Html.escapeChars target := Html.not_mem_escapeChars (by decide) htarget
  have hreference : upTo? ['\x22', '>'] (Html.escapeChars target ++
      '\x22' :: '>' :: (label ++ ("</a>".toList ++ s))) =
        some (Html.escapeChars target, label ++ ("</a>".toList ++ s)) := by
    have h := upTo?_append ['>'] hquote hfeed (label ++ ("</a>".toList ++ s))
    rwa [List.append_assoc] at h
  have hclose : upTo? "</a>".toList (label ++ ("</a>".toList ++ s)) = some (label, s) := by
    have h := upTo?_append "/a>".toList (hlabel '<' (by decide)) (hlabel '\n' (by decide)) s
    rwa [List.append_assoc] at h
  rw [anchor_append, anchor?, dropMark?_append]
  simp only [Option.bind_eq_bind, Option.bind_some, hreference, hclose,
    Html.unescapeChars_escapeChars]
  rfl

/-! ## 2. Turning anchors back -/

/-- A text with every anchor turned into a link. -/
def restoreLinks : List Char → List Char
  | [] => []
  | c :: cs =>
    match _h : anchor? (c :: cs) with
    | some (label, target, rest) => linkText label target ++ restoreLinks rest
    | none => c :: restoreLinks cs
  termination_by s => s.length
  decreasing_by
    · exact length_of_anchor? _h
    · simp

theorem restoreLinks_nil : restoreLinks [] = [] := by
  rw [restoreLinks]

theorem restoreLinks_cons_of_ne {c : Char} (hc : c ≠ '<') (cs : List Char) :
    restoreLinks (c :: cs) = c :: restoreLinks cs := by
  rw [restoreLinks]
  split
  · rename_i h
    rw [anchor?_of_ne hc] at h
    cases h
  · rfl

/-- **An anchor becomes the link it was made of.** -/
theorem restoreLinks_anchor_append {label target : List Char}
    (hlabel : ∀ c ∈ ['<', '\n'], c ∉ label) (htarget : '\n' ∉ target) (s : List Char) :
    restoreLinks (anchor label target ++ s) = linkText label target ++ restoreLinks s := by
  have hanchor := anchor?_anchor_append hlabel htarget s
  obtain ⟨c, cs, hcons⟩ : ∃ c cs, anchor label target ++ s = c :: cs := by
    rw [anchor_append]
    exact ⟨_, _, rfl⟩
  rw [hcons] at hanchor ⊢
  rw [restoreLinks]
  split
  · rename_i h
    rw [hanchor, Option.some.injEq, Prod.mk.injEq, Prod.mk.injEq] at h
    obtain ⟨rfl, rfl, rfl⟩ := h
    rfl
  · rename_i h
    rw [hanchor] at h
    cases h

/-- **Turning every anchor of a text back gives the text.** -/
theorem restoreLinks_substitute {s : List Char} (hs : '<' ∉ s) : restoreLinks (substitute s) = s := by
  induction s using substitute.induct with
  | case1 => rw [substitute_nil, restoreLinks_nil]
  | case2 c cs label target rest hl ih =>
      have hparts := eq_linkText_of_link? hl
      obtain ⟨hlabelFeed, htarget⟩ := newline_not_mem_of_link? hl
      rw [hparts, List.mem_append, not_or] at hs
      have hlabelOpen : '<' ∉ label := fun hmem => hs.1 (by simp [linkText, hmem])
      have hlabel : ∀ d ∈ ['<', '\n'], d ∉ label := by simp [hlabelOpen, hlabelFeed]
      rw [substitute_of_link? hl, restoreLinks_anchor_append hlabel htarget, ih hs.2, hparts]
  | case3 c cs hl ih =>
      rw [List.mem_cons, not_or] at hs
      rw [substitute_cons_of_link?_eq_none hl, restoreLinks_cons_of_ne (fun e => hs.1 e.symm),
        ih hs.2]

/-- **A text is told by what becomes of its links**: turning the anchors back gives the text, so no other
text becomes the same. -/
theorem substitute_invertible {s : List Char} (hs : '<' ∉ s) :
    restoreLinks (substitute s) = s ∧
      ∀ t : List Char, '<' ∉ t → substitute t = substitute s → t = s := by
  refine ⟨restoreLinks_substitute hs, ?_⟩
  intro t ht h
  calc
    t = restoreLinks (substitute t) := (restoreLinks_substitute ht).symm
    _ = restoreLinks (substitute s) := by rw [h]
    _ = s := restoreLinks_substitute hs

/-- A bracket that opens early, an entity in a label, and a quote and an entity in a target come back as
they were written. -/
theorem substitute_invertible_quote :
    '<' ∉ "[a&amp; [b](?q=\"&gt;) c](>)".toList ∧
      substitute "[a&amp; [b](?q=\"&gt;) c](>)".toList =
        "<a href=\"?q=&quot;&amp;gt;\">a&amp; [b</a> c](>)".toList ∧
      restoreLinks "<a href=\"?q=&quot;&amp;gt;\">a&amp; [b</a> c](>)".toList =
        "[a&amp; [b](?q=\"&gt;) c](>)".toList := by
  have hs : '<' ∉ "[a&amp; [b](?q=\"&gt;) c](>)".toList := by decide
  have hlinks : substitute "[a&amp; [b](?q=\"&gt;) c](>)".toList =
      "<a href=\"?q=&quot;&amp;gt;\">a&amp; [b</a> c](>)".toList := by
    decide +kernel
  have h := (substitute_invertible hs).1
  rw [hlinks] at h
  exact ⟨hs, hlinks, h⟩

end Quire.Document
