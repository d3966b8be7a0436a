import Mathlib.Data.List.Forall2
import Quire.Proofs.Document.Links
import Quire.Proofs.Document.Nested

/-!
# Documents with code in another language

The language of code is asked for only when code is closed. So **the same lines, read with code in two
languages, come to the same blocks, one by one, but for the code** (`recoded_blocksOfLines`): this has
the same source, and each block has its own language and the markup of the source in it.

What one line does is the same in both readings, but for the code that it closes (`recoded_push`), and it
leaves the same open; so the two readings stay together line after line (`recoded_readLines`).
-/

namespace Quire.Document

open Quire.Highlight (Language highlight)

variable {k l : Language}

/-! ## 1. Blocks -/

/-- Whether two blocks are what the same lines come to with code in two languages: code with one source,
each marked up in its language, or one block that is no code. -/
inductive Block.Recoded (k l : Language) : Block → Block → Prop
  | code (source : String) :
      Recoded k l (.codeBlock k source (highlight source k)) (.codeBlock l source (highlight source l))
  | other {b : Block} (h : ∀ language source highlighted, b ≠ .codeBlock language source highlighted) :
      Recoded k l b b

/-- The blocks of a fresh line hold no code: code is only opened there. -/
theorem ne_codeBlock_of_mem_opening {c : LineClass} {b : Block} (h : b ∈ (OpenBlock.opening c).1) :
    ∀ language source highlighted, b ≠ .codeBlock language source highlighted := by
  intro language source highlighted
  cases c with
  | rule | heading level text | quote text =>
      rw [List.mem_singleton.1 h]
      exact Block.noConfusion
  | listItem item | fence kind | tableRow row => exact absurd h List.not_mem_nil
  | text s =>
      rcases mem_textBlocks h with ⟨t, -, rfl⟩ | ⟨alt, path, rfl⟩
      · exact Block.noConfusion
      · exact Block.noConfusion

theorem recoded_opening (c : LineClass) :
    List.Forall₂ (Block.Recoded k l) (OpenBlock.opening c).1 (OpenBlock.opening c).1 :=
  List.forall₂_same.2 fun _ hb => .other (ne_codeBlock_of_mem_opening hb)

theorem recoded_close (o : OpenBlock) :
    List.Forall₂ (Block.Recoded k l) (o.close k) (o.close l) := by
  cases o with
  | nothing => exact .nil
  | list items => exact .cons (.other fun _ _ _ => Block.noConfusion) .nil
  | code fence source => exact .cons (.code source) .nil
  | table header rows => exact .cons (.other fun _ _ _ => Block.noConfusion) .nil

/-! ## 2. Lines -/

/-- A line outside code: whether it goes on with what is open is asked of its class alone. -/
theorem recoded_pushClass (o : OpenBlock) (c : LineClass) :
    List.Forall₂ (Block.Recoded k l) (o.pushClass k c).1 (o.pushClass l c).1 ∧
      (o.pushClass k c).2 = (o.pushClass l c).2 := by
  rw [OpenBlock.pushClass, OpenBlock.pushClass]
  cases o.continue? c with
  | some o' => exact ⟨.nil, rfl⟩
  | none => exact ⟨List.rel_append (recoded_close o) (recoded_opening c), rfl⟩

/-- **A line finishes the same blocks in both readings, but for their code, and leaves the same open.** -/
theorem recoded_push (o : OpenBlock) (raw : List Char) :
    List.Forall₂ (Block.Recoded k l) (o.push k raw).1 (o.push l raw).1 ∧
      (o.push k raw).2 = (o.push l raw).2 := by
  cases o with
  | code fence source =>
      rw [OpenBlock.push, OpenBlock.push]
      split
      · exact ⟨recoded_close (.code fence source), rfl⟩
      · exact ⟨.nil, rfl⟩
  | nothing => exact recoded_pushClass _ _
  | list items => exact recoded_pushClass _ _
  | table header rows => exact recoded_pushClass _ _

/-- **So do lines, one after the other.** -/
theorem recoded_readLines (o : OpenBlock) (lines : List (List Char)) :
    List.Forall₂ (Block.Recoded k l) (readLines k o lines).1 (readLines l o lines).1 ∧
      (readLines k o lines).2 = (readLines l o lines).2 := by
  induction lines generalizing o with
  | nil => exact ⟨.nil, rfl⟩
  | cons raw lines ih =>
      obtain ⟨hblocks, hopen⟩ := recoded_push (k := k) (l := l) o raw
      obtain ⟨hmore, hopen'⟩ := ih (o.push k raw).2
      rw [readLines_cons, readLines_cons, ← hopen]
      exact ⟨List.rel_append hblocks hmore, hopen'⟩

/-! ## 3. Documents -/

/-- **The language changes nothing but code.** Lines read with code in one language and in another come to
equally many blocks, and these are the same one by one, but for code: it has the same source, and each
its own language and the markup of the source in it. What there is to report is the same. -/
theorem recoded_blocksOfLines (k l : Language) (lines : List String) :
    List.Forall₂ (Block.Recoded k l) (blocksOfLines k lines) (blocksOfLines l lines) ∧
      (read k lines).2 = (read l lines).2 := by
  obtain ⟨hblocks, hopen⟩ := recoded_readLines (k := k) (l := l) .nothing (lines.map String.toList)
  have hall : List.Forall₂ (Block.Recoded k l) (blocksOfLines k lines) (blocksOfLines l lines) := by
    rw [blocksOfLines_eq_finish, blocksOfLines_eq_finish, finish, finish, ← hopen]
    exact List.rel_append hblocks (recoded_close _)
  have hreports (language : Language) : (read language lines).2 =
      (readLines language .nothing (lines.map String.toList)).2.endReports ++
        [.parsed lines.length (blocksOfLines language lines).length] := rfl
  refine ⟨hall, ?_⟩
  rw [hreports, hreports, hopen, hall.length_eq]

end Quire.Document
