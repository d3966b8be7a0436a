import Quire.Proofs.Document.Form

/-!
# Documents however they are written

A document is read from its lines, and these are the same whether a line feed has a carriage return
before it or not, whether the last line is ended or not, and wherever a text is cut into pieces. So
**whoever wrote a document, and however it is kept, it is read alike** (`read_written`).
-/

namespace Quire.Document

open Quire.Highlight (Language)
open Quire.Text (IsWriting Rope)

theorem ofString_written {text written : String} (h : IsWriting text written)
    (hreturn : '\r' ∉ text.toList) (language : Language) :
    ofString language written = ofString language text := by
  rw [ofString, h.lines_eq hreturn, ofString]

/-- **A text without carriage returns is read alike however it is written**: with line feeds alone or with
carriage returns before them, with its last line ended or not, as one string, in pieces as it is cut up, or
in any other pieces that make it up. -/
theorem read_written {text written : String} (hreturn : '\r' ∉ text.toList)
    (h : IsWriting text written) (language : Language) :
    ofString language written = ofString language text ∧
      ofRope language (.ofString written) = ofString language text ∧
      ∀ rope : Rope, rope.text = written → ofRope language rope = ofString language text := by
  have hwritten := ofString_written h hreturn language
  have hrope (rope : Rope) (htext : rope.text = written) :
      ofRope language rope = ofString language text := by
    rw [ofRope_eq_ofString, htext, hwritten]
  exact ⟨hwritten, hrope _ (Rope.text_ofString written), hrope⟩

/-- A list and code that is not closed, with carriage returns, the last line ended, and a cut within an
ending. -/
theorem read_written_cut :
    '\r' ∉ "- a\n~~~\n\nb".toList ∧ IsWriting "- a\n~~~\n\nb" "- a\r\n~~~\r\n\r\nb\r\n" ∧
      ofRope .css ⟨["- a\r", "\n~~~\r\n\r\nb\r", "\n"]⟩ = ofString .css "- a\n~~~\n\nb" := by
  have hreturn : '\r' ∉ "- a\n~~~\n\nb".toList := by decide
  have hwriting : IsWriting "- a\n~~~\n\nb" "- a\r\n~~~\r\n\r\nb\r\n" :=
    .endedReturns (by decide) (by decide)
  exact ⟨hreturn, hwriting, (read_written hreturn hwriting .css).2.2 _ rfl⟩

end Quire.Document
