import PrimalDual.Output
import PrimalDual.Proofs.Text.Lines
import PrimalDual.Proofs.Text.Utf8

/-!
# Buffers

A buffer takes every text and can be read back: it holds the texts printed to it, one after the
other. Of each text it is told which lines begin in one way.
-/
namespace PrimalDual

theorem Utf8.decodeLossy_encode (text : String) : decodeLossy (encode text) = text := by
  rw [decodeLossy, decode, ← String.ofList_toList (s := text), encode_ofList, decodeOnto_flatMap,
    List.reverse_nil, List.nil_append, List.map_map]
  congr 1
  exact List.map_id _

namespace PrintTarget

/-- A buffer that holds a text. -/
def buffered (text : String) : PrintTarget :=
  { new .buffer with received := text.toUTF8.data }

theorem print_buffered (old text : String) :
    (buffered old).print text = buffered (old ++ text) := by
  simp [print, write, buffered, new, String.toByteArray_append]

theorem bufferText_buffered (text : String) : (buffered text).bufferText = .ok text := by
  have hkind : (buffered text).kind = .buffer := rfl
  rw [bufferText, if_pos hkind]
  exact congrArg Except.ok (Utf8.decodeLossy_encode text)

/-- From one target to the other, lines are added to a buffer; those that begin in the given way are
the ones listed. -/
def Adds (start : List Char) (found : List (List Char)) (t t' : PrintTarget) : Prop :=
  ∀ old, t = buffered old → ∃ text, Text.Ended text.toList ∧
    Text.linesWith start text.toList = found ∧ t' = buffered (old ++ text)

variable {start : List Char} {found found' : List (List Char)} {t t' t'' : PrintTarget}
  {text : String}

theorem Adds.refl (hstart : start ≠ []) (t : PrintTarget) : Adds start [] t t :=
  fun old h => ⟨"", Text.ended_nil, Text.linesWith_nil hstart, by rw [String.append_empty, h]⟩

theorem Adds.trans (hstart : start ≠ []) (h : Adds start found t t')
    (h' : Adds start found' t' t'') : Adds start (found ++ found') t t'' := by
  intro old ht
  obtain ⟨text, hended, hfound, ht'⟩ := h old ht
  obtain ⟨text', hended', hfound', ht''⟩ := h' _ ht'
  refine ⟨text ++ text', ?_, ?_, by rw [ht'', String.append_assoc]⟩
  · rw [String.toList_append]
    exact hended.append hended'
  · rw [String.toList_append, hended.linesWith_append hstart, hfound, hfound']

theorem adds_print (h : Text.Ended text.toList) (start : List Char) (t : PrintTarget) :
    Adds start (Text.linesWith start text.toList) t (t.print text) := by
  rintro old rfl
  exact ⟨text, h, rfl, print_buffered old text⟩

end PrintTarget

end PrimalDual
