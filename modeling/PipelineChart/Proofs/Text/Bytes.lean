import Mathlib.Data.String.Basic
import PipelineChart.Proofs.Text.Chars

/-!
Texts by their bytes in UTF-8. A text is cut at an offset in bytes only where a character ends; so a slice between
two offsets is a part of the text, with as many bytes before it and up to its end.
-/

namespace PipelineChart.Text

variable {α : Type} [Glyph α]

theorem chars_append (front rest : List α) : chars (front ++ rest) = chars front ++ chars rest := List.map_append

def bytes (text : List α) : List UInt8 := (chars text).flatMap String.utf8EncodeChar

def size (text : List α) : Nat := String.utf8Len (chars text)

theorem bytes_cons (glyph : α) (text : List α) :
    bytes (glyph :: text) = String.utf8EncodeChar (Glyph.char glyph) ++ bytes text := rfl

theorem bytes_append (front rest : List α) : bytes (front ++ rest) = bytes front ++ bytes rest := by
  rw [bytes, chars_append, List.flatMap_append]
  rfl

theorem bytes_chars (text : List α) : bytes (chars text) = bytes text := by rw [bytes, chars_self, bytes]

@[simp]
theorem size_nil : size ([] : List α) = 0 := rfl

@[simp]
theorem size_cons (glyph : α) (text : List α) :
    size (glyph :: text) = (Glyph.char glyph).utf8Size + size text := by
  rw [size, chars_cons, String.utf8Len_cons, Nat.add_comm, size]

@[simp]
theorem size_append (front rest : List α) : size (front ++ rest) = size front + size rest := by
  rw [size, chars, List.map_append, String.utf8Len_append]
  rfl

@[simp]
theorem size_chars (text : List α) : size (chars text) = size text := by
  rw [size, chars_self, size]

theorem size_self (text : List Char) : size text = String.utf8Len text := by rw [size, chars_self]

@[simp]
theorem size_toList (source : String) : size source.toList = source.utf8ByteSize := by
  rw [size_self, String.utf8Len_toList]

@[simp]
theorem size_eq_zero_iff {text : List α} : size text = 0 ↔ text = [] := by
  cases text with
  | nil => simp
  | cons glyph text =>
    have positive := (Glyph.char glyph).utf8Size_pos
    simp only [size_cons, reduceCtorEq, iff_false]
    omega

theorem size_pos_iff {text : List α} : 0 < size text ↔ text ≠ [] := by
  rw [Nat.pos_iff_ne_zero, ne_eq, size_eq_zero_iff]

@[simp]
theorem utf8ByteSize_string (text : List α) : (string text).utf8ByteSize = size text :=
  String.utf8ByteSize_ofList (chars text)

theorem length_bytes (text : List α) : (bytes text).length = size text := by
  induction text with
  | nil => rfl
  | cons glyph text ih =>
    rw [bytes_cons, List.length_append, String.length_utf8EncodeChar, size_cons, ih]

theorem toUTF8_string (text : List α) : (string text).toUTF8.data.toList = bytes text := by
  change (String.ofList (chars text)).toByteArray.data.toList = bytes text
  rw [String.toByteArray_ofList]
  exact List.toList_data_toByteArray

theorem getElem?_toUTF8 (source : String) (offset : Nat) :
    source.toUTF8[offset]? = (bytes source.toList)[offset]? := by
  rw [← toUTF8_string, string, chars_self, String.ofList_toList, Array.getElem?_toList]
  rfl

def split? : Nat → List α → Option (List α × List α)
  | offset, [] => if offset = 0 then some ([], []) else none
  | offset, glyph :: text =>
      if offset = 0 then some ([], glyph :: text)
      else if (Glyph.char glyph).utf8Size ≤ offset then
        (split? (offset - (Glyph.char glyph).utf8Size) text).map fun (front, rest) => (glyph :: front, rest)
      else none

theorem split?_append (front rest : List α) : split? (size front) (front ++ rest) = some (front, rest) := by
  induction front with
  | nil => cases rest <;> rfl
  | cons glyph front ih =>
    have positive := (Glyph.char glyph).utf8Size_pos
    rw [List.cons_append, split?, size_cons, if_neg (by omega), if_pos (by omega), Nat.add_sub_cancel_left, ih]
    rfl

theorem append_of_split? {offset : Nat} {text front rest : List α} (split : split? offset text = some (front, rest)) :
    text = front ++ rest ∧ size front = offset := by
  induction text generalizing offset front with
  | nil =>
    unfold split? at split
    split_ifs at split with start
    cases split
    exact ⟨rfl, start.symm⟩
  | cons glyph text ih =>
    unfold split? at split
    split_ifs at split with start within
    · cases split
      exact ⟨rfl, start.symm⟩
    · obtain ⟨⟨front', rest'⟩, inner, same⟩ := Option.map_eq_some_iff.mp split
      cases same
      obtain ⟨rfl, stops⟩ := ih inner
      refine ⟨rfl, ?_⟩
      rw [size_cons]
      omega

theorem split?_eq_some_iff {offset : Nat} {text front rest : List α} :
    split? offset text = some (front, rest) ↔ text = front ++ rest ∧ size front = offset :=
  ⟨append_of_split?, fun ⟨whole, stops⟩ => by rw [whole, ← stops, split?_append]⟩

theorem exists_append_of_size_le {front rest front' rest' : List α} (same : front ++ rest = front' ++ rest')
    (fewer : size front ≤ size front') : ∃ lead, front' = front ++ lead ∧ rest = lead ++ rest' := by
  rcases List.append_eq_append_iff.mp same with ⟨lead, longer, split⟩ | ⟨surplus, longer, split⟩
  · exact ⟨lead, longer, split⟩
  · rw [longer, size_append] at fewer
    have none : surplus = [] := size_eq_zero_iff.mp (by omega)
    subst none
    exact ⟨[], by simpa using longer.symm, by simpa using split.symm⟩

theorem append_inj_of_size {front rest front' rest' : List α} (same : front ++ rest = front' ++ rest')
    (sizes : size front = size front') : front = front' ∧ rest = rest' := by
  obtain ⟨lead, rfl, rfl⟩ := exists_append_of_size_le same sizes.le
  rw [size_append] at sizes
  have none : lead = [] := size_eq_zero_iff.mp (by omega)
  subst none
  exact ⟨(List.append_nil front).symm, rfl⟩

def slice? (start stop : Nat) (text : List α) : Option (List α) :=
  (split? stop text).bind fun (front, _) => (split? start front).map Prod.snd

theorem slice?_eq_some_iff {start stop : Nat} {text part : List α} :
    slice? start stop text = some part ↔
      ∃ before behind, text = before ++ (part ++ behind) ∧ size before = start ∧ size before + size part = stop := by
  simp only [slice?, Option.bind_eq_some_iff, Option.map_eq_some_iff, Prod.exists, split?_eq_some_iff]
  constructor
  · rintro ⟨front, behind, ⟨rfl, stops⟩, before, _, ⟨rfl, starts⟩, rfl⟩
    exact ⟨before, behind, List.append_assoc .., starts, by rw [← size_append, stops]⟩
  · rintro ⟨before, behind, rfl, starts, stops⟩
    exact ⟨before ++ part, behind, ⟨(List.append_assoc ..).symm, by rw [size_append, stops]⟩, before, part,
      ⟨rfl, starts⟩, rfl⟩

end PipelineChart.Text
