import Mathlib.Data.String.Basic
import PipelineChart.Proofs.Source.Kept

/-!
Spans of a source. The characters of a source stand one behind the other, and so do those that are kept
without comments. The span of a part of what is kept therefore cuts a slice out of the source, between
characters of it, and the part is what is kept of the slice.
-/

namespace PipelineChart

open Text

/-- The span begins and ends between characters of the source, and `slice` is what it holds. -/
def Span.Cuts (span : Span) (source slice : String) : Prop :=
  ∃ before behind, source = before ++ slice ++ behind ∧ before.utf8ByteSize = span.start ∧
    (before ++ slice).utf8ByteSize = span.stop

/-- What the span cuts out of the source is `text` when comments are removed. -/
def Span.Marks (span : Span) (source : String) (text : List Char) : Prop :=
  ∃ slice, span.Cuts source slice ∧ Comment.strip slice.toList = text

theorem Span.Cuts.bounds {span : Span} {source slice : String} (cuts : span.Cuts source slice) :
    span.start ≤ span.stop ∧ span.stop ≤ source.utf8ByteSize ∧
      String.Pos.Raw.IsValid source ⟨span.start⟩ ∧ String.Pos.Raw.IsValid source ⟨span.stop⟩ := by
  obtain ⟨before, behind, rfl, start, stop⟩ := cuts
  refine ⟨span.ordered, ?_, ?_, ?_⟩
  · rw [← stop, String.utf8ByteSize_append (t := behind)]
    exact Nat.le_add_right _ _
  · rw [String.Pos.Raw.isValid_iff_exists_append, ← start]
    exact ⟨before, slice ++ behind, String.append_assoc, rfl⟩
  · rw [String.Pos.Raw.isValid_iff_exists_append, ← stop]
    exact ⟨before ++ slice, behind, rfl, rfl⟩

namespace Placed

open String (utf8Len)

/-- Each glyph ends before the next ones begin. -/
def Ordered (text : List Placed) : Prop := text.Pairwise fun glyph later => glyph.stop ≤ later.offset

theorem offset_lt_stop (glyph : Placed) : glyph.offset < glyph.stop :=
  Nat.lt_add_of_pos_right glyph.char.utf8Size_pos

theorem le_offset_locate {offset : Nat} {text : List Char} :
    ∀ glyph ∈ locate offset text, offset ≤ glyph.offset := by
  induction text generalizing offset with
  | nil => simp [locate]
  | cons char text ih =>
    rw [locate, List.forall_mem_cons]
    refine ⟨Nat.le_refl _, fun glyph member => ?_⟩
    exact (Nat.le_add_right _ _).trans (ih glyph member)

theorem ordered_locate (offset : Nat) (text : List Char) : Ordered (locate offset text) := by
  induction text generalizing offset with
  | nil => exact List.Pairwise.nil
  | cons char text ih => exact List.Pairwise.cons le_offset_locate (ih _)

theorem locate_append (offset : Nat) (text rest : List Char) :
    locate offset (text ++ rest) = locate offset text ++ locate (offset + utf8Len text) rest := by
  induction text generalizing offset with
  | nil => rfl
  | cons char text ih =>
    simp only [List.cons_append, locate, ih, String.utf8Len_cons]
    congr 3
    omega

theorem locate_eq_append {offset : Nat} {text : List Char} {front rest : List Placed}
    (split : locate offset text = front ++ rest) :
    text = chars front ++ chars rest ∧ front = locate offset (chars front) ∧
      rest = locate (offset + utf8Len (chars front)) (chars rest) := by
  have whole : text = chars front ++ chars rest := by
    rw [← chars_locate offset text, split, chars, List.map_append]
    rfl
  have located (start : Nat) (part : List Char) : (locate start part).length = part.length := by
    rw [← chars_length, chars_locate]
  rw [whole, locate_append] at split
  have same := List.append_inj split (by rw [located, chars_length])
  exact ⟨whole, same.1.symm, same.2.symm⟩

theorem span_congr {text other : List Placed} (first : text.head? = other.head?)
    (last : text.getLast? = other.getLast?) : span text = span other := by
  rw [span, span, first, last]

theorem exists_last (offset : Nat) (char : Char) (text : List Char) :
    ∃ last, (locate offset (char :: text)).getLast? = some last ∧
      last.stop = offset + utf8Len (char :: text) := by
  induction text generalizing offset char with
  | nil => exact ⟨⟨char, offset⟩, rfl, by simp [stop]⟩
  | cons next text ih =>
    obtain ⟨last, found, same⟩ := ih (offset + char.utf8Size) next
    refine ⟨last, ?_, ?_⟩
    · rw [locate, locate, List.getLast?_cons_cons]
      exact found
    · rw [same, String.utf8Len_cons (c := char)]
      omega

theorem span_locate (offset : Nat) {text : List Char} (nonempty : text ≠ []) :
    (span (locate offset text)).start = offset ∧
      (span (locate offset text)).stop = offset + utf8Len text := by
  obtain ⟨char, text, rfl⟩ := List.exists_cons_of_ne_nil nonempty
  obtain ⟨last, found, stop⟩ := exists_last offset char text
  have bounds : span (locate offset (char :: text)) = Span.ofBounds offset last.stop := by
    rw [span, found]
    rfl
  rw [bounds, Span.ofBounds, stop]
  exact ⟨rfl, Nat.max_eq_right (Nat.le_add_right _ _)⟩

theorem cuts_of_split {source : String} {before slice behind : List Placed}
    (split : locate 0 source.toList = before ++ (slice ++ behind)) (nonempty : slice ≠ []) :
    (span slice).Cuts source (string slice) := by
  obtain ⟨whole, _, located⟩ := locate_eq_append split
  obtain ⟨_, located', _⟩ := locate_eq_append located.symm
  have visible : chars slice ≠ [] := by
    intro empty
    exact nonempty (List.map_eq_nil_iff.mp empty)
  obtain ⟨start, stop⟩ := span_locate (0 + utf8Len (chars before)) visible
  rw [← located'] at start stop
  refine ⟨string before, string behind, ?_, ?_, ?_⟩
  · rw [← String.toList_inj, whole]
    simp [string, chars]
  · rw [start, string, String.utf8ByteSize_ofList, Nat.zero_add]
  · rw [stop, String.utf8ByteSize_append, string, string, String.utf8ByteSize_ofList,
      String.utf8ByteSize_ofList, Nat.zero_add]

theorem marks_of_kept {source : String} {before part behind : List Placed}
    (kept : Comment.strip (locate 0 source.toList) = before ++ (part ++ behind)) (nonempty : part ≠ []) :
    (span part).Marks source (chars part) := by
  obtain ⟨front, slice, rest, split, first, last, same⟩ := Comment.exists_slice kept nonempty
  have nonempty' : slice ≠ [] := by
    rintro rfl
    exact nonempty (List.head?_eq_none_iff.mp first.symm)
  refine ⟨string slice, ?_, ?_⟩
  · rw [← span_congr first last]
    exact cuts_of_split split nonempty'
  · rw [string, String.toList_ofList, Comment.strip_chars, same]

theorem ordered_of_kept {source : String} {before part behind : List Placed}
    (kept : Comment.strip (locate 0 source.toList) = before ++ (part ++ behind)) : Ordered part := by
  have ordered : Ordered (Comment.strip (locate 0 source.toList)) :=
    (ordered_locate 0 source.toList).sublist (Comment.strip_sublist _)
  rw [kept] at ordered
  exact (List.pairwise_append.mp (List.pairwise_append.mp ordered).2.1).1

theorem span_start (first : Placed) (others : List Placed) :
    (span (first :: others)).start = first.offset := by
  rw [span, List.getLast?_eq_some_getLast (List.cons_ne_nil first others)]
  rfl

theorem stop_le {part : List Placed} {bound : Nat} (nonempty : part ≠ [])
    (below : ∀ glyph ∈ part, glyph.stop ≤ bound) : (span part).stop ≤ bound := by
  obtain ⟨first, others, rfl⟩ := List.exists_cons_of_ne_nil nonempty
  rw [span, List.getLast?_eq_some_getLast nonempty]
  refine Nat.max_le.mpr ⟨?_, below _ (List.getLast_mem nonempty)⟩
  exact first.offset_lt_stop.le.trans (below first List.mem_cons_self)

theorem span_stop_le_start {part between later : List Placed} (ordered : Ordered (part ++ (between ++ later)))
    (nonempty : part ≠ []) (nonempty' : later ≠ []) : (span part).stop ≤ (span later).start := by
  obtain ⟨first, others, rfl⟩ := List.exists_cons_of_ne_nil nonempty'
  rw [span_start]
  refine stop_le nonempty fun glyph member => ?_
  exact (List.pairwise_append.mp ordered).2.2 glyph member first
    (List.mem_append_right between List.mem_cons_self)

theorem stop_le_start {front rest later : List Placed} (ordered : Ordered (front ++ rest))
    (behind : later <:+: rest) (nonempty : later ≠ []) :
    ∀ glyph ∈ front, glyph.stop ≤ (span later).start := by
  obtain ⟨first, others, rfl⟩ := List.exists_cons_of_ne_nil nonempty
  intro glyph member
  rw [span_start]
  exact (List.pairwise_append.mp ordered).2.2 glyph member first (behind.subset List.mem_cons_self)

theorem start_lt_start {front rest earlier later : List Placed} (ordered : Ordered (front ++ rest))
    (before : earlier <:+: front) (behind : later <:+: rest) (nonempty : earlier ≠ [])
    (nonempty' : later ≠ []) : (span earlier).start < (span later).start := by
  obtain ⟨first, others, rfl⟩ := List.exists_cons_of_ne_nil nonempty
  rw [span_start]
  have stops := stop_le_start ordered behind nonempty' first (before.subset List.mem_cons_self)
  exact first.offset_lt_stop.trans_le stops

end Placed

end PipelineChart
