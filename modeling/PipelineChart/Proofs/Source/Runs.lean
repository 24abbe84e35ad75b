import Mathlib.Data.List.Flatten
import PipelineChart.Proofs.Source.Clean
import PipelineChart.Proofs.Source.Cut
import PipelineChart.Proofs.Text.Bytes

/-!
What is left of a source, kept as runs. A run is a part of the source that stood between comments; it is known by
where it begins, in what is left and in the source. The place of a byte is told by the last run that begins before
it. So each byte that is left has the place of the same byte in the source, and the spans of parts are those that
the glyphs of the parts tell.
-/

namespace PipelineChart

open Text

def Placed.places (text : List Placed) : List (UInt8 × Nat) :=
  text.flatMap fun glyph => (String.utf8EncodeChar glyph.char).zipIdx glyph.offset

def Span.Holds (span : Span) (place : Nat) : Prop := span.start ≤ place ∧ place < span.stop

theorem Span.holds_ofBounds_iff {start stop place : Nat} :
    (ofBounds start stop).Holds place ↔ start ≤ place ∧ place < stop := by
  simp only [Holds, ofBounds]
  omega

/-- Where the comments of a text stand that begins at `offset`. Each is searched for behind the one before it. -/
def Comment.spans (offset : Nat) : List Char → List Span
  | [] => []
  | char :: text =>
      match _comment : after? (char :: text) with
      | some rest =>
          .ofBounds offset (offset + size (upTo rest (char :: text))) ::
            spans (offset + size (upTo rest (char :: text))) rest
      | none => spans (offset + char.utf8Size) text
termination_by text => text.length
decreasing_by
  · exact after?_shorter _comment
  · simp

/-- A part of a source that is kept: where it begins in what is left, and where in the source. -/
structure Run where
  clean : Nat
  source : Nat
  deriving DecidableEq

structure Cleaned where
  text : String
  runs : List Run
  deriving DecidableEq

namespace Cleaned

/-- Keeps a range of the source, if it is not empty. A range that cuts a character cannot be kept. -/
def keep (source : String) (start stop : Nat) (cleaned : Cleaned) : Option Cleaned :=
  if start < stop then
    (slice? start stop source.toList).map fun part =>
      ⟨cleaned.text ++ String.ofList part, cleaned.runs ++ [⟨cleaned.text.utf8ByteSize, start⟩]⟩
  else some cleaned

def gather (source : String) (last : Nat) (cleaned : Cleaned) : List Span → Option Cleaned
  | [] => cleaned.keep source last source.utf8ByteSize
  | comment :: comments =>
      (cleaned.keep source last comment.start).bind fun longer => gather source comment.stop longer comments

def ofSource (source : String) : Option Cleaned :=
  gather source 0 ⟨"", []⟩ (Comment.spans 0 source.toList)

def verbatim (source : String) : Cleaned := ⟨source, [⟨0, 0⟩]⟩

/-- The last of the runs that begin at the offset or before it holds the byte. They are the first runs, since runs
are sorted. -/
def offset (cleaned : Cleaned) (clean : Nat) : Nat :=
  match cleaned.runs[(cleaned.runs.takeWhile fun run => run.clean ≤ clean).length - 1]? with
  | some run => run.source + (clean - run.clean)
  | none => clean

/-- The end is that of the last byte in the range: what was removed behind this is not part of the span. -/
def span (cleaned : Cleaned) (start stop : Nat) : Span :=
  .ofBounds (cleaned.offset start) (if start < stop then cleaned.offset (stop - 1) + 1 else cleaned.offset start)

example : ofSource "/*a*//*b*/é//c\n/**/d//" = some ⟨"é\nd", [⟨0, 10⟩, ⟨2, 15⟩, ⟨3, 20⟩]⟩ := by decide +kernel

end Cleaned

namespace Placed

theorem places_append (front rest : List Placed) : places (front ++ rest) = places front ++ places rest :=
  List.flatMap_append

theorem places_cons (glyph : Placed) (text : List Placed) :
    places (glyph :: text) = (String.utf8EncodeChar glyph.char).zipIdx glyph.offset ++ places text :=
  List.flatMap_cons

theorem map_fst_places (text : List Placed) : (places text).map Prod.fst = bytes text := by
  induction text with
  | nil => rfl
  | cons glyph text ih =>
    rw [places_cons, List.map_append, List.zipIdx_map_fst, ih]
    rfl

theorem length_places (text : List Placed) : (places text).length = size text := by
  rw [← List.length_map Prod.fst, map_fst_places, length_bytes]

theorem size_locate (offset : Nat) (text : List Char) : size (locate offset text) = size text := by
  rw [size, chars_locate, size, chars_self]

theorem places_locate (offset : Nat) (text : List Char) :
    places (locate offset text) = (bytes text).zipIdx offset := by
  induction text generalizing offset with
  | nil => rfl
  | cons char text ih =>
    rw [locate, places_cons, ih, bytes_cons, List.zipIdx_append, char_self, String.length_utf8EncodeChar]

theorem pairwise_zipIdx (offset : Nat) (bytes : List UInt8) :
    (bytes.zipIdx offset).Pairwise fun spot later => spot.2 < later.2 := by
  rw [← List.pairwise_map (f := Prod.snd) (R := (· < ·)), List.zipIdx_map_snd]
  exact List.pairwise_lt_range'

theorem getElem?_zipIdx_encode {glyph : Placed} {index : Nat} (inside : index < glyph.char.utf8Size) :
    ((String.utf8EncodeChar glyph.char).zipIdx glyph.offset)[index]?.map Prod.snd = some (glyph.offset + index) := by
  rw [← String.length_utf8EncodeChar] at inside
  rw [List.getElem?_zipIdx, List.getElem?_eq_getElem inside]
  rfl

theorem first_place (first : Placed) (others : List Placed) :
    (places (first :: others))[0]?.map Prod.snd = some first.offset := by
  have positive := first.char.utf8Size_pos
  have inside : 0 < ((String.utf8EncodeChar first.char).zipIdx first.offset).length := by
    rw [List.length_zipIdx, String.length_utf8EncodeChar]
    exact positive
  rw [places_cons, List.getElem?_append_left inside]
  exact getElem?_zipIdx_encode positive

theorem last_place (front : List Placed) (last : Placed) :
    (places (front ++ [last]))[size (front ++ [last]) - 1]?.map Prod.snd = some (last.stop - 1) := by
  have positive := last.char.utf8Size_pos
  have total : size (front ++ [last]) = size front + last.char.utf8Size := by
    rw [size_append, size_cons, size_nil]
    rfl
  rw [places_append, List.getElem?_append_right (by rw [length_places]; omega), places_cons, length_places,
    show places [] = [] from rfl, List.append_nil, getElem?_zipIdx_encode (by omega), stop]
  congr 1
  omega

theorem places_strip_sublist (source : String) :
    (places (Comment.strip (locate 0 source.toList))).Sublist ((bytes source.toList).zipIdx) := by
  rw [← places_locate]
  exact (Comment.strip_sublist (locate 0 source.toList)).flatMap _

end Placed

namespace Comment

open Placed (locate places)

theorem after?_locate {offset : Nat} {text rest : List Char} (comment : after? text = some rest) :
    after? (locate offset text) = some (locate (offset + size (upTo rest text)) rest) := by
  have found := after?_chars (locate offset text)
  rw [Placed.chars_locate, comment] at found
  obtain ⟨rest', comment', rfl⟩ := Option.map_eq_some_iff.mp found.symm
  obtain ⟨front, split, _⟩ := after?_kept comment'
  obtain ⟨whole, _, located⟩ := Placed.locate_eq_append split
  rw [comment', whole, upTo_append, size_chars]
  exact congrArg some located

theorem after?_locate_of_none {offset : Nat} {text : List Char} (absent : after? text = none) :
    after? (locate offset text) = none := by
  have found := after?_chars (locate offset text)
  rw [Placed.chars_locate, absent] at found
  exact Option.map_eq_none_iff.mp found.symm

theorem strip_locate_of_comment {offset : Nat} {text rest : List Char} (comment : after? text = some rest) :
    strip (locate offset text) = strip (locate (offset + size (upTo rest text)) rest) :=
  strip_of_comment (after?_locate comment)

theorem strip_locate_of_none {offset : Nat} {char : Char} {text : List Char} (absent : after? (char :: text) = none) :
    strip (locate offset (char :: text)) = ⟨char, offset⟩ :: strip (locate (offset + char.utf8Size) text) :=
  strip_cons_of_none (after?_locate_of_none absent)

theorem eq_upTo_append {text rest : List Char} (comment : after? text = some rest) :
    text = upTo rest text ++ rest := by
  obtain ⟨front, rfl, _⟩ := after?_kept comment
  rw [upTo_append]

theorem size_eq_add {text rest : List Char} (comment : after? text = some rest) :
    size text = size (upTo rest text) + size rest := by
  rw [← size_append, ← eq_upTo_append comment]

theorem spans_within {offset : Nat} {text : List Char} :
    ∀ comment ∈ spans offset text, offset ≤ comment.start ∧ comment.stop ≤ offset + size text := by
  fun_induction spans offset text with
  | case1 => simp
  | case2 offset char text rest comment ih =>
    have total := size_eq_add comment
    rw [List.forall_mem_cons]
    refine ⟨⟨Nat.le_refl _, Nat.max_le.mpr ⟨Nat.le_add_right .., by omega⟩⟩, fun later member => ?_⟩
    have bounds := ih later member
    omega
  | case3 offset char text absent ih =>
    intro later member
    have bounds := ih later member
    rw [size_cons, char_self]
    omega

theorem mem_places_strip_iff {offset : Nat} {text : List Char} {place : Nat} :
    place ∈ (places (strip (locate offset text))).map Prod.snd ↔
      (offset ≤ place ∧ place < offset + size text) ∧ ∀ comment ∈ spans offset text, ¬ comment.Holds place := by
  fun_induction spans offset text with
  | case1 => simp [locate, strip, places]
  | case2 offset char text rest comment ih =>
    have total := size_eq_add comment
    rw [strip_locate_of_comment comment, ih, List.forall_mem_cons, Span.holds_ofBounds_iff]
    rw [← and_assoc]
    refine and_congr_left fun _ => ?_
    omega
  | case3 offset char text absent ih =>
    have later : place < offset + char.utf8Size →
        ∀ comment ∈ spans (offset + char.utf8Size) text, ¬ comment.Holds place :=
      fun before comment member held => by
        have bounds := spans_within comment member
        have begun := held.1
        omega
    rw [strip_locate_of_none absent, Placed.places_cons, List.map_append, List.mem_append, ih, List.zipIdx_map_snd,
      List.mem_range'_1, String.length_utf8EncodeChar, size_cons, char_self]
    dsimp only
    constructor
    · rintro (here | ⟨bounds, free⟩)
      · exact ⟨by omega, later here.2⟩
      · exact ⟨by omega, free⟩
    · rintro ⟨bounds, free⟩
      by_cases here : place < offset + char.utf8Size
      · exact .inl ⟨bounds.1, here⟩
      · exact .inr ⟨by omega, free⟩

end Comment

namespace Cleaned

open Placed (locate places)

/-- The runs hold the kept glyphs, each byte of them at its place. -/
structure Maps (cleaned : Cleaned) (kept : List Placed) : Prop where
  text : cleaned.text = string kept
  first : ∀ run ∈ cleaned.runs.head?, run.clean = 0
  sorted : cleaned.runs.Pairwise fun run later => run.clean < later.clean
  inside : ∀ run ∈ cleaned.runs, run.clean < size kept
  filled : kept ≠ [] → cleaned.runs ≠ []
  place : ∀ clean spot, (places kept)[clean]? = some spot → cleaned.offset clean = spot.2

variable {cleaned : Cleaned} {source : String} {kept : List Placed}

theorem maps_empty : Maps ⟨"", []⟩ [] := by
  constructor <;> simp [string, places]

theorem offset_append_of_lt {text text' : String} {runs : List Run} {run : Run} {clean : Nat} (some : runs ≠ [])
    (behind : clean < run.clean) : offset ⟨text', runs ++ [run]⟩ clean = offset ⟨text, runs⟩ clean := by
  have unseen : (runs ++ [run]).takeWhile (fun run => run.clean ≤ clean) =
      runs.takeWhile fun run => run.clean ≤ clean := by
    rw [List.takeWhile_append, List.takeWhile_cons_of_neg (by simpa using behind)]
    split_ifs with whole
    · rw [List.append_nil, (List.takeWhile_prefix _).eq_of_length whole]
    · rfl
  have counted : (runs.takeWhile fun run => run.clean ≤ clean).length - 1 < runs.length := by
    have fewer := (List.takeWhile_prefix (p := fun run : Run => decide (run.clean ≤ clean)) (l := runs)).length_le
    have positive := List.length_pos_iff.mpr some
    omega
  simp only [offset, unseen, List.getElem?_append_left counted]

theorem offset_append_of_le {text : String} {runs : List Run} {run : Run} {clean : Nat}
    (before : ∀ earlier ∈ runs, earlier.clean ≤ clean) (here : run.clean ≤ clean) :
    offset ⟨text, runs ++ [run]⟩ clean = run.source + (clean - run.clean) := by
  have all : (runs ++ [run]).takeWhile (fun run => run.clean ≤ clean) = runs ++ [run] := by
    rw [List.takeWhile_eq_self_iff]
    intro other member
    rcases List.mem_append.mp member with earlier | last
    · simpa using before other earlier
    · rw [List.mem_singleton.mp last]
      simpa using here
  simp only [offset, all, List.length_append, List.length_singleton, Nat.add_sub_cancel, List.getElem?_concat_length]

theorem Maps.append {start : Nat} {part : List Char} (maps : Maps cleaned kept) (nonempty : part ≠ []) :
    Maps ⟨cleaned.text ++ String.ofList part, cleaned.runs ++ [⟨cleaned.text.utf8ByteSize, start⟩]⟩
      (kept ++ locate start part) := by
  have length : cleaned.text.utf8ByteSize = size kept := by rw [maps.text, utf8ByteSize_string]
  have longer : 0 < size part := size_pos_iff.mpr nonempty
  constructor
  case text => rw [maps.text, string, string, chars_append, Placed.chars_locate, String.ofList_append]
  case first =>
    intro run begun
    cases runs : cleaned.runs with
    | nil =>
      have none : kept = [] := by
        by_contra some
        exact maps.filled some runs
      simp only [runs, List.nil_append, List.head?_cons, Option.mem_def, Option.some_inj] at begun
      rw [← begun, length, none, size_nil]
    | cons first others =>
      simp only [runs, List.cons_append, List.head?_cons, Option.mem_def] at begun
      exact maps.first run (by rw [runs]; exact begun)
  case sorted =>
    refine List.pairwise_append.mpr ⟨maps.sorted, List.pairwise_singleton _ _, fun run earlier last member => ?_⟩
    rw [List.mem_singleton.mp member, length]
    exact maps.inside run earlier
  case inside =>
    intro run member
    rw [size_append, Placed.size_locate]
    rcases List.mem_append.mp member with earlier | last
    · exact (maps.inside run earlier).trans_le (Nat.le_add_right ..)
    · rw [List.mem_singleton.mp last, length]
      exact Nat.lt_add_of_pos_right longer
  case filled => exact fun _ => List.append_ne_nil_of_right_ne_nil _ (List.cons_ne_nil _ _)
  case place =>
    intro clean spot found
    rw [Placed.places_append] at found
    by_cases earlier : clean < size kept
    · rw [List.getElem?_append_left (by rwa [Placed.length_places])] at found
      rw [offset_append_of_lt (maps.filled ?_) (by rwa [length])]
      · exact maps.place clean spot found
      · rintro rfl
        cases earlier
    · rw [List.getElem?_append_right (by rw [Placed.length_places]; omega), Placed.length_places,
        Placed.places_locate, List.getElem?_zipIdx] at found
      obtain ⟨byte, _, rfl⟩ := Option.map_eq_some_iff.mp found
      have here : cleaned.text.utf8ByteSize ≤ clean := by omega
      rw [offset_append_of_le (fun run member => (maps.inside run member).le.trans (by omega)) here, length]

theorem Maps.keep {done gap text : List Char} (maps : Maps cleaned kept)
    (whole : source.toList = done ++ (gap ++ text)) :
    ∃ longer, cleaned.keep source (size done) (size (done ++ gap)) = some longer ∧
      Maps longer (kept ++ locate (size done) gap) := by
  rw [Cleaned.keep, size_append]
  by_cases empty : gap = []
  · subst empty
    exact ⟨cleaned, if_neg (Nat.lt_irrefl _), by rwa [locate, List.append_nil]⟩
  · rw [if_pos (Nat.lt_add_of_pos_right (size_pos_iff.mpr empty)),
      slice?_eq_some_iff.mpr ⟨done, text, whole, rfl, rfl⟩]
    exact ⟨_, rfl, maps.append empty⟩

/-- The induction is on what is still searched for comments; `gap` was searched and is kept with what follows. -/
theorem Maps.gather {done gap text : List Char} (maps : Maps cleaned kept)
    (whole : source.toList = done ++ (gap ++ text)) :
    ∃ longer, gather source (size done) cleaned (Comment.spans (size (done ++ gap)) text) = some longer ∧
      Maps longer (kept ++ (locate (size done) gap ++ Comment.strip (locate (size (done ++ gap)) text))) := by
  generalize begun : size (done ++ gap) = offset
  fun_induction Comment.spans offset text generalizing done gap cleaned kept with
  | case1 =>
    have stops : source.utf8ByteSize = size (done ++ gap) := by
      rw [← size_toList, whole, List.append_nil]
    obtain ⟨longer, result, maps'⟩ := maps.keep whole
    rw [Cleaned.gather, stops, locate, Comment.strip, List.append_nil]
    exact ⟨longer, result, maps'⟩
  | case2 offset char text rest comment ih =>
    obtain ⟨middle, result, maps'⟩ := maps.keep whole
    have split := Comment.eq_upTo_append comment
    have stops : size (done ++ (gap ++ upTo rest (char :: text))) = offset + size (upTo rest (char :: text)) := by
      rw [← begun, size_append, size_append, size_append, Nat.add_assoc]
    have whole' : source.toList = done ++ (gap ++ upTo rest (char :: text)) ++ ([] ++ rest) := by
      rw [whole, List.append_assoc, List.append_assoc, List.nil_append, ← split]
    obtain ⟨longer, result', maps''⟩ := ih maps' whole' (by rw [List.append_nil, stops])
    refine ⟨longer, ?_, ?_⟩
    · have stop : (Span.ofBounds offset (size (done ++ (gap ++ upTo rest (char :: text))))).stop =
          size (done ++ (gap ++ upTo rest (char :: text))) :=
        Nat.max_eq_right (by rw [stops]; exact Nat.le_add_right ..)
      rw [← stops] at result' ⊢
      rw [Cleaned.gather, stop, ← begun]
      change (cleaned.keep source (size done) (size (done ++ gap))).bind _ = some longer
      rw [result]
      exact result'
    · rw [Comment.strip_locate_of_comment comment]
      simpa [locate] using maps''
  | case3 offset char text absent ih =>
    have whole' : source.toList = done ++ (gap ++ [char] ++ text) := by simpa using whole
    have begun' : size (done ++ (gap ++ [char])) = offset + char.utf8Size := by
      rw [← begun]
      simp [Nat.add_assoc]
    obtain ⟨longer, result, maps'⟩ := ih maps whole' begun'
    refine ⟨longer, result, ?_⟩
    rw [Comment.strip_locate_of_none absent]
    simpa [Placed.locate_append, locate, ← begun, ← size_self] using maps'

theorem maps_ofSource (source : String) :
    ∃ cleaned, ofSource source = some cleaned ∧ Maps cleaned (Comment.strip (locate 0 source.toList)) :=
  maps_empty.gather (show source.toList = [] ++ ([] ++ source.toList) from rfl)

theorem Maps.exists_spot (maps : Maps cleaned kept) {clean : Nat} (inside : clean < size kept) :
    ∃ spot, (places kept)[clean]? = some spot ∧ cleaned.offset clean = spot.2 := by
  have found := List.getElem?_eq_getElem (l := places kept) (i := clean) (by rwa [Placed.length_places])
  exact ⟨_, found, maps.place clean _ found⟩

theorem Maps.place_in {before part behind : List Placed} (maps : Maps cleaned (before ++ (part ++ behind)))
    {index : Nat} (inside : index < size part) :
    (places part)[index]?.map Prod.snd = some (cleaned.offset (size before + index)) := by
  have within : size before + index < size (before ++ (part ++ behind)) := by
    rw [size_append, size_append]
    omega
  obtain ⟨spot, found, same⟩ := maps.exists_spot within
  rw [Placed.places_append, List.getElem?_append_right (by rw [Placed.length_places]; omega), Placed.length_places,
    Nat.add_sub_cancel_left, Placed.places_append, List.getElem?_append_left (by rwa [Placed.length_places])] at found
  rw [found, same]
  rfl

theorem Maps.mem_places_iff (maps : Maps cleaned kept) (place : Nat) :
    place ∈ (places kept).map Prod.snd ↔ ∃ clean < size kept, cleaned.offset clean = place := by
  constructor
  · intro member
    obtain ⟨spot, listed, rfl⟩ := List.mem_map.mp member
    obtain ⟨clean, inside, rfl⟩ := List.getElem_of_mem listed
    rw [Placed.length_places] at inside
    exact ⟨clean, inside, maps.place clean _ (List.getElem?_eq_getElem _)⟩
  · rintro ⟨clean, inside, rfl⟩
    obtain ⟨spot, found, same⟩ := maps.exists_spot inside
    rw [same]
    exact List.mem_map_of_mem (List.mem_of_getElem? found)

theorem Maps.span_eq {before part behind : List Placed} (maps : Maps cleaned (before ++ (part ++ behind)))
    (nonempty : part ≠ []) : cleaned.span (size before) (size before + size part) = Placed.span part := by
  have longer : 0 < size part := size_pos_iff.mpr nonempty
  have begun := maps.place_in longer
  have ended := maps.place_in (Nat.sub_lt longer Nat.one_pos)
  have parted := List.dropLast_append_getLast nonempty
  rw [← parted, Placed.last_place, parted, Option.some_inj] at ended
  obtain ⟨first, others, rfl⟩ := List.exists_cons_of_ne_nil nonempty
  rw [Placed.first_place, Option.some_inj, Nat.add_zero] at begun
  have stop := Nat.sub_add_cancel (Nat.one_le_of_lt ((first :: others).getLast nonempty).offset_lt_stop)
  rw [Placed.span, List.getLast?_eq_some_getLast nonempty, span, if_pos (by omega), ← begun,
    Nat.add_sub_assoc longer, ← ended, stop]
  rfl

section

variable (maps : Maps cleaned (Comment.strip (locate 0 source.toList)))

include maps

theorem Maps.length : cleaned.text.utf8ByteSize = size (Comment.strip (locate 0 source.toList)) := by
  rw [maps.text, utf8ByteSize_string]

theorem Maps.increasing {clean later : Nat} (before : clean < later) (inside : later < cleaned.text.utf8ByteSize) :
    cleaned.offset clean < cleaned.offset later := by
  have sorted : (places (Comment.strip (locate 0 source.toList))).Pairwise fun spot later => spot.2 < later.2 :=
    (Placed.pairwise_zipIdx 0 (bytes source.toList)).sublist (Placed.places_strip_sublist source)
  rw [maps.length] at inside
  obtain ⟨spot, found, same⟩ := maps.exists_spot (before.trans inside)
  obtain ⟨spot', found', same'⟩ := maps.exists_spot inside
  obtain ⟨_, rfl⟩ := List.getElem?_eq_some_iff.mp found
  obtain ⟨_, rfl⟩ := List.getElem?_eq_some_iff.mp found'
  rw [same, same']
  exact List.pairwise_iff_getElem.mp sorted _ _ _ _ before

theorem Maps.byte {clean : Nat} (inside : clean < cleaned.text.utf8ByteSize) :
    source.toUTF8[cleaned.offset clean]? = cleaned.text.toUTF8[clean]? := by
  rw [maps.length] at inside
  obtain ⟨⟨byte, place⟩, found, same⟩ := maps.exists_spot inside
  have member := (Placed.places_strip_sublist source).subset (List.mem_of_getElem? found)
  have here : (bytes source.toList)[place]? = some byte := List.mk_mem_zipIdx_iff_getElem?.mp member
  have there : (bytes (Comment.strip (locate 0 source.toList)))[clean]? = some byte := by
    rw [← Placed.map_fst_places, List.getElem?_map, found]
    rfl
  rw [same, getElem?_toUTF8, here, getElem?_toUTF8, maps.text, string, String.toList_ofList, bytes_chars, there]

theorem Maps.missed {place : Nat} : (∃ comment ∈ Comment.spans 0 source.toList, comment.Holds place) ↔
    place < source.utf8ByteSize ∧ ∀ clean < cleaned.text.utf8ByteSize, cleaned.offset clean ≠ place := by
  have hit := maps.mem_places_iff place
  rw [Comment.mem_places_strip_iff, ← maps.length] at hit
  have total := size_toList source
  constructor
  · rintro ⟨comment, member, held⟩
    have bounds := Comment.spans_within comment member
    have stops := held.2
    exact ⟨by omega, fun clean inside same => (hit.mpr ⟨clean, inside, same⟩).2 comment member held⟩
  · rintro ⟨inside, unhit⟩
    by_contra free
    simp only [not_exists, not_and] at free
    obtain ⟨clean, within, same⟩ := hit.mp ⟨⟨Nat.zero_le _, by omega⟩, free⟩
    exact unhit clean within same

theorem Maps.marked {range : Span} {part : String} (cuts : range.Cuts cleaned.text part)
    (longer : range.start < range.stop) : (cleaned.span range.start range.stop).Marks source part.toList := by
  obtain ⟨front, rest, whole, start, stop⟩ := cuts
  have spelled : chars (Comment.strip (locate 0 source.toList)) = front.toList ++ (part.toList ++ rest.toList) := by
    rw [← String.toList_ofList (l := chars (Comment.strip _)), ← string, ← maps.text, whole]
    simp
  obtain ⟨before, parts, split, spelled', spelled''⟩ := List.map_eq_append_iff.mp spelled
  obtain ⟨glyphs, behind, rfl, same, _⟩ := List.map_eq_append_iff.mp spelled''
  have begun : size before = range.start := by
    rw [← size_chars before, chars, spelled', size_toList, start]
  have ended : size before + size glyphs = range.stop := by
    rw [begun, ← start, ← stop, String.utf8ByteSize_append, ← size_toList part, ← size_chars glyphs, chars, same]
  have nonempty : glyphs ≠ [] := by
    rintro rfl
    rw [size_nil] at ended
    omega
  rw [split] at maps
  rw [← begun, ← ended, maps.span_eq nonempty, ← same]
  exact Placed.marks_of_kept split nonempty

end

/-- What is left of a source, with the place of each of its bytes. No offset is before all runs, since the first of
them begins at zero. -/
structure Inverts (cleaned : Cleaned) (source : String) : Prop where
  text : cleaned.text = Comment.cleaned source
  first : ∀ run ∈ cleaned.runs.head?, run.clean = 0
  sorted : cleaned.runs.Pairwise fun run later => run.clean < later.clean
  increasing : ∀ clean later, clean < later → later < cleaned.text.utf8ByteSize →
    cleaned.offset clean < cleaned.offset later
  byte : ∀ clean < cleaned.text.utf8ByteSize, source.toUTF8[cleaned.offset clean]? = cleaned.text.toUTF8[clean]?
  missed : ∀ place, (∃ comment ∈ Comment.spans 0 source.toList, comment.Holds place) ↔
    place < source.utf8ByteSize ∧ ∀ clean < cleaned.text.utf8ByteSize, cleaned.offset clean ≠ place
  marked : ∀ (range : Span) (part : String), range.Cuts cleaned.text part → range.start < range.stop →
    (cleaned.span range.start range.stop).Marks source part.toList
  span : ∀ before part behind, Comment.strip (locate 0 source.toList) = before ++ (part ++ behind) → part ≠ [] →
    cleaned.span (size before) (size before + size part) = Placed.span part

theorem Maps.inverts (maps : Maps cleaned (Comment.strip (locate 0 source.toList))) : Inverts cleaned source where
  text := maps.text
  first := maps.first
  sorted := maps.sorted
  increasing _ _ before inside := maps.increasing before inside
  byte _ inside := maps.byte inside
  missed _ := maps.missed
  marked _ _ cuts longer := maps.marked cuts longer
  span _ _ _ split nonempty := (split ▸ maps).span_eq nonempty

theorem span_verbatim (source : String) (range : Span) : (verbatim source).span range.start range.stop = range := by
  have same (clean : Nat) : (verbatim source).offset clean = clean := by simp [offset, verbatim]
  obtain ⟨start, stop, ordered⟩ := range
  simp only [span, same, Span.ofBounds, Span.mk.injEq, true_and]
  split_ifs <;> omega

/-- Every source is cleaned without cutting a character, and the offsets that are kept with what is left lead each
byte and each part of it back to where it stood. Where nothing is removed the offsets stay as they are. -/
theorem inverts_ofSource (source : String) :
    (∃ cleaned, ofSource source = some cleaned ∧ Inverts cleaned source) ∧
      ∀ range : Span, (verbatim source).span range.start range.stop = range := by
  obtain ⟨cleaned, result, maps⟩ := maps_ofSource source
  exact ⟨⟨cleaned, result, maps.inverts⟩, span_verbatim source⟩

end Cleaned

end PipelineChart
