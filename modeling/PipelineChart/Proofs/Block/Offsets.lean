import PipelineChart.Proofs.Block.Place
import PipelineChart.Proofs.Text.Bytes

/-!
Blocks by offsets. What is read off a text glyph by glyph can be read off its bytes as well: braces are counted byte
by byte, a keyword is searched for from an offset on, and what is found is told by where it begins and ends. Every
slice and every difference of offsets is checked. None of the checks fails, and the bounds hold what the readers of
glyphs find.
-/

namespace PipelineChart

open Text

variable {α : Type} [Glyph α]

/-- What must not happen where a text is read by offsets: a slice that cuts a glyph or leaves the text, a difference
below zero, a search from behind the end, a block that begins with no brace, a loop that does not move on. -/
inductive Panic where
  | slice
  | difference
  | search
  | brace
  | stuck
  deriving DecidableEq

def minus (whole part : Nat) : Except Panic Nat :=
  if part ≤ whole then .ok (whole - part) else .error .difference

theorem minus_of_le {whole part : Nat} (within : part ≤ whole) : minus whole part = .ok (whole - part) :=
  if_pos within

theorem ok_bind {ε β γ : Type} (value : β) (next : β → Except ε γ) : (Except.ok value >>= next) = next value := rfl

structure Bounds where
  start : Nat
  stop : Nat
  deriving DecidableEq

namespace Bounds

def slice (bounds : Bounds) (text : List α) : Except Panic (List α) :=
  (slice? bounds.start bounds.stop text).elim (.error .slice) .ok

def shift (offset : Nat) (bounds : Bounds) : Bounds := ⟨offset + bounds.start, offset + bounds.stop⟩

/-- The bounds stand between glyphs of the text, and `part` is what they hold. -/
def Cuts (bounds : Bounds) (text part : List α) : Prop :=
  ∃ before behind, text = before ++ (part ++ behind) ∧ size before = bounds.start ∧
    bounds.start + size part = bounds.stop

variable {bounds inner : Bounds} {text part piece : List α}

theorem Cuts.slice (cuts : bounds.Cuts text part) : bounds.slice text = .ok part := by
  obtain ⟨before, behind, whole, start, stop⟩ := cuts
  rw [Bounds.slice, slice?_eq_some_iff.mpr ⟨before, behind, whole, start, by rw [start, stop]⟩]
  rfl

theorem Cuts.le (cuts : bounds.Cuts text part) : bounds.start ≤ bounds.stop ∧ bounds.stop ≤ size text := by
  obtain ⟨before, behind, rfl, start, stop⟩ := cuts
  simp only [size_append]
  omega

theorem Cuts.stop (cuts : bounds.Cuts text part) : bounds.start + size part = bounds.stop := by
  obtain ⟨before, behind, _, _, stop⟩ := cuts
  exact stop

theorem Cuts.nested (cuts : bounds.Cuts text part) (cuts' : inner.Cuts text piece)
    (begun : bounds.start ≤ inner.start) (ended : inner.stop ≤ bounds.stop) :
    ∃ lead tail, part = lead ++ (piece ++ tail) ∧ bounds.start + size lead = inner.start := by
  obtain ⟨before, behind, whole, start, stop⟩ := cuts
  obtain ⟨before', behind', whole', start', stop'⟩ := cuts'
  obtain ⟨lead, rfl, split⟩ := exists_append_of_size_le (whole.symm.trans whole') (by omega)
  rw [size_append] at start'
  rw [← List.append_assoc] at split
  obtain ⟨tail, rfl, _⟩ := exists_append_of_size_le split.symm (by rw [size_append]; omega)
  exact ⟨lead, tail, List.append_assoc .., by omega⟩

theorem Cuts.append (cuts : bounds.Cuts text part) (more : List α) : bounds.Cuts (text ++ more) part := by
  obtain ⟨before, behind, rfl, start, stop⟩ := cuts
  exact ⟨before, behind ++ more, by simp only [List.append_assoc], start, stop⟩

theorem Cuts.shift (cuts : bounds.Cuts text part) (cuts' : inner.Cuts part piece) :
    (inner.shift bounds.start).Cuts text piece := by
  obtain ⟨before, behind, rfl, start, stop⟩ := cuts
  obtain ⟨before', behind', rfl, start', stop'⟩ := cuts'
  refine ⟨before ++ before', behind' ++ behind, by simp only [List.append_assoc], ?_, ?_⟩
  · rw [size_append, start, start']
    rfl
  · simp only [Bounds.shift, ← stop', Nat.add_assoc]

end Bounds

namespace Block

/-- The bounds without blanks at both ends. Where there are only blanks, nothing is left at the start. -/
def trimmed (text : List α) (bounds : Bounds) : Except Panic Bounds := do
  let part ← bounds.slice text
  let leading ← minus (size part) (size (dropBlanks part))
  let trailing ← minus (size part) (size (dropBlanksEnd part))
  if leading = size part then
    return ⟨bounds.start, bounds.start⟩
  let stop ← minus bounds.stop trailing
  return ⟨bounds.start + leading, stop⟩

/-- A brace counts, and no other byte. A closing brace where nothing is open leaves the count at zero. -/
def counted (depth : Nat) (byte : UInt8) : Option Nat :=
  if byte = '{'.toUInt8 then some (depth + 1) else if byte = '}'.toUInt8 then some (depth - 1) else none

def closing? (depth index : Nat) : List UInt8 → Option Nat
  | [] => none
  | byte :: bytes =>
      match counted depth byte with
      | some 0 => some index
      | some next => closing? next (index + 1) bytes
      | none => closing? depth (index + 1) bytes

def balanced (text : List α) (opening : Nat) : Except Panic (Option (Bounds × Nat)) :=
  if (bytes text)[opening]? = some '{'.toUInt8 then
    match closing? 0 opening ((bytes text).drop opening) with
    | none => return none
    | some index => do
        let body ← trimmed text ⟨opening + 1, index⟩
        return some (body, index + 1)
  else throw .brace

def find? (word : List Char) : List α → Option Nat
  | [] => if word = [] then some 0 else none
  | glyph :: text =>
      if (after? word (glyph :: text)).isSome then some 0
      else (find? word text).map fun found => (Glyph.char glyph).utf8Size + found

def brace? (text : List α) (begin : Nat) : Except Panic (Option Nat) := do
  let rest ← Bounds.slice ⟨begin, size text⟩ text
  let gap ← minus (size rest) (size (dropBlanks rest))
  let visible ← Bounds.slice ⟨begin + gap, size text⟩ text
  return if (after? ['{'] visible).isSome then some (begin + gap) else none

def following (text : List α) (begin : Nat) : Except Panic Nat := do
  let rest ← Bounds.slice ⟨begin, size text⟩ text
  return begin + rest.head?.elim 1 fun glyph => (Glyph.char glyph).utf8Size

/-- The leftmost keyword behind `begin` that blanks and a brace follow, and the offset of the brace. A keyword that
is not followed so is passed by one glyph. -/
def findOpening (keyword : List Char) (text : List α) (begin : Nat) : Except Panic (Option (Bounds × Nat)) := do
  let rest ← Bounds.slice ⟨begin, size text⟩ text
  match find? keyword rest with
  | none => return none
  | some found =>
      let word : Bounds := ⟨begin + found, begin + found + size keyword⟩
      match ← brace? text word.stop with
      | some brace => return some (word, brace)
      | none =>
          let next ← following text word.start
          if _ended : size text < next then return none
          else if _further : begin < next then findOpening keyword text next
          else throw .stuck
termination_by size text + 1 - begin

inductive Located where
  | missing
  | unterminated (keyword : Bounds)
  | block (keyword body : Bounds) (stop : Nat)

def locateAt (keyword : List Char) (text : List α) : Except Panic Located := do
  match ← findOpening keyword text 0 with
  | none => return .missing
  | some (word, opening) =>
      match ← balanced text opening with
      | none => return .unterminated word
      | some (body, stop) => return .block word body stop

def extractAt (keyword : List Char) (text : List α) : Except Panic (Option (List α)) := do
  match ← locateAt keyword text with
  | .block _ body _ => return some (← body.slice text)
  | _ => return none

variable {text front part inside : List α} {bounds : Bounds} {keyword : List Char}

theorem exists_trimmed (cuts : bounds.Cuts text part) :
    ∃ inner, trimmed text bounds = .ok inner ∧ inner.Cuts text (trim part) ∧
      bounds.start ≤ inner.start ∧ inner.stop ≤ bounds.stop := by
  obtain ⟨gap, _, begun⟩ := exists_dropBlanks part
  obtain ⟨gap', _, ended⟩ := exists_dropBlanksEnd part
  have front := congrArg size begun
  have back := congrArg size ended
  rw [size_append] at front back
  rw [trimmed, cuts.slice, ok_bind, minus_of_le (by omega), ok_bind, minus_of_le (by omega), ok_bind]
  obtain ⟨before, behind, whole, start, stop⟩ := cuts
  by_cases blank : dropBlanks part = []
  · rw [blank, size_nil, if_pos (Nat.sub_zero _), trim, blank]
    exact ⟨_, rfl, ⟨before, part ++ behind, whole, start, rfl⟩, Nat.le_refl _, by dsimp only; omega⟩
  · have positive := size_pos_iff.mpr blank
    have visible := dropBlanksEnd_dropBlanks_ne_nil blank
    have inner : dropBlanksEnd part = gap ++ trim part := by
      conv_lhs => rw [begun]
      rw [dropBlanksEnd_append visible, trim]
    rw [inner, size_append] at back
    rw [inner] at ended
    rw [if_neg (by omega), inner, size_append, minus_of_le (by omega), ok_bind]
    refine ⟨_, rfl, ⟨before ++ gap, gap' ++ behind, ?_, ?_, ?_⟩, ?_, ?_⟩
    · have joined := congrArg (· ++ behind) ended
      simp only [List.append_assoc] at joined
      rw [whole, joined]
      simp only [List.append_assoc]
    · rw [size_append, start]
      dsimp only
      omega
    · dsimp only
      omega
    · exact Nat.le_add_right ..
    · exact Nat.sub_le ..

theorem eq_of_mem_encode {char mark : Char} (plain : mark.toNat < 128)
    (member : mark.toUInt8 ∈ String.utf8EncodeChar char) : char = mark := by
  have spelled : mark.toUInt8.toNat = mark.toNat := by
    rw [Char.toUInt8, UInt32.toNat_toUInt8]
    exact Nat.mod_eq_of_lt (plain.trans (by decide))
  have listed : mark.toNat ∈ (String.utf8EncodeChar char).map UInt8.toNat := by
    rw [← spelled]
    exact List.mem_map_of_mem member
  simp only [String.utf8EncodeChar] at listed
  split_ifs at listed with one two three
  · rw [List.map_singleton, List.mem_singleton, UInt8.toNat_ofNat'] at listed
    apply Char.toNat_inj.mp
    change char.toNat ≤ 127 at one
    change mark.toNat = char.toNat % 256 at listed
    omega
  all_goals
    simp only [List.map_cons, List.map_nil, List.mem_cons, List.not_mem_nil, or_false, UInt8.toNat_ofNat'] at listed
    omega

theorem closing?_append {lead : List UInt8} (plain : ∀ byte ∈ lead, byte ≠ '{'.toUInt8 ∧ byte ≠ '}'.toUInt8)
    (depth index : Nat) (bytes : List UInt8) :
    closing? depth index (lead ++ bytes) = closing? depth (index + lead.length) bytes := by
  induction lead generalizing index with
  | nil => rfl
  | cons byte lead ih =>
    rw [List.forall_mem_cons] at plain
    rw [List.cons_append, closing?, counted, if_neg plain.1.1, if_neg plain.1.2]
    change closing? depth (index + 1) (lead ++ bytes) = _
    rw [ih plain.2, List.length_cons, Nat.add_comm lead.length, ← Nat.add_assoc]

theorem encode_of_eq {glyph : α} {mark : Char} (same : Glyph.char glyph = mark) (brace : mark = '{' ∨ mark = '}') :
    String.utf8EncodeChar (Glyph.char glyph) = [mark.toUInt8] ∧ (Glyph.char glyph).utf8Size = 1 := by
  rw [same]
  rcases brace with rfl | rfl <;> decide

/-- Counting braces byte by byte closes a block where counting them glyph by glyph does. -/
theorem closing?_bytes (depth index : Nat) (text : List α) :
    closing? (depth + 1) index (bytes text) = (close? depth text).map fun (interior, _) => index + size interior := by
  have inner (glyph : α) (text : List α) (depth index : Nat) :
      (close? depth text).map (fun (interior, _) => index + (Glyph.char glyph).utf8Size + size interior) =
        ((close? depth text).map fun (interior, rest) => (glyph :: interior, rest)).map
          fun (interior, _) => index + size interior := by
    rw [Option.map_map]
    refine Option.map_congr fun (interior, rest) _ => ?_
    simp only [Function.comp_apply, size_cons, Nat.add_assoc]
  induction text generalizing depth index with
  | nil => rfl
  | cons glyph text ih =>
    rw [bytes_cons]
    unfold close?
    by_cases closes : Glyph.char glyph = '}'
    · obtain ⟨encoded, one⟩ := encode_of_eq closes (.inr rfl)
      have next : counted (depth + 1) '}'.toUInt8 = some depth := by
        rw [counted, if_neg (by decide), if_pos rfl, Nat.add_sub_cancel]
      rw [encoded, if_pos closes, List.singleton_append, closing?, next]
      cases depth with
      | zero => rfl
      | succ depth =>
        rw [← inner, one]
        exact ih depth (index + 1)
    · rw [if_neg closes, ← inner]
      by_cases opens : Glyph.char glyph = '{'
      · obtain ⟨encoded, one⟩ := encode_of_eq opens (.inl rfl)
        rw [encoded, if_pos opens, List.singleton_append, closing?, counted, if_pos rfl, one]
        exact ih (depth + 1) (index + 1)
      · rw [if_neg opens, closing?_append, String.length_utf8EncodeChar, ih]
        rintro byte member
        refine ⟨?_, ?_⟩
        · rintro rfl
          exact opens (eq_of_mem_encode (by decide) member)
        · rintro rfl
          exact closes (eq_of_mem_encode (by decide) member)

section

variable {brace : α}

theorem bytes_of_brace (opened : Glyph.char brace = '{') (whole : text = front ++ brace :: inside) :
    bytes text = bytes front ++ '{'.toUInt8 :: bytes inside := by
  rw [whole, bytes_append, bytes_cons, (encode_of_eq opened (.inl rfl)).1]
  rfl

theorem balanced_eq (opened : Glyph.char brace = '{') (whole : text = front ++ brace :: inside) :
    balanced text (size front) =
      match close? 0 inside with
      | none => return none
      | some (interior, _) => do
          let body ← trimmed text ⟨size front + 1, size front + 1 + size interior⟩
          return some (body, size front + 1 + size interior + 1) := by
  have here : (bytes text)[size front]? = some '{'.toUInt8 := by
    rw [bytes_of_brace opened whole, ← length_bytes front, List.getElem?_append_right (Nat.le_refl _), Nat.sub_self]
    rfl
  have behind : (bytes text).drop (size front) = '{'.toUInt8 :: bytes inside := by
    rw [bytes_of_brace opened whole, ← length_bytes front, List.drop_left]
  have loop : closing? 0 (size front) ('{'.toUInt8 :: bytes inside) = closing? 1 (size front + 1) (bytes inside) :=
    rfl
  rw [balanced, if_pos here, behind, loop, closing?_bytes]
  cases close? 0 inside <;> rfl

theorem exists_balanced {interior rest : List α} (opened : Glyph.char brace = '{')
    (whole : text = front ++ brace :: inside) (closed : close? 0 inside = some (interior, rest)) :
    ∃ body stop, balanced text (size front) = .ok (some (body, stop)) ∧ body.Cuts text (trim interior) ∧
      size front < body.start ∧ body.stop < stop ∧ Bounds.Cuts ⟨stop, size text⟩ text rest := by
  obtain ⟨mark, closes, rfl⟩ := close?_split closed
  obtain ⟨_, one⟩ := encode_of_eq opened (.inl rfl)
  obtain ⟨_, one'⟩ := encode_of_eq closes (.inr rfl)
  have cuts : Bounds.Cuts ⟨size front + 1, size front + 1 + size interior⟩ text interior := by
    refine ⟨front ++ [brace], mark :: rest, by rw [whole]; simp, ?_, rfl⟩
    rw [size_append, size_cons, one, size_nil]
  obtain ⟨body, trims, cuts', begun, ended⟩ := exists_trimmed cuts
  have stop : size (front ++ brace :: (interior ++ [mark])) = size front + 1 + size interior + 1 := by
    simp only [size_append, size_cons, one, one', size_nil]
    omega
  have split : text = front ++ brace :: (interior ++ [mark]) ++ rest := by
    rw [whole]
    simp
  refine ⟨body, size front + 1 + size interior + 1, ?_, cuts', begun, Nat.lt_succ_of_le ended, ?_⟩
  · rw [balanced_eq opened whole, closed]
    change (trimmed text _ >>= _) = _
    rw [trims]
    rfl
  · exact ⟨_, [], by rw [List.append_nil, split], stop, by rw [split, size_append, stop]⟩

end

theorem opening?_eq_none (absent : after? keyword text = none) : opening? keyword text = none := by
  rw [opening?, absent]
  rfl

theorem opening?_append {word : List α} (rest : List α) (spelled : Text.chars word = keyword) :
    opening? keyword (word ++ rest) = (after? ['{'] (dropBlanks rest)).map fun inside => ⟨word, inside⟩ := by
  rw [opening?, after?_eq_some_iff.mpr ⟨word, spelled, rfl⟩, Option.bind_some, upTo_append]

theorem find?_eq_none (absent : find? keyword text = none) : leftmost? (opening? keyword) text = none := by
  induction text with
  | nil =>
    cases keyword with
    | nil => cases absent
    | cons letter word => rfl
  | cons glyph text ih =>
    unfold find? at absent
    split_ifs at absent with here
    rw [Bool.not_eq_true, Option.isSome_eq_false_iff, Option.isNone_iff_eq_none] at here
    rw [leftmost?_cons_of_none (opening?_eq_none here)]
    exact ih (Option.map_eq_none_iff.mp absent)

theorem find?_eq_some {found : Nat} (here : find? keyword text = some found) :
    ∃ lead rest behind, text = lead ++ rest ∧ size lead = found ∧ after? keyword rest = some behind ∧
      leftmost? (opening? keyword) text = leftmost? (opening? keyword) rest := by
  induction text generalizing found with
  | nil =>
    unfold find? at here
    split_ifs at here with empty
    cases here
    exact ⟨[], [], [], rfl, rfl, by rw [empty, after?], rfl⟩
  | cons glyph text ih =>
    unfold find? at here
    split_ifs at here with first
    · cases here
      obtain ⟨behind, begun⟩ := Option.isSome_iff_exists.mp first
      exact ⟨[], glyph :: text, behind, rfl, rfl, begun, rfl⟩
    · obtain ⟨later, here', rfl⟩ := Option.map_eq_some_iff.mp here
      obtain ⟨lead, rest, behind, rfl, rfl, begun, same⟩ := ih here'
      rw [Bool.not_eq_true, Option.isSome_eq_false_iff, Option.isNone_iff_eq_none] at first
      refine ⟨glyph :: lead, rest, behind, rfl, size_cons .., begun, ?_⟩
      rw [leftmost?_cons_of_none (opening?_eq_none first), same]

theorem slice_rest {rest : List α} {begin : Nat} (whole : text = front ++ rest) (start : size front = begin) :
    Bounds.slice ⟨begin, size text⟩ text = .ok rest :=
  Bounds.Cuts.slice ⟨front, [], by rw [whole, List.append_nil], start, by rw [whole, size_append, ← start]⟩

inductive OpensAt (text : List α) : Option (Bounds × Nat) → Option (Opening α) → Prop where
  | missing : OpensAt text none none
  | opening {front word gap inside : List α} {brace : α} (opened : Glyph.char brace = '{')
      (whole : text = front ++ (word ++ (gap ++ brace :: inside))) :
      OpensAt text (some (⟨size front, size front + size word⟩, size (front ++ (word ++ gap)))) (some ⟨word, inside⟩)

theorem brace?_eq {gap rest : List α} (whole : text = front ++ (gap ++ rest))
    (visible : dropBlanks (gap ++ rest) = rest) :
    brace? text (size front) = .ok (if (after? ['{'] rest).isSome then some (size front + size gap) else none) := by
  have split : text = front ++ gap ++ rest := by rw [whole, List.append_assoc]
  rw [brace?, slice_rest whole rfl, ok_bind, visible, size_append, minus_of_le (Nat.le_add_left ..), ok_bind,
    Nat.add_sub_cancel, slice_rest split (size_append ..), ok_bind]
  rfl

theorem following_nil : following text (size text) = .ok (size text + 1) := by
  rw [following, slice_rest (List.append_nil text).symm rfl]
  rfl

theorem following_cons {glyph : α} {others : List α} (whole : text = front ++ glyph :: others) :
    following text (size front) = .ok (size front + (Glyph.char glyph).utf8Size) := by
  rw [following, slice_rest whole rfl]
  rfl

theorem findOpening_of_found {lead word gap rest : List α} (spelled : Text.chars word = keyword)
    (whole : text = front ++ (lead ++ (word ++ (gap ++ rest)))) (visible : dropBlanks (gap ++ rest) = rest)
    (found : find? keyword (lead ++ (word ++ (gap ++ rest))) = some (size lead)) :
    findOpening keyword text (size front) =
      if (after? ['{'] rest).isSome then
        .ok (some (⟨size (front ++ lead), size (front ++ lead) + size word⟩, size (front ++ lead ++ (word ++ gap))))
      else following text (size (front ++ lead)) >>= fun next =>
        if size text < next then .ok none
        else if size front < next then findOpening keyword text next else .error .stuck := by
  have wide : size keyword = size word := by rw [← spelled, size_chars]
  have start : size front + size lead = size (front ++ lead) := (size_append ..).symm
  have stop : size (front ++ lead) + size word = size (front ++ lead ++ word) := (size_append ..).symm
  have placed : text = front ++ lead ++ word ++ (gap ++ rest) := by
    rw [whole]
    simp only [List.append_assoc]
  rw [findOpening, slice_rest whole rfl, ok_bind, found]
  dsimp only
  rw [wide, start, stop, brace?_eq placed visible, ok_bind, ← size_append, List.append_assoc _ word]
  split_ifs <;> rfl

/-- The induction is on the number of glyphs that are left to search. -/
theorem exists_findOpening {rest : List α} (whole : text = front ++ rest) :
    ∃ found, findOpening keyword text (size front) = .ok found ∧
      OpensAt text found (leftmost? (opening? keyword) rest) := by
  induction counted : rest.length using Nat.strong_induction_on generalizing front rest with
  | _ count ih =>
    cases here : find? keyword rest with
    | none =>
      rw [findOpening, slice_rest whole rfl, ok_bind, here, find?_eq_none here]
      exact ⟨none, rfl, .missing⟩
    | some found =>
      obtain ⟨lead, tail, behind, rfl, rfl, begun, same⟩ := find?_eq_some here
      obtain ⟨word, spelled, rfl⟩ := after?_eq_some_iff.mp begun
      obtain ⟨gap, _, split⟩ := exists_dropBlanks behind
      have reading := opening?_append behind spelled
      have step := findOpening_of_found spelled (split ▸ whole) (by rw [← split]) (split ▸ here)
      rw [step, same]
      cases brace : after? ['{'] (dropBlanks behind) with
      | some inside =>
        obtain ⟨first, opened, opens⟩ := after?_eq_some_iff.mp brace
        obtain ⟨mark, rfl, isBrace⟩ := List.map_eq_singleton_iff.mp opened
        have placed : text = front ++ lead ++ (word ++ (gap ++ mark :: inside)) := by
          rw [whole, split, opens, List.append_assoc]
          rfl
        rw [brace] at reading
        rw [leftmost?_of_some reading]
        exact ⟨_, rfl, .opening isBrace placed⟩
      | none =>
        rw [brace] at reading
        rw [Option.isSome_none, if_neg Bool.false_ne_true]
        cases rest : word ++ behind with
        | nil =>
          have ended : text = front ++ lead := by rw [whole, rest, List.append_nil]
          rw [← ended, following_nil, ok_bind, if_pos (Nat.lt_succ_self _)]
          rw [rest] at reading
          exact ⟨none, rfl, by rw [leftmost?, reading]; exact .missing⟩
        | cons glyph others =>
          have positive := (Glyph.char glyph).utf8Size_pos
          have split : text = front ++ lead ++ glyph :: others := by rw [whole, rest, List.append_assoc]
          have split' : text = front ++ lead ++ [glyph] ++ others := by
            rw [split]
            simp
          have later : size (front ++ lead) + (Glyph.char glyph).utf8Size = size (front ++ lead ++ [glyph]) := by
            rw [size_append _ [glyph], size_cons, size_nil]
            rfl
          have total := congrArg size split'
          rw [size_append _ others] at total
          have further : size front < size (front ++ lead ++ [glyph]) := by
            rw [← later, size_append]
            omega
          have fewer : others.length < count := by
            rw [← counted, rest]
            simp only [List.length_append, List.length_cons]
            omega
          rw [rest] at reading
          rw [following_cons split, ok_bind, later, if_neg (by omega), if_pos further, leftmost?_cons_of_none reading]
          exact ih others.length fewer split' rfl

/-- The bounds hold what was located, in the order of the text. -/
inductive Located.Agrees (text : List α) : Located → Except (Fault α) (Block α) → Prop where
  | missing : Agrees text .missing (.error .missing)
  | unterminated {bounds : Bounds} {word : List α} (cuts : bounds.Cuts text word) :
      Agrees text (.unterminated bounds) (.error (.unterminated word))
  | block {keyword body : Bounds} {stop : Nat} {block : Block α} (cuts : keyword.Cuts text block.keyword)
      (cuts' : body.Cuts text block.body) (behind : keyword.stop < body.start) (inside : body.stop < stop)
      (within : stop ≤ size text) : Agrees text (.block keyword body stop) (.ok block)

theorem exists_locateAt (keyword : List Char) (text : List α) :
    ∃ located, locateAt keyword text = .ok located ∧ located.Agrees text (locate keyword text) := by
  obtain ⟨found, finds, opens⟩ := @exists_findOpening _ _ text [] keyword text rfl
  rw [size_nil] at finds
  rw [locateAt, finds, ok_bind, locate]
  cases opening : leftmost? (opening? keyword) text with
  | none =>
    rw [opening] at opens
    cases opens
    exact ⟨_, rfl, .missing⟩
  | some opening' =>
    rw [opening] at opens
    cases opens with
    | @opening front word gap inside brace isBrace whole =>
      have cuts : Bounds.Cuts ⟨size front, size front + size word⟩ text word := ⟨front, _, whole, rfl, rfl⟩
      have placed : text = front ++ (word ++ gap) ++ brace :: inside := by
        rw [whole]
        simp only [List.append_assoc]
      dsimp only
      cases closed : close? 0 inside with
      | none =>
        rw [balanced_eq isBrace placed, closed]
        exact ⟨_, rfl, .unterminated cuts⟩
      | some parts =>
        obtain ⟨interior, rest⟩ := parts
        obtain ⟨body, stop, balances, cuts', begun, ended, within⟩ := exists_balanced isBrace placed closed
        rw [balances]
        refine ⟨_, rfl, .block cuts cuts' ?_ ended within.le.1⟩
        rw [size_append, size_append] at begun
        dsimp only
        omega

end Block

end PipelineChart
