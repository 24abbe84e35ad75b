import PipelineChart.Proofs.Json.Numeral

/-!
JSON texts. What is written in either style, with any strings in it, is read back as it was. Blanks stand only
between the parts of a text, where every reader passes over them.
-/

namespace PipelineChart.Json

open Text

section Strings

theorem readCode?_small {code : Nat} (small : code < 32) (text : List Char) :
    readCode? ('0' :: '0' :: hexChar (code / 16) :: hexChar (code % 16) :: text) = some (code, text) := by
  have digits : ∀ code < 32, ['0', '0', hexChar (code / 16), hexChar (code % 16)].all isHexDigit = true ∧
      valueOf 16 ['0', '0', hexChar (code / 16), hexChar (code % 16)] = code := by decide
  obtain ⟨all, value⟩ := digits code small
  simp only [readCode?, all, ↓reduceIte, value]

theorem readUnicode?_small {char : Char} (small : char.toNat < 32) (text : List Char) :
    readUnicode? ('0' :: '0' :: hexChar (char.toNat / 16) :: hexChar (char.toNat % 16) :: text) =
      some (char, text) := by
  have plain : ¬ (0xD800 ≤ char.toNat ∧ char.toNat < 0xDC00) := by omega
  have valid : char.toNat.isValidChar := char.valid
  simp only [readUnicode?, readCode?_small small, plain, ↓reduceIte, charOf?, valid, Char.ofNat_toNat,
    Option.map_some]

theorem readChars?_escape (char : Char) (bound : Nat) (text : List Char) :
    readChars? (bound + 1) (escape char ++ text) =
      (readChars? bound text).map fun (chars, rest) => (char :: chars, rest) := by
  unfold escape
  split
  case h_8 quote backslash _ _ _ _ _ =>
    split
    · rename_i small
      simp [readChars?, readUnicode?_small small]
    · rename_i plain
      have other : char ≠ '"' ∧ char ≠ '\\' := ⟨quote, backslash⟩
      simp [readChars?, other, plain]
  all_goals rfl

theorem readChars?_escaped (chars rest : List Char) {bound : Nat} (enough : chars.length < bound) :
    readChars? bound (chars.flatMap escape ++ '"' :: rest) = some (chars, rest) := by
  induction chars generalizing bound with
  | nil =>
    obtain ⟨bound, rfl⟩ : ∃ count, bound = count + 1 := ⟨bound - 1, by omega⟩
    rfl
  | cons char chars ih =>
    obtain ⟨bound, rfl⟩ : ∃ count, bound = count + 1 := ⟨bound - 1, by omega⟩
    rw [List.flatMap_cons, List.append_assoc, readChars?_escape, ih (Nat.lt_of_succ_lt_succ enough)]
    rfl

theorem length_escape_pos (char : Char) : 0 < (escape char).length := by
  unfold escape
  split
  case h_8 => split <;> simp
  all_goals simp

theorem readString?_escaped (text : String) (rest : List Char) :
    readString? (text.toList.flatMap escape ++ '"' :: rest) = some (text, rest) := by
  have enough : text.toList.length ≤ (text.toList.flatMap escape).length := by
    induction text.toList with
    | nil => simp
    | cons char chars ih =>
      have positive := length_escape_pos char
      simp only [List.flatMap_cons, List.length_append, List.length_cons]
      omega
  unfold readString?
  rw [readChars?_escaped text.toList rest (by simp only [List.length_append, List.length_cons]; omega)]
  simp

end Strings

section Blanks

def isGap (char : Char) : Bool := char == ' ' || char == '\t' || char == '\n' || char == '\r'

def Gap (text : List Char) : Prop := ∀ char ∈ text, isGap char = true

theorem skipBlanks_append {gap : List Char} (blank : Gap gap) (text : List Char) :
    skipBlanks (gap ++ text) = skipBlanks text := List.dropWhile_append_of_pos blank

theorem skipBlanks_cons {char : Char} (visible : isGap char = false) (text : List Char) :
    skipBlanks (char :: text) = char :: text :=
  List.dropWhile_cons_of_neg (Bool.eq_false_iff.mp visible)

theorem readValue?_gap {gap : List Char} (blank : Gap gap) (bound : Nat) (text : List Char) :
    readValue? bound (gap ++ text) = readValue? bound text := by
  cases bound with
  | zero => rfl
  | succ bound => simp only [readValue?, skipBlanks_append blank]

theorem gap_line (style : Style) (depth : Nat) : Gap (style.line depth) := by
  cases style with
  | compact => exact List.forall_mem_nil _
  | indented =>
    intro char written
    rcases List.mem_cons.mp written with rfl | blank
    · rfl
    · rw [List.eq_of_mem_replicate blank]
      rfl

theorem colon_eq (style : Style) : ∃ gap, style.colon = ':' :: gap ∧ Gap gap := by
  cases style with
  | compact => exact ⟨[], rfl, List.forall_mem_nil _⟩
  | indented => exact ⟨[' '], rfl, by simp [Gap, isGap]⟩

end Blanks

section Numerals

def BeginsNumeral (char : Char) : Prop := char = '-' ∨ char.isDigit = true

theorem integerChars_cons (value : Int) :
    ∃ char chars, integerChars value = char :: chars ∧ BeginsNumeral char := by
  unfold integerChars
  split
  · exact ⟨'-', _, rfl, Or.inl rfl⟩
  · obtain ⟨char, chars, spelled, digit⟩ := (whole_toDigits value.natAbs).head?
    exact ⟨char, chars, spelled, Or.inr digit⟩

theorem decimal_cons {decimal : Decimal} (canonical : decimal.Canonical) :
    ∃ char chars, decimal.json = char :: chars ∧ BeginsNumeral char := by
  obtain ⟨digit, rest, written, isDigit⟩ :
      ∃ digit rest, decimal.json = decimal.sign ++ digit :: rest ∧ digit.isDigit = true := by
    unfold Decimal.json Decimal.within
    split
    · obtain ⟨digit, digits, spelled, isDigit⟩ := (Decimal.whole_isWhole canonical).head?
      simp only [Decimal.pointed, spelled, List.append_assoc, List.cons_append]
      exact ⟨digit, _, rfl, isDigit⟩
    · obtain ⟨digit, digits, spelled, -, areDigits⟩ := decimal.digitChars_cons
      simp only [Decimal.scientific, spelled, List.take_succ_cons, List.append_assoc, List.cons_append]
      exact ⟨digit, _, rfl, areDigits digit (List.mem_cons_self ..)⟩
  rw [written]
  unfold Decimal.sign
  split
  · exact ⟨'-', _, rfl, Or.inl rfl⟩
  · exact ⟨digit, rest, rfl, Or.inr isDigit⟩

theorem BeginsNumeral.ne {char : Char} (begins : BeginsNumeral char) {other : Char}
    (different : other ≠ '-' ∧ other.isDigit = false) : char ≠ other := by
  rintro rfl
  rcases begins with minus | digit
  · exact different.1 minus
  · cases different.2.symm.trans digit

theorem BeginsNumeral.visible {char : Char} (begins : BeginsNumeral char) : isGap char = false := by
  simp only [isGap, Bool.or_eq_false_iff, beq_eq_false_iff_ne]
  exact ⟨⟨⟨begins.ne (by decide), begins.ne (by decide)⟩, begins.ne (by decide)⟩, begins.ne (by decide)⟩

theorem readValue?_numeral {char : Char} (begins : BeginsNumeral char) (bound : Nat) (chars : List Char) :
    readValue? (bound + 1) (char :: chars) = readNumber? (char :: chars) := by
  unfold readValue?
  rw [skipBlanks_cons begins.visible]
  split
  case h_1 same => cases same
  case h_8 => rfl
  all_goals
    rename_i same
    cases same
    rcases begins with begins | begins <;> cases begins

end Numerals

inductive Canonical : Json → Prop
  | null : Canonical .null
  | bool (value : Bool) : Canonical (.bool value)
  | integer (value : Int) : Canonical (.integer value)
  | decimal {value : Decimal} (canonical : value.Canonical) : Canonical (.decimal value)
  | string (value : String) : Canonical (.string value)
  | array {items : List Json} (canonical : ∀ item ∈ items, Canonical item) : Canonical (.array items)
  | object {members : List (String × Json)} (canonical : ∀ member ∈ members, Canonical member.2) :
      Canonical (.object members)

@[simp]
theorem canonical_string (value : String) : (Json.string value).Canonical := .string value

@[simp]
theorem canonical_decimal {value : Decimal} : (Json.decimal value).Canonical ↔ value.Canonical :=
  ⟨fun canonical => by cases canonical; assumption, .decimal⟩

@[simp]
theorem canonical_array {items : List Json} : (Json.array items).Canonical ↔ ∀ item ∈ items, item.Canonical :=
  ⟨fun canonical => by cases canonical; assumption, .array⟩

@[simp]
theorem canonical_object {members : List (String × Json)} :
    (Json.object members).Canonical ↔ ∀ member ∈ members, member.2.Canonical :=
  ⟨fun canonical => by cases canonical; assumption, .object⟩

section Values

theorem render_cons (style : Style) (depth : Nat) {json : Json} (canonical : json.Canonical) :
    ∃ char chars, render style depth json = char :: chars ∧ char ≠ ']' ∧ isGap char = false := by
  cases canonical with
  | null => exact ⟨'n', _, rfl, by decide, rfl⟩
  | bool value => cases value <;> exact ⟨_, _, rfl, by decide, rfl⟩
  | integer value =>
    obtain ⟨char, chars, spelled, begins⟩ := integerChars_cons value
    exact ⟨char, chars, spelled, begins.ne (by decide), begins.visible⟩
  | decimal canonical =>
    obtain ⟨char, chars, spelled, begins⟩ := decimal_cons canonical
    exact ⟨char, chars, spelled, begins.ne (by decide), begins.visible⟩
  | string value => exact ⟨'"', _, rfl, by decide, rfl⟩
  | @array items _ => cases items <;> exact ⟨'[', _, rfl, by decide, rfl⟩
  | @object members _ => rcases members with _ | ⟨⟨_, _⟩, _⟩ <;> exact ⟨'{', _, rfl, by decide, rfl⟩

theorem readValue?_array {text chars : List Char} {char : Char} (begins : skipBlanks text = char :: chars)
    (filled : char ≠ ']') (bound : Nat) :
    readValue? (bound + 1) ('[' :: text) =
      (readItems? bound text).map fun (items, rest) => (.array items, rest) := by
  simp only [readValue?, skipBlanks_cons (show isGap '[' = false from rfl), begins]
  split
  · rename_i same
    exact absurd (List.cons.inj same).1 filled
  · rfl

theorem readValue?_object {text chars : List Char} {char : Char} (begins : skipBlanks text = char :: chars)
    (filled : char ≠ '}') (bound : Nat) :
    readValue? (bound + 1) ('{' :: text) =
      (readMembers? bound text).map fun (members, rest) => (.object members, rest) := by
  simp only [readValue?, skipBlanks_cons (show isGap '{' = false from rfl), begins]
  split
  · rename_i same
    exact absurd (List.cons.inj same).1 filled
  · rfl

theorem readItems?_item {bound : Nat} {text behind : List Char} {item : Json}
    (read : readValue? bound text = some (item, behind)) :
    readItems? (bound + 1) text =
      match skipBlanks behind with
      | ']' :: rest => some ([item], rest)
      | ',' :: rest => (readItems? bound rest).map fun (items, rest) => (item :: items, rest)
      | _ => none := by
  rw [readItems?, read]
  rfl

theorem readMembers?_member {bound : Nat} {gap key behind : List Char} {rest : List Char} {name : String}
    {value : Json} (blank : Gap gap)
    (read : readString? key = some (name, ':' :: behind))
    (readValue : readValue? bound behind = some (value, rest)) :
    readMembers? (bound + 1) (gap ++ '"' :: key) =
      match skipBlanks rest with
      | '}' :: rest => some ([(name, value)], rest)
      | ',' :: rest => (readMembers? bound rest).map fun (members, rest) => ((name, value) :: members, rest)
      | _ => none := by
  simp only [readMembers?, skipBlanks_append blank, skipBlanks_cons (show isGap '"' = false from rfl), read,
    skipBlanks_cons (show isGap ':' = false from rfl), Option.bind_some]
  rw [readValue]
  rfl

theorem ends_cons {mark : Char} (closes : mark.isDigit = false ∧ mark ≠ '.' ∧ mark ≠ 'e' ∧ mark ≠ 'E')
    (rest : List Char) : Ends (mark :: rest) := closes

theorem ends_line (style : Style) (depth : Nat) {mark : Char}
    (closes : mark.isDigit = false ∧ mark ≠ '.' ∧ mark ≠ 'e' ∧ mark ≠ 'E') (rest : List Char) :
    Ends (style.line depth ++ mark :: rest) := by
  cases style with
  | compact => exact closes
  | indented => exact ends_cons (by decide) _

theorem skipBlanks_line (style : Style) (depth : Nat) {mark : Char} (visible : isGap mark = false)
    (rest : List Char) : skipBlanks (style.line depth ++ mark :: rest) = mark :: rest := by
  rw [skipBlanks_append (gap_line style depth), skipBlanks_cons visible]

/-! The induction is on the bound, which every reader hands on smaller than it was. The length of a text is
always enough. -/

mutual

theorem readValue?_render (style : Style) (depth : Nat) (json : Json) (canonical : json.Canonical) (bound : Nat)
    (enough : (render style depth json).length ≤ bound) (rest : List Char) (ends : Ends rest) :
    readValue? bound (render style depth json ++ rest) = some (json, rest) := by
  obtain ⟨bound, rfl⟩ : ∃ count, bound = count + 1 := by
    obtain ⟨char, chars, spelled, _⟩ := render_cons style depth canonical
    rw [spelled, List.length_cons] at enough
    exact ⟨bound - 1, by omega⟩
  cases json with
  | null => rfl
  | bool value => cases value <;> rfl
  | integer value =>
    obtain ⟨char, chars, spelled, begins⟩ := integerChars_cons value
    have read := readNumber?_integer value ends
    simp only [render]
    rw [spelled] at read ⊢
    exact (readValue?_numeral begins bound _).trans read
  | decimal value =>
    rw [canonical_decimal] at canonical
    obtain ⟨char, chars, spelled, begins⟩ := decimal_cons canonical
    have read := Decimal.readNumber?_json canonical ends
    simp only [render]
    rw [spelled] at read ⊢
    exact (readValue?_numeral begins bound _).trans read
  | string value =>
    have read := readString?_escaped value rest
    simp only [render, quoted, List.append_assoc, List.cons_append, List.nil_append, readValue?,
      skipBlanks_cons (show isGap '"' = false from rfl), read, Option.map_some]
  | array items =>
    cases items with
    | nil => rfl
    | cons item items =>
      rw [canonical_array] at canonical
      have length : (render style (depth + 1) item).length + (renderItems style (depth + 1) items).length <
          bound := by
        simp only [render, List.length_append, List.length_cons] at enough
        omega
      obtain ⟨char, chars, spelled, filled, visible⟩ :=
        render_cons style (depth + 1) (canonical item (List.mem_cons_self ..))
      have begins (text : List Char) :
          skipBlanks (style.line (depth + 1) ++ (render style (depth + 1) item ++ text)) =
            char :: (chars ++ text) := by
        rw [spelled]
        exact skipBlanks_line style (depth + 1) visible _
      have read := readItems?_render style (depth + 1) depth item items canonical bound length rest
      simp only [render, List.append_assoc, List.cons_append, List.nil_append]
      rw [readValue?_array (begins _) filled, read, Option.map_some]
  | object members =>
    cases members with
    | nil => rfl
    | cons member members =>
      obtain ⟨key, value⟩ := member
      rw [canonical_object] at canonical
      have length : (render style (depth + 1) value).length +
          (renderMembers style (depth + 1) members).length < bound := by
        simp only [render, List.length_append, List.length_cons] at enough
        omega
      have read := readMembers?_render style (depth + 1) depth key value members canonical bound length rest
      simp only [render, quoted, List.append_assoc, List.cons_append, List.nil_append] at read ⊢
      rw [readValue?_object (skipBlanks_line style (depth + 1) rfl _) (by decide), read, Option.map_some]
termination_by bound

theorem readItems?_render (style : Style) (depth outer : Nat) (item : Json) (items : List Json)
    (canonical : ∀ item' ∈ item :: items, item'.Canonical) (bound : Nat)
    (enough : (render style depth item).length + (renderItems style depth items).length < bound)
    (rest : List Char) :
    readItems? bound (style.line depth ++ (render style depth item ++ (renderItems style depth items ++
      (style.line outer ++ ']' :: rest)))) = some (item :: items, rest) := by
  obtain ⟨bound, rfl⟩ : ∃ count, bound = count + 1 := ⟨bound - 1, by omega⟩
  have canonical' := canonical item (List.mem_cons_self ..)
  have first (behind : List Char) (ends : Ends behind) := readItems?_item <|
    (readValue?_gap (gap_line style depth) bound _).trans
      (readValue?_render style depth item canonical' bound (by omega) behind ends)
  cases items with
  | nil =>
    simp only [renderItems, List.nil_append]
    rw [first _ (ends_line style outer (by decide) rest), skipBlanks_line style outer rfl]
    rfl
  | cons next items =>
    have others := readItems?_render style depth outer next items
      (fun item' written => canonical item' (List.mem_cons_of_mem item written)) bound
      (by simp only [renderItems, List.length_append, List.length_cons] at enough; omega) rest
    simp only [renderItems, List.append_assoc, List.cons_append] at others ⊢
    rw [first _ (ends_cons (by decide) _), skipBlanks_cons rfl]
    simp only [others, Option.map_some]
termination_by bound

theorem readMembers?_render (style : Style) (depth outer : Nat) (key : String) (value : Json)
    (members : List (String × Json)) (canonical : ∀ member' ∈ (key, value) :: members, member'.2.Canonical)
    (bound : Nat)
    (enough : (render style depth value).length + (renderMembers style depth members).length < bound)
    (rest : List Char) :
    readMembers? bound (style.line depth ++ (quoted key ++ (style.colon ++ (render style depth value ++
      (renderMembers style depth members ++ (style.line outer ++ '}' :: rest)))))) =
        some ((key, value) :: members, rest) := by
  obtain ⟨bound, rfl⟩ : ∃ count, bound = count + 1 := ⟨bound - 1, by omega⟩
  obtain ⟨gap, colon, blank⟩ := colon_eq style
  have canonical' := canonical (key, value) (List.mem_cons_self ..)
  have first (behind : List Char) (ends : Ends behind) := readMembers?_member (gap_line style depth)
    (readString?_escaped key (':' :: (gap ++ (render style depth value ++ behind))))
    ((readValue?_gap blank bound _).trans
      (readValue?_render style depth value canonical' bound (by omega) behind ends))
  simp only [quoted, colon, List.append_assoc, List.cons_append, List.nil_append]
  cases members with
  | nil =>
    simp only [renderMembers, List.nil_append]
    rw [first _ (ends_line style outer (by decide) rest), skipBlanks_line style outer rfl]
    rfl
  | cons member members =>
    obtain ⟨nextKey, next⟩ := member
    have others := readMembers?_render style depth outer nextKey next members
      (fun member' written => canonical member' (List.mem_cons_of_mem _ written)) bound
      (by simp only [renderMembers, List.length_append, List.length_cons] at enough; omega) rest
    simp only [renderMembers, List.append_assoc, List.cons_append] at others ⊢
    rw [first _ (ends_cons (by decide) _), skipBlanks_cons rfl]
    simp only [others, Option.map_some]
termination_by bound

end

theorem parse?_text {json : Json} (canonical : json.Canonical) (style : Style) :
    parse? (json.text style) = some json := by
  have enough : (render style 0 json).length ≤ (render style 0 json).length + 1 := Nat.le_succ _
  have read := readValue?_render style 0 json canonical _ enough [] trivial
  rw [List.append_nil] at read
  simp only [parse?, text, String.toList_ofList, read]
  rfl

end Values

end PipelineChart.Json
