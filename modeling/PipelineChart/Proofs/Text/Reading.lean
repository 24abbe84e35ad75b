import Mathlib.Data.List.TakeWhile
import PipelineChart.Proofs.Text.Chars

/-!
What the smallest readers accept: a word, a mark behind blanks, a quote. Each is told by the front that
it takes off a text.
-/

namespace PipelineChart.Text

variable {α : Type} [Glyph α]

def Blanks (text : List α) : Prop := ∀ glyph ∈ text, isBlank glyph = true

instance (text : List α) : Decidable (Blanks text) :=
  List.decidableBAll _ text

theorem blanks_nil : Blanks ([] : List α) := fun _ member => nomatch member

theorem after?_eq_some_iff {word : List Char} {text rest : List α} :
    after? word text = some rest ↔ ∃ front, chars front = word ∧ text = front ++ rest := by
  induction word generalizing text with
  | nil =>
    rw [after?, Option.some_inj]
    constructor
    · intro same
      subst same
      exact ⟨[], rfl, rfl⟩
    · intro parts
      rcases parts with ⟨front, empty, rfl⟩
      rw [List.map_eq_nil_iff.mp empty]
      rfl
  | cons letter word ih =>
    cases text with
    | nil => simp [after?, chars]
    | cons glyph text =>
      unfold after?
      split_ifs with same
      · rw [ih]
        constructor
        · intro parts
          rcases parts with ⟨front, spelled, rfl⟩
          exact ⟨glyph :: front, by rw [chars_cons, same, spelled], rfl⟩
        · intro parts
          rcases parts with ⟨front, spelled, split⟩
          obtain ⟨first, front, rfl⟩ := List.exists_cons_of_ne_nil (show front ≠ [] by
            intro same
            subst same
            cases spelled)
          rw [chars_cons, List.cons.injEq] at spelled
          rw [List.cons_append, List.cons.injEq] at split
          exact ⟨front, spelled.2, split.2⟩
      · constructor
        · intro impossible
          cases impossible
        · intro parts
          rcases parts with ⟨front, spelled, split⟩
          cases front with
          | nil => cases spelled
          | cons first front =>
            rw [chars_cons, List.cons.injEq] at spelled
            rw [List.cons_append, List.cons.injEq] at split
            exact absurd (split.1 ▸ spelled.1) same

theorem exists_dropBlanks (text : List α) : ∃ gap, Blanks gap ∧ text = gap ++ dropBlanks text :=
  ⟨text.takeWhile isBlank, fun _ member => List.mem_takeWhile_imp member,
    List.takeWhile_append_dropWhile.symm⟩

theorem head?_dropBlanks (text : List α) : ∀ glyph ∈ (dropBlanks text).head?, isBlank glyph = false := by
  intro glyph begun
  have visible := List.head?_dropWhile_not isBlank text
  rw [← dropBlanks, Option.mem_def.mp begun] at visible
  exact visible

theorem exists_dropBlanksEnd (text : List α) : ∃ gap, Blanks gap ∧ text = dropBlanksEnd text ++ gap := by
  obtain ⟨gap, blank, split⟩ := exists_dropBlanks text.reverse
  refine ⟨gap.reverse, fun _ member => blank _ (List.mem_reverse.mp member), ?_⟩
  have whole := congrArg List.reverse split
  rwa [List.reverse_reverse, List.reverse_append] at whole

theorem dropBlanksEnd_append {before rest : List α} (visible : dropBlanksEnd rest ≠ []) :
    dropBlanksEnd (before ++ rest) = before ++ dropBlanksEnd rest := by
  unfold dropBlanksEnd at visible ⊢
  rw [List.reverse_append, List.dropWhile_append, if_neg (by simpa using visible), List.reverse_append,
    List.reverse_reverse]

theorem dropBlanksEnd_dropBlanks_ne_nil {part : List α} (visible : dropBlanks part ≠ []) :
    dropBlanksEnd (dropBlanks part) ≠ [] := by
  obtain ⟨gap, blank, split⟩ := exists_dropBlanksEnd (dropBlanks part)
  intro empty
  rw [empty, List.nil_append] at split
  obtain ⟨glyph, others, begun⟩ := List.exists_cons_of_ne_nil visible
  have first := head?_dropBlanks part glyph (by rw [begun]; rfl)
  rw [blank glyph (by rw [← split, begun]; exact List.mem_cons_self)] at first
  cases first

theorem exists_trim (text : List α) :
    ∃ before behind, Blanks before ∧ Blanks behind ∧ text = before ++ (trim text ++ behind) := by
  obtain ⟨before, blank, split⟩ := exists_dropBlanks text
  obtain ⟨behind, blank', split'⟩ := exists_dropBlanksEnd (dropBlanks text)
  exact ⟨before, behind, blank, blank', split.trans (congrArg (before ++ ·) split')⟩

theorem trim_within (text : List α) : trim text <:+: text := by
  obtain ⟨before, behind, _, _, split⟩ := exists_trim text
  exact ⟨before, behind, (List.append_assoc ..).trans split.symm⟩

theorem dropBlanks_append {gap : List α} (blank : Blanks gap) (rest : List α) :
    dropBlanks (gap ++ rest) = dropBlanks rest :=
  List.dropWhile_append_of_pos blank

theorem dropBlanks_cons {glyph : α} (visible : isBlank glyph = false) (rest : List α) :
    dropBlanks (glyph :: rest) = glyph :: rest :=
  List.dropWhile_cons_of_neg (by rw [visible]; exact Bool.false_ne_true)

theorem after?_dropBlanks_eq_some_iff {mark : Char} (visible : isBlank mark = false)
    {text rest : List α} :
    after? [mark] (dropBlanks text) = some rest ↔
      ∃ gap glyph, Blanks gap ∧ Glyph.char glyph = mark ∧ text = gap ++ glyph :: rest := by
  constructor
  · intro found
    obtain ⟨front, spelled, split⟩ := after?_eq_some_iff.mp found
    obtain ⟨glyph, rfl, same⟩ := List.map_eq_singleton_iff.mp spelled
    obtain ⟨gap, blank, whole⟩ := exists_dropBlanks text
    exact ⟨gap, glyph, blank, same, by rw [whole, split]; rfl⟩
  · intro parts
    rcases parts with ⟨gap, glyph, blank, rfl, rfl⟩
    rw [dropBlanks_append blank, dropBlanks_cons (show isBlank glyph = false from visible)]
    exact after?_eq_some_iff.mpr ⟨[glyph], rfl, rfl⟩

theorem afterQuote?_eq_some_iff {text rest : List α} :
    afterQuote? text = some rest ↔ ∃ quote, isQuote quote = true ∧ text = quote :: rest := by
  cases text with
  | nil => simp [afterQuote?]
  | cons glyph text =>
    rw [afterQuote?]
    split_ifs with quoted
    · simp [quoted]
    · simp [quoted]

theorem isBlank_of_isQuote {glyph : α} (quoted : isQuote glyph = true) : isBlank glyph = false := by
  simp only [isQuote, Bool.or_eq_true, beq_iff_eq] at quoted
  unfold isBlank
  rcases quoted with single | double
  · rw [single]
    rfl
  · rw [double]
    rfl

theorem isQuote_of_isBlank {glyph : α} (blank : isBlank glyph = true) : isQuote glyph = false := by
  by_contra quoted
  rw [Bool.not_eq_false] at quoted
  rw [isBlank_of_isQuote quoted] at blank
  cases blank

theorem afterQuote?_dropBlanks_eq_some_iff {text rest : List α} :
    afterQuote? (dropBlanks text) = some rest ↔
      ∃ gap quote, Blanks gap ∧ isQuote quote = true ∧ text = gap ++ quote :: rest := by
  rw [afterQuote?_eq_some_iff]
  constructor
  · intro parts
    rcases parts with ⟨quote, quoted, split⟩
    obtain ⟨gap, blank, whole⟩ := exists_dropBlanks text
    exact ⟨gap, quote, blank, quoted, by rw [whole, split]⟩
  · intro parts
    rcases parts with ⟨gap, quote, blank, quoted, rfl⟩
    refine ⟨quote, quoted, ?_⟩
    rw [dropBlanks_append blank, dropBlanks_cons (isBlank_of_isQuote quoted)]

omit [Glyph α] in
theorem upTo_append (front rest : List α) : upTo rest (front ++ rest) = front := by
  rw [upTo, List.length_append, Nat.add_sub_cancel, List.take_left]

omit [Glyph α] in
theorem exists_append_of_length_le {before behind gap rest : List α}
    (split : before ++ behind = gap ++ rest) (shorter : before.length ≤ gap.length) :
    ∃ front, gap = before ++ front ∧ behind = front ++ rest := by
  obtain ⟨front, rfl⟩ := List.prefix_of_prefix_length_le ⟨behind, split⟩ (List.prefix_append gap rest)
    shorter
  rw [List.append_assoc] at split
  exact ⟨front, rfl, List.append_cancel_left split⟩

omit [Glyph α] in
theorem split_behind {first second front back : List α} {letter : α}
    (split : first ++ second = front ++ letter :: back) (absent : letter ∉ first) :
    ∃ lead, front = first ++ lead ∧ second = lead ++ letter :: back := by
  rcases List.append_eq_append_iff.mp split with ⟨lead, begun, whole⟩ | ⟨surplus, held, whole⟩
  · exact ⟨lead, begun, whole⟩
  · cases surplus with
    | nil => exact ⟨[], by rw [held, List.append_nil, List.append_nil], whole.symm⟩
    | cons glyph surplus =>
      rw [List.cons_append, List.cons.injEq] at whole
      refine absurd ?_ absent
      rw [held, whole.1]
      simp

omit [Glyph α] in
theorem split_before {first second front back : List α} {letter : α}
    (split : first ++ second = front ++ letter :: back) (absent : letter ∉ second) :
    ∃ start, first = front ++ letter :: start ∧ back = start ++ second := by
  rcases List.append_eq_append_iff.mp split with ⟨lead, _, whole⟩ | ⟨surplus, held, whole⟩
  · refine absurd ?_ absent
    rw [whole]
    simp
  · cases surplus with
    | nil =>
      refine absurd ?_ absent
      rw [← List.nil_append second, ← whole]
      exact List.mem_cons_self
    | cons glyph surplus =>
      rw [List.cons_append, List.cons.injEq] at whole
      exact ⟨surplus, by rw [held, whole.1], whole.2⟩

omit [Glyph α] in
theorem first_unique {held : α → Bool} {front front' rest rest' : List α} {glyph glyph' : α}
    (absent : ∀ other ∈ front, held other = false) (absent' : ∀ other ∈ front', held other = false)
    (here : held glyph = true) (here' : held glyph' = true) (same : front ++ glyph :: rest = front' ++ glyph' :: rest') :
    front = front' ∧ glyph = glyph' ∧ rest = rest' := by
  have dropped (front : List α) (glyph : α) (rest : List α) (absent : ∀ other ∈ front, held other = false)
      (here : held glyph = true) : (front ++ glyph :: rest).dropWhile (fun other => !held other) = glyph :: rest := by
    rw [List.dropWhile_append_of_pos fun other member => by rw [absent other member]; rfl]
    exact List.dropWhile_cons_of_neg (by rw [here]; exact Bool.false_ne_true)
  have behind : glyph :: rest = glyph' :: rest' := by
    rw [← dropped front glyph rest absent here, same, dropped front' glyph' rest' absent' here']
  rw [behind] at same
  exact ⟨List.append_cancel_right same, List.cons.inj behind⟩

omit [Glyph α] in
theorem leftmost?_cons_of_none {β : Type} {read : List α → Option β} {glyph : α} {text : List α}
    (refused : read (glyph :: text) = none) :
    leftmost? read (glyph :: text) = leftmost? read text := by
  rw [leftmost?, refused]

omit [Glyph α] in
theorem leftmost?_of_some {β : Type} {read : List α → Option β} {text : List α} {found : β}
    (accepted : read text = some found) : leftmost? read text = some found := by
  cases text with
  | nil => exact accepted
  | cons glyph text => rw [leftmost?, accepted]

omit [Glyph α] in
theorem leftmost?_eq_none_iff {β : Type} {read : List α → Option β} {text : List α} :
    leftmost? read text = none ↔ ∀ before rest, text = before ++ rest → read rest = none := by
  induction text with
  | nil =>
    constructor
    · intro refused before rest split
      rw [(List.append_eq_nil_iff.mp split.symm).2]
      exact refused
    · exact fun refused => refused [] [] rfl
  | cons glyph text ih =>
    cases here : read (glyph :: text) with
    | some found =>
      rw [leftmost?_of_some here]
      constructor
      · intro impossible
        cases impossible
      · intro refused
        rw [← here]
        exact refused [] _ rfl
    | none =>
      rw [leftmost?_cons_of_none here, ih]
      constructor
      · intro refused before rest split
        cases before with
        | nil =>
          rw [List.nil_append] at split
          rw [← split, here]
        | cons first before => exact refused before rest (List.cons.inj split).2
      · intro refused before rest split
        exact refused (glyph :: before) rest (congrArg (glyph :: ·) split)

omit [Glyph α] in
theorem leftmost?_first {β : Type} {read : List α → Option β} {text : List α} {found : β}
    (reading : leftmost? read text = some found) :
    ∃ before rest, text = before ++ rest ∧ read rest = some found ∧
      ∀ gap later, text = gap ++ later → (read later).isSome → before.length ≤ gap.length := by
  induction text with
  | nil => exact ⟨[], [], rfl, reading, fun _ _ _ _ => Nat.zero_le _⟩
  | cons glyph text ih =>
    cases here : read (glyph :: text) with
    | some first =>
      rw [leftmost?_of_some here] at reading
      exact ⟨[], _, rfl, here.trans reading, fun _ _ _ _ => Nat.zero_le _⟩
    | none =>
      rw [leftmost?_cons_of_none here] at reading
      obtain ⟨before, rest, rfl, accepted, least⟩ := ih reading
      refine ⟨glyph :: before, rest, rfl, accepted, ?_⟩
      intro gap later split accepted'
      cases gap with
      | nil =>
        rw [List.nil_append] at split
        rw [← split, here] at accepted'
        cases accepted'
      | cons first gap => exact Nat.succ_le_succ (least gap later (List.cons.inj split).2 accepted')

/-- Blanks in front of a text are passed over by what never begins with a blank. -/
theorem leftmost?_dropBlanks {β : Type} {read : List α → Option β}
    (refused : ∀ glyph rest, isBlank glyph = true → read (glyph :: rest) = none) (text : List α) :
    leftmost? read (dropBlanks text) = leftmost? read text := by
  induction text with
  | nil => rfl
  | cons glyph text ih =>
    by_cases blank : isBlank glyph = true
    · rw [leftmost?_cons_of_none (refused glyph text blank), ← ih, dropBlanks,
        List.dropWhile_cons_of_pos blank, dropBlanks]
    · rw [Bool.not_eq_true] at blank
      rw [dropBlanks_cons blank]

end PipelineChart.Text
