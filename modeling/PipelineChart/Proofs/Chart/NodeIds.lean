import Mathlib.Data.List.Chain
import Mathlib.Data.List.Forall2
import PipelineChart.Chart.Graph
import PipelineChart.Proofs.Text.Reading

/-!
What the id of a node tells. A name is taken apart into its longest stretches of blanks and of other characters, and
each stretch of blanks becomes one hyphen. Behind the word that begins all ids stand the words of the name, joined by
hyphens, and one more hyphen at each end where the name has blanks. So of names without hyphens two share an id exactly
if they have the same words and have blanks at the same ends.
-/

namespace PipelineChart

open Text

/-- Characters of one kind, all blanks or none of them, and one character at least. -/
@[ext]
structure Stretch where
  blank : Bool
  text : List Char
  nonempty : text ≠ []
  uniform : ∀ char ∈ text, isBlank char = blank

/-- A text taken apart into stretches. As neighbours are of different kinds no stretch can be longer. -/
structure Splits (text : List Char) (parts : List Stretch) : Prop where
  whole : parts.flatMap Stretch.text = text
  alternating : parts.IsChain fun part next => part.blank ≠ next.blank

namespace Stretch

def single (char : Char) : Stretch :=
  ⟨isBlank char, [char], List.cons_ne_nil _ _, List.forall_mem_singleton.mpr rfl⟩

def push (char : Char) : List Stretch → List Stretch
  | [] => [single char]
  | first :: rest =>
      if same : isBlank char = first.blank then
        ⟨first.blank, char :: first.text, List.cons_ne_nil _ _, List.forall_mem_cons.mpr ⟨same, first.uniform⟩⟩ :: rest
      else single char :: first :: rest

def hyphenated (part : Stretch) : List Char := if part.blank then ['-'] else part.text

def words (parts : List Stretch) : List (List Char) := (parts.filter fun part => !part.blank).map text

/-- What is written for the stretch is something, and each character of it tells the kind. -/
def Tells (held : Char → Bool) (write : Stretch → List Char) (part : Stretch) : Prop :=
  write part ≠ [] ∧ ∀ char ∈ write part, held char = part.blank

end Stretch

open Stretch (push hyphenated words Tells)

def stretches (text : List Char) : List Stretch := text.foldr push []

def beginsBlank (text : List Char) : Bool := text.head?.any isBlank

def endsBlank (text : List Char) : Bool := text.getLast?.any isBlank

section

variable {held : Char → Bool} {write : Stretch → List Char} {parts others : List Stretch}

theorem splits_push {text : List Char} (splits : Splits text parts) (char : Char) :
    Splits (char :: text) (push char parts) := by
  obtain ⟨whole, alternating⟩ := splits
  cases parts with
  | nil => exact ⟨congrArg (char :: ·) whole, List.isChain_singleton _⟩
  | cons first rest =>
    rw [push]
    split_ifs with same
    · refine ⟨congrArg (char :: ·) whole, ?_⟩
      rw [List.isChain_cons] at alternating ⊢
      exact alternating
    · exact ⟨congrArg (char :: ·) whole, List.isChain_cons_cons.mpr ⟨same, alternating⟩⟩

theorem splits_stretches (text : List Char) : Splits text (stretches text) := by
  induction text with
  | nil => exact ⟨rfl, List.isChain_nil⟩
  | cons char text ih => exact splits_push ih char

example : (stretches " a\t b".toList).map Stretch.text = [" ".toList, "a".toList, "\t ".toList, "b".toList] := by
  decide +kernel

theorem head?_flatMap (told : ∀ part ∈ parts, Tells held write part) :
    (parts.flatMap write).head?.map held = parts.head?.map Stretch.blank := by
  cases parts with
  | nil => rfl
  | cons part rest =>
    obtain ⟨nonempty, uniform⟩ := told part List.mem_cons_self
    rw [List.flatMap_cons, List.head?_append_of_ne_nil _ nonempty, List.head?_eq_some_head nonempty]
    exact congrArg some (uniform _ (List.head_mem nonempty))

theorem getLast?_flatMap (told : ∀ part ∈ parts, Tells held write part) :
    (parts.flatMap write).getLast?.map held = parts.getLast?.map Stretch.blank := by
  rcases List.eq_nil_or_concat parts with rfl | ⟨front, part, rfl⟩
  · rfl
  · obtain ⟨nonempty, uniform⟩ := told part (by simp)
    rw [List.concat_eq_append, List.flatMap_append, List.flatMap_singleton, List.getLast?_concat,
      List.getLast?_append_of_ne_nil _ nonempty, List.getLast?_eq_some_getLast nonempty]
    exact congrArg some (uniform _ (List.getLast_mem nonempty))

theorem stops_of_alternating {part : Stretch} (told : ∀ next ∈ parts, Tells held write next)
    (alternating : (part :: parts).IsChain fun part next => part.blank ≠ next.blank) :
    ∀ char ∈ (parts.flatMap write).head?, held char ≠ part.blank := by
  intro char begun
  have kinds := head?_flatMap told
  rw [Option.mem_def.mp begun, Option.map_some, eq_comm, Option.map_eq_some_iff] at kinds
  obtain ⟨next, first, kind⟩ := kinds
  rw [← kind]
  exact ((List.isChain_cons.mp alternating).1 next first).symm

/-- There is one way to cut a text where its characters are of one kind up to there and of the other behind. -/
theorem append_inj_of_held {kind : Bool} {front front' rest rest' : List Char}
    (uniform : ∀ char ∈ front, held char = kind) (uniform' : ∀ char ∈ front', held char = kind)
    (stops : ∀ char ∈ rest.head?, held char ≠ kind) (stops' : ∀ char ∈ rest'.head?, held char ≠ kind)
    (same : front ++ rest = front' ++ rest') : front = front' ∧ rest = rest' := by
  have taken (front rest : List Char) (uniform : ∀ char ∈ front, held char = kind)
      (stops : ∀ char ∈ rest.head?, held char ≠ kind) :
      (front ++ rest).takeWhile (fun char => held char == kind) = front := by
    rw [List.takeWhile_append_of_pos fun char member => beq_iff_eq.mpr (uniform char member)]
    cases rest with
    | nil => exact List.append_nil front
    | cons char rest =>
      rw [List.takeWhile_cons, beq_eq_false_iff_ne.mpr (stops char rfl)]
      exact List.append_nil front
  have fronts : front = front' := by
    rw [← taken front rest uniform stops, same, taken front' rest' uniform' stops']
  rw [fronts] at same
  exact ⟨fronts, List.append_cancel_left same⟩

theorem forall₂_of_flatMap_eq (told : ∀ part ∈ parts, Tells held write part)
    (told' : ∀ part ∈ others, Tells held write part)
    (alternating : parts.IsChain fun part next => part.blank ≠ next.blank)
    (alternating' : others.IsChain fun part next => part.blank ≠ next.blank)
    (same : parts.flatMap write = others.flatMap write) :
    List.Forall₂ (fun part other => part.blank = other.blank ∧ write part = write other) parts others := by
  have kinds : parts.head?.map Stretch.blank = others.head?.map Stretch.blank := by
    rw [← head?_flatMap told, same, head?_flatMap told']
  induction parts generalizing others with
  | nil =>
    cases others with
    | nil => exact .nil
    | cons other others => cases kinds
  | cons part parts ih =>
    cases others with
    | nil => cases kinds
    | cons other others =>
      have kind : part.blank = other.blank := Option.some.inj kinds
      rw [List.forall_mem_cons] at told told'
      have stops := stops_of_alternating told.2 alternating
      have stops' := stops_of_alternating told'.2 alternating'
      rw [← kind] at stops'
      have uniform' := told'.1.2
      rw [← kind] at uniform'
      rw [List.flatMap_cons, List.flatMap_cons] at same
      obtain ⟨written, behind⟩ := append_inj_of_held told.1.2 uniform' stops stops' same
      refine .cons ⟨kind, written⟩ (ih told.2 told'.2 alternating.of_cons alternating'.of_cons behind ?_)
      rw [← head?_flatMap told.2, behind, head?_flatMap told'.2]

theorem tells_text (part : Stretch) : Tells isBlank Stretch.text part := ⟨part.nonempty, part.uniform⟩

theorem Splits.unique {text : List Char} (splits : Splits text parts) (splits' : Splits text others) :
    parts = others := by
  have alike := forall₂_of_flatMap_eq (fun part _ => tells_text part) (fun part _ => tells_text part)
    splits.alternating splits'.alternating (splits.whole.trans splits'.whole.symm)
  rw [← List.forall₂_eq_eq_eq]
  exact alike.imp fun part other same => Stretch.ext same.1 same.2

end

section

variable {parts others : List Stretch}

theorem hyphenate_blanks {gap : List Char} (blank : Blanks gap) (rest : List Char) :
    hyphenate true (gap ++ rest) = hyphenate true rest := by
  induction gap with
  | nil => rfl
  | cons char gap ih =>
    obtain ⟨first, blank⟩ := List.forall_mem_cons.mp blank
    rw [List.cons_append, hyphenate, if_pos first, if_pos rfl]
    exact ih blank

theorem hyphenate_visible {word : List Char} (visible : ∀ char ∈ word, isBlank char = false) (rest : List Char) :
    hyphenate false (word ++ rest) = word ++ hyphenate false rest := by
  induction word with
  | nil => rfl
  | cons char word ih =>
    obtain ⟨first, visible⟩ := List.forall_mem_cons.mp visible
    rw [List.cons_append, hyphenate, first, if_neg Bool.false_ne_true, ih visible]
    rfl

theorem hyphenate_within {text : List Char} (stops : ∀ char ∈ text.head?, isBlank char ≠ true) :
    hyphenate true text = hyphenate false text := by
  cases text with
  | nil => rfl
  | cons char text =>
    have visible := stops char rfl
    rw [hyphenate, hyphenate, if_neg visible, if_neg visible]

theorem hyphenate_stretch (part : Stretch) (rest : List Char) :
    hyphenate false (part.text ++ rest) = part.hyphenated ++ hyphenate part.blank rest := by
  obtain ⟨blank, text, nonempty, uniform⟩ := part
  cases blank with
  | false => exact hyphenate_visible uniform rest
  | true =>
    obtain ⟨char, gap, rfl⟩ := List.exists_cons_of_ne_nil nonempty
    obtain ⟨first, gaps⟩ := List.forall_mem_cons.mp uniform
    dsimp only
    rw [List.cons_append, hyphenate, if_pos first, if_neg Bool.false_ne_true, hyphenate_blanks gaps]
    rfl

theorem hyphenate_flatMap (alternating : parts.IsChain fun part next => part.blank ≠ next.blank) :
    hyphenate false (parts.flatMap Stretch.text) = parts.flatMap hyphenated := by
  induction parts with
  | nil => rfl
  | cons part parts ih =>
    have stops := stops_of_alternating (fun next _ => tells_text next) alternating
    rw [List.flatMap_cons, List.flatMap_cons, hyphenate_stretch, ← ih alternating.of_cons]
    cases kind : part.blank with
    | false => rfl
    | true =>
      rw [kind] at stops
      rw [hyphenate_within stops]

theorem nodeId_eq (name : String) :
    nodeId name = "stage-" ++ String.ofList ((stretches name.toList).flatMap hyphenated) := by
  have splits := splits_stretches name.toList
  rw [nodeId, ← hyphenate_flatMap splits.alternating, splits.whole]

theorem toList_nodeId (name : String) :
    (nodeId name).toList = "stage-".toList ++ (stretches name.toList).flatMap hyphenated := by
  rw [nodeId_eq, String.toList_append]
  exact congrArg _ String.toList_ofList

theorem nodeId_inj {name other : String} : nodeId name = nodeId other ↔
    (stretches name.toList).flatMap hyphenated = (stretches other.toList).flatMap hyphenated := by
  rw [← String.toList_inj, toList_nodeId, toList_nodeId, List.append_cancel_left_eq]

theorem isBlank_hyphenated (part : Stretch) : ∀ char ∈ part.hyphenated, isBlank char = false := by
  intro char member
  rw [hyphenated] at member
  split_ifs at member with blank
  · rw [List.mem_singleton.mp member]
    rfl
  · rw [part.uniform char member, Bool.not_eq_true _ |>.mp blank]

theorem isBlank_nodeId (name : String) : ∀ char ∈ (nodeId name).toList, isBlank char = false := by
  have first : "stage-".toList.any isBlank = false := by decide +kernel
  intro char member
  rw [toList_nodeId, List.mem_append] at member
  rcases member with member | member
  · exact Bool.eq_false_iff.mpr (List.any_eq_false.mp first char member)
  · obtain ⟨part, _, within⟩ := List.mem_flatMap.mp member
    exact isBlank_hyphenated part char within

theorem tells_hyphenated {part : Stretch} (plain : '-' ∉ part.text) : Tells (· == '-') hyphenated part := by
  obtain ⟨blank, text, nonempty, uniform⟩ := part
  cases blank with
  | true => exact ⟨List.cons_ne_nil _ _, List.forall_mem_singleton.mpr rfl⟩
  | false => exact ⟨nonempty, fun char member => beq_eq_false_iff_ne.mpr (ne_of_mem_of_not_mem member plain)⟩

theorem Splits.plain {text : List Char} (splits : Splits text parts) (plain : '-' ∉ text) :
    ∀ part ∈ parts, Tells (· == '-') hyphenated part := by
  intro part member
  apply tells_hyphenated
  intro hyphen
  rw [← splits.whole, List.mem_flatMap] at plain
  exact plain ⟨part, member, hyphen⟩

/-- Words with a hyphen between any two, and one behind the last if blanks are there. -/
def joined (ends : Bool) : List (List Char) → List Char
  | [] => []
  | [word] => word ++ if ends then ['-'] else []
  | word :: next :: words => word ++ '-' :: joined ends (next :: words)

theorem joined_cons {ends : Bool} {texts : List (List Char)} (closed : texts = [] → ends = true) (word : List Char) :
    joined ends (word :: texts) = word ++ '-' :: joined ends texts := by
  cases texts with
  | nil =>
    rw [closed rfl]
    rfl
  | cons next texts => rfl

theorem words_blank {part : Stretch} (blank : part.blank = true) (parts : List Stretch) :
    words (part :: parts) = words parts := by
  rw [words, List.filter_cons_of_neg (by rw [blank]; exact Bool.false_ne_true), words]

theorem words_visible {part : Stretch} (visible : part.blank = false) (parts : List Stretch) :
    words (part :: parts) = part.text :: words parts := by
  rw [words, List.filter_cons_of_pos (by rw [visible]; rfl), List.map_cons, words]

theorem last_blank {part : Stretch} (wordless : words (part :: parts) = []) :
    (part :: parts).getLast?.any Stretch.blank = true := by
  have nonempty := List.cons_ne_nil part parts
  have blanks := List.filter_eq_nil_iff.mp (List.map_eq_nil_iff.mp wordless) _ (List.getLast_mem nonempty)
  rw [List.getLast?_eq_some_getLast nonempty]
  simpa using blanks

theorem flatMap_hyphenated (alternating : parts.IsChain fun part next => part.blank ≠ next.blank) :
    parts.flatMap hyphenated = (if parts.head?.any Stretch.blank then ['-'] else []) ++
      joined (parts.getLast?.any Stretch.blank) (words parts) := by
  induction parts with
  | nil => rfl
  | cons part parts ih =>
    have behind := ih alternating.of_cons
    rw [List.flatMap_cons, behind, hyphenated, List.head?_cons, Option.any_some]
    cases parts with
    | nil =>
      cases kind : part.blank with
      | true => simp [kind, words, joined]
      | false => simp [kind, words, joined]
    | cons next rest =>
      have other := (List.isChain_cons_cons.mp alternating).1
      rw [List.getLast?_cons_cons, List.head?_cons, Option.any_some]
      cases kind : part.blank with
      | true =>
        have visible : next.blank = false := by simpa [kind] using other
        rw [words_blank kind, visible]
        rfl
      | false =>
        have blank : next.blank = true := by simpa [kind] using other
        rw [words_visible kind, joined_cons last_blank, blank]
        rfl

theorem words_of_alike (alike : List.Forall₂ (fun part other : Stretch =>
    part.blank = other.blank ∧ part.hyphenated = other.hyphenated) parts others) : words parts = words others := by
  induction alike with
  | nil => rfl
  | @cons part other parts others same _ ih =>
    obtain ⟨kind, written⟩ := same
    cases blank : part.blank with
    | true => rw [words_blank blank, words_blank (kind.symm.trans blank), ih]
    | false =>
      have visible := kind.symm.trans blank
      rw [hyphenated, hyphenated, blank, visible] at written
      rw [words_visible blank, words_visible visible, ih]
      exact congrArg (· :: words others) written

theorem flatMap_hyphenated_inj (plain : ∀ part ∈ parts, Tells (· == '-') hyphenated part)
    (plain' : ∀ part ∈ others, Tells (· == '-') hyphenated part)
    (alternating : parts.IsChain fun part next => part.blank ≠ next.blank)
    (alternating' : others.IsChain fun part next => part.blank ≠ next.blank) :
    parts.flatMap hyphenated = others.flatMap hyphenated ↔ words parts = words others ∧
      parts.head?.any Stretch.blank = others.head?.any Stretch.blank ∧
      parts.getLast?.any Stretch.blank = others.getLast?.any Stretch.blank := by
  constructor
  · intro same
    have first : parts.head?.map Stretch.blank = others.head?.map Stretch.blank := by
      rw [← head?_flatMap plain, same, head?_flatMap plain']
    have last : parts.getLast?.map Stretch.blank = others.getLast?.map Stretch.blank := by
      rw [← getLast?_flatMap plain, same, getLast?_flatMap plain']
    refine ⟨words_of_alike (forall₂_of_flatMap_eq plain plain' alternating alternating' same), ?_, ?_⟩
    · simpa [Option.any_map] using congrArg (Option.any id) first
    · simpa [Option.any_map] using congrArg (Option.any id) last
  · rintro ⟨same, first, last⟩
    rw [flatMap_hyphenated alternating, flatMap_hyphenated alternating', same, first, last]

theorem Splits.beginsBlank_eq {text : List Char} (splits : Splits text parts) :
    beginsBlank text = parts.head?.any Stretch.blank := by
  have first := head?_flatMap fun part (_ : part ∈ parts) => tells_text part
  rw [splits.whole] at first
  simpa [beginsBlank, Option.any_map] using congrArg (Option.any id) first

theorem Splits.endsBlank_eq {text : List Char} (splits : Splits text parts) :
    endsBlank text = parts.getLast?.any Stretch.blank := by
  have last := getLast?_flatMap fun part (_ : part ∈ parts) => tells_text part
  rw [splits.whole] at last
  simpa [endsBlank, Option.any_map] using congrArg (Option.any id) last

end

/-- A name is taken apart into its longest stretches in one way, and in its id each stretch of blanks has become one
hyphen. So no blank is left in an id, and names without hyphens share an id exactly if they have the same words in the
same order and blanks at the same ends. -/
theorem nodeId_of_stretches (name : String) :
    (∀ parts, Splits name.toList parts ↔ parts = stretches name.toList) ∧
    nodeId name = "stage-" ++ String.ofList ((stretches name.toList).flatMap hyphenated) ∧
    (∀ char ∈ (nodeId name).toList, isBlank char = false) ∧
    ∀ other : String, '-' ∉ name.toList → '-' ∉ other.toList → (nodeId name = nodeId other ↔
      words (stretches name.toList) = words (stretches other.toList) ∧
      beginsBlank name.toList = beginsBlank other.toList ∧ endsBlank name.toList = endsBlank other.toList) := by
  have splits := splits_stretches name.toList
  refine ⟨fun parts => ?_, nodeId_eq name, isBlank_nodeId name, ?_⟩
  · constructor
    · intro other
      exact other.unique splits
    · rintro rfl
      exact splits
  · intro other plain plain'
    have splits' := splits_stretches other.toList
    rw [nodeId_inj, splits.beginsBlank_eq, splits.endsBlank_eq, splits'.beginsBlank_eq, splits'.endsBlank_eq]
    exact flatMap_hyphenated_inj (splits.plain plain) (splits'.plain plain') splits.alternating splits'.alternating

example : nodeId "a-b" = nodeId "a b" := by decide +kernel

/-- Two names that differ in all their blanks and share an id, and a third with the same words that has no blank at its
end. -/
theorem nodeId_of_stretches_shared :
    let first := " Unit \t Tests\n"
    let second := "\u00a0Unit\u3000Tests "
    let third := " Unit Tests"
    '-' ∉ first.toList ∧ '-' ∉ second.toList ∧ '-' ∉ third.toList ∧ nodeId first = nodeId second ∧
      nodeId first ≠ nodeId third ∧ words (stretches first.toList) = words (stretches third.toList) := by
  intro first second third
  have plain : '-' ∉ first.toList := by decide
  have plain' : '-' ∉ second.toList := by decide
  have plain'' : '-' ∉ third.toList := by decide
  obtain ⟨_, _, _, shared⟩ := nodeId_of_stretches first
  have same := (shared second plain plain').mpr (by decide +kernel)
  have other : endsBlank first.toList ≠ endsBlank third.toList := by decide +kernel
  refine ⟨plain, plain', plain'', same, ?_, by decide +kernel⟩
  intro equal
  exact other ((shared third plain plain'').mp equal).2.2

end PipelineChart
