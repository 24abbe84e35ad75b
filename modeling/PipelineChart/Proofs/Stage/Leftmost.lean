import PipelineChart.Proofs.Pipeline.Terminated
import PipelineChart.Proofs.Stage.Pattern
import PipelineChart.Proofs.Stage.Prune
import PipelineChart.Proofs.Text.Bytes

/-!
Which declaration a scan finds. A text may be read as a declaration at several places, and at one place with several
names, since a name may hold quotes and whole closings. The one that is found begins first and has the shortest name
there; if none is found, none can be read. It is also what the pattern of declarations captures, though that tries
its parts in all ways. So names have a character at least and stay on their line.
-/

namespace PipelineChart

open Text

namespace Stage.Declaration

variable {α : Type} [Glyph α]

/-- The text begins with a declaration of the name, and `rest` is behind its brace. -/
inductive Reads : List α → List α → List α → Prop where
  | mk {head name tail : List α} (rest : List α) (opening : Head (Text.chars head)) (nonempty : name ≠ [])
      (line : '\n' ∉ Text.chars name) (ending : Tail (Text.chars tail)) :
      Reads (head ++ (name ++ (tail ++ rest))) name rest

/-- Of all that can be read from `start` on, the declaration is read at the first place, and has the shortest name of
those that can be read there. -/
structure FoundAt (text : List α) (start position : Nat) (declaration : Declaration α) : Prop where
  behind : start ≤ position
  reads : Reads (text.drop position) declaration.name declaration.inside
  whole : text.drop position = declaration.text ++ declaration.inside
  leftmost : ∀ other name rest, start ≤ other → Reads (text.drop other) name rest → position ≤ other
  shortest : ∀ name rest, Reads (text.drop position) name rest → declaration.name.length ≤ name.length

theorem inline_iff {text : List Char} : '\n' ∉ text ↔ ∀ glyph ∈ text, isNewline glyph = false := by
  simp only [isNewline, char_self, beq_eq_false_iff_ne]
  exact ⟨fun inline glyph member => ne_of_mem_of_not_mem member inline, fun inline member => inline _ member rfl⟩

theorem Declares.named {text name : List Char} (declares : Declares text name) : name ≠ [] ∧ '\n' ∉ name := by
  obtain ⟨_, shortest, _⟩ := declares
  exact ⟨shortest.nonempty, inline_iff.mpr shortest.line⟩

theorem Head.append_inj {head other rest more : List Char} (opening : Head head) (opening' : Head other)
    (same : head ++ rest = other ++ more) : head = other ∧ rest = more := by
  obtain ⟨before, quote, rfl, quoted, silent⟩ := opening.quote_last
  obtain ⟨before', quote', rfl, quoted', silent'⟩ := opening'.quote_last
  rw [List.append_assoc, List.append_assoc] at same
  obtain ⟨rfl, rfl, rest⟩ := first_unique silent silent' quoted quoted' same
  exact ⟨rfl, rest⟩

section

variable {text name rest : List α}

theorem exists_tail (found : closing? text = some rest) :
    ∃ tail, Tail (Text.chars tail) ∧ text = tail ++ rest := by
  simp only [closing?, Option.bind_eq_some_iff, afterQuote?_eq_some_iff,
    after?_dropBlanks_eq_some_iff (show isBlank ')' = false from rfl),
    after?_dropBlanks_eq_some_iff (show isBlank '{' = false from rfl)] at found
  obtain ⟨_, ⟨quote, quoted, rfl⟩, _, ⟨gap, mark, before, closed, rfl⟩, space, brace, behind, opened, rfl⟩ := found
  refine ⟨quote :: gap ++ mark :: space ++ [brace], ?_, by simp⟩
  have spelled : Text.chars (quote :: gap ++ mark :: space ++ [brace]) =
      Glyph.char quote :: Text.chars gap ++ ')' :: Text.chars space ++ ['{'] := by
    simp [Text.chars, closed, opened]
  rw [spelled]
  exact .mk quoted (List.forall_mem_map.mpr before) (List.forall_mem_map.mpr behind)

theorem reads_of_read? {declaration : Declaration α} (found : read? text = some declaration) :
    Reads text declaration.name declaration.inside := by
  obtain ⟨nonempty, line⟩ := (declares_of_read? found).named
  simp only [read?, Option.bind_eq_some_iff, Option.map_eq_some_iff, Prod.exists,
    @after?_eq_some_iff _ _ "stage".toList,
    after?_dropBlanks_eq_some_iff (show isBlank '(' = false from rfl),
    afterQuote?_dropBlanks_eq_some_iff] at found
  obtain ⟨_, ⟨word, spelled, rfl⟩, _, ⟨gap, mark, before, opened, rfl⟩, _, ⟨space, quote, behind, quoted, rfl⟩,
    name, inside, named, rfl⟩ := found
  obtain ⟨rest, rfl, closed⟩ := exists_name named
  obtain ⟨tail, ending, rfl⟩ := exists_tail closed
  have whole : word ++ (gap ++ mark :: (space ++ quote :: (name ++ (tail ++ inside)))) =
      (word ++ gap ++ mark :: space ++ [quote]) ++ (name ++ (tail ++ inside)) := by simp
  have head : Text.chars (word ++ gap ++ mark :: space ++ [quote]) =
      "stage".toList ++ Text.chars gap ++ '(' :: Text.chars space ++ [Glyph.char quote] := by
    rw [← spelled, ← opened]
    simp [Text.chars]
  rw [whole]
  refine .mk inside ?_ (ne_of_apply_ne Text.chars nonempty) line ending
  rw [head]
  exact .mk (List.forall_mem_map.mpr before) (List.forall_mem_map.mpr behind) quoted

theorem exists_name? {name rest inside : List Char} (nonempty : name ≠ []) (line : '\n' ∉ name)
    (closed : closing? rest = some inside) :
    ∃ shortest after, name? (name ++ rest) = some (shortest, after) ∧ shortest.length ≤ name.length := by
  rw [inline_iff] at line
  induction name with
  | nil => exact absurd rfl nonempty
  | cons glyph name ih =>
    obtain ⟨inline, line⟩ := List.forall_mem_cons.mp line
    rw [List.cons_append, name?, inline, if_neg Bool.false_ne_true]
    cases ended : closing? (name ++ rest) with
    | some after => exact ⟨_, _, rfl, by simp⟩
    | none =>
      have more : name ≠ [] := by
        rintro rfl
        rw [List.nil_append, closed] at ended
        cases ended
      obtain ⟨shortest, after, found, shorter⟩ := ih more line
      refine ⟨glyph :: shortest, after, by rw [found]; rfl, ?_⟩
      exact Nat.succ_le_succ shorter

theorem Reads.exists_read? (reads : Reads text name rest) :
    ∃ declaration, read? text = some declaration ∧ declaration.name.length ≤ name.length := by
  obtain @⟨head, name, tail, rest, opening, nonempty, line, ending⟩ := reads
  have closed : closing? (Text.chars tail ++ Text.chars rest) = some (Text.chars rest) :=
    closing?_eq_some_iff.mpr ⟨_, ending, rfl⟩
  have nonempty' : Text.chars name ≠ [] := List.map_eq_nil_iff.not.mpr nonempty
  obtain ⟨shortest, inside, named, shorter⟩ := exists_name? nonempty' line closed
  have plain := read?_chars (head ++ (name ++ (tail ++ rest)))
  rw [chars_append, chars_append name, chars_append tail, read?_head opening, named] at plain
  obtain ⟨declaration, found, same⟩ := Option.map_eq_some_iff.mp plain.symm
  refine ⟨declaration, found, ?_⟩
  have names : Text.chars declaration.name = shortest := congrArg Declaration.name same
  rwa [← names, chars_length, chars_length] at shorter

theorem Reads.unique {other more : List α} (reads : Reads text name rest) (reads' : Reads text other more)
    (same : name.length = other.length) : name = other ∧ rest = more := by
  obtain @⟨head, name, tail, rest, opening, _, _, ending⟩ := reads
  generalize whole : head ++ (name ++ (tail ++ rest)) = text at reads'
  obtain @⟨head', other, tail', more, opening', _, _, ending'⟩ := reads'
  have plain := congrArg Text.chars whole
  rw [chars_append, chars_append head'] at plain
  have heads := congrArg List.length (opening.append_inj opening' plain).1
  rw [chars_length, chars_length] at heads
  have quoted := List.append_inj_right whole heads
  have names := List.append_inj quoted same
  have plain' := congrArg Text.chars names.2
  rw [chars_append, chars_append tail'] at plain'
  have tails := congrArg List.length (ending.append_inj ending' plain').1
  rw [chars_length, chars_length] at tails
  exact ⟨names.1, List.append_inj_right names.2 tails⟩

end

section

variable {text : List α} {start position : Nat} {declaration : Declaration α}

omit [Glyph α] in
theorem drop_of_append {before rest : List α} (split : text.drop start = before ++ rest) :
    text.drop (start + before.length) = rest := by
  rw [← List.drop_drop, split, List.drop_left]

omit [Glyph α] in
theorem drop_eq_append (behind : start ≤ position) :
    text.drop start = (text.drop start).take (position - start) ++ text.drop position := by
  have split := (List.take_append_drop (position - start) (text.drop start)).symm
  rwa [List.drop_drop, Nat.add_sub_cancel' behind] at split

theorem leftmost_read?_eq_none_iff : leftmost? read? (text.drop start) = none ↔
    ∀ position name rest, start ≤ position → ¬ Reads (text.drop position) name rest := by
  rw [leftmost?_eq_none_iff]
  constructor
  · intro refused position name rest behind reads
    obtain ⟨declaration, found, _⟩ := reads.exists_read?
    rw [refused _ _ (drop_eq_append behind)] at found
    cases found
  · intro absent before rest split
    rw [Option.eq_none_iff_forall_ne_some]
    intro declaration found
    rw [← drop_of_append split] at found
    exact absent _ _ _ (Nat.le_add_right ..) (reads_of_read? found)

theorem exists_foundAt (found : leftmost? read? (text.drop start) = some declaration) :
    ∃ position, FoundAt text start position declaration := by
  obtain ⟨before, rest, split, reading, least⟩ := leftmost?_first found
  have place := drop_of_append split
  obtain ⟨_, _, _, _, whole⟩ := exists_front reading
  rw [← place] at reading whole
  refine ⟨start + before.length, Nat.le_add_right .., reads_of_read? reading, whole, ?_, ?_⟩
  · intro other name rest' behind reads
    obtain ⟨_, accepted, _⟩ := reads.exists_read?
    have before' := least _ _ (drop_eq_append behind) (Option.isSome_of_eq_some accepted)
    have within := List.length_take_le (other - start) (text.drop start)
    omega
  · intro name rest' reads
    obtain ⟨first, accepted, shorter⟩ := reads.exists_read?
    obtain rfl := Option.some.inj (reading.symm.trans accepted)
    exact shorter

theorem FoundAt.unique {other : Nat} {declaration' : Declaration α} (found : FoundAt text start position declaration)
    (found' : FoundAt text start other declaration') : declaration = declaration' := by
  have before := found.leftmost _ _ _ found'.behind found'.reads
  have after := found'.leftmost _ _ _ found.behind found.reads
  obtain rfl := Nat.le_antisymm before after
  have shorter := found.shortest _ _ found'.reads
  have longer := found'.shortest _ _ found.reads
  obtain ⟨name, inside⟩ := found.reads.unique found'.reads (Nat.le_antisymm shorter longer)
  have whole := found.whole.symm.trans found'.whole
  rw [inside, List.append_cancel_right_eq] at whole
  rw [mk.injEq]
  exact ⟨whole, name, inside⟩

theorem leftmost_read?_eq_some_iff : leftmost? read? (text.drop start) = some declaration ↔
    ∃ position, FoundAt text start position declaration := by
  constructor
  · exact exists_foundAt
  · rintro ⟨position, found⟩
    cases reading : leftmost? read? (text.drop start) with
    | none => exact absurd found.reads (leftmost_read?_eq_none_iff.mp reading _ _ _ found.behind)
    | some first =>
      obtain ⟨_, found'⟩ := exists_foundAt reading
      rw [found'.unique found]

end

end Stage.Declaration

def Forest.Named (stages : List Stage) : Prop :=
  ∀ name ∈ Forest.names stages, name ≠ "" ∧ '\n' ∉ name.toList

namespace Outline

open Stage.Declaration

variable {α : Type} [Glyph α]

theorem named_of_declared {region : List α} {declaration : Stage.Declaration α}
    (declared : leftmost? read? region = some declaration) :
    string declaration.name ≠ "" ∧ '\n' ∉ (string declaration.name).toList := by
  obtain ⟨nonempty, line⟩ := (exists_place declared).1.named
  rw [string, String.toList_ofList, ← String.ofList_nil, ne_eq, String.ofList_inj]
  exact ⟨nonempty, line⟩

theorem named_scan (limit depth : Nat) (region : List α) : Forest.Named (scan limit depth region).stages := by
  fun_induction scan limit depth region with
  | case1 depth region absent => exact List.forall_mem_nil _
  | case2 depth region declaration declared unclosed ih => exact ih
  | case3 depth region declaration declared interior after closed fault unlocated ih =>
    obtain ⟨steps, problems, added⟩ := exists_leaf declaration (trim interior)
    rw [added]
    exact List.forall_mem_cons.mpr ⟨named_of_declared declared, ih⟩
  | case4 depth region declaration declared interior after closed block located deep ih => exact ih
  | case5 depth region declaration declared interior after closed block located shallow inner outer =>
    refine List.forall_mem_cons.mpr ⟨named_of_declared declared, ?_⟩
    exact List.forall_mem_append.mpr ⟨inner, outer⟩

theorem named_ofSource (limit : Nat) (source : String) : Forest.Named (ofSource limit source).stages := by
  unfold ofSource ofPipeline
  split
  · exact List.forall_mem_nil _
  · exact List.forall_mem_nil _
  · exact named_scan limit 0 _

end Outline

namespace Stage.Declaration

/-- The declaration that is found from `start` on is the one at the first place where any can be read, with the shortest
name there, and none is found exactly if none can be read. The pattern of declarations captures the same. So all names
of parsed stages have a character and stay on one line. -/
theorem leftmost_shortest {α : Type} [Glyph α] (text : List α) (start : Nat) :
    (∀ declaration, leftmost? read? (text.drop start) = some declaration ↔
      ∃ position, FoundAt text start position declaration) ∧
    (leftmost? read? (text.drop start) = none ↔
      ∀ position name rest, start ≤ position → ¬ Reads (text.drop position) name rest) ∧
    (declarationPattern.text = pattern ∧
      leftmost? declarationPattern.read? (Text.chars (text.drop start)) =
        (leftmost? read? (text.drop start)).map fun declaration =>
          (Text.chars declaration.name, Text.chars declaration.inside)) ∧
    (∀ options source parsed, Pipeline.parse options source = .ok parsed → Forest.Named parsed.stages) ∧
    ∀ source, Forest.Named (Pipeline.stages source) ∧ Forest.Named (Pipeline.stagesOfText source) := by
  refine ⟨fun declaration => leftmost_read?_eq_some_iff, leftmost_read?_eq_none_iff, ?_, ?_, ?_⟩
  · exact ⟨text_declarationPattern, leftmost?_declarationPattern (text.drop start)⟩
  · intro options source parsed accepted
    rw [Pipeline.stages_of_parse accepted]
    exact Outline.named_ofSource options.maxDepth source
  · intro source
    exact ⟨Outline.named_ofSource _ source, Outline.named_scan _ 0 source.toList⟩

/-- A name that holds a closing and a head, the name that is found behind its first glyph, and none behind that. -/
theorem leftmost_shortest_of_quotes :
    let text := "stage('a') stage(\"b') \x7b".toList
    let first : Declaration Char := ⟨text, "a') stage(\"b".toList, []⟩
    let second : Declaration Char := ⟨text.drop 11, "b".toList, []⟩
    let source := "pipeline \x7b stage('it's') \x7b steps \x7b \x7d \x7d \x7d"
    (leftmost? read? text = some first ∧ ∃ position, FoundAt text 0 position first) ∧
      (leftmost? read? (text.drop 1) = some second ∧ ∃ position, FoundAt text 1 position second) ∧
      (leftmost? read? (text.drop 12) = none ∧
        ∀ position name rest, 12 ≤ position → ¬ Reads (text.drop position) name rest) ∧
      Pipeline.parse ⟨8, true⟩ source = .ok ⟨[.leaf "it's" []], []⟩ ∧ Forest.Named [.leaf "it's" []] := by
  intro text first second source
  have found : leftmost? read? (text.drop 0) = some first := by decide +kernel
  have found' : leftmost? read? (text.drop 1) = some second := by decide +kernel
  have absent : leftmost? read? (text.drop 12) = none := by decide +kernel
  have accepted : Pipeline.parse ⟨8, true⟩ source = .ok ⟨[.leaf "it's" []], []⟩ := by decide +kernel
  refine ⟨⟨found, ?_⟩, ⟨found', ?_⟩, ⟨absent, ?_⟩, accepted, ?_⟩
  · exact ((leftmost_shortest text 0).1 first).mp found
  · exact ((leftmost_shortest text 1).1 second).mp found'
  · exact (leftmost_shortest text 12).2.1.mp absent
  · exact (leftmost_shortest text 0).2.2.2.1 _ source _ accepted

end Stage.Declaration

end PipelineChart
