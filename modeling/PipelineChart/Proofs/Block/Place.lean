import PipelineChart.Proofs.Block.Depth

/-!
Where blocks stand in a text. The block of a keyword is that of the leftmost place where the keyword,
blanks and a brace follow each other; it is missing where there is no such place, and unterminated where
what follows that brace leaves it open. In a text whose braces match no block is unterminated.
-/

namespace PipelineChart.Block

open Text

variable {α : Type} [Glyph α] {keyword : List Char} {text before : List α} {opening : Opening α}

/-- The keyword stands behind `before`, then blanks and a brace, and the inside of the opening is what
follows. -/
def Opens (keyword : List Char) (text before : List α) (opening : Opening α) : Prop :=
  ∃ gap brace, Text.chars opening.keyword = keyword ∧ Blanks gap ∧ Glyph.char brace = '{' ∧
    text = before ++ (opening.keyword ++ (gap ++ brace :: opening.inside))

def OpensFirst (keyword : List Char) (text before : List α) (opening : Opening α) : Prop :=
  Opens keyword text before opening ∧
    ∀ front other, Opens keyword text front other → before.length ≤ front.length

theorem opening?_eq_some_iff :
    opening? keyword text = some opening ↔ Opens keyword text [] opening := by
  simp only [opening?, Option.bind_eq_some_iff, Option.map_eq_some_iff, @after?_eq_some_iff _ _ keyword,
    after?_dropBlanks_eq_some_iff (show isBlank '{' = false from rfl)]
  constructor
  · intro parts
    rcases parts with ⟨_, ⟨word, spelled, rfl⟩, inside, ⟨gap, brace, blank, opened, rfl⟩, rfl⟩
    refine ⟨gap, brace, ?_, blank, opened, ?_⟩
    · rw [upTo_append]
      exact spelled
    · rw [upTo_append]
      rfl
  · intro parts
    obtain ⟨word, inside⟩ := opening
    rcases parts with ⟨gap, brace, spelled, blank, opened, rfl⟩
    refine ⟨_, ⟨word, spelled, rfl⟩, inside, ⟨gap, brace, blank, opened, rfl⟩, ?_⟩
    rw [List.nil_append, upTo_append]

theorem opens_iff : Opens keyword text before opening ↔
    ∃ rest, text = before ++ rest ∧ opening? keyword rest = some opening := by
  simp only [opening?_eq_some_iff, Opens, List.nil_append]
  constructor
  · intro parts
    rcases parts with ⟨gap, brace, spelled, blank, opened, split⟩
    exact ⟨_, split, gap, brace, spelled, blank, opened, rfl⟩
  · intro parts
    rcases parts with ⟨rest, split, gap, brace, spelled, blank, opened, rfl⟩
    exact ⟨gap, brace, spelled, blank, opened, split⟩

theorem leftmost_opening_eq_none_iff : leftmost? (opening? keyword) text = none ↔
    ∀ before opening, ¬ Opens keyword text before opening := by
  rw [leftmost?_eq_none_iff]
  constructor
  · intro refused before opening opens
    obtain ⟨rest, split, reading⟩ := opens_iff.mp opens
    rw [refused before rest split] at reading
    cases reading
  · intro absent before rest split
    rw [Option.eq_none_iff_forall_ne_some]
    intro opening reading
    exact absent before opening (opens_iff.mpr ⟨rest, split, reading⟩)

theorem opensFirst_of_leftmost (found : leftmost? (opening? keyword) text = some opening) :
    ∃ before, OpensFirst keyword text before opening := by
  obtain ⟨before, rest, split, reading, least⟩ := leftmost?_first found
  refine ⟨before, opens_iff.mpr ⟨rest, split, reading⟩, ?_⟩
  intro front other opens
  obtain ⟨later, split', reading'⟩ := opens_iff.mp opens
  exact least front later split' (Option.isSome_of_eq_some reading')

theorem OpensFirst.leftmost (first : OpensFirst keyword text before opening) :
    leftmost? (opening? keyword) text = some opening := by
  cases found : leftmost? (opening? keyword) text with
  | none => exact absurd first.1 (leftmost_opening_eq_none_iff.mp found before opening)
  | some other =>
    obtain ⟨front, first'⟩ := opensFirst_of_leftmost found
    obtain ⟨rest, split, reading⟩ := opens_iff.mp first.1
    obtain ⟨rest', split', reading'⟩ := opens_iff.mp first'.1
    have same := le_antisymm (first.2 front other first'.1) (first'.2 before opening first.1)
    obtain ⟨rfl, rfl⟩ := List.append_inj (split.symm.trans split') same
    exact reading'.symm.trans reading

theorem locate_of_absent (absent : ∀ before opening, ¬ Opens keyword text before opening) :
    locate keyword text = .error .missing := by
  rw [locate, leftmost_opening_eq_none_iff.mpr absent]

theorem OpensFirst.locate_of_open (first : OpensFirst keyword text before opening)
    (unclosed : Open opening.inside) :
    locate keyword text = .error (.unterminated opening.keyword) := by
  simp only [locate, first.leftmost, close?_eq_none_iff_open.mpr unclosed]

theorem OpensFirst.locate_of_closed (first : OpensFirst keyword text before opening)
    {interior rest : List α} (closed : close? 0 opening.inside = some (interior, rest)) :
    locate keyword text = .ok ⟨opening.keyword, trim interior, rest⟩ := by
  simp only [locate, first.leftmost, closed]

theorem exists_opening_of_locate {block : Block α} (located : locate keyword text = .ok block) :
    ∃ before inside interior, OpensFirst keyword text before ⟨block.keyword, inside⟩ ∧
      close? 0 inside = some (interior, block.rest) ∧ block.body = trim interior := by
  unfold locate at located
  split at located
  · cases located
  · rename_i opening found
    obtain ⟨before, first⟩ := opensFirst_of_leftmost found
    split at located
    · cases located
    · rename_i interior rest closed
      cases located
      exact ⟨before, opening.inside, interior, first, closed, rfl⟩

/-- The interior is what stands in front of the brace that closes the block. -/
def Closed (inside interior : List α) : Prop :=
  Level interior ∧ ∃ brace after, Glyph.char brace = '}' ∧ inside = interior ++ brace :: after

theorem closed_of_close? {inside interior after : List α}
    (closed : close? 0 inside = some (interior, after)) : Closed inside interior := by
  obtain ⟨brace, closing, split⟩ := close?_split closed
  exact ⟨level_of_closed closed, brace, after, closing, split⟩

theorem Level.depth_closing {brace : α} (level : Level text) (closing : Glyph.char brace = '}') :
    depth (text ++ [brace]) = -1 := by
  rw [depth_append, level.total, Block.depth_closing closing, depth_nil]
  rfl

theorem Closed.length_le {inside interior other : List α} (closed : Closed inside interior)
    (closed' : Closed inside other) : interior.length ≤ other.length := by
  by_contra longer
  obtain ⟨level, mark, rest, _, split⟩ := closed
  obtain ⟨level', brace, after, closing, split'⟩ := closed'
  have begun : other ++ [brace] <+: inside := ⟨after, by simp [split']⟩
  have within : other ++ [brace] <+: interior := by
    apply List.prefix_of_prefix_length_le begun ⟨mark :: rest, split.symm⟩
    rw [List.length_append, List.length_singleton]
    omega
  have below := level.front _ within
  rw [level'.depth_closing closing] at below
  omega

theorem Closed.unique {inside interior other : List α} (closed : Closed inside interior)
    (closed' : Closed inside other) : interior = other := by
  have same := le_antisymm (closed.length_le closed') (closed'.length_le closed)
  obtain ⟨_, _, _, _, split⟩ := closed
  obtain ⟨_, _, _, _, split'⟩ := closed'
  exact (List.append_inj (split.symm.trans split') same).1

theorem Closed.exists_close? {inside interior : List α} (closed : Closed inside interior) :
    ∃ after, close? 0 inside = some (interior, after) := by
  cases found : close? 0 inside with
  | some parts =>
    obtain ⟨other, after⟩ := parts
    exact ⟨after, by rw [closed.unique (closed_of_close? found)]⟩
  | none =>
    obtain ⟨level, brace, after, closing, rfl⟩ := closed
    have front : interior ++ [brace] <+: interior ++ brace :: after := ⟨after, by simp⟩
    have below := close?_eq_none_iff_open.mp found _ front
    rw [level.depth_closing closing] at below
    omega

theorem level_body {block : Block α} (located : locate keyword text = .ok block) :
    Level block.body := by
  obtain ⟨_, _, interior, _, closed, body⟩ := exists_opening_of_locate located
  rw [body]
  exact (level_of_closed closed).trim

theorem close?_append {depth : Nat} {text interior rest : List α}
    (closed : close? depth text = some (interior, rest)) (more : List α) :
    close? depth (text ++ more) = some (interior, rest ++ more) := by
  fun_induction close? depth text generalizing interior with
  | case1 => cases closed
  | case2 glyph text brace =>
    cases closed
    exact if_pos brace
  | case3 glyph text brace depth ih =>
    obtain ⟨⟨inner, last⟩, closed', same⟩ := Option.map_eq_some_iff.mp closed
    cases same
    rw [List.cons_append, close?.eq_def]
    simp only [if_pos brace, ih closed', Option.map_some]
  | case4 depth glyph text other ih =>
    obtain ⟨⟨inner, last⟩, closed', same⟩ := Option.map_eq_some_iff.mp closed
    cases same
    rw [List.cons_append, close?.eq_def]
    simp only [if_neg other, ih closed', Option.map_some]

theorem exists_parts {block : Block α} (located : locate keyword text = .ok block) :
    ∃ before between behind, Text.chars block.keyword = keyword ∧
      text = before ++ (block.keyword ++ (between ++ (block.body ++ behind))) := by
  obtain ⟨before, inside, interior, ⟨opens, _⟩, closed, body⟩ := exists_opening_of_locate located
  obtain ⟨gap, brace, spelled, _, _, split⟩ := opens
  obtain ⟨closing, _, rfl⟩ := close?_split closed
  obtain ⟨blanks, blanks', _, _, trimmed⟩ := exists_trim interior
  refine ⟨before, gap ++ brace :: blanks, blanks' ++ closing :: block.rest, spelled, ?_⟩
  have whole := congrArg (· ++ closing :: block.rest) trimmed
  simp only [List.append_assoc] at whole
  rw [split, body, whole]
  simp only [List.append_assoc, List.cons_append]

theorem exists_nested_parts {inside interior after : List α} {block : Block α}
    (closed : close? 0 inside = some (interior, after))
    (located : locate keyword (trim interior) = .ok block) :
    ∃ before between behind, Text.chars block.keyword = keyword ∧
      inside = before ++ (block.keyword ++ (between ++ (block.body ++ (behind ++ after)))) := by
  obtain ⟨brace, _, rfl⟩ := close?_split closed
  obtain ⟨blanks, blanks', _, _, trimmed⟩ := exists_trim interior
  obtain ⟨before, between, behind, spelled, parts⟩ := exists_parts located
  refine ⟨blanks ++ before, between, behind ++ (blanks' ++ [brace]), spelled, ?_⟩
  have whole := congrArg (· ++ brace :: after) trimmed
  simp only [parts] at whole
  refine whole.trans ?_
  simp only [List.append_assoc, List.singleton_append]

theorem Opens.exists_within {whole : List α} (opens : Opens keyword text before opening)
    (within : text <:+: whole) : ∃ front other, Opens keyword whole front other := by
  obtain ⟨gap, brace, spelled, blank, opened, rfl⟩ := opens
  obtain ⟨lead, more, rfl⟩ := within
  refine ⟨lead ++ before, ⟨opening.keyword, opening.inside ++ more⟩, gap, brace, spelled, blank, opened, ?_⟩
  simp only [List.append_assoc, List.cons_append]

theorem rest_suffix {depth : Nat} {interior rest : List α}
    (closed : close? depth text = some (interior, rest)) : rest <:+ text := by
  obtain ⟨brace, _, rfl⟩ := close?_split closed
  exact (List.suffix_cons brace rest).trans (List.suffix_append interior _)

theorem interior_prefix {depth : Nat} {interior rest : List α}
    (closed : close? depth text = some (interior, rest)) : interior <+: text := by
  obtain ⟨brace, _, rfl⟩ := close?_split closed
  exact List.prefix_append interior _

theorem body_infix {block : Block α} (located : locate keyword (trim text) = .ok block) :
    block.body <:+: text := by
  obtain ⟨before, between, behind, _, parts⟩ := exists_parts located
  have within : block.body <:+: trim text := by
    refine ⟨before ++ (block.keyword ++ between), behind, ?_⟩
    rw [parts]
    simp only [List.append_assoc]
  exact within.trans (trim_within text)

theorem exists_unterminated {word : List α} (located : locate keyword text = .error (.unterminated word)) :
    ∃ before behind, Text.chars word = keyword ∧ text = before ++ (word ++ behind) := by
  unfold locate at located
  split at located
  · cases located
  · rename_i opening found
    obtain ⟨before, ⟨gap, brace, spelled, _, _, split⟩, _⟩ := opensFirst_of_leftmost found
    split at located
    · cases located
      exact ⟨before, gap ++ brace :: opening.inside, spelled, split⟩
    · cases located

theorem Matched.locate_ne_unterminated (matched : Matched text) (word : List α) :
    locate keyword text ≠ .error (.unterminated word) := by
  intro unterminated
  unfold locate at unterminated
  split at unterminated
  · cases unterminated
  · rename_i opening found
    obtain ⟨before, ⟨gap, brace, _, _, opened, split⟩, _⟩ := opensFirst_of_leftmost found
    have within : brace :: opening.inside <:+ text :=
      ⟨before ++ (opening.keyword ++ gap), by rw [split]; simp only [List.append_assoc]⟩
    obtain ⟨interior, rest, closed⟩ := matched brace opening.inside within opened
    rw [closed] at unterminated
    cases unterminated

theorem Matched.not_opens {fault : Fault α} (matched : Matched text)
    (unlocated : locate keyword text = .error fault) : ∀ before opening, ¬ Opens keyword text before opening := by
  cases fault with
  | missing =>
    unfold locate at unlocated
    split at unlocated
    · rename_i absent
      exact leftmost_opening_eq_none_iff.mp absent
    · split at unlocated <;> cases unlocated
  | unterminated word => exact absurd unlocated (matched.locate_ne_unterminated word)

end PipelineChart.Block
