import Mathlib.Logic.Relation
import PipelineChart.Proofs.Block.Place
import PipelineChart.Proofs.Stage.Place
import PipelineChart.Proofs.Stage.Scan

/-!
The regions that a scan reaches. Each step goes on with a region inside the one before it, and the
problems of a scan are those that its steps tell. Where the braces of a region match each other they
match in every region that is reached from it; then all blocks in it are terminated.
-/

namespace PipelineChart.Outline

open Text Stage.Declaration

variable {α : Type} [Glyph α] {limit : Nat}

/-- From which region a scan goes on with which, each with the number of parallel stages around it. -/
inductive Follows (limit : Nat) : Nat × List α → Nat × List α → Prop where
  | unclosed {depth : Nat} {region : List α} {declaration : Stage.Declaration α}
      (declared : leftmost? read? region = some declaration)
      (unclosed : Block.close? 0 declaration.inside = none) :
      Follows limit (depth, region) (depth, declaration.inside)
  | leaf {depth : Nat} {region interior after : List α} {declaration : Stage.Declaration α}
      {fault : Block.Fault α} (declared : leftmost? read? region = some declaration)
      (closed : Block.close? 0 declaration.inside = some (interior, after))
      (unlocated : Block.locate "parallel".toList (trim interior) = .error fault) :
      Follows limit (depth, region) (depth, declaration.inside)
  | after {depth : Nat} {region interior after : List α} {declaration : Stage.Declaration α}
      {block : Block α} (declared : leftmost? read? region = some declaration)
      (closed : Block.close? 0 declaration.inside = some (interior, after))
      (located : Block.locate "parallel".toList (trim interior) = .ok block) :
      Follows limit (depth, region) (depth, after)
  | branches {depth : Nat} {region interior after : List α} {declaration : Stage.Declaration α}
      {block : Block α} (declared : leftmost? read? region = some declaration)
      (closed : Block.close? 0 declaration.inside = some (interior, after))
      (located : Block.locate "parallel".toList (trim interior) = .ok block)
      (shallow : depth < limit) : Follows limit (depth, region) (depth + 1, block.body)

abbrev Reaches (limit : Nat) : Nat × List α → Nat × List α → Prop :=
  Relation.ReflTransGen (Follows limit)

inductive Tells (limit depth : Nat) (declaration : Stage.Declaration α) : Problem α → Prop where
  | unterminatedStage (unclosed : Block.close? 0 declaration.inside = none) :
      Tells limit depth declaration
        (.unterminatedStage (string declaration.name) declaration.text)
  | missingSteps {interior after : List α} {fault fault' : Block.Fault α}
      (closed : Block.close? 0 declaration.inside = some (interior, after))
      (unlocated : Block.locate "parallel".toList (trim interior) = .error fault)
      (stepless : Block.locate "steps".toList (trim interior) = .error fault') :
      Tells limit depth declaration (.missingSteps (string declaration.name) declaration.text)
  | tooDeep {interior after : List α} {block : Block α}
      (closed : Block.close? 0 declaration.inside = some (interior, after))
      (located : Block.locate "parallel".toList (trim interior) = .ok block)
      (deep : limit ≤ depth) :
      Tells limit depth declaration
        (.tooDeep limit (string declaration.name) declaration.text block.keyword)

theorem problems_leaf {declaration : Stage.Declaration α} {body : List α} {outline : Outline α}
    {problem : Problem α} : problem ∈ (outline.leaf declaration body).problems ↔
      (problem = .missingSteps (string declaration.name) declaration.text ∧
        ∃ fault, Block.locate "steps".toList body = .error fault) ∨ problem ∈ outline.problems := by
  unfold leaf
  cases Block.locate "steps".toList body with
  | ok block => simp [stage]
  | error fault => simp [Outline.problem, stage]

def Told (limit : Nat) (start : Nat × List α) (problem : Problem α) : Prop :=
  ∃ place declaration, Reaches limit start place ∧ leftmost? read? place.2 = some declaration ∧
    Tells limit place.1 declaration problem

variable {depth : Nat} {region : List α} {declaration : Stage.Declaration α} {problem : Problem α}

theorem Told.here (declared : leftmost? read? region = some declaration)
    (tells : Tells limit depth declaration problem) : Told limit (depth, region) problem :=
  ⟨(depth, region), declaration, .refl, declared, tells⟩

theorem Told.of_follows {start next : Nat × List α} (follows : Follows limit start next)
    (told : Told limit next problem) : Told limit start problem := by
  obtain ⟨place, declaration, reaches, declared, tells⟩ := told
  exact ⟨place, declaration, reaches.head follows, declared, tells⟩

theorem told_of_mem (member : problem ∈ (scan limit depth region).problems) :
    Told limit (depth, region) problem := by
  fun_induction scan limit depth region with
  | case1 => cases member
  | case2 depth region declaration declared unclosed ih =>
    rcases List.mem_cons.mp member with rfl | later
    · exact .here declared (.unterminatedStage unclosed)
    · exact (ih later).of_follows (.unclosed declared unclosed)
  | case3 depth region declaration declared interior after closed fault unlocated ih =>
    rcases problems_leaf.mp member with ⟨rfl, _, stepless⟩ | later
    · exact .here declared (.missingSteps closed unlocated stepless)
    · exact (ih later).of_follows (.leaf declared closed unlocated)
  | case4 depth region declaration declared interior after closed block located deep ih =>
    rcases List.mem_cons.mp member with rfl | later
    · exact .here declared (.tooDeep closed located deep)
    · exact (ih later).of_follows (.after declared closed located)
  | case5 depth region declaration declared interior after closed block located shallow inner outer =>
    rcases List.mem_append.mp member with within | later
    · exact (inner within).of_follows (.branches declared closed located (not_le.mp shallow))
    · exact (outer later).of_follows (.after declared closed located)

theorem mem_of_tells (declared : leftmost? read? region = some declaration)
    (tells : Tells limit depth declaration problem) :
    problem ∈ (scan limit depth region).problems := by
  cases tells with
  | unterminatedStage unclosed =>
    rw [scan_of_open declared unclosed]
    exact List.mem_cons_self
  | missingSteps closed unlocated stepless =>
    rw [scan_of_leaf declared closed unlocated, problems_leaf]
    exact Or.inl ⟨rfl, _, stepless⟩
  | tooDeep closed located deep =>
    rw [scan_of_block declared closed located, if_pos deep]
    exact List.mem_cons_self

theorem mem_of_follows {start next : Nat × List α} (follows : Follows limit start next)
    (member : problem ∈ (scan limit next.1 next.2).problems) :
    problem ∈ (scan limit start.1 start.2).problems := by
  cases follows with
  | unclosed declared unclosed =>
    rw [scan_of_open declared unclosed]
    exact List.mem_cons_of_mem _ member
  | leaf declared closed unlocated =>
    rw [scan_of_leaf declared closed unlocated, problems_leaf]
    exact Or.inr member
  | after declared closed located =>
    rw [scan_of_block declared closed located]
    split_ifs
    · exact List.mem_cons_of_mem _ member
    · exact List.mem_append_right _ member
  | branches declared closed located shallow =>
    rw [scan_of_block declared closed located, if_neg (not_le.mpr shallow)]
    exact List.mem_append_left _ member

theorem mem_of_reaches {start place : Nat × List α} (reaches : Reaches limit start place)
    (member : problem ∈ (scan limit place.1 place.2).problems) :
    problem ∈ (scan limit start.1 start.2).problems := by
  induction reaches with
  | refl => exact member
  | tail _ follows ih => exact ih (mem_of_follows follows member)

theorem mem_problems_iff :
    problem ∈ (scan limit depth region).problems ↔ Told limit (depth, region) problem := by
  constructor
  · exact told_of_mem
  · intro told
    obtain ⟨place, declaration, reaches, declared, tells⟩ := told
    exact mem_of_reaches reaches (mem_of_tells declared tells)

theorem matched_inside (matched : Block.Matched region)
    (declared : leftmost? read? region = some declaration) : Block.Matched declaration.inside := by
  obtain ⟨brace, _, within⟩ := exists_brace declared
  exact matched.suffix ((List.suffix_cons brace _).trans within)

theorem matched_of_follows {start next : Nat × List α} (follows : Follows limit start next)
    (matched : Block.Matched start.2) : Block.Matched next.2 := by
  cases follows with
  | unclosed declared unclosed => exact matched_inside matched declared
  | leaf declared closed unlocated => exact matched_inside matched declared
  | after declared closed located =>
    obtain ⟨closing, _, split⟩ := Block.close?_split closed
    apply (matched_inside matched declared).suffix
    rw [split]
    exact (List.suffix_cons closing _).trans (List.suffix_append _ _)
  | branches declared closed located shallow => exact (Block.level_body located).matched

theorem matched_of_reaches {start place : Nat × List α} (reaches : Reaches limit start place)
    (matched : Block.Matched start.2) : Block.Matched place.2 := by
  induction reaches with
  | refl => exact matched
  | tail _ follows ih => exact matched_of_follows follows ih

/-- Where braces match, a declaration opens a stage that is closed, and no block in it is unterminated. -/
theorem terminated (matched : Block.Matched region)
    (declared : leftmost? read? region = some declaration) :
    ∃ interior after, Block.close? 0 declaration.inside = some (interior, after) ∧
      ∀ keyword word, Block.locate keyword (trim interior) ≠ .error (.unterminated word) := by
  obtain ⟨brace, opened, within⟩ := exists_brace declared
  obtain ⟨interior, after, closed⟩ := matched brace declaration.inside within opened
  have inner : Block.Matched (trim interior) := (Block.level_of_closed closed).trim.matched
  exact ⟨interior, after, closed, fun _ word => inner.locate_ne_unterminated word⟩

end PipelineChart.Outline
