import PipelineChart.Proofs.Text.Chars

/-!
What one step of the scan does. A step looks at the leftmost declaration of a region, at the brace that
closes it and at the `parallel` block of its body; these three decide what the outline begins with and
where reading goes on. From the steps it follows that the outline of a text is that of its characters.
-/

namespace PipelineChart

open Text

def Problem.chars {α : Type} [Glyph α] : Problem α → Problem Char
  | .missingPipeline => .missingPipeline
  | .unterminatedPipeline keyword => .unterminatedPipeline (Text.chars keyword)
  | .unterminatedStage name declaration => .unterminatedStage name (Text.chars declaration)
  | .missingSteps name declaration => .missingSteps name (Text.chars declaration)
  | .tooDeep limit name declaration keyword =>
      .tooDeep limit name (Text.chars declaration) (Text.chars keyword)

namespace Outline

variable {α : Type} [Glyph α] {limit depth : Nat} {region interior after : List α}
  {declaration : Stage.Declaration α}

theorem scan_of_absent (absent : leftmost? Stage.Declaration.read? region = none) :
    scan limit depth region = empty := by
  rw [scan]
  split
  · rfl
  · rename_i found
    rw [absent] at found
    cases found

theorem scan_of_open (declared : leftmost? Stage.Declaration.read? region = some declaration)
    (unclosed : Block.close? 0 declaration.inside = none) :
    scan limit depth region = (scan limit depth declaration.inside).problem
      (.unterminatedStage (string declaration.name) declaration.text) := by
  rw [scan]
  split
  · simp_all
  · rename_i found
    obtain rfl := Option.some.inj (declared.symm.trans found)
    split
    · rfl
    · simp_all

theorem scan_of_leaf {fault : Block.Fault α}
    (declared : leftmost? Stage.Declaration.read? region = some declaration)
    (closed : Block.close? 0 declaration.inside = some (interior, after))
    (unlocated : Block.locate "parallel".toList (trim interior) = .error fault) :
    scan limit depth region =
      (scan limit depth declaration.inside).leaf declaration (trim interior) := by
  rw [scan]
  split
  · simp_all
  · rename_i found
    obtain rfl := Option.some.inj (declared.symm.trans found)
    split
    · simp_all
    · rename_i same
      obtain ⟨rfl, rfl⟩ := Prod.mk.inj (Option.some.inj (closed.symm.trans same))
      split
      · rfl
      · simp_all

theorem scan_of_block {block : Block α}
    (declared : leftmost? Stage.Declaration.read? region = some declaration)
    (closed : Block.close? 0 declaration.inside = some (interior, after))
    (located : Block.locate "parallel".toList (trim interior) = .ok block) :
    scan limit depth region =
      if limit ≤ depth then
        (scan limit depth after).problem
          (.tooDeep limit (string declaration.name) declaration.text block.keyword)
      else
        parallel (string declaration.name) (scan limit (depth + 1) block.body)
          (scan limit depth after) := by
  rw [scan]
  split
  · simp_all
  · rename_i found
    obtain rfl := Option.some.inj (declared.symm.trans found)
    split
    · simp_all
    · rename_i same
      obtain ⟨rfl, rfl⟩ := Prod.mk.inj (Option.some.inj (closed.symm.trans same))
      split
      · simp_all
      · rename_i other
        obtain rfl := Except.ok.inj (located.symm.trans other)
        rfl

def chars (outline : Outline α) : Outline Char :=
  ⟨outline.stages, outline.problems.map Problem.chars⟩

theorem stage_chars (stage : Stage) (outline : Outline α) :
    (outline.stage stage).chars = outline.chars.stage stage := rfl

theorem problem_chars (problem : Problem α) (outline : Outline α) :
    (outline.problem problem).chars = outline.chars.problem problem.chars := rfl

theorem parallel_chars (name : String) (branches outline : Outline α) :
    (parallel name branches outline).chars = parallel name branches.chars outline.chars := by
  simp only [parallel, chars, List.map_append]

theorem leaf_chars (declaration : Stage.Declaration α) (body : List α) (outline : Outline α) :
    (outline.leaf declaration body).chars =
      outline.chars.leaf declaration.chars (Text.chars body) := by
  rw [leaf, leaf, Block.locate_chars]
  cases Block.locate "steps".toList body with
  | error fault =>
    simp only [problem_chars, stage_chars, Problem.chars, Stage.Declaration.chars, string_chars]
  | ok block =>
    simp only [stage_chars, Stage.Declaration.chars, string_chars, Block.chars,
      Step.arguments_chars, List.map_map]
    congr 2
    apply List.map_congr_left
    intro argument _
    exact (string_chars argument).symm

theorem scan_chars (limit depth : Nat) (region : List α) :
    scan limit depth (Text.chars region) = (scan limit depth region).chars := by
  have declared (text : List α) := leftmost?_chars Stage.Declaration.read?_chars text
  have closing {inside interior after : List α}
      (closed : Block.close? 0 inside = some (interior, after)) :
      Block.close? 0 (Text.chars inside) = some (Text.chars interior, Text.chars after) := by
    rw [Block.close?_chars, closed]
    rfl
  have locating {interior : List α} {block : Block α}
      (located : Block.locate "parallel".toList (trim interior) = .ok block) :
      Block.locate "parallel".toList (trim (Text.chars interior)) = .ok block.chars := by
    rw [trim_chars, Block.locate_chars, located]
  fun_induction scan limit depth region with
  | case1 depth region absent =>
    rw [scan_of_absent (by rw [declared, absent]; rfl)]
    rfl
  | case2 depth region declaration found unclosed ih =>
    have open' : Block.close? 0 declaration.chars.inside = none := by
      rw [Stage.Declaration.chars, Block.close?_chars, unclosed]
      rfl
    rw [scan_of_open (by rw [declared, found]; rfl) open', problem_chars, ← ih]
    simp only [Stage.Declaration.chars, Problem.chars, string_chars]
  | case3 depth region declaration found interior after closed fault located ih =>
    have located' : Block.locate "parallel".toList (trim (Text.chars interior)) =
        .error fault.chars := by
      rw [trim_chars, Block.locate_chars, located]
    rw [scan_of_leaf (by rw [declared, found]; rfl) (closing closed) located', leaf_chars, ← ih,
      trim_chars]
    rfl
  | case4 depth region declaration found interior after closed block located deep ih =>
    rw [scan_of_block (by rw [declared, found]; rfl) (closing closed) (locating located),
      if_pos deep, ih, problem_chars]
    simp only [Stage.Declaration.chars, Problem.chars, Block.chars, string_chars]
  | case5 depth region declaration found interior after closed block located shallow branches ih =>
    rw [scan_of_block (by rw [declared, found]; rfl) (closing closed) (locating located),
      if_neg shallow, ih, parallel_chars, ← branches]
    simp only [Stage.Declaration.chars, Block.chars, string_chars]

theorem ofPipeline_chars (limit : Nat) (text : List α) :
    ofPipeline limit (Text.chars text) = (ofPipeline limit text).chars := by
  rw [ofPipeline, ofPipeline, Block.locate_chars]
  cases Block.locate "pipeline".toList text with
  | ok block => exact scan_chars limit 0 block.body
  | error fault => cases fault <;> rfl

theorem ofSource_chars (limit : Nat) (source : String) :
    (ofSource limit source).chars = ofPipeline limit (Comment.strip source.toList) := by
  rw [ofSource, ← ofPipeline_chars, ← Comment.strip_chars, Placed.chars_locate]

end Outline

end PipelineChart
