import PipelineChart.Proofs.Pipeline.Terminated
import PipelineChart.Proofs.Stage.Prune

/-!
Parses of one source under two limits. The smaller limit takes parallel stages away and changes nothing
else; where it takes none away, both parses are the same.
-/

namespace PipelineChart

open Text

namespace Outline

variable {limit larger : Nat} {source : String}

theorem stages_ofSource_eq_prune (within : limit ≤ larger) (source : String) :
    (ofSource limit source).stages = Forest.prune limit 0 (ofSource larger source).stages := by
  cases located : Block.locate "pipeline".toList (Comment.strip (Placed.locate 0 source.toList)) with
  | ok block =>
    rw [ofSource_of_block located, ofSource_of_block located]
    exact stages_scan_eq_prune within 0 block.body
  | error fault =>
    cases fault with
    | missing =>
      rw [ofSource_of_missing located, ofSource_of_missing located]
      rfl
    | unterminated keyword =>
      rw [ofSource_of_unterminated located, ofSource_of_unterminated located]
      rfl

theorem ofSource_eq_of_shallow (within : limit ≤ larger)
    (shallow : ∀ name declaration keyword,
      .tooDeep limit name declaration keyword ∉ (ofSource limit source).problems) :
    ofSource larger source = ofSource limit source := by
  cases located : Block.locate "pipeline".toList (Comment.strip (Placed.locate 0 source.toList)) with
  | ok block =>
    rw [ofSource_of_block located] at shallow
    rw [ofSource_of_block located, ofSource_of_block located]
    exact scan_eq_of_shallow within shallow
  | error fault =>
    cases fault with
    | missing => rw [ofSource_of_missing located, ofSource_of_missing located]
    | unterminated keyword =>
      rw [ofSource_of_unterminated located, ofSource_of_unterminated located]

end Outline

namespace Pipeline

variable {limit larger : Nat}

theorem tooDeep_not_mem {source : String}
    (silent : ∀ diagnostic ∈ warnings limit source, diagnostic.code ≠ some .tooDeep) :
    ∀ name declaration keyword,
      .tooDeep limit name declaration keyword ∉ (Outline.ofSource limit source).problems := by
  intro name declaration keyword member
  exact silent _ (List.mem_map_of_mem member) rfl

/-- A lenient parse finds what one with a larger limit finds, less the parallel stages that lie in `limit`
others or more; and if it skips none, the larger limit makes no difference. -/
theorem parse_prune (within : limit ≤ larger) (source : String) :
    ∃ found all, parse ⟨limit, false⟩ source = .ok found ∧ parse ⟨larger, false⟩ source = .ok all ∧
      found.stages = Forest.prune limit 0 all.stages ∧ Forest.nesting found.stages ≤ limit ∧
      ((∀ diagnostic ∈ found.diagnostics, diagnostic.code ≠ some .tooDeep) → all = found) := by
  have pruned := Outline.stages_ofSource_eq_prune within source
  refine ⟨_, _, parse_lenient limit source, parse_lenient larger source, pruned, ?_, ?_⟩
  · rw [pruned]
    exact Forest.nesting_prune_le _ 0
  · intro silent
    have same := Outline.ofSource_eq_of_shallow within (tooDeep_not_mem silent)
    rw [warnings, warnings, same]

/-- Under a limit of one the stage `Inner` goes, and its sibling stays; a limit of two is as good as none. -/
theorem parse_prune_of_nested :
    let source := "pipeline \x7b stage('Outer') \x7b parallel \x7b stage('Inner') \x7b parallel \x7b " ++
      "stage('Leaf') \x7b steps \x7b sh 'x' \x7d \x7d \x7d \x7d stage('Next') \x7b steps \x7b sh 'y' \x7d \x7d \x7d \x7d \x7d"
    let inner := Stage.parallel "Inner" [.leaf "Leaf" ["x"]]
    (1 ≤ 64 ∧ 2 ≤ 64) ∧
      parse ⟨64, false⟩ source = .ok ⟨[.parallel "Outer" [inner, .leaf "Next" ["y"]]], []⟩ ∧
      (∃ diagnostics, parse ⟨1, false⟩ source =
        .ok ⟨[.parallel "Outer" [.leaf "Next" ["y"]]], diagnostics⟩) ∧
      parse ⟨2, false⟩ source = parse ⟨64, false⟩ source := by
  intro source inner
  have whole : parse ⟨64, false⟩ source =
      .ok ⟨[.parallel "Outer" [inner, .leaf "Next" ["y"]]], []⟩ := by
    decide +kernel
  have quiet : parse ⟨2, false⟩ source =
      .ok ⟨[.parallel "Outer" [inner, .leaf "Next" ["y"]]], []⟩ := by
    decide +kernel
  refine ⟨by decide, whole, ?_, ?_⟩
  · obtain ⟨⟨stages, diagnostics⟩, all, parsed, parsed', pruned, _⟩ :=
      parse_prune (show 1 ≤ 64 by decide) source
    cases whole.symm.trans parsed'
    obtain rfl : stages = [.parallel "Outer" [.leaf "Next" ["y"]]] := pruned
    exact ⟨diagnostics, parsed⟩
  · obtain ⟨found, all, parsed, parsed', _, _, same⟩ := parse_prune (show 2 ≤ 64 by decide) source
    cases quiet.symm.trans parsed
    rw [parsed, parsed', same (by simp)]

end Pipeline

end PipelineChart
