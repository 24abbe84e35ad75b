import PipelineChart.Proofs.Block.Place
import PipelineChart.Proofs.Pipeline.Quiet
import PipelineChart.Proofs.Stage.Chain
import PipelineChart.Proofs.Stage.Forest

/-!
Which stages a scan passes over. Behind a stage with a `parallel` block the scan goes on after that
stage, and of its text only the block is read; what the stage declares beside the block is lost. The
scan finds all names that are declared in a region exactly when this happens at none of its forks.
-/

namespace PipelineChart

open Text Stage.Declaration

/-- A parallel stage: the text behind its declaration, the body of its block, and the text behind it. -/
structure Fork (α : Type) where
  inside : List α
  body : List α
  after : List α

namespace Fork

variable {α : Type} [Glyph α]

/-- Nothing is declared but in the block and behind the stage. -/
def Lossless (fork : Fork α) : Prop :=
  Stage.declaredNames fork.inside = Stage.declaredNames fork.body ++ Stage.declaredNames fork.after

instance (fork : Fork α) : Decidable fork.Lossless := inferInstanceAs (Decidable (_ = _))

def all (region : List α) : List (Fork α) :=
  match _declared : leftmost? read? region with
  | none => []
  | some declaration =>
      match _closed : Block.close? 0 declaration.inside with
      | none => all declaration.inside
      | some (interior, after) =>
          match _located : Block.locate "parallel".toList (trim interior) with
          | .error _ => all declaration.inside
          | .ok block => ⟨declaration.inside, block.body, after⟩ :: (all block.body ++ all after)
termination_by region.length
decreasing_by
  · exact leftmost_read?_shorter _declared
  · exact leftmost_read?_shorter _declared
  · have inner := Block.locate_shorter _located
    have body := trim_length interior
    have whole := Outline.interior_shorter _declared _closed
    omega
  · exact Outline.after_shorter _declared _closed

end Fork

namespace Outline

open Stage

variable {limit depth : Nat} {region : List Char}

theorem exists_fork {inside interior after : List Char} {block : Block Char}
    (closed : Block.close? 0 inside = some (interior, after))
    (located : Block.locate "parallel".toList (trim interior) = .ok block) :
    ∃ before behind, inside = before ++ (block.body ++ (behind ++ after)) := by
  obtain ⟨before, between, behind, _, parts⟩ := Block.exists_nested_parts closed located
  refine ⟨before ++ (block.keyword ++ between), behind, ?_⟩
  rw [parts]
  simp only [List.append_assoc]

theorem names_leaf {declaration : Declaration Char} {body : List Char} {outline : Outline Char}
    (quiet : (outline.leaf declaration body).problems = []) :
    outline.problems = [] ∧ Forest.names (outline.leaf declaration body).stages =
      string declaration.name :: Forest.names outline.stages := by
  unfold leaf at quiet ⊢
  split at quiet
  · exact ⟨quiet, rfl⟩
  · cases quiet

theorem chain_of_declared {declaration : Declaration Char} {names : List String}
    (declared : leftmost? read? region = some declaration) (chain : Chain declaration.inside names) :
    Chain region (string declaration.name :: names) := by
  obtain ⟨declares, before, split, _⟩ := leftmost_declares declared
  rw [split, string, chars_self]
  exact .cons before declares chain

theorem chain_names (quiet : (scan limit depth region).problems = []) :
    Chain region (Forest.names (scan limit depth region).stages) := by
  fun_induction Fork.all region generalizing depth with
  | case1 region absent =>
    rw [scan_of_absent absent]
    exact .nil region
  | case2 region declaration declared unclosed ih =>
    rw [scan_of_open declared unclosed] at quiet
    cases quiet
  | case3 region declaration declared interior after closed fault located ih =>
    rw [scan_of_leaf declared closed located] at quiet ⊢
    obtain ⟨quiet, names⟩ := names_leaf quiet
    rw [names]
    exact chain_of_declared declared (ih quiet)
  | case4 region declaration declared interior after closed block located branches ih =>
    rw [scan_of_block declared closed located] at quiet ⊢
    split_ifs at quiet ⊢ with deep
    · cases quiet
    · obtain ⟨quiet, quiet'⟩ := List.append_eq_nil_iff.mp quiet
      obtain ⟨before, behind, split⟩ := exists_fork closed located
      apply chain_of_declared declared
      rw [split]
      exact ((branches quiet).append ((ih quiet').prepend behind)).prepend before

/-- A quiet scan finds every declared name exactly when each of its forks keeps what is declared. -/
theorem names_scan_iff (quiet : (scan limit depth region).problems = []) :
    Forest.names (scan limit depth region).stages = declaredNames region ↔
      ∀ fork ∈ Fork.all region, fork.Lossless := by
  fun_induction Fork.all region generalizing depth with
  | case1 region absent =>
    rw [scan_of_absent absent, declaredNames_of_absent absent]
    simp [empty, Forest.names]
  | case2 region declaration declared unclosed ih =>
    rw [scan_of_open declared unclosed] at quiet
    cases quiet
  | case3 region declaration declared interior after closed fault located ih =>
    rw [scan_of_leaf declared closed located] at quiet ⊢
    obtain ⟨quiet, names⟩ := names_leaf quiet
    rw [names, declaredNames_of_declared declared, List.cons.injEq, ← ih quiet]
    exact and_iff_right rfl
  | case4 region declaration declared interior after closed block located branches ih =>
    rw [scan_of_block declared closed located] at quiet ⊢
    split_ifs at quiet ⊢ with deep
    · cases quiet
    · obtain ⟨quiet, quiet'⟩ := List.append_eq_nil_iff.mp quiet
      have inner := chain_names quiet
      have outer := chain_names quiet'
      obtain ⟨before, behind, split⟩ := exists_fork closed located
      rw [declaredNames_of_declared declared, List.forall_mem_cons, List.forall_mem_append,
        ← branches quiet, ← ih quiet']
      change string declaration.name :: (_ ++ _) = _ ↔ declaredNames declaration.inside = _ ∧ _
      rw [List.cons.injEq, and_iff_right rfl]
      constructor
      · intro found
        rw [split] at found
        have held := Chain.declaredNames_eq inner (outer.prepend behind) found.symm
        rw [← List.append_assoc block.body] at found
        have held' := Chain.declaredNames_eq_of_behind (inner.extend behind) outer found.symm
        rw [List.append_assoc, ← split] at found
        refine ⟨?_, held.symm, held'.symm⟩
        show declaredNames declaration.inside = declaredNames block.body ++ declaredNames after
        rw [held, held', found]
      · intro parts
        rcases parts with ⟨lossless, found, found'⟩
        rw [found, found']
        exact lossless.symm

end Outline

end PipelineChart
