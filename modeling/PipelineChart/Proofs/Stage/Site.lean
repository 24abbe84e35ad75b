import PipelineChart.Proofs.Source.Cut
import PipelineChart.Proofs.Block.Place
import PipelineChart.Proofs.Stage.Place
import PipelineChart.Proofs.Stage.Prune

/-!
The sites of stages. Every stage that a scan finds is read off a declaration of its own, and the stages
come in the order of their declarations: what is below a parallel stage is declared in the body of its
block, and what follows it behind the brace that closes it. So no declaration is read twice.
-/

namespace PipelineChart

open Text Stage.Declaration

/-- A stage with the text of its declaration; a parallel one also with the body of its block and with the
brace that closes the stage. -/
inductive Site where
  | leaf (text : List Placed) (name : String) (steps : List String)
  | parallel (text : List Placed) (name : String) (body : List Placed) (closing : Placed)
      (branches : List Site)

namespace Site

def text : Site → List Placed
  | leaf text _ _ => text
  | parallel text _ _ _ _ => text

def name : Site → String
  | leaf _ name _ => name
  | parallel _ name _ _ _ => name

def body : Site → List Placed
  | leaf _ _ _ => []
  | parallel _ _ body _ _ => body

def branches : Site → List Site
  | leaf _ _ _ => []
  | parallel _ _ _ _ branches => branches

def start (site : Site) : Nat := (Placed.span site.text).start

end Site

mutual

def Site.stage : Site → Stage
  | .leaf _ name steps => .leaf name steps
  | .parallel _ name _ _ branches => .parallel name (Sites.stages branches)

def Sites.stages : List Site → List Stage
  | [] => []
  | site :: sites => site.stage :: Sites.stages sites

end

mutual

def Site.all : Site → List Site
  | .leaf text name steps => [.leaf text name steps]
  | .parallel text name body closing branches =>
      .parallel text name body closing branches :: Sites.all branches

def Sites.all : List Site → List Site
  | [] => []
  | site :: sites => site.all ++ Sites.all sites

end

namespace Site

/-- Behind the declaration of a parallel stage stands its block, and then the brace that closes the stage. -/
def Fits (inside : List Placed) : Site → Prop
  | leaf _ _ _ => True
  | parallel _ _ body closing _ => ∃ interior after block,
      Block.close? 0 inside = some (interior, after) ∧ inside = interior ++ closing :: after ∧
        Block.locate "parallel".toList (trim interior) = .ok block ∧ block.body = body

/-- Where the site is in the region, a declaration is read that gives the name of the stage. -/
def Sits (region : List Placed) (site : Site) : Prop :=
  ∃ declaration, declaration.text = site.text ∧ string declaration.name = site.name ∧
    declaration.text ++ declaration.inside <:+ region ∧
    read? (declaration.text ++ declaration.inside) = some declaration ∧ site.Fits declaration.inside

/-- If the first stage is a parallel one, the later is not declared before its closing brace. -/
def ClosedBefore : Site → Site → Prop
  | leaf _ _ _, _ => True
  | parallel _ _ _ closing _, later => closing.stop ≤ later.start

end Site

/-- The sites of the stages of a region: each is in the region, they come in the order of the text, each
list of stages goes on behind its parallel stages, and what is below one of these is in its block. -/
structure Mirrors (region : List Placed) (stages : List Stage) (sites : List Site) : Prop where
  stages : Sites.stages sites = stages
  sits : ∀ site ∈ Sites.all sites, site.Sits region
  increasing : (Sites.all sites).Pairwise fun site later => site.start < later.start
  resumed : sites.Pairwise Site.ClosedBefore
  branches : ∀ site ∈ Sites.all sites, site.branches.Pairwise Site.ClosedBefore
  enclosed : ∀ site ∈ Sites.all sites, ∀ inner ∈ Sites.all site.branches, inner.text <:+: site.body

variable {region part : List Placed} {site : Site} {sites : List Site} {stages inner : List Stage}

theorem Site.all_eq (site : Site) : site.all = site :: Sites.all site.branches := by
  cases site <;> rfl

theorem Sites.mem_all (member : site ∈ sites) : site ∈ Sites.all sites := by
  induction sites with
  | nil => cases member
  | cons first sites ih =>
    rw [Sites.all, first.all_eq, List.mem_append, List.mem_cons]
    rcases List.mem_cons.mp member with rfl | later
    · exact Or.inl (Or.inl rfl)
    · exact Or.inr (ih later)

namespace Site

theorem Fits.append {inside : List Placed} (fits : site.Fits inside) (more : List Placed) :
    site.Fits (inside ++ more) := by
  cases site with
  | leaf text name steps => trivial
  | parallel text name body closing branches =>
    obtain ⟨interior, after, block, closed, split, located, same⟩ := fits
    refine ⟨interior, after ++ more, block, Block.close?_append closed more, ?_, located, same⟩
    rw [split, List.append_assoc, List.cons_append]

theorem Sits.within (sits : site.Sits part) (within : part <:+: region) : site.Sits region := by
  obtain ⟨declaration, same, named, ⟨before, rfl⟩, reading, fits⟩ := sits
  obtain ⟨front, more, rfl⟩ := within
  obtain ⟨longer, reading', text, inside, name⟩ := read?_append reading more
  have whole : longer.text ++ longer.inside =
      declaration.text ++ declaration.inside ++ more := by
    rw [text, inside, List.append_assoc]
  refine ⟨longer, text.trans same, name.trans named, ?_, ?_, ?_⟩
  · rw [whole]
    exact ⟨front ++ before, by simp only [List.append_assoc]⟩
  · rw [whole]
    exact reading'
  · rw [inside]
    exact fits.append more

theorem Sits.text_infix (sits : site.Sits region) : site.text <:+: region := by
  obtain ⟨declaration, same, _, within, _⟩ := sits
  rw [← same]
  exact (List.prefix_append _ _).isInfix.trans within.isInfix

theorem Sits.text_ne_nil (sits : site.Sits region) : site.text ≠ [] := by
  obtain ⟨declaration, same, _, _, reading, _⟩ := sits
  obtain ⟨front, brace, _, last, _⟩ := exists_front reading
  rw [← same, last]
  exact List.append_ne_nil_of_right_ne_nil front (List.cons_ne_nil brace [])

end Site

namespace Mirrors

theorem nil (region : List Placed) : Mirrors region [] [] where
  stages := rfl
  sits := by simp [Sites.all]
  increasing := List.Pairwise.nil
  resumed := List.Pairwise.nil
  branches := by simp [Sites.all]
  enclosed := by simp [Sites.all]

theorem within (mirrors : Mirrors part stages sites) (within : part <:+: region) :
    Mirrors region stages sites :=
  { mirrors with sits := fun site member => (mirrors.sits site member).within within }

theorem texts (mirrors : Mirrors part stages sites) (within : part <:+: region) :
    ∀ site ∈ Sites.all sites, site.text <:+: region ∧ site.text ≠ [] := by
  intro site member
  have sits := mirrors.sits site member
  exact ⟨sits.text_infix.trans within, sits.text_ne_nil⟩

theorem cons (ordered : Placed.Ordered region) {before middle rest : List Placed}
    (split : region = before ++ (site.text ++ (middle ++ rest))) (sits : site.Sits region)
    (body : site.body <:+: middle) (below : Mirrors site.body inner site.branches)
    (behind : Mirrors rest stages sites)
    (closed : ∀ later, Site.Sits rest later → site.ClosedBefore later) :
    Mirrors region (site.stage :: stages) (site :: sites) := by
  have cut : region = (before ++ site.text) ++ (middle ++ rest) := by
    rw [split, List.append_assoc]
  have cut' : region = (before ++ site.text ++ middle) ++ rest := by
    rw [cut, List.append_assoc _ middle]
  have inside : middle <:+: before ++ site.text ++ middle := (List.suffix_append _ _).isInfix
  have front : ∀ earlier ∈ site :: Sites.all site.branches,
      earlier.text <:+: before ++ site.text ++ middle ∧ earlier.text ≠ [] := by
    rw [List.forall_mem_cons]
    exact ⟨⟨⟨before, middle, rfl⟩, sits.text_ne_nil⟩, below.texts (body.trans inside)⟩
  have all : Sites.all (site :: sites) = (site :: Sites.all site.branches) ++ Sites.all sites := by
    rw [Sites.all, site.all_eq]
  constructor
  case stages => rw [Sites.stages, behind.stages]
  case sits =>
    have whole : before ++ site.text ++ middle <:+: region := ⟨[], rest, cut'.symm⟩
    have after : rest <:+: region := ⟨before ++ site.text ++ middle, [], by rw [List.append_nil, cut']⟩
    rw [all, List.forall_mem_append, List.forall_mem_cons]
    exact ⟨⟨sits, (below.within ((body.trans inside).trans whole)).sits⟩, (behind.within after).sits⟩
  case increasing =>
    rw [all, List.pairwise_append, List.pairwise_cons]
    refine ⟨⟨?_, below.increasing⟩, behind.increasing, ?_⟩
    · intro later member
      rw [cut] at ordered
      obtain ⟨within, nonempty⟩ := below.texts body later member
      exact Placed.start_lt_start ordered (List.suffix_append _ _).isInfix
        (within.trans (List.prefix_append _ _).isInfix) sits.text_ne_nil nonempty
    · intro earlier member later member'
      rw [cut'] at ordered
      obtain ⟨within, nonempty⟩ := front earlier member
      obtain ⟨within', nonempty'⟩ := behind.texts List.infix_rfl later member'
      exact Placed.start_lt_start ordered within within' nonempty nonempty'
  case resumed =>
    rw [List.pairwise_cons]
    exact ⟨fun later member => closed later (behind.sits later (Sites.mem_all member)), behind.resumed⟩
  case branches =>
    rw [all, List.forall_mem_append, List.forall_mem_cons]
    exact ⟨⟨below.resumed, below.branches⟩, behind.branches⟩
  case enclosed =>
    rw [all, List.forall_mem_append, List.forall_mem_cons]
    refine ⟨⟨?_, below.enclosed⟩, behind.enclosed⟩
    exact fun inner member => (below.texts List.infix_rfl inner member).1

variable {declaration : Stage.Declaration Placed}

theorem leaf (ordered : Placed.Ordered region) (declared : leftmost? read? region = some declaration)
    (steps : List String) (behind : Mirrors declaration.inside stages sites) :
    Mirrors region (.leaf (string declaration.name) steps :: stages)
      (.leaf declaration.text (string declaration.name) steps :: sites) := by
  obtain ⟨before, rest, split, reading⟩ := leftmost?_suffix declared
  obtain ⟨_, _, _, _, whole⟩ := exists_front reading
  rw [whole] at split reading
  have sits : Site.Sits region (.leaf declaration.text (string declaration.name) steps) :=
    ⟨declaration, rfl, rfl, ⟨before, split.symm⟩, reading, trivial⟩
  exact cons ordered split sits List.infix_rfl (.nil []) behind fun _ _ => trivial

theorem parallel (ordered : Placed.Ordered region) (declared : leftmost? read? region = some declaration)
    {interior after : List Placed} (closed : Block.close? 0 declaration.inside = some (interior, after))
    {block : Block Placed} (located : Block.locate "parallel".toList (trim interior) = .ok block)
    {branches : List Site} (below : Mirrors block.body inner branches)
    (behind : Mirrors after stages sites) :
    ∃ closing, Mirrors region (.parallel (string declaration.name) inner :: stages)
      (.parallel declaration.text (string declaration.name) block.body closing branches :: sites) := by
  obtain ⟨before, rest, split, reading⟩ := leftmost?_suffix declared
  obtain ⟨_, _, _, _, whole⟩ := exists_front reading
  rw [whole] at split reading
  obtain ⟨closing, _, parts⟩ := Block.close?_split closed
  let site : Site := .parallel declaration.text (string declaration.name) block.body closing branches
  have fits : site.Fits declaration.inside := ⟨interior, after, block, closed, parts, located, rfl⟩
  have sits : site.Sits region := ⟨declaration, rfl, rfl, ⟨before, split.symm⟩, reading, fits⟩
  have split' : region = before ++ (site.text ++ ((interior ++ [closing]) ++ after)) := by
    rw [split, parts, List.append_assoc, List.singleton_append]
    rfl
  have body : site.body <:+: interior ++ [closing] :=
    (Block.body_infix located).trans (List.prefix_append _ _).isInfix
  have stage : site.stage = .parallel (string declaration.name) inner := by
    rw [← below.stages]
    rfl
  refine ⟨closing, ?_⟩
  rw [← stage]
  refine cons ordered split' sits body below behind fun later placed => ?_
  have ordered' : Placed.Ordered ((before ++ (site.text ++ (interior ++ [closing]))) ++ after) := by
    rw [List.append_assoc, List.append_assoc, ← split']
    exact ordered
  exact Placed.stop_le_start ordered' placed.text_infix placed.text_ne_nil closing (by simp)

end Mirrors

namespace Outline

open Placed (Ordered)

/-- Every stage that a scan finds has a site of its own: the sites come in the order of the text, those
below a parallel stage stand in its block, and those of the stages behind it after its closing brace. What
is kept of a source is ordered, and so is each region of it. -/
theorem exists_mirrors (ordered : Ordered region) (limit depth : Nat) :
    ∃ sites, Mirrors region (scan limit depth region).stages sites := by
  fun_induction scan limit depth region with
  | case1 depth region absent => exact ⟨[], .nil region⟩
  | case2 depth region declaration declared unclosed ih =>
    have inside := (inside_suffix declared).isInfix
    obtain ⟨sites, behind⟩ := ih (ordered.sublist inside.sublist)
    exact ⟨sites, behind.within inside⟩
  | case3 depth region declaration declared interior after closed fault unlocated ih =>
    have inside := (inside_suffix declared).isInfix
    obtain ⟨sites, behind⟩ := ih (ordered.sublist inside.sublist)
    obtain ⟨steps, problems, added⟩ := exists_leaf declaration (trim interior)
    rw [added]
    exact ⟨_, behind.leaf ordered declared steps⟩
  | case4 depth region declaration declared interior after closed block located deep ih =>
    have rest := ((Block.rest_suffix closed).trans (inside_suffix declared)).isInfix
    obtain ⟨sites, behind⟩ := ih (ordered.sublist rest.sublist)
    exact ⟨sites, behind.within rest⟩
  | case5 depth region declaration declared interior after closed block located shallow inner outer =>
    have inside := (inside_suffix declared).isInfix
    have rest := (Block.rest_suffix closed).isInfix.trans inside
    have body := (Block.body_infix located).trans ((Block.interior_prefix closed).isInfix.trans inside)
    obtain ⟨branches, below⟩ := inner (ordered.sublist body.sublist)
    obtain ⟨sites, behind⟩ := outer (ordered.sublist rest.sublist)
    obtain ⟨closing, whole⟩ := below.parallel ordered declared closed located behind
    exact ⟨_, whole⟩

/-- Of a text with comments: the nested `Unit` follows its leaf, and `Ship` the block with `Net` in it. -/
theorem exists_mirrors_of_kept :
    let region := Comment.strip (Placed.locate 0 ("stage('Build') \x7b stage('Unit') \x7b\x7d \x7d // \x7d\n" ++
      "stage('Test') \x7b parallel \x7b stage('Slow') \x7b parallel \x7b stage('Net') \x7b\x7d \x7d \x7d" ++
      "/* \x7b */ stage('Fast') \x7b\x7d \x7d \x7d stage('Ship') \x7b steps \x7b sh 'x' \x7d \x7d").toList)
    Ordered region ∧ ∃ sites, Mirrors region [.leaf "Build" [], .leaf "Unit" [],
      .parallel "Test" [.parallel "Slow" [.leaf "Net" []], .leaf "Fast" []], .leaf "Ship" ["x"]] sites := by
  intro region
  have ordered : Ordered region := (Placed.ordered_locate 0 _).sublist (Comment.strip_sublist _)
  have found : (scan 8 0 region).stages = [.leaf "Build" [], .leaf "Unit" [],
      .parallel "Test" [.parallel "Slow" [.leaf "Net" []], .leaf "Fast" []], .leaf "Ship" ["x"]] := by
    decide +kernel
  refine ⟨ordered, ?_⟩
  rw [← found]
  exact exists_mirrors ordered 8 0

end Outline

end PipelineChart
