import PipelineChart.Proofs.Stage.Overlap

/-!
Declarations one behind another. Taking the leftmost each time finds as many as there can be: of two
declarations the one that begins later does not end earlier. Where a text is cut into regions and the
declarations found in it are as many as are chosen in the regions, with the same names, then those
are the names that taking the leftmost finds in each region.
-/

namespace PipelineChart.Stage

open Text Declaration

/-- The names that are declared in a text, each looked for behind the declaration before it. -/
def declaredNames {α : Type} [Glyph α] (text : List α) : List String :=
  match _declared : leftmost? read? text with
  | none => []
  | some declaration => string declaration.name :: declaredNames declaration.inside
termination_by text.length
decreasing_by exact leftmost_read?_shorter _declared

/-- A choice of names that are declared in a text, in their order and apart from each other. -/
inductive Chain : List Char → List String → Prop where
  | nil (text : List Char) : Chain text []
  | cons (gap : List Char) {text name rest : List Char} {names : List String}
      (declares : Declares text name) (chain : Chain rest names) :
      Chain (gap ++ (text ++ rest)) (String.ofList name :: names)

section

variable {α : Type} [Glyph α] {text : List α}

theorem declaredNames_of_absent (absent : leftmost? read? text = none) : declaredNames text = [] := by
  rw [declaredNames]
  split
  · rfl
  · rename_i found
    rw [absent] at found
    cases found

theorem declaredNames_of_declared {declaration : Declaration α}
    (declared : leftmost? read? text = some declaration) :
    declaredNames text = string declaration.name :: declaredNames declaration.inside := by
  rw [declaredNames]
  split
  · rename_i absent
    rw [declared] at absent
    cases absent
  · rename_i found
    obtain rfl := Option.some.inj (declared.symm.trans found)
    rfl

end

theorem absent_iff {text : List Char} : leftmost? read? text = none ↔
    ∀ gap other name rest, Declares other name → text ≠ gap ++ (other ++ rest) := by
  rw [leftmost?_eq_none_iff]
  constructor
  · intro refused gap other name rest declares split
    have accepted := read?_declares declares rest
    rw [refused gap _ split] at accepted
    cases accepted
  · intro absent gap later split
    rw [Option.eq_none_iff_forall_ne_some]
    intro declaration reading
    obtain ⟨declares, rfl⟩ := read?_eq_some_iff.mp reading
    exact absent gap _ _ _ declares split

theorem leftmost_declares {text : List Char} {declaration : Declaration Char}
    (declared : leftmost? read? text = some declaration) :
    Declares declaration.text declaration.name ∧
      ∃ before, text = before ++ (declaration.text ++ declaration.inside) ∧
        ∀ gap other name rest, Declares other name → text = gap ++ (other ++ rest) →
          before.length ≤ gap.length := by
  obtain ⟨before, rest, split, reading, least⟩ := leftmost?_first declared
  obtain ⟨declares, rfl⟩ := read?_eq_some_iff.mp reading
  refine ⟨declares, before, split, ?_⟩
  intro gap other name rest declares' split'
  apply least gap _ split'
  rw [read?_declares declares']
  rfl

theorem ends_later_of_leftmost {text gap other name rest : List Char} {first : Declaration Char}
    (declared : leftmost? read? text = some first) (declares : Declares other name)
    (place : text = gap ++ (other ++ rest)) : ∃ surplus, first.inside = surplus ++ rest := by
  obtain ⟨declares', before, split, least⟩ := leftmost_declares declared
  exact ends_later declares' declares (split.symm.trans place) (least _ _ _ _ declares place)

theorem place_within {region gap text rest : List Char} (split : region = gap ++ (text ++ rest))
    (front behind : List Char) :
    front ++ (region ++ behind) = (front ++ gap) ++ (text ++ (rest ++ behind)) := by
  rw [split]
  simp only [List.append_assoc]

namespace Chain

variable {text rest front region : List Char} {names more : List String}

theorem prepend (chain : Chain text names) (front : List Char) : Chain (front ++ text) names := by
  cases chain with
  | nil => exact .nil _
  | cons gap declares chain =>
    rw [← List.append_assoc]
    exact .cons (front ++ gap) declares chain

theorem append (chain : Chain text names) (others : Chain rest more) :
    Chain (text ++ rest) (names ++ more) := by
  induction chain with
  | nil text => exact others.prepend text
  | cons gap declares _ ih =>
    rw [List.append_assoc, List.append_assoc]
    exact .cons gap declares ih

theorem extend (chain : Chain text names) (behind : List Char) : Chain (text ++ behind) names := by
  rw [← List.append_nil names]
  exact chain.append (.nil behind)

theorem of_declaredNames (text : List Char) : Chain text (declaredNames text) := by
  fun_induction declaredNames text with
  | case1 text absent => exact .nil text
  | case2 text declaration declared ih =>
    obtain ⟨declares, before, split, _⟩ := leftmost_declares declared
    rw [split, string, chars_self]
    exact .cons before declares ih

theorem uncons {name : String} (chain : Chain text (name :: names)) :
    ∃ gap other rest, Declares other name.toList ∧ text = gap ++ (other ++ rest) ∧ Chain rest names := by
  obtain _ | @⟨gap, other, name, rest, _, declares, chain⟩ := chain
  rw [← String.toList_ofList (l := name)] at declares
  exact ⟨gap, other, rest, declares, rfl, chain⟩

/-- The first name of a choice is declared no earlier than the leftmost declaration, which leaves room
for the other names behind it. -/
theorem exists_leftmost {name : String} (chain : Chain text (name :: names)) :
    ∃ declaration, leftmost? read? text = some declaration ∧ Chain declaration.inside names := by
  rcases chain.uncons with ⟨gap, other, rest, declares, place, chain⟩
  cases declared : leftmost? read? text with
  | none => exact absurd place (absent_iff.mp declared _ _ _ _ declares)
  | some declaration =>
    obtain ⟨surplus, inside⟩ := ends_later_of_leftmost declared declares place
    refine ⟨declaration, rfl, ?_⟩
    rw [inside]
    exact chain.prepend surplus

theorem length_le (chain : Chain text names) : names.length ≤ (declaredNames text).length := by
  induction names generalizing text with
  | nil => exact Nat.zero_le _
  | cons name names ih =>
    rcases chain.exists_leftmost with ⟨declaration, declared, chain⟩
    rw [declaredNames_of_declared declared]
    exact Nat.succ_le_succ (ih chain)

/-- In a text with no room for one more name, what is chosen next begins inside the leftmost
declaration, if both have one name. -/
theorem begins_inside {first : Declaration Char} {lead later after : List Char}
    (declared : leftmost? read? text = some first) (again : Declares later first.name)
    (chain : Chain after names) (whole : first.text ++ first.inside = lead ++ (later ++ after))
    (full : (declaredNames text).length ≤ names.length + 1) : lead.length < first.text.length := by
  by_contra apart
  obtain ⟨surplus, _, behind⟩ := exists_append_of_length_le whole (not_lt.mp apart)
  have longer := (Chain.cons surplus again chain).length_le
  rw [← behind] at longer
  rw [declaredNames_of_declared declared] at full
  simp only [List.length_cons] at longer full
  omega

theorem not_declared_again {inner : Declaration Char} {between copy after : List Char}
    (within : leftmost? read? region = some inner) (copied : Declares copy inner.name)
    (chain : Chain after names) (full : (declaredNames region).length ≤ names.length + 1) :
    inner.inside ≠ between ++ (copy ++ after) := by
  intro behind
  have longer := (Chain.cons between copied chain).length_le
  rw [← behind] at longer
  rw [declaredNames_of_declared within] at full
  simp only [List.length_cons] at longer full
  omega

theorem leftmost_name_eq {first inner : Declaration Char} (others : Chain rest more)
    (declared : leftmost? read? (front ++ (region ++ rest)) = some first)
    (within : leftmost? read? region = some inner)
    (chain : Chain region (string first.name :: names))
    (full : (declaredNames (front ++ (region ++ rest))).length ≤ (names ++ more).length + 1)
    (full' : (declaredNames region).length ≤ names.length + 1) : inner.name = first.name := by
  obtain ⟨declares, before, split, least⟩ := leftmost_declares declared
  obtain ⟨declares', gap, split', least'⟩ := leftmost_declares within
  rcases chain.uncons with ⟨gap', later, after, again, split'', chain⟩
  rw [string, chars_self, String.toList_ofList] at again
  have place := place_within split' front rest
  have order := least _ _ _ _ declares' place
  have order' := least' _ _ _ _ again split''
  obtain ⟨lead, begun, first'⟩ := exists_append_of_length_le (split.symm.trans place) order
  obtain ⟨between, begun', inner'⟩ := exists_append_of_length_le (split'.symm.trans split'') order'
  by_cases same : lead = []
  · rw [same, List.nil_append] at first'
    exact (declares'.append_inj declares first'.symm).2.1
  by_cases same' : between = []
  · rw [same', List.nil_append] at inner'
    exact (declares'.append_inj again inner').2.1
  have inner'' : inner.text ++ (inner.inside ++ rest) = between ++ (later ++ (after ++ rest)) := by
    rw [← List.append_assoc, inner']
    simp only [List.append_assoc]
  have third : first.text ++ first.inside = (lead ++ between) ++ (later ++ (after ++ rest)) := by
    rw [first', inner'', List.append_assoc]
  have crossing := begins_inside declared again (chain.append others) third full
  rw [List.length_append] at crossing
  obtain ⟨surplus, copy, copied, behind⟩ :=
    declares_again declares declares' again first' inner'' same same' crossing
  rw [← List.append_assoc copy, ← List.append_assoc surplus, List.append_cancel_right_eq] at behind
  exact absurd behind (not_declared_again within copied chain full')

theorem length_declaredNames_le (others : Chain rest more)
    (whole : declaredNames (front ++ (region ++ rest)) = names ++ more) :
    (declaredNames region).length ≤ names.length := by
  have bound := (((of_declaredNames region).append others).prepend front).length_le
  rw [whole, List.length_append, List.length_append] at bound
  exact Nat.le_of_add_le_add_right bound

theorem uncons_of_whole {name : String} (chain : Chain region (name :: names)) (others : Chain rest more)
    (whole : declaredNames (front ++ (region ++ rest)) = name :: names ++ more) :
    ∃ first, leftmost? read? (front ++ (region ++ rest)) = some first ∧ string first.name = name ∧
      declaredNames first.inside = names ++ more := by
  obtain ⟨first, declared, _⟩ := ((chain.append others).prepend front).exists_leftmost
  rw [declaredNames_of_declared declared, List.cons_append, List.cons.injEq] at whole
  exact ⟨first, declared, whole⟩

/-- Where all that is declared in a text is chosen in a region and behind it, the names chosen in the
region are those declared there. -/
theorem declaredNames_eq (chain : Chain region names) (others : Chain rest more)
    (whole : declaredNames (front ++ (region ++ rest)) = names ++ more) :
    declaredNames region = names := by
  have bound := length_declaredNames_le others whole
  induction names generalizing front region with
  | nil => exact List.eq_nil_of_length_eq_zero (Nat.le_zero.mp bound)
  | cons name names ih =>
    obtain ⟨first, declared, rfl, whole'⟩ := uncons_of_whole chain others whole
    rcases chain.exists_leftmost with ⟨inner, within, chain'⟩
    have full := (congrArg List.length whole).le
    have same := leftmost_name_eq others declared within chain full bound
    obtain ⟨declares, gap, split, _⟩ := leftmost_declares within
    obtain ⟨surplus, inside⟩ :=
      ends_later_of_leftmost declared declares (place_within split front rest)
    rw [inside] at whole'
    rw [declaredNames_of_declared within, same,
      ih chain' whole' (length_declaredNames_le others whole')]

theorem declaredNames_eq_of_behind (chain : Chain region names) (others : Chain rest more)
    (whole : declaredNames (front ++ (region ++ rest)) = names ++ more) :
    declaredNames rest = more := by
  induction names generalizing front region with
  | nil =>
    rw [← List.append_assoc, ← List.append_nil rest] at whole
    exact declaredNames_eq others (.nil []) (whole.trans (List.append_nil more).symm)
  | cons name names ih =>
    obtain ⟨first, declared, rfl, whole'⟩ := uncons_of_whole chain others whole
    rcases chain.uncons with ⟨gap, other, after, declares, split, chain'⟩
    obtain ⟨surplus, inside⟩ :=
      ends_later_of_leftmost declared declares (place_within split front rest)
    rw [inside] at whole'
    exact ih chain' whole'

end Chain

end PipelineChart.Stage
