import PipelineChart.Proofs.Block.Offsets
import PipelineChart.Proofs.Stage.Reach

/-!
The scan by offsets. A turn of the scan reads one declaration behind a cursor, the block that it opens and the blocks
in that one's body; all of these are told by offsets into the whole text, the cursor by an offset into the region.
No check on the way fails, what is found stands in the region in the order of the text, the cursor moves on with
each turn and branches are scanned in a shorter region. So the scan comes to an end, with the outline of the glyphs.
-/

namespace PipelineChart.Outline

open Text Stage.Declaration Block

variable {α : Type} [Glyph α]

/-- A region inside `depth` parallel stages, of which the first `cursor` bytes are passed. -/
structure Place where
  depth : Nat
  start : Nat
  stop : Nat
  cursor : Nat

namespace Place

def length (place : Place) : Nat := place.stop - place.start

/-- The region is shorter, or it is the same one and less of it is ahead. -/
def Before (next place : Place) : Prop :=
  Prod.Lex (· < ·) (· < ·) (next.length, next.length - next.cursor) (place.length, place.length - place.cursor)

instance : WellFoundedRelation Place where
  rel := Before
  wf := InvImage.wf (fun place : Place => (place.length, place.length - place.cursor))
    (Prod.lex Nat.lt_wfRel Nat.lt_wfRel).wf

def advance (place : Place) (resume : Nat) : Except Panic { next : Place // next.Before place } := do
  let cursor ← minus resume place.start
  if further : place.cursor < cursor ∧ cursor ≤ place.length then
    return ⟨{ place with cursor }, .right _ (Nat.sub_lt_sub_left (further.1.trans_le further.2) further.1)⟩
  else throw .stuck

def enter (place : Place) (branches : Bounds) : Except Panic { next : Place // next.Before place } :=
  if shorter : branches.stop - branches.start < place.length then
    return ⟨⟨place.depth + 1, branches.start, branches.stop, 0⟩, .left _ _ shorter⟩
  else throw .stuck

end Place

/-- What a turn of the scan finds: a stage with its declaration, its body and the end of its block. -/
inductive Turn where
  | done
  | unclosed (declaration : Bounds) (name : String)
  | leaf (declaration : Bounds) (name : String) (body : Bounds) (stop : Nat) (steps : Option (List String))
  | block (declaration : Bounds) (name : String) (body : Bounds) (stop : Nat) (keyword branches : Bounds)

/-- The bounds and the name of the leftmost declaration behind the cursor. A search cannot begin behind the region. -/
def declarationAt (text : List α) (place : Place) : Except Panic (Option (Bounds × String)) := do
  let region ← Bounds.slice ⟨place.start, place.stop⟩ text
  if place.cursor ≤ size region then
    let rest ← Bounds.slice ⟨place.cursor, size region⟩ region
    return (leftmost? read? rest).map fun declaration =>
      let stop := size region - size declaration.inside
      (Bounds.shift place.start ⟨stop - size declaration.text, stop⟩, string declaration.name)
  else throw .search

def blockAt (text : List α) (place : Place) (declaration : Bounds) : Except Panic (Option (Bounds × Nat)) := do
  let brace ← minus declaration.stop 1
  let front ← Bounds.slice ⟨0, place.stop⟩ text
  balanced front brace

def stepsAt (body : List α) : Except Panic (Option (List String)) := do
  match ← locateAt "steps".toList body with
  | .block _ inner _ =>
      let part ← inner.slice body
      return some ((Step.arguments part).map string)
  | _ => return none

def classify (text : List α) (declaration : Bounds) (name : String) (body : Bounds) (stop : Nat) :
    Except Panic Turn := do
  let inner ← body.slice text
  match ← locateAt "parallel".toList inner with
  | .block keyword branches _ =>
      return .block declaration name body stop (keyword.shift body.start) (branches.shift body.start)
  | _ =>
      let steps ← stepsAt inner
      return .leaf declaration name body stop steps

def turn (text : List α) (place : Place) : Except Panic Turn := do
  match ← declarationAt text place with
  | none => return .done
  | some (declaration, name) =>
      match ← blockAt text place declaration with
      | none => return .unclosed declaration name
      | some (body, stop) => classify text declaration name body stop

/-- The outline of what is ahead of a place. -/
def scanAt (limit : Nat) (text : List α) (place : Place) : Except Panic (Outline α) := do
  match ← turn text place with
  | .done => return .empty
  | .unclosed declaration name =>
      let words ← declaration.slice text
      let next ← place.advance declaration.stop
      let outline ← scanAt limit text next
      return outline.problem (.unterminatedStage name words)
  | .leaf declaration name _ _ steps =>
      let words ← declaration.slice text
      let next ← place.advance declaration.stop
      let outline ← scanAt limit text next
      match steps with
      | some steps => return outline.stage (.leaf name steps)
      | none => return (outline.stage (.leaf name [])).problem (.missingSteps name words)
  | .block declaration name _ stop keyword branches =>
      let words ← declaration.slice text
      let next ← place.advance stop
      if limit ≤ place.depth then
        let word ← keyword.slice text
        let outline ← scanAt limit text next
        return outline.problem (.tooDeep limit name words word)
      else
        let inner ← place.enter branches
        let branches ← scanAt limit text inner
        let outline ← scanAt limit text next
        return .parallel name branches outline
termination_by place
decreasing_by all_goals first | exact next.property | exact inner.property

def Turn.resume? : Turn → Option Nat
  | .done => none
  | .unclosed declaration _ => some declaration.stop
  | .leaf declaration _ _ _ _ => some declaration.stop
  | .block _ _ _ stop _ _ => some stop

/-- The scan takes its next turns where it goes on behind a turn, and in the branches of a stage. -/
inductive Place.Next (limit : Nat) (text : List α) (place : Place) : Place → Prop where
  | after {found : Turn} {resume : Nat} (turns : turn text place = .ok found)
      (resumes : found.resume? = some resume) :
      Next limit text place { place with cursor := resume - place.start }
  | branches {declaration body keyword branches : Bounds} {name : String} {stop : Nat}
      (turns : turn text place = .ok (.block declaration name body stop keyword branches))
      (shallow : place.depth < limit) :
      Next limit text place ⟨place.depth + 1, branches.start, branches.stop, 0⟩

variable {text rest : List α} {place : Place}

/-- The region and the cursor stand between glyphs of the text, and `rest` is what is ahead. -/
structure Place.Ahead (place : Place) (text rest : List α) : Prop where
  region : ∃ region, Bounds.Cuts ⟨place.start, place.stop⟩ text region
  rest : Bounds.Cuts ⟨place.start + place.cursor, place.stop⟩ text rest

structure Place.Opens (place : Place) (text rest : List α) (declaration : Stage.Declaration α) (bounds : Bounds) :
    Prop where
  declared : leftmost? read? rest = some declaration
  cuts : bounds.Cuts text declaration.text
  begun : place.start + place.cursor ≤ bounds.start
  inside : Bounds.Cuts ⟨bounds.stop, place.stop⟩ text declaration.inside

structure Place.Closes (place : Place) (text : List α) (declaration : Stage.Declaration α) (bounds : Bounds)
    (interior after : List α) (body : Bounds) (stop : Nat) : Prop where
  closed : close? 0 declaration.inside = some (interior, after)
  cuts : body.Cuts text (trim interior)
  begun : bounds.stop ≤ body.start
  ended : body.stop < stop
  after : Bounds.Cuts ⟨stop, place.stop⟩ text after

def stepsOf (body : List α) : Option (List String) :=
  match locate "steps".toList body with
  | .ok block => some ((Step.arguments block.body).map string)
  | .error _ => none

inductive Turn.Agrees (text rest : List α) (place : Place) : Turn → Prop where
  | done (absent : leftmost? read? rest = none) : Agrees text rest place .done
  | unclosed {declaration : Stage.Declaration α} {bounds : Bounds} (opens : place.Opens text rest declaration bounds)
      (unclosed : close? 0 declaration.inside = none) :
      Agrees text rest place (.unclosed bounds (string declaration.name))
  | leaf {declaration : Stage.Declaration α} {interior after : List α} {bounds body : Bounds} {stop : Nat}
      {fault : Block.Fault α} (opens : place.Opens text rest declaration bounds)
      (closes : place.Closes text declaration bounds interior after body stop)
      (unlocated : locate "parallel".toList (trim interior) = .error fault) :
      Agrees text rest place (.leaf bounds (string declaration.name) body stop (stepsOf (trim interior)))
  | block {declaration : Stage.Declaration α} {interior after : List α} {bounds body keyword branches : Bounds}
      {stop : Nat} {block : Block α} (opens : place.Opens text rest declaration bounds)
      (closes : place.Closes text declaration bounds interior after body stop)
      (located : locate "parallel".toList (trim interior) = .ok block) (word : keyword.Cuts text block.keyword)
      (cuts : branches.Cuts text block.body) (begun : body.start ≤ branches.start)
      (ended : branches.stop ≤ body.stop) :
      Agrees text rest place (.block bounds (string declaration.name) body stop keyword branches)

variable {interior after : List α} {declaration : Stage.Declaration α} {bounds body : Bounds} {stop limit : Nat}

theorem Place.Ahead.exists_passed {region : List α} (ahead : place.Ahead text rest)
    (cuts : Bounds.Cuts ⟨place.start, place.stop⟩ text region) :
    ∃ passed, region = passed ++ rest ∧ size passed = place.cursor := by
  obtain ⟨passed, tail, rfl, start⟩ := cuts.nested ahead.rest (Nat.le_add_right ..) (Nat.le_refl _)
  have outer := cuts.stop
  have inner := ahead.rest.stop
  simp only [size_append] at outer inner start
  have none : tail = [] := size_eq_zero_iff.mp (by omega)
  exact ⟨passed, by rw [none, List.append_nil], by omega⟩

theorem declarationAt_of_absent (ahead : place.Ahead text rest) (absent : leftmost? read? rest = none) :
    declarationAt text place = .ok none := by
  obtain ⟨region, cuts⟩ := ahead.region
  obtain ⟨passed, rfl, passes⟩ := ahead.exists_passed cuts
  rw [declarationAt, cuts.slice, ok_bind, if_pos (by rw [size_append]; omega), slice_rest rfl passes, ok_bind, absent]
  rfl

theorem exists_declarationAt (ahead : place.Ahead text rest) (declared : leftmost? read? rest = some declaration) :
    ∃ bounds, declarationAt text place = .ok (some (bounds, string declaration.name)) ∧
      place.Opens text rest declaration bounds := by
  obtain ⟨region, cuts⟩ := ahead.region
  obtain ⟨passed, rfl, passes⟩ := ahead.exists_passed cuts
  obtain ⟨_, lead, split⟩ := exists_place declared
  have total := congrArg size split
  simp only [size_append] at total
  have front : Bounds.Cuts ⟨size lead, size lead + size declaration.text⟩ rest declaration.text :=
    ⟨lead, declaration.inside, split, rfl, rfl⟩
  have behind : Bounds.Cuts ⟨size lead + size declaration.text, size rest⟩ rest declaration.inside := by
    refine ⟨lead ++ declaration.text, [], by rw [split]; simp, size_append .., ?_⟩
    dsimp only
    omega
  have located : Bounds.shift place.start ⟨size (passed ++ rest) - size declaration.inside - size declaration.text,
      size (passed ++ rest) - size declaration.inside⟩ =
        Bounds.shift (place.start + place.cursor) ⟨size lead, size lead + size declaration.text⟩ := by
    simp only [Bounds.shift, size_append, Bounds.mk.injEq]
    omega
  rw [declarationAt, cuts.slice, ok_bind, if_pos (by rw [size_append]; omega), slice_rest rfl passes, ok_bind,
    declared]
  refine ⟨_, rfl, ?_⟩
  rw [located]
  refine ⟨declared, ahead.rest.shift front, Nat.le_add_right .., ?_⟩
  have inside := ahead.rest.shift behind
  rwa [Bounds.shift, ahead.rest.stop] at inside

theorem exists_blockAt (opens : place.Opens text rest declaration bounds) :
    (close? 0 declaration.inside = none ∧ blockAt text place bounds = .ok none) ∨
      ∃ interior after body stop, blockAt text place bounds = .ok (some (body, stop)) ∧
        place.Closes text declaration bounds interior after body stop := by
  obtain ⟨_, _, _, reading⟩ := leftmost?_suffix opens.declared
  obtain ⟨head, brace, isBrace, last, _⟩ := exists_front reading
  obtain ⟨lead, more, whole, start, stop⟩ := opens.cuts
  obtain ⟨front, behind, whole', start', stop'⟩ := opens.inside
  have one : (Glyph.char brace).utf8Size = 1 := by rw [isBrace]; decide
  have same : lead ++ declaration.text ++ more = front ++ (declaration.inside ++ behind) := by
    rw [List.append_assoc, ← whole, whole']
  obtain ⟨rfl, _⟩ := append_inj_of_size same (by rw [size_append, start, stop, start'])
  have placed : lead ++ declaration.text ++ declaration.inside = lead ++ head ++ brace :: declaration.inside := by
    rw [last]
    simp only [List.append_assoc, List.singleton_append]
  have cut : Bounds.slice ⟨0, place.stop⟩ text = .ok (lead ++ declaration.text ++ declaration.inside) :=
    Bounds.Cuts.slice ⟨[], behind, by rw [whole']; simp, rfl, by
      rw [size_append, start', ← stop']
      exact Nat.zero_add _⟩
  have here : bounds.stop = size (lead ++ head) + 1 := by
    rw [← stop, ← start, last]
    simp only [size_append, size_cons, one, size_nil]
    omega
  rw [blockAt, minus_of_le (by omega), ok_bind, cut, ok_bind, here, Nat.add_sub_cancel]
  cases closed : close? 0 declaration.inside with
  | none =>
    left
    rw [balanced_eq isBrace placed, closed]
    exact ⟨rfl, rfl⟩
  | some parts =>
    obtain ⟨interior, after⟩ := parts
    obtain ⟨body, ending, balances, cuts, begun, ended, later⟩ := exists_balanced isBrace placed closed
    have outer {bounds : Bounds} {part : List α}
        (cuts : bounds.Cuts (lead ++ declaration.text ++ declaration.inside) part) : bounds.Cuts text part := by
      rw [whole', ← List.append_assoc]
      exact cuts.append behind
    right
    refine ⟨interior, after, body, ending, balances, closed, outer cuts, ?_, ended, ?_⟩
    · rw [here]
      exact begun
    · have within := outer later
      rwa [size_append, start', stop'] at within

theorem stepsAt_eq (body : List α) : stepsAt body = .ok (stepsOf body) := by
  obtain ⟨located, locates, agrees⟩ := exists_locateAt "steps".toList body
  rw [stepsAt, locates, ok_bind, stepsOf]
  cases agree : locate "steps".toList body with
  | error fault =>
    rw [agree] at agrees
    cases agrees <;> rfl
  | ok block =>
    rw [agree] at agrees
    cases agrees with
    | block _ cuts =>
      dsimp only
      rw [cuts.slice]
      rfl

theorem exists_classify (opens : place.Opens text rest declaration bounds)
    (closes : place.Closes text declaration bounds interior after body stop) :
    ∃ found, classify text bounds (string declaration.name) body stop = .ok found ∧ found.Agrees text rest place := by
  obtain ⟨located, locates, agrees⟩ := exists_locateAt "parallel".toList (trim interior)
  rw [classify, closes.cuts.slice, ok_bind, locates, ok_bind]
  cases agree : locate "parallel".toList (trim interior) with
  | error fault =>
    have stepped : (stepsAt (trim interior) >>= fun steps =>
        (return .leaf bounds (string declaration.name) body stop steps : Except Panic Turn)) =
          .ok (.leaf bounds (string declaration.name) body stop (stepsOf (trim interior))) := by
      rw [stepsAt_eq]
      rfl
    rw [agree] at agrees
    cases agrees <;> exact ⟨_, stepped, .leaf opens closes agree⟩
  | ok block =>
    rw [agree] at agrees
    cases agrees with
    | block word branches behind inside within =>
      have total := closes.cuts.stop
      have shorter := branches.le
      refine ⟨_, rfl, .block opens closes agree (closes.cuts.shift word) (closes.cuts.shift branches) ?_ ?_⟩
      · exact Nat.le_add_right ..
      · simp only [Bounds.shift]
        omega

theorem exists_turn (ahead : place.Ahead text rest) :
    ∃ found, turn text place = .ok found ∧ found.Agrees text rest place := by
  cases declared : leftmost? read? rest with
  | none =>
    rw [turn, declarationAt_of_absent ahead declared]
    exact ⟨_, rfl, .done declared⟩
  | some declaration =>
    obtain ⟨bounds, found, opens⟩ := exists_declarationAt ahead declared
    rw [turn, found, ok_bind]
    rcases exists_blockAt opens with ⟨unclosed, absent⟩ | ⟨interior, after, body, stop, balances, closes⟩
    · dsimp only
      rw [absent]
      exact ⟨_, rfl, .unclosed opens unclosed⟩
    · dsimp only
      rw [balances]
      exact exists_classify opens closes

def IsCut (text : List α) (offset : Nat) : Prop := ∃ front rest, text = front ++ rest ∧ size front = offset

theorem cuts_isCut {part : List α} (cuts : bounds.Cuts text part) :
    IsCut text bounds.start ∧ IsCut text bounds.stop := by
  obtain ⟨before, behind, rfl, start, stop⟩ := cuts
  refine ⟨⟨before, part ++ behind, rfl, start⟩, before ++ part, behind, (List.append_assoc ..).symm, ?_⟩
  rw [size_append, start, stop]

/-- The offsets of a stage in the order of the text, each between glyphs of it. -/
structure Place.Holds (place : Place) (text : List α) (declaration body : Bounds) (stop : Nat) : Prop where
  begun : place.start ≤ declaration.start
  declared : declaration.start < declaration.stop
  behind : declaration.stop ≤ body.start
  ordered : body.start ≤ body.stop
  closed : body.stop < stop
  ended : stop ≤ place.stop
  cuts : ∀ offset ∈ [place.start, declaration.start, declaration.stop, body.start, body.stop, stop, place.stop],
    IsCut text offset

def Turn.InBounds (text : List α) (place : Place) : Turn → Prop
  | .done => True
  | .unclosed declaration _ =>
      place.start ≤ declaration.start ∧ declaration.start < declaration.stop ∧ declaration.stop ≤ place.stop ∧
        ∀ offset ∈ [place.start, declaration.start, declaration.stop, place.stop], IsCut text offset
  | .leaf declaration _ body stop _ => place.Holds text declaration body stop
  | .block declaration _ body stop _ branches =>
      place.Holds text declaration body stop ∧ body.start ≤ branches.start ∧ branches.start ≤ branches.stop ∧
        branches.stop ≤ body.stop ∧ IsCut text branches.start ∧ IsCut text branches.stop

def Place.Proceeds (place next : Place) : Prop :=
  (next.start = place.start ∧ next.stop = place.stop ∧ place.cursor < next.cursor ∧ next.cursor ≤ place.length) ∨
    (place.start ≤ next.start ∧ next.stop ≤ place.stop ∧ next.length < place.length)

theorem Place.Opens.lt (opens : place.Opens text rest declaration bounds) : bounds.start < bounds.stop := by
  have stop := opens.cuts.stop
  obtain ⟨declares, _⟩ := exists_place opens.declared
  have positive : 0 < size declaration.text := by
    rw [← size_chars, size_pos_iff]
    exact declares.ne_nil
  omega

theorem Place.Opens.resumes (opens : place.Opens text rest declaration bounds) :
    place.start + place.cursor < bounds.stop ∧ bounds.stop ≤ place.stop :=
  ⟨opens.begun.trans_lt opens.lt, opens.inside.le.1⟩

theorem Place.Closes.resumes (closes : place.Closes text declaration bounds interior after body stop)
    (opens : place.Opens text rest declaration bounds) : place.start + place.cursor < stop ∧ stop ≤ place.stop := by
  have further := opens.resumes.1
  have ordered := closes.cuts.le.1
  have begun := closes.begun
  have ended := closes.ended
  exact ⟨by omega, closes.after.le.1⟩

theorem Place.Ahead.later {rest' : List α} {resume : Nat} (ahead : place.Ahead text rest)
    (cuts : Bounds.Cuts ⟨resume, place.stop⟩ text rest') (further : place.start ≤ resume) :
    Place.Ahead { place with cursor := resume - place.start } text rest' := by
  refine ⟨ahead.region, ?_⟩
  dsimp only
  rwa [Nat.add_sub_cancel' further]

theorem Place.ahead_of_cuts {region : List α} (depth : Nat) (cuts : bounds.Cuts text region) :
    Place.Ahead ⟨depth, bounds.start, bounds.stop, 0⟩ text region :=
  ⟨⟨region, cuts⟩, cuts⟩

theorem Place.exists_advance {resume : Nat} (further : place.start + place.cursor < resume)
    (within : resume ≤ place.stop) :
    ∃ before, place.advance resume = .ok ⟨{ place with cursor := resume - place.start }, before⟩ := by
  have moved : place.cursor < resume - place.start ∧ resume - place.start ≤ place.length := by
    unfold length
    omega
  refine ⟨?_, ?_⟩
  rotate_left
  · rw [advance, minus_of_le (by omega), ok_bind, dif_pos moved]
    rfl

theorem Place.exists_enter (shorter : bounds.stop - bounds.start < place.length) :
    ∃ before, place.enter bounds = .ok ⟨⟨place.depth + 1, bounds.start, bounds.stop, 0⟩, before⟩ :=
  ⟨_, dif_pos shorter⟩

theorem Turn.Agrees.shorter {keyword branches : Bounds} {name : String}
    (agrees : Turn.Agrees text rest place (.block bounds name body stop keyword branches)) :
    branches.stop - branches.start < place.length := by
  cases agrees with
  | block opens closes located word cuts begun ended =>
    have behind := closes.begun
    have inside := closes.ended
    have within := closes.resumes opens
    have further := opens.resumes
    have ordered := closes.cuts.le.1
    unfold Place.length
    omega

/-- The induction is on the number of glyphs that are ahead. -/
theorem scanAt_of_ahead (ahead : place.Ahead text rest) :
    scanAt limit text place = .ok (scan limit place.depth rest) := by
  induction counted : rest.length using Nat.strong_induction_on generalizing place rest with
  | _ count ih =>
    have goOn {rest' : List α} {resume : Nat} (cuts : Bounds.Cuts ⟨resume, place.stop⟩ text rest')
        (resumes : place.start + place.cursor < resume ∧ resume ≤ place.stop) (fewer : rest'.length < rest.length) :
        ∃ next, place.advance resume = .ok next ∧ scanAt limit text next = .ok (scan limit place.depth rest') := by
      obtain ⟨_, advances⟩ := place.exists_advance resumes.1 resumes.2
      exact ⟨_, advances, ih _ (counted ▸ fewer) (ahead.later cuts (by omega)) rfl⟩
    obtain ⟨found, turns, agrees⟩ := exists_turn ahead
    rw [scanAt, turns, ok_bind]
    cases agrees with
    | done absent =>
      rw [scan_of_absent absent]
      rfl
    | unclosed opens unclosed =>
      obtain ⟨next, advances, scans⟩ := goOn opens.inside opens.resumes (leftmost_read?_shorter opens.declared)
      rw [scan_of_open opens.declared unclosed]
      dsimp only
      rw [opens.cuts.slice, ok_bind, advances, ok_bind, scans]
      rfl
    | @leaf declaration interior after _ _ _ _ opens closes unlocated =>
      obtain ⟨next, advances, scans⟩ := goOn opens.inside opens.resumes (leftmost_read?_shorter opens.declared)
      rw [scan_of_leaf opens.declared closes.closed unlocated]
      dsimp only
      rw [opens.cuts.slice, ok_bind, advances, ok_bind, scans, ok_bind, leaf, stepsOf]
      cases locate "steps".toList (trim interior) <;> rfl
    | block opens closes located word cuts begun ended =>
      obtain ⟨next, advances, scans⟩ :=
        goOn closes.after (closes.resumes opens) (after_shorter opens.declared closes.closed)
      have shorter := (Turn.Agrees.block opens closes located word cuts begun ended).shorter
      obtain ⟨_, enters⟩ := place.exists_enter shorter
      have within := body_infix located
      have inner := within.length_le.trans_lt (interior_shorter opens.declared closes.closed)
      have branches := ih _ (counted ▸ inner) (Place.ahead_of_cuts (place.depth + 1) cuts) rfl
      rw [scan_of_block opens.declared closes.closed located]
      dsimp only
      rw [opens.cuts.slice, ok_bind, advances, ok_bind]
      split_ifs with deep
      · rw [word.slice, ok_bind, scans]
        rfl
      · rw [enters, ok_bind, branches, ok_bind, scans]
        rfl

theorem Place.Closes.holds (ahead : place.Ahead text rest) (opens : place.Opens text rest declaration bounds)
    (closes : place.Closes text declaration bounds interior after body stop) :
    place.Holds text bounds body stop := by
  obtain ⟨region, cuts⟩ := ahead.region
  have begun := opens.begun
  constructor
  case begun => omega
  case declared => exact opens.lt
  case behind => exact closes.begun
  case ordered => exact closes.cuts.le.1
  case closed => exact closes.ended
  case ended => exact closes.after.le.1
  case cuts =>
    simp only [List.forall_mem_cons]
    exact ⟨(cuts_isCut cuts).1, (cuts_isCut opens.cuts).1, (cuts_isCut opens.cuts).2, (cuts_isCut closes.cuts).1,
      (cuts_isCut closes.cuts).2, (cuts_isCut closes.after).1, (cuts_isCut cuts).2, nofun⟩

theorem Turn.Agrees.inBounds {found : Turn} (ahead : place.Ahead text rest) (agrees : found.Agrees text rest place) :
    found.InBounds text place := by
  cases agrees with
  | done _ => trivial
  | unclosed opens _ =>
    obtain ⟨region, cuts⟩ := ahead.region
    have begun := opens.begun
    refine ⟨by omega, opens.lt, opens.resumes.2, ?_⟩
    simp only [List.forall_mem_cons]
    exact ⟨(cuts_isCut cuts).1, (cuts_isCut opens.cuts).1, (cuts_isCut opens.cuts).2, (cuts_isCut cuts).2, nofun⟩
  | leaf opens closes _ => exact closes.holds ahead opens
  | block opens closes _ _ cuts begun ended =>
    exact ⟨closes.holds ahead opens, begun, cuts.le.1, ended, cuts_isCut cuts⟩

theorem Turn.Agrees.resumes {found : Turn} {resume : Nat} (agrees : found.Agrees text rest place)
    (resumes : found.resume? = some resume) :
    (place.start + place.cursor < resume ∧ resume ≤ place.stop) ∧
      ∃ rest', Bounds.Cuts ⟨resume, place.stop⟩ text rest' := by
  cases agrees with
  | done _ => cases resumes
  | unclosed opens _ =>
    cases resumes
    exact ⟨opens.resumes, _, opens.inside⟩
  | leaf opens closes _ =>
    cases resumes
    exact ⟨opens.resumes, _, opens.inside⟩
  | block opens closes _ _ _ _ _ =>
    cases resumes
    exact ⟨closes.resumes opens, _, closes.after⟩

/-- What one turn preserves: the next place is further on, and stands between glyphs as well. -/
theorem Place.Next.step {next : Place} (ahead : place.Ahead text rest) (follows : place.Next limit text next) :
    place.Proceeds next ∧ ∃ rest', next.Ahead text rest' := by
  obtain ⟨found, turns, agrees⟩ := exists_turn ahead
  cases follows with
  | after turns' resumes =>
    obtain rfl := Except.ok.inj (turns.symm.trans turns')
    obtain ⟨further, rest', cuts⟩ := agrees.resumes resumes
    refine ⟨.inl ⟨rfl, rfl, ?_, ?_⟩, rest', ahead.later cuts (by omega)⟩
    · dsimp only
      omega
    · dsimp only [Place.length]
      omega
  | branches turns' shallow =>
    obtain rfl := Except.ok.inj (turns.symm.trans turns')
    obtain ⟨holds, begun, _, ended, _⟩ := agrees.inBounds ahead
    have shorter := agrees.shorter
    cases agrees with
    | block opens closes _ _ cuts _ _ =>
      have front := holds.begun.trans (holds.declared.le.trans (holds.behind.trans begun))
      have back := ended.trans (holds.closed.le.trans holds.ended)
      exact ⟨.inr ⟨front, back, shorter⟩, _, Place.ahead_of_cuts _ cuts⟩

theorem Place.exists_ahead {first : Place} (ahead : ∃ rest, first.Ahead text rest)
    (reaches : Relation.ReflTransGen (Place.Next limit text) first place) : ∃ rest, place.Ahead text rest := by
  induction reaches with
  | refl => exact ahead
  | tail _ follows ih =>
    obtain ⟨_, here⟩ := ih
    exact (follows.step here).2

/-- In a region between glyphs the scan by offsets comes to an end without a failed check, with the outline of the
glyphs. Each turn that it takes finds its stage in the order of the text inside the region, and goes on further behind
or in a shorter region. -/
theorem scanAt_region {start stop : Nat} {region : List α} (cut : slice? start stop text = some region)
    (limit depth : Nat) :
    scanAt limit text ⟨depth, start, stop, 0⟩ = .ok (scan limit depth region) ∧
      ∀ place, Relation.ReflTransGen (Place.Next limit text) ⟨depth, start, stop, 0⟩ place →
        ∃ found, turn text place = .ok found ∧ found.InBounds text place ∧
          ∀ next, place.Next limit text next → place.Proceeds next := by
  obtain ⟨before, behind, whole, starts, stops⟩ := slice?_eq_some_iff.mp cut
  have cuts : Bounds.Cuts ⟨start, stop⟩ text region := ⟨before, behind, whole, starts, starts ▸ stops⟩
  have ahead : Place.Ahead ⟨depth, start, stop, 0⟩ text region := Place.ahead_of_cuts depth cuts
  refine ⟨scanAt_of_ahead ahead, fun place reaches => ?_⟩
  obtain ⟨rest, here⟩ := Place.exists_ahead ⟨region, ahead⟩ reaches
  obtain ⟨found, turns, agrees⟩ := exists_turn here
  exact ⟨found, turns, agrees.inBounds here, fun next follows => (follows.step here).1⟩

/-- Two stages in a region that begins and ends behind glyphs of two bytes; the body of a branch is all blanks. -/
theorem scanAt_region_between :
    let text := ("é stage('ä') \x7b parallel \x7b stage('b') \x7b \u00a0 \x7d \x7d \x7d " ++
      "stage('c') \x7b steps \x7b sh 'd' \x7d \x7d é").toList
    ∃ region, slice? 3 81 text = some region ∧ scanAt 1 text ⟨0, 3, 81, 0⟩ = .ok (scan 1 0 region) ∧
      (scan 1 0 region).stages.map Stage.name = ["ä", "c"] ∧
      ∀ place, Relation.ReflTransGen (Place.Next 1 text) ⟨0, 3, 81, 0⟩ place →
        ∃ found, turn text place = .ok found ∧ found.InBounds text place ∧
          ∀ next, place.Next 1 text next → place.Proceeds next := by
  intro text
  let region := text.tail.tail.dropLast.dropLast
  have cut : slice? 3 81 text = some region := by decide +kernel
  obtain ⟨scans, turns⟩ := scanAt_region cut 1 0
  exact ⟨region, cut, scans, by decide +kernel, turns⟩

end PipelineChart.Outline
