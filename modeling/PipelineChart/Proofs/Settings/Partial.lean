import Mathlib.Data.List.Nodup
import PipelineChart.Settings.Decode

/-!
Partial settings. A record is read member by member, and each member sets its own field and no other. So once all
keys are distinct, a field holds what was given for it, or what it held at the start, wherever its key stands and
whatever stands beside it. This holds of a section in an object, and of a field in a section.
-/

namespace PipelineChart

theorem bind_eq_ok_iff {ε α β : Type} {first : Except ε α} {next : α → Except ε β} {value : β} :
    (first >>= next) = .ok value ↔ ∃ middle, first = .ok middle ∧ next middle = .ok value := by
  cases first with
  | error fault =>
    constructor
    · intro failed
      cases failed
    · rintro ⟨_, failed, _⟩
      cases failed
  | ok middle => exact ⟨fun rest => ⟨middle, rfl, rest⟩, fun ⟨_, same, rest⟩ => by cases same; exact rest⟩

section

variable {ε α β : Type} {first : Except ε α} {next : α → β}

theorem map_eq_ok_iff {value : β} :
    next <$> first = .ok value ↔ ∃ middle, first = .ok middle ∧ next middle = value := by
  rw [map_eq_pure_bind, bind_eq_ok_iff]
  constructor
  · rintro ⟨middle, passed, same⟩
    exact ⟨middle, passed, Except.ok.inj same⟩
  · rintro ⟨middle, passed, rfl⟩
    exact ⟨middle, passed, rfl⟩

theorem forall_map_eq_ok_iff {motive : β → Prop} :
    (∀ value, next <$> first = .ok value → motive value) ↔
      ∀ middle, first = .ok middle → motive (next middle) := by
  simp only [map_eq_ok_iff]
  exact ⟨fun all middle passed => all _ ⟨middle, passed, rfl⟩,
    fun all value ⟨middle, passed, same⟩ => same ▸ all middle passed⟩

theorem exists_map_eq_ok_iff :
    (∃ value, next <$> first = .ok value) ↔ ∃ middle, first = .ok middle := by
  simp only [map_eq_ok_iff]
  exact ⟨fun ⟨_, middle, passed, _⟩ => ⟨middle, passed⟩,
    fun ⟨middle, passed⟩ => ⟨_, middle, passed, rfl⟩⟩

end

namespace Json

/-- Integers of 64 bits are rounded once, all other numbers by way of double precision. -/
def single? : Json → Option Single
  | .integer value =>
      some (if Datum.isWord value then .ofInt value else (Binary.ofInt value : Double).convert)
  | .decimal value => some (Binary.ofDecimal value : Double).convert
  | _ => none

def count? : Json → Option Nat
  | .integer value => if 0 ≤ value ∧ value < 0x10000000000000000 then some value.toNat else none
  | _ => none

def flag? : Json → Option Bool
  | .bool value => some value
  | _ => none

def text? : Json → Option String
  | .string value => some value
  | _ => none

def IsNumber (json : Json) : Prop := ∃ value, json.single? = some value

def IsCount (json : Json) : Prop := ∃ value, json.count? = some value

def IsFlag (json : Json) : Prop := ∃ value, json.flag? = some value

def IsText (json : Json) : Prop := ∃ value, json.text? = some value

/-- What the values of known keys have to be; the values of all other keys may be anything. -/
abbrev Shape := List (String × (Json → Prop))

/-- Members with a key of its own each, where the known keys have values of the right type. -/
structure Fits (shape : Shape) (members : List (String × Json)) : Prop where
  distinct : (members.map Prod.fst).Nodup
  typed : ∀ member ∈ members, ∀ known ∈ shape, known.1 = member.1 → known.2 member.2

/-- The value stands at the key of a section. -/
def Names (members : List (String × Json)) (part key : String) (json : Json) : Prop :=
  ∃ entries, (part, .object entries) ∈ members ∧ (key, json) ∈ entries

end Json

namespace Datum

variable {json : Json}

theorem single_ofJson_iff {value : Single} : (ofJson json).single = .ok value ↔ json.single? = some value := by
  cases json with
  | integer number =>
    rw [ofJson, ofInteger, Json.single?]
    split_ifs with word
    · simp [single, word]
    · simp [single]
  | _ => simp [ofJson, single, Json.single?]

theorem count_ofJson_iff {value : Nat} : (ofJson json).count = .ok value ↔ json.count? = some value := by
  cases json with
  | integer number =>
    rw [ofJson, ofInteger, Json.count?]
    by_cases word : isWord number = true
    · have bounds := word
      simp only [isWord, Bool.and_eq_true, decide_eq_true_eq] at bounds
      rw [if_pos word, count]
      split_ifs <;> simp_all
    · have bounds := word
      simp only [isWord, Bool.and_eq_true, decide_eq_true_eq] at bounds
      rw [if_neg word, if_neg (by omega)]
      simp [count]
  | _ => simp [ofJson, count, Json.count?]

theorem flag_ofJson_iff {value : Bool} : (ofJson json).flag = .ok value ↔ json.flag? = some value := by
  cases json with
  | integer number =>
    rw [ofJson, ofInteger]
    split_ifs <;> simp [flag, Json.flag?]
  | _ => simp [ofJson, flag, Json.flag?]

theorem text_ofJson_iff {value : String} : (ofJson json).text = .ok value ↔ json.text? = some value := by
  cases json with
  | integer number =>
    rw [ofJson, ofInteger]
    split_ifs <;> simp [text, Json.text?]
  | _ => simp [ofJson, text, Json.text?]

mutual

theorem isReadable_ofJson : (json : Json) → (ofJson json).isReadable = true
  | .null | .bool _ | .decimal _ | .string _ => rfl
  | .integer value => by
      rw [ofJson, ofInteger]
      split_ifs <;> rfl
  | .array items => areReadable_ofItems items
  | .object members => membersReadable_ofMembers members

theorem areReadable_ofItems : (items : List Json) → areReadable (ofItems items) = true
  | [] => rfl
  | item :: items => by
      rw [ofItems, areReadable, isReadable_ofJson item, areReadable_ofItems items]
      rfl

theorem membersReadable_ofMembers : (members : List (String × Json)) →
    membersReadable (ofMembers members) = true
  | [] => rfl
  | (key, value) :: members => by
      rw [ofMembers, membersReadable, isReadable_ofJson value, membersReadable_ofMembers members]
      rfl

end

theorem ofMembers_eq_map (members : List (String × Json)) :
    ofMembers members = members.map fun member => (member.1, ofJson member.2) := by
  induction members with
  | nil => rfl
  | cons member members ih => rw [List.map_cons, ← ih, ofMembers]

end Datum

namespace Record

variable {σ β : Type} {record : Record σ} {name : String} {get : σ → β} {read : Datum → Except DecodeFault β}

/-- The field of the name sets what `get` gets to what `read` reads, and no other field changes that. -/
structure Holds (record : Record σ) (name : String) (get : σ → β) (read : Datum → Except DecodeFault β) :
    Prop where
  known : name ∈ record.fields.map Field.name
  own : ∀ field ∈ record.fields, field.name = name → ∀ value datum result,
    field.put value datum = .ok result → read datum = .ok (get result)
  others : ∀ field ∈ record.fields, field.name ≠ name → ∀ value datum result,
    field.put value datum = .ok result → get result = get value

theorem Holds.of_putMember (holds : record.Holds name get read) {member : String × Datum} {value result : σ}
    (put : record.putMember value member = .ok result) :
    (member.1 = name → read member.2 = .ok (get result)) ∧ (member.1 ≠ name → get result = get value) := by
  unfold putMember at put
  split at put
  · rename_i field found
    have listed := List.mem_of_find?_eq_some found
    have named : field.name = member.1 := by simpa using List.find?_some found
    rw [← named]
    exact ⟨fun same => holds.own field listed same _ _ _ put,
      fun other => holds.others field listed other _ _ _ put⟩
  · rename_i absent
    refine ⟨fun same => ?_, fun _ => ?_⟩
    · obtain ⟨field, listed, named⟩ := List.mem_map.mp holds.known
      exact absurd (named.trans same.symm) (by simpa using List.find?_eq_none.mp absent field listed)
    · split_ifs at put
      exact congrArg get (Except.ok.inj put).symm

theorem Holds.of_members (holds : record.Holds name get read) {members : List (String × Datum)}
    (distinct : (members.map Prod.fst).Nodup) {initial result : σ}
    (folded : members.foldlM record.putMember initial = .ok result) :
    (∀ datum, (name, datum) ∈ members → read datum = .ok (get result)) ∧
      ((∀ datum, (name, datum) ∉ members) → get result = get initial) := by
  induction members generalizing initial with
  | nil =>
    cases folded
    exact ⟨fun datum member => (nomatch member), fun _ => rfl⟩
  | cons first members ih =>
    rw [List.foldlM_cons, bind_eq_ok_iff] at folded
    obtain ⟨middle, put, folded⟩ := folded
    rw [List.map_cons, List.nodup_cons] at distinct
    obtain ⟨own, others⟩ := holds.of_putMember put
    obtain ⟨given, kept⟩ := ih distinct.2 folded
    by_cases same : first.1 = name
    · have last : ∀ datum, (name, datum) ∉ members := fun datum later =>
        distinct.1 (same ▸ List.mem_map_of_mem later)
      refine ⟨fun datum member => ?_, fun none => ?_⟩
      · rcases List.mem_cons.mp member with rfl | later
        · rw [kept last]
          exact own same
        · exact absurd later (last datum)
      · exact absurd (show (name, first.2) ∈ first :: members by simp [← same]) (none first.2)
    · refine ⟨fun datum member => ?_, fun none => ?_⟩
      · rcases List.mem_cons.mp member with rfl | later
        · exact absurd rfl same
        · exact given datum later
      · rw [kept fun datum later => none datum (List.mem_cons_of_mem first later), others same]

theorem Holds.of_object (holds : record.Holds name get read) {members : List (String × Json)}
    (distinct : (members.map Prod.fst).Nodup) {exact : Bool} {result : σ}
    (decoded : record.decode exact (.ofJson (.object members)) = .ok result) :
    (∀ json, (name, json) ∈ members → read (.ofJson json) = .ok (get result)) ∧
      ((∀ json, (name, json) ∉ members) → get result = get record.initial) := by
  rw [Datum.ofJson, decode, Datum.ofMembers_eq_map] at decoded
  obtain ⟨given, kept⟩ := holds.of_members (by simpa [Function.comp_def] using distinct) decoded
  refine ⟨fun json member => given _ (List.mem_map.mpr ⟨_, member, rfl⟩), fun none => kept fun datum member => ?_⟩
  obtain ⟨source, listed, same⟩ := List.mem_map.mp member
  cases same
  exact none source.2 listed

/-- Whatever value of the right type a known key has, its field takes it. -/
def Takes (record : Record σ) (shape : Json.Shape) : Prop :=
  ∀ field ∈ record.fields, ∃ type, (field.name, type) ∈ shape ∧
    ∀ json, type json → ∀ value, ∃ result, field.put value (.ofJson json) = .ok result

theorem exists_foldlM {members : List (String × Datum)}
    (takes : ∀ member ∈ members, ∀ value, ∃ result, record.putMember value member = .ok result) (initial : σ) :
    ∃ result, members.foldlM record.putMember initial = .ok result := by
  induction members generalizing initial with
  | nil => exact ⟨initial, rfl⟩
  | cons first members ih =>
    rw [List.forall_mem_cons] at takes
    obtain ⟨middle, put⟩ := takes.1 initial
    obtain ⟨result, folded⟩ := ih takes.2 middle
    exact ⟨result, by rw [List.foldlM_cons, put]; exact folded⟩

theorem Takes.exists_decode {shape : Json.Shape} (takes : record.Takes shape) {members : List (String × Json)}
    (fits : Json.Fits shape members) (exact : Bool) :
    ∃ result, record.decode exact (.ofJson (.object members)) = .ok result := by
  rw [Datum.ofJson, decode, Datum.ofMembers_eq_map]
  refine exists_foldlM (List.forall_mem_map.mpr fun member listed value => ?_) record.initial
  unfold putMember
  split
  · rename_i field found
    obtain ⟨type, known, taken⟩ := takes field (List.mem_of_find?_eq_some found)
    have named : field.name = member.1 := by simpa using List.find?_some found
    exact taken member.2 (fits.typed member listed (field.name, type) known named) value
  · exact ⟨value, if_pos (Datum.isReadable_ofJson member.2)⟩

end Record

namespace Metrics

def shape : Json.Shape :=
  [("node_width", Json.IsNumber), ("node_height", Json.IsNumber), ("horizontal_spacing", Json.IsNumber),
    ("vertical_spacing", Json.IsNumber)]

theorem record_holds :
    record.Holds "node_width" nodeWidth Datum.single ∧ record.Holds "node_height" nodeHeight Datum.single ∧
      record.Holds "horizontal_spacing" horizontalSpacing Datum.single ∧
      record.Holds "vertical_spacing" verticalSpacing Datum.single := by
  refine ⟨?_, ?_, ?_, ?_⟩ <;> constructor <;> simp +contextual [record, forall_map_eq_ok_iff]

theorem record_takes : record.Takes shape := by
  simp +contextual [Record.Takes, record, shape, exists_map_eq_ok_iff, Json.IsNumber, Datum.single_ofJson_iff]

end Metrics

namespace Pipeline.Options

def shape : Json.Shape := [("max_depth", Json.IsCount), ("strict", Json.IsFlag)]

theorem record_holds :
    record.Holds "max_depth" maxDepth Datum.count ∧ record.Holds "strict" strict Datum.flag := by
  refine ⟨?_, ?_⟩ <;> constructor <;> simp +contextual [record, forall_map_eq_ok_iff]

theorem record_takes : record.Takes shape := by
  simp +contextual [Record.Takes, record, shape, exists_map_eq_ok_iff, Json.IsCount, Json.IsFlag,
    Datum.count_ofJson_iff, Datum.flag_ofJson_iff]

end Pipeline.Options

namespace EdgeStyle

def shape : Json.Shape := [("edge_color", Json.IsText), ("edge_width", Json.IsNumber)]

theorem record_holds :
    record.Holds "edge_color" color Datum.text ∧ record.Holds "edge_width" width Datum.single := by
  refine ⟨?_, ?_⟩ <;> constructor <;> simp +contextual [record, forall_map_eq_ok_iff]

theorem record_takes : record.Takes shape := by
  simp +contextual [Record.Takes, record, shape, exists_map_eq_ok_iff, Json.IsText, Json.IsNumber,
    Datum.text_ofJson_iff, Datum.single_ofJson_iff]

end EdgeStyle

namespace Settings

def sections : List (String × Json.Shape) :=
  [("layout", Metrics.shape), ("parser", Pipeline.Options.shape), ("style", EdgeStyle.shape)]

def shape : Json.Shape :=
  sections.map fun (name, shape) => (name, fun json => ∃ entries, json = .object entries ∧ Json.Fits shape entries)

def Knows (part key : String) : Prop := ∃ shape, (part, shape) ∈ sections ∧ key ∈ shape.map Prod.fst

theorem record_holds (exact : Bool) :
    (record exact).Holds "layout" metrics (Metrics.record.decode exact) ∧
      (record exact).Holds "parser" options (Pipeline.Options.record.decode exact) ∧
      (record exact).Holds "style" style (EdgeStyle.record.decode exact) := by
  refine ⟨?_, ?_, ?_⟩ <;> constructor <;> simp +contextual [record, forall_map_eq_ok_iff]

theorem record_takes (exact : Bool) : (record exact).Takes shape := by
  have decoded_of_object {σ : Type} {inner : Record σ} {shape : Json.Shape} (takes : inner.Takes shape) (json : Json)
      (typed : ∃ entries, json = .object entries ∧ Json.Fits shape entries) :
      ∃ value, inner.decode exact (.ofJson json) = .ok value := by
    obtain ⟨entries, rfl, fits⟩ := typed
    exact takes.exists_decode fits exact
  simp only [Record.Takes, record, shape, sections, List.map_cons, List.map_nil, List.forall_mem_cons,
    bind_pure_comp, exists_map_eq_ok_iff]
  refine ⟨⟨_, .head _, fun json typed _ => decoded_of_object Metrics.record_takes json typed⟩,
    ⟨_, .tail _ (.head _), fun json typed _ => decoded_of_object Pipeline.Options.record_takes json typed⟩,
    ⟨_, .tail _ (.tail _ (.head _)), fun json typed _ => decoded_of_object EdgeStyle.record_takes json typed⟩, by simp⟩

/-- A field has the value that is named for it, and its initial one if there is none. -/
structure Gives {β : Type} (members : List (String × Json)) (part key : String) (read : Json → Option β)
    (initial value : β) : Prop where
  named : ∀ json, Json.Names members part key json → read json = some value
  unnamed : (∀ json, ¬ Json.Names members part key json) → value = initial

theorem Gives.unique {β : Type} {members others : List (String × Json)} {part key : String}
    {read : Json → Option β} {initial value value' : β} (gives : Gives members part key read initial value)
    (gives' : Gives others part key read initial value')
    (same : ∀ json, Json.Names members part key json ↔ Json.Names others part key json) : value = value' := by
  by_cases named : ∃ json, Json.Names members part key json
  · obtain ⟨json, names⟩ := named
    exact Option.some.inj ((gives.named json names).symm.trans (gives'.named json ((same json).mp names)))
  · have absent := not_exists.mp named
    rw [gives.unnamed absent, gives'.unnamed fun json names => absent json ((same json).mpr names)]

variable {members others : List (String × Json)} {settings : Settings}

theorem gives_of_holds {σ β : Type} {inner : Record σ} {part key : String} {get : Settings → σ} {get' : σ → β}
    {read : Datum → Except DecodeFault β} {read' : Json → Option β} {shape' : Json.Shape}
    (outer : (record true).Holds part get (inner.decode true)) (start : inner.initial = get .default)
    (holds : inner.Holds key get' read)
    (agree : ∀ {json value}, read (.ofJson json) = .ok value ↔ read' json = some value)
    (listed : (part, shape') ∈ sections) (fits : Json.Fits shape members)
    (decoded : ofJson (.object members) = .ok settings) :
    Gives members part key read' (get' (get .default)) (get' (get settings)) := by
  obtain ⟨given, kept⟩ := outer.of_object fits.distinct (show (record true).decode true _ = _ from decoded)
  have typed : ∀ json, (part, json) ∈ members → ∃ entries, json = .object entries ∧ Json.Fits shape' entries :=
    fun json member => fits.typed (part, json) member _ (List.mem_map.mpr ⟨_, listed, rfl⟩) rfl
  have entered {entries : List (String × Json)} (member : (part, Json.object entries) ∈ members) :
      (∀ json, (key, json) ∈ entries → read (.ofJson json) = .ok (get' (get settings))) ∧
        ((∀ json, (key, json) ∉ entries) → get' (get settings) = get' inner.initial) := by
    obtain ⟨_, same, inside⟩ := typed _ member
    cases same
    exact holds.of_object inside.distinct (given _ member)
  refine ⟨?_, fun absent => ?_⟩
  · rintro json ⟨entries, member, entry⟩
    exact agree.mp ((entered member).1 json entry)
  · by_cases named : ∃ json, (part, json) ∈ members
    · obtain ⟨json, member⟩ := named
      obtain ⟨entries, rfl, _⟩ := typed json member
      rw [(entered member).2 fun json entry => absent json ⟨entries, member, entry⟩, start]
    · rw [kept (not_exists.mp named)]
      rfl

structure Reflects (members : List (String × Json)) (settings : Settings) : Prop where
  nodeWidth : Gives members "layout" "node_width" Json.single? Metrics.default.nodeWidth settings.metrics.nodeWidth
  nodeHeight :
    Gives members "layout" "node_height" Json.single? Metrics.default.nodeHeight settings.metrics.nodeHeight
  horizontalSpacing : Gives members "layout" "horizontal_spacing" Json.single?
    Metrics.default.horizontalSpacing settings.metrics.horizontalSpacing
  verticalSpacing : Gives members "layout" "vertical_spacing" Json.single?
    Metrics.default.verticalSpacing settings.metrics.verticalSpacing
  maxDepth :
    Gives members "parser" "max_depth" Json.count? Pipeline.Options.default.maxDepth settings.options.maxDepth
  strict : Gives members "parser" "strict" Json.flag? Pipeline.Options.default.strict settings.options.strict
  color : Gives members "style" "edge_color" Json.text? EdgeStyle.default.color settings.style.color
  width : Gives members "style" "edge_width" Json.single? EdgeStyle.default.width settings.style.width

theorem reflects_of_decoded (fits : Json.Fits shape members)
    (decoded : ofJson (.object members) = .ok settings) : Reflects members settings := by
  obtain ⟨layout, parser, style⟩ := record_holds true
  obtain ⟨nodeWidth, nodeHeight, horizontalSpacing, verticalSpacing⟩ := Metrics.record_holds
  obtain ⟨maxDepth, strict⟩ := Pipeline.Options.record_holds
  obtain ⟨color, width⟩ := EdgeStyle.record_holds
  have first : ("layout", Metrics.shape) ∈ sections := .head _
  have second : ("parser", Pipeline.Options.shape) ∈ sections := .tail _ (.head _)
  have third : ("style", EdgeStyle.shape) ∈ sections := .tail _ (.tail _ (.head _))
  constructor
  case nodeWidth => exact gives_of_holds layout rfl nodeWidth Datum.single_ofJson_iff first fits decoded
  case nodeHeight => exact gives_of_holds layout rfl nodeHeight Datum.single_ofJson_iff first fits decoded
  case horizontalSpacing =>
    exact gives_of_holds layout rfl horizontalSpacing Datum.single_ofJson_iff first fits decoded
  case verticalSpacing =>
    exact gives_of_holds layout rfl verticalSpacing Datum.single_ofJson_iff first fits decoded
  case maxDepth => exact gives_of_holds parser rfl maxDepth Datum.count_ofJson_iff second fits decoded
  case strict => exact gives_of_holds parser rfl strict Datum.flag_ofJson_iff second fits decoded
  case color => exact gives_of_holds style rfl color Datum.text_ofJson_iff third fits decoded
  case width => exact gives_of_holds style rfl width Datum.single_ofJson_iff third fits decoded

theorem Reflects.unique {settings' : Settings} (reflects : Reflects members settings)
    (reflects' : Reflects others settings')
    (same : ∀ part key, Knows part key → ∀ json, Json.Names members part key json ↔ Json.Names others part key json) :
    settings = settings' := by
  have layout (key : String) (listed : key ∈ Metrics.shape.map Prod.fst) :=
    same "layout" key ⟨_, .head _, listed⟩
  have parser (key : String) (listed : key ∈ Pipeline.Options.shape.map Prod.fst) :=
    same "parser" key ⟨_, .tail _ (.head _), listed⟩
  have style (key : String) (listed : key ∈ EdgeStyle.shape.map Prod.fst) :=
    same "style" key ⟨_, .tail _ (.tail _ (.head _)), listed⟩
  obtain ⟨⟨_, _, _, _⟩, ⟨_, _⟩, ⟨_, _⟩⟩ := settings
  obtain ⟨⟨_, _, _, _⟩, ⟨_, _⟩, ⟨_, _⟩⟩ := settings'
  simp only [mk.injEq, Metrics.mk.injEq, Pipeline.Options.mk.injEq, EdgeStyle.mk.injEq]
  refine ⟨⟨?_, ?_, ?_, ?_⟩, ⟨?_, ?_⟩, ?_, ?_⟩
  · exact reflects.nodeWidth.unique reflects'.nodeWidth (layout _ (by simp [Metrics.shape]))
  · exact reflects.nodeHeight.unique reflects'.nodeHeight (layout _ (by simp [Metrics.shape]))
  · exact reflects.horizontalSpacing.unique reflects'.horizontalSpacing (layout _ (by simp [Metrics.shape]))
  · exact reflects.verticalSpacing.unique reflects'.verticalSpacing (layout _ (by simp [Metrics.shape]))
  · exact reflects.maxDepth.unique reflects'.maxDepth (parser _ (by simp [Pipeline.Options.shape]))
  · exact reflects.strict.unique reflects'.strict (parser _ (by simp [Pipeline.Options.shape]))
  · exact reflects.color.unique reflects'.color (style _ (by simp [EdgeStyle.shape]))
  · exact reflects.width.unique reflects'.width (style _ (by simp [EdgeStyle.shape]))

/-- An object with values of the right types for any of the known keys, in any order and among any other keys, is
read. Each field has what is named for it or its default, so another object that names the same is read alike. -/
theorem ofJson_partial (fits : Json.Fits shape members) :
    ∃ settings, ofJson (.object members) = .ok settings ∧ Reflects members settings ∧
      ∀ others, Json.Fits shape others →
        (∀ part key, Knows part key → ∀ json, Json.Names members part key json ↔ Json.Names others part key json) →
        ofJson (.object others) = .ok settings := by
  have read {members : List (String × Json)} (fits : Json.Fits shape members) :
      ∃ settings, ofJson (.object members) = .ok settings ∧ Reflects members settings := by
    obtain ⟨settings, decoded⟩ := (record_takes true).exists_decode fits true
    exact ⟨settings, decoded, reflects_of_decoded fits decoded⟩
  obtain ⟨settings, decoded, reflects⟩ := read fits
  refine ⟨settings, decoded, reflects, fun others fits' same => ?_⟩
  obtain ⟨settings', decoded', reflects'⟩ := read fits'
  rw [decoded', reflects.unique reflects' same]

/-- Keys of no field stand at both levels, and one section is left out. Without these keys and in another order the
same settings are read. -/
theorem ofJson_partial_among_others :
    let layout : List (String × Json) := [("vertical_spacing", .integer 0), ("node_width", .integer 200)]
    let members : List (String × Json) :=
      [("theme", .array [.null]), ("style", .object [("edge_width", .integer 3)]),
        ("layout", .object (("unit", .string "px") :: layout))]
    let others : List (String × Json) :=
      [("layout", .object layout.reverse), ("style", .object [("edge_width", .integer 3)])]
    let settings : Settings := ⟨{ Metrics.default with nodeWidth := .ofInt 200, verticalSpacing := .ofInt 0 },
      .default, { EdgeStyle.default with width := .ofInt 3 }⟩
    Json.Fits shape members ∧ ofJson (.object members) = .ok settings ∧ Reflects members settings ∧
      Json.Fits shape others ∧
      (∀ part key, Knows part key → ∀ json, Json.Names members part key json ↔ Json.Names others part key json) ∧
      ofJson (.object others) = .ok settings := by
  intro layout members others settings
  have style : Json.Fits EdgeStyle.shape [("edge_width", .integer 3)] :=
    ⟨by decide, by simp [EdgeStyle.shape, Json.IsNumber, Json.single?]⟩
  have fits : Json.Fits shape members := by
    have inner : Json.Fits Metrics.shape (("unit", .string "px") :: layout) :=
      ⟨by decide, by simp [Metrics.shape, layout, Json.IsNumber, Json.single?]⟩
    exact ⟨by decide, by simp [shape, sections, members, style, inner]⟩
  have fits' : Json.Fits shape others := by
    have inner : Json.Fits Metrics.shape layout.reverse :=
      ⟨by decide, by simp [Metrics.shape, layout, Json.IsNumber, Json.single?]⟩
    exact ⟨by decide, by simp only [shape, sections, others]; simp [style, inner]⟩
  have same (part key : String) (known : Knows part key) (json : Json) :
      Json.Names members part key json ↔ Json.Names others part key json := by
    obtain ⟨_, listed, member⟩ := known
    have other : key ≠ "unit" := by
      rintro rfl
      simp only [sections, List.mem_cons, Prod.mk.injEq, List.not_mem_nil, or_false] at listed
      rcases listed with ⟨_, rfl⟩ | ⟨_, rfl⟩ | ⟨_, rfl⟩ <;> revert member <;> decide
    simp [Json.Names, members, others, layout, or_and_right, exists_or, other, or_comm]
  have computed : (ofJson (.object members)).toOption = some settings := by decide +kernel
  obtain ⟨_, decoded, reflects, again⟩ := ofJson_partial fits
  rw [decoded] at computed
  cases Option.some.inj computed
  exact ⟨fits, decoded, reflects, fits', same, again others fits' same⟩

end Settings

end PipelineChart
