import PipelineChart.Chart.Geometry
import PipelineChart.Text.Glyph

/-!
Charts: placed nodes, and edges between them by id. Ids are made of names alone, so names that differ
in their blanks only have one id.
-/

namespace PipelineChart

open Text

/-- Each run of blanks becomes one hyphen; `within` tells that a run has begun before the text. -/
def hyphenate : (within : Bool) → List Char → List Char
  | _, [] => []
  | within, char :: text =>
      if isBlank char then
        if within then hyphenate true text else '-' :: hyphenate true text
      else char :: hyphenate false text

def nodeId (name : String) : String := "stage-" ++ String.ofList (hyphenate false name.toList)

def edgeId (source target : String) : String := "e-" ++ source ++ "-" ++ target

inductive Anchor where
  | left
  | right
  deriving DecidableEq

def Anchor.text : Anchor → String
  | .left => "left"
  | .right => "right"

structure Node (α : Type) where
  name : String
  steps : List String
  position : Point α
  deriving DecidableEq

namespace Node

variable {α : Type}

def id (node : Node α) : String := nodeId node.name

def anchorIn (_ : Node α) : Anchor := .left

def anchorOut (_ : Node α) : Anchor := .right

end Node

structure Edge where
  source : String
  target : String
  deriving DecidableEq

def Edge.id (edge : Edge) : String := edgeId edge.source edge.target

/-- `nextX` is where a further stage would stand; `minY` and `maxY` bound the nodes. -/
structure Chart (α : Type) where
  nodes : List (Node α)
  edges : List Edge
  nextX : α
  minY : α
  maxY : α
  deriving DecidableEq

namespace Chart

variable {α : Type}

def empty [Zero α] : Chart α := ⟨[], [], 0, 0, 0⟩

def isEmpty (chart : Chart α) : Bool := chart.nodes.isEmpty

def node? (chart : Chart α) (id : String) : Option (Node α) :=
  chart.nodes.find? fun node => node.id == id

end Chart

end PipelineChart
