import Stencil.Check
import Stencil.Format
import Stencil.Pattern.Fold

/-! # Interpreting a whole pattern

A pattern means what its level means with the nested patterns replaced by their meanings. At a
depth beyond the pattern's bound it neither checks nor formats anything. -/
namespace Stencil

namespace Layer

def meaning (layer : Layer Meaning) : Meaning := ⟨layer.check, layer.format⟩

/-- The meaning at a depth of nesting. -/
def meaningAt (layer : Layer (Nat → Meaning)) (depth : Nat) : Meaning :=
  if layer.options.maxDepth < depth then .never else (layer.map (· (depth + 1))).meaning

end Layer

namespace Pattern

def meaningAt : Pattern → Nat → Meaning := fold Layer.meaningAt

def check (p : Pattern) (text : Text) (params : Params) : Option (List Span × Params) :=
  (p.meaningAt 0).check text params

def accepts (p : Pattern) (text : Text) : Bool := (p.check text .empty).isSome

def format (p : Pattern) (options : FormatOptions) (params : Params) :
    Option (List Span) × Params :=
  (p.meaningAt 0).format options params

def formatText (p : Pattern) (options : FormatOptions) (params : Params) : Option Text × Params :=
  let (spans, params) := p.format options params
  (spans.map Span.render, params)

end Pattern

/-- A tag of a pattern at a depth, with its nested patterns replaced by their meanings. -/
def Tag.interpretAt (depth : Nat) (tag : Tag Pattern) : Tag Meaning :=
  tag.map (·.meaningAt (depth + 1))

def Group.interpretAt (depth : Nat) (group : Group Pattern) : Group Meaning :=
  group.map (·.meaningAt (depth + 1))

end Stencil
