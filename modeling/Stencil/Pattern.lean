import Stencil.Diagnostic
import Stencil.Function
import Stencil.Operators

/-! # Patterns

A pattern is literal text and parameters in turn, and its tags may hold further patterns. The types
of one level are written over the type of what is nested in it, so that whatever a pattern means
level by level can stand in the place of the nested patterns; `Pattern.fold` puts it there. -/
namespace Stencil

structure Options where
  casing : Casing := .sensitive
  maxDepth : Nat := 64
  deriving DecidableEq, Repr

inductive Value (π : Type) where
  | int32 (number : Int32)
  | int64 (number : Int64)
  | text (text : Text)
  | nested (pattern : π)

structure Component (π : Type) where
  value : Value π
  casing : Casing

/-- The arguments of one call; one that was left out or could not be read is absent. -/
structure Group (π : Type) where
  components : List (Option (Component π))

structure Tag (π : Type) where
  name : Text
  /-- Absent if the name is unknown. -/
  function : Option Function
  operators : Operators
  groups : List (Group π)

structure Parameter (π : Type) where
  name : Text
  tags : List (Tag π)
  /-- Exact length in characters. -/
  fixed : Option Nat
  /-- Least length in characters. -/
  min : Option Nat
  source : ByteRange

structure Literal where
  text : Text
  casing : Casing
  source : ByteRange
  deriving DecidableEq, Repr

inductive Part (π : Type) where
  | literal (literal : Literal)
  | parameter (parameter : Parameter π)

/-- One level of a pattern. -/
structure Layer (π : Type) where
  source : Text
  parts : List (Part π)
  diagnostics : Diagnostics
  options : Options

inductive Pattern where
  | of (layer : Layer Pattern)

-- A component of another kind than the one asked for counts as absent.
namespace Group

variable {π : Type}

def empty : Group π := ⟨[]⟩

def component? (group : Group π) (slot : Nat) : Option (Component π) :=
  group.components[slot]?.join

def isPresent (group : Group π) (slot : Nat) : Bool := (group.component? slot).isSome

def int32? (group : Group π) (slot : Nat) : Option Int32 := do
  match (← group.component? slot).value with
  | .int32 number => some number
  | _ => none

def int64? (group : Group π) (slot : Nat) : Option Int64 := do
  match (← group.component? slot).value with
  | .int64 number => some number
  | _ => none

def text? (group : Group π) (slot : Nat) : Option Text := do
  match (← group.component? slot).value with
  | .text text => some text
  | _ => none

def nested? (group : Group π) (slot : Nat) : Option π := do
  match (← group.component? slot).value with
  | .nested pattern => some pattern
  | _ => none

def text (group : Group π) (slot : Nat) : Text := (group.text? slot).getD []

def casing (group : Group π) (slot : Nat) : Casing :=
  match group.component? slot with
  | some component => component.casing
  | none => .sensitive

end Group

namespace Parameter

variable {π : Type}

def minLength (p : Parameter π) : Nat := (p.fixed <|> p.min).getD 0

def isFixed (p : Parameter π) : Bool := p.fixed.isSome

def isAnonymous (p : Parameter π) : Bool := p.name.isEmpty

end Parameter

namespace Part

variable {π : Type}

def literal? : Part π → Option Literal
  | literal l => some l
  | parameter _ => none

def parameter? : Part π → Option (Parameter π)
  | literal _ => none
  | parameter p => some p

def source : Part π → ByteRange
  | literal l => l.source
  | parameter p => p.source

end Part

namespace Layer

variable {π : Type}

def parameters (layer : Layer π) : List (Parameter π) := layer.parts.filterMap (·.parameter?)

def literals (layer : Layer π) : List Literal := layer.parts.filterMap (·.literal?)

def hasParameters (layer : Layer π) : Bool := layer.parts.any (·.parameter?.isSome)

/-- The names of parameters that have one, each where it is first used. -/
def parameterNames (layer : Layer π) : List Text :=
  ((layer.parameters.map (·.name)).filter (!·.isEmpty)).foldl
    (fun names name => if names.any (· = name) then names else names ++ [name]) []

def literalText (layer : Layer π) : Text := layer.literals.flatMap (·.text)

/-- The level that is one literal, or nothing, whatever its text contains. -/
def ofLiteral (text : Text) (options : Options) : Layer π :=
  { source := text
    parts := if text.isEmpty then [] else [.literal ⟨text, options.casing, ⟨0, text.size⟩⟩]
    diagnostics := []
    options }

end Layer

namespace Pattern

def layer : Pattern → Layer Pattern
  | of layer => layer

def source (p : Pattern) : Text := p.layer.source

def parts (p : Pattern) : List (Part Pattern) := p.layer.parts

def diagnostics (p : Pattern) : Diagnostics := p.layer.diagnostics

def options (p : Pattern) : Options := p.layer.options

def literal (text : Text) (options : Options) : Pattern := of (.ofLiteral text options)

end Pattern

end Stencil
