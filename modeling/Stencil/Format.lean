import Stencil.Evaluate.Tag

/-! # Formatting parameters by a pattern

The spans of literals lie in the source of the pattern, those of parameters in their values. -/
namespace Stencil

namespace Parameter

variable {π : Type}

/-- The value of a parameter. The anonymous one is never missing and never used up. -/
def value (p : Parameter π) (options : FormatOptions) (params : Params) : Option Text × Params :=
  if p.isAnonymous then (some ((params.resolve? []).getD []), params)
  else
    let found := params.resolve? p.name
    (if options.ignoreMissing then some (found.getD []) else found,
      if options.removeConsumed then params.erase p.name else params)

def format (p : Parameter Meaning) (options : FormatOptions) (params : Params) :
    Option Span × Params :=
  match p.value options params with
  | (none, params) => (none, params)
  | (some value, params) =>
    match evaluateAll .format options p.tags (.parameter p.name value 0) params with
    | (true, span, params) => (some span, params)
    | (false, span, params) =>
      (if options.ignoreTagFailure then some (span.rewrite []) else none, params)

end Parameter

def Literal.span (l : Literal) : Span := .literal l.text l.source.start l.source.length

def Part.format (options : FormatOptions) (params : Params) :
    Part Meaning → Option Span × Params
  | .literal l => (some l.span, params)
  | .parameter p => p.format options params

/-- Format parts in order, up to the first that fails. -/
def formatParts (options : FormatOptions) :
    List (Part Meaning) → Params → Option (List Span) × Params
  | [], params => (some [], params)
  | part :: rest, params =>
    match part.format options params with
    | (none, params) => (none, params)
    | (some span, params) =>
      let (spans, params) := formatParts options rest params
      (spans.map (span :: ·), params)

def Layer.format (layer : Layer Meaning) (options : FormatOptions) (params : Params) :
    Option (List Span) × Params :=
  formatParts options layer.parts params

end Stencil
