import Stencil.Params
import Stencil.Span

/-! # What a pattern means

A pattern checks a text, which yields spans and new parameters or nothing, and it formats
parameters, which yields spans or nothing but may change the parameters either way. -/
namespace Stencil

structure FormatOptions where
  /-- A parameter without a value is empty. -/
  ignoreMissing : Bool
  /-- A parameter whose tag refuses it is empty. -/
  ignoreTagFailure : Bool
  /-- A named parameter leaves the map when it is used. -/
  removeConsumed : Bool
  deriving DecidableEq, Repr

namespace FormatOptions

def strict : FormatOptions := ⟨false, false, false⟩

/-- For what is formatted in the course of a check. -/
def inCheck : FormatOptions := { strict with ignoreMissing := true }

end FormatOptions

structure Meaning where
  check : Text → Params → Option (List Span × Params)
  format : FormatOptions → Params → Option (List Span) × Params

namespace Meaning

def never : Meaning := ⟨fun _ _ => none, fun _ params => (none, params)⟩

/-- Format with the anonymous parameter bound to a value, which afterwards is what it was. -/
def render (m : Meaning) (options : FormatOptions) (value : Text) (params : Params) :
    Option Text × Params :=
  let (spans, after) :=
    m.format { options with removeConsumed := false } (params.insert [] (.text value))
  (spans.map Span.render, after.restore [] (params.get? []))

/-- Render one value after another, up to the first that fails. -/
def renderAll (m : Meaning) (options : FormatOptions) :
    List Text → Params → Option (List Text) × Params
  | [], params => (some [], params)
  | value :: rest, params =>
    match m.render options value params with
    | (none, params) => (none, params)
    | (some text, params) =>
      let (texts, params) := m.renderAll options rest params
      (texts.map (text :: ·), params)

end Meaning

end Stencil
