import Stencil.Evaluate.Function

/-! # Evaluating a tag

The groups of a tag run in order until their results decide what the combinator makes of them. A
group that accepts passes its span on; the span of one that refuses is dropped, but what it did to
the parameters stays. -/
namespace Stencil

namespace Combinator

inductive Progress where
  /-- Not decided; what the results so far amount to, if there are any. -/
  | undecided (last : Option Bool)
  | decided (verdict : Bool)
  deriving DecidableEq, Repr

/-- One more result. -/
def step : Combinator → Option Bool → Bool → Progress
  | and, _, result => if result then .undecided (some true) else .decided false
  | or, _, result => if result then .decided true else .undecided (some false)
  | xor, some true, result => if result then .decided false else .undecided (some true)
  | xor, _, result => .undecided (some result)
  | xnor, none, result => .undecided (some result)
  | xnor, some last, result => if last = result then .undecided (some last) else .decided false

/-- The verdict when all results have been seen. -/
def finish : Combinator → Option Bool → Bool
  | and, _ => true
  | or, _ => false
  | xor, last => last = some true
  | xnor, _ => true

/-- Run groups on a span and a state until the results decide. -/
def run {γ σ : Type} (c : Combinator) (evaluate : γ → Span → σ → Option Span × σ) :
    Option Bool → List γ → Span → σ → Bool × Span × σ
  | last, [], span, state => (c.finish last, span, state)
  | last, group :: rest, span, state =>
    let (result, state) := evaluate group span state
    let span := result.getD span
    match c.step last result.isSome with
    | .decided verdict => (verdict, span, state)
    | .undecided last => c.run evaluate last rest span state

end Combinator

/-- What a tag is evaluated for. -/
inductive Mode where
  | check
  | format
  deriving DecidableEq, Repr

namespace Tag

variable {π : Type}

/-- The groups to run: a tag without any runs once on an empty one. -/
def runGroups (tag : Tag π) : List (Group π) :=
  if tag.groups.isEmpty then [.empty] else tag.groups

/-- An unknown function refuses every check and lets every format pass. -/
def evaluate (tag : Tag Meaning) (mode : Mode) (options : FormatOptions) (span : Span)
    (params : Params) : Bool × Span × Params :=
  match tag.function with
  | none => (mode = .format, span, params)
  | some f =>
    let (verdict, span, params) :=
      tag.operators.combinator.run (f.evaluate options) none tag.runGroups span params
    (verdict != tag.operators.negated, span, params)

end Tag

/-- Evaluate tags in order, up to the first that refuses. -/
def evaluateAll (mode : Mode) (options : FormatOptions) :
    List (Tag Meaning) → Span → Params → Bool × Span × Params
  | [], span, params => (true, span, params)
  | tag :: rest, span, params =>
    match tag.evaluate mode options span params with
    | (true, span, params) => evaluateAll mode options rest span params
    | (false, span, params) => (false, span, params)

end Stencil
