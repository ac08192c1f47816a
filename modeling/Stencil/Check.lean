import Stencil.Evaluate.Tag

/-! # Checking a text against a pattern

First the text is split: literals anchor it, and a run of parameters takes what stands before the
next literal, found as early as the lengths of the run allow, or everything. Nothing is tried
twice. Then the tags are evaluated on the slices in order. -/
namespace Stencil

variable {π : Type}

/-- A piece of the text and the part of the pattern that takes it. -/
inductive Slice (π : Type) where
  | literal (text : Text)
  | capture (parameter : Parameter π) (text : Text)

namespace Slice

def text : Slice π → Text
  | literal text => text
  | capture _ text => text

end Slice

namespace Run

/-- Lengths are counted in 64 bits: a sum that does not fit goes round. -/
def minLength (run : List (Parameter π)) : Nat :=
  run.foldr (fun p n => (p.minLength + n) % UInt64.size) 0

/-- A difference of lengths, which goes round below zero. -/
def minus (a b : Nat) : Nat :=
  if b ≤ a then a - b else (a + (UInt64.size - b % UInt64.size)) % UInt64.size

def isFixed (run : List (Parameter π)) : Bool := run.all (·.isFixed)

/-- What a run takes off the front of a text, and the rest. -/
def extent? (run : List (Parameter π)) (next : Option Literal) (text : Text) :
    Option (Text × Text) := do
  let (least, more) ← text.splitLength? (minLength run)
  if isFixed run then some (least, more)
  else match next with
    | none => some (text, [])
    | some literal =>
      let cut ← literal.casing.find? literal.text more
      some (least ++ cut.before, cut.kept ++ cut.after)

/-- The length of the first parameter of a run. Each parameter takes its least length; the last that
has no fixed length takes what the others leave of the total. -/
def own (total least : Nat) (p : Parameter π) (rest : List (Parameter π)) : Nat :=
  if !p.isFixed && isFixed rest then minus total (minus least p.minLength) else p.minLength

/-- Give each parameter its length, as long as there is enough text. -/
def share? (total least : Nat) : List (Parameter π) → Text → Option (List (Slice π))
  | [], _ => some []
  | p :: rest, text => do
    let (taken, text) ← text.splitLength? (own total least p rest)
    let slices ← share? total least rest text
    some (.capture p taken :: slices)

def slices? (run : List (Parameter π)) (text : Text) : Option (List (Slice π)) :=
  share? text.length (minLength run) run text

end Run

/-- Split a text among parts that stand behind a run of parameters. -/
def splitParts? : List (Parameter π) → List (Part π) → Text → Option (List (Slice π))
  | run, [], text => do
    let (taken, rest) ← Run.extent? run none text
    if rest.isEmpty then Run.slices? run taken else none
  | run, .parameter p :: parts, text => splitParts? (run ++ [p]) parts text
  | run, .literal literal :: parts, text => do
    let (taken, rest) ← Run.extent? run (some literal) text
    let captures ← Run.slices? run taken
    let (found, rest) ← literal.casing.stripFront? literal.text rest
    let slices ← splitParts? [] parts rest
    some (captures ++ .literal found :: slices)

namespace Slice

/-- The spans of a captured text, of which tags may have cut off both ends. -/
def captureSpans (name text : Text) (position : Nat) (kept : ByteRange) : List Span :=
  let (before, rest) := text.splitBytes (kept.start - position)
  let (middle, after) := rest.splitBytes kept.length
  let start := position + before.size
  (if before.isEmpty then [] else [.literal before position before.size])
  ++ [.parameter name middle start]
  ++ (if after.isEmpty then [] else [.literal after (start + middle.size) after.size])

/-- Evaluate the tags on a slice that begins at a position, and store what it captures. -/
def evaluate? (position : Nat) (params : Params) : Slice Meaning → Option (List Span × Params)
  | literal text => some ([.literal text position text.size], params)
  | capture p text =>
    match evaluateAll .check .inCheck p.tags (.parameter p.name text position) params with
    | (false, _, _) => none
    | (true, span, params) =>
      some (captureSpans p.name text position span.range,
        if p.isAnonymous then params else params.insert p.name (.text span.text))

def evaluateFrom? : Nat → Params → List (Slice Meaning) → Option (List Span × Params)
  | _, params, [] => some ([], params)
  | position, params, slice :: rest => do
    let (spans, params) ← slice.evaluate? position params
    let (more, params) ← evaluateFrom? (position + slice.text.size) params rest
    some (spans ++ more, params)

end Slice

/-- The spans, which cover the text, and the parameters with what was captured. -/
def Layer.check (layer : Layer Meaning) (text : Text) (params : Params) :
    Option (List Span × Params) := do
  let slices ← splitParts? [] layer.parts text
  Slice.evaluateFrom? 0 params slices

end Stencil
