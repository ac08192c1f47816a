import Stencil.Evaluate.Delimit
import Stencil.Evaluate.Predicate
import Stencil.Pattern.Fold

/-! # Example texts

A parameter's example starts empty, and each tag bends it until the tag would accept it. A length
condition with two negative bounds in order accepts nothing, and then there is no example. -/
namespace Stencil

/-- The example of a nested pattern, made when it is asked for. -/
abbrev Sample := Unit → Option Text

namespace Bend

variable {π : Type}

/-- An accepted length as near to the current one as can be. -/
def acceptedLength? (current low high : Int) : Option Int :=
  if Predicate.inRange current low high then some current
  else if high < low then some (low + 1)
  else
    let low := max low 0
    if high < low then none
    else some (if current < low then low else if high < current then high else current)

/-- Truncated, or filled up with the letter x. -/
def toLength (length : Nat) (sample : Text) : Text :=
  sample.take length ++ List.replicate (length - sample.length) 'x'

def length (group : Group π) (sample : Text) : Option Text :=
  let low := Predicate.int32Bound group 0 0
  let high := Predicate.int32Bound group 1 Int32.maxValue.toInt
  (acceptedLength? sample.length low high).map fun target => toLength target.toNat sample

/-- The number that is put in the place of a sample. It is counted in 64 bits, and one above the
greatest number is the least one. -/
def instead (low high : Int64) : Int64 :=
  if low ≤ high then low else if Int64.minValue < high then high - 1 else low + 1

def number (low high : Int64) (sample : Text) : Text :=
  let fits := match Decimal.int64? sample.trim with
    | some n => Predicate.inRange n.toInt low.toInt high.toInt
    | none => false
  if fits then sample else Decimal.ofInt (instead low high).toInt

def number32 (group : Group π) (sample : Text) : Text :=
  number ((group.int32? 0).getD 0).toInt64 ((group.int32? 1).getD Int32.maxValue).toInt64 sample

def number64 (group : Group π) (sample : Text) : Text :=
  number ((group.int64? 0).getD 0) ((group.int64? 1).getD Int64.maxValue) sample

def contains (group : Group π) (sample : Text) : Text :=
  if Predicate.contains group sample then sample else sample ++ group.text 0

def starts (group : Group π) (sample : Text) : Text :=
  if Predicate.starts group sample then sample else group.text 0 ++ sample

def ends (group : Group π) (sample : Text) : Text :=
  if Predicate.ends group sample then sample else sample ++ group.text 0

def charset (group : Group π) (sample : Text) : Text :=
  let kept := sample.filter ((group.casing 0).memberOf (group.text 0))
  if kept.isEmpty then (group.text 0).take 1 else kept

def delimit (group : Group π) (sample : Text) : Text :=
  let flags := DelimitFlags.ofText (group.text 1)
  match flags.extract? (group.casing 0) (group.text 0) [] [] sample with
  | some _ => sample
  | none => group.text 0

def pattern (group : Group Sample) (sample : Text) : Option Text :=
  match group.nested? 0 with
  | some nested => nested ()
  | none => some sample

end Bend

/-- Bend a sample so that a call accepts it, where the function describes its text. -/
def Function.bend (f : Function) (group : Group Sample) (sample : Text) : Option Text :=
  match f with
  | charset => some (Bend.charset group sample)
  | contains => some (Bend.contains group sample)
  | delimit => some (Bend.delimit group sample)
  | ends => some (Bend.ends group sample)
  | equals => some (group.text 0)
  | length => Bend.length group sample
  | number32 => some (Bend.number32 group sample)
  | number64 => some (Bend.number64 group sample)
  | pattern => Bend.pattern group sample
  | starts => some (Bend.starts group sample)
  | _ => some sample

/-- The first group counts; a negated tag describes nothing. -/
def Tag.bend (tag : Tag Sample) (sample : Text) : Option Text :=
  if tag.operators.negated then some sample
  else match tag.function, tag.groups with
    | some f, group :: _ => f.bend group sample
    | _, _ => some sample

/-- Truncate to a fixed length, and fill up to a fixed or least one. -/
def Parameter.fit {π : Type} (p : Parameter π) (sample : Text) : Text :=
  match p.fixed, p.min with
  | some length, _ => Bend.toLength length sample
  | none, some least => sample ++ List.replicate (least - sample.length) 'x'
  | none, none => sample

def Parameter.sample (p : Parameter Sample) : Option Text :=
  (p.tags.foldlM (fun sample (tag : Tag Sample) => tag.bend sample) []).map p.fit

def Part.sample : Part Sample → Option Text
  | .literal l => some l.text
  | .parameter p => p.sample

def Layer.sample (layer : Layer Sample) : Sample := fun () =>
  (layer.parts.mapM Part.sample).map List.flatten

namespace Pattern

/-- A text like those the pattern takes. -/
def sample (p : Pattern) : Option Text := fold Layer.sample p ()

end Pattern

/-- The samples that tags make one after another. -/
def samples : List (Tag Sample) → Text → Option (List Text)
  | [], _ => some []
  | tag :: rest, sample => do
    let sample ← tag.bend sample
    let more ← samples rest sample
    some (sample :: more)

end Stencil
