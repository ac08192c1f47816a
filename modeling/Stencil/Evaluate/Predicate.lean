import Stencil.Pattern

/-! # Conditions on a text

The functions that accept or refuse a text and change nothing. -/
namespace Stencil.Predicate

variable {π : Type}

/-- Within bounds, or outside them when they are given the wrong way round. -/
def inRange (value low high : Int) : Bool :=
  if high < low then value < high || low < value else low ≤ value && value ≤ high

def int32Bound (group : Group π) (slot : Nat) (absent : Int) : Int :=
  ((group.int32? slot).map Int32.toInt).getD absent

def int64Bound (group : Group π) (slot : Nat) (absent : Int) : Int :=
  ((group.int64? slot).map Int64.toInt).getD absent

def length (group : Group π) (text : Text) : Bool :=
  inRange text.length (int32Bound group 0 0) (int32Bound group 1 Int32.maxValue.toInt)

def number32 (group : Group π) (text : Text) : Bool :=
  match Decimal.int32? text.trim with
  | some n => inRange n.toInt (int32Bound group 0 Int32.minValue.toInt)
      (int32Bound group 1 Int32.maxValue.toInt)
  | none => false

def number64 (group : Group π) (text : Text) : Bool :=
  match Decimal.int64? text.trim with
  | some n => inRange n.toInt (int64Bound group 0 Int64.minValue.toInt)
      (int64Bound group 1 Int64.maxValue.toInt)
  | none => false

def equals (group : Group π) (text : Text) : Bool :=
  (group.casing 0).sameText text (group.text 0)

def contains (group : Group π) (text : Text) : Bool :=
  ((group.casing 0).find? (group.text 0) text).isSome

def starts (group : Group π) (text : Text) : Bool :=
  ((group.casing 0).stripFront? (group.text 0) text).isSome

def ends (group : Group π) (text : Text) : Bool :=
  ((group.casing 0).stripBack? (group.text 0) text).isSome

def charset (group : Group π) (text : Text) : Bool :=
  text.all ((group.casing 0).memberOf (group.text 0))

end Stencil.Predicate
