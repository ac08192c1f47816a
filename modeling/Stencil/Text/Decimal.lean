import Stencil.Text.Basic

/-! # Decimal numbers

Reading takes ASCII digits only, at least one, after an optional sign; words of a fixed width
refuse what they cannot hold. -/
namespace Stencil

namespace Decimal

def digitValue (c : Char) : Nat := c.toNat - '0'.toNat

def ofDigits (digits : Text) : Nat := digits.foldl (fun n c => 10 * n + digitValue c) 0

/-- The number written by a text of digits. -/
def unsigned? (text : Text) : Option Nat :=
  if !text.isEmpty && text.all Char.isDigit then some (ofDigits text) else none

/-- The number written by digits that may follow a plus sign, below a limit. -/
def below? (limit : Nat) (text : Text) : Option Nat := do
  let n ← unsigned? (match text with | '+' :: rest => rest | _ => text)
  if n < limit then some n else none

def signed? : Text → Option Int
  | '-' :: rest => (unsigned? rest).map fun n => -(n : Int)
  | '+' :: rest => (unsigned? rest).map Int.ofNat
  | text => (unsigned? text).map Int.ofNat

def int32? (text : Text) : Option Int32 := do
  let n ← signed? text
  if Int32.minValue.toInt ≤ n ∧ n ≤ Int32.maxValue.toInt then some (Int32.ofInt n) else none

def int64? (text : Text) : Option Int64 := do
  let n ← signed? text
  if Int64.minValue.toInt ≤ n ∧ n ≤ Int64.maxValue.toInt then some (Int64.ofInt n) else none

def ofNat (n : Nat) : Text := Nat.toDigits 10 n

def ofInt : Int → Text
  | .ofNat n => ofNat n
  | .negSucc n => '-' :: ofNat (n + 1)

end Decimal

end Stencil
