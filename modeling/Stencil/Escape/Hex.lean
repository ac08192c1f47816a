import Stencil.Text.Utf8

/-! # Hexadecimal escapes

A run of control characters and number signs is written as its bytes in hexadecimal between two
number signs. A number sign that opens no such run stands for itself when read. -/
namespace Stencil.Hex

def needsHex (c : Char) : Bool := c = '#' || c.toNat < 0x20 || c.toNat = 0x7F

def digit (n : Nat) : Char := if n < 10 then Char.ofNat (n + '0'.toNat) else Char.ofNat (n - 10 + 'A'.toNat)

def pair (c : Char) : Text := [digit (c.toNat / 16), digit (c.toNat % 16)]

/-- `inRun` says whether a run is open before the text. -/
def encodeFrom : (inRun : Bool) → Text → Text
  | inRun, [] => if inRun then ['#'] else []
  | inRun, c :: cs =>
    if needsHex c then (if inRun then [] else ['#']) ++ pair c ++ encodeFrom true cs
    else (if inRun then ['#'] else []) ++ c :: encodeFrom false cs

def digitValue? (c : Char) : Option Nat :=
  if '0' ≤ c ∧ c ≤ '9' then some (c.toNat - '0'.toNat)
  else if 'A' ≤ c ∧ c ≤ 'F' then some (c.toNat - 'A'.toNat + 10)
  else if 'a' ≤ c ∧ c ≤ 'f' then some (c.toNat - 'a'.toNat + 10)
  else none

/-- The bytes of an even number of digits. -/
def bytes? : Text → Option (List Nat)
  | [] => some []
  | [_] => none
  | a :: b :: rest => do
    let high ← digitValue? a
    let low ← digitValue? b
    ((16 * high + low) :: ·) <$> bytes? rest

def decodeRun? : Text → Option Text
  | [] => none
  | run => (bytes? run).bind Utf8.decode?

theorem length_dropWhile_le (p : Char → Bool) (text : Text) :
    (text.dropWhile p).length ≤ text.length :=
  (List.dropWhile_suffix p).length_le

def decode : Text → Text
  | [] => []
  | c :: cs =>
    if c = '#' then
      match _h : cs.dropWhile (· != '#'), decodeRun? (cs.takeWhile (· != '#')) with
      | _ :: rest, some run => run ++ decode rest
      | _, _ => '#' :: decode cs
    else c :: decode cs
termination_by text => text.length
decreasing_by
  all_goals simp_wf
  all_goals have := length_dropWhile_le (· != '#') cs
  all_goals simp_all
  all_goals omega

end Hex

namespace Text

def escapeHex (text : Text) : Text := Hex.encodeFrom false text

def unescapeHex (text : Text) : Text := Hex.decode text

end Text

end Stencil
