import Stencil.Text.Basic

/-! # Reading UTF-8

A lead byte announces how many bytes follow it and holds the first bits of the code point. A code
point must be written in as many bytes as its character needs, so every text has one byte form. -/
namespace Stencil.Utf8

/-- A character of which the lead byte has been read. -/
structure Unfinished where
  bits : Nat
  missing : Nat
  length : Nat

/-- The high bits and the number of bytes that follow. -/
def lead? (byte : Nat) : Option (Nat × Nat) :=
  if byte < 0x80 then some (byte, 0)
  else if 0xC0 ≤ byte ∧ byte < 0xE0 then some (byte - 0xC0, 1)
  else if 0xE0 ≤ byte ∧ byte < 0xF0 then some (byte - 0xE0, 2)
  else if 0xF0 ≤ byte ∧ byte < 0xF8 then some (byte - 0xF0, 3)
  else none

def Unfinished.next? (u : Unfinished) (byte : Nat) : Option Unfinished :=
  if 0x80 ≤ byte ∧ byte < 0xC0 then
    some { u with bits := 0x40 * u.bits + (byte - 0x80), missing := u.missing - 1 }
  else none

def Unfinished.char? (u : Unfinished) : Option Char :=
  if u.bits.isValidChar ∧ (Char.ofNat u.bits).utf8Size = u.length then some (Char.ofNat u.bits)
  else none

def step? : Option Unfinished → Nat → Option Unfinished
  | none, byte => (lead? byte).map fun (bits, missing) => ⟨bits, missing, missing + 1⟩
  | some u, byte => u.next? byte

def decodeFrom? : Option Unfinished → List Nat → Option Text
  | none, [] => some []
  | some _, [] => none
  | state, byte :: rest => do
    let u ← step? state byte
    if u.missing = 0 then
      let c ← u.char?
      (c :: ·) <$> decodeFrom? none rest
    else decodeFrom? (some u) rest

/-- The text that the bytes encode. -/
def decode? (bytes : List Nat) : Option Text := decodeFrom? none bytes

end Stencil.Utf8
