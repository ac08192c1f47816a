import Stencil.Text.Blank
import Stencil.Text.Lowercase.Casing
import Stencil.Text.Lowercase.Table

/-! # Lower case

One character is folded through the table. A text is lowered with the two rules that look beyond
one character: the dotted capital I gives two characters, and a capital sigma that ends a word
takes its final form. -/
namespace Stencil

namespace Lowercase

def Entry.image? (e : Entry) (code : Nat) : Option Nat :=
  if e.first ≤ code ∧ code ≤ e.last ∧ (code - e.first) % e.stride = 0 then
    some (e.image + (code - e.first))
  else none

def isCased (c : Char) : Bool := inRanges casedRanges c

def isCaseIgnorable (c : Char) : Bool := inRanges caseIgnorableRanges c

/-- Whether the first character that is not case-ignorable is cased. -/
def meetsCased (text : Text) : Bool :=
  match text.dropWhile isCaseIgnorable with
  | [] => false
  | c :: _ => isCased c

end Lowercase

open Lowercase

/-- The lower-case form of a character, or the first character of that form. -/
def fold (c : Char) : Char :=
  match table.findSome? (·.image? c.toNat) with
  | some code => Char.ofNat code
  | none => c

/-- A capital sigma after the characters `seen` (nearest first) and before `rest`. -/
def lowerSigma (seen rest : Text) : Char :=
  if meetsCased seen && !meetsCased rest then 'ς' else 'σ'

def lowerFrom (seen : Text) : Text → Text
  | [] => []
  | c :: rest =>
    (if c = 'Σ' then [lowerSigma seen rest] else if c = 'İ' then ['i', '\u0307'] else [fold c])
      ++ lowerFrom (c :: seen) rest

namespace Text

def lower (text : Text) : Text := lowerFrom [] text

/-- ASCII capitals lowered, all else kept. -/
def lowerAscii (text : Text) : Text := text.map Char.toLower

end Text

end Stencil
