import Stencil.Function
import Stencil.Operators

/-! # What a function name stands for

A name is the name of a function, or a short name and after it letters for operators: `a` or `all`,
`n`, and `c` for the case that the pattern does not have. -/
namespace Stencil

def Casing.opposite : Casing → Casing
  | sensitive => insensitive
  | insensitive => sensitive

structure Resolution where
  function : Function
  /-- The operators that a short name brings along. -/
  legacy : Option Operators
  deriving DecidableEq, Repr

namespace Resolution

def suffixWords? (pattern : Casing) : Text → Option (List Operators)
  | [] => some []
  | 'a' :: 'l' :: 'l' :: rest => (suffixWords? pattern rest).map (.combine .and :: ·)
  | 'a' :: rest => (suffixWords? pattern rest).map (.combine .and :: ·)
  | 'n' :: rest => (suffixWords? pattern rest).map (.negation :: ·)
  | 'c' :: rest => (suffixWords? pattern rest).map (.casing pattern.opposite :: ·)
  | _ => none

/-- The functions, those with short names of two letters before those with one. -/
def byShortName : List Function :=
  Function.all.filter (1 < ·.shortName.length) ++ Function.all.filter (·.shortName.length ≤ 1)

def ofShortName? (pattern : Casing) (name : Text) : Option Resolution :=
  byShortName.findSome? fun f => do
    let (_, suffix) ← Casing.stripFront? .sensitive f.shortName name
    let words ← suffixWords? pattern suffix
    return ⟨f, some (Operators.empty.applyAll words)⟩

/-- `pattern` is how the pattern compares where a tag does not say. -/
def ofName? (pattern : Casing) (name : Text) : Option Resolution :=
  match Function.ofName? name with
  | some f => some ⟨f, none⟩
  | none => ofShortName? pattern name

end Resolution

end Stencil
