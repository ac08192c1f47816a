import Stencil.Text.Blank
import Stencil.Text.Search

/-! # Delimited extraction

An element is looked for in a text, and what is kept reaches from it on both sides up to the
nearest delimiter or the end of the text. -/
namespace Stencil

structure DelimitFlags where
  /-- The whole text must be the element. -/
  equals : Bool
  /-- The element may stand anywhere, as it may without a flag. -/
  contains : Bool
  /-- Keep the element alone. -/
  only : Bool
  starts : Bool
  ends : Bool
  nocase : Bool
  deriving DecidableEq, Repr

namespace DelimitFlags

/-- Flags named by words of ASCII letters in any case; other words mean nothing. -/
def ofText (text : Text) : DelimitFlags :=
  let words := (text.words (!·.isAlpha)).map Text.lowerAscii
  { equals := "equals".toList ∈ words
    contains := "contains".toList ∈ words
    only := "only".toList ∈ words
    starts := "starts".toList ∈ words
    ends := "ends".toList ∈ words
    nocase := "nocase".toList ∈ words }

def bits (flags : DelimitFlags) : Nat :=
  flags.equals.toNat + 2 * flags.contains.toNat + 4 * flags.only.toNat + 8 * flags.starts.toNat
    + 16 * flags.ends.toNat + 32 * flags.nocase.toNat

/-- Where the element stands. -/
def occurrence? (flags : DelimitFlags) (casing : Casing) (element text : Text) : Option Cut :=
  if flags.equals then if casing.sameText text element then some ⟨[], text, []⟩ else none
  else if flags.starts then
    (casing.stripFront? element text).map fun (found, rest) => ⟨[], found, rest⟩
  else if flags.ends then
    (casing.stripBack? element text).map fun (rest, found) => ⟨rest, found, []⟩
  else casing.find? element text

/-- Widen a cut up to the nearest delimiters. -/
def widen (casing : Casing) (left right : Text) (cut : Cut) : Cut :=
  let free (set : Text) (c : Char) : Bool := !casing.memberOf set c
  { before := (cut.before.reverse.dropWhile (free left)).reverse
    kept := (cut.before.reverse.takeWhile (free left)).reverse ++ cut.kept
      ++ cut.after.takeWhile (free right)
    after := cut.after.dropWhile (free right) }

def extract? (flags : DelimitFlags) (casing : Casing) (element left right text : Text) :
    Option Cut :=
  let casing := if flags.nocase then .insensitive else casing
  (flags.occurrence? casing element text).map fun cut =>
    if flags.only || (left.isEmpty && right.isEmpty) then cut else widen casing left right cut

end DelimitFlags

end Stencil
