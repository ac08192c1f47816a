import Stencil.Text.Basic

/-! # Blank characters

The characters with the Unicode property White_Space, and trimming by them. -/
namespace Stencil

/-- Code points of White_Space, as ranges. -/
def blankRanges : List (Nat × Nat) :=
  [(0x9, 0xD), (0x20, 0x20), (0x85, 0x85), (0xA0, 0xA0), (0x1680, 0x1680), (0x2000, 0x200A),
   (0x2028, 0x2029), (0x202F, 0x202F), (0x205F, 0x205F), (0x3000, 0x3000)]

/-- Whether a character's code point lies in one of the ranges. -/
def inRanges (ranges : List (Nat × Nat)) (c : Char) : Bool :=
  ranges.any fun (first, last) => first ≤ c.toNat && c.toNat ≤ last

def isBlank (c : Char) : Bool := inRanges blankRanges c

namespace Text

def trimStart (p : Char → Bool) (text : Text) : Text := text.dropWhile p

def trimEnd (p : Char → Bool) (text : Text) : Text := (text.reverse.dropWhile p).reverse

def trim (text : Text) : Text := trimEnd isBlank (trimStart isBlank text)

def isAllBlank (text : Text) : Bool := text.all isBlank

/-- Fields between separating characters; there is one more of them than of separators. -/
def fields (separates : Char → Bool) : Text → List Text
  | [] => [[]]
  | c :: cs =>
    if separates c then [] :: fields separates cs
    else (fields separates cs).modifyHead (c :: ·)

/-- The fields that are not empty. -/
def words (separates : Char → Bool) (text : Text) : List Text :=
  (fields separates text).filter (!·.isEmpty)

end Text

end Stencil
