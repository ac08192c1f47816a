/-! # Text and byte positions

A text is its list of characters. Positions count bytes of UTF-8, so a position becomes a cut of
the list before anything is computed from it; a cut knows the positions of its ends. -/
namespace Stencil

abbrev Text := List Char

structure ByteRange where
  start : Nat
  stop : Nat
  deriving DecidableEq, Repr

namespace ByteRange

def length (r : ByteRange) : Nat := r.stop - r.start

def shift (r : ByteRange) (base : Nat) : ByteRange := ⟨base + r.start, base + r.stop⟩

end ByteRange

namespace Text

/-- Bytes of the text in UTF-8. -/
def size (text : Text) : Nat := text.foldr (fun c n => c.utf8Size + n) 0

/-- Cut at a byte position; there is none beyond the end or inside a character. -/
def splitAt? : Text → Nat → Option (Text × Text)
  | cs, 0 => some ([], cs)
  | [], _ + 1 => none
  | c :: cs, n =>
    if c.utf8Size ≤ n then (splitAt? cs (n - c.utf8Size)).map fun (a, b) => (c :: a, b) else none

/-- The longest front of at most that many bytes, and the rest. -/
def splitBytes : Text → Nat → Text × Text
  | [], _ => ([], [])
  | c :: cs, n =>
    if c.utf8Size ≤ n then
      let (a, b) := splitBytes cs (n - c.utf8Size)
      (c :: a, b)
    else ([], c :: cs)

/-- Exactly that many characters off the front. -/
def splitLength? : Text → Nat → Option (Text × Text)
  | cs, 0 => some ([], cs)
  | [], _ + 1 => none
  | c :: cs, n + 1 => (splitLength? cs n).map fun (a, b) => (c :: a, b)

/-- Byte position reached from `start` by moving on `count` characters. -/
def advance? (text : Text) (start count : Nat) : Option Nat := do
  let (_, tail) ← text.splitAt? start
  let (passed, _) ← splitLength? tail count
  return start + size passed

end Text

/-- A text in three pieces, of which the middle one is of interest. -/
structure Cut where
  before : Text
  kept : Text
  after : Text
  deriving DecidableEq, Repr

namespace Cut

def whole (cut : Cut) : Text := cut.before ++ cut.kept ++ cut.after

def range (cut : Cut) : ByteRange :=
  ⟨cut.before.size, cut.before.size + cut.kept.size⟩

/-- The same cut of a text that has one more character in front. -/
def push (c : Char) (cut : Cut) : Cut := { cut with before := c :: cut.before }

end Cut

/-- The cut at both ends of a range; there is none if an end is no position of the text or the
range is reversed. -/
def Text.cut? (text : Text) (r : ByteRange) : Option Cut :=
  if r.start ≤ r.stop then do
    let (before, tail) ← text.splitAt? r.start
    let (kept, after) ← splitAt? tail r.length
    return ⟨before, kept, after⟩
  else none

end Stencil
