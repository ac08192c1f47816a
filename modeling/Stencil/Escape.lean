import Stencil.Text.Basic

/-! # Escaped text

A backslash takes the meaning away from the character after it. Written text is read once into
symbols, each either a bare character or an escaped one, and all structure is looked for among the
bare ones. -/
namespace Stencil

inductive Symbol where
  | bare (c : Char)
  | escaped (c : Char)
  /-- A backslash with nothing after it. -/
  | dangling
  deriving DecidableEq, Repr

namespace Symbol

def written : Symbol → Text
  | bare c => [c]
  | escaped c => ['\\', c]
  | dangling => ['\\']

/-- The character that the symbol stands for. -/
def meant : Symbol → Char
  | bare c => c
  | escaped c => c
  | dangling => '\\'

/-- Bytes of the written symbol; a backslash is one byte. -/
def size : Symbol → Nat
  | bare c => c.utf8Size
  | escaped c => 1 + c.utf8Size
  | dangling => 1

end Symbol

def symbols : Text → List Symbol
  | [] => []
  | '\\' :: [] => [.dangling]
  | '\\' :: c :: cs => .escaped c :: symbols cs
  | c :: cs => .bare c :: symbols cs

def written (source : List Symbol) : Text := source.flatMap Symbol.written

def meant (source : List Symbol) : Text := source.map Symbol.meant

/-- Bytes of the written text. -/
def writtenSize (source : List Symbol) : Nat := source.foldr (fun s n => s.size + n) 0

theorem size_written (source : List Symbol) : Text.size (written source) = writtenSize source := by
  induction source with
  | nil => rfl
  | cons s rest ih =>
    have one : '\\'.utf8Size = 1 := by decide
    cases s <;> simp_all [written, writtenSize, Text.size, Symbol.written, Symbol.size]
    omega

/-- The characters that have a meaning when they stand bare. -/
def isSpecial (c : Char) : Bool :=
  c ∈ ['\\', '%', '[', ']', '\x7b', '\x7d', ',', ';', '=', ':']

namespace Text

def escape (text : Text) : Text :=
  text.flatMap fun c => if isSpecial c then ['\\', c] else [c]

def unescape (text : Text) : Text := meant (symbols text)

end Text

end Stencil
