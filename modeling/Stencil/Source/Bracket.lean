import Stencil.Escape

/-! # Brackets in a source

Square and curly brackets nest. A closing bracket closes everything opened since its own opening
bracket, so that one forgotten bracket does not hide the next one's end; a closing bracket without
an opening one changes nothing. -/
namespace Stencil

inductive Bracket where
  | square
  | curly
  deriving DecidableEq, Repr

/-- Brackets opened and not yet closed, the innermost first. -/
abbrev Nesting := List Bracket

namespace Bracket

def opened? : Symbol → Option Bracket
  | .bare '[' => some square
  | .bare '\x7b' => some curly
  | _ => none

def closed? : Symbol → Option Bracket
  | .bare ']' => some square
  | .bare '\x7d' => some curly
  | _ => none

def close (b : Bracket) (nesting : Nesting) : Nesting :=
  match nesting.dropWhile (· ≠ b) with
  | [] => nesting
  | _ :: outer => outer

/-- The nesting behind a symbol. -/
def pass (nesting : Nesting) (s : Symbol) : Nesting :=
  match opened? s, closed? s with
  | some b, _ => b :: nesting
  | none, some b => close b nesting
  | none, none => nesting

/-- Whether the symbol closes `b` and nothing that was opened inside. -/
def isEnd (b : Bracket) (nesting : Nesting) (s : Symbol) : Bool :=
  closed? s = some b && b ∉ nesting

/-- What stands before the end of an open bracket `b`, and after it. -/
def splitEnd? (b : Bracket) : Nesting → List Symbol → Option (List Symbol × List Symbol)
  | _, [] => none
  | nesting, s :: rest =>
    if b.isEnd nesting s then some ([], rest)
    else (b.splitEnd? (pass nesting s) rest).map fun (inner, outer) => (s :: inner, outer)

theorem length_of_splitEnd? {b : Bracket} {nesting : Nesting} {source inner outer : List Symbol}
    (h : b.splitEnd? nesting source = some (inner, outer)) :
    source.length = inner.length + 1 + outer.length := by
  induction source generalizing nesting inner with
  | nil => simp [splitEnd?] at h
  | cons s rest ih =>
    simp only [splitEnd?] at h
    split at h
    · cases h; simp; omega
    · obtain ⟨⟨i, o⟩, found, same⟩ := Option.map_eq_some_iff.1 h
      cases same
      have := ih found
      simp only [List.length_cons] at *
      omega

end Bracket

/-- Pieces of a source between bare separators that stand outside all brackets. -/
def splitOutside (separator : Char) : Nesting → List Symbol → List (List Symbol)
  | _, [] => [[]]
  | nesting, s :: rest =>
    if s = .bare separator ∧ nesting = [] then [] :: splitOutside separator nesting rest
    else (splitOutside separator (Bracket.pass nesting s) rest).modifyHead (s :: ·)

/-- What stands before the first bare one of some characters, and after it. -/
def splitBare? (targets : List Char) : List Symbol → Option (List Symbol × List Symbol)
  | [] => none
  | s :: rest =>
    if targets.any (s = .bare ·) then some ([], rest)
    else (splitBare? targets rest).map fun (before, after) => (s :: before, after)

/-- Pieces with their positions, where one byte separates each piece from the next. -/
def located (position : Nat) : List (List Symbol) → List (Nat × List Symbol)
  | [] => []
  | piece :: rest => (position, piece) :: located (position + writtenSize piece + 1) rest

end Stencil
