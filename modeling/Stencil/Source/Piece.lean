import Stencil.Source.Bracket

/-! # Pieces of a source

A pattern's source in pieces: single symbols, whole parameters, and the openings of parameters that
never end. The body of a parameter behind its name in pieces: its clauses, text that belongs to
none, and a clause that never ends. The pieces written one after another are the source. -/
namespace Stencil

inductive Piece where
  | symbol (s : Symbol)
  /-- The two characters that would open a parameter. -/
  | opener
  | parameter (body : List Symbol)
  deriving DecidableEq, Repr

namespace Piece

def symbols : Piece → List Symbol
  | symbol s => [s]
  | opener => [.bare '%', .bare '[']
  | parameter body => .bare '%' :: .bare '[' :: body ++ [.bare ']']

def ofSource : List Symbol → List Piece
  | [] => []
  | .bare '%' :: .bare '[' :: rest =>
    match _found : Bracket.square.splitEnd? [] rest with
    | some (body, after) => parameter body :: ofSource after
    | none => opener :: ofSource rest
  | s :: rest => symbol s :: ofSource rest
termination_by source => source.length
decreasing_by
  · have := Bracket.length_of_splitEnd? _found
    simp only [List.length_cons]
    omega
  · simp only [List.length_cons]
    omega
  · simp only [List.length_cons]
    omega

end Piece

inductive BodyPiece where
  | stray (text : List Symbol)
  | clause (body : List Symbol)
  | unended (text : List Symbol)
  deriving DecidableEq, Repr

namespace BodyPiece

def symbols : BodyPiece → List Symbol
  | stray text => text
  | clause body => .bare '\x7b' :: body ++ [.bare '\x7d']
  | unended text => .bare '\x7b' :: text

/-- One more symbol in front that belongs to no clause. -/
def addStray (s : Symbol) : List BodyPiece → List BodyPiece
  | stray text :: rest => stray (s :: text) :: rest
  | pieces => stray [s] :: pieces

def ofSource : List Symbol → List BodyPiece
  | [] => []
  | s :: rest =>
    if s = .bare '\x7b' then
      match _found : Bracket.curly.splitEnd? [] rest with
      | some (body, after) => clause body :: ofSource after
      | none => [unended rest]
    else addStray s (ofSource rest)
termination_by source => source.length
decreasing_by
  · have := Bracket.length_of_splitEnd? _found
    simp only [List.length_cons]
    omega
  · simp only [List.length_cons]
    omega

end BodyPiece

/-- The name of a parameter, and its body behind the name. -/
def splitName (body : List Symbol) : List Symbol × List Symbol :=
  (body.takeWhile (· ≠ .bare '\x7b'), body.dropWhile (· ≠ .bare '\x7b'))

/-- Things with their positions, when each begins where the one before ends. -/
def placed {α : Type} (symbols : α → List Symbol) (position : Nat) : List α → List (Nat × α)
  | [] => []
  | piece :: rest =>
    (position, piece) :: placed symbols (position + writtenSize (symbols piece)) rest

end Stencil
