import Stencil.Compile.Clause
import Stencil.Pattern.Fold
import Stencil.Source.Piece

/-! # Compiling a source

Every source is a pattern: what is malformed is kept as text or left out, and reported. Nested
sources are compiled in the same way down to a greatest depth, below which they are text. -/
namespace Stencil

variable {π : Type}

namespace Parameter

def add (p : Parameter π) : Clause π → Parameter π
  | .tag tag => { p with tags := p.tags ++ [tag] }
  | .fixed n => { p with fixed := n }
  | .min n => { p with min := n }
  | .nothing => p

def bodyPiece (options : Options) (nested : Clause.Nest π) (position : Nat) :
    BodyPiece → Reported (Clause π)
  | .stray text =>
    ⟨.nothing, if (written text).isAllBlank then [] else [.strayText position (written text)]⟩
  | .clause body => Clause.compile options nested (position + 1) body
  | .unended _ => ⟨.nothing, [.unterminatedTag position]⟩

/-- The parameter whose opening is at a position. -/
def compile (options : Options) (nested : Clause.Nest π) (position : Nat) (body : List Symbol) :
    Reported (Parameter π) :=
  let (name, rest) := splitName body
  let pieces := placed BodyPiece.symbols (position + 2 + writtenSize name) (BodyPiece.ofSource rest)
  let clauses := Reported.collect <| pieces.map fun (position, piece) =>
    bodyPiece options nested position piece
  clauses.map fun clauses => clauses.foldl add
    { name := meant name
      tags := []
      fixed := none
      min := none
      source := ⟨position, position + writtenSize body + 3⟩ }

end Parameter

namespace Part

/-- Put a part in front; a literal joins a literal that follows it. -/
def join : Part π → List (Part π) → List (Part π)
  | .literal l, .literal m :: rest =>
    .literal ⟨l.text ++ m.text, l.casing, ⟨l.source.start, m.source.stop⟩⟩ :: rest
  | part, rest => part :: rest

def compile (options : Options) (nested : Clause.Nest π) (position : Nat) :
    Piece → Reported (Part π)
  | .symbol s =>
    .silent (.literal ⟨[s.meant], options.casing, ⟨position, position + writtenSize [s]⟩⟩)
  | .opener =>
    ⟨.literal ⟨['%', '['], options.casing, ⟨position, position + 2⟩⟩,
      [.unterminatedParameter position]⟩
  | .parameter body => (Parameter.compile options nested position body).map .parameter

end Part

namespace Layer

def compile (options : Options) (nested : Clause.Nest π) (source : List Symbol) : Layer π :=
  let pieces := placed Piece.symbols 0 (Piece.ofSource source)
  let parts := Reported.collect <| pieces.map fun (position, piece) =>
    Part.compile options nested position piece
  { source := written source
    parts := parts.value.foldr Part.join []
    diagnostics := .ofList parts.reports
    options }

end Layer

namespace Pattern

/-- A nested source where so many levels are left below the enclosing pattern. -/
def compileNested (options : Options) : (levels : Nat) → Clause.Nest Pattern
  | 0, _, source =>
    ⟨literal (meant source) options, [.nestingTooDeep options.maxDepth]⟩
  | levels + 1, position, source =>
    let pattern := of (.compile options (compileNested options levels) source)
    ⟨pattern, pattern.diagnostics.rebase position⟩

def compileSymbols (options : Options) (source : List Symbol) : Pattern :=
  of (.compile options (compileNested options (options.maxDepth - 1)) source)

def compile (source : Text) (options : Options) : Pattern :=
  compileSymbols options (symbols source)

end Pattern

end Stencil
