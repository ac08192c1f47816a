import Stencil.Text.Decimal
import Stencil.Text.Quoted

/-! # Diagnostics

What a pattern's author should know about the pattern. None of it stops the pattern from being
used. A list of diagnostics says each thing once, where it was first said. -/
namespace Stencil

inductive Diagnostic where
  | unterminatedParameter (position : Nat)
  | unterminatedTag (position : Nat)
  | strayText (position : Nat) (text : Text)
  | unknownFunction (name : Text)
  | unknownModifier (function modifier : Text)
  | legacyAlias (shortName canonical : Text)
  | versionMismatch (found : Text) (supported : Nat)
  | invalidDirectiveValue (directive value : Text)
  | trailingText (directive text : Text)
  | invalidNumber (function text : Text)
  | tooManyArguments (function : Text) (most : Nat)
  | missingArguments (function : Text) (least : Nat)
  | nestingTooDeep (maxDepth : Nat)
  deriving DecidableEq, Repr

namespace Diagnostic

/-- The same of a source that begins `base` bytes further on. -/
def rebase (base : Nat) : Diagnostic → Diagnostic
  | unterminatedParameter position => unterminatedParameter (base + position)
  | unterminatedTag position => unterminatedTag (base + position)
  | strayText position text => strayText (base + position) text
  | other => other

private def say (pieces : List Text) : Text := pieces.flatten

private def words (s : String) : Text := s.toList

def message : Diagnostic → Text
  | unterminatedParameter position =>
    say [words "Unterminated '%[' at offset ", Decimal.ofNat position, words "; treated as text"]
  | unterminatedTag position =>
    say [words "Unterminated '\x7b' at offset ", Decimal.ofNat position,
      words "; rest of parameter ignored"]
  | strayText position text =>
    say [words "Unexpected text ", text.quoted, words " at offset ", Decimal.ofNat position,
      words " ignored"]
  | unknownFunction name => say [words "Function '", name, words "' is not supported"]
  | unknownModifier function modifier =>
    say [words "Modifier '", modifier, words "' of '", function, words "' is not supported"]
  | legacyAlias shortName canonical =>
    say [words "'", shortName, words "' is deprecated legacy syntax; use '", canonical, words "'"]
  | versionMismatch found supported =>
    say [words "Pattern was written for version ", found,
      words "; this engine supports version ", Decimal.ofNat supported]
  | invalidDirectiveValue directive value =>
    say [words "Invalid value ", value.quoted, words " for '", directive, words "'; ignored"]
  | trailingText directive text =>
    say [words "Unused trailing text ", text.quoted, words " after '", directive, words "'"]
  | invalidNumber function text =>
    say [words "Expected a number for '", function, words "', found ", text.quoted]
  | tooManyArguments function most =>
    say [words "'", function, words "' takes at most ", Decimal.ofNat most,
      words " arguments; extras ignored"]
  | missingArguments function least =>
    say [words "'", function, words "' needs at least ", Decimal.ofNat least, words " arguments"]
  | nestingTooDeep maxDepth =>
    say [words "Patterns nested ", Decimal.ofNat maxDepth, words " levels deep are kept as text"]

end Diagnostic

abbrev Diagnostics := List Diagnostic

namespace Diagnostics

def push (entries : Diagnostics) (d : Diagnostic) : Diagnostics :=
  if d ∈ entries then entries else entries ++ [d]

def extend (entries more : Diagnostics) : Diagnostics := more.foldl push entries

/-- Each thing once. -/
def ofList (reports : List Diagnostic) : Diagnostics := extend [] reports

def rebase (base : Nat) (entries : Diagnostics) : Diagnostics := entries.map (.rebase base)

def messages (entries : Diagnostics) : List Text := entries.map (·.message)

/-- The messages on a line each. -/
def display (entries : Diagnostics) : Text := ['\n'].intercalate entries.messages

end Diagnostics

end Stencil
