import Stencil.Compile.Arguments
import Stencil.Function.Resolution

/-! # Clauses of a parameter

A clause has a head, and arguments behind the first bare equals sign or colon. The head is a name
with modifiers in parentheses before or after it. Three names are directives; every other name is
that of a tag, known or not. -/
namespace Stencil

/-- The version of the pattern language. -/
def languageVersion : Nat := 2

inductive Directive where
  | version
  | fixedLength
  | minLength
  deriving DecidableEq, Repr

namespace Directive

def name : Directive → Text
  | version => "sdexversion".toList
  | fixedLength => "paramlengthfixed".toList
  | minLength => "paramlengthmin".toList

def names : List (String × Directive) :=
  [("sdexversion", version), ("paramlengthfixed", fixedLength), ("plf", fixedLength),
   ("paramlengthmin", minLength), ("plm", minLength)]

def ofName? (name : Text) : Option Directive :=
  names.findSome? fun (known, d) => if known.toList = name then some d else none

end Directive

/-- What a clause adds to its parameter. -/
inductive Clause (π : Type) where
  | tag (tag : Tag π)
  | fixed (length : Nat)
  | min (length : Nat)
  | nothing

namespace Clause

/-- A head as name and modifiers: `(modifiers)name`, `name(modifiers)` or a name alone. -/
def splitHead (head : Text) : Text × Text :=
  let head := head.trim
  let leading := match head with
    | '(' :: rest =>
      match rest.dropWhile (· ≠ ')') with
      | _ :: name => some (Text.trim name, rest.takeWhile (· ≠ ')'))
      | [] => none
    | _ => none
  match leading, head.dropWhile (· ≠ '(') with
  | some split, _ => split
  | none, [] => (head, [])
  | none, _ :: modifiers =>
    (Text.trim (head.takeWhile (· ≠ '(')),
      if modifiers.getLast? = some ')' then modifiers.dropLast else modifiers)

def modifierWords (modifiers : Text) : List Text :=
  modifiers.words fun c => c = ',' || c = '|' || isBlank c

def version (value : Text) : List Diagnostic :=
  let value := value.trim
  match Decimal.below? UInt32.size (value.takeWhile (· ≠ '.')) with
  | none => [.invalidDirectiveValue Directive.version.name value]
  | some major =>
    if major = languageVersion then [] else [.versionMismatch value languageVersion]

/-- The digits in front give the length; lengths fit in 64 bits. -/
def length (directive : Text) (value : Text) : Reported (Option Nat) :=
  let value := value.trim
  match Decimal.unsigned? (value.takeWhile Char.isDigit) with
  | none => ⟨none, [.invalidDirectiveValue directive value]⟩
  | some n =>
    if n < UInt64.size then
      let trailing := Text.trim (value.dropWhile Char.isDigit)
      ⟨some n, if trailing.isEmpty then [] else [.trailingText directive trailing]⟩
    else ⟨none, [.invalidDirectiveValue directive value]⟩

variable {π : Type}

def directive (d : Directive) (value : Text) : Reported (Clause π) :=
  match d with
  | .version => ⟨nothing, version value⟩
  | .fixedLength => (length d.name value).map fun n => (n.map fixed).getD nothing
  | .minLength => (length d.name value).map fun n => (n.map min).getD nothing

def nameReports (name : Text) : Option Resolution → List Diagnostic
  | none => [.unknownFunction name]
  | some ⟨f, some _⟩ => [.legacyAlias name f.name]
  | some ⟨_, none⟩ => []

def wordReports (name : Text) (words : List Text) : List Diagnostic :=
  (words.filter fun word => (Operators.ofWord? word).isNone).map (.unknownModifier name)

/-- The operators of a short name, then those of the known words. -/
def operators (resolution : Option Resolution) (words : List Text) : Operators :=
  ((resolution.bind (·.legacy)).getD .empty).applyAll (words.filterMap Operators.ofWord?)

/-- Reads a nested pattern that begins at a position. -/
abbrev Nest (π : Type) := Nat → List Symbol → Reported π

def call (options : Options) (nested : Nest π) (name modifiers : Text)
    (position : Nat) (arguments : List Symbol) : Reported (Clause π) :=
  let resolution := Resolution.ofName? options.casing name
  let words := modifierWords modifiers
  let ops := operators resolution words
  let groups : Reported (List (Group π)) := match resolution with
    | some r => (Site.mk r.function (ops.casingIn options.casing) nested).groups position arguments
    | none => .silent []
  (groups.map fun groups => tag ⟨name, resolution.map (·.function), ops, groups⟩).after
    (nameReports name resolution ++ wordReports name words)

/-- A clause whose body begins at a position. -/
def compile (options : Options) (nested : Nest π) (position : Nat) (body : List Symbol) :
    Reported (Clause π) :=
  let (head, arguments, start) := match splitBare? ['=', ':'] body with
    | some (head, arguments) => (head, arguments, position + writtenSize head + 1)
    | none => (body, [], position + writtenSize body)
  let (name, modifiers) := splitHead (written head)
  let name := name.lower
  match Directive.ofName? name with
  | some d => directive d (written arguments)
  | none => call options nested name modifiers start arguments

end Clause

end Stencil
