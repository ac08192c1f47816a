import Stencil.Evaluate.Meaning
import Stencil.Pattern
import Stencil.Text.Blank

/-! # Arguments of the command line

The arguments are switches and a command with switches and values of its own. Two switches are
understood in both places; where both give a value, the command's counts. -/
namespace Stencil.CommandLine

inductive Switch where
  | ignoreCase
  | maxDepth
  | help
  | version
  | param
  | ignoreMissing
  | ignoreTagFailure
  | removeConsumed
  deriving DecidableEq, Repr

namespace Switch

def long : Switch → String
  | ignoreCase => "ignore-case"
  | maxDepth => "max-depth"
  | help => "help"
  | version => "version"
  | param => "param"
  | ignoreMissing => "ignore-missing"
  | ignoreTagFailure => "ignore-tag-failure"
  | removeConsumed => "remove-consumed"

def short? : Switch → Option Char
  | ignoreCase => some 'i'
  | help => some 'h'
  | version => some 'V'
  | param => some 'p'
  | _ => none

def takesValue : Switch → Bool
  | maxDepth => true
  | param => true
  | _ => false

/-- Given more than once, only bindings add up. -/
def repeats : Switch → Bool
  | param => true
  | _ => false

end Switch

inductive Verb where
  | compile
  | check
  | format
  | sample
  deriving DecidableEq, Repr

namespace Verb

def all : List Verb := [compile, check, format, sample]

def name : Verb → String
  | compile => "compile"
  | check => "check"
  | format => "format"
  | sample => "example"

def ofName? (name : Text) : Option Verb := all.find? (·.name.toList = name)

def switches : Verb → List Switch
  | format => [.ignoreCase, .maxDepth, .help, .param, .ignoreMissing, .ignoreTagFailure,
      .removeConsumed]
  | _ => [.ignoreCase, .maxDepth, .help]

/-- How many values the verb takes at most. -/
def most : Verb → Nat
  | check => 2
  | _ => 1

end Verb

/-- Why the arguments ask for no command. -/
inductive Stop where
  | usage
  | help
  | version
  deriving DecidableEq, Repr

inductive Word where
  /-- Everything after it is a value. -/
  | terminator
  | long (name : Text) (value : Option Text)
  | cluster (letters : Text)
  | plain (text : Text)
  deriving DecidableEq, Repr

namespace Word

/-- A text at its first equals sign. -/
def splitBinding (text : Text) : Text × Option Text :=
  match text.dropWhile (· ≠ '=') with
  | [] => (text, none)
  | _ :: value => (text.takeWhile (· ≠ '='), some value)

def ofText : Text → Word
  | ['-', '-'] => terminator
  | '-' :: '-' :: rest =>
    let (name, value) := splitBinding rest
    long name value
  | '-' :: c :: rest => cluster (c :: rest)
  | text => plain text

end Word

/-- What has been given so far. -/
structure Given where
  switches : List (Switch × Text)
  values : List Text

namespace Given

def empty : Given := ⟨[], []⟩

def has (g : Given) (s : Switch) : Bool := g.switches.any (·.1 = s)

def value? (g : Given) (s : Switch) : Option Text := g.switches.lookup s

/-- A value that the switch can take. -/
def isValid (s : Switch) (value : Text) : Bool :=
  match s with
  | .maxDepth => (Decimal.below? UInt64.size value).isSome
  | .param => (Word.splitBinding value).2.isSome
  | _ => true

def give (g : Given) (s : Switch) (value : Text) : Except Stop Given :=
  if s = .help then .error .help
  else if s = .version then .error .version
  else if !isValid s value || (g.has s && !s.repeats) then .error .usage
  else .ok { g with switches := g.switches ++ [(s, value)] }

def addValue (most : Nat) (g : Given) (value : Text) : Except Stop Given :=
  if g.values.length < most then .ok { g with values := g.values ++ [value] } else .error .usage

/-- Letters of a cluster; a switch with a value takes the rest, or waits for the next word. -/
def giveLetters (known : List Switch) : Given → Text → Except Stop (Given × Option Switch)
  | g, [] => .ok (g, none)
  | g, letter :: rest =>
    match known.find? (·.short? = some letter) with
    | none => .error .usage
    | some s =>
      if s.takesValue then
        match rest with
        | [] => .ok (g, some s)
        | '=' :: value => do return (← g.give s value, none)
        | value => do return (← g.give s value, none)
      else do giveLetters known (← g.give s []) rest

def giveLong (known : List Switch) (g : Given) (name : Text) (value : Option Text) :
    Except Stop (Given × Option Switch) :=
  match known.find? (·.long.toList = name), value with
  | none, _ => .error .usage
  | some s, some value =>
    if s.takesValue then do return (← g.give s value, none) else .error .usage
  | some s, none => if s.takesValue then .ok (g, some s) else do return (← g.give s [], none)

/-- Read words while there is room for values. A switch may wait for its value. Yields what was
given and the words left over. -/
def read (known : List Switch) (most : Nat) :
    Given → Option Switch → List Text → Except Stop (Given × List Text)
  | g, none, [] => .ok (g, [])
  | _, some _, [] => .error .usage
  | g, some s, word :: rest =>
    match Word.ofText word with
    | .plain value => do read known most (← g.give s value) none rest
    | _ => .error .usage
  | g, none, word :: rest =>
    match Word.ofText word with
    | .terminator => do return (← rest.foldlM (addValue most) g, [])
    | .long name value => do
      let (g, waiting) ← giveLong known g name value
      read known most g waiting rest
    | .cluster letters => do
      let (g, waiting) ← giveLetters known g letters
      read known most g waiting rest
    | .plain value =>
      if g.values.length < most then
        read known most { g with values := g.values ++ [value] } none rest
      else .ok (g, word :: rest)

end Given

structure Command where
  verb : Verb
  options : Options
  pattern : Text
  /-- The text to check; without it the lines of the standard input are checked. -/
  input : Option Text
  bindings : List Entry
  formatOptions : FormatOptions

namespace Command

def bindings? (g : Given) : List Entry :=
  g.switches.filterMap fun (s, value) =>
    match s, Word.splitBinding value with
    | .param, (name, some value) => some (name, .text value)
    | _, _ => none

/-- The command that was given, and what was given in front of it. -/
def ofGiven (verb : Verb) (front given : Given) : Except Stop Command :=
  match given.values with
  | [] => .error .usage
  | pattern :: more =>
    let depth := (given.value? .maxDepth <|> front.value? .maxDepth).bind (Decimal.below? UInt64.size)
    .ok {
      verb
      options := {
        casing := .ignoredIf (front.has .ignoreCase || given.has .ignoreCase)
        maxDepth := depth.getD ({} : Options).maxDepth }
      pattern
      input := more.head?
      bindings := bindings? given
      formatOptions :=
        ⟨given.has .ignoreMissing, given.has .ignoreTagFailure, given.has .removeConsumed⟩ }

/-- The command `help` takes at most the name of one command. -/
def help : List Text → Stop
  | [] => .help
  | [name] => if name = "help".toList || (Verb.ofName? name).isSome then .help else .usage
  | _ => .usage

def ofArguments (arguments : List Text) : Except Stop Command := do
  let (front, rest) ← Given.read [.ignoreCase, .maxDepth, .help, .version] 0 .empty none arguments
  match rest with
  | [] => .error .usage
  | name :: rest =>
    if name = "help".toList then .error (help rest)
    else match Verb.ofName? name with
      | none => .error .usage
      | some verb => do
        let (given, extra) ← Given.read verb.switches verb.most .empty none rest
        if extra.isEmpty then ofGiven verb front given else .error .usage

end Command

end Stencil.CommandLine
