import Stencil.CommandLine.Arguments
import Stencil.Compile
import Stencil.Example
import Stencil.Interpret

/-! # Running a command

A command writes what it finds to the standard output and its warnings and errors to the standard
error output. -/
namespace Stencil.CommandLine

structure Result where
  status : Nat
  out : Text
  err : Text
  deriving DecidableEq, Repr

def line (text : Text) : Text := text ++ ['\n']

/-- The lines of a text, each without its end; a carriage return belongs to a line's end. -/
def lines (text : Text) : List Text :=
  let fields := text.fields (· = '\n')
  let ended := fields.dropLast.map fun l => if l.getLast? = some '\r' then l.dropLast else l
  match fields.getLast? with
  | none | some [] => ended
  | some rest => ended ++ [rest]

def warnings (p : Pattern) : Text :=
  p.diagnostics.flatMap fun d => line ("warning: ".toList ++ d.message)

def showOperators (ops : Operators) : Text :=
  let names := ops.flags.map (·.1.toList)
  "Operators(".toList
    ++ (if names.isEmpty then "0x0".toList else " | ".toList.intercalate names) ++ [')']

def showTag (tag : Tag Pattern) : Text :=
  "  tag ".toList ++ tag.name ++ (if tag.function.isSome then [] else " (unknown)".toList)
    ++ [' '] ++ showOperators tag.operators
    ++ " groups=".toList ++ Decimal.ofNat tag.groups.length

def showLength (label : String) : Option Nat → Text
  | some n => label.toList ++ Decimal.ofNat n
  | none => []

def showPart : Part Pattern → Text
  | .literal l => line ("literal ".toList ++ l.text.quoted)
  | .parameter p =>
    line ("param ".toList ++ p.name.quoted ++ showLength " fixed=" p.fixed
      ++ showLength " min=" p.min)
    ++ p.tags.flatMap fun tag => line (showTag tag)

/-- Whether a text matches, and the line that says what was captured. -/
def checkLine (p : Pattern) (text : Text) : Bool × Text :=
  match p.check text .empty with
  | none => (false, line "no match".toList)
  | some (_, params) =>
    let captures := p.layer.parameterNames.map fun name =>
      name ++ ['='] ++ Text.quoted ((params.resolve? name).getD [])
    (true, line ([' '].intercalate captures))

/-- There is no result where an example is asked for and there is none. -/
def Command.run (c : Command) (stdin : Text) : Option Result :=
  let p := Pattern.compile c.pattern c.options
  let err := warnings p
  match c.verb with
  | .compile => some ⟨0, p.parts.flatMap showPart, err⟩
  | .check =>
    let texts := match c.input with
      | some text => [text]
      | none => lines stdin
    let results := texts.map (checkLine p)
    some ⟨if results.all (·.1) then 0 else 1, results.flatMap (·.2), err⟩
  | .format =>
    match (p.formatText c.formatOptions (.ofList c.bindings)).1 with
    | some text => some ⟨0, line text, err⟩
    | none => some ⟨1, [], err ++
        line "Error: Pattern could not be rendered from the given parameters".toList⟩
  | .sample => p.sample.map fun text => ⟨0, line text, err⟩

def helpText : Text :=
  line "Usage: sdex [OPTIONS] <COMMAND>".toList ++ ['\n']
  ++ line "Commands:".toList
  ++ line "  compile  Show the compiled parts of a pattern".toList
  ++ line "  check    Match input against a pattern and print the captures".toList
  ++ line "  format   Render a pattern from parameter values".toList
  ++ line "  example  Print a sample input for a pattern".toList
  ++ line "  help     Print this message".toList ++ ['\n']
  ++ line "Options:".toList
  ++ line "  -i, --ignore-case    Compare literals and tag arguments case-insensitively".toList
  ++ line "      --max-depth <N>  Maximum pattern nesting depth [default: 64]".toList
  ++ line "  -h, --help           Print help".toList
  ++ line "  -V, --version        Print version".toList

def Stop.result : Stop → Result
  | .usage => ⟨2, [], helpText⟩
  | .help => ⟨0, helpText, []⟩
  | .version => ⟨0, line "sdex 0.1.0".toList, []⟩

/-- The result for some arguments and a standard input. -/
def run (arguments : List Text) (stdin : Text) : Option Result :=
  match Command.ofArguments arguments with
  | .ok command => command.run stdin
  | .error stop => some stop.result

end Stencil.CommandLine
