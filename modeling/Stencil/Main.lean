import Stencil.CommandLine.Run

/-! # The program

Reads the standard input where the command checks its lines, runs the command and writes the
result. -/
open Stencil CommandLine

def readsInput (arguments : List Text) : Bool :=
  match Command.ofArguments arguments with
  | .ok command => command.verb = .check && command.input.isNone
  | .error _ => false

def main (arguments : List String) : IO UInt32 := do
  let arguments := arguments.map String.toList
  let stdin ← if readsInput arguments then (← IO.getStdin).readToEnd else pure ""
  match run arguments stdin.toList with
  | some result =>
    IO.print (String.ofList result.out)
    IO.eprint (String.ofList result.err)
    return result.status.toUInt32
  | none =>
    IO.eprintln "There is no such text"
    return 101
