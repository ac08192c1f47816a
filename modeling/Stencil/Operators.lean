import Stencil.Text.Search

/-! # Operators of a tag

A tag says how the results of its groups combine, whether the verdict is inverted and whether case
matters. The words for these accumulate: of two combinators, and of two words about case, the later
counts, and one inversion is enough. -/
namespace Stencil

inductive Combinator where
  | and
  | or
  | xor
  | xnor
  deriving DecidableEq, Repr

structure Operators where
  combinator? : Option Combinator
  negated : Bool
  casing? : Option Casing
  deriving DecidableEq, Repr

namespace Operators

def empty : Operators := ⟨none, false, none⟩

def combine (c : Combinator) : Operators := { empty with combinator? := c }

def negation : Operators := { empty with negated := true }

def casing (c : Casing) : Operators := { empty with casing? := c }

/-- The operators with those of one more word. -/
def apply (ops word : Operators) : Operators :=
  ⟨word.combinator? <|> ops.combinator?, ops.negated || word.negated,
    word.casing? <|> ops.casing?⟩

def applyAll (ops : Operators) (words : List Operators) : Operators := words.foldl apply ops

/-- Without a word for it, one accepting group is enough. -/
def combinator (ops : Operators) : Combinator := ops.combinator?.getD .or

/-- How the tag compares in a pattern that compares as given. -/
def casingIn (ops : Operators) (pattern : Casing) : Casing := ops.casing?.getD pattern

def modifiers : List (String × Operators) :=
  [("and", combine .and), ("all", combine .and), ("or", combine .or), ("any", combine .or),
   ("xor", combine .xor), ("one", combine .xor), ("xnor", combine .xnor), ("same", combine .xnor),
   ("not", negation), ("nand", apply (combine .and) negation),
   ("nor", apply (combine .or) negation), ("nxor", apply (combine .xor) negation),
   ("nxnor", apply (combine .xnor) negation), ("nocase", casing .insensitive),
   ("icase", casing .insensitive), ("case", casing .sensitive), ("forcecase", casing .sensitive)]

/-- The meaning of a modifier word, in any ASCII case. -/
def ofWord? (word : Text) : Option Operators :=
  modifiers.findSome? fun (known, ops) => if known.toList = word.lowerAscii then some ops else none

/-- The names of what is set, each with its bit. -/
def flags (ops : Operators) : List (String × Nat) :=
  (match ops.combinator? with
    | none => []
    | some .and => [("AND", 1)]
    | some .or => [("OR", 2)]
    | some .xor => [("XOR", 4)]
    | some .xnor => [("XNOR", 8)])
  ++ (if ops.negated then [("NOT", 16)] else [])
  ++ (match ops.casing? with
    | none => []
    | some .insensitive => [("NOCASE", 32)]
    | some .sensitive => [("FORCECASE", 64)])

def bits (ops : Operators) : Nat := ops.flags.foldr (fun flag n => flag.2 + n) 0

end Operators

end Stencil
