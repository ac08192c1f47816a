import Stencil.Text.Basic

/-! # Functions

The functions that a tag can call. Each has a name, a short name from older patterns, and a
signature: the kinds of its arguments, of which the first few must be written. -/
namespace Stencil

inductive Kind where
  | int32
  | int64
  | text
  | nested
  deriving DecidableEq, Repr

structure Slot where
  kind : Kind
  /-- The argument is compared with its case even where the tag ignores case. -/
  keepsCase : Bool
  deriving DecidableEq, Repr

namespace Slot

def int32 : Slot := ⟨.int32, false⟩
def int64 : Slot := ⟨.int64, false⟩
def text : Slot := ⟨.text, false⟩
def nested : Slot := ⟨.nested, false⟩
def keptText : Slot := ⟨.text, true⟩

end Slot

structure Signature where
  name : String
  shortName : String
  slots : List Slot
  /-- Arguments that each group must have. -/
  least : Nat

inductive Function where
  | append
  | charset
  | contains
  | copy
  | delete
  | delimit
  | ends
  | equals
  | format
  | ifelse
  | insert
  | length
  | number32
  | number64
  | pattern
  | replace
  | resize
  | split
  | starts
  | strip
  | validate
  deriving DecidableEq, Repr

namespace Function

def signature : Function → Signature
  | append => ⟨"append", "ap", [.keptText, .keptText], 1⟩
  | charset => ⟨"charset", "cs", [.text], 1⟩
  | contains => ⟨"contains", "c", [.text], 1⟩
  | copy => ⟨"copy", "cp", [.keptText], 1⟩
  | delete => ⟨"delete", "x", [.text], 1⟩
  | delimit => ⟨"delimit", "d", [.text, .text, .keptText, .keptText], 1⟩
  | ends => ⟨"ends", "t", [.text], 1⟩
  | equals => ⟨"equals", "eq", [.text], 1⟩
  | format => ⟨"format", "f", [.nested], 1⟩
  | ifelse => ⟨"ifelse", "if", [.nested, .nested, .nested], 2⟩
  | insert => ⟨"insert", "i", [.int32, .keptText], 2⟩
  | length => ⟨"length", "l", [.int32, .int32], 1⟩
  | number32 => ⟨"number32", "n", [.int32, .int32], 1⟩
  | number64 => ⟨"number64", "nl", [.int64, .int64], 1⟩
  | pattern => ⟨"pattern", "pt", [.nested], 1⟩
  | replace => ⟨"replace", "r", [.text, .keptText], 1⟩
  | resize => ⟨"resize", "rs", [.int32, .keptText], 1⟩
  | split => ⟨"split", "sl", [.keptText, .nested, .keptText], 2⟩
  | starts => ⟨"starts", "s", [.text], 1⟩
  | strip => ⟨"strip", "sp", [.keptText], 0⟩
  | validate => ⟨"validate", "v", [.keptText, .nested], 2⟩

/-- All functions, in the order of their names. -/
def all : List Function :=
  [append, charset, contains, copy, delete, delimit, ends, equals, format, ifelse, insert, length,
   number32, number64, pattern, replace, resize, split, starts, strip, validate]

def name (f : Function) : Text := f.signature.name.toList

def shortName (f : Function) : Text := f.signature.shortName.toList

def slots (f : Function) : List Slot := f.signature.slots

/-- Arguments that each group must have. -/
def least (f : Function) : Nat := f.signature.least

def ofName? (name : Text) : Option Function := all.find? fun f => f.name = name

end Function

end Stencil
