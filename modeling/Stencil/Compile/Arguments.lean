import Stencil.Diagnostic.Reported
import Stencil.Pattern
import Stencil.Source.Bracket
import Stencil.Text.Blank

/-! # Arguments of a tag

Semicolons separate groups and commas the components of a group. A function's signature says how
each component is read. -/
namespace Stencil

/-- What the arguments of a tag are read under. -/
structure Site (π : Type) where
  function : Function
  casing : Casing
  /-- Read a nested pattern that begins at a position. -/
  nested : Nat → List Symbol → Reported π

namespace Site

variable {π α : Type}

/-- A blank number is absent, and so is a malformed one. -/
def number (site : Site π) (read? : Text → Option α) (raw : List Symbol) :
    Reported (Option α) :=
  let text := Text.trim (meant raw)
  if text.isEmpty then .silent none
  else match read? text with
    | some n => .silent (some n)
    | none => ⟨none, [.invalidNumber site.function.name text]⟩

def value (site : Site π) (kind : Kind) (position : Nat) (raw : List Symbol) :
    Reported (Option (Value π)) :=
  match kind with
  | .int32 => (site.number Decimal.int32? raw).map (Option.map .int32)
  | .int64 => (site.number Decimal.int64? raw).map (Option.map .int64)
  | .text => .silent (some (.text (meant raw)))
  | .nested => (site.nested position raw).map fun p => some (.nested p)

def component (site : Site π) (slot : Slot) (position : Nat) (raw : List Symbol) :
    Reported (Option (Component π)) :=
  (site.value slot.kind position raw).map <| Option.map fun value =>
    ⟨value, if slot.keepsCase then .sensitive else site.casing⟩

/-- The components as they are written; an empty group has none. -/
def components (source : List Symbol) : List (List Symbol) :=
  if source.isEmpty then [] else splitOutside ',' [] source

def countReports (site : Site π) (count : Nat) : List Diagnostic :=
  (if site.function.slots.length < count then
    [.tooManyArguments site.function.name site.function.slots.length] else [])
  ++ (if count < site.function.least then
    [.missingArguments site.function.name site.function.least] else [])

def group (site : Site π) (position : Nat) (source : List Symbol) : Reported (Group π) :=
  let raw := located position (components source)
  let read := Reported.collect <|
    (raw.zip site.function.slots).map fun ((position, raw), slot) =>
      site.component slot position raw
  (read.map Group.mk).after (site.countReports raw.length)

def groups (site : Site π) (position : Nat) (source : List Symbol) : Reported (List (Group π)) :=
  Reported.collect <|
    (located position (splitOutside ';' [] source)).map fun (position, source) =>
      site.group position source

end Site

end Stencil
