import Stencil.Evaluate.Delimit
import Stencil.Pattern
import Stencil.Span

/-! # Changes to a span

The functions that change a span by its own text and arguments alone. What only takes text away at
the ends narrows the span, so that it still knows its place. -/
namespace Stencil.Change

variable {π : Type}

def append (group : Group π) (span : Span) : Span :=
  span.rewrite (group.text 1 ++ span.text ++ group.text 0)

def delete (group : Group π) (span : Span) : Span :=
  span.rewrite ((group.casing 0).replaceAll (group.text 0) span.text [])

def replace (group : Group π) (span : Span) : Span :=
  span.rewrite ((group.casing 0).replaceAll (group.text 0) span.text (group.text 1))

/-- The place of insertion, counted from the end if negative and never outside the text. -/
def insertionIndex (position : Int) (length : Nat) : Nat :=
  if position < 0 then length - position.natAbs else min length position.toNat

def insert (group : Group π) (span : Span) : Span :=
  let position := ((group.int32? 0).map Int32.toInt).getD 0
  let index := insertionIndex position span.text.length
  span.rewrite (span.text.take index ++ group.text 1 ++ span.text.drop index)

/-- So many characters of a text repeated without end; of an empty text, spaces. -/
def repeated (text : Text) (count : Nat) : Text :=
  (List.range count).map fun i => text.getD (i % text.length) ' '

/-- Truncate or pad to `|length|` characters, at the end or, if negative, at the start. -/
def resizeTo (length : Int) (pad : Text) (span : Span) : Span :=
  let target := length.natAbs
  let current := span.text.length
  if target < current then
    if 0 ≤ length then span.narrow ⟨[], span.text.take target, span.text.drop target⟩
    else span.narrow ⟨span.text.take (current - target), span.text.drop (current - target), []⟩
  else
    let padding := repeated pad (target - current)
    span.rewrite (if 0 ≤ length then span.text ++ padding else padding ++ span.text)

def resize (group : Group π) (span : Span) : Option Span :=
  (group.int32? 0).map fun length => resizeTo length.toInt (group.text 1) span

/-- A text without the characters `p` at both ends. -/
def stripCut (p : Char → Bool) (text : Text) : Cut :=
  let rest := text.dropWhile p
  let kept := Text.trimEnd p rest
  ⟨text.takeWhile p, kept, rest.drop kept.length⟩

def strip (group : Group π) (span : Span) : Span :=
  let set := group.text 0
  let p := if set.isEmpty then isBlank else (group.casing 0).memberOf set
  span.narrow (stripCut p span.text)

def delimit (group : Group π) (span : Span) : Option Span :=
  let flags := DelimitFlags.ofText (group.text 1)
  (flags.extract? (group.casing 0) (group.text 0) (group.text 2) (group.text 3) span.text).map
    span.narrow

end Stencil.Change
