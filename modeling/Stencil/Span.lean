import Stencil.Text.Basic

/-! # Spans

A piece of a result together with the place in the source that it came from. While a span's text
is still what the source says there, cutting the text cuts the place as well; once it has been
rewritten the place stays. -/
namespace Stencil

inductive Origin where
  | literal
  | parameter (name : Text)
  deriving DecidableEq, Repr

structure Span where
  text : Text
  /-- First byte of the source. -/
  start : Nat
  /-- Bytes of the source. -/
  length : Nat
  origin : Origin
  rewritten : Bool
  deriving DecidableEq, Repr

namespace Span

def literal (text : Text) (start length : Nat) : Span := ⟨text, start, length, .literal, false⟩

def parameter (name text : Text) (start : Nat) : Span :=
  ⟨text, start, text.size, .parameter name, false⟩

def isParameter (span : Span) : Bool :=
  match span.origin with
  | .literal => false
  | .parameter _ => true

/-- The name of a parameter that has one. -/
def name? (span : Span) : Option Text :=
  match span.origin with
  | .literal => none
  | .parameter name => if name.isEmpty then none else some name

def range (span : Span) : ByteRange := ⟨span.start, span.start + span.length⟩

/-- Keep the middle of a cut of the text. -/
def narrow (span : Span) (cut : Cut) : Span :=
  if span.rewritten then { span with text := cut.kept }
  else { span with
    text := cut.kept
    start := span.start + cut.before.size
    length := cut.kept.size }

def narrow? (span : Span) (r : ByteRange) : Option Span := (span.text.cut? r).map span.narrow

/-- Replace the text; the same text again is no rewriting. -/
def rewrite (span : Span) (text : Text) : Span :=
  if text = span.text then span else { span with text := text, rewritten := true }

def render (spans : List Span) : Text := spans.flatMap Span.text

end Span

end Stencil
