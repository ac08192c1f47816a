import Stencil.Compile
import Stencil.Example
import Stencil.Interpret

/-! # Sessions

A session holds numbered handles, each of which has a pattern that can be replaced, numbered
snapshots of patterns, which cannot, and one map of parameters. -/
namespace Stencil

structure Session where
  handles : List Pattern
  snapshots : List Pattern
  params : Params

namespace Session

def start (params : Params) : Session := ⟨[], [], params⟩

/-- Add a handle, numbered by the count of those before it. -/
def addHandle (s : Session) (p : Pattern) : Session := { s with handles := s.handles ++ [p] }

def addSnapshot (s : Session) (p : Pattern) : Session :=
  { s with snapshots := s.snapshots ++ [p] }

def handle? (s : Session) (h : Nat) : Option Pattern := s.handles[h]?

def snapshot? (s : Session) (n : Nat) : Option Pattern := s.snapshots[n]?

/-- Replace the pattern of a handle. -/
def assign (s : Session) (h : Nat) (p : Pattern) : Session :=
  { s with handles := s.handles.set h p }

/-- Compile a new source under the options that the handle has. -/
def update (s : Session) (h : Nat) (source : Text) : Session :=
  match s.handle? h with
  | some p => s.assign h (.compile source p.options)
  | none => s

def set (s : Session) (name : Text) (value : ParamValue) : Session :=
  { s with params := s.params.insert name value }

/-- Check a text; the map changes only if it matches. -/
def check (s : Session) (p : Pattern) (text : Text) : Option (List Span) × Session :=
  match p.check text s.params with
  | some (spans, params) => (some spans, { s with params })
  | none => (none, s)

def format (s : Session) (p : Pattern) (options : FormatOptions) :
    Option (List Span) × Session :=
  let (spans, params) := p.format options s.params
  (spans, { s with params })

end Session

end Stencil
