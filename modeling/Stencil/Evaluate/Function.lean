import Stencil.Evaluate.Change
import Stencil.Evaluate.Meaning
import Stencil.Evaluate.Predicate

/-! # Evaluating a function

A function takes a span and the parameters. It yields the span it leaves, or none if it refuses,
and in either case the parameters it leaves. -/
namespace Stencil

namespace Call

/-- A condition keeps the span as it is. -/
def keepIf (condition : Bool) (span : Span) (params : Params) : Option Span × Params :=
  (if condition then some span else none, params)

def copy (group : Group Meaning) (span : Span) (params : Params) : Option Span × Params :=
  let name := group.text 0
  (some span, if name.isEmpty then params else params.insert name (.text span.text))

/-- The parameter named first is the text that the nested pattern renders. -/
def validate (options : FormatOptions) (group : Group Meaning) (span : Span) (params : Params) :
    Option Span × Params :=
  match group.nested? 1, params.resolve? (group.text 0) with
  | some expected, some actual =>
    let (text, params) := expected.render options span.text params
    keepIf (text.any ((group.casing 1).sameText actual)) span params
  | _, _ => (none, params)

def pattern (group : Group Meaning) (span : Span) (params : Params) : Option Span × Params :=
  match (group.nested? 0).bind (·.check span.text params) with
  | some (_, params) => (some span, params)
  | none => (none, params)

/-- The span rewritten to what a nested pattern renders for it. -/
def rewriteBy (nested : Meaning) (options : FormatOptions) (span : Span) (params : Params) :
    Option Span × Params :=
  let (text, params) := nested.render options span.text params
  (text.map span.rewrite, params)

def format (options : FormatOptions) (group : Group Meaning) (span : Span) (params : Params) :
    Option Span × Params :=
  match group.nested? 0 with
  | some nested => rewriteBy nested options span params
  | none => (none, params)

/-- A branch that is absent leaves the span as it is. -/
def branch (options : FormatOptions) (nested : Option Meaning) (span : Span) (params : Params) :
    Option Span × Params :=
  match nested with
  | some nested => rewriteBy nested options span params
  | none => (some span, params)

def ifelse (options : FormatOptions) (group : Group Meaning) (span : Span) (params : Params) :
    Option Span × Params :=
  match group.nested? 0 with
  | none => (none, params)
  | some condition =>
    match condition.check span.text params with
    | some (_, params) => branch options (group.nested? 1) span params
    | none => branch options (group.nested? 2) span params

/-- What joins the pieces of a split: the third argument, or the separator again. -/
def joiner (group : Group Meaning) : Text :=
  if group.isPresent 2 then group.text 2 else group.text 0

def split (options : FormatOptions) (group : Group Meaning) (span : Span) (params : Params) :
    Option Span × Params :=
  match group.nested? 1 with
  | none => (none, params)
  | some each =>
    let pieces := Casing.sensitive.between (group.text 0) span.text
    let (texts, params) := each.renderAll options pieces params
    (texts.map fun texts => span.rewrite ((joiner group).intercalate texts), params)

end Call

/-- Evaluate a call. The options are for what is formatted inside it. -/
def Function.evaluate (f : Function) (options : FormatOptions) (group : Group Meaning)
    (span : Span) (params : Params) : Option Span × Params :=
  match f with
  | append => (some (Change.append group span), params)
  | charset => Call.keepIf (Predicate.charset group span.text) span params
  | contains => Call.keepIf (Predicate.contains group span.text) span params
  | copy => Call.copy group span params
  | delete => (some (Change.delete group span), params)
  | delimit => (Change.delimit group span, params)
  | ends => Call.keepIf (Predicate.ends group span.text) span params
  | equals => Call.keepIf (Predicate.equals group span.text) span params
  | format => Call.format options group span params
  | ifelse => Call.ifelse options group span params
  | insert => (some (Change.insert group span), params)
  | length => Call.keepIf (Predicate.length group span.text) span params
  | number32 => Call.keepIf (Predicate.number32 group span.text) span params
  | number64 => Call.keepIf (Predicate.number64 group span.text) span params
  | pattern => Call.pattern group span params
  | replace => (some (Change.replace group span), params)
  | resize => (Change.resize group span, params)
  | split => Call.split options group span params
  | starts => Call.keepIf (Predicate.starts group span.text) span params
  | strip => (some (Change.strip group span), params)
  | validate => Call.validate options group span params

end Stencil
