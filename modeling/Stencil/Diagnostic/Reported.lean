import Stencil.Diagnostic

/-! # Values with diagnostics

A value together with what there was to say while it was made, in the order in which it was said. -/
namespace Stencil

structure Reported (α : Type) where
  value : α
  reports : List Diagnostic

namespace Reported

variable {α β : Type}

def silent (value : α) : Reported α := ⟨value, []⟩

def map (f : α → β) (r : Reported α) : Reported β := ⟨f r.value, r.reports⟩

/-- Said before everything else. -/
def after (r : Reported α) (reports : List Diagnostic) : Reported α :=
  ⟨r.value, reports ++ r.reports⟩

def collect (rs : List (Reported α)) : Reported (List α) :=
  ⟨rs.map (·.value), rs.flatMap (·.reports)⟩

end Reported

end Stencil
