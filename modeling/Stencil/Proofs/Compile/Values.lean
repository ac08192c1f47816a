import Stencil.Proofs.Compile.Nested

/-! # Values do not depend on reports

Of a nested pattern compiling uses the value and passes the reports on. So the parts of a level are
decided by its source, by how it compares and by the values that are read of the nested patterns;
what is reported of those, and how deep they may nest, makes no difference (`Layer.parts_congr`). -/
namespace Stencil

variable {π : Type}

/-- The same pattern is read, though something else may be reported of it. -/
def Clause.Nest.SameValues (nested other : Clause.Nest π) : Prop :=
  ∀ position raw, (nested position raw).value = (other position raw).value

theorem Reported.collect_value_congr {α γ : Type} {read other : γ → Reported α}
    (h : ∀ x, (read x).value = (other x).value) (xs : List γ) :
    (collect (xs.map read)).value = (collect (xs.map other)).value := by
  simp only [collect, List.map_map]
  refine List.map_congr_left ?_
  intro x _
  exact h x

namespace Site

variable {nested other : Clause.Nest π} (h : nested.SameValues other) (function : Function)
  (casing : Casing) (position : Nat)

include h

theorem value_congr (kind : Kind) (raw : List Symbol) :
    ((Site.mk function casing nested).value kind position raw).value =
      ((Site.mk function casing other).value kind position raw).value := by
  cases kind with
  | int32 => rfl
  | int64 => rfl
  | text => rfl
  | nested => exact congrArg (fun p => some (Value.nested p)) (h position raw)

theorem component_congr (slot : Slot) (raw : List Symbol) :
    ((Site.mk function casing nested).component slot position raw).value =
      ((Site.mk function casing other).component slot position raw).value := by
  have hvalue := value_congr h function casing position slot.kind raw
  exact congrArg (Option.map fun value => Component.mk value _) hvalue

theorem group_congr (source : List Symbol) :
    ((Site.mk function casing nested).group position source).value =
      ((Site.mk function casing other).group position source).value := by
  have hread (place : (Nat × List Symbol) × Slot) :
      ((Site.mk function casing nested).component place.2 place.1.1 place.1.2).value =
        ((Site.mk function casing other).component place.2 place.1.1 place.1.2).value :=
    component_congr h function casing place.1.1 place.2 place.1.2
  have hcollect := Reported.collect_value_congr hread
    ((located position (components source)).zip function.slots)
  exact congrArg Group.mk hcollect

theorem groups_congr (source : List Symbol) :
    ((Site.mk function casing nested).groups position source).value =
      ((Site.mk function casing other).groups position source).value :=
  Reported.collect_value_congr
    (fun place : Nat × List Symbol => group_congr h function casing place.1 place.2) _

end Site

variable {options options' : Options} (compares : options.casing = options'.casing)
  {nested other : Clause.Nest π} (h : nested.SameValues other)

include compares h

namespace Clause

theorem call_congr (name modifiers : Text) (position : Nat) (arguments : List Symbol) :
    (call options nested name modifiers position arguments).value =
      (call options' other name modifiers position arguments).value := by
  rw [call, call, compares]
  cases Resolution.ofName? options'.casing name with
  | none => rfl
  | some r =>
    have hgroups := Site.groups_congr h r.function
      ((operators (some r) (modifierWords modifiers)).casingIn options'.casing) position arguments
    exact congrArg (fun groups => tag ⟨name, some r.function, _, groups⟩) hgroups

theorem compile_congr (position : Nat) (body : List Symbol) :
    (compile options nested position body).value = (compile options' other position body).value := by
  rw [compile, compile]
  simp only
  split
  · rfl
  · exact call_congr compares h _ _ _ _

end Clause

theorem Parameter.bodyPiece_congr (position : Nat) (piece : BodyPiece) :
    (bodyPiece options nested position piece).value =
      (bodyPiece options' other position piece).value := by
  cases piece with
  | stray text => rfl
  | clause body => exact Clause.compile_congr compares h (position + 1) body
  | unended text => rfl

theorem Parameter.compile_congr (position : Nat) (body : List Symbol) :
    (compile options nested position body).value = (compile options' other position body).value := by
  have hcollect := Reported.collect_value_congr
    (fun place : Nat × BodyPiece => bodyPiece_congr compares h place.1 place.2)
    (placed BodyPiece.symbols (position + 2 + writtenSize (splitName body).1)
      (BodyPiece.ofSource (splitName body).2))
  exact congrArg (List.foldl add
    ⟨meant (splitName body).1, [], none, none, ⟨position, position + writtenSize body + 3⟩⟩) hcollect

theorem Part.compile_congr (position : Nat) (piece : Piece) :
    (compile options nested position piece).value =
      (compile options' other position piece).value := by
  cases piece with
  | symbol s => rw [compile, compile, compares]
  | opener => rw [compile, compile, compares]
  | parameter body => exact congrArg Part.parameter (Parameter.compile_congr compares h position body)

theorem Layer.parts_congr (source : List Symbol) :
    (compile options nested source).parts = (compile options' other source).parts := by
  have hcollect := Reported.collect_value_congr
    (fun place : Nat × Piece => Part.compile_congr compares h place.1 place.2)
    (placed Piece.symbols 0 (Piece.ofSource source))
  exact congrArg (List.foldr Part.join []) hcollect

end Stencil
