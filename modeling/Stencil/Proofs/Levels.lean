import Stencil.Interpret

/-! # The levels of a pattern

What a pattern means at a depth is what its own level means, with every nested pattern standing for
its meaning one level deeper. -/
namespace Stencil

variable {π ρ σ : Type}

theorem Value.map_map (g : ρ → σ) (f : π → ρ) (v : Value π) : (v.map f).map g = v.map (g ∘ f) := by
  cases v <;> rfl

theorem Component.map_map (g : ρ → σ) (f : π → ρ) (c : Component π) :
    (c.map f).map g = c.map (g ∘ f) := by
  simp only [Component.map, Value.map_map]

theorem Group.map_map (g : ρ → σ) (f : π → ρ) (group : Group π) :
    (group.map f).map g = group.map (g ∘ f) := by
  simp only [Group.map, List.map_map, Group.mk.injEq]
  congr 1
  funext c
  cases c with
  | none => rfl
  | some c => simp only [Function.comp_apply, Option.map_some, Component.map_map]

theorem Tag.map_map (g : ρ → σ) (f : π → ρ) (tag : Tag π) :
    (tag.map f).map g = tag.map (g ∘ f) := by
  simp only [Tag.map, List.map_map]
  congr 2
  funext group
  exact Group.map_map g f group

theorem Parameter.map_map (g : ρ → σ) (f : π → ρ) (p : Parameter π) :
    (p.map f).map g = p.map (g ∘ f) := by
  simp only [Parameter.map, List.map_map]
  congr 2
  funext tag
  exact Tag.map_map g f tag

theorem Part.map_map (g : ρ → σ) (f : π → ρ) (part : Part π) :
    (part.map f).map g = part.map (g ∘ f) := by
  cases part with
  | literal l => rfl
  | parameter p => simp only [Part.map, Parameter.map_map]

theorem Layer.map_map (g : ρ → σ) (f : π → ρ) (layer : Layer π) :
    (layer.map f).map g = layer.map (g ∘ f) := by
  simp only [Layer.map, List.map_map]
  congr 2
  funext part
  exact Part.map_map g f part

theorem Layer.parameters_map (g : π → ρ) (layer : Layer π) :
    (layer.map g).parameters = layer.parameters.map (.map g) := by
  rw [parameters, parameters, Layer.map, List.filterMap_map, List.map_filterMap]
  congr 1
  funext part
  cases part <;> rfl

theorem Layer.mem_parameters_iff {layer : Layer π} {p : Parameter π} :
    p ∈ layer.parameters ↔ .parameter p ∈ layer.parts := by
  rw [parameters, List.mem_filterMap]
  constructor
  · rintro ⟨part, hpart, hp⟩
    cases part with
    | literal l => cases hp
    | parameter q =>
      cases hp
      exact hpart
  · intro hp
    exact ⟨.parameter p, hp, rfl⟩

namespace Pattern

/-- The pattern's own level, with the nested patterns replaced by what they mean one level down. -/
def levelAt (p : Pattern) (depth : Nat) : Layer Meaning :=
  p.layer.map fun nested => nested.meaningAt (depth + 1)

theorem meaningAt_eq (p : Pattern) (depth : Nat) :
    p.meaningAt depth =
      if p.options.maxDepth < depth then .never else (p.levelAt depth).meaning := by
  rcases p with ⟨layer⟩
  have hfold := congrFun (fold_of Layer.meaningAt layer) depth
  rw [meaningAt, hfold, Layer.meaningAt, Layer.map_map]
  rfl

theorem check_eq (p : Pattern) (text : Text) (params : Params) :
    p.check text params = (p.levelAt 0).check text params := by
  rw [check, meaningAt_eq, if_neg (Nat.not_lt_zero _)]
  rfl

theorem format_eq (p : Pattern) (options : FormatOptions) (params : Params) :
    p.format options params = (p.levelAt 0).format options params := by
  rw [format, meaningAt_eq, if_neg (Nat.not_lt_zero _)]
  rfl

end Pattern

end Stencil
