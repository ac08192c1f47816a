import Stencil.Pattern

/-! # Mapping one level and folding all of them

`map` replaces what is nested in a level. `Pattern.fold f` gives a pattern the meaning that `f`
gives to its level once the nested patterns have been replaced by theirs (`fold_of`). -/
namespace Stencil

variable {π ρ : Type}

def Value.map (g : π → ρ) : Value π → Value ρ
  | int32 n => int32 n
  | int64 n => int64 n
  | text t => text t
  | nested p => nested (g p)

def Component.map (g : π → ρ) (c : Component π) : Component ρ := ⟨c.value.map g, c.casing⟩

def Group.map (g : π → ρ) (group : Group π) : Group ρ :=
  ⟨group.components.map (Option.map (.map g))⟩

def Tag.map (g : π → ρ) (tag : Tag π) : Tag ρ := { tag with groups := tag.groups.map (.map g) }

def Parameter.map (g : π → ρ) (p : Parameter π) : Parameter ρ :=
  { p with tags := p.tags.map (.map g) }

def Part.map (g : π → ρ) : Part π → Part ρ
  | literal l => literal l
  | parameter p => parameter (p.map g)

def Layer.map (g : π → ρ) (layer : Layer π) : Layer ρ :=
  { layer with parts := layer.parts.map (.map g) }

namespace Pattern

variable (f : Layer π → π)

mutual

def fold : Pattern → π
  | of ⟨source, parts, diagnostics, options⟩ =>
    f ⟨source, foldParts parts, diagnostics, options⟩

def foldParts : List (Part Pattern) → List (Part π)
  | [] => []
  | part :: rest => foldPart part :: foldParts rest

def foldPart : Part Pattern → Part π
  | .literal l => .literal l
  | .parameter ⟨name, tags, fixed, min, source⟩ =>
    .parameter ⟨name, foldTags tags, fixed, min, source⟩

def foldTags : List (Tag Pattern) → List (Tag π)
  | [] => []
  | ⟨name, function, operators, groups⟩ :: rest =>
    ⟨name, function, operators, foldGroups groups⟩ :: foldTags rest

def foldGroups : List (Group Pattern) → List (Group π)
  | [] => []
  | ⟨components⟩ :: rest => ⟨foldComponents components⟩ :: foldGroups rest

def foldComponents : List (Option (Component Pattern)) → List (Option (Component π))
  | [] => []
  | none :: rest => none :: foldComponents rest
  | some ⟨value, casing⟩ :: rest => some ⟨foldValue value, casing⟩ :: foldComponents rest

def foldValue : Value Pattern → Value π
  | .int32 n => .int32 n
  | .int64 n => .int64 n
  | .text t => .text t
  | .nested p => .nested (fold p)

end

theorem foldValue_eq (v : Value Pattern) : foldValue f v = v.map (fold f) := by
  cases v <;> rfl

theorem foldComponents_eq (cs : List (Option (Component Pattern))) :
    foldComponents f cs = cs.map (Option.map (.map (fold f))) := by
  induction cs with
  | nil => rfl
  | cons c rest ih =>
    rcases c with _ | ⟨value, casing⟩
    · simp [foldComponents, ih]
    · simp [foldComponents, ih, Component.map, foldValue_eq]

theorem foldGroups_eq (groups : List (Group Pattern)) :
    foldGroups f groups = groups.map (.map (fold f)) := by
  induction groups with
  | nil => rfl
  | cons group rest ih => simp [foldGroups, ih, Group.map, foldComponents_eq]

theorem foldTags_eq (tags : List (Tag Pattern)) :
    foldTags f tags = tags.map (.map (fold f)) := by
  induction tags with
  | nil => rfl
  | cons tag rest ih => simp [foldTags, ih, Tag.map, foldGroups_eq]

theorem foldPart_eq (part : Part Pattern) : foldPart f part = part.map (fold f) := by
  cases part with
  | literal l => rfl
  | parameter p => simp [foldPart, Part.map, Parameter.map, foldTags_eq]

theorem foldParts_eq (parts : List (Part Pattern)) :
    foldParts f parts = parts.map (.map (fold f)) := by
  induction parts with
  | nil => rfl
  | cons part rest ih => simp [foldParts, ih, foldPart_eq]

theorem fold_of (layer : Layer Pattern) : fold f (of layer) = f (layer.map (fold f)) := by
  simp [fold, Layer.map, foldParts_eq]

end Pattern

end Stencil
