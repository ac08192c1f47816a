import Stencil.Proofs.Evaluate.Related

/-! # Names that a pattern mentions

A pattern can only look up or store what it has a name for: the names of its parameters, and those that
are the first argument of a call. All names that it mentions are found level by level, and a relation
between maps that is right for them is right for the pattern. What it stores depends on whether it is
checked or formatted. -/
namespace Stencil

variable {π ρ : Type}

/-- A call of the function has the name as its first argument. -/
def Layer.Passes (layer : Layer π) (f : Function) (name : Text) : Prop :=
  ∃ p ∈ layer.parameters, ∃ tag ∈ p.tags, tag.function = some f ∧
    ∃ group ∈ tag.groups, group.text 0 = name

/-- The name is that of a parameter or the first argument of a call of the function, in the pattern or
in one that is nested in it at any depth. -/
inductive Pattern.Mentions (f : Function) (name : Text) : Pattern → Prop where
  | parameter {layer : Layer Pattern} {p : Parameter Pattern} (h : p ∈ layer.parameters)
    (same : p.name = name) : Mentions f name (of layer)
  | argument {layer : Layer Pattern} (h : layer.Passes f name) : Mentions f name (of layer)
  | nested {layer : Layer Pattern} {q : Pattern} (h : q ∈ layer.nested) (hq : Mentions f name q) :
    Mentions f name (of layer)

/-- Some call in the level does this with the nested pattern. -/
def Layer.Uses (layer : Layer π) (use : Mode) (q : π) : Prop :=
  ∃ p ∈ layer.parameters, ∃ tag ∈ p.tags, ∃ f, tag.function = some f ∧
    ∃ group ∈ tag.groups, group.Uses f use q

theorem Layer.Uses.mem_nested {layer : Layer π} {use : Mode} {q : π} (h : layer.Uses use q) :
    q ∈ layer.nested := by
  obtain ⟨p, hp, tag, htag, f, -, group, hgroup, slot, -, hq⟩ := h
  exact List.mem_flatMap.2 ⟨p, hp, List.mem_flatMap.2 ⟨tag, htag,
    List.mem_flatMap.2 ⟨group, hgroup, Group.mem_nested_of_nested? hq⟩⟩⟩

/-- The pattern may store a value under the name when it is used so: a check stores under the names of
its parameters, and either use where `copy` is called, in it or in what is used in it. -/
inductive Pattern.Stores (name : Text) : Mode → Pattern → Prop where
  | captured {layer : Layer Pattern} {p : Parameter Pattern} (h : p ∈ layer.parameters)
    (same : p.name = name) (named : name ≠ []) : Stores name .check (of layer)
  | copied {use : Mode} {layer : Layer Pattern} (h : layer.Passes .copy name) (named : name ≠ []) :
    Stores name use (of layer)
  | nested {use inner : Mode} {layer : Layer Pattern} {q : Pattern} (h : layer.Uses inner q)
    (hq : Stores name inner q) : Stores name use (of layer)

theorem Pattern.Stores.mentions {name : Text} {use : Mode} {p : Pattern} (h : p.Stores name use) :
    p.Mentions .copy name := by
  induction h with
  | captured hp same _ => exact .parameter hp same
  | copied hpasses _ => exact .argument hpasses
  | nested huses _ ih => exact .nested huses.mem_nested ih

theorem Pattern.Stores.named {name : Text} {use : Mode} {p : Pattern} (h : p.Stores name use) :
    name ≠ [] := by
  induction h with
  | captured _ _ named => exact named
  | copied _ named => exact named
  | nested _ _ ih => exact ih

/-- The first arguments of the calls of a function. -/
def Layer.passed (f : Function) (layer : Layer π) : List Text :=
  layer.parameters.flatMap fun p =>
    (p.tags.filter (·.function = some f)).flatMap fun tag => tag.groups.map (·.text 0)

theorem Layer.mem_passed_iff {f : Function} {layer : Layer π} {name : Text} :
    name ∈ layer.passed f ↔ layer.Passes f name := by
  simp only [passed, Passes, List.mem_flatMap, List.mem_filter, List.mem_map, decide_eq_true_eq,
    and_assoc]

theorem Layer.passed_map (f : Function) (g : π → ρ) (layer : Layer π) :
    (layer.map g).passed f = layer.passed f := by
  simp only [passed, parameters_map, List.flatMap_map, Parameter.map, List.filter_map, Tag.map,
    List.map_map, Function.comp_def, Group.text_map]
  rfl

namespace Pattern

/-- All names that the pattern mentions, level by level. -/
def mentioned (f : Function) : Pattern → List Text :=
  fold fun layer => layer.parameters.map (·.name) ++ layer.passed f ++ layer.nested.flatten

theorem mentioned_of (f : Function) (layer : Layer Pattern) :
    (of layer).mentioned f =
      layer.parameters.map (·.name) ++ layer.passed f ++ layer.nested.flatMap (mentioned f) := by
  rw [mentioned, fold_of, Layer.passed_map, Layer.parameters_map, Layer.nested_map, List.map_map]
  rfl

theorem mem_mentioned_iff {f : Function} {name : Text} {p : Pattern} :
    name ∈ p.mentioned f ↔ p.Mentions f name := by
  induction p using Pattern.induction with
  | level layer ih =>
    rw [mentioned_of, List.mem_append, List.mem_append, List.mem_map, Layer.mem_passed_iff,
      List.mem_flatMap]
    constructor
    · rintro ((⟨p, hp, same⟩ | hpasses) | ⟨q, hq, hname⟩)
      · exact .parameter hp same
      · exact .argument hpasses
      · exact .nested hq ((ih q hq).1 hname)
    · intro h
      cases h with
      | parameter hp same => exact .inl (.inl ⟨_, hp, same⟩)
      | argument hpasses => exact .inl (.inr hpasses)
      | nested hq hmentions => exact .inr ⟨_, hq, (ih _ hq).2 hmentions⟩

instance (f : Function) (p : Pattern) (name : Text) : Decidable (p.Mentions f name) :=
  decidable_of_iff (∃ other ∈ p.mentioned f, other = name)
    (exists_eq_right.trans mem_mentioned_iff)

variable {related : Params → Params → Prop} {layer : Layer Pattern} {depth : Nat}

/-- A relation that is right for every name of a level and for every pattern nested in it suits the
level's parameters. -/
theorem suits_levelAt {use : Mode}
    (nested : ∀ {inner q}, layer.Uses inner q → (q.meaningAt (depth + 1)).Respects related inner)
    (copies : ∀ name, layer.Passes .copy name → name ≠ [] → Params.Stores related name)
    (asks : ∀ name, layer.Passes .validate name → Params.Shows related name)
    (anonymous : Params.Shows related [])
    (stores : use = .check → ∀ p ∈ layer.parameters, p.name ≠ [] → Params.Stores related p.name)
    (shows : use = .format → ∀ p ∈ layer.parameters, Params.Shows related p.name) :
    ∀ p ∈ ((of layer).levelAt depth).parameters, p.Suits related use := by
  intro p hp
  rw [levelAt, Layer.parameters_map] at hp
  obtain ⟨q, hq, rfl⟩ := List.mem_map.1 hp
  refine ⟨?_, fun huse => stores huse q hq, fun huse => shows huse q hq⟩
  intro tag htag f hf group hgroup
  obtain ⟨plain, hplain, rfl⟩ := List.mem_map.1 htag
  rw [Tag.runGroups] at hgroup
  split at hgroup
  · -- without a group the call runs once on none at all
    rw [List.mem_singleton.1 hgroup]
    refine ⟨?_, ?_, ?_⟩
    · rintro inner m ⟨slot, -, hm⟩
      cases hm
    · intro _ hne
      exact absurd rfl hne
    · intro _
      exact anonymous
  · obtain ⟨given, hgiven, rfl⟩ := List.mem_map.1 hgroup
    have hpasses : layer.Passes f (given.text 0) :=
      ⟨q, hq, plain, hplain, hf, given, hgiven, rfl⟩
    refine ⟨?_, ?_, ?_⟩
    · rintro inner m ⟨slot, hinner, hm⟩
      rw [Group.nested?_map, Option.map_eq_some_iff] at hm
      obtain ⟨r, hr, rfl⟩ := hm
      exact nested ⟨q, hq, plain, hplain, f, hf, given, hgiven, slot, hinner, hr⟩
    · rintro rfl hne
      rw [Group.text_map] at hne ⊢
      exact copies _ hpasses hne
    · rintro rfl
      rw [Group.text_map]
      exact asks _ hpasses

end Pattern

end Stencil
