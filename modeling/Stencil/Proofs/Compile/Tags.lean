import Stencil.Compile
import Stencil.Proofs.Levels

/-! # Tags of a compiled level

Every tag of a compiled level was read as a call (`Layer.exists_call_of_mem_tags`), so what holds of
the tags that calls give holds of all of them. An argument compares as its call does, unless its slot
keeps the case (`Clause.casing_of_call`). -/
namespace Stencil

variable {π : Type}

theorem Group.component?_mk (components : List (Option (Component π))) (slot : Nat) :
    (Group.mk components).component? slot = components[slot]?.join := rfl

namespace Site

theorem casing_of_component {site : Site π} {slot : Slot} {position : Nat} {raw : List Symbol}
    {c : Component π} (h : (site.component slot position raw).value = some c) :
    c.casing = if slot.keepsCase then .sensitive else site.casing := by
  simp only [component, Reported.map, Option.map_eq_some_iff] at h
  obtain ⟨value, -, rfl⟩ := h
  rfl

theorem casing_of_group {site : Site π} {position : Nat} {source : List Symbol} {slot : Nat}
    {c : Component π} (h : (site.group position source).value.component? slot = some c) :
    ∃ s, site.function.slots[slot]? = some s ∧
      c.casing = if s.keepsCase then .sensitive else site.casing := by
  simp only [group, Reported.after, Reported.map, Reported.collect, Group.component?_mk,
    List.map_map, List.getElem?_map, Option.join_eq_some_iff, Option.map_eq_some_iff] at h
  obtain ⟨⟨place, s⟩, hplace, hc⟩ := h
  obtain ⟨-, hs⟩ := List.getElem?_zip_eq_some.1 hplace
  exact ⟨s, hs, casing_of_component hc⟩

end Site

namespace Clause

variable {options : Options} {nested : Nest π} {name modifiers : Text} {position : Nat}
  {arguments : List Symbol} {tag : Tag π}

theorem casing_of_call (h : (call options nested name modifiers position arguments).value = .tag tag)
    {f : Function} (hf : tag.function = some f) {group : Group π} (hgroup : group ∈ tag.groups)
    {slot : Nat} {c : Component π} (hc : group.component? slot = some c) :
    ∃ s, f.slots[slot]? = some s ∧
      c.casing = if s.keepsCase then .sensitive else tag.operators.casingIn options.casing := by
  simp only [call, Reported.after, Reported.map, Clause.tag.injEq] at h
  subst h
  simp only [Option.map_eq_some_iff] at hf
  obtain ⟨r, hr, rfl⟩ := hf
  simp only [hr, Site.groups, Reported.collect, List.mem_map] at hgroup
  obtain ⟨_, ⟨place, -, rfl⟩, rfl⟩ := hgroup
  simpa only [hr] using Site.casing_of_group hc

theorem directive_ne_tag (d : Directive) (value : Text) (tag : Tag π) :
    (directive d value).value ≠ .tag tag := by
  cases d with
  | version => simp [directive]
  | fixedLength =>
    simp only [directive, Reported.map]
    cases (length (Directive.fixedLength).name value).value <;> simp
  | minLength =>
    simp only [directive, Reported.map]
    cases (length (Directive.minLength).name value).value <;> simp

/-- The tag was read as a call under these options. -/
def Called (options : Options) (nested : Nest π) (tag : Tag π) : Prop :=
  ∃ name modifiers position arguments,
    (call options nested name modifiers position arguments).value = .tag tag

theorem called_of_compile {body : List Symbol}
    (h : (compile options nested position body).value = .tag tag) : Called options nested tag := by
  unfold compile at h
  simp only at h
  split at h
  · exact absurd h (directive_ne_tag _ _ tag)
  · exact ⟨_, _, _, _, h⟩

end Clause

namespace Parameter

theorem mem_tags_foldl_add {p : Parameter π} {clauses : List (Clause π)} {tag : Tag π} :
    tag ∈ (clauses.foldl add p).tags ↔ tag ∈ p.tags ∨ .tag tag ∈ clauses := by
  induction clauses generalizing p with
  | nil => simp
  | cons clause clauses ih =>
    rw [List.foldl_cons, ih]
    cases clause <;> simp [add, or_assoc]

theorem called_of_mem_compile {options : Options} {nested : Clause.Nest π} {position : Nat}
    {body : List Symbol} {tag : Tag π}
    (h : tag ∈ (compile options nested position body).value.tags) : Clause.Called options nested tag := by
  simp only [compile, Reported.map, Reported.collect, mem_tags_foldl_add, List.not_mem_nil, false_or,
    List.map_map, List.mem_map, Function.comp_apply] at h
  obtain ⟨⟨start, piece⟩, -, hvalue⟩ := h
  cases piece with
  | stray text => cases hvalue
  | clause body => exact Clause.called_of_compile hvalue
  | unended text => cases hvalue

end Parameter

namespace Part

theorem filterMap_join (part : Part π) (parts : List (Part π)) :
    (join part parts).filterMap (·.parameter?) = (part :: parts).filterMap (·.parameter?) := by
  cases part with
  | parameter p => rfl
  | literal l =>
    cases parts with
    | nil => rfl
    | cons next rest => cases next <;> rfl

theorem filterMap_foldr_join (parts : List (Part π)) :
    (parts.foldr join []).filterMap (·.parameter?) = parts.filterMap (·.parameter?) := by
  induction parts with
  | nil => rfl
  | cons part parts ih =>
    rw [List.foldr_cons, filterMap_join, List.filterMap_cons, List.filterMap_cons, ih]

end Part

namespace Layer

variable {options : Options} {nested : Clause.Nest π} {source : List Symbol}

theorem exists_of_mem_parameters {p : Parameter π}
    (h : p ∈ (compile options nested source).parameters) :
    ∃ position body, (Parameter.compile options nested position body).value = p := by
  simp only [parameters, compile, Part.filterMap_foldr_join, Reported.collect, List.map_map,
    List.mem_filterMap, List.mem_map, Function.comp_apply] at h
  obtain ⟨_, ⟨⟨position, piece⟩, -, rfl⟩, hpiece⟩ := h
  cases piece with
  | symbol s => cases hpiece
  | opener => cases hpiece
  | parameter body =>
    cases hpiece
    exact ⟨position, body, rfl⟩

theorem exists_call_of_mem_tags {p : Parameter π}
    (h : p ∈ (compile options nested source).parameters) :
    ∀ tag ∈ p.tags, Clause.Called options nested tag := by
  obtain ⟨position, body, rfl⟩ := exists_of_mem_parameters h
  intro tag htag
  exact Parameter.called_of_mem_compile htag

end Layer

end Stencil
