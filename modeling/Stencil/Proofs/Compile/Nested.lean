import Stencil.Compile
import Stencil.Proofs.Levels

/-! # What is nested in a compiled level

Compiling one level never looks into the nested patterns that it is given. So it makes no difference
whether they are mapped before or after (`Layer.compile_map`), and every pattern nested in a compiled
level is one that was read from some part of its source (`Layer.exists_of_mem_nested`). -/
namespace Stencil

variable {π ρ : Type}

namespace Reported

variable {α β γ : Type}

theorem map_map (g : β → γ) (f : α → β) (r : Reported α) : (r.map f).map g = r.map (g ∘ f) := rfl

theorem map_after (f : α → β) (r : Reported α) (reports : List Diagnostic) :
    (r.after reports).map f = (r.map f).after reports := rfl

theorem collect_map {f : α → β} {read : γ → Reported α} {mapped : γ → Reported β}
    (h : ∀ x, mapped x = (read x).map f) (xs : List γ) :
    collect (xs.map mapped) = (collect (xs.map read)).map (List.map f) := by
  have hm : mapped = fun x => (read x).map f := funext h
  rw [hm]
  simp only [collect, map, List.map_map, List.flatMap_map]
  rfl

end Reported

def Clause.Nest.map (g : π → ρ) (nested : Clause.Nest π) : Clause.Nest ρ := fun position source =>
  (nested position source).map g

namespace Site

def map (g : π → ρ) (site : Site π) : Site ρ :=
  ⟨site.function, site.casing, Clause.Nest.map g site.nested⟩

variable (g : π → ρ) (site : Site π)

theorem value_map (kind : Kind) (position : Nat) (raw : List Symbol) :
    (site.map g).value kind position raw = (site.value kind position raw).map (Option.map (.map g)) := by
  cases kind with
  | text => rfl
  | nested => rfl
  | int32 =>
    rw [value, value, Reported.map_map]
    congr 1
    funext n
    cases n <;> rfl
  | int64 =>
    rw [value, value, Reported.map_map]
    congr 1
    funext n
    cases n <;> rfl

theorem component_map (slot : Slot) (position : Nat) (raw : List Symbol) :
    (site.map g).component slot position raw =
      (site.component slot position raw).map (Option.map (.map g)) := by
  rw [component, component, value_map, Reported.map_map, Reported.map_map]
  congr 1
  funext v
  cases v <;> rfl

theorem group_map (position : Nat) (source : List Symbol) :
    (site.map g).group position source = (site.group position source).map (.map g) := by
  have hread (place : (Nat × List Symbol) × Slot) :
      (site.map g).component place.2 place.1.1 place.1.2 =
        (site.component place.2 place.1.1 place.1.2).map (Option.map (.map g)) :=
    component_map g site place.2 place.1.1 place.1.2
  have hcollect := Reported.collect_map hread
    ((located position (components source)).zip site.function.slots)
  rw [group, group, Reported.map_after, Reported.map_map]
  exact congrArg (fun read => (Reported.map Group.mk read).after _) hcollect

theorem groups_map (position : Nat) (source : List Symbol) :
    (site.map g).groups position source = (site.groups position source).map (List.map (.map g)) :=
  Reported.collect_map (fun place : Nat × List Symbol => group_map g site place.1 place.2) _

end Site

namespace Clause

def map (g : π → ρ) : Clause π → Clause ρ
  | tag t => tag (t.map g)
  | fixed n => fixed n
  | min n => min n
  | nothing => nothing

variable (g : π → ρ) (options : Options) (nested : Nest π) (position : Nat)

theorem directive_map (d : Directive) (value : Text) :
    directive d value = (directive d value : Reported (Clause π)).map (Clause.map g) := by
  cases d with
  | version => rfl
  | fixedLength =>
    rw [directive, directive, Reported.map_map]
    congr 1
    funext n
    cases n <;> rfl
  | minLength =>
    rw [directive, directive, Reported.map_map]
    congr 1
    funext n
    cases n <;> rfl

theorem call_map (name modifiers : Text) (arguments : List Symbol) :
    call options (Nest.map g nested) name modifiers position arguments =
      (call options nested name modifiers position arguments).map (Clause.map g) := by
  rw [call, call]
  cases Resolution.ofName? options.casing name with
  | none => rfl
  | some r =>
    have hgroups := Site.groups_map g
      ⟨r.function, (operators (some r) (modifierWords modifiers)).casingIn options.casing, nested⟩
      position arguments
    rw [Site.map] at hgroups
    simp only [hgroups]
    rfl

theorem compile_map (body : List Symbol) :
    compile options (Nest.map g nested) position body =
      (compile options nested position body).map (Clause.map g) := by
  rw [compile, compile]
  simp only
  split
  · exact directive_map g _ _
  · exact call_map g options nested _ _ _ _

end Clause

namespace Parameter

variable (g : π → ρ) (options : Options) (nested : Clause.Nest π) (position : Nat)

theorem add_map (p : Parameter π) (clause : Clause π) :
    (p.map g).add (clause.map g) = (p.add clause).map g := by
  cases clause with
  | tag t => simp only [add, Clause.map, map, List.map_append, List.map_cons, List.map_nil]
  | fixed n => rfl
  | min n => rfl
  | nothing => rfl

theorem foldl_add_map (p : Parameter π) (clauses : List (Clause π)) :
    (clauses.map (.map g)).foldl add (p.map g) = (clauses.foldl add p).map g := by
  induction clauses generalizing p with
  | nil => rfl
  | cons clause clauses ih => rw [List.map_cons, List.foldl_cons, List.foldl_cons, add_map, ih]

theorem bodyPiece_map (piece : BodyPiece) :
    bodyPiece options (Clause.Nest.map g nested) position piece =
      (bodyPiece options nested position piece).map (.map g) := by
  cases piece with
  | stray text => rfl
  | clause body => exact Clause.compile_map g options nested (position + 1) body
  | unended text => rfl

theorem compile_map (body : List Symbol) :
    compile options (Clause.Nest.map g nested) position body =
      (compile options nested position body).map (.map g) := by
  have hcollect := Reported.collect_map
    (fun place : Nat × BodyPiece => bodyPiece_map g options nested place.1 place.2)
    (placed BodyPiece.symbols (position + 2 + writtenSize (splitName body).1)
      (BodyPiece.ofSource (splitName body).2))
  simp only [compile, hcollect, Reported.map_map]
  congr 1
  funext clauses
  exact foldl_add_map g
    ⟨meant (splitName body).1, [], none, none, ⟨position, position + writtenSize body + 3⟩⟩ clauses

end Parameter

namespace Part

variable (g : π → ρ)

theorem join_map (part : Part π) (parts : List (Part π)) :
    join (part.map g) (parts.map (.map g)) = (join part parts).map (.map g) := by
  cases part with
  | parameter p => rfl
  | literal l =>
    cases parts with
    | nil => rfl
    | cons next rest => cases next <;> rfl

theorem foldr_join_map (parts : List (Part π)) :
    (parts.map (.map g)).foldr join [] = (parts.foldr join []).map (.map g) := by
  induction parts with
  | nil => rfl
  | cons part parts ih => rw [List.map_cons, List.foldr_cons, ih, join_map, List.foldr_cons]

theorem compile_map (options : Options) (nested : Clause.Nest π) (position : Nat) (piece : Piece) :
    compile options (Clause.Nest.map g nested) position piece =
      (compile options nested position piece).map (.map g) := by
  cases piece with
  | symbol s => rfl
  | opener => rfl
  | parameter body => rw [compile, Parameter.compile_map, compile, Reported.map_map]; rfl

end Part

namespace Layer

theorem compile_map (g : π → ρ) (options : Options) (nested : Clause.Nest π) (source : List Symbol) :
    compile options (Clause.Nest.map g nested) source = (compile options nested source).map g := by
  have hcollect := Reported.collect_map
    (fun place : Nat × Piece => Part.compile_map g options nested place.1 place.2)
    (placed Piece.symbols 0 (Piece.ofSource source))
  simp only [compile, hcollect, Layer.map, Reported.map, Part.foldr_join_map]

end Layer

namespace Group

variable (g : π → ρ) (group : Group π) (slot : Nat)

theorem component?_map : (group.map g).component? slot = (group.component? slot).map (.map g) := by
  rw [component?, component?, map, List.getElem?_map]
  rcases group.components[slot]? with _ | _ | c <;> rfl

theorem text_map : (group.map g).text slot = group.text slot := by
  rw [text, text, text?, text?, component?_map]
  rcases group.component? slot with _ | ⟨value, casing⟩
  · rfl
  · cases value <;> rfl

theorem nested?_map : (group.map g).nested? slot = (group.nested? slot).map g := by
  rw [nested?, nested?, component?_map]
  rcases group.component? slot with _ | ⟨value, casing⟩
  · rfl
  · cases value <;> rfl

theorem casing_map : (group.map g).casing slot = group.casing slot := by
  rw [casing, casing, component?_map]
  cases group.component? slot <;> rfl

end Group

def Value.nested? : Value π → Option π
  | nested p => some p
  | _ => none

namespace Group

def nested (group : Group π) : List π := group.components.filterMap fun c => c.bind (·.value.nested?)

theorem nested_map (g : π → ρ) (group : Group π) : (group.map g).nested = group.nested.map g := by
  rw [nested, nested, map, List.filterMap_map, List.map_filterMap]
  congr 1
  funext c
  cases c with
  | none => rfl
  | some c =>
    rcases c with ⟨value, casing⟩
    cases value <;> rfl

theorem map_congr {f g : π → ρ} {group : Group π} (h : ∀ p ∈ group.nested, f p = g p) :
    group.map f = group.map g := by
  refine congrArg mk (List.map_congr_left ?_)
  intro c hc
  rcases c with _ | ⟨value, casing⟩
  · rfl
  · cases value with
    | nested p =>
      have hp : p ∈ group.nested := List.mem_filterMap.2 ⟨some ⟨.nested p, casing⟩, hc, rfl⟩
      simp only [Option.map_some, Component.map, Value.map, h p hp]
    | _ => rfl

end Group

namespace Layer

/-- The patterns that are arguments in this level, in order. -/
def nested (layer : Layer π) : List π :=
  layer.parameters.flatMap fun p => p.tags.flatMap fun tag => tag.groups.flatMap (·.nested)

theorem nested_map (g : π → ρ) (layer : Layer π) : (layer.map g).nested = layer.nested.map g := by
  simp only [nested, parameters_map, List.flatMap_map, Parameter.map, Tag.map, Group.nested_map,
    List.map_flatMap]

theorem map_congr {f g : π → ρ} {layer : Layer π} (h : ∀ p ∈ layer.nested, f p = g p) :
    layer.map f = layer.map g := by
  have hparts : layer.parts.map (Part.map f) = layer.parts.map (Part.map g) := by
    refine List.map_congr_left ?_
    intro part hpart
    cases part with
    | literal l => rfl
    | parameter q =>
      refine congrArg (fun tags => Part.parameter { q with tags }) (List.map_congr_left ?_)
      intro tag htag
      refine congrArg (fun groups => { tag with groups }) (List.map_congr_left ?_)
      intro group hgroup
      refine Group.map_congr fun p hp => h p (List.mem_flatMap.2 ⟨q, mem_parameters_iff.2 hpart, ?_⟩)
      exact List.mem_flatMap.2 ⟨tag, htag, List.mem_flatMap.2 ⟨group, hgroup, hp⟩⟩
  rw [map, map, hparts]

/-- What holds of every pattern that is read holds of every nested one: it could have been read with
the proof. -/
theorem exists_of_mem_nested {options : Options} {nested : Clause.Nest π} {source : List Symbol}
    {p : π} (h : p ∈ (compile options nested source).nested) :
    ∃ position raw, p = (nested position raw).value := by
  let proved : Clause.Nest { p : π // ∃ position raw, p = (nested position raw).value } :=
    fun position raw => ⟨⟨(nested position raw).value, position, raw, rfl⟩, (nested position raw).reports⟩
  have hnested : Clause.Nest.map Subtype.val proved = nested := rfl
  rw [← hnested, compile_map, nested_map] at h
  obtain ⟨⟨q, hq⟩, -, rfl⟩ := List.mem_map.1 h
  exact hq

end Layer

theorem Group.sizeOf_lt_of_mem_nested {group : Group Pattern} {p : Pattern} (h : p ∈ group.nested) :
    sizeOf p < sizeOf group := by
  obtain ⟨c, hc, hp⟩ := List.mem_filterMap.1 h
  obtain ⟨component, rfl, hvalue⟩ := Option.bind_eq_some_iff.1 hp
  have hlt := List.sizeOf_lt_of_mem hc
  rcases group with ⟨components⟩
  rcases component with ⟨value, casing⟩
  cases value with
  | int32 n => cases hvalue
  | int64 n => cases hvalue
  | text t => cases hvalue
  | nested q =>
    cases hvalue
    simp only [mk.sizeOf_spec, Option.some.sizeOf_spec, Component.mk.sizeOf_spec,
      Value.nested.sizeOf_spec] at hlt ⊢
    omega

theorem Layer.sizeOf_lt_of_mem_nested {layer : Layer Pattern} {p : Pattern} (h : p ∈ layer.nested) :
    sizeOf p < sizeOf layer := by
  obtain ⟨q, hq, h⟩ := List.mem_flatMap.1 h
  obtain ⟨tag, htag, h⟩ := List.mem_flatMap.1 h
  obtain ⟨group, hgroup, h⟩ := List.mem_flatMap.1 h
  have hp := Group.sizeOf_lt_of_mem_nested h
  have hg := List.sizeOf_lt_of_mem hgroup
  have ht := List.sizeOf_lt_of_mem htag
  have hq := List.sizeOf_lt_of_mem (mem_parameters_iff.1 hq)
  rcases layer with ⟨source, parts, diagnostics, options⟩
  rcases q with ⟨name, tags, fixed, min, place⟩
  rcases tag with ⟨tagName, function, operators, groups⟩
  simp only [mk.sizeOf_spec, Part.parameter.sizeOf_spec, Parameter.mk.sizeOf_spec,
    Tag.mk.sizeOf_spec] at *
  omega

/-- What holds of a level whenever it holds of the patterns nested in it holds of every pattern. -/
theorem Pattern.induction {motive : Pattern → Prop}
    (level : ∀ layer : Layer Pattern, (∀ p ∈ layer.nested, motive p) → motive (.of layer))
    (p : Pattern) : motive p := by
  rcases p with ⟨layer⟩
  refine level layer ?_
  intro p hp
  exact induction level p
termination_by sizeOf p
decreasing_by
  have hlt := Layer.sizeOf_lt_of_mem_nested hp
  simp only [Pattern.of.sizeOf_spec]
  omega

end Stencil
