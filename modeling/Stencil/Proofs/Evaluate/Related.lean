import Mathlib.Data.Option.Defs
import Stencil.Proofs.Check.Splitting
import Stencil.Proofs.Compile.Nested

/-! # Evaluation on related parameters

Two maps are in some relation. If the level cannot tell them apart by what it looks up, and if the
relation is kept by what the level stores and by the patterns nested in it, then checking and formatting
show the same on both maps and leave maps that are related again (`Layer.alike_check`,
`Layer.alike_format`). What evaluation writes and what it reads are two such relations. -/
namespace Stencil

/-- Two outcomes that show the same and leave related maps. -/
def Alike {α : Type} (related : Params → Params → Prop) (x y : α × Params) : Prop :=
  ∃ result a b, x = (result, a) ∧ y = (result, b) ∧ related a b

variable {α β : Type} {related : Params → Params → Prop} {a b : Params}

theorem Alike.same (hab : related a b) (result : α) : Alike related (result, a) (result, b) :=
  ⟨result, a, b, rfl, rfl, hab⟩

theorem Alike.of_rel {x y : Option (α × Params)} (h : Option.Rel (Alike related) x y) :
    (x = none ∧ y = none) ∨
      ∃ result a b, x = some (result, a) ∧ y = some (result, b) ∧ related a b := by
  cases h with
  | none => exact .inl ⟨rfl, rfl⟩
  | some h =>
    obtain ⟨result, a, b, rfl, rfl, hab⟩ := h
    exact .inr ⟨result, a, b, rfl, rfl, hab⟩

theorem Alike.map {x y : α × Params} (h : Alike related x y) (f : α → β) :
    Alike related (f x.1, x.2) (f y.1, y.2) := by
  obtain ⟨result, a, b, rfl, rfl, hab⟩ := h
  exact .same hab (f result)

namespace Params

variable (related : Params → Params → Prop) (name : Text)

/-- The relation is kept when the same text is stored under the name on both sides. -/
def Stores : Prop :=
  ∀ text a b, related a b → related (a.insert name (.text text)) (b.insert name (.text text))

/-- The relation is kept when the name is removed on both sides. -/
def Removes : Prop := ∀ a b, related a b → related (a.erase name) (b.erase name)

/-- Related maps hold the same text under the name, or both hold none. -/
def Shows : Prop := ∀ a b, related a b → a.resolve? name = b.resolve? name

end Params

/-- What a call does with the nested pattern in one of its slots, if it looks at it. -/
def Function.use? : Function → Nat → Option Mode
  | pattern, 0 => some .check
  | ifelse, 0 => some .check
  | ifelse, 1 => some .format
  | ifelse, 2 => some .format
  | format, 0 => some .format
  | split, 1 => some .format
  | validate, 1 => some .format
  | _, _ => none

/-- A call on the group does this with the nested pattern. -/
def Group.Uses {π : Type} (f : Function) (group : Group π) (use : Mode) (p : π) : Prop :=
  ∃ slot, f.use? slot = some use ∧ group.nested? slot = some p

/-- What a nested pattern does when it is used so is alike on related maps. -/
def Meaning.Respects (related : Params → Params → Prop) (m : Meaning) : Mode → Prop
  | .check => ∀ text a b, related a b → Option.Rel (Alike related) (m.check text a) (m.check text b)
  | .format => ∀ options text a b, related a b →
    Alike related (m.render options text a) (m.render options text b)

/-- The relation suits a call on the group: its nested patterns, and the names that the call writes or
looks up. -/
structure Group.Suits (related : Params → Params → Prop) (f : Function) (group : Group Meaning) :
    Prop where
  nested : ∀ {use m}, group.Uses f use m → m.Respects related use
  copies : f = .copy → group.text 0 ≠ [] → Params.Stores related (group.text 0)
  asks : f = .validate → Params.Shows related (group.text 0)

def Tag.Suits (related : Params → Params → Prop) (tag : Tag Meaning) : Prop :=
  ∀ f, tag.function = some f → ∀ group ∈ tag.runGroups, group.Suits related f

/-- The relation suits the tags of the parameter, and its name: a check stores under it, and formatting
looks it up. -/
structure Parameter.Suits (related : Params → Params → Prop) (use : Mode) (p : Parameter Meaning) :
    Prop where
  tags : ∀ tag ∈ p.tags, tag.Suits related
  stores : use = .check → p.name ≠ [] → Params.Stores related p.name
  shows : use = .format → Params.Shows related p.name

theorem Group.mem_nested_of_nested? {π : Type} {group : Group π} {slot : Nat} {p : π}
    (h : group.nested? slot = some p) : p ∈ group.nested := by
  obtain ⟨component, hcomponent, hvalue⟩ := Option.bind_eq_some_iff.1 h
  have hslot := Option.join_eq_some_iff.1 hcomponent
  refine List.mem_filterMap.2 ⟨some component, List.mem_of_getElem? hslot, ?_⟩
  rcases component with ⟨value, casing⟩
  cases value with
  | int32 n => cases hvalue
  | int64 n => cases hvalue
  | text t => cases hvalue
  | nested q => exact hvalue

theorem Meaning.Respects.renderAll {m : Meaning} (h : m.Respects related .format) (options : FormatOptions)
    (texts : List Text) (hab : related a b) :
    Alike related (m.renderAll options texts a) (m.renderAll options texts b) := by
  induction texts generalizing a b with
  | nil => exact .same hab (some [])
  | cons text rest ih =>
    obtain ⟨result, a', b', ha, hb, hab'⟩ := h options text a b hab
    rw [Meaning.renderAll, Meaning.renderAll, ha, hb]
    cases result with
    | none => exact .same hab' none
    | some text => exact (ih hab').map (Option.map (text :: ·))

namespace Call

variable {group : Group Meaning} (options : FormatOptions) (span : Span)

theorem alike_rewriteBy {m : Meaning} (h : m.Respects related .format) (hab : related a b) :
    Alike related (rewriteBy m options span a) (rewriteBy m options span b) :=
  (h options span.text a b hab).map (Option.map span.rewrite)

theorem alike_branch {m : Option Meaning} (h : ∀ n ∈ m, n.Respects related .format)
    (hab : related a b) : Alike related (branch options m span a) (branch options m span b) := by
  cases m with
  | none => exact .same hab (some span)
  | some n => exact alike_rewriteBy options span (h n rfl) hab

theorem alike_pattern (h : group.Suits related .pattern) (hab : related a b) :
    Alike related (pattern group span a) (pattern group span b) := by
  rw [pattern, pattern]
  cases hm : group.nested? 0 with
  | none => exact .same hab none
  | some m =>
    have hcheck := h.nested ⟨0, rfl, hm⟩ span.text a b hab
    obtain ⟨ha, hb⟩ | ⟨spans, a', b', ha, hb, hab'⟩ := Alike.of_rel hcheck
    · simp only [Option.bind_some, ha, hb]
      exact .same hab none
    · simp only [Option.bind_some, ha, hb]
      exact .same hab' (some span)

theorem alike_format (h : group.Suits related .format) (hab : related a b) :
    Alike related (format options group span a) (format options group span b) := by
  rw [format, format]
  cases hm : group.nested? 0 with
  | none => exact .same hab none
  | some m => exact alike_rewriteBy options span (h.nested ⟨0, rfl, hm⟩) hab

theorem alike_ifelse (h : group.Suits related .ifelse) (hab : related a b) :
    Alike related (ifelse options group span a) (ifelse options group span b) := by
  rw [ifelse, ifelse]
  cases hm : group.nested? 0 with
  | none => exact .same hab none
  | some m =>
    have hcheck := h.nested ⟨0, rfl, hm⟩ span.text a b hab
    obtain ⟨ha, hb⟩ | ⟨spans, a', b', ha, hb, hab'⟩ := Alike.of_rel hcheck
    · simp only [ha, hb]
      exact alike_branch options span (fun n hn => h.nested ⟨2, rfl, hn⟩) hab
    · simp only [ha, hb]
      exact alike_branch options span (fun n hn => h.nested ⟨1, rfl, hn⟩) hab'

theorem alike_split (h : group.Suits related .split) (hab : related a b) :
    Alike related (split options group span a) (split options group span b) := by
  rw [split, split]
  cases hm : group.nested? 1 with
  | none => exact .same hab none
  | some m =>
    have hrespects : m.Respects related .format := h.nested ⟨1, rfl, hm⟩
    have hrender := hrespects.renderAll options
      (Casing.sensitive.between (group.text 0) span.text) hab
    exact hrender.map (Option.map fun texts => span.rewrite ((joiner group).intercalate texts))

theorem alike_validate (h : group.Suits related .validate) (hab : related a b) :
    Alike related (validate options group span a) (validate options group span b) := by
  rw [validate, validate, h.asks rfl a b hab]
  cases hm : group.nested? 1 with
  | none => exact .same hab none
  | some m =>
    cases b.resolve? (group.text 0) with
    | none => exact .same hab none
    | some actual =>
      have hrespects : m.Respects related .format := h.nested ⟨1, rfl, hm⟩
      exact (hrespects options span.text a b hab).map fun text =>
        if text.any ((group.casing 1).sameText actual) then some span else none

theorem alike_copy (h : group.Suits related .copy) (hab : related a b) :
    Alike related (copy group span a) (copy group span b) := by
  have copies := h.copies rfl
  refine ⟨some span, _, _, rfl, rfl, ?_⟩
  cases hname : group.text 0 with
  | nil => exact hab
  | cons c cs =>
    rw [hname] at copies
    exact copies (List.cons_ne_nil c cs) span.text a b hab

end Call

/-- Every call is alike on related maps if the relation suits it. -/
theorem Function.alike_evaluate {f : Function} {group : Group Meaning} (h : group.Suits related f)
    (options : FormatOptions) (span : Span) (hab : related a b) :
    Alike related (f.evaluate options group span a) (f.evaluate options group span b) := by
  cases f with
  | copy => exact Call.alike_copy span h hab
  | format => exact Call.alike_format options span h hab
  | ifelse => exact Call.alike_ifelse options span h hab
  | pattern => exact Call.alike_pattern span h hab
  | split => exact Call.alike_split options span h hab
  | validate => exact Call.alike_validate options span h hab
  -- the other functions neither look at the parameters nor change them
  | append | charset | contains | delete | delimit | ends | equals | insert | length | number32
  | number64 | replace | resize | starts | strip => exact .same hab _

theorem Combinator.alike_run {γ : Type} (c : Combinator)
    {evaluate : γ → Span → Params → Option Span × Params} {groups : List γ}
    (step : ∀ group ∈ groups, ∀ span a b, related a b →
      Alike related (evaluate group span a) (evaluate group span b))
    (last : Option Bool) (span : Span) (hab : related a b) :
    ∃ verdict final a' b', c.run evaluate last groups span a = (verdict, final, a') ∧
      c.run evaluate last groups span b = (verdict, final, b') ∧ related a' b' := by
  induction groups generalizing last span a b with
  | nil => exact ⟨c.finish last, span, a, b, rfl, rfl, hab⟩
  | cons group rest ih =>
    obtain ⟨result, a', b', ha, hb, hab'⟩ := step group List.mem_cons_self span a b hab
    have hrest : ∀ g ∈ rest, ∀ span a b, related a b →
        Alike related (evaluate g span a) (evaluate g span b) :=
      fun g hg => step g (List.mem_cons_of_mem _ hg)
    simp only [run, ha, hb]
    cases c.step last result.isSome with
    | decided verdict => exact ⟨verdict, result.getD span, a', b', rfl, rfl, hab'⟩
    | undecided last => exact ih hrest last (result.getD span) hab'

theorem Tag.alike_evaluate {tag : Tag Meaning} (h : tag.Suits related) (mode : Mode)
    (options : FormatOptions) (span : Span) (hab : related a b) :
    ∃ verdict final a' b', tag.evaluate mode options span a = (verdict, final, a') ∧
      tag.evaluate mode options span b = (verdict, final, b') ∧ related a' b' := by
  unfold evaluate
  cases hf : tag.function with
  | none => exact ⟨mode = .format, span, a, b, rfl, rfl, hab⟩
  | some f =>
    obtain ⟨verdict, final, a', b', ha, hb, hab'⟩ := tag.operators.combinator.alike_run
      (fun group hg span _ _ hab => Function.alike_evaluate (h f hf group hg) options span hab)
      none span hab
    simp only [ha, hb]
    exact ⟨verdict != tag.operators.negated, final, a', b', rfl, rfl, hab'⟩

theorem alike_evaluateAll {tags : List (Tag Meaning)} (h : ∀ tag ∈ tags, tag.Suits related)
    (mode : Mode) (options : FormatOptions) (span : Span) (hab : related a b) :
    ∃ verdict final a' b', evaluateAll mode options tags span a = (verdict, final, a') ∧
      evaluateAll mode options tags span b = (verdict, final, b') ∧ related a' b' := by
  induction tags generalizing span a b with
  | nil => exact ⟨true, span, a, b, rfl, rfl, hab⟩
  | cons tag rest ih =>
    obtain ⟨verdict, final, a', b', ha, hb, hab'⟩ :=
      tag.alike_evaluate (h tag List.mem_cons_self) mode options span hab
    rw [evaluateAll, evaluateAll, ha, hb]
    cases verdict with
    | true => exact ih (fun t ht => h t (List.mem_cons_of_mem _ ht)) final hab'
    | false => exact ⟨false, final, a', b', rfl, rfl, hab'⟩

theorem Slice.alike_evaluate? {slice : Slice Meaning}
    (h : ∀ p text, slice = .capture p text → p.Suits related .check) (position : Nat) (hab : related a b) :
    Option.Rel (Alike related) (slice.evaluate? position a) (slice.evaluate? position b) := by
  cases slice with
  | literal text => exact .some (.same hab _)
  | capture p text =>
    have hp := h p text rfl
    obtain ⟨verdict, final, a', b', ha, hb, hab'⟩ :=
      alike_evaluateAll hp.tags .check .inCheck (.parameter p.name text position) hab
    rw [evaluate?, evaluate?, ha, hb]
    cases verdict with
    | false => exact .none
    | true =>
      refine .some ⟨_, _, _, rfl, rfl, ?_⟩
      cases hempty : p.isAnonymous with
      | true => exact hab'
      | false =>
        have hname : p.name ≠ [] := List.isEmpty_eq_false_iff.1 hempty
        exact hp.stores rfl hname final.text a' b' hab'

theorem Slice.alike_evaluateFrom? {slices : List (Slice Meaning)}
    (h : ∀ slice ∈ slices, ∀ p text, slice = .capture p text → p.Suits related .check) (position : Nat)
    (hab : related a b) :
    Option.Rel (Alike related) (evaluateFrom? position a slices) (evaluateFrom? position b slices) := by
  induction slices generalizing position a b with
  | nil => exact .some (.same hab [])
  | cons slice rest ih =>
    have hfirst := alike_evaluate? (h slice List.mem_cons_self) position hab
    obtain ⟨ha, hb⟩ | ⟨spans, a', b', ha, hb, hab'⟩ := Alike.of_rel hfirst
    · simp only [evaluateFrom?, Option.bind_eq_bind, ha, hb]
      exact .none
    · have hrest := ih (fun s hs => h s (List.mem_cons_of_mem _ hs))
        (position + slice.text.size) hab'
      simp only [evaluateFrom?, Option.bind_eq_bind, ha, hb, Option.bind_some]
      obtain ⟨ha, hb⟩ | ⟨more, a'', b'', ha, hb, hab''⟩ := Alike.of_rel hrest
      · simp only [ha, hb]
        exact .none
      · simp only [ha, hb]
        exact .some (.same hab'' (spans ++ more))

theorem Slice.parameter_mem_of_fits {π : Type} {parts : List (Part π)} {slices : List (Slice π)}
    (h : List.Forall₂ Fits parts slices) {p : Parameter π} {text : Text}
    (hs : .capture p text ∈ slices) : .parameter p ∈ parts := by
  induction h with
  | nil => cases hs
  | @cons part slice parts slices hfits _ ih =>
    rcases List.mem_cons.1 hs with rfl | hs
    · cases part with
      | literal l => cases hfits
      | parameter q =>
        obtain ⟨rfl, -⟩ := hfits
        exact List.mem_cons_self
    · exact List.mem_cons_of_mem _ (ih hs)

theorem Layer.alike_check {layer : Layer Meaning}
    (h : ∀ p ∈ layer.parameters, p.Suits related .check) (text : Text) (hab : related a b) :
    Option.Rel (Alike related) (layer.check text a) (layer.check text b) := by
  rw [check, check]
  cases hsplit : splitParts? [] layer.parts text with
  | none => exact .none
  | some slices =>
    refine Slice.alike_evaluateFrom? ?_ 0 hab
    intro slice hslice p text hp
    subst hp
    have hpart := Slice.parameter_mem_of_fits (of_splitParts? hsplit).2 hslice
    exact h p (mem_parameters_iff.2 hpart)

theorem Parameter.alike_value {p : Parameter Meaning} {options : FormatOptions}
    (shows : Params.Shows related p.name)
    (removes : options.removeConsumed = true → p.name ≠ [] → Params.Removes related p.name)
    (hab : related a b) : Alike related (p.value options a) (p.value options b) := by
  have hresolve := shows a b hab
  cases hempty : p.isAnonymous with
  | true =>
    have hname : p.name = [] := List.isEmpty_iff.1 hempty
    rw [hname] at hresolve
    simp only [value, hempty, ↓reduceIte, hresolve]
    exact .same hab _
  | false =>
    have hname : p.name ≠ [] := List.isEmpty_eq_false_iff.1 hempty
    simp only [value, hempty, Bool.false_eq_true, ↓reduceIte, hresolve]
    refine ⟨_, _, _, rfl, rfl, ?_⟩
    cases hremove : options.removeConsumed with
    | true => exact removes hremove hname a b hab
    | false => exact hab

theorem Parameter.alike_format {p : Parameter Meaning} (h : p.Suits related .format)
    {options : FormatOptions}
    (removes : options.removeConsumed = true → p.name ≠ [] → Params.Removes related p.name)
    (hab : related a b) : Alike related (p.format options a) (p.format options b) := by
  obtain ⟨value, a', b', ha, hb, hab'⟩ := alike_value (h.shows rfl) removes hab
  rw [format, format, ha, hb]
  cases value with
  | none => exact .same hab' none
  | some value =>
    obtain ⟨verdict, final, a'', b'', ha, hb, hab''⟩ :=
      alike_evaluateAll h.tags .format options (.parameter p.name value 0) hab'
    simp only [ha, hb]
    cases verdict with
    | true => exact .same hab'' (some final)
    | false => exact .same hab'' _

theorem alike_formatParts {parts : List (Part Meaning)} {options : FormatOptions}
    (h : ∀ p, .parameter p ∈ parts → p.Suits related .format)
    (removes : options.removeConsumed = true → ∀ p, .parameter p ∈ parts → p.name ≠ [] →
      Params.Removes related p.name)
    (hab : related a b) :
    Alike related (formatParts options parts a) (formatParts options parts b) := by
  induction parts generalizing a b with
  | nil => exact .same hab (some [])
  | cons part rest ih =>
    have hpart : Alike related (part.format options a) (part.format options b) := by
      cases part with
      | literal l => exact .same hab (some l.span)
      | parameter p =>
        exact Parameter.alike_format (h p List.mem_cons_self)
          (fun hremove => removes hremove p List.mem_cons_self) hab
    obtain ⟨result, a', b', ha, hb, hab'⟩ := hpart
    rw [formatParts, formatParts, ha, hb]
    cases result with
    | none => exact .same hab' none
    | some span =>
      have hrest := ih (fun p hp => h p (List.mem_cons_of_mem _ hp))
        (fun hremove p hp => removes hremove p (List.mem_cons_of_mem _ hp)) hab'
      exact hrest.map (Option.map (span :: ·))

theorem Layer.alike_format {layer : Layer Meaning}
    (h : ∀ p ∈ layer.parameters, p.Suits related .format) {options : FormatOptions}
    (removes : options.removeConsumed = true → ∀ p ∈ layer.parameters, p.name ≠ [] →
      Params.Removes related p.name)
    (hab : related a b) : Alike related (layer.format options a) (layer.format options b) :=
  alike_formatParts (fun p hp => h p (mem_parameters_iff.2 hp))
    (fun hremove p hp => removes hremove p (mem_parameters_iff.2 hp)) hab

end Stencil
