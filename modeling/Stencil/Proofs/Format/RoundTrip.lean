import Stencil.Proofs.Check.Coverage
import Stencil.Proofs.Compile.Literals
import Stencil.Proofs.Evaluate.Conditions
import Stencil.Proofs.Levels
import Stencil.Proofs.Params.Lookup

/-! # Formatting what was checked

A check stores what every parameter captured. If its tags only ask, they give the same answers when
the stored texts are formatted, so the text is put together again: captures as they were, literals
as the pattern writes them. -/
namespace Stencil

variable {π ρ : Type}

/-- What these parameters capture can be told apart and is not changed: every one has a name of its
own, and all tags only ask. -/
structure Recorded (ps : List (Parameter π)) : Prop where
  named : ∀ p ∈ ps, p.name ≠ []
  distinct : (ps.map (·.name)).Nodup
  conditions : ∀ p ∈ ps, ∀ tag ∈ p.tags, tag.IsCondition

namespace Recorded

theorem tail {p : Parameter π} {ps : List (Parameter π)} (h : Recorded (p :: ps)) : Recorded ps where
  named q hq := h.named q (List.mem_cons_of_mem _ hq)
  distinct := (List.nodup_cons.1 h.distinct).2
  conditions q hq := h.conditions q (List.mem_cons_of_mem _ hq)

theorem map {ps : List (Parameter π)} (h : Recorded ps) (g : π → ρ) :
    Recorded (ps.map (.map g)) where
  named := by
    intro q hq
    obtain ⟨p, hp, rfl⟩ := List.mem_map.1 hq
    exact h.named p hp
  distinct := by
    rw [List.map_map]
    exact h.distinct
  conditions := by
    intro q hq tag ht
    obtain ⟨p, hp, rfl⟩ := List.mem_map.1 hq
    obtain ⟨plain, hplain, rfl⟩ := List.mem_map.1 ht
    exact h.conditions p hp plain hplain

end Recorded

theorem Parameter.isAnonymous_eq_false {p : Parameter π} (named : p.name ≠ []) :
    p.isAnonymous = false := by
  rw [isAnonymous, List.isEmpty_eq_false_iff]
  exact named

/-- The tags accept the text, in every mode and for all options. -/
def Parameter.Accepts (p : Parameter Meaning) (text : Text) : Prop :=
  ∀ mode options span params, span.text = text →
    evaluateAll mode options p.tags span params = (true, span, params)

/-- A literal stands in the text, or a parameter accepts the text and it is held under its name. -/
def Part.Holds (params : Params) : Part Meaning → Text → Prop
  | .literal l, text => l.casing.sameText text l.text = true
  | .parameter p, text => params.resolve? p.name = some text ∧ p.Accepts text

namespace Slice

theorem insert_of_evaluate? {p : Parameter Meaning} {text : Text} {position : Nat}
    {params after : Params} {spans : List Span} (named : p.name ≠ [])
    (conditions : ∀ tag ∈ p.tags, tag.IsCondition)
    (h : (capture p text).evaluate? position params = some (spans, after)) :
    after = params.insert p.name (.text text) ∧ p.Accepts text := by
  obtain ⟨answer, hanswer⟩ := exists_answer_evaluateAll conditions
  have hnamed := Parameter.isAnonymous_eq_false named
  rw [evaluate?, hanswer] at h
  cases ha : answer text with
  | false =>
    simp only [Span.parameter, ha] at h
    cases h
  | true =>
    simp only [Span.parameter, ha, hnamed, Bool.false_eq_true, ↓reduceIte, Option.some.injEq,
      Prod.mk.injEq] at h
    refine ⟨h.2.symm, ?_⟩
    intro mode options span params ht
    rw [hanswer, ht, ha]

/-- After a check every capture is held under its name, and all other names hold what they held. -/
theorem holds_of_evaluateFrom? {parts : List (Part Meaning)} {slices : List (Slice Meaning)}
    {position : Nat} {params after : Params} {spans : List Span}
    (fits : List.Forall₂ Fits parts slices) (recorded : Recorded (parts.filterMap (·.parameter?)))
    (h : evaluateFrom? position params slices = some (spans, after)) :
    List.Forall₂ (Part.Holds after) parts (slices.map Slice.text) ∧
      ∀ name ∉ (parts.filterMap (·.parameter?)).map (·.name),
        after.resolve? name = params.resolve? name := by
  induction fits generalizing position params spans with
  | nil =>
    cases h
    exact ⟨.nil, fun _ _ => rfl⟩
  | @cons part slice parts slices hfits _ ih =>
    simp only [evaluateFrom?, Option.bind_eq_bind, Option.bind_eq_some_iff, Prod.exists] at h
    obtain ⟨first, between, hf, more, last, hm, he⟩ := h
    cases he
    cases part with
    | literal l =>
      obtain ⟨text, rfl, hsame⟩ := fits_literal_iff.1 hfits
      cases hf
      obtain ⟨hholds, hframe⟩ := ih recorded hm
      exact ⟨.cons hsame hholds, hframe⟩
    | parameter p =>
      obtain ⟨text, rfl⟩ := fits_parameter_iff.1 hfits
      obtain ⟨rfl, haccepts⟩ := insert_of_evaluate? (recorded.named p List.mem_cons_self)
        (recorded.conditions p List.mem_cons_self) hf
      obtain ⟨hholds, hframe⟩ := ih recorded.tail hm
      have hfresh := (List.nodup_cons.1 recorded.distinct).1
      -- no later parameter has the name, so the value is still there at the end
      have hself : after.resolve? p.name = some text := by
        rw [hframe p.name hfresh, Params.resolve?_insert_self]
        rfl
      refine ⟨.cons ⟨hself, haccepts⟩ hholds, ?_⟩
      intro name hname
      have hne : name ≠ p.name := List.ne_of_not_mem_cons hname
      rw [hframe name (List.not_mem_of_not_mem_cons hname), Params.resolve?_insert_of_ne hne]

end Slice

theorem Parameter.exists_format {p : Parameter Meaning} {params : Params} {text : Text}
    (options : FormatOptions) (named : p.name ≠ []) (held : params.resolve? p.name = some text)
    (accepts : p.Accepts text) :
    ∃ after, p.format options params = (some (.parameter p.name text 0), after) ∧
      ∀ name, name ≠ p.name → after.resolve? name = params.resolve? name := by
  have hnamed := isAnonymous_eq_false named
  have hvalue : p.value options params =
      (some text, if options.removeConsumed then params.erase p.name else params) := by
    rw [value, hnamed]
    simp only [Bool.false_eq_true, ↓reduceIte, held, Option.getD_some, ite_self]
  refine ⟨if options.removeConsumed then params.erase p.name else params, ?_, ?_⟩
  · rw [format, hvalue]
    simp only [accepts .format options (.parameter p.name text 0) _ rfl]
  · intro name hname
    cases options.removeConsumed with
    | true => exact Params.resolve?_erase_of_ne hname params
    | false => rfl

/-- The text that is held under the parameter's name. -/
def Parameter.held (p : Parameter π) (params : Params) : Text := (params.resolve? p.name).getD []

/-- What a part is formatted to, when its parameters have these values. -/
def Part.filled (value : Parameter π → Text) : Part π → Text
  | .literal l => l.text
  | .parameter p => value p

theorem exists_formatParts_filled {parts : List (Part Meaning)} {params : Params}
    {value : Parameter Meaning → Text} (options : FormatOptions)
    (recorded : Recorded (parts.filterMap (·.parameter?)))
    (held : ∀ p ∈ parts.filterMap (·.parameter?), params.resolve? p.name = some (value p))
    (accepts : ∀ p ∈ parts.filterMap (·.parameter?), p.Accepts (value p)) :
    ∃ spans, (formatParts options parts params).1 = some spans ∧
      Span.render spans = parts.flatMap (Part.filled value) := by
  induction parts generalizing params with
  | nil => exact ⟨[], rfl, rfl⟩
  | cons part parts ih =>
    cases part with
    | literal l =>
      obtain ⟨spans, hs, hrender⟩ := ih recorded held accepts
      refine ⟨l.span :: spans, ?_, ?_⟩
      · simp only [formatParts, Part.format, hs, Option.map_some]
      · rw [Span.render_cons, hrender]
        rfl
    | parameter p =>
      obtain ⟨after, hf, hframe⟩ :=
        Parameter.exists_format options (recorded.named p List.mem_cons_self)
          (held p List.mem_cons_self) (accepts p List.mem_cons_self)
      have hfresh := (List.nodup_cons.1 recorded.distinct).1
      have hafter : ∀ q ∈ parts.filterMap (·.parameter?), after.resolve? q.name = some (value q) := by
        intro q hq
        have hne : q.name ≠ p.name := fun he => hfresh (List.mem_map.2 ⟨q, hq, he⟩)
        rw [hframe q.name hne]
        exact held q (List.mem_cons_of_mem _ hq)
      obtain ⟨spans, hs, hrender⟩ :=
        ih recorded.tail hafter fun q hq => accepts q (List.mem_cons_of_mem _ hq)
      refine ⟨.parameter p.name (value p) 0 :: spans, ?_, ?_⟩
      · simp only [formatParts, Part.format, hf, hs, Option.map_some]
      · rw [Span.render_cons, hrender]
        rfl

/-- What holds the pieces of a text has a value for every parameter, which the tags accept; filled in,
the values give the text again, but for the case of literals. -/
theorem Part.Holds.filled {parts : List (Part Meaning)} {pieces : List Text} {params : Params}
    {casing : Casing} (compares : ∀ part ∈ parts, part.Compares casing)
    (holds : List.Forall₂ (Holds params) parts pieces) :
    (∀ p ∈ parts.filterMap (·.parameter?), params.resolve? p.name = some (p.held params) ∧
      p.Accepts (p.held params)) ∧
    casing.sameText (parts.flatMap (Part.filled (·.held params))) pieces.flatten = true := by
  induction holds with
  | nil =>
    refine ⟨?_, Casing.sameText_refl casing []⟩
    intro p hp
    cases hp
  | @cons part piece parts pieces hpart _ ih =>
    obtain ⟨ready, hsame⟩ := ih fun q hq => compares q (List.mem_cons_of_mem _ hq)
    rw [List.flatMap_cons, List.flatten_cons]
    cases part with
    | literal l =>
      have hcasing : l.casing = casing := compares (.literal l) List.mem_cons_self
      have hliteral : casing.sameText l.text piece = true := by
        rw [← hcasing]
        exact Casing.sameText_symm hpart
      exact ⟨ready, Casing.sameText_append hliteral hsame⟩
    | parameter p =>
      obtain ⟨hheld, haccepts⟩ := hpart
      have hpiece : p.held params = piece := by
        rw [Parameter.held, hheld]
        rfl
      refine ⟨?_, ?_⟩
      · intro q hq
        rcases List.mem_cons.1 hq with rfl | hq
        · rw [hpiece]
          exact ⟨hheld, haccepts⟩
        · exact ready q hq
      · rw [Part.filled, hpiece]
        exact Casing.sameText_append (Casing.sameText_refl casing piece) hsame

theorem exists_formatParts {parts : List (Part Meaning)} {pieces : List Text} {params : Params}
    {casing : Casing} (options : FormatOptions)
    (recorded : Recorded (parts.filterMap (·.parameter?)))
    (compares : ∀ part ∈ parts, part.Compares casing)
    (holds : List.Forall₂ (Part.Holds params) parts pieces) :
    ∃ spans, (formatParts options parts params).1 = some spans ∧
      casing.sameText (Span.render spans) pieces.flatten = true := by
  obtain ⟨ready, hsame⟩ := Part.Holds.filled compares holds
  obtain ⟨spans, hs, hrender⟩ := exists_formatParts_filled options recorded
    (fun p hp => (ready p hp).1) (fun p hp => (ready p hp).2)
  refine ⟨spans, hs, ?_⟩
  rw [hrender]
  exact hsame

namespace Pattern

/-- What a pattern of recorded parameters has checked it formats again: the same text where case
matters, and the same but for the case of the literals where it does not. -/
theorem exists_formatText_of_check (source : Text) (options : Options) {text : Text}
    {params after : Params} {spans : List Span} (formatOptions : FormatOptions)
    (named : ∀ p ∈ (compile source options).layer.parameters, p.name ≠ [])
    (distinct : ((compile source options).layer.parameters.map (·.name)).Nodup)
    (conditions : ∀ p ∈ (compile source options).layer.parameters, ∀ tag ∈ p.tags,
      ∃ f ∈ Function.conditions, tag.function = some f)
    (h : (compile source options).check text params = some (spans, after)) :
    ∃ t, ((compile source options).formatText formatOptions after).1 = some t ∧
      (options.casing = .sensitive → t = text) ∧ Casing.insensitive.sameText t text = true := by
  have recorded := (Recorded.mk named distinct conditions).map fun nested => nested.meaningAt 1
  have compares := compares_compile source options
  generalize compile source options = p at h recorded compares
  rw [← Layer.parameters_map] at recorded
  have hcompares : ∀ part ∈ (p.levelAt 0).parts, part.Compares options.casing := by
    intro part hpart
    obtain ⟨plain, hplain, rfl⟩ := List.mem_map.1 hpart
    have hc := compares plain hplain
    cases plain with
    | literal l => exact hc
    | parameter q => trivial
  rw [check_eq] at h
  obtain ⟨slices, hs, he⟩ := Option.bind_eq_some_iff.1 h
  obtain ⟨hflat, hfits⟩ := of_splitParts? hs
  obtain ⟨hholds, -⟩ := Slice.holds_of_evaluateFrom? hfits recorded he
  obtain ⟨found, hformat, hsame⟩ := exists_formatParts formatOptions recorded hcompares hholds
  rw [← List.flatMap_def, hflat] at hsame
  refine ⟨Span.render found, ?_, ?_, Casing.sameText_insensitive hsame⟩
  · have hspans : (p.format formatOptions after).1 = some found := by
      rw [format_eq]
      exact hformat
    simp only [formatText, hspans, Option.map_some]
  · intro hcasing
    rw [hcasing] at hsame
    exact Casing.sameText_sensitive_iff.1 hsame

/-- A pattern that ignores case, with tags of several groups and an inverted one. -/
def keyed : Pattern :=
  compile "%[key{charset=abc}] IS %[value{length(and)=1,9;4}{starts(not)=-}]".toList
    { casing := .insensitive }

/-- The literal comes back as the pattern writes it, so the text is the same but for case. -/
theorem exists_formatText_of_check_keyed :
    (∀ p ∈ keyed.layer.parameters, p.name ≠ []) ∧
    (keyed.layer.parameters.map (·.name)).Nodup ∧
    (∀ p ∈ keyed.layer.parameters, ∀ tag ∈ p.tags, ∃ f ∈ Function.conditions, tag.function = some f) ∧
    ∃ spans after t, keyed.check "Cab is élan".toList .empty = some (spans, after) ∧
      (keyed.formatText ⟨false, false, true⟩ after).1 = some t ∧
      Casing.insensitive.sameText t "Cab is élan".toList = true := by
  have facts : (∀ p ∈ keyed.layer.parameters, p.name ≠ []) ∧
      (keyed.layer.parameters.map (·.name)).Nodup ∧
      (∀ p ∈ keyed.layer.parameters, ∀ tag ∈ p.tags,
        ∃ f ∈ Function.conditions, tag.function = some f) ∧
      (keyed.check "Cab is élan".toList .empty).isSome = true := by decide +kernel
  obtain ⟨named, distinct, conditions, hcheck⟩ := facts
  obtain ⟨⟨spans, after⟩, h⟩ := Option.isSome_iff_exists.1 hcheck
  obtain ⟨t, ht, -, hsame⟩ := exists_formatText_of_check _ _ _ named distinct conditions h
  exact ⟨named, distinct, conditions, spans, after, t, h, ht, hsame⟩

end Pattern

end Stencil
