import Stencil.Proofs.Compile.Capture
import Stencil.Proofs.Compile.Values
import Stencil.Proofs.Draft.Printed
import Stencil.Proofs.Format.Delimited
import Stencil.Proofs.Nesting

/-! # A pattern as an argument

A source that can stand among arguments is read as one argument, and it is compiled there as on its
own under a bound that is one level lower. So a call that checks or formats by a nested pattern checks
or formats what the pattern does by itself (`Pattern.embedded_means_own`). -/
namespace Stencil

/-- A parameter with one call, of which the source is the only argument. -/
def Text.embed (f : Function) (source : Text) : Text :=
  "%[v\x7b".toList ++ (f.name ++ '=' :: (source ++ "\x7d]".toList))

section

variable {source : Text} (nestable : Nestable source) (f : Function)

theorem Function.nestable_name (f : Function) : Nestable f.name :=
  nestable_of_not_special fun c hc => isSpecial_of_isAlphanum (f.isAlphanum_of_mem_name c hc)

theorem Text.embed_eq (source : Text) : source.embed f = .capture "v".toList (f.name ++ '=' :: source) := by
  simp only [embed, capture, List.append_assoc, List.cons_append]
  rfl

theorem symbols_call (source : Text) :
    symbols (f.name ++ '=' :: source) = symbols f.name ++ .bare '=' :: symbols source := by
  rw [f.nestable_name.settled.symbols_append, symbols_cons (by decide)]

include nestable

theorem settled_call : Text.Settled (f.name ++ '=' :: source) :=
  f.nestable_name.settled.append (nestable.settled.cons (by decide))

theorem balanced_call : Balanced [] (symbols (f.name ++ '=' :: source)) := by
  rw [symbols_call]
  have hname : Balanced [] (symbols f.name) := f.nestable_name.balanced.mono (by decide)
  have hsource : Balanced [] (symbols source) := nestable.balanced.mono (by decide)
  exact hname.append (.plain ⟨rfl, rfl, by decide⟩ hsource)

theorem nestable_embed : Nestable (source.embed f) := by
  rw [Text.embed_eq]
  exact nestable_capture (settled_call nestable f) (balanced_call nestable f) _

end

def Tag.calling {π : Type} (f : Function) (casing : Casing) (nested : π) : Tag π :=
  ⟨f.name, some f, .empty, [⟨[some ⟨.nested nested, casing⟩]⟩]⟩

def Parameter.calling {π : Type} (f : Function) (casing : Casing) (nested : π) (place : ByteRange) :
    Parameter π :=
  ⟨"v".toList, [.calling f casing nested], none, none, place⟩

section

variable {π : Type} {source : Text} (nestable : Nestable source) (nonempty : source ≠ [])
  {f : Function} (slots : f.slots = [.nested]) (nested : Clause.Nest π) (options : Options)

include nestable nonempty

theorem Site.components_nestable : components (symbols source) = [symbols source] := by
  have hcomma : Balanced [','] (symbols source) := nestable.balanced.mono (by decide)
  have hsymbols : (symbols source).isEmpty = false := by
    rw [List.isEmpty_eq_false_iff, ne_eq, symbols_eq_nil_iff]
    exact nonempty
  rw [components, hsymbols]
  exact splitOutside_of_balanced rfl hcomma

include slots

theorem Site.groups_nestable (casing : Casing) (position : Nat) :
    ((Site.mk f casing nested).groups position (symbols source)).value =
      [⟨[some ⟨.nested (nested position (symbols source)).value, casing⟩]⟩] := by
  have hsemicolon : Balanced [';'] (symbols source) := nestable.balanced.mono (by decide)
  have hgroups : splitOutside ';' [] (symbols source) = [symbols source] :=
    splitOutside_of_balanced rfl hsemicolon
  have hcomponents := components_nestable nestable nonempty
  have hgroup : ((Site.mk f casing nested).group position (symbols source)).value =
      ⟨[some ⟨.nested (nested position (symbols source)).value, casing⟩]⟩ := by
    simp only [group, hcomponents, located, slots]
    rfl
  rw [groups, hgroups]
  exact congrArg (fun group => [group]) hgroup

theorem Clause.exists_compile_call (position : Nat) :
    ∃ start, (compile options nested position (symbols (f.name ++ '=' :: source))).value =
      .tag (.calling f options.casing (nested start (symbols source)).value) := by
  refine ⟨position + writtenSize (symbols f.name) + 1, ?_⟩
  have hhead := isHead_of_isAlphanum f.isAlphanum_of_mem_name
  have hgroups := Site.groups_nestable nestable nonempty slots nested options.casing
    (position + writtenSize (symbols f.name) + 1)
  rw [symbols_call, hhead.compile_eq (splitHead_of_isAlphanum f.isAlphanum_of_mem_name),
    Function.lower_name, Directive.ofName?_name]
  simp only [call, Resolution.ofName?_name]
  exact congrArg (fun groups => tag ⟨f.name, some f, .empty, groups⟩) hgroups

theorem Layer.exists_parts_embed : ∃ start place,
    (compile options nested (symbols (source.embed f))).parts =
      [.parameter (.calling f options.casing (nested start (symbols source)).value place)] := by
  obtain ⟨position, place, hparts, -⟩ := exists_compile_capture options nested
    (settled_call nestable f) (balanced_call nestable f) "v".toList
  obtain ⟨start, hclause⟩ :=
    Clause.exists_compile_call nestable nonempty slots nested options position
  refine ⟨start, place, ?_⟩
  rw [Text.embed_eq, hparts, hclause]
  rfl

end

theorem Layer.meaning_congr {layer other : Layer Meaning} (h : layer.parts = other.parts) :
    layer.meaning = other.meaning := by
  have hcheck : layer.check = other.check := by
    funext text params
    rw [check, check, h]
  have hformat : layer.format = other.format := by
    funext options params
    rw [format, format, h]
  rw [meaning, meaning, hcheck, hformat]

namespace Pattern

/-- What a source means below so many levels does not depend on the bound that is reported. -/
theorem unguarded_compileNested_congr (options options' : Options)
    (compares : options.casing = options'.casing) (levels position position' : Nat)
    (raw : List Symbol) :
    (compileNested options levels position raw).value.unguarded =
      (compileNested options' levels position' raw).value.unguarded := by
  induction levels generalizing position position' raw with
  | zero =>
    rw [compileNested, compileNested, literal, literal, unguarded_of, unguarded_of, map_ofLiteral,
      map_ofLiteral]
    refine Layer.meaning_congr ?_
    rw [Layer.ofLiteral, Layer.ofLiteral, compares]
  | succ levels ih =>
    have hsame : Clause.Nest.SameValues (.map unguarded (compileNested options levels))
        (.map unguarded (compileNested options' levels)) := fun position raw => ih position position raw
    rw [compileNested, compileNested, unguarded_of, unguarded_of, ← Layer.compile_map,
      ← Layer.compile_map]
    exact Layer.meaning_congr (Layer.parts_congr compares hsame raw)

/-- A source nested in an outermost pattern means what it means by itself one level lower. -/
theorem meaningAt_nested {options : Options} (bound : 2 ≤ options.maxDepth) (source : Text)
    (start : Nat) :
    (compileNested options (options.maxDepth - 1) start (symbols source)).value.meaningAt 1 =
      (compile source { options with maxDepth := options.maxDepth - 1 }).meaningAt 0 := by
  rcases options with ⟨casing, maxDepth⟩
  obtain ⟨levels, rfl⟩ : ∃ levels, maxDepth = levels + 2 := ⟨maxDepth - 2, by simp only at bound; omega⟩
  have hinside : (compileNested ⟨casing, levels + 2⟩ (levels + 1) start (symbols source)).value.meaningAt 1 =
      (compileNested ⟨casing, levels + 2⟩ (levels + 1) start (symbols source)).value.unguarded :=
    meaningAt_compileNested _ (Nat.le_of_eq (by simp only; omega)) start (symbols source)
  have hown : (compileNested ⟨casing, levels + 1⟩ (levels + 1) start (symbols source)).value.meaningAt 0 =
      (compileNested ⟨casing, levels + 1⟩ (levels + 1) start (symbols source)).value.unguarded :=
    meaningAt_compileNested _ (Nat.le_of_eq (by simp only; omega)) start (symbols source)
  have hsame := unguarded_compileNested_congr ⟨casing, levels + 2⟩ ⟨casing, levels + 1⟩ rfl (levels + 1)
    start start (symbols source)
  calc (compileNested ⟨casing, levels + 2⟩ (levels + 1) start (symbols source)).value.meaningAt 1
      = _ := hinside
    _ = _ := hsame
    _ = _ := hown.symm

end Pattern

theorem evaluateAll_singleton (mode : Mode) (options : FormatOptions) (tag : Tag Meaning) (span : Span)
    (params : Params) :
    evaluateAll mode options [tag] span params = tag.evaluate mode options span params := by
  rw [evaluateAll]
  split
  case h_1 he => rw [he, evaluateAll]
  case h_2 he => rw [he]

theorem Tag.evaluate_calling (f : Function) (casing : Casing) (nested : Meaning) (mode : Mode)
    (options : FormatOptions) (span : Span) (params : Params) :
    (calling f casing nested).evaluate mode options span params =
      let (result, after) := f.evaluate options ⟨[some ⟨.nested nested, casing⟩]⟩ span params
      (result.isSome, result.getD span, after) := by
  simp only [calling, evaluate, runGroups, List.isEmpty_cons, Bool.false_eq_true, ↓reduceIte,
    Combinator.run]
  rcases f.evaluate options ⟨[some ⟨.nested nested, casing⟩]⟩ span params with ⟨result, after⟩
  cases result <;> rfl

section

variable (nested : Meaning) (casing : Casing) (span : Span) (params : Params)

theorem evaluateAll_calling_pattern :
    evaluateAll .check .inCheck [.calling .pattern casing nested] span params =
      match nested.check span.text params with
      | some (_, after) => (true, span, after)
      | none => (false, span, params) := by
  have hcall : Function.pattern.evaluate .inCheck ⟨[some ⟨.nested nested, casing⟩]⟩ span params =
      match nested.check span.text params with
      | some (_, after) => (some span, after)
      | none => (none, params) := rfl
  rw [evaluateAll_singleton, Tag.evaluate_calling, hcall]
  cases nested.check span.text params <;> rfl

theorem evaluateAll_calling_format (options : FormatOptions) :
    evaluateAll .format options [.calling .format casing nested] span params =
      match nested.render options span.text params with
      | (some text, after) => (true, span.rewrite text, after)
      | (none, after) => (false, span, after) := by
  have hcall : Function.format.evaluate options ⟨[some ⟨.nested nested, casing⟩]⟩ span params =
      ((nested.render options span.text params).1.map span.rewrite,
        (nested.render options span.text params).2) := rfl
  rw [evaluateAll_singleton, Tag.evaluate_calling, hcall]
  rcases nested.render options span.text params with ⟨text, after⟩
  cases text <;> rfl

end

theorem Span.text_rewrite (span : Span) (text : Text) : (span.rewrite text).text = text := by
  unfold rewrite
  split
  case isTrue same => exact same.symm
  case isFalse => rfl

section

variable {layer : Layer Meaning} {nested : Meaning} {casing : Casing} {place : ByteRange}

theorem Layer.check_parameter {p : Parameter Meaning} (h : layer.parts = [.parameter p])
    (free : p.IsFree) (text : Text) (params : Params) :
    layer.check text params = (Slice.capture p text).evaluate? 0 params := by
  have hsplit : Part.SplitBack (fun _ => text) [.parameter p] := Part.splitBack_parameter free
  rw [Part.SplitBack, List.flatMap_singleton, Part.filled] at hsplit
  rw [check, h, hsplit]
  simp only [List.map_cons, List.map_nil, Part.slice, Slice.evaluateFrom?, Option.bind_eq_bind,
    Option.bind_some]
  cases (Slice.capture p text).evaluate? 0 params with
  | none => rfl
  | some found => simp

/-- Checking by a nested pattern is the check of that pattern, and then the text is stored. -/
theorem Layer.check_calling (h : layer.parts = [.parameter (.calling .pattern casing nested place)])
    (text : Text) (params : Params) :
    (layer.check text params).map Prod.snd =
      (nested.check text params).map fun (_, after) => after.insert "v".toList (.text text) := by
  have heval := evaluateAll_calling_pattern nested casing (.parameter "v".toList text 0) params
  rw [check_parameter h ⟨rfl, rfl⟩, Slice.evaluate?, Parameter.calling, heval, Span.parameter]
  cases nested.check text params <;> rfl

theorem Layer.format_calling (h : layer.parts = [.parameter (.calling .format casing nested place)])
    {options : FormatOptions} (stops : options.ignoreTagFailure = false)
    (keeps : options.removeConsumed = false) {params : Params} {value : Text}
    (bound : params.resolve? "v".toList = some value) :
    (layer.format options params).1.map Span.render =
      (nested.format options (params.insert [] (.text value))).1.map Span.render := by
  have hrender : (nested.render options value params).1 =
      (nested.format options (params.insert [] (.text value))).1.map Span.render := by
    rw [Meaning.render, ← keeps]
  have hvalue : (Parameter.calling Function.format casing nested place).value options params =
      (some value, params) := by
    have hnamed : (Parameter.calling Function.format casing nested place).isAnonymous = false := rfl
    rw [Parameter.value, hnamed, Parameter.calling, bound, keeps]
    cases options.ignoreMissing <;> rfl
  have heval := evaluateAll_calling_format nested casing (.parameter "v".toList value 0) params options
  have htext : (Span.parameter "v".toList value 0).text = value := rfl
  rw [format, h, formatParts, Part.format, Parameter.format, hvalue, ← hrender]
  simp only [Parameter.calling, heval, htext]
  rcases nested.render options value params with ⟨text, after⟩
  cases text with
  | none => simp [stops]
  | some text => simp [formatParts, Span.text_rewrite]

end

namespace Pattern

/-- A source with its brackets in order and no separator outside of them means as the argument of a
call what it means on its own under a bound one lower. Where the call checks by it, the same texts are
taken, and the map is the one that the source's own check leaves with the text stored; where the call
formats by it, the text is the one that the source formats with the value as its anonymous
parameter, or there is none in either case. -/
theorem embedded_means_own (source : Text) (options : Options) (bound : 2 ≤ options.maxDepth)
    (nonempty : source ≠ []) (nestable : Nestable source) :
    (∀ text params,
      ((compile (source.embed .pattern) options).check text params).map Prod.snd =
        ((compile source { options with maxDepth := options.maxDepth - 1 }).check text params).map
          fun (_, after) => after.insert "v".toList (.text text)) ∧
    ∀ formatOptions params value, formatOptions.ignoreTagFailure = false →
      formatOptions.removeConsumed = false → params.resolve? "v".toList = some value →
      ((compile (source.embed .format) options).formatText formatOptions params).1 =
        ((compile source { options with maxDepth := options.maxDepth - 1 }).formatText formatOptions
          (params.insert [] (.text value))).1 := by
  have hlevel {f : Function} (slots : f.slots = [.nested]) : ∃ place,
      ((compile (source.embed f) options).levelAt 0).parts = [.parameter (.calling f options.casing
        ((compile source { options with maxDepth := options.maxDepth - 1 }).meaningAt 0) place)] := by
    obtain ⟨start, place, hparts⟩ := Layer.exists_parts_embed nestable nonempty slots
      (compileNested options (options.maxDepth - 1)) options
    refine ⟨place, ?_⟩
    rw [← meaningAt_nested bound source start]
    exact congrArg (List.map (Part.map fun nested => nested.meaningAt 1)) hparts
  constructor
  · intro text params
    obtain ⟨place, hparts⟩ := hlevel (f := .pattern) rfl
    rw [check_eq, Layer.check_calling hparts]
    rfl
  · intro formatOptions params value stops keeps hvalue
    obtain ⟨place, hparts⟩ := hlevel (f := .format) rfl
    have hformat := Layer.format_calling hparts stops keeps hvalue
    simp only [formatText, format_eq (compile (source.embed .format) options)]
    exact hformat

def separating : Text := "\\;[,]%[b]".toList

theorem nestable_separating : Nestable separating := by
  refine ⟨?_, ?_⟩
  · show .dangling ∉ symbols separating
    decide +kernel
  · have hb : Balanced [',', ';'] (.bare '%' :: Bracket.square.opener ::
        ([.bare 'b'] ++ Bracket.square.closer :: [])) :=
      .plain ⟨rfl, rfl, by decide⟩ (.wrap .square (.plain ⟨rfl, rfl, by decide⟩ .nil) .nil)
    exact .plain (Symbol.plain_escaped _ ';') (.wrap .square (.plain ⟨rfl, rfl, by decide⟩ .nil) hb)

/-- A call in a call, where both parameters have the same name. -/
theorem embedded_means_own_twice :
    2 ≤ 3 ∧ separating.embed .pattern ≠ [] ∧ Nestable (separating.embed .pattern) ∧
      ((compile ((separating.embed .pattern).embed .pattern) { maxDepth := 3 }).check
          ";[,]q".toList .empty).map (fun (_, after) => after.entries) =
        some [("b".toList, .text "q".toList), ("v".toList, .text ";[,]q".toList)] ∧
      ((compile ((separating.embed .pattern).embed .format) { maxDepth := 3 }).formatText .strict
          (.ofList [("v".toList, .lazy ";[,]q".toList)])).1 = some ";[,]q".toList := by
  have hnestable := nestable_embed nestable_separating .pattern
  obtain ⟨hcheck, hformat⟩ := embedded_means_own (separating.embed .pattern) { maxDepth := 3 }
    (by decide) (by decide) hnestable
  refine ⟨by decide, by decide, hnestable, ?_, ?_⟩
  · have hentries := congrArg (Option.map Params.entries) (hcheck ";[,]q".toList .empty)
    rw [Option.map_map, Option.map_map] at hentries
    refine hentries.trans ?_
    decide +kernel
  · rw [hformat .strict _ ";[,]q".toList rfl rfl (by decide +kernel)]
    decide +kernel

end Pattern

end Stencil
