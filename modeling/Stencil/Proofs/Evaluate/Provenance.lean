import Stencil.Evaluate.Tag
import Stencil.Proofs.Text.Occurrences

/-! # What evaluation does to a span

All a function does to a span is one edit: it leaves it, rewrites it, or narrows it to the middle of
a cut of its text. So a span never loses its place in the text it was made from, whatever tags are
evaluated on it and whether they accept. -/
namespace Stencil

namespace Span

inductive Edit (span : Span) : Span → Prop where
  | keep : Edit span span
  | rewrite (text : Text) : Edit span (span.rewrite text)
  | narrow {cut : Cut} (whole : cut.whole = span.text) : Edit span (span.narrow cut)

/-- The place is a slice of the source, which is the span's text as long as nothing rewrote it. -/
structure Traced (source : Text) (position : Nat) (origin : Origin) (span : Span) : Prop where
  place : ∃ cut : Cut, cut.whole = source ∧ span.range = cut.range.shift position ∧
    (span.rewritten = false → span.text = cut.kept)
  origin : span.origin = origin

theorem traced_parameter (name text : Text) (position : Nat) :
    Traced text position (.parameter name) (parameter name text position) := by
  refine ⟨⟨⟨[], text, []⟩, ?_, ?_, fun _ => rfl⟩, rfl⟩
  · simp [Cut.whole]
  · simp [range, parameter, Cut.range, ByteRange.shift]

theorem Traced.rewrite {source : Text} {position : Nat} {origin : Origin} {span : Span}
    (h : Traced source position origin span) (text : Text) :
    Traced source position origin (span.rewrite text) := by
  unfold Span.rewrite
  split
  · exact h
  · obtain ⟨⟨cut, hw, hr, -⟩, ho⟩ := h
    exact ⟨⟨cut, hw, hr, fun hf => by cases hf⟩, ho⟩

theorem Traced.narrow {source : Text} {position : Nat} {origin : Origin} {span : Span} {cut : Cut}
    (h : Traced source position origin span) (whole : cut.whole = span.text) :
    Traced source position origin (span.narrow cut) := by
  obtain ⟨⟨outer, hw, hr, ht⟩, ho⟩ := h
  unfold Span.narrow
  split
  case isTrue hrewritten =>
    refine ⟨⟨outer, hw, hr, fun hf => ?_⟩, ho⟩
    rw [show span.rewritten = false from hf] at hrewritten
    cases hrewritten
  case isFalse hkept =>
    have htext : outer.kept = cut.before ++ cut.kept ++ cut.after := by
      rw [← ht (by simpa using hkept), ← whole]
      rfl
    -- the cut inside the old place is a cut of the whole source
    refine ⟨⟨⟨outer.before ++ cut.before, cut.kept, cut.after ++ outer.after⟩, ?_, ?_, fun _ => rfl⟩, ho⟩
    · rw [← hw]
      simp only [Cut.whole, htext, List.append_assoc]
    · simp only [range, Cut.range, ByteRange.shift, ByteRange.mk.injEq, Text.size_append] at hr ⊢
      omega

theorem Edit.traced {source : Text} {position : Nat} {origin : Origin} {span edited : Span}
    (e : Edit span edited) (h : Traced source position origin span) :
    Traced source position origin edited := by
  cases e with
  | keep => exact h
  | rewrite text => exact h.rewrite text
  | narrow whole => exact h.narrow whole

end Span

theorem Text.trimEnd_append (p : Char → Bool) (text : Text) :
    trimEnd p text ++ (text.reverse.takeWhile p).reverse = text := by
  rw [trimEnd, ← List.reverse_append, List.takeWhile_append_dropWhile, List.reverse_reverse]

namespace DelimitFlags

theorem whole_of_occurrence? {flags : DelimitFlags} {casing : Casing} {element text : Text}
    {cut : Cut} (h : flags.occurrence? casing element text = some cut) : cut.whole = text := by
  unfold occurrence? at h
  split at h
  · split at h
    · cases h
      simp [Cut.whole]
    · cases h
  · split at h
    · obtain ⟨⟨a, b⟩, ha, rfl⟩ := Option.map_eq_some_iff.1 h
      rw [(Casing.of_stripFront? ha).1]
      rfl
    · split at h
      · obtain ⟨⟨a, b⟩, ha, rfl⟩ := Option.map_eq_some_iff.1 h
        rw [(Casing.stripBack?_eq_some_iff.1 ha).1]
        simp [Cut.whole]
      · exact (Casing.of_find? h).1.symm

theorem whole_widen (casing : Casing) (left right : Text) (cut : Cut) :
    (widen casing left right cut).whole = cut.whole := by
  have hbefore (p : Char → Bool) :
      (cut.before.reverse.dropWhile p).reverse ++ (cut.before.reverse.takeWhile p).reverse =
        cut.before := Text.trimEnd_append p cut.before
  have hafter (p : Char → Bool) : cut.after.takeWhile p ++ cut.after.dropWhile p = cut.after :=
    List.takeWhile_append_dropWhile
  simp only [widen, Cut.whole, List.append_assoc, hafter]
  rw [← List.append_assoc, hbefore]

theorem whole_of_extract? {flags : DelimitFlags} {casing : Casing}
    {element left right text : Text} {cut : Cut}
    (h : flags.extract? casing element left right text = some cut) : cut.whole = text := by
  obtain ⟨found, hf, rfl⟩ := Option.map_eq_some_iff.1 h
  have hw := whole_of_occurrence? hf
  split
  · exact hw
  · rw [whole_widen, hw]

end DelimitFlags

namespace Change

theorem whole_stripCut (p : Char → Bool) (text : Text) : (stripCut p text).whole = text := by
  have hkept (rest : Text) : Text.trimEnd p rest ++ rest.drop (Text.trimEnd p rest).length = rest :=
    List.prefix_iff_eq_append.1 ⟨_, Text.trimEnd_append p rest⟩
  simp only [stripCut, Cut.whole, List.append_assoc, hkept]
  exact List.takeWhile_append_dropWhile

theorem edit_resizeTo (length : Int) (pad : Text) (span : Span) :
    span.Edit (resizeTo length pad span) := by
  unfold resizeTo
  simp only
  split
  · split
    · exact .narrow (by simp [Cut.whole])
    · exact .narrow (by simp [Cut.whole])
  · exact .rewrite _

end Change

namespace Call

theorem edit_keepIf {condition : Bool} {span edited : Span} {params after : Params}
    (h : keepIf condition span params = (some edited, after)) : span.Edit edited := by
  cases condition <;> cases h
  exact .keep

theorem edit_validate {options : FormatOptions} {group : Group Meaning} {span edited : Span}
    {params after : Params} (h : validate options group span params = (some edited, after)) :
    span.Edit edited := by
  unfold validate at h
  split at h
  · exact edit_keepIf h
  · cases h

theorem edit_pattern {group : Group Meaning} {span edited : Span} {params after : Params}
    (h : pattern group span params = (some edited, after)) : span.Edit edited := by
  unfold pattern at h
  split at h <;> cases h
  exact .keep

theorem edit_rewriteBy {nested : Meaning} {options : FormatOptions} {span edited : Span}
    {params after : Params} (h : rewriteBy nested options span params = (some edited, after)) :
    span.Edit edited := by
  obtain ⟨hs, -⟩ := Prod.mk.inj h
  obtain ⟨text, -, rfl⟩ := Option.map_eq_some_iff.1 hs
  exact .rewrite text

theorem edit_format {options : FormatOptions} {group : Group Meaning} {span edited : Span}
    {params after : Params} (h : format options group span params = (some edited, after)) :
    span.Edit edited := by
  unfold format at h
  split at h
  · exact edit_rewriteBy h
  · cases h

theorem edit_branch {options : FormatOptions} {nested : Option Meaning} {span edited : Span}
    {params after : Params} (h : branch options nested span params = (some edited, after)) :
    span.Edit edited := by
  unfold branch at h
  split at h
  · exact edit_rewriteBy h
  · cases h
    exact .keep

theorem edit_ifelse {options : FormatOptions} {group : Group Meaning} {span edited : Span}
    {params after : Params} (h : ifelse options group span params = (some edited, after)) :
    span.Edit edited := by
  unfold ifelse at h
  split at h
  · cases h
  · split at h
    · exact edit_branch h
    · exact edit_branch h

theorem edit_split {options : FormatOptions} {group : Group Meaning} {span edited : Span}
    {params after : Params} (h : split options group span params = (some edited, after)) :
    span.Edit edited := by
  unfold split at h
  split at h
  · cases h
  · obtain ⟨hs, -⟩ := Prod.mk.inj h
    obtain ⟨texts, -, rfl⟩ := Option.map_eq_some_iff.1 hs
    exact .rewrite _

end Call

/-- Every function makes one edit, or refuses. -/
theorem Function.edit_evaluate {f : Function} {options : FormatOptions} {group : Group Meaning}
    {span edited : Span} {params after : Params}
    (h : f.evaluate options group span params = (some edited, after)) : span.Edit edited := by
  cases f with
  | append => cases h; exact .rewrite _
  | charset => exact Call.edit_keepIf h
  | contains => exact Call.edit_keepIf h
  | copy => cases h; exact .keep
  | delete => cases h; exact .rewrite _
  | delimit =>
    obtain ⟨hs, -⟩ := Prod.mk.inj h
    obtain ⟨cut, hc, rfl⟩ := Option.map_eq_some_iff.1 hs
    exact .narrow (DelimitFlags.whole_of_extract? hc)
  | ends => exact Call.edit_keepIf h
  | equals => exact Call.edit_keepIf h
  | format => exact Call.edit_format h
  | ifelse => exact Call.edit_ifelse h
  | insert => cases h; exact .rewrite _
  | length => exact Call.edit_keepIf h
  | number32 => exact Call.edit_keepIf h
  | number64 => exact Call.edit_keepIf h
  | pattern => exact Call.edit_pattern h
  | replace => cases h; exact .rewrite _
  | resize =>
    obtain ⟨hs, -⟩ := Prod.mk.inj h
    obtain ⟨length, -, rfl⟩ := Option.map_eq_some_iff.1 hs
    exact Change.edit_resizeTo _ _ _
  | split => exact Call.edit_split h
  | starts => exact Call.edit_keepIf h
  | strip => cases h; exact .narrow (Change.whole_stripCut _ _)
  | validate => exact Call.edit_validate h

theorem Combinator.run_span {γ σ : Type} (c : Combinator)
    (evaluate : γ → Span → σ → Option Span × σ) {P : Span → Prop}
    (step : ∀ group span state edited after,
      evaluate group span state = (some edited, after) → P span → P edited)
    (last : Option Bool) (groups : List γ) (span : Span) (state : σ) (h : P span) :
    P (c.run evaluate last groups span state).2.1 := by
  induction groups generalizing last span state with
  | nil => exact h
  | cons group rest ih =>
    rcases he : evaluate group span state with ⟨result, after⟩
    have hs : P (result.getD span) := by
      cases result with
      | none => exact h
      | some edited => exact step group span state edited after he h
    simp only [run, he]
    cases c.step last result.isSome with
    | decided verdict => exact hs
    | undecided last => exact ih last _ after hs

namespace Span.Traced

variable {source : Text} {position : Nat} {origin : Origin} {span : Span}

theorem evaluate (h : Traced source position origin span) (tag : Tag Meaning) (mode : Mode)
    (options : FormatOptions) (params : Params) :
    Traced source position origin (tag.evaluate mode options span params).2.1 := by
  unfold Tag.evaluate
  split
  · exact h
  · exact Combinator.run_span _ _ (fun _ _ _ _ _ he hs => (Function.edit_evaluate he).traced hs)
      none tag.runGroups span params h

theorem evaluateAll (h : Traced source position origin span) (mode : Mode)
    (options : FormatOptions) (tags : List (Tag Meaning)) (params : Params) :
    Traced source position origin (Stencil.evaluateAll mode options tags span params).2.1 := by
  induction tags generalizing span params with
  | nil => exact h
  | cons tag rest ih =>
    have hs := h.evaluate tag mode options params
    rw [Stencil.evaluateAll]
    rcases he : tag.evaluate mode options span params with ⟨verdict, after, map⟩
    rw [he] at hs
    cases verdict with
    | true => exact ih hs map
    | false => exact hs

end Span.Traced

end Stencil
