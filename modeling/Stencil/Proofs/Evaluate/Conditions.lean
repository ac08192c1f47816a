import Stencil.Evaluate.Tag

/-! # Conditions leave no trace

Some functions only ask something of a text. A tag of such a function gives one answer to one text,
in a check as in a format, and leaves the span and the parameters as they are. -/
namespace Stencil

namespace Function

/-- The functions that ask something of the text and change nothing. -/
def conditions : List Function :=
  [length, number32, number64, equals, contains, starts, ends, charset]

theorem evaluate_of_condition {f : Function} (h : f ∈ conditions) :
    ∃ holds : Group Meaning → Text → Bool, ∀ options group span params,
      f.evaluate options group span params = Call.keepIf (holds group span.text) span params := by
  simp only [conditions, List.mem_cons, List.not_mem_nil, or_false] at h
  rcases h with rfl | rfl | rfl | rfl | rfl | rfl | rfl | rfl
  · exact ⟨Predicate.length, fun _ _ _ _ => rfl⟩
  · exact ⟨Predicate.number32, fun _ _ _ _ => rfl⟩
  · exact ⟨Predicate.number64, fun _ _ _ _ => rfl⟩
  · exact ⟨Predicate.equals, fun _ _ _ _ => rfl⟩
  · exact ⟨Predicate.contains, fun _ _ _ _ => rfl⟩
  · exact ⟨Predicate.starts, fun _ _ _ _ => rfl⟩
  · exact ⟨Predicate.ends, fun _ _ _ _ => rfl⟩
  · exact ⟨Predicate.charset, fun _ _ _ _ => rfl⟩

end Function

namespace Combinator

/-- The verdict on results in order, when those before them amount to `last`. -/
def verdict (c : Combinator) : Option Bool → List Bool → Bool
  | last, [] => c.finish last
  | last, result :: rest =>
    match c.step last result with
    | .decided verdict => verdict
    | .undecided last => c.verdict last rest

theorem run_of_keepIf {γ : Type} (c : Combinator)
    {evaluate : γ → Span → Params → Option Span × Params} {holds : γ → Text → Bool}
    (h : ∀ group span params,
      evaluate group span params = Call.keepIf (holds group span.text) span params)
    (last : Option Bool) (groups : List γ) (span : Span) (params : Params) :
    c.run evaluate last groups span params =
      (c.verdict last (groups.map (holds · span.text)), span, params) := by
  induction groups generalizing last with
  | nil => rfl
  | cons group rest ih =>
    have hkept (b : Bool) : (if b then some span else none).getD span = span := by cases b <;> rfl
    have hsome (b : Bool) : (if b then some span else none).isSome = b := by cases b <;> rfl
    rw [run, h, Call.keepIf, List.map_cons, verdict]
    simp only [hkept, hsome]
    cases c.step last (holds group span.text) with
    | decided verdict => rfl
    | undecided last => exact ih last

end Combinator

namespace Tag

/-- The tag calls one of the functions that only ask. -/
def IsCondition {π : Type} (tag : Tag π) : Prop := ∃ f ∈ Function.conditions, tag.function = some f

theorem IsCondition.exists_answer {tag : Tag Meaning} (h : tag.IsCondition) :
    ∃ answer : Text → Bool, ∀ mode options span params,
      tag.evaluate mode options span params = (answer span.text, span, params) := by
  obtain ⟨f, hf, hfunction⟩ := h
  obtain ⟨holds, hholds⟩ := Function.evaluate_of_condition hf
  refine ⟨fun text =>
    tag.operators.combinator.verdict none (tag.runGroups.map (holds · text)) != tag.operators.negated, ?_⟩
  intro mode options span params
  have hrun := Combinator.run_of_keepIf tag.operators.combinator (hholds options) none tag.runGroups
    span params
  simp only [evaluate, hfunction, hrun]

end Tag

/-- One answer for all tags, which is the same in every mode and for all options. -/
theorem exists_answer_evaluateAll {tags : List (Tag Meaning)} (h : ∀ tag ∈ tags, tag.IsCondition) :
    ∃ answer : Text → Bool, ∀ mode options span params,
      evaluateAll mode options tags span params = (answer span.text, span, params) := by
  induction tags with
  | nil => exact ⟨fun _ => true, fun _ _ _ _ => rfl⟩
  | cons tag rest ih =>
    obtain ⟨first, hfirst⟩ := (h tag List.mem_cons_self).exists_answer
    obtain ⟨others, hothers⟩ := ih fun tag ht => h tag (List.mem_cons_of_mem _ ht)
    refine ⟨fun text => first text && others text, ?_⟩
    intro mode options span params
    rw [evaluateAll, hfirst]
    cases hf : first span.text with
    | true => simp only [hothers, hf, Bool.true_and]
    | false => simp only [hf, Bool.false_and]

end Stencil
