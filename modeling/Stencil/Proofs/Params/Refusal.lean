import Stencil.Proofs.Evaluate.Verdict
import Stencil.Proofs.Params.Frame

/-! # What a group that refuses leaves

The span of a group that refuses is dropped, but what was stored while its nested patterns ran stays in
the parameters. A check that fails stores nothing, so this is what a condition has captured that holds,
and what was stored in the course of formatting, up to the failure. -/
namespace Stencil

namespace Params

theorem Kept.eq {removed : Text → Prop} {before after : Params}
    (h : Kept (fun _ => False) removed before after) : after = before :=
  eq_of_get? fun name => h.outside name id

end Params

namespace Function

/-- The slots whose nested patterns may have stored something when the call refuses: of a conditional the
condition, if it holds, and one branch. -/
def slotsRun (f : Function) (group : Group Meaning) (text : Text) (params : Params) : List Nat :=
  match f with
  | ifelse => if ((group.nested? 0).bind (·.check text params)).isSome then [0, 1] else [2]
  | format => [0]
  | split => [1]
  | validate => if params.contains (group.text 0) then [1] else []
  | _ => []

end Function

/-- In one of the slots the group has a nested pattern that stores under the name when the call uses it. -/
def Group.Stores (f : Function) (slots : List Nat) (group : Group Pattern) (name : Text) : Prop :=
  ∃ slot ∈ slots, ∃ use p, f.use? slot = some use ∧ group.nested? slot = some p ∧ p.Stores name use

theorem Group.Stores.named {f : Function} {slots : List Nat} {group : Group Pattern} {name : Text}
    (h : group.Stores f slots name) : name ≠ [] := by
  obtain ⟨slot, -, use, p, -, -, hstores⟩ := h
  exact hstores.named

variable {written : Text → Prop}

theorem Meaning.Frames.renderAll {m : Meaning} (h : m.Frames written .format) (options : FormatOptions)
    (texts : List Text) (before : Params) :
    Params.Kept written (fun _ => False) before (m.renderAll options texts before).2 :=
  ((h.respects (fun _ => False) before).renderAll options texts ⟨rfl, .refl before⟩).kept

/-- The nested patterns in the slots write these names at most, and remove none. -/
def Group.FramesIn (written : Text → Prop) (f : Function) (slots : List Nat) (group : Group Meaning) :
    Prop :=
  ∀ slot ∈ slots, ∀ use m, f.use? slot = some use → group.nested? slot = some m → m.Frames written use

namespace Call

variable {group : Group Meaning} {options : FormatOptions} {span : Span} {params : Params}

theorem kept_branch {m : Option Meaning} (h : ∀ n ∈ m, n.Frames written .format) :
    Params.Kept written (fun _ => False) params (branch options m span params).2 := by
  cases m with
  | none => exact .refl params
  | some n => exact (h n rfl).render options span.text params

theorem kept_format (h : group.FramesIn written .format [0]) :
    Params.Kept written (fun _ => False) params (format options group span params).2 := by
  rw [format]
  cases hm : group.nested? 0 with
  | none => exact .refl params
  | some m =>
    have hframes : m.Frames written .format := h 0 List.mem_cons_self .format m rfl hm
    exact hframes.render options span.text params

theorem kept_ifelse
    (h : group.FramesIn written .ifelse (Function.ifelse.slotsRun group span.text params)) :
    Params.Kept written (fun _ => False) params (ifelse options group span params).2 := by
  rw [ifelse]
  rw [Function.slotsRun] at h
  cases hm : group.nested? 0 with
  | none => exact .refl params
  | some m =>
    rw [hm, Option.bind_some] at h
    cases hcheck : m.check span.text params with
    | none =>
      rw [hcheck] at h
      simp only [hcheck]
      exact kept_branch fun n hn => h 2 List.mem_cons_self .format n rfl hn
    | some result =>
      rw [hcheck] at h
      simp only [hcheck]
      have hcondition : m.Frames written .check := h 0 List.mem_cons_self .check m rfl hm
      have hbranch : ∀ n ∈ group.nested? 1, n.Frames written .format := by
        intro n hn
        exact h 1 (List.mem_cons_of_mem 0 List.mem_cons_self) .format n rfl hn
      exact (hcondition span.text params result hcheck).trans (kept_branch hbranch)

theorem kept_split (h : group.FramesIn written .split [1]) :
    Params.Kept written (fun _ => False) params (split options group span params).2 := by
  rw [split]
  cases hm : group.nested? 1 with
  | none => exact .refl params
  | some m =>
    have hframes : m.Frames written .format := h 1 List.mem_cons_self .format m rfl hm
    exact hframes.renderAll options (Casing.sensitive.between (group.text 0) span.text) params

theorem kept_validate
    (h : group.FramesIn written .validate (Function.validate.slotsRun group span.text params)) :
    Params.Kept written (fun _ => False) params (validate options group span params).2 := by
  rw [validate]
  rw [Function.slotsRun, Params.contains] at h
  cases hm : group.nested? 1 with
  | none => exact .refl params
  | some m =>
    rw [Params.resolve?]
    cases hvalue : params.get? (group.text 0) with
    | none => exact .refl params
    | some value =>
      rw [hvalue] at h
      have hframes : m.Frames written .format := h 1 List.mem_cons_self .format m rfl hm
      exact hframes.render options span.text params

theorem params_of_pattern_none (h : (pattern group span params).1 = none) :
    (pattern group span params).2 = params := by
  rw [pattern] at h ⊢
  cases hcheck : (group.nested? 0).bind (·.check span.text params) with
  | none => rfl
  | some result =>
    rw [hcheck] at h
    cases h

end Call

/-- A call that refuses keeps the parameters but for what its nested patterns have written. -/
theorem Function.kept_of_evaluate_none {f : Function} {group : Group Meaning}
    {options : FormatOptions} {span : Span} {params : Params}
    (h : group.FramesIn written f (f.slotsRun group span.text params))
    (refuses : (f.evaluate options group span params).1 = none) :
    Params.Kept written (fun _ => False) params (f.evaluate options group span params).2 := by
  cases f with
  | copy => cases refuses
  | format => exact Call.kept_format h
  | ifelse => exact Call.kept_ifelse h
  | pattern =>
    have hsame : (Function.pattern.evaluate options group span params).2 = params :=
      Call.params_of_pattern_none refuses
    rw [hsame]
    exact .refl params
  | split => exact Call.kept_split h
  | validate => exact Call.kept_validate h
  -- the other functions do not change the parameters
  | append | charset | contains | delete | delimit | ends | equals | insert | length | number32
  | number64 | replace | resize | starts | strip => exact .refl params

theorem Group.framesIn_interpretAt (f : Function) (slots : List Nat) (group : Group Pattern)
    (depth : Nat) : (group.interpretAt depth).FramesIn (group.Stores f slots) f slots := by
  intro slot hslot use m huse hm
  rw [interpretAt, nested?_map, Option.map_eq_some_iff] at hm
  obtain ⟨p, hp, rfl⟩ := hm
  exact (p.stored_meaningAt (depth + 1)).frames fun name hstores => ⟨slot, hslot, use, p, huse, hp, hstores⟩

theorem Function.pass_of_refuses {f : Function} {options : FormatOptions} {group : Group Meaning}
    {seen : Span × Params} (refuses : (f.act options group seen.1 seen.2).1 = false) :
    (f.evaluate options group seen.1 seen.2).1 = none ∧
      Combinator.pass (f.act options) seen group = (seen.1, (f.evaluate options group seen.1 seen.2).2) := by
  have hnone : (f.evaluate options group seen.1 seen.2).1 = none :=
    Option.not_isSome_iff_eq_none.1 (Bool.eq_false_iff.1 refuses)
  refine ⟨hnone, ?_⟩
  rw [Combinator.pass, act]
  rcases hf : f.evaluate options group seen.1 seen.2 with ⟨_ | span, params⟩
  · rfl
  · rw [hf] at hnone
    cases hnone

namespace Tag

open Combinator

/-- What a tag leaves is what its groups leave one after the other. A group that refuses leaves the span
as it was; of the parameters it removes none, the anonymous one included, and it changes those at most
under whose names the nested patterns store that ran. If these store nothing, it leaves no trace. -/
theorem evaluate_refusal {tag : Tag Pattern} {f : Function} (known : tag.function = some f)
    (depth : Nat) (mode : Mode) (options : FormatOptions) :
    (∀ span params, ∃ count,
      ((tag.interpretAt depth).evaluate mode options span params).2 =
        ((tag.interpretAt depth).runGroups.take count).foldl (pass (f.act options)) (span, params)) ∧
    ∀ group ∈ tag.runGroups, ∀ seen : Span × Params,
      (f.act options (group.interpretAt depth) seen.1 seen.2).1 = false →
      let stores := group.Stores f (f.slotsRun (group.interpretAt depth) seen.1.text seen.2)
      let next := pass (f.act options) seen (group.interpretAt depth)
      next.1 = seen.1 ∧ Params.Kept stores (fun _ => False) seen.2 next.2 ∧
        next.2.get? [] = seen.2.get? [] ∧ ((∀ name, ¬ stores name) → next = seen) := by
  constructor
  · intro span params
    rw [evaluate_of_function (show (tag.interpretAt depth).function = some f from known)]
    obtain ⟨count, -, hleaves⟩ := (settles_evaluateBy _ (f.act options) span params).leaves
    exact ⟨count, hleaves⟩
  · intro group _ seen refuses stores next
    obtain ⟨hnone, hpass⟩ := Function.pass_of_refuses refuses
    have hkept := Function.kept_of_evaluate_none
      (group.framesIn_interpretAt f (f.slotsRun (group.interpretAt depth) seen.1.text seen.2) depth) hnone
    have hnext : next = (seen.1, (f.evaluate options (group.interpretAt depth) seen.1 seen.2).2) := hpass
    rw [hnext]
    refine ⟨rfl, hkept, hkept.outside [] fun h => h.named rfl, ?_⟩
    intro hnothing
    have hsame := (hkept.mono (fun name h => hnothing name h) fun _ h => h).eq
    exact Prod.ext rfl hsame

/-- The condition captures a text and then the branch refuses it. -/
def conditional : Pattern := .compile "%[v{ifelse=%[x],%[q{equals=1}];%[],<%[x]>}]".toList {}

def whole : Span := .parameter "v".toList "ab".toList 0

theorem exists_refusal : ∃ tag ∈ conditional.layer.parameters.flatMap (·.tags),
    tag.function = some .ifelse ∧ ∃ group ∈ tag.runGroups,
      (Function.ifelse.act .inCheck (group.interpretAt 0) whole .empty).1 = false ∧
      (pass (Function.ifelse.act .inCheck) (whole, .empty) (group.interpretAt 0)).2.get? "x".toList =
        some (.text "ab".toList) := by
  decide +kernel

/-- A group that refuses may leave a trace, and the next group sees it: the second group of the tag renders
what the condition of the first one has captured. -/
theorem refusal_traces :
    (¬ ∀ (tag : Tag Pattern) (f : Function), tag.function = some f →
      ∀ (depth : Nat) (options : FormatOptions), ∀ group ∈ tag.runGroups, ∀ seen : Span × Params,
        (f.act options (group.interpretAt depth) seen.1 seen.2).1 = false →
        pass (f.act options) seen (group.interpretAt depth) = seen) ∧
    (conditional.check "ab".toList .empty).map (fun (_, params) => params.resolve? "v".toList) =
      some (some "<ab>".toList) := by
  constructor
  · intro traceless
    obtain ⟨tag, -, known, group, hgroup, refuses, hx⟩ := exists_refusal
    rw [traceless tag .ifelse known 0 .inCheck group hgroup (whole, .empty) refuses] at hx
    cases hx
  · decide +kernel

theorem evaluate_refusal_conditional : ∃ tag ∈ conditional.layer.parameters.flatMap (·.tags),
    tag.function = some .ifelse ∧ ∃ group ∈ tag.runGroups,
      (Function.ifelse.act .inCheck (group.interpretAt 0) whole .empty).1 = false ∧
      (pass (Function.ifelse.act .inCheck) (whole, .empty) (group.interpretAt 0)).1 = whole ∧
      (pass (Function.ifelse.act .inCheck) (whole, .empty) (group.interpretAt 0)).2.get? [] = none := by
  obtain ⟨tag, htag, known, group, hgroup, refuses, -⟩ := exists_refusal
  obtain ⟨-, hrefusal⟩ := evaluate_refusal known 0 .check .inCheck
  obtain ⟨hspan, -, hanonymous, -⟩ := hrefusal group hgroup (whole, .empty) refuses
  exact ⟨tag, htag, known, group, hgroup, refuses, hspan, hanonymous⟩

end Tag

end Stencil
