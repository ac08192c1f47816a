import Stencil.Compile
import Stencil.Interpret
import Stencil.Proofs.Evaluate.Conditions

/-! # What the groups of a tag decide

The groups of a tag run until their results decide. The verdict is a truth function of the results
that all of them would have, each run on what the ones before it left; and what the tag leaves is
what the shortest front of its groups leaves that decides. -/
namespace Stencil

namespace Combinator

/-- What the combinator says of the results of all groups. -/
def Holds : Combinator → List Bool → Prop
  | and, results => ∀ r ∈ results, r = true
  | or, results => ∃ r ∈ results, r = true
  | xor, results => results.count true = 1
  | xnor, results => ∀ r ∈ results, ∀ s ∈ results, r = s

/-- No result that follows can change the verdict. -/
def Decides : Combinator → List Bool → Prop
  | and, results => false ∈ results
  | or, results => true ∈ results
  | xor, results => 2 ≤ results.count true
  | xnor, results => true ∈ results ∧ false ∈ results

/-- The results so far do not decide, and `last` is what the combinator remembers of them. -/
def Amounts : Combinator → List Bool → Option Bool → Prop
  | and, past, _ => ∀ r ∈ past, r = true
  | or, past, _ => ∀ r ∈ past, r = false
  | xor, past, last => past.count true = if last = some true then 1 else 0
  | xnor, past, last => ∀ r, r ∈ past ↔ last = some r

variable {c : Combinator} {past : List Bool} {last : Option Bool}

theorem amounts_nil (c : Combinator) : c.Amounts [] none := by
  cases c <;> simp [Amounts]

theorem Amounts.not_decides (h : c.Amounts past last) : ¬ c.Decides past := by
  cases c with
  | and =>
    intro hfalse
    cases h false hfalse
  | or =>
    intro htrue
    cases h true htrue
  | xor =>
    have hcount : past.count true = if last = some true then 1 else 0 := h
    intro htwo
    have hle : 2 ≤ past.count true := htwo
    split at hcount <;> omega
  | xnor =>
    rintro ⟨htrue, hfalse⟩
    cases ((h true).1 htrue).symm.trans ((h false).1 hfalse)

theorem Amounts.finish_iff (h : c.Amounts past last) : c.finish last = true ↔ c.Holds past := by
  cases c with
  | and => exact iff_of_true rfl h
  | or =>
    refine iff_of_false Bool.false_ne_true ?_
    rintro ⟨r, hr, htrue⟩
    exact Bool.false_ne_true ((h r hr).symm.trans htrue)
  | xor =>
    have hcount : past.count true = if last = some true then 1 else 0 := h
    simp only [finish, Holds, hcount, decide_eq_true_eq]
    split <;> simp_all
  | xnor =>
    refine iff_of_true rfl ?_
    intro r hr s hs
    exact Option.some_inj.1 (((h r).1 hr).symm.trans ((h s).1 hs))

theorem Amounts.step (h : c.Amounts past last) (result : Bool) :
    match c.step last result with
    | .decided verdict => c.Decides (past ++ [result]) ∧
        ∀ more, verdict = true ↔ c.Holds (past ++ result :: more)
    | .undecided last => c.Amounts (past ++ [result]) last := by
  cases c with
  | and =>
    cases result with
    | true => simpa [Combinator.step, Amounts] using h
    | false => simp [Combinator.step, Decides, Holds]
  | or =>
    cases result with
    | true => simp [Combinator.step, Decides, Holds]
    | false => simpa [Combinator.step, Amounts] using h
  | xor =>
    have hcount : past.count true = if last = some true then 1 else 0 := h
    rcases last with _ | _ | _ <;> cases result <;>
      simp_all [Combinator.step, Decides, Holds, Amounts]
  | xnor =>
    have hpast : ∀ r, r ∈ past ↔ last = some r := h
    rcases last with _ | _ | _ <;> cases result <;>
      simp_all [Combinator.step, Decides, Holds, Amounts]

/-- Behind results that do not decide, the verdict on more is what the combinator says of them all. -/
theorem Amounts.verdict_iff (h : c.Amounts past last) (more : List Bool) :
    c.verdict last more = true ↔ c.Holds (past ++ more) := by
  induction more generalizing past last with
  | nil =>
    rw [verdict, List.append_nil]
    exact h.finish_iff
  | cons result more ih =>
    have hstep := h.step result
    rw [verdict]
    cases hs : c.step last result with
    | decided verdict =>
      simp only [hs] at hstep ⊢
      exact hstep.2 more
    | undecided next =>
      simp only [hs] at hstep ⊢
      rw [ih hstep, List.append_assoc, List.singleton_append]

-- A group is any function that changes a span and a state and then says whether it accepts.
section

variable {γ σ : Type} (act : γ → Span → σ → Bool × Span × σ)

/-- What a group made of the span is dropped unless the group accepts. -/
def accepted (group : γ) (span : Span) (state : σ) : Option Span × σ :=
  let (accepts, span, state) := act group span state
  (if accepts then some span else none, state)

/-- What the next group sees: the span of a group that accepts, and the state of any. -/
def pass (seen : Span × σ) (group : γ) : Span × σ :=
  let (accepts, span, state) := act group seen.1 seen.2
  (if accepts then span else seen.1, state)

/-- The results of all groups, each run on what the ones before it left. -/
def results : List γ → Span × σ → List Bool
  | [], _ => []
  | group :: rest, seen => (act group seen.1 seen.2).1 :: results rest (pass act seen group)

/-- The first so many groups decide and no fewer do, or none of the groups decide and these are all. -/
def StopsAt (c : Combinator) (results : List Bool) (count : Nat) : Prop :=
  count ≤ results.length ∧ (∀ fewer < count, ¬ c.Decides (results.take fewer)) ∧
    (c.Decides (results.take count) ∨ count = results.length)

theorem length_results (groups : List γ) (seen : Span × σ) :
    (results act groups seen).length = groups.length := by
  induction groups generalizing seen with
  | nil => rfl
  | cons group rest ih => exact congrArg (· + 1) (ih _)

theorem run_cons (c : Combinator) (last : Option Bool) (group : γ) (rest : List γ)
    (seen : Span × σ) :
    c.run (accepted act) last (group :: rest) seen.1 seen.2 =
      match c.step last (act group seen.1 seen.2).1 with
      | .decided verdict => (verdict, pass act seen group)
      | .undecided last => c.run (accepted act) last rest (pass act seen group).1 (pass act seen group).2 := by
  rw [run, accepted, pass]
  rcases act group seen.1 seen.2 with ⟨accepts, span, state⟩
  cases accepts <;> rfl

/-- The verdict of a run that may stop early is that on the results of all groups. -/
theorem run_verdict (c : Combinator) (last : Option Bool) (groups : List γ) (seen : Span × σ) :
    (c.run (accepted act) last groups seen.1 seen.2).1 = c.verdict last (results act groups seen) := by
  induction groups generalizing last seen with
  | nil => rfl
  | cons group rest ih =>
    rw [run_cons, results, verdict]
    cases c.step last (act group seen.1 seen.2).1 with
    | decided verdict => rfl
    | undecided next => exact ih next (pass act seen group)

theorem Amounts.run_leaves {c : Combinator} {past : List Bool} {last : Option Bool}
    (h : c.Amounts past last) (groups : List γ) (seen : Span × σ) :
    ∃ count ≤ groups.length,
      (∀ fewer < count, ¬ c.Decides (past ++ (results act groups seen).take fewer)) ∧
      (c.Decides (past ++ (results act groups seen).take count) ∨ count = groups.length) ∧
      (c.run (accepted act) last groups seen.1 seen.2).2 = (groups.take count).foldl (pass act) seen := by
  induction groups generalizing past last seen with
  | nil =>
    refine ⟨0, Nat.le_refl 0, ?_, .inr rfl, rfl⟩
    intro fewer hfewer
    cases hfewer
  | cons group rest ih =>
    have hstep := h.step (act group seen.1 seen.2).1
    rw [run_cons, results]
    cases hs : c.step last (act group seen.1 seen.2).1 with
    | decided verdict =>
      simp only [hs] at hstep ⊢
      refine ⟨1, by simp, ?_, .inl hstep.1, rfl⟩
      intro fewer hfewer
      rw [Nat.lt_one_iff.1 hfewer, List.take_zero, List.append_nil]
      exact h.not_decides
    | undecided next =>
      simp only [hs] at hstep ⊢
      obtain ⟨count, hle, hbefore, hstops, hleaves⟩ := ih hstep (pass act seen group)
      simp only [List.append_assoc, List.singleton_append] at hbefore hstops
      refine ⟨count + 1, Nat.succ_le_succ hle, ?_, ?_, hleaves⟩
      · intro fewer hfewer
        cases fewer with
        | zero =>
          rw [List.take_zero, List.append_nil]
          exact h.not_decides
        | succ fewer => exact hbefore fewer (Nat.lt_of_succ_lt_succ hfewer)
      · exact hstops.imp id (congrArg (· + 1))

end

end Combinator

namespace Tag

open Combinator

variable {π σ : Type}

/-- Evaluate a tag that calls any function of a span and a state. -/
def evaluateBy (tag : Tag π) (act : Group π → Span → σ → Bool × Span × σ) (span : Span) (state : σ) :
    Bool × Span × σ :=
  let (verdict, span, state) := tag.operators.combinator.run (accepted act) none tag.runGroups span state
  (verdict != tag.operators.negated, span, state)

/-- The verdict is what the operators make of the results of all groups, and what is left is what the
groups leave up to the one at which these results decide. -/
structure Settles (tag : Tag π) (act : Group π → Span → σ → Bool × Span × σ) (span : Span) (state : σ)
    (outcome : Bool × Span × σ) : Prop where
  verdict : outcome.1 = true ↔
    if tag.operators.negated then ¬ tag.operators.combinator.Holds (results act tag.runGroups (span, state))
    else tag.operators.combinator.Holds (results act tag.runGroups (span, state))
  leaves : ∃ count,
    tag.operators.combinator.StopsAt (results act tag.runGroups (span, state)) count ∧
    outcome.2 = (tag.runGroups.take count).foldl (pass act) (span, state)

theorem settles_evaluateBy (tag : Tag π) (act : Group π → Span → σ → Bool × Span × σ) (span : Span)
    (state : σ) : tag.Settles act span state (tag.evaluateBy act span state) := by
  have hnil := amounts_nil tag.operators.combinator
  have hverdict := hnil.verdict_iff (results act tag.runGroups (span, state))
  obtain ⟨count, hle, hbefore, hstops, hleaves⟩ := hnil.run_leaves act tag.runGroups (span, state)
  rw [← run_verdict act, List.nil_append] at hverdict
  rw [evaluateBy]
  constructor
  · simp only [← hverdict]
    cases tag.operators.negated <;> simp
  · rw [← length_results act tag.runGroups (span, state)] at hle hstops
    exact ⟨count, ⟨hle, hbefore, hstops⟩, hleaves⟩

end Tag

/-- A call as a function that leaves the span as it is where it refuses. -/
def Function.act (f : Function) (options : FormatOptions) (group : Group Meaning) (span : Span)
    (params : Params) : Bool × Span × Params :=
  let (result, params) := f.evaluate options group span params
  (result.isSome, result.getD span, params)

theorem Function.accepted_act (f : Function) (options : FormatOptions) :
    Combinator.accepted (f.act options) = f.evaluate options := by
  funext group span params
  rw [Combinator.accepted, act]
  rcases f.evaluate options group span params with ⟨_ | edited, after⟩ <;> rfl

namespace Tag

theorem evaluate_of_function {tag : Tag Meaning} {f : Function} (h : tag.function = some f)
    (mode : Mode) (options : FormatOptions) (span : Span) (params : Params) :
    tag.evaluate mode options span params = tag.evaluateBy (f.act options) span params := by
  rw [evaluate, evaluateBy, h, f.accepted_act]

/-- A tag with a known function has the verdict that its operators make of the results of all its groups,
and it leaves what the groups leave up to the first at which the results decide. So does any tag,
whatever its groups do to a span and a state. -/
theorem evaluate_settles {tag : Tag Meaning} {f : Function} (h : tag.function = some f) (mode : Mode)
    (options : FormatOptions) (span : Span) (params : Params) :
    tag.Settles (f.act options) span params (tag.evaluate mode options span params) ∧
    ∀ {π σ : Type} (tag : Tag π) (act : Group π → Span → σ → Bool × Span × σ) (span : Span) (state : σ),
      tag.Settles act span state (tag.evaluateBy act span state) := by
  refine ⟨?_, settles_evaluateBy⟩
  rw [evaluate_of_function h]
  exact settles_evaluateBy tag (f.act options) span params

/-- The first two groups accept and capture, which is one too many; the third does not run. -/
def doubled : Tag Meaning :=
  { name := "pattern".toList
    function := some .pattern
    operators := .combine .xor
    groups := ["a%[x]", "%[y]b", "%[z]"].map fun source =>
      ⟨[some ⟨.nested ((Pattern.compile source.toList {}).meaningAt 1), .sensitive⟩]⟩ }

theorem evaluate_settles_doubled :
    doubled.function = some .pattern ∧
      doubled.Settles (Function.pattern.act .inCheck) (.parameter [] "ab".toList 0) .empty
        (doubled.evaluate .check .inCheck (.parameter [] "ab".toList 0) .empty) ∧
      (doubled.evaluate .check .inCheck (.parameter [] "ab".toList 0) .empty).1 = false ∧
      (doubled.evaluate .check .inCheck (.parameter [] "ab".toList 0) .empty).2.2.names =
        ["x".toList, "y".toList] := by
  have hfunction : doubled.function = some .pattern := rfl
  obtain ⟨hsettles, -⟩ :=
    evaluate_settles hfunction .check .inCheck (.parameter [] "ab".toList 0) .empty
  exact ⟨hfunction, hsettles, by decide +kernel, by decide +kernel⟩

end Tag

end Stencil
