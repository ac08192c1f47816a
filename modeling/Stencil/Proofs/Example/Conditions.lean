import Stencil.Example
import Stencil.Proofs.Compile.Nested
import Stencil.Proofs.Evaluate.Extraction

/-! # Examples meet their conditions

A tag that describes a text bends every sample into one that it accepts. What the tag asks of a text is
read off its first group in the same way when a sample is bent and when a span is evaluated, so the two
are compared on that group (`Function.verdict?_of_bend`), and where the first group accepts so does the
tag (`Tag.evaluate_of_bend`). -/
namespace Stencil

variable {π ρ : Type}

namespace Group

variable (g : π → ρ) (group : Group π) (slot : Nat)

theorem int32?_map : (group.map g).int32? slot = group.int32? slot := by
  rw [int32?, int32?, component?_map]
  rcases group.component? slot with _ | ⟨value, casing⟩
  · rfl
  · cases value <;> rfl

theorem int64?_map : (group.map g).int64? slot = group.int64? slot := by
  rw [int64?, int64?, component?_map]
  rcases group.component? slot with _ | ⟨value, casing⟩
  · rfl
  · cases value <;> rfl

end Group

namespace Function

/-- The answer of a call that asks something of a text. The answer of any other function does not
follow from the text and the arguments without what is nested in them. -/
def verdict? (f : Function) (group : Group π) (text : Text) : Option Bool :=
  match f with
  | charset => some (Predicate.charset group text)
  | contains => some (Predicate.contains group text)
  | delimit =>
    let flags := DelimitFlags.ofText (group.text 1)
    let cut := flags.extract? (group.casing 0) (group.text 0) (group.text 2) (group.text 3) text
    some cut.isSome
  | ends => some (Predicate.ends group text)
  | equals => some (Predicate.equals group text)
  | length => some (Predicate.length group text)
  | number32 => some (Predicate.number32 group text)
  | number64 => some (Predicate.number64 group text)
  | starts => some (Predicate.starts group text)
  | _ => none

theorem verdict?_map (f : Function) (g : π → ρ) (group : Group π) (text : Text) :
    f.verdict? (group.map g) text = f.verdict? group text := by
  cases f <;> simp only [verdict?, Predicate.charset, Predicate.contains, Predicate.ends,
    Predicate.equals, Predicate.length, Predicate.number32, Predicate.number64, Predicate.starts,
    Predicate.int32Bound, Predicate.int64Bound, Group.text_map, Group.casing_map, Group.int32?_map,
    Group.int64?_map]

theorem isSome_evaluate_of_verdict? {f : Function} {group : Group Meaning} {span : Span} {answer : Bool}
    (h : f.verdict? group span.text = some answer) (options : FormatOptions) (params : Params) :
    (f.evaluate options group span params).1.isSome = answer := by
  have hkept (condition : Bool) : (Call.keepIf condition span params).1.isSome = condition := by
    cases condition <;> rfl
  cases f <;> cases h
  case delimit => exact Option.isSome_map
  all_goals exact hkept _

end Function

theorem Predicate.inRange_iff {value low high : Int} :
    Predicate.inRange value low high = true ↔
      high < low ∧ (value < high ∨ low < value) ∨ low ≤ value ∧ value ≤ high := by
  unfold Predicate.inRange
  by_cases hinverted : high < low
  · simp only [if_pos hinverted, Bool.or_eq_true, decide_eq_true_eq]
    omega
  · simp only [if_neg hinverted, Bool.and_eq_true, decide_eq_true_eq]
    omega

namespace Bend

theorem length_toLength (length : Nat) (sample : Text) : (toLength length sample).length = length := by
  rw [toLength, List.length_append, List.length_take, List.length_replicate]
  omega

section

variable {low high : Int} {current : Nat}

theorem acceptedLength?_eq_none_iff :
    acceptedLength? current low high = none ↔ low ≤ high ∧ high < 0 := by
  unfold acceptedLength?
  by_cases hcurrent : Predicate.inRange current low high = true
  · rw [if_pos hcurrent]
    rw [Predicate.inRange_iff] at hcurrent
    simp only [reduceCtorEq, false_iff]
    omega
  rw [if_neg hcurrent]
  by_cases hinverted : high < low
  · rw [if_pos hinverted]
    simp only [reduceCtorEq, false_iff]
    omega
  rw [if_neg hinverted]
  by_cases hnegative : high < max low 0
  · simp only [if_pos hnegative, true_iff]
    omega
  · simp only [if_neg hnegative, reduceCtorEq, false_iff]
    omega

theorem inRange_of_acceptedLength? {target : Int} (h : acceptedLength? current low high = some target) :
    0 ≤ target ∧ Predicate.inRange target low high = true := by
  unfold acceptedLength? at h
  by_cases hcurrent : Predicate.inRange current low high = true
  · rw [if_pos hcurrent] at h
    cases h
    exact ⟨Int.natCast_nonneg current, hcurrent⟩
  rw [if_neg hcurrent] at h
  rw [Predicate.inRange_iff] at hcurrent ⊢
  by_cases hinverted : high < low
  · -- the current length lies in the window, so what follows the window is not negative
    rw [if_pos hinverted] at h
    cases h
    omega
  rw [if_neg hinverted] at h
  by_cases hnegative : high < max low 0
  · simp only [if_pos hnegative, reduceCtorEq] at h
  · simp only [if_neg hnegative, Option.some.injEq] at h
    split_ifs at h <;> omega

end

variable (group : Group π) (sample : Text)

theorem length_ne_none (h : ¬ (Predicate.int32Bound group 0 0 ≤
      Predicate.int32Bound group 1 Int32.maxValue.toInt ∧
    Predicate.int32Bound group 1 Int32.maxValue.toInt < 0)) : length group sample ≠ none := by
  rw [length, ne_eq, Option.map_eq_none_iff, acceptedLength?_eq_none_iff]
  exact h

theorem length_accepted {bent : Text} (h : length group sample = some bent) :
    Predicate.length group bent = true := by
  obtain ⟨target, htarget, rfl⟩ := Option.map_eq_some_iff.1 h
  obtain ⟨hnonneg, hrange⟩ := inRange_of_acceptedLength? htarget
  rw [Predicate.length, length_toLength, Int.toNat_of_nonneg hnonneg]
  exact hrange

theorem equals_accepted : Predicate.equals group (group.text 0) = true :=
  Casing.sameText_refl _ _

theorem contains_accepted : Predicate.contains group (contains group sample) = true := by
  rw [contains]
  by_cases hfound : Predicate.contains group sample = true
  · rw [if_pos hfound]
    exact hfound
  · obtain ⟨cut, hcut, -⟩ := Casing.find?_of_occurrence sample []
      (Casing.sameText_refl (group.casing 0) (group.text 0))
    rw [List.append_nil] at hcut
    rw [if_neg hfound, Predicate.contains, hcut]
    rfl

theorem starts_accepted : Predicate.starts group (starts group sample) = true := by
  rw [starts]
  by_cases hfound : Predicate.starts group sample = true
  · rw [if_pos hfound]
    exact hfound
  · have hfront : (group.casing 0).stripFront? (group.text 0) (group.text 0 ++ sample) =
        some (group.text 0, sample) :=
      Casing.stripFront?_eq_some_iff.2 ⟨rfl, Casing.sameText_refl _ _⟩
    rw [if_neg hfound, Predicate.starts, hfront]
    rfl

theorem ends_accepted : Predicate.ends group (ends group sample) = true := by
  rw [ends]
  by_cases hfound : Predicate.ends group sample = true
  · rw [if_pos hfound]
    exact hfound
  · have hback : (group.casing 0).stripBack? (group.text 0) (sample ++ group.text 0) =
        some (sample, group.text 0) :=
      Casing.stripBack?_eq_some_iff.2 ⟨rfl, Casing.sameText_refl _ _⟩
    rw [if_neg hfound, Predicate.ends, hback]
    rfl

theorem charset_accepted : Predicate.charset group (charset group sample) = true := by
  apply List.all_eq_true.2
  intro c hc
  simp only [charset] at hc
  split at hc
  · have hmem : c ∈ group.text 0 := List.mem_of_mem_take hc
    exact List.any_eq_true.2 ⟨c, hmem, beq_self_eq_true _⟩
  · exact (List.mem_filter.1 hc).2

theorem isSome_extract? (flags : DelimitFlags) (casing : Casing) (element left right text : Text) :
    (flags.extract? casing element left right text).isSome =
      (flags.occurrence? (if flags.nocase then .insensitive else casing) element text).isSome := by
  rw [DelimitFlags.extract?, Option.isSome_map]

theorem isSome_occurrence?_self (flags : DelimitFlags) (casing : Casing) (element : Text) :
    (flags.occurrence? casing element element).isSome = true := by
  have hshows : flags.Shows casing element ⟨[], element, []⟩ := by
    refine ⟨Casing.sameText_refl casing element, ?_⟩
    split_ifs <;> simp
  have hwhole : Cut.whole ⟨[], element, []⟩ = element := by
    rw [Cut.whole, List.nil_append, List.append_nil]
  exact Option.isSome_iff_ne_none.2 (DelimitFlags.occurrence?_ne_none hwhole hshows)

theorem delimit_accepted (left right : Text) :
    ((DelimitFlags.ofText (group.text 1)).extract? (group.casing 0) (group.text 0) left right
      (delimit group sample)).isSome = true := by
  rw [isSome_extract?, delimit]
  cases hcut : (DelimitFlags.ofText (group.text 1)).extract? (group.casing 0) (group.text 0) [] []
    sample with
  | some cut =>
    rw [← isSome_extract? _ _ _ [] [], hcut]
    rfl
  | none => exact isSome_occurrence?_self _ _ _

end Bend

namespace Function

/-- The functions that bend any sample into one that they accept. -/
def exemplified : List Function := [length, equals, contains, starts, ends, charset, delimit]

theorem verdict?_of_bend {f : Function} (hf : f ∈ exemplified) {group : Group Sample}
    {sample bent : Text} (h : f.bend group sample = some bent) : f.verdict? group bent = some true := by
  simp only [exemplified, List.mem_cons, List.not_mem_nil, or_false] at hf
  rcases hf with rfl | rfl | rfl | rfl | rfl | rfl | rfl
  · exact congrArg some (Bend.length_accepted group sample h)
  all_goals cases h
  · exact congrArg some (Bend.equals_accepted group)
  · exact congrArg some (Bend.contains_accepted group sample)
  · exact congrArg some (Bend.starts_accepted group sample)
  · exact congrArg some (Bend.ends_accepted group sample)
  · exact congrArg some (Bend.charset_accepted group sample)
  · exact congrArg some (Bend.delimit_accepted group sample _ _)

/-- Only a length that nothing can have leaves a sample without an example. -/
theorem bend_ne_none {f : Function} (hf : f ∈ exemplified) (group : Group Sample) (sample : Text)
    (possible : f = length → ¬ (Predicate.int32Bound group 0 0 ≤
        Predicate.int32Bound group 1 Int32.maxValue.toInt ∧
      Predicate.int32Bound group 1 Int32.maxValue.toInt < 0)) : f.bend group sample ≠ none := by
  simp only [exemplified, List.mem_cons, List.not_mem_nil, or_false] at hf
  rcases hf with rfl | rfl | rfl | rfl | rfl | rfl | rfl
  · exact Bend.length_ne_none group sample (possible rfl)
  all_goals exact Option.some_ne_none _

end Function

namespace Combinator

/-- Where the first group accepts, so do groups of which one is enough, or of which there is one. -/
theorem run_of_first {γ σ : Type} {c : Combinator} {evaluate : γ → Span → σ → Option Span × σ}
    {group : γ} {rest : List γ} (joined : c = .or ∨ rest = []) {span : Span} {state : σ}
    (accepts : (evaluate group span state).1.isSome = true) :
    (c.run evaluate none (group :: rest) span state).1 = true := by
  rw [run]
  rcases h : evaluate group span state with ⟨_ | edited, after⟩
  · rw [h] at accepts
    cases accepts
  · rcases joined with rfl | rfl
    · rfl
    · cases c <;> rfl

end Combinator

/-- The example of a pattern that is nested in another one. -/
def Pattern.sampled : Pattern → Sample := fold Layer.sample

namespace Tag

/-- A tag bends every sample into one that it accepts, in every mode and whatever the parameters are. -/
theorem evaluate_of_bend {tag : Tag Pattern} {f : Function} (known : tag.function = some f)
    (exemplified : f ∈ Function.exemplified) (affirmed : tag.operators.negated = false)
    {group : Group Pattern} {rest : List (Group Pattern)} (first : tag.groups = group :: rest)
    (joined : tag.operators.combinator = .or ∨ rest = [])
    (possible : f = .length → ¬ (Predicate.int32Bound group 0 0 ≤
        Predicate.int32Bound group 1 Int32.maxValue.toInt ∧
      Predicate.int32Bound group 1 Int32.maxValue.toInt < 0)) (sample : Text) :
    ∃ bent, (tag.map Pattern.sampled).bend sample = some bent ∧
      ∀ depth mode options (span : Span) params, span.text = bent →
        ((tag.interpretAt depth).evaluate mode options span params).1 = true := by
  have hbend : f.bend (group.map Pattern.sampled) sample ≠ none := by
    apply Function.bend_ne_none exemplified
    simpa only [Predicate.int32Bound, Group.int32?_map] using possible
  obtain ⟨bent, hbent⟩ := Option.ne_none_iff_exists'.1 hbend
  refine ⟨bent, ?_, ?_⟩
  · simp only [bend, Tag.map, affirmed, known, first, Bool.false_eq_true, ↓reduceIte, List.map_cons,
      hbent]
  · intro depth mode options span params hspan
    have hverdict : f.verdict? (group.interpretAt depth) span.text = some true := by
      rw [hspan, Group.interpretAt, Function.verdict?_map, ← Function.verdict?_map f Pattern.sampled]
      exact Function.verdict?_of_bend exemplified hbent
    have haccepts : (f.evaluate options (group.interpretAt depth) span params).1.isSome = true :=
      Function.isSome_evaluate_of_verdict? hverdict options params
    have hjoined : tag.operators.combinator = .or ∨ rest.map (Group.interpretAt depth) = [] :=
      joined.imp id (congrArg _)
    have hfunction : (tag.interpretAt depth).function = some f := known
    have hgroups : (tag.interpretAt depth).runGroups =
        group.interpretAt depth :: rest.map (Group.interpretAt depth) := by
      simp only [runGroups, interpretAt, Tag.map, first]
      rfl
    -- the other groups are not asked, or there are none
    have hrun : (tag.operators.combinator.run (f.evaluate options) none (group.interpretAt depth ::
        rest.map (Group.interpretAt depth)) span params).1 = true :=
      Combinator.run_of_first hjoined haccepts
    rw [evaluate, hfunction]
    simp only [hgroups]
    show ((tag.operators.combinator.run _ _ _ _ _).1 != tag.operators.negated) = true
    rw [affirmed, hrun]
    rfl

/-- Two to five characters are too many or too few; the second group takes them all. -/
def windowed : Tag Pattern :=
  { name := "length".toList
    function := some .length
    operators := .combine .or
    groups := [⟨[some ⟨.int32 5, .sensitive⟩, some ⟨.int32 2, .sensitive⟩]⟩, .empty] }

theorem evaluate_of_bend_windowed :
    windowed.function = some .length ∧ Function.length ∈ Function.exemplified ∧
      windowed.operators.negated = false ∧ windowed.operators.combinator = .or ∧
      (windowed.map Pattern.sampled).bend "abc".toList = some "abcxxx".toList ∧
      ∀ depth mode options (span : Span) params, span.text = "abcxxx".toList →
        ((windowed.interpretAt depth).evaluate mode options span params).1 = true := by
  have hbend : (windowed.map Pattern.sampled).bend "abc".toList = some "abcxxx".toList := by
    decide +kernel
  have known : windowed.function = some .length := rfl
  obtain ⟨bent, hbent, haccepted⟩ := evaluate_of_bend known (by decide) rfl rfl (.inl rfl)
    (fun _ => by decide) "abc".toList
  cases hbend.symm.trans hbent
  exact ⟨rfl, by decide, rfl, rfl, hbend, haccepted⟩

end Tag

end Stencil
