import Stencil.Proofs.Compile.Reports
import Stencil.Proofs.Function.Suffix
import Stencil.Proofs.Operators

/-! # The words of a tag

The operators of a tag are those that the suffix of a short name implies and then those of the words, in the
order in which they stand. The last combinator counts and the last word about case, an inversion anywhere is
enough, and a word that is not known is reported and changes nothing else (`Clause.call_operators`). -/
namespace Stencil

open SuffixToken

/-- The name is the function's own, or its short name with tokens behind it. -/
def Function.Spells (f : Function) (tokens : List SuffixToken) (name : Text) : Prop :=
  name = f.name ∧ tokens = [] ∨ name = f.shortName ++ spell tokens

theorem Resolution.exists_spells {pattern : Casing} {name : Text} {r : Resolution}
    (h : ofName? pattern name = some r) :
    ∃ tokens, r.function.Spells tokens name ∧ r.legacy.getD .empty = implied pattern tokens := by
  rcases exists_of_ofName? pattern h with ⟨f, rfl⟩ | ⟨f, tokens, rfl⟩
  · rw [ofName?_name] at h
    cases h
    exact ⟨[], .inl ⟨rfl, rfl⟩, rfl⟩
  · rw [ofName?_spell] at h
    cases h
    exact ⟨tokens, .inr rfl, rfl⟩

namespace Operators

theorem filterMap_ofWord?_filter (words : List Text) :
    (words.filter isKnown).filterMap ofWord? = words.filterMap ofWord? := by
  rw [List.filterMap_filter]
  congr 1
  funext word
  cases hknown : isKnown word with
  | true => rfl
  | false => exact (ofWord?_eq_none_iff.2 hknown).symm

/-- What a suffix and words leave of operators: bits that are set one after the other, no two combinators and
no two cases, and of each setting the last word for it, else the suffix, else what stands for none. -/
structure Collected (pattern : Casing) (tokens : List SuffixToken) (words : List Text)
    (ops : Operators) : Prop where
  bits : ops.toFlags = Flags.run 0
    (Flags.run 0 (tokens.map fun token => (token.meaning pattern).toFlags) ::
      (words.filterMap ofWord?).map toFlags)
  oneCombinator : ∀ c d, ops.toFlags.contains (.ofCombinator c) = true →
    ops.toFlags.contains (.ofCombinator d) = true → c = d
  oneCasing : ∀ c d, ops.toFlags.contains (.ofCasing c) = true →
    ops.toFlags.contains (.ofCasing d) = true → c = d
  read : ops.toFlags.combinator = ops.combinator ∧
    ops.toFlags.casingIn pattern = ops.casingIn pattern ∧ ops.toFlags.contains .negating = ops.negated
  combinator : ops.combinator =
    (words.filterMap namedCombinator?).getLast?.getD (if .a ∈ tokens ∨ .all ∈ tokens then .and else .or)
  casing : ops.casingIn pattern =
    (words.filterMap namedCasing?).getLast?.getD (if .c ∈ tokens then pattern.opposite else pattern)
  negated : ops.negated = true ↔ .n ∈ tokens ∨ ∃ word ∈ words, negates word = true

theorem collected_applyAll (pattern : Casing) (tokens : List SuffixToken) (words : List Text) :
    ((implied pattern tokens).applyAll (words.filterMap ofWord?)).Collected pattern tokens words where
  bits := by
    have himplied : (implied pattern tokens).toFlags =
        Flags.run 0 (tokens.map fun token => (token.meaning pattern).toFlags) := by
      rw [← applyAll_meaning, toFlags_applyAll, List.map_map]
      rfl
    rw [← himplied, ← empty_apply (implied pattern tokens), ← applyAll_cons, toFlags_applyAll, List.map_cons,
      empty_apply]
    rfl
  oneCombinator := fun _ _ => eq_of_contains_ofCombinator _
  oneCasing := fun _ _ => eq_of_contains_ofCasing _
  read := ⟨combinator_toFlags _, casingIn_toFlags _ pattern, contains_negating_toFlags _⟩
  combinator := by
    have hwords : (words.map named).filterMap (·.combinator?) = words.filterMap namedCombinator? :=
      List.filterMap_map
    have himplied : (implied pattern tokens).combinator? =
        if .a ∈ tokens ∨ .all ∈ tokens then some .and else none := rfl
    rw [applyAll_filterMap_ofWord?, Operators.combinator, combinator?_applyAll, hwords, himplied]
    cases (words.filterMap namedCombinator?).getLast? with
    | some c => rfl
    | none => split <;> rfl
  casing := by
    have hwords : (words.map named).filterMap (·.casing?) = words.filterMap namedCasing? := List.filterMap_map
    have himplied : (implied pattern tokens).casing? =
        if .c ∈ tokens then some pattern.opposite else none := rfl
    rw [applyAll_filterMap_ofWord?, casingIn, casing?_applyAll, hwords, himplied]
    cases (words.filterMap namedCasing?).getLast? with
    | some c => rfl
    | none => split <;> rfl
  negated := by
    rw [applyAll_filterMap_ofWord?, negated_applyAll, List.any_map, Bool.or_eq_true, List.any_eq_true, implied,
      decide_eq_true_eq]
    rfl

end Operators

open Operators

namespace Clause

variable {π : Type}

theorem mem_wordReports_iff {name : Text} {words : List Text} {d : Diagnostic} :
    d ∈ wordReports name words ↔ ∃ word ∈ words, isKnown word = false ∧ d = .unknownModifier name word := by
  simp only [wordReports, List.mem_map, List.mem_filter, Option.isNone_iff_eq_none, ofWord?_eq_none_iff, and_assoc,
    eq_comm (b := d)]

variable (options : Options) (nested : Nest π) {name : Text} {r : Resolution}
  (h : Resolution.ofName? options.casing name = some r)

include h

theorem call_of_ofName? (modifiers : Text) (position : Nat) (arguments : List Symbol) :
    call options nested name modifiers position arguments =
      (((Site.mk r.function ((operators r (modifierWords modifiers)).casingIn options.casing) nested).groups
        position arguments).map fun groups =>
          .tag ⟨name, r.function, operators r (modifierWords modifiers), groups⟩).after
        (nameReports name r ++ wordReports name (modifierWords modifiers)) := by
  rw [call, h]
  rfl

theorem call_filter_isKnown {modifiers fewer : Text}
    (same : modifierWords fewer = (modifierWords modifiers).filter isKnown) (position : Nat)
    (arguments : List Symbol) :
    (call options nested name fewer position arguments).value =
      (call options nested name modifiers position arguments).value ∧
    ∀ d, d ∈ (call options nested name modifiers position arguments).reports ↔
      d ∈ (call options nested name fewer position arguments).reports ∨
        ∃ word ∈ modifierWords modifiers, isKnown word = false ∧ d = .unknownModifier name word := by
  have hoperators : operators r (modifierWords fewer) = operators r (modifierWords modifiers) := by
    rw [operators, operators, same, filterMap_ofWord?_filter]
  have hreports : wordReports name (modifierWords fewer) = [] := by
    refine List.eq_nil_iff_forall_not_mem.2 fun d hd => ?_
    obtain ⟨word, hword, hunknown, -⟩ := mem_wordReports_iff.1 hd
    rw [same] at hword
    rw [(List.mem_filter.1 hword).2] at hunknown
    cases hunknown
  rw [call_of_ofName? options nested h, call_of_ofName? options nested h, hoperators, hreports]
  refine ⟨rfl, fun d => ?_⟩
  simp only [Reported.after, Reported.map, List.mem_append, mem_wordReports_iff, List.not_mem_nil, or_false]
  exact or_right_comm

/-- A name that stands for a function gives a tag of it, with the operators that the tokens behind a short name
and the words leave, in this order. They are kept as bits, of which no two combinators and no two cases are set.
The combinator is that of the last word for one, else the one of the suffix, else OR, and the case that of the
last word about it, else that of the suffix, else that of the pattern; it is inverted by a word or a token
wherever it stands. Each word that is not known is reported once, and without all these words the call is the
same but for these reports. -/
theorem call_operators (modifiers : Text) (position : Nat) (arguments : List Symbol) :
    (∃ tokens tag, r.function.Spells tokens name ∧
      (call options nested name modifiers position arguments).value = .tag tag ∧ tag.name = name ∧
      tag.function = some r.function ∧
      tag.operators.Collected options.casing tokens (modifierWords modifiers)) ∧
    (∀ word ∈ modifierWords modifiers, isKnown word = false →
      (Diagnostics.ofList (call options nested name modifiers position arguments).reports).count
        (.unknownModifier name word) = 1) ∧
    ∀ fewer, modifierWords fewer = (modifierWords modifiers).filter isKnown →
      (call options nested name fewer position arguments).value =
        (call options nested name modifiers position arguments).value ∧
      ∀ d, d ∈ (call options nested name modifiers position arguments).reports ↔
        d ∈ (call options nested name fewer position arguments).reports ∨
          ∃ word ∈ modifierWords modifiers, isKnown word = false ∧ d = .unknownModifier name word := by
  obtain ⟨tokens, hspells, himplied⟩ := Resolution.exists_spells h
  have hoperators : operators r (modifierWords modifiers) =
      (implied options.casing tokens).applyAll ((modifierWords modifiers).filterMap ofWord?) := by
    rw [← himplied]
    rfl
  have hcall := call_of_ofName? options nested h modifiers position arguments
  rw [hoperators] at hcall
  refine ⟨⟨tokens, _, hspells, congrArg Reported.value hcall, rfl, rfl, collected_applyAll _ _ _⟩, ?_,
    fun fewer same => call_filter_isKnown options nested h same _ _⟩
  · intro word hword hunknown
    have hreported : .unknownModifier name word ∈ wordReports name (modifierWords modifiers) :=
      mem_wordReports_iff.2 ⟨word, hword, hunknown, rfl⟩
    refine List.count_eq_one_of_mem (Diagnostics.nodup_ofList _) (Diagnostics.mem_ofList_iff.2 ?_)
    rw [hcall]
    exact List.mem_append_left _ (List.mem_append_right _ hreported)

end Clause

theorem Clause.call_operators_equals :
    Resolution.ofName? .sensitive "eqan".toList = some ⟨.equals, some ⟨some .and, true, none⟩⟩ ∧
    (∃ tag : Tag Text, (call {} (fun _ raw => .silent (meant raw)) "eqan".toList
        "NOR, maybe|Xor case".toList 0 []).value = .tag tag ∧ tag.function = some .equals ∧
      tag.operators.combinator = .xor ∧ tag.operators.negated = true ∧
      tag.operators.casingIn .sensitive = .sensitive) ∧
    (Diagnostics.ofList (call {} (fun _ raw => .silent (meant raw)) "eqan".toList
        "NOR, maybe|Xor case".toList 0 []).reports).count
      (.unknownModifier "eqan".toList "maybe".toList) = 1 := by
  have hname : Resolution.ofName? .sensitive "eqan".toList =
      some ⟨.equals, some ⟨some .and, true, none⟩⟩ := by
    decide +kernel
  have hwords : modifierWords "NOR, maybe|Xor case".toList =
      ["NOR".toList, "maybe".toList, "Xor".toList, "case".toList] := by
    decide +kernel
  obtain ⟨⟨tokens, tag, -, hvalue, -, hfunction, hops⟩, hunknown, -⟩ :=
    call_operators {} (fun _ raw => .silent (meant raw)) hname "NOR, maybe|Xor case".toList 0 []
  rw [hwords] at hops hunknown
  refine ⟨hname, ⟨tag, hvalue, hfunction, ?_, ?_, ?_⟩, ?_⟩
  · have hlast : (["NOR".toList, "maybe".toList, "Xor".toList, "case".toList].filterMap
        namedCombinator?).getLast? = some .xor := by
      decide +kernel
    rw [hops.combinator, hlast]
    rfl
  · exact hops.negated.2 (.inr ⟨_, List.mem_cons_self, by decide +kernel⟩)
  · have hlast : (["NOR".toList, "maybe".toList, "Xor".toList, "case".toList].filterMap
        namedCasing?).getLast? = some .sensitive := by
      decide +kernel
    rw [show Casing.sensitive = ({} : Options).casing from rfl, hops.casing, hlast]
    rfl
  · exact hunknown _ (by decide) (by decide +kernel)

end Stencil
