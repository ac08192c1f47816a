import Stencil.Function.Resolution
import Stencil.Proofs.Text.Occurrences

/-! # Short names and their suffixes

Some short names begin with another one. The letter in which the two differ begins no suffix, so a name
can be cut into a short name and a suffix in one way only (`Resolution.eq_of_ofCut?`), and the order in
which the short names are tried cannot matter (`Resolution.ofShortName?_eq_some_iff`). -/
namespace Stencil

namespace Function

def ofShortName? (name : Text) : Option Function := all.find? fun f => f.shortName = name

theorem mem_all (f : Function) : f ∈ all := by cases f <;> decide

theorem ofShortName?_shortName (f : Function) : ofShortName? f.shortName = some f := by
  cases f <;> decide

theorem ofShortName?_eq_some_iff {name : Text} {f : Function} :
    ofShortName? name = some f ↔ f.shortName = name := by
  constructor
  · intro h
    simpa using List.find?_some h
  · rintro rfl
    exact ofShortName?_shortName f

theorem not_mem_of_prefix (f : Function) : ∀ g ∈ all, f.shortName <+: g.shortName →
    (g.shortName.drop f.shortName.length).head?.all (· ∉ ['a', 'n', 'c']) = true := by
  cases f <;> decide

end Function

namespace Resolution

variable {pattern : Casing} {front back : Text} {r : Resolution}

/-- What a short name and a suffix stand for. -/
def ofCut? (pattern : Casing) (front back : Text) : Option Resolution := do
  let f ← Function.ofShortName? front
  let words ← suffixWords? pattern back
  return ⟨f, some (Operators.empty.applyAll words)⟩

theorem ofCut?_eq_some_iff : ofCut? pattern front back = some r ↔
    ∃ f words, f.shortName = front ∧ suffixWords? pattern back = some words ∧
      ⟨f, some (Operators.empty.applyAll words)⟩ = r := by
  simp only [ofCut?, Option.bind_eq_bind, Option.bind_eq_some_iff, Option.pure_def, Option.some.injEq,
    Function.ofShortName?_eq_some_iff, exists_and_left]

theorem mem_of_suffixWords? {c : Char} {rest : Text} {words : List Operators}
    (h : suffixWords? pattern (c :: rest) = some words) : c ∈ ['a', 'n', 'c'] := by
  unfold suffixWords? at h
  split at h
  case h_1 hnil => cases hnil
  case h_6 => cases h
  case h_2 hletter | h_3 hletter | h_4 hletter | h_5 hletter =>
    cases hletter
    decide

theorem eq_nil_of_ofCut? {more : Text} {r' : Resolution}
    (h : ofCut? pattern front (more ++ back) = some r)
    (h' : ofCut? pattern (front ++ more) back = some r') : more = [] := by
  obtain ⟨f, words, rfl, hwords, -⟩ := ofCut?_eq_some_iff.1 h
  obtain ⟨g, _, hg, -, -⟩ := ofCut?_eq_some_iff.1 h'
  cases more with
  | nil => rfl
  | cons c rest =>
    have hbegins : f.shortName <+: g.shortName := ⟨c :: rest, hg.symm⟩
    have hnext : (g.shortName.drop f.shortName.length).head? = some c := by
      rw [hg, List.drop_left]
      rfl
    have hc := f.not_mem_of_prefix g g.mem_all hbegins
    rw [hnext, Option.all_some, decide_eq_true_eq] at hc
    exact absurd (mem_of_suffixWords? hwords) hc

theorem eq_of_ofCut? {front' back' : Text} {r' : Resolution} (h : ofCut? pattern front back = some r)
    (h' : ofCut? pattern front' back' = some r') (same : front ++ back = front' ++ back') :
    front = front' ∧ back = back' := by
  rcases List.append_eq_append_iff.1 same with ⟨more, rfl, rfl⟩ | ⟨more, rfl, rfl⟩
  · obtain rfl := eq_nil_of_ofCut? h h'
    simp
  · obtain rfl := eq_nil_of_ofCut? h' h
    simp

theorem mem_byShortName (f : Function) : f ∈ byShortName := by cases f <;> decide

/-- Whatever the order in which short names are tried, a name stands for what its only cut says. -/
theorem ofShortName?_eq_some_iff {name : Text} : ofShortName? pattern name = some r ↔
    ∃ front back, name = front ++ back ∧ ofCut? pattern front back = some r := by
  have hcut {r : Resolution} (h : ofShortName? pattern name = some r) :
      ∃ front back, name = front ++ back ∧ ofCut? pattern front back = some r := by
    obtain ⟨f, -, hf⟩ := List.exists_of_findSome?_eq_some h
    simp only [Option.bind_eq_bind, Option.bind_eq_some_iff, Option.pure_def, Option.some.injEq,
      Prod.exists, Casing.stripFront?_eq_some_iff, Casing.sameText_sensitive_iff] at hf
    obtain ⟨front, back, ⟨rfl, rfl⟩, words, hwords, rfl⟩ := hf
    exact ⟨_, back, rfl, ofCut?_eq_some_iff.2 ⟨f, words, rfl, hwords, rfl⟩⟩
  refine ⟨hcut, ?_⟩
  rintro ⟨front, back, rfl, h⟩
  obtain ⟨f, words, rfl, hwords, -⟩ := ofCut?_eq_some_iff.1 h
  have hfound : (ofShortName? pattern (f.shortName ++ back)).isSome = true := by
    refine List.findSome?_isSome_iff.2 ⟨f, mem_byShortName f, ?_⟩
    have hstrip : Casing.sensitive.stripFront? f.shortName (f.shortName ++ back) =
        some (f.shortName, back) :=
      Casing.stripFront?_eq_some_iff.2 ⟨rfl, Casing.sameText_refl _ _⟩
    simp [hstrip, hwords]
  obtain ⟨r', hr'⟩ := Option.isSome_iff_exists.1 hfound
  obtain ⟨front', back', hsame, h'⟩ := hcut hr'
  obtain ⟨rfl, rfl⟩ := eq_of_ofCut? h h' hsame
  rw [h] at h'
  rw [hr', h']

end Resolution

end Stencil
