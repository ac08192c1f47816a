import Stencil.Proofs.Check.Cursor
import Stencil.Proofs.Function.ShortName

/-! # Names by byte positions

Where a short name might end, the name is cut at a byte position, from the last one to the first one that
is the edge of a character. What is found so is what the compiler finds (`Scan.resolve_eq`). -/
namespace Stencil

open Attempt

namespace Scan

variable (pattern : Casing) (name : Text)

/-- The first cut of the name that stands for a function, at a position or before it. -/
def shortName : Nat → Attempt (Option Resolution)
  | 0 => return none
  | position + 1 =>
    if (name.splitAt? (position + 1)).isSome then do
      let front ← slice name 0 (position + 1)
      match Function.ofShortName? front with
      | none => shortName position
      | some f => do
        let back ← slice name (position + 1) name.size
        match Resolution.suffixWords? pattern back with
        | none => shortName position
        | some words => return some ⟨f, some (Operators.empty.applyAll words)⟩
    else shortName position

def resolve : Attempt (Option Resolution) :=
  match Function.ofName? name with
  | some f => return some ⟨f, none⟩
  | none =>
    match Function.ofShortName? name with
    | some f => return some ⟨f, some .empty⟩
    | none => shortName pattern name (name.size - 1)

theorem shortName_edge {front back : Text} {position : Nat} (h : front.size = position + 1) :
    shortName pattern (front ++ back) (position + 1) =
      match Resolution.ofCut? pattern front back with
      | some r => .ok (some r)
      | none => shortName pattern (front ++ back) position := by
  have hedge : (Text.splitAt? (front ++ back) (position + 1)).isSome = true := by
    rw [← h, Text.splitAt?_append]
    rfl
  have hfront := slice_front front back
  have hback := slice_to_end front back
  rw [h] at hfront hback
  rw [shortName, if_pos hedge, hfront, ok_bind, Resolution.ofCut?]
  cases Function.ofShortName? front with
  | none => rfl
  | some f =>
    simp only [hback, ok_bind]
    cases Resolution.suffixWords? pattern back <;> rfl

theorem exists_shortName (position : Nat) : ∃ found, shortName pattern name position = .ok found ∧
    (∀ r, found = some r →
      ∃ front back, name = front ++ back ∧ Resolution.ofCut? pattern front back = some r) ∧
    (found = none → ∀ front back, name = front ++ back → 0 < front.size → front.size ≤ position →
      Resolution.ofCut? pattern front back = none) := by
  induction position with
  | zero =>
    refine ⟨none, rfl, by simp, ?_⟩
    intro _ front back _ hpos hle
    omega
  | succ position ih =>
    obtain ⟨found, hfound, hsome, hnone⟩ := ih
    -- only at the edge of a character is there a cut to look at
    by_cases hedge : (name.splitAt? (position + 1)).isSome = true
    · obtain ⟨⟨front, back⟩, hsplit⟩ := Option.isSome_iff_exists.1 hedge
      obtain ⟨rfl, hsize⟩ := Text.splitAt?_eq_some_iff.1 hsplit
      rw [shortName_edge pattern hsize]
      cases hcut : Resolution.ofCut? pattern front back with
      | some r =>
        refine ⟨some r, rfl, ?_, by simp⟩
        rintro _ ⟨⟩
        exact ⟨front, back, rfl, hcut⟩
      | none =>
        refine ⟨found, hfound, hsome, ?_⟩
        intro hno front' back' hsame hpos hle
        by_cases hlast : front'.size = position + 1
        · have hsplit' := Text.splitAt?_eq_some_iff.2 ⟨hsame, hlast⟩
          rw [hsplit] at hsplit'
          cases hsplit'
          exact hcut
        · exact hnone hno front' back' hsame hpos (by omega)
    · rw [shortName, if_neg hedge]
      refine ⟨found, hfound, hsome, ?_⟩
      intro hno front back hsame hpos hle
      apply hnone hno front back hsame hpos
      have hne : front.size ≠ position + 1 := by
        intro hlast
        rw [Text.splitAt?_eq_some_iff.2 ⟨hsame, hlast⟩] at hedge
        exact hedge rfl
      omega

theorem resolve_eq : resolve pattern name = .ok (Resolution.ofName? pattern name) := by
  unfold resolve Resolution.ofName?
  cases Function.ofName? name with
  | some f => rfl
  | none =>
    simp only
    cases hwhole : Function.ofShortName? name with
    | some f =>
      have hcut : Resolution.ofCut? pattern name [] = some ⟨f, some .empty⟩ := by
        rw [Resolution.ofCut?, hwhole]
        rfl
      rw [Resolution.ofShortName?_eq_some_iff.2 ⟨name, [], (List.append_nil name).symm, hcut⟩]
      rfl
    | none =>
      obtain ⟨found, hfound, hsome, hnone⟩ := exists_shortName pattern name (name.size - 1)
      simp only [hfound]
      cases found with
      | some r => rw [Resolution.ofShortName?_eq_some_iff.2 (hsome r rfl)]
      | none =>
        cases hother : Resolution.ofShortName? pattern name with
        | none => rfl
        | some r =>
          obtain ⟨front, back, rfl, hcut⟩ := Resolution.ofShortName?_eq_some_iff.1 hother
          obtain ⟨f, words, rfl, -, -⟩ := Resolution.ofCut?_eq_some_iff.1 hcut
          have hfront : 0 < f.shortName.size := by cases f <;> decide
          -- with nothing behind it the short name would have been found as a whole
          have hback : back ≠ [] := by
            rintro rfl
            rw [List.append_nil, Function.ofShortName?_shortName] at hwhole
            cases hwhole
          have hpos : 0 < back.size := Text.size_pos hback
          have hnot := hnone rfl _ _ rfl hfront (by rw [Text.size_append]; omega)
          rw [hnot] at hcut
          cases hcut

end Scan

end Stencil
