import Stencil.Proofs.Evaluate.Ranges

/-! # Resizing

To resize a span is to keep so many characters of its text at one end, or to add so many at the other end
that are missing (`Function.resize_exact`). What is kept has its place in the source; what is added is a
padding repeated as often as it takes, and cut off. -/
namespace Stencil

/-- What is repeated to pad a text: a space in the place of an empty padding. -/
def Text.paddingUnit (pad : Text) : Text := if pad = [] then [' '] else pad

theorem Text.paddingUnit_ne_nil (pad : Text) : pad.paddingUnit ≠ [] := by
  rw [paddingUnit]
  split
  · exact List.cons_ne_nil _ _
  · assumption

theorem getElem?_flatten_replicate {unit : Text} {count i : Nat} (h : i < count * unit.length) :
    (List.replicate count unit).flatten[i]? = unit[i % unit.length]? := by
  induction count generalizing i with
  | zero => exact absurd (Nat.zero_mul _ ▸ h) (Nat.not_lt_zero i)
  | succ count ih =>
    rw [List.replicate_succ, List.flatten_cons]
    rcases Nat.lt_or_ge i unit.length with hfirst | hbehind
    · rw [List.getElem?_append_left hfirst, Nat.mod_eq_of_lt hfirst]
    · rw [Nat.succ_mul] at h
      rw [List.getElem?_append_right hbehind, ih (by omega), ← Nat.mod_eq_sub_mod hbehind]

namespace Change

@[simp] theorem length_repeated (pad : Text) (count : Nat) : (repeated pad count).length = count := by
  rw [repeated, List.length_map, List.length_range]

theorem getElem?_repeated (pad : Text) {count i : Nat} (h : i < count) :
    (repeated pad count)[i]? = pad.paddingUnit[i % pad.paddingUnit.length]? := by
  have hindex : i % pad.paddingUnit.length < pad.paddingUnit.length :=
    Nat.mod_lt i (List.length_pos_iff.2 pad.paddingUnit_ne_nil)
  rw [repeated, List.getElem?_map, List.getElem?_range h, Option.map_some,
    List.getElem?_eq_getElem hindex]
  refine congrArg some ?_
  by_cases hempty : pad = []
  · subst hempty
    simp [Text.paddingUnit]
  · have hunit : pad.paddingUnit = pad := if_neg hempty
    simp only [hunit] at hindex ⊢
    rw [List.getD_eq_getElem?_getD, List.getElem?_eq_getElem hindex, Option.getD_some]

theorem repeated_isPrefix (pad : Text) (count : Nat) :
    repeated pad count <+: (List.replicate count pad.paddingUnit).flatten := by
  rw [List.prefix_iff_getElem?]
  intro i hi
  have hunit := List.length_pos_iff.2 pad.paddingUnit_ne_nil
  rw [length_repeated] at hi
  rw [← List.getElem?_eq_getElem, getElem?_repeated pad hi]
  exact getElem?_flatten_replicate (Nat.lt_of_lt_of_le hi (Nat.le_mul_of_pos_right count hunit))

end Change

/-- The span after resizing to a length, which is negative if it is changed at the start. -/
structure Span.Resized (length : Int) (pad : Text) (span result : Span) : Prop where
  length_eq : result.text.length = length.natAbs
  /-- What is kept stands at one end of the text, and as long as nothing has rewritten the span its place
  becomes that of what is kept. Where all of the text is kept, this is the place that the span had before,
  if that is as long as the text. -/
  kept : length.natAbs ≤ span.text.length → ∃ cut : Cut, cut.whole = span.text ∧
    cut.kept = result.text ∧ (0 ≤ length → cut.before = []) ∧ (length < 0 → cut.after = []) ∧
    (span.rewritten = false → length.natAbs < span.text.length ∨ span.length = span.text.size →
      result.range = cut.range.shift span.start)
  padded : span.text.length < length.natAbs → ∃ padding count,
    padding <+: (List.replicate count pad.paddingUnit).flatten ∧
    result.text = (if 0 ≤ length then span.text ++ padding else padding ++ span.text) ∧
    result.range = span.range
  rewritten_iff : result.rewritten = true ↔
    span.rewritten = true ∨ span.text.length < length.natAbs
  origin_eq : result.origin = span.origin

namespace Span

theorem range_narrow {span : Span} (h : span.rewritten = false) (cut : Cut) :
    (span.narrow cut).range = cut.range.shift span.start := by
  rw [narrow, h, if_neg Bool.false_ne_true]
  simp only [range, Cut.range, ByteRange.shift, Nat.add_assoc]

@[simp] theorem text_narrow (span : Span) (cut : Cut) : (span.narrow cut).text = cut.kept := by
  unfold narrow
  split <;> rfl

@[simp] theorem rewritten_narrow (span : Span) (cut : Cut) :
    (span.narrow cut).rewritten = span.rewritten := by
  unfold narrow
  split <;> rfl

@[simp] theorem origin_narrow (span : Span) (cut : Cut) : (span.narrow cut).origin = span.origin := by
  unfold narrow
  split <;> rfl

theorem rewrite_self (span : Span) : span.rewrite span.text = span := if_pos rfl

theorem rewrite_of_ne {span : Span} {text : Text} (h : text ≠ span.text) :
    span.rewrite text = { span with text := text, rewritten := true } := if_neg h

end Span

namespace Change

theorem resizeTo_of_length_eq {length : Int} {span : Span} (pad : Text)
    (h : span.text.length = length.natAbs) : resizeTo length pad span = span := by
  have hnothing : repeated pad 0 = [] := rfl
  simp only [resizeTo, h, Nat.lt_irrefl, if_false, Nat.sub_self, hnothing, List.append_nil,
    List.nil_append, ite_self, Span.rewrite_self]

theorem resized_of_lt {length : Int} {span : Span} (pad : Text) (h : length.natAbs < span.text.length) :
    span.Resized length pad (resizeTo length pad span) := by
  obtain ⟨cut, hcut, hwhole, hlength, hfront, hback⟩ : ∃ cut : Cut,
      resizeTo length pad span = span.narrow cut ∧ cut.whole = span.text ∧
      cut.kept.length = length.natAbs ∧ (0 ≤ length → cut.before = []) ∧
      (length < 0 → cut.after = []) := by
    rw [resizeTo, if_pos h]
    rcases Int.lt_or_le length 0 with hnegative | hnonnegative
    · refine ⟨_, if_neg (Int.not_le.2 hnegative), ?_, ?_, fun hle => ?_, fun _ => rfl⟩
      · rw [Cut.whole, List.append_nil, List.take_append_drop]
      · rw [List.length_drop]
        omega
      · exact absurd hnegative (Int.not_lt.2 hle)
    · refine ⟨_, if_pos hnonnegative, ?_, ?_, fun _ => rfl, fun hlt => ?_⟩
      · exact List.take_append_drop _ _
      · exact List.length_take_of_le (Nat.le_of_lt h)
      · exact absurd hlt (Int.not_lt.2 hnonnegative)
  rw [hcut]
  refine ⟨?_, fun _ => ⟨cut, hwhole, (span.text_narrow cut).symm, hfront, hback, ?_⟩, ?_, ?_, ?_⟩
  · rw [Span.text_narrow, hlength]
  · exact fun hverbatim _ => Span.range_narrow hverbatim cut
  · exact fun hlonger => absurd h (Nat.lt_asymm hlonger)
  · rw [Span.rewritten_narrow, or_iff_left (Nat.lt_asymm h)]
  · exact span.origin_narrow cut

theorem resized_of_eq {length : Int} {span : Span} (pad : Text) (h : span.text.length = length.natAbs) :
    span.Resized length pad (resizeTo length pad span) := by
  rw [resizeTo_of_length_eq pad h]
  have hwhole : (Cut.mk [] span.text []).whole = span.text := List.append_nil _
  refine ⟨h, fun _ => ⟨⟨[], span.text, []⟩, hwhole, rfl, fun _ => rfl, fun _ => rfl, ?_⟩, ?_, ?_, rfl⟩
  · intro _ hplace
    have hsize := hplace.resolve_left (Nat.not_lt.2 (Nat.le_of_eq h))
    simp only [Span.range, Cut.range, ByteRange.shift, Text.size_nil, Nat.add_zero, Nat.zero_add, hsize]
  · exact fun hlonger => absurd h (Nat.ne_of_lt hlonger)
  · rw [or_iff_left (Nat.not_lt.2 (Nat.le_of_eq h.symm))]

theorem resized_of_gt {length : Int} {span : Span} (pad : Text) (h : span.text.length < length.natAbs) :
    span.Resized length pad (resizeTo length pad span) := by
  have hshort : ¬ length.natAbs < span.text.length := Nat.lt_asymm h
  obtain ⟨padding, hpadding⟩ : ∃ padding, repeated pad (length.natAbs - span.text.length) = padding :=
    ⟨_, rfl⟩
  have hcount : padding.length = length.natAbs - span.text.length := by
    rw [← hpadding, length_repeated]
  obtain ⟨text, htext⟩ : ∃ text : Text,
      (if 0 ≤ length then span.text ++ padding else padding ++ span.text) = text := ⟨_, rfl⟩
  have hlength : text.length = length.natAbs := by
    rw [← htext]
    split
    · rw [List.length_append]
      omega
    · rw [List.length_append]
      omega
  have hne : text ≠ span.text := by
    intro hsame
    rw [hsame] at hlength
    omega
  have hresized : resizeTo length pad span = { span with text := text, rewritten := true } := by
    simp only [resizeTo, if_neg hshort, hpadding, htext]
    exact Span.rewrite_of_ne hne
  rw [hresized]
  refine ⟨hlength, fun hle => absurd h (Nat.not_lt.2 hle), fun _ => ?_, ?_, rfl⟩
  · exact ⟨padding, _, hpadding ▸ repeated_isPrefix pad _, htext.symm, rfl⟩
  · exact iff_of_true rfl (.inr h)

theorem resized_resizeTo (length : Int) (pad : Text) (span : Span) :
    span.Resized length pad (resizeTo length pad span) := by
  rcases Nat.lt_trichotomy span.text.length length.natAbs with hshort | heq | hlong
  · exact resized_of_gt pad hshort
  · exact resized_of_eq pad heq
  · exact resized_of_lt pad hlong

end Change

/-- Resizing gives a text of exactly as many characters as are asked for, also for the least number there
is. Of a longer text the first ones or the last ones are kept, and the place of a span that nothing has
rewritten becomes theirs, so that the source says there what is kept; a shorter text is one end of the
result, and the place stays. All ranges that are computed for this are ranges of the text. To resize once
more changes nothing. -/
theorem Function.resize_exact {group : Group Meaning} {length : Int32}
    (given : group.int32? 0 = some length) (options : FormatOptions) (span : Span) (params : Params) :
    ∃ result, resize.evaluate options group span params = (some result, params) ∧
      Change.attemptResize group span = .ok (some result) ∧
      span.Resized length.toInt (group.text 1) result ∧
      (∀ name source position, span.Traced source position (.parameter name) →
        span.rewritten = false → length.toInt.natAbs ≤ span.text.length →
        source.slice? ⟨result.range.start - position, result.range.stop - position⟩ =
          some result.text) ∧
      resize.evaluate options group result params = (some result, params) := by
  have hresize (span : Span) :
      Change.resize group span = some (Change.resizeTo length.toInt (group.text 1) span) := by
    rw [Change.resize, given, Option.map_some]
  have hresized := Change.resized_resizeTo length.toInt (group.text 1) span
  have hagain := Change.resizeTo_of_length_eq (group.text 1) hresized.length_eq
  refine ⟨_, congrArg (·, params) (hresize span), ?_, hresized, ?_, congrArg (·, params) ?_⟩
  · rw [Change.attemptResize_eq, hresize]
  · intro name source position htraced hverbatim hle
    have hplaced := ((Change.edit_resizeTo length.toInt (group.text 1) span).traced htraced).placed
    refine hplaced.text_eq (Bool.eq_false_iff.2 fun hrewritten => ?_)
    rcases hresized.rewritten_iff.1 hrewritten with hbefore | hlonger
    · exact Bool.false_ne_true (hverbatim.symm.trans hbefore)
    · exact absurd hlonger (Nat.not_lt.2 hle)
  · rw [hresize, hagain]

/-- The least length there is, with a padding of two characters. -/
def Group.leastLength : Group Meaning :=
  ⟨[some ⟨.int32 Int32.minValue, .sensitive⟩, some ⟨.text "ab".toList, .sensitive⟩]⟩

theorem Function.resize_exact_least :
    Group.leastLength.int32? 0 = some Int32.minValue ∧
      ∀ options params, let span : Span := .parameter "v".toList "xyz".toList 4
        ∃ result, resize.evaluate options Group.leastLength span params = (some result, params) ∧
          result.text.length = 2147483648 ∧ result.range = ⟨4, 7⟩ ∧ "xyz".toList <:+ result.text := by
  have given : Group.leastLength.int32? 0 = some Int32.minValue := rfl
  refine ⟨given, ?_⟩
  intro options params span
  obtain ⟨result, heval, -, hresized, -, -⟩ := resize_exact given options span params
  have hlength : Int32.minValue.toInt.natAbs = 2147483648 := rfl
  have hlonger : span.text.length < Int32.minValue.toInt.natAbs := by decide
  obtain ⟨padding, -, -, htext, hrange⟩ := hresized.padded hlonger
  have hnegative : ¬ 0 ≤ Int32.minValue.toInt := by decide
  rw [if_neg hnegative] at htext
  exact ⟨result, heval, hresized.length_eq.trans hlength, hrange, padding, htext.symm⟩

end Stencil
