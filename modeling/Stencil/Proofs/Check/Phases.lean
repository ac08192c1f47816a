import Stencil.Proofs.Check.Cursor

/-! # Splitting first, tags afterwards

Tags decide whether a text is taken, but not where it is split. A check is the check of the pattern
without its tags, after which the tags are evaluated on what each parameter captured. -/
namespace Stencil

variable {π ρ : Type}

namespace Parameter

def untagged (p : Parameter π) : Parameter π := { p with tags := [] }

def store (p : Parameter π) (text : Text) (params : Params) : Params :=
  if p.isAnonymous then params else params.insert p.name (.text text)

end Parameter

/-- The level without the tags of its parameters. -/
def Layer.untagged (layer : Layer π) : Layer π :=
  { layer with parts := layer.parts.map (.onParameter .untagged) }

theorem Layer.untagged_map (g : π → ρ) (layer : Layer π) :
    (layer.map g).untagged = layer.untagged.map g := by
  simp only [untagged, Layer.map, List.map_map]
  congr 2
  funext part
  cases part <;> rfl

/-- A span that a part leaves whole. -/
def Part.Spans : Part π → Span → Prop
  | .literal l, span =>
    span = .literal span.text span.start span.text.size ∧ (Part.literal l : Part π).Takes span.text
  | .parameter p, span => span = .parameter p.name span.text span.start

namespace Span

/-- Pieces of a span over the same bytes. A literal is left as it is; a parameter is cut into what
its tags cut off in front, itself, and what they cut off behind. -/
structure Refines (whole : Span) (pieces : List Span) : Prop where
  contiguous : Contiguous whole.start pieces
  render : Span.render pieces = whole.text
  literal : whole.origin = .literal → pieces = [whole]
  parameter : whole.isParameter = true → ∃ front kept back, pieces = front ++ [kept] ++ back ∧
    front.length ≤ 1 ∧ back.length ≤ 1 ∧ kept.origin = whole.origin ∧
    ∀ span ∈ front ++ back, span.origin = .literal ∧ span.text ≠ []

theorem refines_literal (text : Text) (start : Nat) :
    Refines (literal text start text.size) [literal text start text.size] where
  contiguous := ⟨rfl, rfl, trivial⟩
  render := by simp [Span.literal]
  literal _ := rfl
  parameter h := by cases h

theorem of_mem_cutOff {text : Text} {start : Nat} {span : Span}
    (h : span ∈ if text.isEmpty then [] else [literal text start text.size]) :
    span.origin = .literal ∧ span.text ≠ [] := by
  cases text with
  | nil => cases h
  | cons c cs =>
    rw [List.mem_singleton.1 h]
    exact ⟨rfl, List.cons_ne_nil c cs⟩

theorem refines_captureSpans (name : Text) (position : Nat) (cut : Cut) :
    Refines (.parameter name cut.whole position)
      (Slice.captureSpans name cut.whole position (cut.range.shift position)) := by
  obtain ⟨hcontiguous, hrender⟩ := Slice.contiguous_captureSpans name position cut
  constructor
  · exact hcontiguous
  · exact hrender
  · intro h
    cases h
  · intro _
    rw [Slice.captureSpans_cut]
    refine ⟨_, _, _, rfl, ?_, ?_, rfl, ?_⟩
    · split <;> simp
    · split <;> simp
    · intro span hspan
      rcases List.mem_append.1 hspan with h | h
      · exact of_mem_cutOff h
      · exact of_mem_cutOff h

end Span

/-- Evaluate the tags of a part on a span that was captured without them. What results are the pieces
of the span; there is nothing if a tag refuses. -/
def Part.retag? : Part Meaning → Span → Params → Option (List Span × Params)
  | .literal _, span, params => some ([span], params)
  | .parameter p, span, params =>
    match evaluateAll .check .inCheck p.tags span params with
    | (false, _, _) => none
    | (true, final, params) =>
      some (Slice.captureSpans p.name span.text span.start final.range, p.store final.text params)

def retag? : List (Part Meaning) → List Span → Params → Option (List (List Span) × Params)
  | [], [], params => some ([], params)
  | part :: parts, span :: spans, params => do
    let (first, params) ← part.retag? span params
    let (pieces, params) ← retag? parts spans params
    some (first :: pieces, params)
  | _, _, _ => none

namespace Slice

def whole (position : Nat) : Slice π → Span
  | literal text => .literal text position text.size
  | capture p text => .parameter p.name text position

def wholeFrom : Nat → List (Slice π) → List Span
  | _, [] => []
  | position, slice :: rest => slice.whole position :: wholeFrom (position + slice.text.size) rest

theorem spans_wholeFrom {parts : List (Part π)} {slices : List (Slice π)}
    (h : List.Forall₂ Fits parts slices) (position : Nat) :
    List.Forall₂ Part.Spans parts (wholeFrom position slices) := by
  induction h generalizing position with
  | nil => exact .nil
  | @cons part slice parts slices hfits _ ih =>
    refine .cons ?_ (ih (position + slice.text.size))
    cases part with
    | literal l =>
      obtain ⟨text, rfl, hsame⟩ := fits_literal_iff.1 hfits
      exact ⟨rfl, hsame⟩
    | parameter p =>
      obtain ⟨text, rfl⟩ := fits_parameter_iff.1 hfits
      rfl

theorem takes_wholeFrom {parts : List (Part π)} {slices : List (Slice π)}
    (h : List.Forall₂ (fun (part : Part π) slice => part.Takes slice.text) parts slices)
    (position : Nat) :
    List.Forall₂ (fun (part : Part π) span => part.Takes span.text) parts
      (wholeFrom position slices) := by
  induction h generalizing position with
  | nil => exact .nil
  | @cons part slice parts slices htakes _ ih =>
    refine .cons ?_ (ih (position + slice.text.size))
    cases slice <;> exact htakes

theorem captureSpans_whole (name text : Text) (position : Nat) :
    captureSpans name text position (Span.parameter name text position).range =
      [.parameter name text position] := by
  have hcut := captureSpans_cut name position ⟨[], text, []⟩
  simpa [Cut.whole, Cut.range, ByteRange.shift, Span.range, Span.parameter] using hcut

def store : Slice π → Params → Params
  | literal _, params => params
  | capture p text, params => p.store text params

def storeAll (slices : List (Slice π)) (params : Params) : Params :=
  slices.foldl (fun params slice => slice.store params) params

theorem evaluate?_untagged (position : Nat) (params : Params) (slice : Slice Meaning) :
    (slice.onParameter .untagged).evaluate? position params =
      some ([slice.whole position], slice.store params) := by
  cases slice with
  | literal text => rfl
  | capture p text =>
    rw [whole, ← captureSpans_whole]
    rfl

theorem evaluateFrom?_untagged (position : Nat) (params : Params) (slices : List (Slice Meaning)) :
    evaluateFrom? position params (slices.map (.onParameter .untagged)) =
      some (wholeFrom position slices, storeAll slices params) := by
  induction slices generalizing position params with
  | nil => rfl
  | cons slice slices ih =>
    have htext : (slice.onParameter Parameter.untagged).text = slice.text := by
      cases slice <;> rfl
    simp only [List.map_cons, evaluateFrom?, evaluate?_untagged, htext, ih, Option.bind_eq_bind,
      Option.bind_some]
    rfl

theorem evaluate?_eq_retag? {part : Part Meaning} {slice : Slice Meaning} (h : Fits part slice)
    (position : Nat) (params : Params) :
    slice.evaluate? position params = part.retag? (slice.whole position) params := by
  cases part with
  | literal l =>
    obtain ⟨text, rfl, -⟩ := fits_literal_iff.1 h
    rfl
  | parameter p =>
    obtain ⟨text, rfl⟩ := fits_parameter_iff.1 h
    rfl

theorem evaluateFrom?_eq_retag? {parts : List (Part Meaning)} {slices : List (Slice Meaning)}
    (h : List.Forall₂ Fits parts slices) (position : Nat) (params : Params) :
    evaluateFrom? position params slices =
      (retag? parts (wholeFrom position slices) params).map
        fun (pieces, after) => (pieces.flatten, after) := by
  induction h generalizing position params with
  | nil => rfl
  | @cons part slice parts slices hfits _ ih =>
    simp only [evaluateFrom?, wholeFrom, Stencil.retag?, Option.bind_eq_bind,
      evaluate?_eq_retag? hfits]
    rcases part.retag? (slice.whole position) params with _ | ⟨first, between⟩
    · rfl
    · simp only [Option.bind_some, ih]
      rcases Stencil.retag? parts (wholeFrom (position + slice.text.size) slices) between
        with _ | ⟨pieces, after⟩ <;> rfl

theorem refines_of_retag? {part : Part Meaning} {slice : Slice Meaning} (h : Fits part slice)
    {position : Nat} {params after : Params} {pieces : List Span}
    (hpieces : part.retag? (slice.whole position) params = some (pieces, after)) :
    (slice.whole position).Refines pieces := by
  cases part with
  | literal l =>
    obtain ⟨text, rfl, -⟩ := fits_literal_iff.1 h
    cases hpieces
    exact Span.refines_literal _ position
  | parameter p =>
    obtain ⟨text, rfl⟩ := fits_parameter_iff.1 h
    have htraced := (Span.traced_parameter p.name text position).evaluateAll .check .inCheck
      p.tags params
    rw [Part.retag?, whole] at hpieces
    rcases he : evaluateAll .check .inCheck p.tags (.parameter p.name text position) params
      with ⟨verdict, final, between⟩
    rw [he] at hpieces htraced
    cases verdict with
    | false => cases hpieces
    | true =>
      cases hpieces
      obtain ⟨cut, rfl, hr, -⟩ := htraced.place
      rw [whole, hr]
      exact Span.refines_captureSpans p.name position cut

theorem forall₂_refines {parts : List (Part Meaning)} {slices : List (Slice Meaning)}
    (h : List.Forall₂ Fits parts slices) {position : Nat} {params after : Params}
    {pieces : List (List Span)}
    (hpieces : retag? parts (wholeFrom position slices) params = some (pieces, after)) :
    List.Forall₂ Span.Refines (wholeFrom position slices) pieces := by
  induction h generalizing position params pieces with
  | nil =>
    cases hpieces
    exact .nil
  | @cons part slice parts slices hfits _ ih =>
    simp only [wholeFrom, Stencil.retag?, Option.bind_eq_bind, Option.bind_eq_some_iff,
      Prod.exists] at hpieces
    obtain ⟨first, between, hf, more, last, hm, hpieces⟩ := hpieces
    cases hpieces
    exact .cons (refines_of_retag? hfits hf) (ih hm)

end Slice

theorem Layer.check_untagged_eq (layer : Layer Meaning) (text : Text) (params : Params) :
    layer.untagged.check text params = (splitParts? [] layer.parts text).map fun slices =>
      (Slice.wholeFrom 0 slices, Slice.storeAll slices params) := by
  have hsplit := splitParts?_map (g := Parameter.untagged) (fun _ => rfl) (fun _ => rfl) []
    layer.parts text
  rw [List.map_nil] at hsplit
  simp only [check, untagged, hsplit, Option.bind_eq_bind]
  rcases splitParts? [] layer.parts text with _ | slices
  · rfl
  · exact Slice.evaluateFrom?_untagged 0 params slices

theorem Layer.check_untagged (layer : Layer Meaning) (text : Text) (params : Params) :
    (layer.untagged.check text params).map Prod.fst =
      (splitParts? [] layer.parts text).map (Slice.wholeFrom 0) := by
  rw [check_untagged_eq, Option.map_map]
  rfl

/-- A check is the check without tags, and after that the tags. -/
theorem Layer.check_eq_retag? (layer : Layer Meaning) (text : Text) (params : Params) :
    layer.check text params = (layer.untagged.check text params).bind fun (whole, _) =>
      (retag? layer.parts whole params).map fun (pieces, after) => (pieces.flatten, after) := by
  have huntagged := layer.check_untagged text params
  rw [check]
  rcases hs : splitParts? [] layer.parts text with _ | slices
  · rw [hs] at huntagged
    rw [Option.map_eq_none_iff.1 huntagged]
    rfl
  · rw [hs] at huntagged
    obtain ⟨⟨whole, stored⟩, hw, rfl⟩ := Option.map_eq_some_iff.1 huntagged
    rw [hw]
    exact Slice.evaluateFrom?_eq_retag? (of_splitParts? hs).2 0 params

theorem Layer.spans_of_check_untagged {layer : Layer Meaning} {text : Text}
    {params stored : Params} {whole : List Span}
    (h : layer.untagged.check text params = some (whole, stored)) :
    List.Forall₂ Part.Spans layer.parts whole ∧
      ((∀ run ∈ Part.runs layer.parts, Run.needed run < UInt64.size) →
        List.Forall₂ (fun (part : Part Meaning) span => part.Takes span.text) layer.parts whole) ∧
      ∀ params pieces after, retag? layer.parts whole params = some (pieces, after) →
        List.Forall₂ Span.Refines whole pieces := by
  have huntagged := layer.check_untagged text params
  rw [h, Option.map_some] at huntagged
  obtain ⟨slices, hs, hwhole⟩ := Option.map_eq_some_iff.1 huntagged.symm
  subst hwhole
  have hfits := (of_splitParts? hs).2
  refine ⟨Slice.spans_wholeFrom hfits 0, ?_, fun _ _ _ hpieces => Slice.forall₂_refines hfits hpieces⟩
  intro fits
  exact Slice.takes_wholeFrom (takes_of_splitParts? fits hs) 0

namespace Pattern

def untagged (p : Pattern) : Pattern := of p.layer.untagged

theorem levelAt_untagged (p : Pattern) (depth : Nat) :
    p.untagged.levelAt depth = (p.levelAt depth).untagged :=
  (p.layer.untagged_map _).symm

/-- Tags have no influence on where a text is split. The check of a pattern, and likewise the walk over a
text that can be counted, on which every tag runs as soon as its parameter is captured, is the check or
walk of the pattern without tags and after that the evaluation of the tags, with one map, on the spans it
found. There is one span for each part, and its pieces are the same bytes: a literal is left, and of a
parameter the tags can cut something off in front and behind. Where what the runs need can be counted,
each part takes what its span holds. -/
theorem check_splits_untagged (p : Pattern) (text : Text) (params : Params) :
    (p.check text params = (p.untagged.check text params).bind fun (whole, _) =>
      (retag? (p.levelAt 0).parts whole params).map fun (pieces, after) =>
        (pieces.flatten, after)) ∧
    (text.length < UInt64.size → p.walkAt .wraps 0 text params = do
      let (whole, _) ← p.untagged.walkAt .wraps 0 text params
      let (pieces, after) ← Attempt.found (retag? (p.levelAt 0).parts whole params)
      return (pieces.flatten, after)) ∧
    ∀ whole stored, p.untagged.check text params = some (whole, stored) →
      List.Forall₂ Part.Spans (p.levelAt 0).parts whole ∧
      ((∀ run ∈ Part.runs p.parts, Run.needed run < UInt64.size) →
        List.Forall₂ (fun (part : Part Meaning) span => part.Takes span.text) (p.levelAt 0).parts
          whole) ∧
      ∀ pieces after, retag? (p.levelAt 0).parts whole params = some (pieces, after) →
        List.Forall₂ Span.Refines whole pieces := by
  have hcheck : p.check text params = (p.untagged.check text params).bind fun (whole, _) =>
      (retag? (p.levelAt 0).parts whole params).map fun (pieces, after) =>
        (pieces.flatten, after) := by
    rw [check_eq, check_eq, levelAt_untagged]
    exact Layer.check_eq_retag? _ text params
  refine ⟨hcheck, ?_, ?_⟩
  · intro small
    have hwalk (q : Pattern) : q.walkAt .wraps 0 text params = Attempt.found (q.check text params) :=
      walkAt_eq (.inr ⟨rfl, small⟩) 0 params
    rw [hwalk, hwalk, hcheck]
    rcases p.untagged.check text params with _ | ⟨whole, stored⟩
    · rfl
    · rw [Option.bind_some]
      simp only [Attempt.found, Attempt.ok_bind]
      rcases retag? (p.levelAt 0).parts whole params with _ | ⟨pieces, after⟩ <;> rfl
  · intro whole stored h
    rw [check_eq, levelAt_untagged] at h
    obtain ⟨hspans, htakes, hrefines⟩ := Layer.spans_of_check_untagged h
    refine ⟨hspans, fun fits => htakes fun run hrun => ?_, hrefines params⟩
    obtain ⟨own, hown, hneeded⟩ := exists_needed_levelAt hrun
    exact hneeded ▸ fits own hown

end Pattern

end Stencil
