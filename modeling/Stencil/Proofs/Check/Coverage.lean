import Stencil.Proofs.Check.Splitting
import Stencil.Proofs.Evaluate.Provenance

/-! # Spans of a check cover the text

The spans of one slice are the slice again, cut where its tags narrowed it. So the spans of all
slices lie one behind the other, and each is what the text says at its place. -/
namespace Stencil

namespace Span

@[simp] theorem render_nil : render [] = [] := rfl

@[simp] theorem render_cons (span : Span) (spans : List Span) :
    render (span :: spans) = span.text ++ render spans := rfl

/-- Each span begins where the one before ends, and is as long as its text. -/
def Contiguous : Nat → List Span → Prop
  | _, [] => True
  | position, span :: rest =>
    span.start = position ∧ span.length = span.text.size ∧ Contiguous (position + span.length) rest

theorem Contiguous.append {position : Nat} {xs ys : List Span} (hx : Contiguous position xs)
    (hy : Contiguous (position + (render xs).size) ys) : Contiguous position (xs ++ ys) := by
  induction xs generalizing position with
  | nil => exact hy
  | cons span xs ih =>
    obtain ⟨hs, hl, hx⟩ := hx
    refine ⟨hs, hl, ih hx ?_⟩
    rw [render_cons, Text.size_append, ← hl, ← Nat.add_assoc] at hy
    exact hy

end Span

namespace Slice

/-- Of a capture whose tags kept the middle of a cut, the spans are the pieces of the cut. -/
theorem captureSpans_cut (name : Text) (position : Nat) (cut : Cut) :
    captureSpans name cut.whole position (cut.range.shift position) =
      (if cut.before.isEmpty then [] else [.literal cut.before position cut.before.size])
      ++ [.parameter name cut.kept (position + cut.before.size)]
      ++ (if cut.after.isEmpty then []
        else [.literal cut.after (position + cut.before.size + cut.kept.size) cut.after.size]) := by
  have hstart : (cut.range.shift position).start - position = cut.before.size := by
    simp only [ByteRange.shift, Cut.range]
    omega
  rw [captureSpans, hstart, ByteRange.length_shift, Cut.length_range, Cut.whole, List.append_assoc]
  simp only [Text.splitBytes_append]

theorem contiguous_captureSpans (name : Text) (position : Nat) (cut : Cut) :
    Span.Contiguous position (captureSpans name cut.whole position (cut.range.shift position)) ∧
      Span.render (captureSpans name cut.whole position (cut.range.shift position)) = cut.whole := by
  rw [captureSpans_cut]
  rcases cut with ⟨before, kept, after⟩
  cases before <;> cases after <;>
    simp [Span.Contiguous, Span.literal, Span.parameter, Cut.whole, Nat.add_assoc]

theorem evaluateFrom?_append (position : Nat) (params : Params) (xs ys : List (Slice Meaning)) :
    evaluateFrom? position params (xs ++ ys) =
      (evaluateFrom? position params xs).bind fun (spans, between) =>
        (evaluateFrom? (position + Text.size (xs.flatMap Slice.text)) between ys).bind fun (more, after) =>
          some (spans ++ more, after) := by
  induction xs generalizing position params with
  | nil =>
    simp only [List.nil_append, evaluateFrom?, Option.bind_some, List.flatMap_nil, Text.size_nil,
      Nat.add_zero]
    cases evaluateFrom? position params ys <;> rfl
  | cons slice xs ih =>
    simp only [List.cons_append, evaluateFrom?, Option.bind_eq_bind, ih, List.flatMap_cons,
      Text.size_append, Nat.add_assoc]
    rcases slice.evaluate? position params with _ | ⟨spans, between⟩
    · rfl
    · simp only [Option.bind_some]
      rcases evaluateFrom? (position + slice.text.size) between xs with _ | ⟨spans', between'⟩
      · rfl
      · simp only [Option.bind_some]
        rcases evaluateFrom? (position + (slice.text.size + Text.size (xs.flatMap Slice.text))) between' ys
          with _ | ⟨more, after⟩
        · rfl
        · simp only [Option.bind_some, List.append_assoc]

end Slice

end Stencil
