import Stencil.Proofs.Compile.Shrinking
import Stencil.Proofs.Reports
import Stencil.Proofs.Scan.Advance

/-! # Nesting ends with the source

A nested pattern has a source with at least seven bytes less than the pattern around it. So nesting ends, whatever
bound is set on it, and a compiler without a bound is defined by recursion on the size of the source
(`Pattern.unbounded`). Under a bound that the source is too short for, the compiler does the same
(`Pattern.compile_terminates`). -/
namespace Stencil.Pattern

variable (options : Options)

theorem size_source_compileNested (levels position : Nat) (raw : List Symbol) :
    (compileNested options levels position raw).value.source.size ≤ writtenSize raw := by
  cases levels with
  | zero => exact size_meant_le raw
  | succ levels => exact Nat.le_of_eq (size_written raw)

theorem size_source_of_mem_nested {levels position : Nat} {raw : List Symbol} {q : Pattern}
    (h : q ∈ (compileNested options levels position raw).value.layer.nested) :
    q.source.size + 7 ≤ (compileNested options levels position raw).value.source.size := by
  cases levels with
  | zero =>
    rw [compileNested, nested_literal] at h
    cases h
  | succ levels =>
    have hsource : (compileNested options (levels + 1) position raw).value.source.size = writtenSize raw :=
      size_written raw
    rw [compileNested, layer, Layer.nested_compile] at h
    obtain ⟨read, hread, rfl⟩ := List.mem_map.1 h
    have hshorter := Layer.writtenSize_of_mem_reads hread
    have hnested := size_source_compileNested options levels read.1 read.2
    omega

theorem compile_eq_compileNested (source : Text) :
    compile source options = (compileNested options (options.maxDepth - 1 + 1) 0 (symbols source)).value := rfl

theorem size_source_of_mem_nestedAt {source : Text} {depth : Nat} {p : Pattern}
    (h : p ∈ nestedAt depth (compile source options)) :
    (∀ q ∈ p.layer.nested, q.source.size + 7 ≤ p.source.size) ∧ p.source.size + 7 * depth ≤ source.size := by
  have hnested {depth : Nat} {p : Pattern} (h : p ∈ nestedAt depth (compile source options)) :
      ∀ q ∈ p.layer.nested, q.source.size + 7 ≤ p.source.size := by
    rw [compile_eq_compileNested] at h
    obtain ⟨rest, position, raw, -, rfl⟩ := exists_of_mem_nestedAt options h
    exact fun q hq => size_source_of_mem_nested options hq
  refine ⟨hnested h, ?_⟩
  induction depth generalizing p with
  | zero =>
    have hsource : (compile source options).source = source := written_symbols source
    rw [List.mem_singleton.1 h, hsource]
    omega
  | succ depth ih =>
    rw [nestedAt_succ] at h
    obtain ⟨outer, houter, hp⟩ := List.mem_flatMap.1 h
    have hshorter := hnested houter p hp
    have hsize := ih houter
    omega

/-- Whatever the bound, so many levels down only so much is left to be read. -/
theorem writtenSize_of_mem_readsAt {source : List Symbol} {depth : Nat} {read : Read}
    (h : read ∈ readsAt options source depth) : writtenSize read.2 + 7 * depth ≤ writtenSize source := by
  induction depth generalizing read with
  | zero =>
    obtain rfl : read = (0, source) := List.mem_singleton.1 h
    exact Nat.le_refl _
  | succ depth ih =>
    obtain ⟨outer, houter, hread⟩ := List.mem_flatMap.1 h
    obtain ⟨inner, hinner, rfl⟩ := List.mem_map.1 hread
    have hshorter := Layer.writtenSize_of_mem_reads hinner
    have hsize := ih houter
    simp only
    omega

/-- The source compiled on all levels; what is nested in it is shorter. -/
def unbounded (source : List Symbol) : Pattern :=
  of <| .compile options (fun position raw =>
    if _shorter : writtenSize raw < writtenSize source then
      let pattern := unbounded raw
      ⟨pattern, pattern.diagnostics.rebase position⟩
    else .silent (literal (meant raw) options)) source
termination_by writtenSize source

def nestedUnbounded : Clause.Nest Pattern := fun position source =>
  ⟨unbounded options source, (unbounded options source).diagnostics.rebase position⟩

/-- The recursion never meets with a source that is not shorter. -/
theorem unbounded_eq (source : List Symbol) :
    unbounded options source = of (.compile options (nestedUnbounded options) source) := by
  rw [unbounded]
  refine congrArg of (Layer.compile_congr fun read hread => ?_)
  have hshorter := Layer.writtenSize_of_mem_reads hread
  exact dif_pos (by omega)

theorem compileNested_eq_unbounded {levels : Nat} {raw : List Symbol} (h : writtenSize raw < 7 * levels)
    (position : Nat) : compileNested options levels position raw = nestedUnbounded options position raw := by
  induction levels generalizing position raw with
  | zero => exact absurd h (Nat.not_lt_zero _)
  | succ levels ih =>
    have hlevel : Layer.compile options (compileNested options levels) raw =
        .compile options (nestedUnbounded options) raw := by
      refine Layer.compile_congr fun read hread => ih ?_ read.1
      have hshorter := Layer.writtenSize_of_mem_reads hread
      omega
    rw [compileNested, hlevel, ← unbounded_eq]
    rfl

theorem compile_eq_unbounded {source : Text} (h : source.size / 7 < options.maxDepth) :
    compile source options = unbounded options (symbols source) := by
  have hlevels : writtenSize (symbols source) < 7 * (options.maxDepth - 1 + 1) := by
    rw [writtenSize_symbols]
    omega
  exact congrArg Reported.value (compileNested_eq_unbounded options hlevels 0)

/-- Whatever the bound on nesting, a nested pattern has a source with at least seven bytes less than the
pattern around it, be it compiled or kept as text, and so the levels are no more than the bytes of the whole
source over seven. The same is so of the sources that are read on all levels, without regard to the bound.
Where the bound cannot be reached the compiler is a recursion that has none. On each level every loop over
byte positions moves on with every round, and they yield what the compiler yields. -/
theorem compile_terminates (source : Text) :
    (∀ depth, ∀ p ∈ nestedAt depth (compile source options),
      (∀ q ∈ p.layer.nested, q.source.size + 7 ≤ p.source.size) ∧
      p.source.size + 7 * depth ≤ source.size ∧ depth ≤ source.size / 7) ∧
    (∀ depth, ∀ read ∈ readsAt options (symbols source) depth,
      (∀ inner ∈ Layer.reads options read.2, writtenSize inner.2 + 7 ≤ writtenSize read.2) ∧
      writtenSize read.2 + 7 * depth ≤ source.size ∧ depth ≤ source.size / 7) ∧
    (source.size / 7 < options.maxDepth → compile source options = unbounded options (symbols source)) ∧
    (∀ raw, unbounded options raw = of (.compile options (nestedUnbounded options) raw)) ∧
    (∀ nested : Scan.Nest Pattern, Scan.Advances options nested) ∧
    ∀ levels, (Scan.nested options levels).Agrees (compileNested options levels) := by
  refine ⟨fun depth p hp => ?_, fun depth read hread => ?_, compile_eq_unbounded options,
    unbounded_eq options, Scan.advances options, Scan.agrees_nested options⟩
  · obtain ⟨hnested, hsize⟩ := size_source_of_mem_nestedAt options hp
    exact ⟨hnested, hsize, by omega⟩
  · have hsize := writtenSize_of_mem_readsAt options hread
    rw [writtenSize_symbols] at hsize
    exact ⟨fun inner hinner => Layer.writtenSize_of_mem_reads hinner, hsize, by omega⟩

/-- Parameters with the least that it takes to nest a pattern. -/
def narrow : Text := "%[\x7bf=%[\x7bf=x\x7d]\x7d]".toList

theorem compile_terminates_narrow :
    narrow.size = 15 ∧ (∃ p ∈ nestedAt 2 (compile narrow {}), p.source.size + 7 * 2 = 15) ∧
      nestedAt 3 (compile narrow {}) = [] ∧ compile narrow {} = unbounded {} (symbols narrow) := by
  have hsize : narrow.size = 15 := by decide +kernel
  have hinnermost : (nestedAt 2 (compile narrow {})).any (fun p => p.source.size + 7 * 2 = 15) = true := by
    decide +kernel
  obtain ⟨p, hp, hinner⟩ := List.any_eq_true.1 hinnermost
  obtain ⟨hdepth, -, hunbounded, -⟩ := compile_terminates {} narrow
  refine ⟨hsize, ⟨p, hp, of_decide_eq_true hinner⟩, ?_, hunbounded (by rw [hsize]; decide)⟩
  refine List.eq_nil_iff_forall_not_mem.2 fun q hq => ?_
  have hlevels := (hdepth 3 q hq).2.2
  rw [hsize] at hlevels
  exact absurd hlevels (by decide)

end Stencil.Pattern
