import Stencil.Proofs.Compile.Reads
import Stencil.Proofs.Nesting

/-! # Reports at every depth

The diagnostics of a pattern nested at any depth are among those of the whole pattern, moved by the place
where its source begins, and there they are right about the whole source. -/
namespace Stencil

theorem Diagnostic.rebase_zero (d : Diagnostic) : d.rebase 0 = d := by
  cases d <;> simp only [rebase, Nat.zero_add]

namespace Pattern

variable (options : Options)

theorem faithful_level (levels : Nat) (source : List Symbol)
    (points : ∀ position raw, Stands source position raw →
      ∀ d ∈ (compileNested options levels position raw).reports, d.PointsInto (written source)) :
    let p := of (.compile options (compileNested options levels) source)
    (∀ d ∈ p.diagnostics, d.PointsInto (written source)) ∧
    ∀ read ∈ Layer.reads options source, Stands source read.1 read.2 ∧
      ∀ d ∈ (compileNested options levels read.1 read.2).reports, d ∈ p.diagnostics := by
  have hlevel := Layer.faithful_compile points options
  rw [Layer.nested_reading] at hlevel
  intro p
  have hp : p.diagnostics = (Layer.compile options (reading fun position raw =>
      (compileNested options levels position raw).reports) source).diagnostics := by
    rw [diagnostics, layer, Layer.compile_eq_map]
    rfl
  rw [hp]
  exact hlevel

theorem points_compileNested (levels : Nat) {source raw : List Symbol} {position : Nat}
    (h : Stands source position raw) :
    ∀ d ∈ (compileNested options levels position raw).reports, d.PointsInto (written source) := by
  induction levels generalizing source position raw with
  | zero =>
    intro d hd
    rw [List.mem_singleton.1 hd]
    trivial
  | succ levels ih =>
    intro d hd
    obtain ⟨e, he, rfl⟩ := List.mem_map.1 hd
    obtain ⟨hpoints, -⟩ := faithful_level options levels raw fun position inner hinner => ih hinner
    exact (hpoints e he).rebase h

/-- The sources that are read so many levels down, each with its position in the whole source. -/
def readsAt (source : List Symbol) : Nat → List Read
  | 0 => [(0, source)]
  | depth + 1 => (readsAt source depth).flatMap fun (start, raw) =>
    (Layer.reads options raw).map fun (position, inner) => (start + position, inner)

/-- A source so many levels down is compiled with the levels that are left there. -/
def compileAt (depth : Nat) (source : List Symbol) : Pattern :=
  of (.compile options (compileNested options (options.maxDepth - 1 - depth)) source)

theorem compileNested_eq {depth : Nat} (h : depth < options.maxDepth - 1) (position : Nat)
    (raw : List Symbol) :
    compileNested options (options.maxDepth - 1 - depth) position raw =
      ⟨compileAt options (depth + 1) raw,
        (compileAt options (depth + 1) raw).diagnostics.rebase position⟩ := by
  obtain ⟨levels, hlevels⟩ : ∃ levels, options.maxDepth - 1 - depth = levels + 1 :=
    ⟨options.maxDepth - 1 - depth - 1, by omega⟩
  have hrest : options.maxDepth - 1 - (depth + 1) = levels := by omega
  rw [compileAt, hlevels, hrest]
  rfl

theorem nestedAt_succ (depth : Nat) (p : Pattern) :
    nestedAt (depth + 1) p = (nestedAt depth p).flatMap fun q => q.layer.nested := by
  induction depth generalizing p with
  | zero =>
    calc nestedAt 1 p = p.layer.nested.flatMap fun q => [q] := rfl
      _ = p.layer.nested := List.flatMap_singleton' _
      _ = (nestedAt 0 p).flatMap fun q => q.layer.nested :=
        (List.flatMap_singleton (fun q => q.layer.nested) p).symm
  | succ depth ih =>
    have hnested : nestedAt (depth + 1) = fun q => (nestedAt depth q).flatMap fun r => r.layer.nested :=
      funext ih
    calc nestedAt (depth + 2) p = p.layer.nested.flatMap (nestedAt (depth + 1)) := rfl
      _ = p.layer.nested.flatMap fun q => (nestedAt depth q).flatMap fun r => r.layer.nested := by
        rw [hnested]
      _ = (nestedAt (depth + 1) p).flatMap fun q => q.layer.nested := List.flatMap_assoc.symm

/-- Within the bound, all that is nested so many levels down is compiled from the reads there. -/
theorem nestedAt_compileAt (source : List Symbol) {depth : Nat} (h : depth ≤ options.maxDepth - 1) :
    nestedAt depth (compileAt options 0 source) =
      (readsAt options source depth).map fun read => compileAt options depth read.2 := by
  induction depth with
  | zero => rfl
  | succ depth ih =>
    have hlevel (raw : List Symbol) : (compileAt options depth raw).layer.nested =
        (Layer.reads options raw).map fun read => compileAt options (depth + 1) read.2 := by
      rw [compileAt, layer, Layer.nested_compile]
      refine List.map_congr_left ?_
      intro read _
      rw [compileNested_eq options h]
    rw [nestedAt_succ, ih (by omega), readsAt, List.flatMap_map, List.map_flatMap]
    simp only [hlevel, List.map_map, Function.comp_def]

/-- Within the bound, what is read so many levels down stands in the whole source, and the whole pattern
reports what is reported of it. -/
theorem mem_readsAt {source : List Symbol} {depth : Nat} (h : depth ≤ options.maxDepth - 1) {read : Read}
    (hread : read ∈ readsAt options source depth) :
    Stands source read.1 read.2 ∧ ∀ d ∈ (compileAt options depth read.2).diagnostics,
      d.rebase read.1 ∈ (compileAt options 0 source).diagnostics := by
  induction depth generalizing read with
  | zero =>
    rw [List.mem_singleton.1 hread]
    refine ⟨.self source, ?_⟩
    intro d hd
    rw [d.rebase_zero]
    exact hd
  | succ depth ih =>
    obtain ⟨⟨start, raw⟩, houter, hinner⟩ := List.mem_flatMap.1 hread
    obtain ⟨⟨position, inner⟩, hmem, rfl⟩ := List.mem_map.1 hinner
    obtain ⟨hraw, hreports⟩ := ih (by omega) houter
    obtain ⟨-, hlevel⟩ := faithful_level options (options.maxDepth - 1 - depth) raw
      fun position inner hinner => points_compileNested options _ hinner
    obtain ⟨hstands, hpasses⟩ := hlevel (position, inner) hmem
    refine ⟨hraw.trans hstands, ?_⟩
    intro d hd
    have hmoved : d.rebase position ∈
        (compileNested options (options.maxDepth - 1 - depth) position inner).reports := by
      rw [compileNested_eq options h]
      exact List.mem_map_of_mem hd
    have htop := hreports _ (hpasses _ hmoved)
    rw [Diagnostic.rebase_rebase] at htop
    exact htop

theorem nodup_diagnostics_compileNested (levels position : Nat) (raw : List Symbol) :
    (compileNested options levels position raw).value.diagnostics.Nodup := by
  cases levels with
  | zero => exact List.nodup_nil
  | succ levels => exact Diagnostics.nodup_ofList _

/-- The patterns that are compiled so many levels down, each with the place where its source begins in
the whole source. -/
def locatedAt (source : Text) (depth : Nat) : List (Nat × Pattern) :=
  (readsAt options (symbols source) depth).map fun (start, raw) => (start, compileAt options depth raw)

/-- Every diagnostic of a compiled source is right about the source at its position. Above the bound
on nesting, all that is nested at a depth is compiled from what stands in the source at its start, and
moved by that start its diagnostics are among those of the whole; from the bound on it is text. Nowhere
is a diagnostic listed twice. -/
theorem compile_reports (source : Text) (options : Options) :
    (∀ d ∈ (compile source options).diagnostics, d.PointsInto source) ∧
    (∀ depth ≤ options.maxDepth - 1,
      (locatedAt options source depth).map Prod.snd = nestedAt depth (compile source options) ∧
      ∀ start q, (start, q) ∈ locatedAt options source depth →
        source.slice? ⟨start, start + q.source.size⟩ = some q.source ∧
        ∀ d ∈ q.diagnostics, d.rebase start ∈ (compile source options).diagnostics) ∧
    ∀ depth, ∀ q ∈ nestedAt depth (compile source options), q.diagnostics.Nodup ∧
      (1 ≤ depth → options.maxDepth ≤ depth → ∃ raw, q = literal (meant raw) options) := by
  refine ⟨?_, ?_, ?_⟩
  · obtain ⟨hpoints, -⟩ := faithful_level options (options.maxDepth - 1) (symbols source)
      fun position inner hinner => points_compileNested options _ hinner
    rw [written_symbols] at hpoints
    exact hpoints
  · intro depth hdepth
    constructor
    · have hnested := nestedAt_compileAt options (symbols source) hdepth
      rw [locatedAt, List.map_map]
      exact hnested.symm
    · intro start q hq
      obtain ⟨⟨start, raw⟩, hread, hpair⟩ := List.mem_map.1 hq
      cases hpair
      obtain ⟨hstands, hreports⟩ := mem_readsAt options hdepth hread
      have hslice := hstands.slice?_written
      rw [written_symbols] at hslice
      exact ⟨hslice, hreports⟩
  · intro depth q hq
    -- the whole pattern is one that is read with all the levels left
    have hwhole : q ∈ nestedAt depth
        (compileNested options (options.maxDepth - 1 + 1) 0 (symbols source)).value := hq
    obtain ⟨rest, position, raw, hlevels, rfl⟩ := exists_of_mem_nestedAt options hwhole
    refine ⟨nodup_diagnostics_compileNested options rest position raw, ?_⟩
    intro hone hbound
    have hrest : rest = 0 := by omega
    subst hrest
    exact ⟨raw, rfl⟩

/-- An opening two levels down, behind a character of two bytes. -/
def unclosed : Text := "é%[v{format=b%[w{format=c%[}]}]".toList

theorem compile_reports_unclosed :
    (25, compileAt {} 2 (symbols "c%[".toList)) ∈ locatedAt {} unclosed 2 ∧
      .unterminatedParameter 1 ∈ (compileAt {} 2 (symbols "c%[".toList)).diagnostics ∧
      .unterminatedParameter 26 ∈ (compile unclosed {}).diagnostics ∧
      unclosed.slice? ⟨26, 28⟩ = some "%[".toList := by
  have hread : (25, symbols "c%[".toList) ∈ readsAt {} (symbols unclosed) 2 := by decide +kernel
  have hlocated := List.mem_map_of_mem (f := fun read : Read => (read.1, compileAt {} 2 read.2)) hread
  have hinner : .unterminatedParameter 1 ∈ (compileAt {} 2 (symbols "c%[".toList)).diagnostics := by
    decide +kernel
  obtain ⟨hpoints, hlevels, -⟩ := compile_reports unclosed {}
  obtain ⟨-, hplaces⟩ := hlevels 2 (by decide)
  obtain ⟨-, hpasses⟩ := hplaces 25 _ hlocated
  have htop := hpasses _ hinner
  exact ⟨hlocated, hinner, htop, hpoints _ htop⟩

end Pattern

end Stencil
