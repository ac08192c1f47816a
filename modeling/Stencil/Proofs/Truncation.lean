import Stencil.Proofs.Compile.Reads
import Stencil.Proofs.Nesting

/-! # Two bounds on nesting

Under a lower bound a source is compiled to what it is compiled to under a higher one, cut off at the lower
bound: what is nested there is kept as text, and this is reported exactly if there is something to cut off
(`Pattern.compile_truncates`). Both compilers read the same at every level; the induction is on the levels
that are left under the lower bound. -/
namespace Stencil

theorem Diagnostics.nestingTooDeep_mem_rebase_iff {bound base : Nat} {entries : Diagnostics} :
    .nestingTooDeep bound ∈ entries.rebase base ↔ .nestingTooDeep bound ∈ entries := by
  rw [rebase, List.mem_map]
  constructor
  · rintro ⟨d, hd, hsame⟩
    cases d <;> cases hsame
    exact hd
  · intro hd
    exact ⟨_, hd, rfl⟩

namespace Pattern

/-- The pattern without the diagnostics of its levels. -/
def silent : Pattern → Pattern := fold fun layer => of { layer with diagnostics := [] }

/-- The pattern with another bound written down at every level. -/
def withBound (bound : Nat) : Pattern → Pattern := fold fun layer =>
  of { layer with options := { layer.options with maxDepth := bound } }

/-- The pattern down to so many levels, with another bound written down; a pattern that is nested there is
the text that its source stands for. -/
def truncate (bound : Nat) : Pattern → Nat → Pattern := fold fun layer levels =>
  match levels with
  | 0 => literal layer.source.unescape { layer.options with maxDepth := bound }
  | levels + 1 => of { layer.map (· levels) with options := { layer.options with maxDepth := bound } }

theorem silent_of (layer : Layer Pattern) :
    (of layer).silent = of { layer.map silent with diagnostics := [] } :=
  fold_of _ layer

theorem withBound_of (bound : Nat) (layer : Layer Pattern) :
    (of layer).withBound bound =
      of { layer.map (withBound bound) with options := { layer.options with maxDepth := bound } } :=
  fold_of _ layer

theorem diagnostics_withBound (bound : Nat) (p : Pattern) :
    (p.withBound bound).diagnostics = p.diagnostics := by
  rcases p with ⟨layer⟩
  rw [withBound_of]
  rfl

theorem truncate_zero (bound : Nat) (layer : Layer Pattern) :
    (of layer).truncate bound 0 =
      literal layer.source.unescape { layer.options with maxDepth := bound } :=
  congrFun (fold_of _ layer) 0

theorem truncate_succ (bound levels : Nat) (layer : Layer Pattern) :
    (of layer).truncate bound (levels + 1) =
      of { layer.map (truncate bound · levels) with
        options := { layer.options with maxDepth := bound } } := by
  have hfold : (of layer).truncate bound (levels + 1) =
      of { (layer.map (truncate bound)).map (· levels) with
        options := { layer.options with maxDepth := bound } } := congrFun (fold_of _ layer) (levels + 1)
  rw [hfold, Layer.map_map]
  rfl

theorem nestedAt_compileNested (options : Options) (depth levels position : Nat) (raw : List Symbol) :
    nestedAt (depth + 1) (compileNested options (levels + 1) position raw).value =
      (Layer.reads options raw).flatMap fun read =>
        nestedAt depth (compileNested options levels read.1 read.2).value := by
  rw [nestedAt, compileNested, layer, Layer.nested_compile, List.flatMap_map]

section

variable {casing : Casing} {low high : Nat}

/-- Read at any place, a source is what it is under the higher bound, cut off where the levels end. -/
theorem silent_compileNested {levels more : Nat} (h : levels < more) (position position' : Nat)
    {raw : List Symbol} (legible : Legible raw) :
    (compileNested ⟨casing, low⟩ levels position raw).value.silent =
      ((compileNested ⟨casing, high⟩ more position' raw).value.truncate low levels).silent := by
  induction levels generalizing more position position' raw with
  | zero =>
    obtain ⟨more, rfl⟩ : ∃ n, more = n + 1 := ⟨more - 1, by omega⟩
    rw [compileNested, compileNested, truncate_zero]
    exact congrArg (fun text => silent (literal text ⟨casing, low⟩)) legible.unescape_written.symm
  | succ levels ih =>
    obtain ⟨more, rfl⟩ : ∃ n, more = n + 1 := ⟨more - 1, by omega⟩
    obtain ⟨-, -, hstands, -, -⟩ := Layer.remarks_compile ⟨casing, low⟩ raw
    have hparts : (Layer.compile ⟨casing, low⟩ (.map silent (compileNested ⟨casing, low⟩ levels)) raw).parts =
        (Layer.compile ⟨casing, high⟩
          (.map (silent ∘ (truncate low · levels)) (compileNested ⟨casing, high⟩ more)) raw).parts := by
      refine Layer.parts_congr_reads rfl fun read hread => ?_
      exact ih (by omega) read.1 read.1 ((hstands read hread).legible legible)
    rw [Layer.compile_map, Layer.compile_map, ← Layer.map_map] at hparts
    rw [compileNested, compileNested, truncate_succ, silent_of, silent_of]
    exact congrArg (fun parts => of ⟨written raw, parts, [], ⟨casing, low⟩⟩) hparts

/-- Something is too deep for the lower bound exactly if something is nested where its levels end. -/
theorem exists_nestingTooDeep_iff {levels more : Nat} (h : levels < more) (position position' : Nat)
    (raw : List Symbol) :
    (∃ bound, .nestingTooDeep bound ∈ (compileNested ⟨casing, low⟩ levels position raw).reports) ↔
      nestedAt levels (compileNested ⟨casing, high⟩ more position' raw).value ≠ [] := by
  induction levels generalizing more position position' raw with
  | zero => exact iff_of_true ⟨low, List.mem_singleton_self _⟩ (List.cons_ne_nil _ _)
  | succ levels ih =>
    obtain ⟨more, rfl⟩ : ∃ n, more = n + 1 := ⟨more - 1, by omega⟩
    have hdeep (bound : Nat) :
        .nestingTooDeep bound ∈ (compileNested ⟨casing, low⟩ (levels + 1) position raw).reports ↔
          ∃ read ∈ Layer.reads ⟨casing, low⟩ raw,
            .nestingTooDeep bound ∈ (compileNested ⟨casing, low⟩ levels read.1 read.2).reports :=
      Diagnostics.nestingTooDeep_mem_rebase_iff.trans Layer.nestingTooDeep_mem_iff
    have hreads : Layer.reads ⟨casing, low⟩ raw = Layer.reads ⟨casing, high⟩ raw := Layer.reads_congr rfl
    rw [nestedAt_compileNested, ne_eq, List.flatMap_eq_nil_iff, ← hreads]
    constructor
    · rintro ⟨bound, hbound⟩ hnone
      obtain ⟨read, hread, hmem⟩ := (hdeep bound).1 hbound
      exact (ih (by omega) read.1 read.1 read.2).1 ⟨bound, hmem⟩ (hnone read hread)
    · intro hsome
      by_contra hsilent
      refine hsome fun read hread => ?_
      by_contra hne
      obtain ⟨bound, hmem⟩ := (ih (by omega) read.1 read.1 read.2).2 hne
      exact hsilent ⟨bound, (hdeep bound).2 ⟨read, hread, hmem⟩⟩

theorem eq_of_nestingTooDeep_mem {options : Options} {levels position bound : Nat} {raw : List Symbol}
    (h : .nestingTooDeep bound ∈ (compileNested options levels position raw).reports) :
    bound = options.maxDepth := by
  induction levels generalizing position raw with
  | zero =>
    cases List.mem_singleton.1 h
    rfl
  | succ levels ih =>
    obtain ⟨read, -, hread⟩ :=
      Layer.nestingTooDeep_mem_iff.1 (Diagnostics.nestingTooDeep_mem_rebase_iff.1 h)
    exact ih hread

theorem compileNested_withBound {levels more : Nat} (h : levels < more) (position : Nat)
    {raw : List Symbol} (shallow : nestedAt levels (compileNested ⟨casing, high⟩ more position raw).value = []) :
    compileNested ⟨casing, low⟩ levels position raw =
      (compileNested ⟨casing, high⟩ more position raw).map (withBound low) := by
  induction levels generalizing more position raw with
  | zero => exact absurd shallow (List.cons_ne_nil _ _)
  | succ levels ih =>
    obtain ⟨more, rfl⟩ : ∃ n, more = n + 1 := ⟨more - 1, by omega⟩
    have hreads : Layer.reads ⟨casing, low⟩ raw = Layer.reads ⟨casing, high⟩ raw := Layer.reads_congr rfl
    rw [nestedAt_compileNested, List.flatMap_eq_nil_iff, ← hreads] at shallow
    -- nothing is cut off below either, so what is read differs in the bound alone
    have hread (read) (hmem : read ∈ Layer.reads ⟨casing, low⟩ raw) :=
      ih (by omega : levels < more) read.1 (shallow read hmem)
    have hparts : (Layer.compile ⟨casing, low⟩ (compileNested ⟨casing, low⟩ levels) raw).parts =
        (Layer.compile ⟨casing, high⟩
          (.map (withBound low) (compileNested ⟨casing, high⟩ more)) raw).parts :=
      Layer.parts_congr_reads rfl fun read hmem => congrArg Reported.value (hread read hmem)
    have hdiagnostics :
        (Layer.compile ⟨casing, low⟩ (compileNested ⟨casing, low⟩ levels) raw).diagnostics =
          (Layer.compile ⟨casing, high⟩ (compileNested ⟨casing, high⟩ more) raw).diagnostics := by
      refine Layer.diagnostics_congr rfl fun read hmem => ?_
      rw [hread read hmem]
      rfl
    rw [Layer.compile_map] at hparts
    have hlevel :=
      calc of (.compile ⟨casing, low⟩ (compileNested ⟨casing, low⟩ levels) raw)
        _ = of ⟨written raw,
              (Layer.compile ⟨casing, low⟩ (compileNested ⟨casing, low⟩ levels) raw).parts,
              (Layer.compile ⟨casing, low⟩ (compileNested ⟨casing, low⟩ levels) raw).diagnostics,
              ⟨casing, low⟩⟩ := rfl
        _ = of ⟨written raw,
              ((Layer.compile ⟨casing, high⟩ (compileNested ⟨casing, high⟩ more) raw).map
                (withBound low)).parts,
              (Layer.compile ⟨casing, high⟩ (compileNested ⟨casing, high⟩ more) raw).diagnostics,
              ⟨casing, low⟩⟩ := by rw [hparts, hdiagnostics]
        _ = (of (.compile ⟨casing, high⟩ (compileNested ⟨casing, high⟩ more) raw)).withBound low := by
          rw [withBound_of]
          rfl
    rw [compileNested, compileNested, hlevel, diagnostics_withBound]
    rfl

end

/-- A source under two bounds. Diagnostics aside, what the lower bound leaves is the pattern under the
higher one, where the patterns nested at the lower bound are the text that their sources stand for. That
something is too deep is reported exactly if there are such patterns, and then with the lower bound; if
there are none, the two patterns differ in the bound alone, and nowhere in what they report. -/
theorem compile_truncates (casing : Casing) (source : Text) {low high : Nat} (positive : 1 ≤ low)
    (h : low < high) :
    (compile source ⟨casing, low⟩).silent =
      ((compile source ⟨casing, high⟩).truncate low low).silent ∧
    ((∃ bound, .nestingTooDeep bound ∈ (compile source ⟨casing, low⟩).diagnostics) ↔
      nestedAt low (compile source ⟨casing, high⟩) ≠ []) ∧
    (∀ bound, .nestingTooDeep bound ∈ (compile source ⟨casing, low⟩).diagnostics → bound = low) ∧
    ((∀ bound, .nestingTooDeep bound ∉ (compile source ⟨casing, low⟩).diagnostics) →
      compile source ⟨casing, low⟩ = (compile source ⟨casing, high⟩).withBound low ∧
      (compile source ⟨casing, low⟩).diagnostics = (compile source ⟨casing, high⟩).diagnostics) := by
  obtain ⟨levels, rfl⟩ : ∃ n, low = n + 1 := ⟨low - 1, by omega⟩
  obtain ⟨more, rfl⟩ : ∃ n, high = n + 1 := ⟨high - 1, by omega⟩
  -- the whole source is read with all levels left
  have hreport (bound : Nat) :
      .nestingTooDeep bound ∈ (compile source ⟨casing, levels + 1⟩).diagnostics ↔
        .nestingTooDeep bound ∈
          (compileNested ⟨casing, levels + 1⟩ (levels + 1) 0 (symbols source)).reports :=
    Diagnostics.nestingTooDeep_mem_rebase_iff.symm
  have hdeep : (∃ bound, .nestingTooDeep bound ∈ (compile source ⟨casing, levels + 1⟩).diagnostics) ↔
      nestedAt (levels + 1) (compile source ⟨casing, more + 1⟩) ≠ [] := by
    simp only [hreport]
    exact exists_nestingTooDeep_iff h 0 0 (symbols source)
  refine ⟨silent_compileNested h 0 0 (legible_symbols source), hdeep, ?_, ?_⟩
  · intro bound hbound
    exact eq_of_nestingTooDeep_mem ((hreport bound).1 hbound)
  · intro hsilent
    have hshallow : nestedAt (levels + 1) (compile source ⟨casing, more + 1⟩) = [] := by
      by_contra hne
      obtain ⟨bound, hbound⟩ := hdeep.2 hne
      exact hsilent bound hbound
    have hread : compileNested ⟨casing, levels + 1⟩ (levels + 1) 0 (symbols source) =
        (compileNested ⟨casing, more + 1⟩ (more + 1) 0 (symbols source)).map (withBound (levels + 1)) :=
      compileNested_withBound h 0 hshallow
    have hsame : compile source ⟨casing, levels + 1⟩ =
        (compile source ⟨casing, more + 1⟩).withBound (levels + 1) := congrArg Reported.value hread
    refine ⟨hsame, ?_⟩
    rw [hsame, diagnostics_withBound]

/-- A parameter that checks by the pattern of another one, which checks by a third. -/
def nestedTwice : Text := "%[v{pattern=%[w{pattern=%[x]}]}]".toList

/-- The bound of two cuts the third level off, and the bound of three nothing. -/
theorem compile_truncates_nestedTwice :
    1 ≤ 2 ∧ 2 < 3 ∧
      .nestingTooDeep 2 ∈ (compile nestedTwice ⟨.sensitive, 2⟩).diagnostics ∧
      3 < 4 ∧ (∀ bound, .nestingTooDeep bound ∉ (compile nestedTwice ⟨.sensitive, 3⟩).diagnostics) ∧
      (compile nestedTwice ⟨.sensitive, 3⟩).diagnostics =
        (compile nestedTwice ⟨.sensitive, 4⟩).diagnostics := by
  obtain ⟨-, hdeep, hbound, -⟩ :=
    compile_truncates .sensitive nestedTwice (by decide : 1 ≤ 2) (by decide : 2 < 3)
  have hnested : (nestedAt 2 (compile nestedTwice ⟨.sensitive, 3⟩)).isEmpty = false := by
    decide +kernel
  obtain ⟨bound, hmem⟩ := hdeep.2 (List.isEmpty_eq_false_iff.1 hnested)
  obtain rfl : bound = 2 := hbound bound hmem
  obtain ⟨-, hdeep', -, hsame⟩ :=
    compile_truncates .sensitive nestedTwice (by decide : 1 ≤ 3) (by decide : 3 < 4)
  have hnone : (nestedAt 3 (compile nestedTwice ⟨.sensitive, 4⟩)).isEmpty = true := by
    decide +kernel
  have hsilent : ∀ bound, .nestingTooDeep bound ∉ (compile nestedTwice ⟨.sensitive, 3⟩).diagnostics :=
    fun bound hmem => hdeep'.1 ⟨bound, hmem⟩ (List.isEmpty_iff.1 hnone)
  exact ⟨by decide, by decide, hmem, by decide, hsilent, (hsame hsilent).2⟩

end Pattern

end Stencil
