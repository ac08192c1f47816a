import Stencil.Proofs.Compile.Reports
import Stencil.Proofs.Compile.Values

/-! # The reads of a level

A level could first take down what it reads of nested patterns and read it afterwards
(`Layer.compile_eq_map`). So two compilations of one level that compare alike differ only in what they read:
where this becomes the same, so do the parts, and where the same is reported of it, so are the diagnostics. -/
namespace Stencil

theorem Site.remarks_groups (function : Function) (casing : Casing) {source raw : List Symbol}
    {position : Nat} (h : Stands source position raw) :
    ∃ remarks : List Remark, (∀ d, .own d ∈ remarks → d.AboutArguments) ∧
      (∀ read, .read read ∈ remarks → Stands source read.1 read.2) ∧
      ∀ {π : Type} (nested : Clause.Nest π), ((Site.mk function casing nested).groups position raw).reports =
        remarks.flatMap (Remark.reports fun position raw => (nested position raw).reports) := by
  obtain ⟨remarks, h⟩ := itemized_groups function casing h
  refine ⟨remarks, h.own, h.stands, ?_⟩
  intro π nested
  have hmap := groups_map (fun read : Read => (nested read.1 read.2).value)
    ⟨function, casing, reading fun position raw => (nested position raw).reports⟩ position raw
  have hreports := congrArg Reported.reports hmap
  rw [Reported.map, h.reports] at hreports
  exact hreports

namespace Layer

variable {π : Type} (options : Options)

/-- The sources of nested patterns that are read in a level, each with its position. -/
def reads (source : List Symbol) : List Read := (compile options (reading fun _ _ => []) source).nested

theorem compile_eq_map (nested : Clause.Nest π) (source : List Symbol) :
    compile options nested source =
      (compile options (reading fun position raw => (nested position raw).reports) source).map
        fun read => (nested read.1 read.2).value := by
  have hnested : (reading fun position raw => (nested position raw).reports).map
      (fun read => (nested read.1 read.2).value) = nested := rfl
  have hmap := compile_map (fun read : Read => (nested read.1 read.2).value) options
    (reading fun position raw => (nested position raw).reports) source
  rw [hnested] at hmap
  exact hmap

theorem nested_reading (reports : Nat → List Symbol → List Diagnostic) (source : List Symbol) :
    (compile options (reading reports) source).nested = reads options source := by
  have hsame : (reading reports).SameValues (reading fun _ _ => []) := by
    intro position raw
    rfl
  rw [reads, nested_eq, nested_eq, parts_congr rfl hsame]

theorem nested_compile (nested : Clause.Nest π) (source : List Symbol) :
    (compile options nested source).nested =
      (reads options source).map fun read => (nested read.1 read.2).value := by
  rw [compile_eq_map, nested_map, nested_reading]

theorem remarks_compile (source : List Symbol) :
    ∃ remarks : List Remark, (∀ d, .own d ∈ remarks → d.OwnIn (written source)) ∧
      (∀ read ∈ reads options source, Stands source read.1 read.2) ∧
      reads options source = remarks.filterMap Remark.read? ∧
      ∀ {π : Type} (nested : Clause.Nest π), (compile options nested source).diagnostics =
        .ofList (remarks.flatMap (Remark.reports fun position raw => (nested position raw).reports)) := by
  obtain ⟨remarks, hown, hstands, hlevel⟩ := exists_remarks options source
  have hreads : reads options source = remarks.filterMap Remark.read? := (hlevel fun _ _ => []).2
  refine ⟨remarks, hown, ?_, hreads, ?_⟩
  · intro read hread
    rw [hreads] at hread
    obtain ⟨remark, hremark, hsame⟩ := List.mem_filterMap.1 hread
    cases remark with
    | own d => cases hsame
    | read other =>
      cases hsame
      exact hstands read hremark
  · intro π nested
    rw [compile_eq_map]
    exact (hlevel _).1

section

variable {ρ : Type} {options options' : Options} (compares : options.casing = options'.casing)
  {source : List Symbol}

include compares

theorem reads_congr : reads options source = reads options' source := by
  have hsame : (reading fun _ _ => []).SameValues (reading fun _ _ => []) := fun _ _ => rfl
  rw [reads, reads, nested_eq, nested_eq, parts_congr compares hsame]

theorem parts_congr_reads {nested other : Clause.Nest π} (h : ∀ read ∈ reads options source,
      (nested read.1 read.2).value = (other read.1 read.2).value) :
    (compile options nested source).parts = (compile options' other source).parts := by
  have hparts (nest : Clause.Nest π) : (compile options nest source).parts =
      ((compile options (reading fun _ _ => []) source).map
        fun read => (nest read.1 read.2).value).parts := by
    have hsame : (reading fun position raw => (nest position raw).reports).SameValues
        (reading fun _ _ => []) := fun _ _ => rfl
    rw [compile_eq_map, map, parts_congr rfl hsame, map]
  have hother : other.SameValues other := fun _ _ => rfl
  calc (compile options nested source).parts = _ := hparts nested
    _ = _ := congrArg Layer.parts (map_congr h)
    _ = (compile options other source).parts := (hparts other).symm
    _ = (compile options' other source).parts := parts_congr compares hother source

theorem diagnostics_congr {nested : Clause.Nest π} {other : Clause.Nest ρ} (h : ∀ read ∈ reads options source,
      (nested read.1 read.2).reports = (other read.1 read.2).reports) :
    (compile options nested source).diagnostics = (compile options' other source).diagnostics := by
  have hother : (compile options' other source).diagnostics = (compile options other source).diagnostics := by
    rcases options with ⟨casing, bound⟩
    rcases options' with ⟨casing', bound'⟩
    cases compares
    rfl
  obtain ⟨remarks, -, -, hreads, hdiagnostics⟩ := remarks_compile options source
  rw [hother, hdiagnostics, hdiagnostics]
  refine congrArg Diagnostics.ofList (List.flatMap_congr fun remark hremark => ?_)
  cases remark with
  | own d => rfl
  | read read =>
    refine h read ?_
    rw [hreads]
    exact List.mem_filterMap.2 ⟨.read read, hremark, rfl⟩

omit compares in
/-- A level is decided by what happens to the sources that are read in it. -/
theorem compile_congr {nested other : Clause.Nest π} (h : ∀ read ∈ reads options source,
      nested read.1 read.2 = other read.1 read.2) :
    compile options nested source = compile options other source := by
  have hparts : (compile options nested source).parts = (compile options other source).parts :=
    parts_congr_reads rfl fun read hread => congrArg Reported.value (h read hread)
  have hdiagnostics : (compile options nested source).diagnostics = (compile options other source).diagnostics :=
    diagnostics_congr rfl fun read hread => congrArg Reported.reports (h read hread)
  calc compile options nested source
    _ = ⟨written source, (compile options nested source).parts,
          (compile options nested source).diagnostics, options⟩ := rfl
    _ = ⟨written source, (compile options other source).parts,
          (compile options other source).diagnostics, options⟩ := by rw [hparts, hdiagnostics]
    _ = compile options other source := rfl

omit compares in
theorem nestingTooDeep_mem_iff {nested : Clause.Nest π} {bound : Nat} :
    .nestingTooDeep bound ∈ (compile options nested source).diagnostics ↔
      ∃ read ∈ reads options source, .nestingTooDeep bound ∈ (nested read.1 read.2).reports := by
  obtain ⟨remarks, hown, -, hreads, hdiagnostics⟩ := remarks_compile options source
  rw [hdiagnostics, hreads, Diagnostics.mem_ofList_iff, List.mem_flatMap]
  constructor
  · rintro ⟨remark, hremark, hd⟩
    cases remark with
    | own d =>
      rw [Remark.reports, List.mem_singleton] at hd
      exact absurd hd.symm ((hown d hremark).shallow bound)
    | read read => exact ⟨read, List.mem_filterMap.2 ⟨_, hremark, rfl⟩, hd⟩
  · rintro ⟨read, hread, hd⟩
    obtain ⟨remark, hremark, hsame⟩ := List.mem_filterMap.1 hread
    cases remark with
    | own d => cases hsame
    | read other =>
      cases hsame
      exact ⟨.read read, hremark, hd⟩

end

end Layer

end Stencil
