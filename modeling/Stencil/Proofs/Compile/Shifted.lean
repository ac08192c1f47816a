import Stencil.Proofs.Compile.Reports

/-! # Compiling further on

Where a piece of a source begins shows in two places: in the ranges of parts and in the positions of
reports. A piece that begins further on is read to the same tags, and both of these are moved
(`Part.compile_shift`), provided that the same is so of what it reads of nested patterns; of the
compiler's own reads it is (`Pattern.isLocal_compileNested`). -/
namespace Stencil

variable {α β γ π : Type} (base : Nat)

theorem Diagnostic.rebase_of_mem_singleton {d e : Diagnostic} (hd : d ∈ [e])
    (h : e.rebase base = e) : d.rebase base = d := by
  rw [List.mem_singleton.1 hd, h]

namespace Diagnostics

theorem rebase_append (entries more : List Diagnostic) :
    rebase base (entries ++ more) = rebase base entries ++ rebase base more := List.map_append

theorem rebase_of_fixed {entries : List Diagnostic} (h : ∀ d ∈ entries, d.rebase base = d) :
    rebase base entries = entries := by
  unfold rebase
  rw [List.map_congr_left h, List.map_id']

end Diagnostics

namespace Reported

/-- The same value, read `base` bytes further on. -/
def rebase (r : Reported α) : Reported α := ⟨r.value, Diagnostics.rebase base r.reports⟩

theorem rebase_of_fixed {r : Reported α} (h : ∀ d ∈ r.reports, d.rebase base = d) :
    r.rebase base = r := by
  unfold rebase
  rw [Diagnostics.rebase_of_fixed base h]

theorem rebase_map (f : α → β) (r : Reported α) : (r.map f).rebase base = (r.rebase base).map f := rfl

theorem rebase_after (r : Reported α) {reports : List Diagnostic}
    (h : ∀ d ∈ reports, d.rebase base = d) :
    (r.after reports).rebase base = (r.rebase base).after reports := by
  unfold rebase after
  rw [Diagnostics.rebase_append, Diagnostics.rebase_of_fixed base h]

theorem collect_rebase {read further : γ → Reported α} (h : ∀ x, further x = (read x).rebase base)
    (xs : List γ) : collect (xs.map further) = (collect (xs.map read)).rebase base := by
  induction xs with
  | nil => rfl
  | cons x xs ih =>
    simp only [collect, rebase, List.map_cons, List.flatMap_cons, mk.injEq] at ih ⊢
    rw [h, ih.1, ih.2, Diagnostics.rebase_append]
    exact ⟨rfl, rfl⟩

end Reported

theorem placed_shift (symbols : α → List Symbol) (position : Nat) (xs : List α) :
    placed symbols (base + position) xs =
      (placed symbols position xs).map fun place => (base + place.1, place.2) := by
  induction xs generalizing position with
  | nil => rfl
  | cons x xs ih => rw [placed, placed, Nat.add_assoc, ih, List.map_cons]

theorem located_shift (position : Nat) (pieces : List (List Symbol)) :
    located (base + position) pieces =
      (located position pieces).map fun place => (base + place.1, place.2) := by
  induction pieces generalizing position with
  | nil => rfl
  | cons piece pieces ih => rw [located, located, Nat.add_assoc, Nat.add_assoc, ih, List.map_cons,
      ← Nat.add_assoc position]

/-- A nested pattern is read to the same value wherever its source begins, and its reports follow. -/
def Clause.Nest.IsLocal (nested : Clause.Nest π) : Prop :=
  ∀ position raw, nested (base + position) raw = (nested position raw).rebase base

variable {base} {nested : Clause.Nest π} (hlocal : nested.IsLocal base)

namespace Site

variable (function : Function) (casing : Casing) (position : Nat)

theorem rebase_number (site : Site π) (read? : Text → Option α) (raw : List Symbol) :
    (site.number read? raw).rebase base = site.number read? raw := by
  apply Reported.rebase_of_fixed
  intro d hd
  simp only [number] at hd
  split at hd
  · cases hd
  · split at hd
    · cases hd
    · exact Diagnostic.rebase_of_mem_singleton base hd rfl

theorem rebase_countReports (site : Site π) (count : Nat) :
    ∀ d ∈ site.countReports count, d.rebase base = d := by
  intro d hd
  unfold countReports at hd
  rcases List.mem_append.1 hd with hd | hd
  · split at hd
    · exact Diagnostic.rebase_of_mem_singleton base hd rfl
    · cases hd
  · split at hd
    · exact Diagnostic.rebase_of_mem_singleton base hd rfl
    · cases hd

include hlocal

theorem value_shift (kind : Kind) (raw : List Symbol) :
    (Site.mk function casing nested).value kind (base + position) raw =
      ((Site.mk function casing nested).value kind position raw).rebase base := by
  cases kind with
  | int32 =>
    simp only [value, Reported.rebase_map, rebase_number]
  | int64 =>
    simp only [value, Reported.rebase_map, rebase_number]
  | text => rfl
  | nested =>
    simp only [value]
    rw [hlocal, Reported.rebase_map]

theorem component_shift (slot : Slot) (raw : List Symbol) :
    (Site.mk function casing nested).component slot (base + position) raw =
      ((Site.mk function casing nested).component slot position raw).rebase base := by
  unfold component
  rw [value_shift hlocal, Reported.rebase_map]

theorem group_shift (source : List Symbol) :
    (Site.mk function casing nested).group (base + position) source =
      ((Site.mk function casing nested).group position source).rebase base := by
  unfold group
  simp only
  rw [Reported.rebase_after base _ (rebase_countReports _ _), Reported.rebase_map, located_shift,
    List.zip_map_left, List.map_map, List.length_map]
  congr 2
  apply Reported.collect_rebase
  intro place
  exact component_shift hlocal function casing place.1.1 place.2 place.1.2

theorem groups_shift (source : List Symbol) :
    (Site.mk function casing nested).groups (base + position) source =
      ((Site.mk function casing nested).groups position source).rebase base := by
  unfold groups
  rw [located_shift, List.map_map]
  apply Reported.collect_rebase
  intro place
  exact group_shift hlocal function casing place.1 place.2

end Site

variable (options : Options)

namespace Clause

theorem rebase_directive (d : Directive) (value : Text) :
    (directive d value : Reported (Clause π)).rebase base = directive d value := by
  have hlength (name : Text) : (length name value).rebase base = length name value := by
    apply Reported.rebase_of_fixed
    intro e he
    simp only [length] at he
    split at he
    · exact Diagnostic.rebase_of_mem_singleton base he rfl
    · split at he
      · simp only at he
        split at he
        · cases he
        · exact Diagnostic.rebase_of_mem_singleton base he rfl
      · exact Diagnostic.rebase_of_mem_singleton base he rfl
  cases d with
  | version =>
    apply Reported.rebase_of_fixed
    intro e he
    simp only [directive, version] at he
    split at he
    · exact Diagnostic.rebase_of_mem_singleton base he rfl
    · split at he
      · cases he
      · exact Diagnostic.rebase_of_mem_singleton base he rfl
  | fixedLength =>
    simp only [directive, Reported.rebase_map, hlength]
  | minLength =>
    simp only [directive, Reported.rebase_map, hlength]

theorem rebase_callReports (name : Text) (resolution : Option Resolution) (words : List Text) :
    ∀ d ∈ nameReports name resolution ++ wordReports name words, d.rebase base = d := by
  intro d hd
  rcases List.mem_append.1 hd with hd | hd
  · rcases resolution with _ | ⟨f, _ | legacy⟩
    · exact Diagnostic.rebase_of_mem_singleton base hd rfl
    · cases hd
    · exact Diagnostic.rebase_of_mem_singleton base hd rfl
  · obtain ⟨word, -, rfl⟩ := List.mem_map.1 hd
    rfl

include hlocal

theorem call_shift (name modifiers : Text) (position : Nat) (arguments : List Symbol) :
    call options nested name modifiers (base + position) arguments =
      (call options nested name modifiers position arguments).rebase base := by
  unfold call
  simp only
  rw [Reported.rebase_after base _ (rebase_callReports _ _ _), Reported.rebase_map]
  cases Resolution.ofName? options.casing name with
  | none => rfl
  | some r =>
    simp only
    rw [Site.groups_shift hlocal]

theorem compile_shift (position : Nat) (body : List Symbol) :
    compile options nested (base + position) body =
      (compile options nested position body).rebase base := by
  unfold compile
  cases splitBare? ['=', ':'] body with
  | none =>
    simp only
    split
    · exact (rebase_directive _ _).symm
    · rw [Nat.add_assoc, call_shift hlocal]
  | some found =>
    simp only
    split
    · exact (rebase_directive _ _).symm
    · rw [Nat.add_assoc, Nat.add_assoc, ← Nat.add_assoc position, call_shift hlocal]

end Clause

namespace Parameter

variable (base) in
def shift (p : Parameter π) : Parameter π := { p with source := p.source.shift base }

theorem shift_foldl_add (p : Parameter π) (clauses : List (Clause π)) :
    clauses.foldl add (p.shift base) = (clauses.foldl add p).shift base := by
  induction clauses generalizing p with
  | nil => rfl
  | cons clause clauses ih =>
    have hadd : (p.shift base).add clause = (p.add clause).shift base := by
      cases clause <;> rfl
    rw [List.foldl_cons, List.foldl_cons, hadd, ih]

include hlocal

theorem bodyPiece_shift (position : Nat) (piece : BodyPiece) :
    bodyPiece options nested (base + position) piece =
      (bodyPiece options nested position piece).rebase base := by
  cases piece with
  | stray text =>
    simp only [bodyPiece, Reported.rebase]
    by_cases hblank : (written text).isAllBlank = true
    · rw [if_pos hblank, if_pos hblank]
      rfl
    · rw [if_neg hblank, if_neg hblank]
      rfl
  | clause body =>
    rw [bodyPiece, bodyPiece, Nat.add_assoc, Clause.compile_shift hlocal]
  | unended text => rfl

theorem compile_shift (position : Nat) (body : List Symbol) :
    compile options nested (base + position) body =
      ((compile options nested position body).rebase base).map (shift base) := by
  have hclauses := Reported.collect_rebase base
    (fun place : Nat × BodyPiece => bodyPiece_shift hlocal options place.1 place.2)
    (placed BodyPiece.symbols (position + 2 + writtenSize (splitName body).1)
      (BodyPiece.ofSource (splitName body).2))
  unfold compile
  simp only [Nat.add_assoc, placed_shift base, List.map_map] at hclauses ⊢
  rw [← Reported.rebase_map]
  simp only [Function.comp_def, hclauses]
  refine congrArg (Reported.mk · _) ?_
  exact shift_foldl_add
    ⟨meant (splitName body).1, [], none, none, ⟨position, position + (writtenSize body + 3)⟩⟩ _

end Parameter

namespace Part

variable (base) in
def shift : Part π → Part π
  | literal l => literal { l with source := l.source.shift base }
  | parameter p => parameter (p.shift base)

include hlocal in
theorem compile_shift (position : Nat) (piece : Piece) :
    compile options nested (base + position) piece =
      ((compile options nested position piece).rebase base).map (shift base) := by
  cases piece with
  | symbol s =>
    rw [compile, compile, Nat.add_assoc]
    rfl
  | opener =>
    rw [compile, compile, Nat.add_assoc]
    rfl
  | parameter body =>
    rw [compile, compile, Parameter.compile_shift hlocal]
    rfl

end Part

namespace Pattern

/-- The value is compiled from the source alone, and the diagnostics come with the position added. -/
theorem isLocal_compileNested (base : Nat) (options : Options) (levels : Nat) :
    (compileNested options levels).IsLocal base := by
  intro position raw
  cases levels with
  | zero => rfl
  | succ levels =>
    simp only [compileNested, Reported.rebase, Diagnostics.rebase, List.map_map, Function.comp_def,
      Diagnostic.rebase_rebase]

end Pattern

end Stencil
