import Stencil.Proofs.Draft.Printed

/-! # Printed calls are read back

The arguments of a printed call come apart where they were joined, each is read by its kind as what
it was printed from, and nothing is reported. -/
namespace Stencil

/-- The reader finds the pattern in its source, wherever that begins, and reports nothing. -/
structure Readable (nested : Clause.Nest Pattern) (p : Pattern) : Prop where
  nestable : Nestable p.source
  read : ∀ position, nested position (symbols p.source) = .silent p

namespace Reported

variable {α β : Type}

theorem collect_cons_silent (value : α) {rs : List (Reported α)} {values : List α}
    (h : collect rs = .silent values) :
    collect (.silent value :: rs) = .silent (value :: values) := by
  have hvalue := congrArg Reported.value h
  have hreports := congrArg Reported.reports h
  simp only [collect, silent] at hvalue hreports
  simp only [collect, silent, List.map_cons, List.flatMap_cons, List.nil_append, hvalue, hreports]

@[simp] theorem map_silent (f : α → β) (value : α) : (silent value).map f = .silent (f value) := rfl

theorem collect_at {f : Nat → β → Reported α} {places : List (Nat × β)} {values : List α}
    (h : List.Forall₂ (fun piece value => ∀ position, f position piece = .silent value)
      (places.map Prod.snd) values) :
    collect (places.map fun (position, piece) => f position piece) = .silent values := by
  rw [List.forall₂_map_left_iff] at h
  induction h with
  | nil => rfl
  | @cons place value places values hplace _ ih =>
    obtain ⟨position, piece⟩ := place
    have hfirst := hplace position
    simp only [List.map_cons, hfirst]
    exact collect_cons_silent value ih

theorem collect_append {xs ys : List (Reported α)} {vs ws : List α} (hx : collect xs = .silent vs)
    (hy : collect ys = .silent ws) : collect (xs ++ ys) = .silent (vs ++ ws) := by
  simp only [collect, silent, Reported.mk.injEq] at hx hy ⊢
  rw [List.map_append, List.flatMap_append, hx.1, hx.2, hy.1, hy.2]
  exact ⟨rfl, rfl⟩

end Reported

namespace Site

variable {π α : Type}

theorem number_ofInt (site : Site π) {read? : Text → Option α} {i : Int} {n : α}
    (h : read? (Decimal.ofInt i) = some n) (hne : Decimal.ofInt i ≠ []) :
    site.number read? (symbols (Decimal.ofInt i)) = .silent (some n) := by
  have hbackslash : '\\' ∉ Decimal.ofInt i :=
    fun hc => Bool.noConfusion (Decimal.isSpecial_of_mem_ofInt hc)
  have htrim : (Decimal.ofInt i).trim = Decimal.ofInt i :=
    Text.trim_of_not_blank fun _ => Decimal.isBlank_of_mem_ofInt
  rw [number, Text.meant_symbols_of_not_mem hbackslash, htrim, List.isEmpty_eq_false_iff.2 hne, h]
  rfl

end Site

namespace Draft

theorem Argument.value_print (site : Site Pattern) {argument : Argument Pattern}
    (h : ∀ p ∈ argument.nested?, Readable site.nested p) (position : Nat) :
    site.value argument.kind position (symbols (argument.map Pattern.source).print) =
      .silent argument.value? := by
  cases argument with
  | int32 number =>
    cases number with
    | none => rfl
    | some n =>
      have hn := site.number_ofInt (Decimal.int32?_ofInt n) (Decimal.ofInt_ne_nil n.toInt)
      exact congrArg (Reported.map (Option.map Value.int32)) hn
  | int64 number =>
    cases number with
    | none => rfl
    | some n =>
      have hn := site.number_ofInt (Decimal.int64?_ofInt n) (Decimal.ofInt_ne_nil n.toInt)
      exact congrArg (Reported.map (Option.map Value.int64)) hn
  | text t =>
    have ht := Text.meant_symbols_escape t
    exact congrArg (fun text => Reported.silent (some (Value.text text))) ht
  | nested p =>
    have hp := (h p rfl).read position
    exact congrArg (Reported.map fun p => some (Value.nested p)) hp

theorem Argument.component_print (site : Site Pattern) {argument : Argument Pattern} {slot : Slot}
    (kind : argument.kind = slot.kind) (h : ∀ p ∈ argument.nested?, Readable site.nested p)
    (position : Nat) :
    site.component slot position (symbols (argument.map Pattern.source).print) =
      .silent (argument.component? site.casing slot) := by
  rw [Site.component, ← kind, value_print site h, Reported.map_silent]
  rfl

theorem nestable_of_readable {nested : Clause.Nest Pattern} {group : List (Argument Pattern)}
    (h : ∀ argument ∈ group, ∀ p ∈ argument.nested?, Readable nested p) :
    ∀ argument ∈ group.map (Argument.map Pattern.source), ∀ t ∈ argument.nested?, Nestable t := by
  intro argument ha t ht
  obtain ⟨plain, hp, rfl⟩ := List.mem_map.1 ha
  rw [Argument.nested?_map] at ht
  obtain ⟨p, hn, rfl⟩ := Option.map_eq_some_iff.1 ht
  exact (h plain hp p hn).nestable

theorem components_printGroup {group : List (Argument Text)}
    (h : ∀ argument ∈ group, ∀ t ∈ argument.nested?, Nestable t) (visible : printGroup group ≠ []) :
    Site.components (symbols (printGroup group)) = group.map fun a => symbols a.print := by
  have hne : group ≠ [] := by
    rintro rfl
    exact visible rfl
  have hsymbols : (symbols (printGroup group)).isEmpty = false := by
    rw [List.isEmpty_eq_false_iff, ne_eq, symbols_eq_nil_iff]
    exact visible
  rw [Site.components, hsymbols, symbols_printGroup h]
  refine splitOutside_intercalate rfl (by simpa using hne) ?_
  intro piece hp
  obtain ⟨argument, ha, rfl⟩ := List.mem_map.1 hp
  exact (Argument.nestable_print (h argument ha)).balanced.mono (by decide)

section

variable (site : Site Pattern) {group : List (Argument Pattern)}
  (h : ∀ argument ∈ group, ∀ p ∈ argument.nested?, Readable site.nested p)

include h

theorem collect_components {slots : List Slot} (kinds : group.map (·.kind) <+: slots.map (·.kind))
    (position : Nat) :
    Reported.collect
        (((located position (group.map fun a => symbols (a.map Pattern.source).print)).zip slots).map
          fun ((position, raw), slot) => site.component slot position raw) =
      .silent (group.zipWith (Argument.component? site.casing) slots) := by
  induction group generalizing slots position with
  | nil => rfl
  | cons argument group ih =>
    cases slots with
    | nil => exact absurd (List.prefix_nil.1 kinds) (List.cons_ne_nil _ _)
    | cons slot slots =>
      obtain ⟨hkind, hkinds⟩ := List.cons_prefix_cons.1 kinds
      have hfirst := argument.component_print site hkind (h argument List.mem_cons_self) position
      simp only [List.map_cons, located, List.zip_cons_cons, List.zipWith_cons_cons, hfirst]
      exact Reported.collect_cons_silent _
        (ih (fun a ha => h a (List.mem_cons_of_mem _ ha)) hkinds _)

theorem group_print (kinds : group.map (·.kind) <+: site.function.slots.map (·.kind))
    (least : site.function.least ≤ group.length)
    (visible : printGroup (group.map (Argument.map Pattern.source)) ≠ []) (position : Nat) :
    site.group position (symbols (printGroup (group.map (Argument.map Pattern.source)))) =
      .silent ⟨group.zipWith (Argument.component? site.casing) site.function.slots⟩ := by
  have hlength : group.length ≤ site.function.slots.length := by
    have hl := kinds.length_le
    rwa [List.length_map, List.length_map] at hl
  have hcomponents : Site.components (symbols (printGroup (group.map (Argument.map Pattern.source)))) =
      group.map fun a => symbols (a.map Pattern.source).print := by
    rw [components_printGroup (nestable_of_readable h) visible, List.map_map]
    rfl
  have hcount : site.countReports group.length = [] := by
    rw [Site.countReports, if_neg (by omega), if_neg (by omega)]
    rfl
  simp only [Site.group, hcomponents, length_located, List.length_map, hcount,
    collect_components site h kinds]
  rfl

end

/-- The groups of a proper call are read by the signature of its function. -/
theorem groups_print {call : Call Pattern} (casing : Casing) {nested : Clause.Nest Pattern}
    (proper : (call.map Pattern.source).Proper)
    (h : ∀ group ∈ call.groups, ∀ argument ∈ group, ∀ p ∈ argument.nested?, Readable nested p)
    (position : Nat) :
    (Site.mk call.function casing nested).groups position ([.bare ';'].intercalate
        ((call.map Pattern.source).groups.map fun group => symbols (printGroup group))) =
      .silent (call.groups.map fun group =>
        ⟨group.zipWith (Argument.component? casing) call.function.slots⟩) := by
  have hne : (call.map Pattern.source).groups.map (fun group => symbols (printGroup group)) ≠ [] := by
    simpa using proper.called
  have hbalanced : ∀ piece ∈ (call.map Pattern.source).groups.map
      (fun group => symbols (printGroup group)), Balanced [';'] piece := by
    intro piece hp
    obtain ⟨group, hg, rfl⟩ := List.mem_map.1 hp
    obtain ⟨plain, hplain, rfl⟩ := List.mem_map.1 hg
    exact balanced_printGroup (nestable_of_readable (h plain hplain))
  rw [Site.groups, splitOutside_intercalate rfl hne hbalanced]
  refine Reported.collect_at ?_
  rw [map_snd_located, List.forall₂_map_left_iff, Call.map, List.forall₂_map_left_iff,
    List.forall₂_map_right_iff, List.forall₂_same]
  intro group hg position
  have hmem : group.map (Argument.map Pattern.source) ∈ (call.map Pattern.source).groups :=
    List.mem_map.2 ⟨group, hg, rfl⟩
  have hkinds : group.map (·.kind) <+: call.function.slots.map (·.kind) := by
    have hk := proper.kinds _ hmem
    simp only [List.map_map, Function.comp_def, Argument.kind_map] at hk
    exact hk
  have hleast : call.function.least ≤ group.length := by
    have hl := proper.least _ hmem
    rw [List.length_map] at hl
    exact hl
  exact group_print ⟨call.function, casing, nested⟩ (h group hg) hkinds hleast
    (proper.visible _ hmem) position

theorem Call.clause_print (options : Options) {call : Call Pattern} {nested : Clause.Nest Pattern}
    (proper : (call.map Pattern.source).Proper)
    (h : ∀ group ∈ call.groups, ∀ argument ∈ group, ∀ p ∈ argument.nested?, Readable nested p)
    (position : Nat) :
    Clause.compile options nested position (symbols (call.map Pattern.source).print) =
      .silent (.tag (call.tag options.casing)) := by
  have hnestable : ∀ group ∈ (call.map Pattern.source).groups, ∀ argument ∈ group,
      ∀ t ∈ argument.nested?, Nestable t := by
    intro group hg
    obtain ⟨plain, hplain, rfl⟩ := List.mem_map.1 hg
    exact nestable_of_readable (h plain hplain)
  obtain ⟨start, hcompile⟩ := Clause.exists_compile_headOf options nested position call.function
    call.words ([.bare ';'].intercalate
      ((call.map Pattern.source).groups.map fun group => symbols (printGroup group)))
  rw [symbols_print hnestable]
  refine hcompile.trans ?_
  rw [groups_print _ proper h]
  rfl

end Draft

end Stencil
