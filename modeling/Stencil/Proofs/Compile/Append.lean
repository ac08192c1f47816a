import Stencil.Proofs.Compile.Literals
import Stencil.Proofs.Compile.Shifted
import Stencil.Proofs.Text.Escaped

/-! # Sources one after the other

A scanner may look as far ahead as it likes, but what it has found is not changed by what is written
behind. So a source in which every parameter ends is compiled on its own, and what follows it as if
nothing stood before (`Pattern.compile_append`). -/
namespace Stencil

variable {π : Type}

theorem Bracket.splitEnd?_append_of_found {b : Bracket} {nesting : Nesting}
    {source inner outer : List Symbol} (h : b.splitEnd? nesting source = some (inner, outer))
    (more : List Symbol) : b.splitEnd? nesting (source ++ more) = some (inner, outer ++ more) := by
  induction source generalizing nesting inner with
  | nil => cases h
  | cons s rest ih =>
    rw [splitEnd?] at h
    rw [List.cons_append, splitEnd?]
    by_cases hend : b.isEnd nesting s = true
    · rw [if_pos hend] at h ⊢
      cases h
      rfl
    · rw [if_neg hend] at h ⊢
      obtain ⟨⟨front, back⟩, hrest, hpair⟩ := Option.map_eq_some_iff.1 h
      cases hpair
      rw [ih hrest]
      rfl

/-- The source breaks off between the two characters that open a parameter. -/
def Breaks (front back : List Symbol) : Prop :=
  front.getLast? = some (.bare '%') ∧ back.head? = some (.bare '[')

theorem Breaks.append {front back : List Symbol} (h : Breaks front back) (before : List Symbol) :
    Breaks (before ++ front) back := by
  obtain ⟨hlast, hhead⟩ := h
  refine ⟨?_, hhead⟩
  rw [List.getLast?_append, hlast]
  rfl

namespace Piece

theorem ofSource_symbol {s : Symbol} {rest : List Symbol}
    (h : ¬ (s = .bare '%' ∧ rest.head? = some (.bare '['))) :
    ofSource (s :: rest) = symbol s :: ofSource rest := by
  rw [ofSource]
  rintro more rfl rfl
  exact h ⟨rfl, rfl⟩

/-- Where every parameter ends, the pieces of two sources are the pieces of both together, unless one
breaks off where the other opens a parameter. -/
theorem ofSource_append_of_ended {front back : List Symbol} (ended : opener ∉ ofSource front)
    (whole : ¬ Breaks front back) : ofSource (front ++ back) = ofSource front ++ ofSource back := by
  fun_induction ofSource front with
  | case1 => rfl
  | case2 rest body after hend ih =>
    have hafter : ofSource (after ++ back) = ofSource after ++ ofSource back := by
      apply ih (List.not_mem_of_not_mem_cons ended)
      intro hbreaks
      apply whole
      rw [Bracket.eq_of_splitEnd? hend]
      have hlonger := hbreaks.append (.bare '%' :: .bare '[' :: body ++ [Bracket.square.closer])
      simpa using hlonger
    have hfound := Bracket.splitEnd?_append_of_found hend back
    rw [List.cons_append, List.cons_append, List.cons_append, ← hafter, ofSource_of_splitEnd? hfound]
  | case3 rest hend ih => exact absurd List.mem_cons_self ended
  | case4 s rest hs ih =>
    have hrest : ofSource (rest ++ back) = ofSource rest ++ ofSource back := by
      apply ih (List.not_mem_of_not_mem_cons ended)
      intro hbreaks
      exact whole (hbreaks.append [s])
    rw [List.cons_append, List.cons_append, ← hrest]
    apply ofSource_symbol
    rintro ⟨rfl, hopens⟩
    cases rest with
    | nil => exact whole ⟨rfl, hopens⟩
    | cons t rest =>
      simp only [List.cons_append, List.head?_cons, Option.some.injEq] at hopens
      exact hs rest rfl (congrArg (· :: rest) hopens)

end Piece

namespace Part

/-- Parts one after the other, where a literal at the end of the first ones and a literal at the start
of the others are one. -/
def splice (front back : List (Part π)) : List (Part π) :=
  match front.getLast?, back with
  | some (.literal l), .literal m :: rest =>
    front.dropLast ++ .literal ⟨l.text ++ m.text, l.casing, ⟨l.source.start, m.source.stop⟩⟩ :: rest
  | _, _ => front ++ back

theorem splice_cons (part next : Part π) (rest back : List (Part π)) :
    splice (part :: next :: rest) back = part :: splice (next :: rest) back := by
  unfold splice
  rw [List.getLast?_cons_cons]
  split <;> simp

theorem splice_singleton (part : Part π) (back : List (Part π)) : splice [part] back = join part back := by
  unfold splice join
  cases part with
  | parameter p => rfl
  | literal l =>
    cases back with
    | nil => rfl
    | cons next rest => cases next <;> rfl

theorem splice_parameter (p : Parameter π) (front back : List (Part π)) :
    splice (.parameter p :: front) back = .parameter p :: splice front back := by
  cases front with
  | nil => exact splice_singleton _ back
  | cons next rest => exact splice_cons _ next rest back

theorem join_splice (part : Part π) (front back : List (Part π)) :
    join part (splice front back) = splice (join part front) back := by
  cases part with
  | parameter p => exact (splice_parameter p front back).symm
  | literal l =>
    cases front with
    | nil => exact (splice_singleton _ back).symm
    | cons next rest =>
      cases next with
      | parameter q =>
        have hjoin : join (.literal l) (.parameter q :: rest) = .literal l :: .parameter q :: rest := rfl
        rw [hjoin, splice_cons, splice_parameter]
        rfl
      | literal m =>
        cases rest with
        | nil =>
          have hjoin : join (.literal l) [.literal m] =
              [(.literal ⟨l.text ++ m.text, l.casing, ⟨l.source.start, m.source.stop⟩⟩ : Part π)] := rfl
          rw [hjoin, splice_singleton, splice_singleton, join_join]
        | cons third rest =>
          have hjoin : join (.literal l) (.literal m :: third :: rest) =
              .literal ⟨l.text ++ m.text, l.casing, ⟨l.source.start, m.source.stop⟩⟩ :: third :: rest :=
            rfl
          rw [hjoin, splice_cons, splice_cons]
          rfl

theorem foldr_join_eq_splice (front back : List (Part π)) :
    front.foldr join back = splice (front.foldr join []) back := by
  induction front with
  | nil => rfl
  | cons part front ih => rw [List.foldr_cons, List.foldr_cons, ih, join_splice]

theorem shift_join (base : Nat) (part : Part π) (parts : List (Part π)) :
    (join part parts).map (shift base) = join (part.shift base) (parts.map (shift base)) := by
  cases part with
  | parameter p => rfl
  | literal l =>
    cases parts with
    | nil => rfl
    | cons next rest => cases next <;> rfl

theorem shift_foldr_join (base : Nat) (parts : List (Part π)) :
    (parts.foldr join []).map (shift base) = (parts.map (shift base)).foldr join [] := by
  induction parts with
  | nil => rfl
  | cons part parts ih => rw [List.foldr_cons, shift_join, ih, List.map_cons, List.foldr_cons]

end Part

theorem Diagnostic.rebase_injective (base : Nat) : Function.Injective (Diagnostic.rebase base) := by
  intro d e h
  cases d <;> cases e <;> simp_all [rebase]

namespace Diagnostics

theorem extend_append (entries more last : Diagnostics) :
    entries.extend (more ++ last) = (entries.extend more).extend last := List.foldl_append

theorem extend_push (entries more : Diagnostics) (d : Diagnostic) :
    entries.extend (more.push d) = (entries.extend more).push d := by
  unfold push
  by_cases hd : d ∈ more
  · have hadded : d ∈ entries.extend more := mem_extend_iff.2 (.inr hd)
    rw [if_pos hd, if_pos hadded]
  · rw [if_neg hd, extend_append]
    rfl

theorem extend_extend (entries more last : Diagnostics) :
    entries.extend (more.extend last) = (entries.extend more).extend last := by
  unfold extend at *
  induction last generalizing more with
  | nil => rfl
  | cons d last ih =>
    have hpush := extend_push entries more d
    unfold extend at hpush
    rw [List.foldl_cons, List.foldl_cons, ih, hpush]

theorem rebase_push (base : Nat) (entries : Diagnostics) (d : Diagnostic) :
    rebase base (entries.push d) = (rebase base entries).push (d.rebase base) := by
  unfold push
  have hmem : d.rebase base ∈ rebase base entries ↔ d ∈ entries :=
    List.mem_map_of_injective (Diagnostic.rebase_injective base)
  by_cases hd : d ∈ entries
  · rw [if_pos hd, if_pos (hmem.2 hd)]
  · rw [if_neg hd, if_neg (mt hmem.1 hd), rebase_append]
    rfl

theorem rebase_extend (base : Nat) (entries more : Diagnostics) :
    rebase base (entries.extend more) = (rebase base entries).extend (rebase base more) := by
  induction more generalizing entries with
  | nil => rfl
  | cons d more ih =>
    have hstep := ih (entries.push d)
    rw [rebase_push] at hstep
    exact hstep

/-- Two lists of reports are listed as the diagnostics of the one, extended with those of the other. -/
theorem ofList_append_rebase (base : Nat) (reports more : List Diagnostic) :
    ofList (reports ++ rebase base more) = (ofList reports).extend (rebase base (ofList more)) := by
  unfold ofList
  rw [extend_append, rebase_extend, extend_extend]
  rfl

end Diagnostics

namespace Layer

variable (options : Options) (nested : Clause.Nest π)

theorem exists_unterminated {source : List Symbol} (h : .opener ∈ Piece.ofSource source) :
    ∃ position, .unterminatedParameter position ∈ (compile options nested source).diagnostics := by
  rw [← map_snd_placed Piece.symbols 0 (Piece.ofSource source)] at h
  obtain ⟨⟨position, piece⟩, hplace, rfl⟩ := List.mem_map.1 h
  refine ⟨position, Diagnostics.mem_ofList_iff.2 (List.mem_flatMap.2 ?_)⟩
  exact ⟨_, List.mem_map_of_mem hplace, List.mem_singleton_self _⟩

theorem collect_append {front back : List Symbol} (hlocal : nested.IsLocal (writtenSize front))
    (ended : .opener ∉ Piece.ofSource front) (whole : ¬ Breaks front back) :
    let read (source : List Symbol) := Reported.collect <|
      (placed Piece.symbols 0 (Piece.ofSource source)).map fun (position, piece) =>
        Part.compile options nested position piece
    read (front ++ back) =
      ⟨(read front).value ++ (read back).value.map (Part.shift (writtenSize front)),
        (read front).reports ++ Diagnostics.rebase (writtenSize front) (read back).reports⟩ := by
  intro read
  have hplaces : placed Piece.symbols 0 (Piece.ofSource (front ++ back)) =
      placed Piece.symbols 0 (Piece.ofSource front) ++
        (placed Piece.symbols 0 (Piece.ofSource back)).map
          fun place => (writtenSize front + place.1, place.2) := by
    rw [Piece.ofSource_append_of_ended ended whole, placed_append, Piece.flatMap_ofSource,
      Nat.zero_add, ← placed_shift, Nat.add_zero]
  have hshift := Reported.collect_map
    (fun place : Nat × Piece => Part.compile_shift hlocal options place.1 place.2)
    (placed Piece.symbols 0 (Piece.ofSource back))
  rw [Reported.collect_rebase (writtenSize front) fun _ => rfl] at hshift
  have hvalue := congrArg Reported.value hshift
  have hreports := congrArg Reported.reports hshift
  simp only [read, Reported.collect, Reported.map, Reported.rebase, List.map_map, List.flatMap_map,
    Function.comp_def] at hvalue hreports ⊢
  simp only [hplaces, List.map_append, List.flatMap_append, List.map_map, List.flatMap_map,
    Function.comp_def, hvalue, hreports]

theorem splice_compile {front back : List Symbol} (hlocal : nested.IsLocal (writtenSize front))
    (ended : .opener ∉ Piece.ofSource front) (whole : ¬ Breaks front back) :
    (compile options nested (front ++ back)).parts =
      Part.splice (compile options nested front).parts
        ((compile options nested back).parts.map (Part.shift (writtenSize front))) ∧
    (compile options nested (front ++ back)).diagnostics =
      (compile options nested front).diagnostics.extend
        (Diagnostics.rebase (writtenSize front) (compile options nested back).diagnostics) := by
  have hread := collect_append options nested hlocal ended whole
  unfold compile
  simp only at hread ⊢
  rw [hread]
  constructor
  · rw [List.foldr_append, Part.foldr_join_eq_splice, Part.shift_foldr_join]
  · exact Diagnostics.ofList_append_rebase _ _ _

end Layer

namespace Pattern

/-- A source in which every parameter ends and no backslash waits at the end is compiled to the same
whatever is written behind it, and what is written behind it as if it stood alone, but further on. Only
literals that meet become one. The two must not break off inside an opening: a bare percent sign at the
end of the first stands outside its parameters, which end in a bracket. -/
theorem compile_append (options : Options) (p q : Text)
    (ended : ∀ position, .unterminatedParameter position ∉ (compile p options).diagnostics)
    (settled : p.Settled)
    (whole : ¬ ((symbols p).getLast? = some (.bare '%') ∧ q.head? = some '[')) :
    (compile (p ++ q) options).parts =
      Part.splice (compile p options).parts ((compile q options).parts.map (Part.shift p.size)) ∧
    (compile (p ++ q) options).diagnostics =
      (compile p options).diagnostics.extend ((compile q options).diagnostics.rebase p.size) := by
  have hended : .opener ∉ Piece.ofSource (symbols p) := by
    intro hopener
    obtain ⟨position, hreport⟩ := Layer.exists_unterminated options
      (compileNested options (options.maxDepth - 1)) hopener
    exact ended position hreport
  have hwhole : ¬ Breaks (symbols p) (symbols q) := by
    rintro ⟨hlast, hhead⟩
    obtain ⟨rest, hrest⟩ := List.head?_eq_some_iff.1 hhead
    refine whole ⟨hlast, ?_⟩
    rw [← written_symbols q, hrest]
    rfl
  have hlevel := Layer.splice_compile options (compileNested options (options.maxDepth - 1))
    (isLocal_compileNested _ options _) hended hwhole
  rw [writtenSize_symbols, ← settled.symbols_append] at hlevel
  exact hlevel

/-- A parameter with an unknown tag, and an escaped percent sign at the end. -/
def discount : Text := "é%[a{bogus}]50\\%".toList

/-- Of three openings one is ended. -/
def unclosedTwice : Text := "[é%[v{format=%[w]}%[x".toList

/-- The bracket after the escaped percent sign opens nothing, and the two literals are one. -/
theorem compile_append_malformed :
    (∀ position, .unterminatedParameter position ∉ (compile discount {}).diagnostics) ∧
      discount.Settled ∧
      ¬ ((symbols discount).getLast? = some (.bare '%') ∧ unclosedTwice.head? = some '[') ∧
      (compile (discount ++ unclosedTwice) {}).diagnostics =
        [.unknownFunction "bogus".toList, .unterminatedParameter 20, .unterminatedParameter 36] ∧
      (compile (discount ++ unclosedTwice) {}).layer.literals.map (·.text) =
        ["é".toList, "50%[é%[v\x7bformat=".toList, "\x7d%[x".toList] := by
  have hdiagnostics : (compile discount {}).diagnostics = [.unknownFunction "bogus".toList] := by
    decide +kernel
  have ended : ∀ position, .unterminatedParameter position ∉ (compile discount {}).diagnostics := by
    intro position
    rw [hdiagnostics]
    simp
  have settled : discount.Settled := by
    unfold Text.Settled
    decide
  have whole : ¬ ((symbols discount).getLast? = some (.bare '%') ∧
      unclosedTwice.head? = some '[') := by decide
  have hextend : (compile discount {}).diagnostics.extend
      ((compile unclosedTwice {}).diagnostics.rebase discount.size) =
        [.unknownFunction "bogus".toList, .unterminatedParameter 20, .unterminatedParameter 36] := by
    decide +kernel
  have hliterals : (Part.splice (compile discount {}).parts
      ((compile unclosedTwice {}).parts.map (Part.shift discount.size))).filterMap
        (·.literal?.map (·.text)) =
      ["é".toList, "50%[é%[v\x7bformat=".toList, "\x7d%[x".toList] := by
    decide +kernel
  obtain ⟨hparts, hreports⟩ := compile_append {} discount unclosedTwice ended settled whole
  refine ⟨ended, settled, whole, hreports.trans hextend, ?_⟩
  unfold Layer.literals
  rw [List.map_filterMap]
  exact (congrArg _ hparts).trans hliterals

/-- An opening that the sources share opens a parameter of neither. -/
example : (compile "%".toList {}).layer.hasParameters = false ∧
    (compile "[a]".toList {}).layer.hasParameters = false ∧
    (compile ("%".toList ++ "[a]".toList) {}).layer.hasParameters = true := by
  decide +kernel

end Pattern

end Stencil
