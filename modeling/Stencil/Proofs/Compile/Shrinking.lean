import Stencil.Proofs.Compile.Reads

/-! # Nested sources are shorter

What is read of a nested pattern stands within the arguments of a clause, behind a name and a sign of one byte
each at least, between two braces, and these between the three bytes that open and close a parameter. So a
source that is read in a level has at least seven bytes less than the level (`Layer.writtenSize_of_mem_reads`). -/
namespace Stencil

theorem size_meant_le (source : List Symbol) : (meant source).size ≤ writtenSize source := by
  induction source with
  | nil => exact Nat.le_refl 0
  | cons s rest ih =>
    have hs : s.meant.utf8Size ≤ s.size := by
      cases s with
      | bare c => exact Nat.le_refl _
      | escaped c => exact Nat.le_add_left _ _
      | dangling => decide
    exact Nat.add_le_add hs ih

theorem writtenSize_le_flatMap {α : Type} {f : α → List Symbol} {xs : List α} {x : α} (h : x ∈ xs) :
    writtenSize (f x) ≤ writtenSize (xs.flatMap f) := by
  obtain ⟨front, back, rfl⟩ := List.append_of_mem h
  rw [List.flatMap_append, List.flatMap_cons, writtenSize_append, writtenSize_append]
  omega

theorem writtenSize_le_intercalate {c : Char} {piece : List Symbol} {pieces : List (List Symbol)}
    (h : piece ∈ pieces) : writtenSize piece ≤ writtenSize ([.bare c].intercalate pieces) := by
  induction pieces with
  | nil => cases h
  | cons first rest ih =>
    cases rest with
    | nil =>
      obtain rfl := List.mem_singleton.1 h
      exact Nat.le_of_eq (by rw [List.intercalate_singleton])
    | cons next rest =>
      rw [List.intercalate_cons_cons, writtenSize_append, writtenSize_append]
      rcases List.mem_cons.1 h with rfl | h
      · omega
      · have hrest := ih h
        omega

namespace Site

variable {function : Function} {casing : Casing} {notes : Notes} {position : Nat} {read : Read}

theorem eq_of_mem_value {kind : Kind} {raw : List Symbol}
    (h : ((Site.mk function casing (reading notes)).value kind position raw).value.bind Value.nested? = some read) :
    read = (position, raw) := by
  cases kind with
  | text => cases h
  | nested =>
    cases h
    rfl
  | int32 =>
    simp only [value, Reported.map] at h
    cases hn : ((Site.mk function casing (reading notes)).number Decimal.int32? raw).value <;>
      rw [hn] at h <;> cases h
  | int64 =>
    simp only [value, Reported.map] at h
    cases hn : ((Site.mk function casing (reading notes)).number Decimal.int64? raw).value <;>
      rw [hn] at h <;> cases h

theorem eq_of_mem_component {slot : Slot} {raw : List Symbol}
    (h : ((Site.mk function casing (reading notes)).component slot position raw).value.bind
      (·.value.nested?) = some read) : read = (position, raw) := by
  have hvalue : ((Site.mk function casing (reading notes)).value slot.kind position raw).value.bind
      Value.nested? = some read := by
    simp only [component, Reported.map] at h
    generalize ((Site.mk function casing (reading notes)).value slot.kind position raw).value = v at h ⊢
    cases v <;> exact h
  exact eq_of_mem_value hvalue

theorem mem_components_of_mem_group {source : List Symbol}
    (h : read ∈ ((Site.mk function casing (reading notes)).group position source).value.nested) :
    read.2 ∈ components source := by
  obtain ⟨c, hc, hread⟩ := List.mem_filterMap.1 h
  obtain ⟨reported, hreported, rfl⟩ := List.mem_map.1 hc
  obtain ⟨⟨⟨start, raw⟩, slot⟩, hplace, rfl⟩ := List.mem_map.1 hreported
  have hraw := List.mem_map_of_mem (f := Prod.snd) (List.of_mem_zip hplace).1
  rw [map_snd_located] at hraw
  rw [eq_of_mem_component hread]
  exact hraw

theorem writtenSize_of_mem_groups {source : List Symbol}
    (h : read ∈ ((Site.mk function casing (reading notes)).groups position source).value.flatMap Group.nested) :
    source ≠ [] ∧ writtenSize read.2 ≤ writtenSize source := by
  obtain ⟨group, hgroup, hread⟩ := List.mem_flatMap.1 h
  obtain ⟨reported, hreported, rfl⟩ := List.mem_map.1 hgroup
  obtain ⟨⟨start, part⟩, hplace, rfl⟩ := List.mem_map.1 hreported
  have hpart := List.mem_map_of_mem (f := Prod.snd) hplace
  rw [map_snd_located] at hpart
  have hcomponent := mem_components_of_mem_group hread
  constructor
  · rintro rfl
    cases List.mem_singleton.1 hpart
    cases hcomponent
  · have hread := writtenSize_le_intercalate (c := ',') hcomponent
    have hpart := writtenSize_le_intercalate (c := ';') hpart
    rw [intercalate_components] at hread
    rw [intercalate_splitOutside] at hpart
    exact Nat.le_trans hread hpart

end Site

variable {notes : Notes} {options : Options} {position : Nat} {read : Read}

namespace Clause

theorem resolves_of_mem_call {name modifiers : Text} {arguments : List Symbol}
    (h : read ∈ (call options (reading notes) name modifiers position arguments).value.nested) :
    Resolution.ofName? options.casing name ≠ none ∧ arguments ≠ [] ∧
      writtenSize read.2 ≤ writtenSize arguments := by
  unfold call at h
  cases hname : Resolution.ofName? options.casing name with
  | none =>
    simp only [hname] at h
    cases h
  | some r =>
    simp only [hname] at h
    exact ⟨Option.some_ne_none r, Site.writtenSize_of_mem_groups h⟩

theorem writtenSize_of_mem_compile {body : List Symbol}
    (h : read ∈ (compile options (reading notes) position body).value.nested) :
    writtenSize read.2 + 2 ≤ writtenSize body := by
  unfold compile at h
  cases hsplit : splitBare? ['=', ':'] body with
  | none =>
    simp only [hsplit] at h
    split at h
    · rw [nested_directive] at h
      cases h
    · exact absurd rfl (resolves_of_mem_call h).2.1
  | some found =>
    obtain ⟨head, arguments⟩ := found
    obtain ⟨c, -, rfl⟩ := exists_of_splitBare? hsplit
    simp only [hsplit] at h
    split at h
    · rw [nested_directive] at h
      cases h
    · obtain ⟨hname, -, hread⟩ := resolves_of_mem_call h
      -- no function has the empty name
      have hhead : head ≠ [] := by
        rintro rfl
        refine hname ?_
        cases options.casing <;> decide
      have hhead := writtenSize_pos hhead
      have hsign := c.utf8Size_pos
      have hsize : Symbol.size (.bare c) = c.utf8Size := rfl
      rw [writtenSize_append, writtenSize_cons, hsize]
      omega

end Clause

namespace Parameter

theorem writtenSize_of_mem_bodyPiece {piece : BodyPiece}
    (h : read ∈ (bodyPiece options (reading notes) position piece).value.nested) :
    writtenSize read.2 + 4 ≤ writtenSize piece.symbols := by
  cases piece with
  | stray text => cases h
  | unended text => cases h
  | clause body =>
    have hbody := Clause.writtenSize_of_mem_compile h
    rw [BodyPiece.writtenSize_clause]
    omega

theorem writtenSize_of_mem_compile {body : List Symbol}
    (h : read ∈ (compile options (reading notes) position body).value.nested) :
    writtenSize read.2 + 7 ≤ writtenSize (Piece.parameter body).symbols := by
  have hbody : writtenSize (splitName body).2 ≤ writtenSize body := by
    have hname : (splitName body).1 ++ (splitName body).2 = body := List.takeWhile_append_dropWhile
    have hsum := congrArg writtenSize hname
    rw [writtenSize_append] at hsum
    omega
  simp only [compile, Reported.map, nested_foldl_add] at h
  obtain ⟨clause, hclause, hread⟩ := List.mem_flatMap.1 h
  obtain ⟨reported, hreported, rfl⟩ := List.mem_map.1 hclause
  obtain ⟨⟨start, piece⟩, hplace, rfl⟩ := List.mem_map.1 hreported
  have hpiece := List.mem_map_of_mem (f := Prod.snd) hplace
  rw [map_snd_placed] at hpiece
  have hpiece := writtenSize_le_flatMap (f := BodyPiece.symbols) hpiece
  rw [BodyPiece.flatMap_ofSource] at hpiece
  have hread := writtenSize_of_mem_bodyPiece hread
  rw [Piece.writtenSize_parameter]
  omega

end Parameter

theorem Part.writtenSize_of_mem_compile {piece : Piece}
    (h : read ∈ (compile options (reading notes) position piece).value.nested) :
    writtenSize read.2 + 7 ≤ writtenSize piece.symbols := by
  cases piece with
  | symbol s => cases h
  | opener => cases h
  | parameter body =>
    rw [compile, Reported.map, nested, parameter?, Option.toList_some, List.flatMap_singleton] at h
    exact Parameter.writtenSize_of_mem_compile h

theorem Layer.writtenSize_of_mem_reads {source : List Symbol} (h : read ∈ reads options source) :
    writtenSize read.2 + 7 ≤ writtenSize source := by
  rw [reads, nested_eq, compile, Part.nested_foldr_join] at h
  obtain ⟨part, hpart, hread⟩ := List.mem_flatMap.1 h
  obtain ⟨reported, hreported, rfl⟩ := List.mem_map.1 hpart
  obtain ⟨⟨start, piece⟩, hplace, rfl⟩ := List.mem_map.1 hreported
  have hpiece := List.mem_map_of_mem (f := Prod.snd) hplace
  rw [map_snd_placed] at hpiece
  have hpiece := writtenSize_le_flatMap (f := Piece.symbols) hpiece
  rw [Piece.flatMap_ofSource] at hpiece
  exact Nat.le_trans (Part.writtenSize_of_mem_compile hread) hpiece

end Stencil
