import Stencil.Proofs.Source.Pieces
import Stencil.Proofs.Text.Positions

/-! # Where the pieces of a source stand

The scanners cut a source into pieces and lose nothing of it but the separators. So the position that a
piece is given is the place where it stands in the source, and a place within a place is found by
adding the positions. -/
namespace Stencil

theorem Bracket.closed?_of_isEnd {b : Bracket} {nesting : Nesting} {s : Symbol}
    (h : b.isEnd nesting s = true) : s = b.closer := by
  rw [isEnd, Bool.and_eq_true, decide_eq_true_eq] at h
  exact closed?_eq_some_iff.1 h.1

theorem Bracket.eq_of_splitEnd? {b : Bracket} {nesting : Nesting} {source inner outer : List Symbol}
    (h : b.splitEnd? nesting source = some (inner, outer)) : source = inner ++ b.closer :: outer := by
  induction source generalizing nesting inner with
  | nil => cases h
  | cons s rest ih =>
    rw [splitEnd?] at h
    split at h
    case isTrue hend =>
      cases h
      rw [closed?_of_isEnd hend]
      rfl
    case isFalse =>
      obtain ⟨⟨front, back⟩, hrest, hpair⟩ := Option.map_eq_some_iff.1 h
      cases hpair
      rw [ih hrest]
      rfl

theorem Piece.flatMap_ofSource (source : List Symbol) :
    (ofSource source).flatMap symbols = source := by
  fun_induction ofSource source with
  | case1 => rfl
  | case2 rest body after hend ih =>
    rw [List.flatMap_cons, ih, Bracket.eq_of_splitEnd? hend, symbols]
    simp [Bracket.closer]
  | case3 rest hend ih =>
    rw [List.flatMap_cons, ih]
    rfl
  | case4 s rest hs ih =>
    rw [List.flatMap_cons, ih]
    rfl

theorem BodyPiece.flatMap_addStray (s : Symbol) (pieces : List BodyPiece) :
    (addStray s pieces).flatMap symbols = s :: pieces.flatMap symbols := by
  cases pieces with
  | nil => rfl
  | cons piece rest => cases piece <;> rfl

theorem BodyPiece.flatMap_ofSource (source : List Symbol) :
    (ofSource source).flatMap symbols = source := by
  fun_induction ofSource source with
  | case1 => rfl
  | case2 rest body after hend ih =>
    rw [List.flatMap_cons, ih, Bracket.eq_of_splitEnd? hend, symbols]
    simp [Bracket.closer]
  | case3 rest hend => simp [symbols]
  | case4 s rest hs ih => rw [flatMap_addStray, ih]

theorem exists_of_splitBare? {targets : List Char} {source before after : List Symbol}
    (h : splitBare? targets source = some (before, after)) :
    ∃ c ∈ targets, source = before ++ .bare c :: after := by
  induction source generalizing before with
  | nil => cases h
  | cons s rest ih =>
    rw [splitBare?] at h
    split at h
    case isTrue hs =>
      obtain ⟨c, hc, same⟩ := List.any_eq_true.1 hs
      cases h
      exact ⟨c, hc, congrArg (· :: after) (of_decide_eq_true same)⟩
    case isFalse =>
      obtain ⟨⟨front, back⟩, hrest, hpair⟩ := Option.map_eq_some_iff.1 h
      cases hpair
      obtain ⟨c, hc, same⟩ := ih hrest
      exact ⟨c, hc, congrArg (s :: ·) same⟩

theorem splitOutside_ne_nil (separator : Char) (nesting : Nesting) (source : List Symbol) :
    splitOutside separator nesting source ≠ [] := by
  induction source generalizing nesting with
  | nil => exact List.cons_ne_nil _ _
  | cons s rest ih =>
    rw [splitOutside]
    split
    · exact List.cons_ne_nil _ _
    · have hrest := ih (Bracket.pass nesting s)
      cases hsplit : splitOutside separator (Bracket.pass nesting s) rest with
      | nil => exact absurd hsplit hrest
      | cons piece pieces => exact List.cons_ne_nil _ _

theorem intercalate_splitOutside (separator : Char) (nesting : Nesting) (source : List Symbol) :
    [.bare separator].intercalate (splitOutside separator nesting source) = source := by
  induction source generalizing nesting with
  | nil => rfl
  | cons s rest ih =>
    rw [splitOutside]
    split
    case isTrue hs =>
      have hne := splitOutside_ne_nil separator nesting rest
      rw [hs.1, List.intercalate_cons_of_ne_nil hne, ih]
      rfl
    case isFalse =>
      have hrest := ih (Bracket.pass nesting s)
      cases hsplit : splitOutside separator (Bracket.pass nesting s) rest with
      | nil => exact absurd hsplit (splitOutside_ne_nil _ _ _)
      | cons piece pieces =>
        rw [hsplit] at hrest
        rw [List.modifyHead_cons, ← hrest]
        cases pieces with
        | nil => rfl
        | cons next pieces =>
          rw [List.intercalate_cons_cons, List.intercalate_cons_cons]
          rfl

/-- The piece stands in the source at a byte position. -/
def Stands (source : List Symbol) (position : Nat) (piece : List Symbol) : Prop :=
  ∃ before after, source = before ++ piece ++ after ∧ writtenSize before = position

namespace Stands

variable {source piece part : List Symbol} {position offset : Nat}

theorem self (source : List Symbol) : Stands source 0 source :=
  ⟨[], [], (List.append_nil source).symm, rfl⟩

theorem trans (h : Stands source position piece) (k : Stands piece offset part) :
    Stands source (position + offset) part := by
  obtain ⟨before, after, rfl, rfl⟩ := h
  obtain ⟨front, back, rfl, rfl⟩ := k
  refine ⟨before ++ front, back ++ after, ?_, writtenSize_append before front⟩
  simp only [List.append_assoc]

theorem legible (k : Stands source position piece) (h : Legible source) : Legible piece := by
  obtain ⟨before, after, rfl, -⟩ := k
  exact h.left.right

theorem left (h : Stands source position (piece ++ part)) : Stands source position piece := by
  obtain ⟨before, after, rfl, hbefore⟩ := h
  refine ⟨before, part ++ after, ?_, hbefore⟩
  simp only [List.append_assoc]

theorem right (h : Stands source position (piece ++ part)) :
    Stands source (position + writtenSize piece) part := by
  obtain ⟨before, after, rfl, rfl⟩ := h
  refine ⟨before ++ piece, after, ?_, writtenSize_append before piece⟩
  simp only [List.append_assoc]

theorem tail {c : Char} (hc : c.utf8Size = 1) (h : Stands source position (.bare c :: part)) :
    Stands source (position + 1) part := by
  have hright : Stands source (position + writtenSize [.bare c]) part := right h
  have hsize : writtenSize [.bare c] = 1 := hc
  rw [hsize] at hright
  exact hright

theorem placed {α : Type} {symbols : α → List Symbol} {xs : List α}
    (h : Stands source position (xs.flatMap symbols)) {place : Nat × α}
    (hplace : place ∈ placed symbols position xs) : Stands source place.1 (symbols place.2) := by
  induction xs generalizing position with
  | nil => cases hplace
  | cons x xs ih =>
    rw [List.flatMap_cons] at h
    rcases List.mem_cons.1 hplace with rfl | hplace
    · exact h.left
    · exact ih h.right hplace

theorem located {c : Char} (hc : c.utf8Size = 1) {pieces : List (List Symbol)}
    (h : Stands source position ([.bare c].intercalate pieces)) {place : Nat × List Symbol}
    (hplace : place ∈ located position pieces) : Stands source place.1 place.2 := by
  induction pieces generalizing position with
  | nil => cases hplace
  | cons piece pieces ih =>
    cases pieces with
    | nil =>
      rw [List.mem_singleton.1 hplace]
      rw [List.intercalate_singleton] at h
      exact h
    | cons next pieces =>
      rw [List.intercalate_cons_cons, List.append_assoc] at h
      rcases List.mem_cons.1 hplace with rfl | hplace
      · exact h.left
      · exact ih (tail hc h.right) hplace

/-- What a symbol list is written as stands in the text as the list stands in the source. -/
theorem written_eq (h : Stands source position piece) :
    ∃ before after, written source = before ++ (written piece ++ after) ∧
      Text.size before = position := by
  obtain ⟨before, after, rfl, rfl⟩ := h
  refine ⟨written before, written after, ?_, size_written before⟩
  simp only [written_append, List.append_assoc]

theorem slice?_written (h : Stands source position piece) :
    (written source).slice? ⟨position, position + (written piece).size⟩ = some (written piece) := by
  obtain ⟨before, after, heq, rfl⟩ := h.written_eq
  rw [heq]
  exact Text.slice?_append before (written piece) after

end Stands

theorem Text.slice?_shift {text found : Text} {r : ByteRange} (h : text.slice? r = some found)
    (before after : Text) :
    (before ++ (text ++ after)).slice? (r.shift before.size) = some found := by
  obtain ⟨cut, hcut, rfl⟩ := Option.map_eq_some_iff.1 h
  obtain ⟨rfl, rfl⟩ := cut?_eq_some_iff.1 hcut
  have hslice := slice?_append (before ++ cut.before) cut.kept (cut.after ++ after)
  rw [size_append] at hslice
  simpa only [Cut.whole, Cut.range, ByteRange.shift, List.append_assoc, Nat.add_assoc] using hslice

end Stencil
