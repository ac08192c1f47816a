import Stencil.Proofs.Scan.Closing
import Stencil.Proofs.Scan.Joining
import Stencil.Proofs.Scan.Level

/-! # Every round moves on

A search finds nothing in front of the position that it starts from and nothing behind the end. So each round of
the loops over the parts of a source and over the clauses of a parameter ends behind where it began, and not
behind the end, whatever the source is (`Scan.advances`). -/
namespace Stencil

open Attempt

variable {π : Type}

theorem Text.pairwise_located (position : Nat) (pieces : List Text) :
    (Text.located position pieces).Pairwise (fun place next => place.1 + place.2.size < next.1) ∧
      ∀ place ∈ Text.located position pieces, position ≤ place.1 := by
  induction pieces generalizing position with
  | nil => exact ⟨.nil, by simp [located]⟩
  | cons piece rest ih =>
    obtain ⟨hrest, hbehind⟩ := ih (position + piece.size + 1)
    refine ⟨List.pairwise_cons.2 ⟨fun place hplace => hbehind place hplace, hrest⟩, fun place hplace => ?_⟩
    rcases List.mem_cons.1 hplace with rfl | hplace
    · exact Nat.le_refl position
    · have hle := hbehind place hplace
      omega

theorem length_symbols_le (text : Text) : (symbols text).length ≤ text.size := by
  rw [← writtenSize_symbols]
  induction symbols text with
  | nil => exact Nat.le_refl 0
  | cons s rest ih =>
    have hs := s.size_pos
    rw [List.length_cons, writtenSize_cons]
    omega

namespace Scan

theorem find_within {text : Text} {targets : List Char} {start stop : Nat}
    (h : find text targets start = .ok (some stop)) : start ≤ stop ∧ stop < text.size := by
  obtain ⟨tail, htail, hfound⟩ := bind_eq_ok_iff.1 h
  obtain ⟨front, rfl, rfl⟩ := slice_to_end_eq_ok_iff.1 htail
  obtain ⟨⟨before, after⟩, hsplit, rfl⟩ := Option.map_eq_some_iff.1 (Except.ok.inj hfound)
  obtain ⟨c, -, htail⟩ := exists_of_splitBare? hsplit
  have hsize := writtenSize_symbols tail
  rw [htail, writtenSize_append, writtenSize_cons] at hsize
  have hc := (Symbol.bare c).size_pos
  simp only [Text.size_append]
  omega

theorem findEnd_within {text : Text} {b : Bracket} {start stop : Nat}
    (h : findEnd text b start = .ok (some stop)) : start ≤ stop ∧ stop < text.size := by
  obtain ⟨before, inner, rest, rfl, rfl, rfl, -⟩ := Text.findEnd?_eq_some_iff.1 (findEnd_eq_ok_iff.1 h)
  have hclosing := b.closing.utf8Size_pos
  simp only [Text.size_append, Text.size_cons]
  omega

variable {options : Options} {nested : Nest π}

theorem nextPart_advances {source others : Text} {position next : Nat} {c : Char} {s after : Progress π}
    (htail : slice source position source.size = .ok (c :: others))
    (h : nextPart options nested source position c others s = .ok (next, after)) :
    position < next ∧ next ≤ source.size := by
  obtain ⟨front, hsource, rfl⟩ := slice_to_end_eq_ok_iff.1 htail
  have hsize : source.size = front.size + (c.utf8Size + others.size) := by
    rw [hsource, Text.size_append, Text.size_cons]
  have hc := c.utf8Size_pos
  unfold nextPart at h
  split at h
  case isTrue hopens =>
    obtain ⟨closing?, hclosing, h⟩ := bind_eq_ok_iff.1 h
    cases closing? with
    | some closing =>
      -- behind the end of the parameter
      have hwithin := findEnd_within hclosing
      obtain ⟨p, -, hlast⟩ := bind_eq_ok_iff.1 h
      cases hlast
      omega
    | none =>
      -- behind the two characters that open none
      cases h
      obtain ⟨rfl, hhead⟩ := hopens
      obtain ⟨more, rfl⟩ := List.head?_eq_some_iff.1 hhead
      have hopening : Text.size ('%' :: '[' :: more) = 2 + Text.size more := by
        simp only [Text.size_cons, ← Nat.add_assoc]
        rfl
      rw [hsource, Text.size_append, hopening]
      omega
  case isFalse =>
    obtain ⟨behind, hbehind, h⟩ := bind_eq_ok_iff.1 h
    cases behind with
    | nil =>
      cases h
      omega
    | cons escaped more =>
      -- behind a backslash and the character that it escapes
      cases h
      split at hbehind
      · obtain ⟨passed, hmore, hpassed⟩ := slice_to_end_eq_ok_iff.1 hbehind
        have hescaped : source.size = passed.size + (escaped.utf8Size + Text.size more) := by
          rw [hmore, Text.size_append, Text.size_cons]
        omega
      · cases hbehind

theorem nextClause_advances {text : Text} {base position next : Nat} {p after : Reported (Parameter π)}
    (h : nextClause options nested text base position p = .ok (some next, after)) :
    position < next ∧ next ≤ text.size := by
  obtain ⟨opening?, hopening, h⟩ := bind_eq_ok_iff.1 h
  cases opening? with
  | none =>
    obtain ⟨rest, -, h⟩ := bind_eq_ok_iff.1 h
    cases h
  | some opening =>
    have hopening := find_within hopening
    obtain ⟨front, -, h⟩ := bind_eq_ok_iff.1 h
    obtain ⟨closing?, hclosing, h⟩ := bind_eq_ok_iff.1 h
    cases closing? with
    | none => cases h
    | some closing =>
      have hclosing := findEnd_within hclosing
      obtain ⟨body, -, h⟩ := bind_eq_ok_iff.1 h
      obtain ⟨read, -, h⟩ := bind_eq_ok_iff.1 h
      cases h
      omega

/-- The loops over parts and clauses move on with every round and stay within the text, and what the scans in
between find is not in front of where they start. The scans themselves pass one symbol after the other, of which
there are no more than bytes. -/
structure Advances (options : Options) (nested : Nest π) : Prop where
  parts : ∀ source position c others s next after, slice source position source.size = .ok (c :: others) →
    nextPart options nested source position c others s = .ok (next, after) →
    position < next ∧ next ≤ source.size
  clauses : ∀ text base position p next after,
    nextClause options nested text base position p = .ok (some next, after) →
    position < next ∧ next ≤ text.size
  find : ∀ text targets start stop, find text targets start = .ok (some stop) → start ≤ stop ∧ stop < text.size
  findEnd : ∀ text b start stop, findEnd text b start = .ok (some stop) → start ≤ stop ∧ stop < text.size
  pieces : ∀ text places separator, separator = ',' ∨ separator = ';' → pieces text separator = .ok places →
    places.Pairwise fun place next => place.1 + place.2.size < next.1
  symbols : ∀ text : Text, (symbols text).length ≤ text.size

theorem advances (options : Options) (nested : Nest π) : Advances options nested where
  parts _ _ _ _ _ _ _ htail h := nextPart_advances htail h
  clauses _ _ _ _ _ _ h := nextClause_advances h
  find _ _ _ _ h := find_within h
  findEnd _ _ _ _ h := findEnd_within h
  pieces text places separator hseparator h := by
    have hsize : separator.utf8Size = 1 := by rcases hseparator with rfl | rfl <;> rfl
    rw [pieces_eq hsize] at h
    cases h
    exact (Text.pairwise_located _ _).1
  symbols := length_symbols_le

end Scan

end Stencil
