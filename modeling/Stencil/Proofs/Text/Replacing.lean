import Stencil.Proofs.Check.Cursor

/-! # Cutting and replacing at occurrences

A text is cut at the first occurrence of a piece, and what stands behind that is cut in the same way.
To replace is to cut and to join with the replacement. The same is done by a loop with a cursor, which
copies what stands in front of the next occurrence and goes on behind it (`Casing.replaceFrom_append`):
every range that it asks for is a slice of the text, and it moves on because the piece is not empty. -/
namespace Stencil.Casing

variable {casing : Casing} {piece text : Text}

/-- A text is cut at the first occurrence of a piece, and so on behind it; an empty piece cuts nothing. -/
inductive Cuts (casing : Casing) (piece : Text) : Text → List Text → Prop where
  | last (text : Text) (absent : piece ≠ [] → ∀ position, ¬ casing.FirstAt piece text position) :
      Cuts casing piece text [text]
  | first (before found after : Text) (pieces : List Text) (nonempty : piece ≠ [])
      (same : casing.sameText found piece = true)
      (first : casing.FirstAt piece (before ++ (found ++ after)) before.size)
      (rest : Cuts casing piece after pieces) :
      Cuts casing piece (before ++ (found ++ after)) (before :: pieces)

theorem between_nil (text : Text) : casing.between [] text = [text] := by
  rw [between, dif_pos rfl]

theorem between_of_find?_none (h : casing.find? piece text = none) :
    casing.between piece text = [text] := by
  by_cases hempty : piece = []
  · rw [hempty, between_nil]
  · rw [between, dif_neg hempty]
    split
    case h_1 => rfl
    case h_2 cut hcut => cases h.symm.trans hcut

theorem between_of_find? (nonempty : piece ≠ []) {cut : Cut} (h : casing.find? piece text = some cut) :
    casing.between piece text = cut.before :: casing.between piece cut.after := by
  rw [between, dif_neg nonempty]
  split
  case h_1 hnone => cases h.symm.trans hnone
  case h_2 other hother =>
    cases h.symm.trans hother
    rfl

theorem between_ne_nil (casing : Casing) (piece text : Text) : casing.between piece text ≠ [] := by
  by_cases hempty : piece = []
  · rw [hempty, between_nil]
    exact List.cons_ne_nil _ _
  · cases hcut : casing.find? piece text with
    | none =>
      rw [between_of_find?_none hcut]
      exact List.cons_ne_nil _ _
    | some cut =>
      rw [between_of_find? hempty hcut]
      exact List.cons_ne_nil _ _

theorem cuts_between (casing : Casing) (piece text : Text) :
    casing.Cuts piece text (casing.between piece text) := by
  induction text using between.induct casing piece with
  | case1 text hempty =>
    rw [hempty, between_nil]
    exact .last text fun h => absurd rfl h
  | case2 text nonempty hnone =>
    rw [between_of_find?_none hnone]
    refine .last text fun _ position hfirst => ?_
    obtain ⟨cut, hcut, -⟩ := firstAt_iff_find?.1 hfirst
    cases hnone.symm.trans hcut
  | case3 text nonempty cut hcut ih =>
    obtain ⟨hwhole, -⟩ := of_find? hcut
    rw [Cut.whole, List.append_assoc] at hwhole
    have hfirst := firstAt_iff_find?.2 ⟨cut, hcut, rfl⟩
    rw [between_of_find? nonempty hcut]
    rw [hwhole] at hfirst ⊢
    exact .first _ _ _ _ nonempty (sameText_of_find? hcut) hfirst ih

theorem find?_of_firstAt {before found after : Text} (same : casing.sameText found piece = true)
    (first : casing.FirstAt piece (before ++ (found ++ after)) before.size) :
    casing.find? piece (before ++ (found ++ after)) = some ⟨before, found, after⟩ := by
  obtain ⟨⟨before', found', after'⟩, hcut, hsize⟩ := firstAt_iff_find?.1 first
  obtain ⟨hwhole, hlength⟩ := of_find? hcut
  rw [Cut.whole, List.append_assoc] at hwhole
  obtain ⟨rfl, hbehind⟩ := Text.eq_of_append_eq hwhole hsize.symm
  obtain ⟨rfl, rfl⟩ := List.append_inj hbehind ((length_of_sameText same).trans hlength.symm)
  exact hcut

/-- There is one way to cut a text. -/
theorem cuts_iff {pieces : List Text} :
    casing.Cuts piece text pieces ↔ casing.between piece text = pieces := by
  constructor
  · intro h
    induction h with
    | last text absent =>
      by_cases hempty : piece = []
      · rw [hempty, between_nil]
      · cases hcut : casing.find? piece text with
        | none => exact between_of_find?_none hcut
        | some cut => exact absurd (firstAt_iff_find?.2 ⟨cut, hcut, rfl⟩) (absent hempty _)
    | first before found after pieces nonempty same first _ ih =>
      rw [between_of_find? nonempty (find?_of_firstAt same first), ih]
  · rintro rfl
    exact cuts_between casing piece text

theorem intercalate_cons (separator front : Text) {pieces : List Text} (h : pieces ≠ []) :
    separator.intercalate (front :: pieces) = front ++ (separator ++ separator.intercalate pieces) := by
  obtain ⟨next, rest, rfl⟩ := List.exists_cons_of_ne_nil h
  rw [List.intercalate_cons_cons, List.append_assoc]

theorem replaceAll_nil (text replacement : Text) : casing.replaceAll [] text replacement = text := by
  rw [replaceAll, between_nil, List.intercalate_singleton]

theorem replaceAll_of_find?_none (replacement : Text) (h : casing.find? piece text = none) :
    casing.replaceAll piece text replacement = text := by
  rw [replaceAll, between_of_find?_none h, List.intercalate_singleton]

theorem replaceAll_of_find? (replacement : Text) (nonempty : piece ≠ []) {cut : Cut}
    (h : casing.find? piece text = some cut) :
    casing.replaceAll piece text replacement =
      cut.before ++ (replacement ++ casing.replaceAll piece cut.after replacement) := by
  rw [replaceAll, between_of_find? nonempty h, intercalate_cons _ _ (between_ne_nil _ _ _)]
  rfl

theorem replaceAll_self (piece text : Text) : sensitive.replaceAll piece text piece = text := by
  induction text using between.induct sensitive piece with
  | case1 text hempty => rw [hempty, replaceAll_nil]
  | case2 text _ hnone => exact replaceAll_of_find?_none piece hnone
  | case3 text nonempty cut hcut ih =>
    have hkept : cut.kept = piece := by
      have hsame := sameText_iff.1 (sameText_of_find? hcut)
      simpa only [key, List.map_id] using hsame
    have hwhole := (of_find? hcut).1
    rw [replaceAll_of_find? piece nonempty hcut, ih, hwhole, Cut.whole, List.append_assoc, hkept]

theorem of_findFrom? {start : Nat} {r : ByteRange} (h : casing.findFrom? text piece start = some r) :
    ∃ front cut, text = front ++ cut.whole ∧ front.size = start ∧
      casing.find? piece cut.whole = some cut ∧ r = cut.range.shift start := by
  simp only [findFrom?, Option.bind_eq_bind, Option.bind_eq_some_iff, Option.pure_def,
    Option.some.injEq, Prod.exists] at h
  obtain ⟨front, rest, hsplit, cut, hcut, rfl⟩ := h
  obtain ⟨rfl, hsize⟩ := Text.splitAt?_eq_some_iff.1 hsplit
  obtain ⟨rfl, -⟩ := of_find? hcut
  exact ⟨front, cut, rfl, hsize, hcut, rfl⟩

theorem stop_of_findFrom? (nonempty : piece ≠ []) {start : Nat} {r : ByteRange}
    (h : casing.findFrom? text piece start = some r) : start < r.stop ∧ r.stop ≤ text.size := by
  obtain ⟨front, cut, rfl, rfl, hcut, rfl⟩ := of_findFrom? h
  have hkept : cut.kept ≠ [] := by
    have hlength := (of_find? hcut).2
    have hpiece := List.length_pos_iff.2 nonempty
    exact List.length_pos_iff.1 (by omega)
  have hpos := Text.size_pos hkept
  simp only [ByteRange.shift, Cut.range, Cut.whole, Text.size_append]
  omega

open Attempt

/-- From a cursor on, copy what stands in front of the next occurrence, put the replacement in its
place, and go on behind it. -/
def replaceFrom (casing : Casing) (text piece replacement : Text) (nonempty : piece ≠ [])
    (cursor : Nat) (written : Text) : Attempt Text :=
  match _found : casing.findFrom? text piece cursor with
  | none => do
    let rest ← slice text cursor text.size
    return written ++ rest
  | some r => do
    let front ← slice text cursor r.start
    casing.replaceFrom text piece replacement nonempty r.stop (written ++ front ++ replacement)
termination_by text.size - cursor
decreasing_by
  have hstop := stop_of_findFrom? nonempty _found
  omega

/-- Replace every occurrence with a loop. -/
def replaceLoop (casing : Casing) (piece text replacement : Text) : Attempt Text :=
  if empty : piece = [] then return text
  else casing.replaceFrom text piece replacement empty 0 []

section

variable {cursor : Nat} (replacement : Text) (nonempty : piece ≠ []) (written : Text)

theorem replaceFrom_of_none (h : casing.findFrom? text piece cursor = none) :
    casing.replaceFrom text piece replacement nonempty cursor written =
      (slice text cursor text.size).map (written ++ ·) := by
  rw [replaceFrom]
  split
  case h_1 => rfl
  case h_2 r hr => cases h.symm.trans hr

theorem replaceFrom_of_some {r : ByteRange} (h : casing.findFrom? text piece cursor = some r) :
    casing.replaceFrom text piece replacement nonempty cursor written = (do
      let front ← slice text cursor r.start
      casing.replaceFrom text piece replacement nonempty r.stop (written ++ front ++ replacement)) := by
  rw [replaceFrom]
  split
  case h_1 hnone => cases h.symm.trans hnone
  case h_2 other hother =>
    cases h.symm.trans hother
    rfl

end

/-- Behind a front that the cursor has passed, the loop adds to what it has written the rest with every
occurrence replaced. -/
theorem replaceFrom_append (replacement : Text) (nonempty : piece ≠ []) (front rest written : Text) :
    casing.replaceFrom (front ++ rest) piece replacement nonempty front.size written =
      .ok (written ++ casing.replaceAll piece rest replacement) := by
  induction rest using between.induct casing piece generalizing front written with
  | case1 rest hempty => exact absurd hempty nonempty
  | case2 rest _ hnone =>
    have hfound : casing.findFrom? (front ++ rest) piece front.size = none := by
      rw [findFrom?_append, hnone]
      rfl
    rw [replaceFrom_of_none replacement nonempty written hfound, slice_to_end,
      replaceAll_of_find?_none replacement hnone]
    rfl
  | case3 rest _ cut hcut ih =>
    have hfound : casing.findFrom? (front ++ rest) piece front.size =
        some (cut.range.shift front.size) := by
      rw [findFrom?_append, hcut]
      rfl
    rw [replaceFrom_of_some replacement nonempty written hfound]
    obtain ⟨rfl, -⟩ := of_find? hcut
    have hfront : slice (front ++ cut.whole) front.size (cut.range.shift front.size).start =
        .ok cut.before := by
      rw [Cut.whole, List.append_assoc]
      exact slice_append front cut.before _
    -- the cursor passes the occurrence, which becomes a part of the front
    have hpassed : front ++ cut.whole = front ++ cut.before ++ cut.kept ++ cut.after := by
      simp only [Cut.whole, List.append_assoc]
    have hstop : (cut.range.shift front.size).stop =
        Text.size (front ++ cut.before ++ cut.kept) := by
      simp only [ByteRange.shift, Cut.range, Text.size_append, Nat.add_assoc]
    rw [hfront, ok_bind, hpassed, hstop, ih, replaceAll_of_find? replacement nonempty hcut]
    simp only [List.append_assoc]

theorem replaceLoop_eq (casing : Casing) (piece text replacement : Text) :
    casing.replaceLoop piece text replacement = .ok (casing.replaceAll piece text replacement) := by
  by_cases hempty : piece = []
  · rw [replaceLoop, dif_pos hempty, hempty, replaceAll_nil]
    rfl
  · rw [replaceLoop, dif_neg hempty]
    exact replaceFrom_append replacement hempty [] text []

end Stencil.Casing
