import Stencil.Proofs.Text.Boundaries
import Stencil.Proofs.Text.Replacing

/-! # What is replaced

A text can be taken apart in one way only into occurrences of a piece and gaps in which no occurrence
begins. A loop that searches from behind each occurrence meets with these occurrences in turn and then ends,
and what it writes is the gaps with the replacement between them (`Casing.replaceAll_leftmost`). -/
namespace Stencil

/-- Occurrences of a piece in a text and the gaps between them: one in front of all, and one behind each. -/
structure Segments where
  front : Text
  rest : List (Text × Text)
  deriving DecidableEq, Repr

namespace Segments

def whole (s : Segments) : Text := s.front ++ s.rest.flatMap fun (found, gap) => found ++ gap

/-- The gaps with the replacement between them. -/
def filled (s : Segments) (replacement : Text) : Text :=
  s.front ++ s.rest.flatMap fun (_, gap) => replacement ++ gap

/-- The places of the gaps, the first of which begins at `start`. -/
def gapsFrom (start : Nat) (gap : Text) : List (Text × Text) → List ByteRange
  | [] => [⟨start, start + gap.size⟩]
  | (found, next) :: rest =>
    ⟨start, start + gap.size⟩ :: gapsFrom (start + gap.size + found.size) next rest

/-- The places of the occurrences behind a gap that begins at `start`. -/
def occurrencesFrom (start : Nat) (gap : Text) : List (Text × Text) → List ByteRange
  | [] => []
  | (found, next) :: rest =>
    ⟨start + gap.size, start + gap.size + found.size⟩ ::
      occurrencesFrom (start + gap.size + found.size) next rest

def gaps (s : Segments) : List ByteRange := gapsFrom 0 s.front s.rest

def occurrences (s : Segments) : List ByteRange := occurrencesFrom 0 s.front s.rest

/-- No occurrence begins in a gap, not even one that reaches beyond it. -/
structure Leftmost (casing : Casing) (piece text : Text) (s : Segments) : Prop where
  whole : s.whole = text
  same : ∀ segment ∈ s.rest, casing.sameText segment.1 piece = true
  absent : ∀ gap ∈ s.gaps, ∀ position, gap.start ≤ position → position < gap.stop →
    ¬ casing.OccursAt piece text position

theorem gapsFrom_add (a b : Nat) (gap : Text) (rest : List (Text × Text)) :
    gapsFrom (a + b) gap rest = (gapsFrom b gap rest).map (·.shift a) := by
  induction rest generalizing b gap with
  | nil => simp only [gapsFrom, List.map_cons, List.map_nil, ByteRange.shift, Nat.add_assoc]
  | cons segment rest ih =>
    obtain ⟨found, next⟩ := segment
    have hrest := ih (b + gap.size + found.size) next
    simp only [Nat.add_assoc] at hrest
    simp only [gapsFrom, List.map_cons, ByteRange.shift, Nat.add_assoc, hrest]

theorem filled_cons (front found gap : Text) (rest : List (Text × Text)) (replacement : Text) :
    filled ⟨front, (found, gap) :: rest⟩ replacement =
      front ++ (replacement ++ filled ⟨gap, rest⟩ replacement) := by
  simp only [filled, List.flatMap_cons, List.append_assoc]

variable {casing : Casing} {piece text front found gap after : Text} {rest : List (Text × Text)}

end Segments

namespace Casing

variable {casing : Casing} {piece text : Text}

theorem OccursAt.lt_size (nonempty : piece ≠ []) {position : Nat}
    (h : casing.OccursAt piece text position) : position < text.size := by
  obtain ⟨before, found, after, rfl, rfl, hsame⟩ := h
  have hfound : found ≠ [] := by
    have hlength := length_of_sameText hsame
    have hpiece := List.length_pos_iff.2 nonempty
    exact List.length_pos_iff.1 (by omega)
  have hpos := Text.size_pos hfound
  simp only [Text.size_append]
  omega

theorem firstAt_of_absent {position : Nat} (h : casing.OccursAt piece text position)
    (absent : ∀ earlier < position, ¬ casing.OccursAt piece text earlier) :
    casing.FirstAt piece text position := by
  obtain ⟨before, found, after, htext, hsize, hsame⟩ := h
  refine ⟨⟨before, found, after, htext, hsame, hsize⟩, ?_⟩
  intro front other rest hother hsame
  exact Nat.le_of_not_lt fun hlt => absent _ hlt ⟨front, other, rest, hother, rfl, hsame⟩

theorem FirstAt.absent {position : Nat} (h : casing.FirstAt piece text position) {earlier : Nat}
    (hlt : earlier < position) : ¬ casing.OccursAt piece text earlier := by
  rintro ⟨before, found, after, htext, rfl, hsame⟩
  exact absurd hlt (Nat.not_lt.2 (h.first before found after htext hsame))

end Casing

namespace Segments

variable {casing : Casing} {piece text front found gap after : Text} {rest : List (Text × Text)}

theorem leftmost_last_iff (nonempty : piece ≠ []) :
    Leftmost casing piece text ⟨front, []⟩ ↔ front = text ∧ casing.find? piece text = none := by
  rw [Casing.find?_eq_none_iff []]
  constructor
  · intro h
    obtain rfl : front = text := (List.append_nil front).symm.trans h.whole
    refine ⟨rfl, fun position _ hoccurs => ?_⟩
    have hlt := hoccurs.lt_size nonempty
    refine h.absent ⟨0, 0 + front.size⟩ (List.mem_singleton_self _) position (Nat.zero_le _) ?_ hoccurs
    rwa [Nat.zero_add]
  · rintro ⟨rfl, habsent⟩
    exact ⟨List.append_nil front, nofun, fun _ _ position _ _ => habsent position (Nat.zero_le _)⟩

theorem leftmost_cons_iff :
    Leftmost casing piece text ⟨front, (found, gap) :: rest⟩ ↔ ∃ after,
      text = front ++ (found ++ after) ∧ casing.sameText found piece = true ∧
      casing.FirstAt piece text front.size ∧ Leftmost casing piece after ⟨gap, rest⟩ := by
  -- behind the first occurrence the places are counted from there
  have hgaps : gaps ⟨front, (found, gap) :: rest⟩ =
      ⟨0, front.size⟩ :: (gaps ⟨gap, rest⟩).map (·.shift (Text.size (front ++ found))) := by
    have hbehind := gapsFrom_add (Text.size (front ++ found)) 0 gap rest
    rw [Nat.add_zero, Text.size_append] at hbehind
    simp only [gaps, gapsFrom, Nat.zero_add, hbehind, Text.size_append]
  have hwhole : whole ⟨front, (found, gap) :: rest⟩ = front ++ (found ++ whole ⟨gap, rest⟩) := by
    simp only [whole, List.flatMap_cons, List.append_assoc]
  have hmoved (after : Text) (position : Nat) :
      casing.OccursAt piece (front ++ (found ++ after)) (Text.size (front ++ found) + position) ↔
        casing.OccursAt piece after position := by
    rw [← List.append_assoc]
    exact Casing.occursAt_append_iff casing piece (front ++ found) after position
  constructor
  · intro h
    obtain rfl := h.whole
    rw [hwhole]
    have hsame := h.same (found, gap) List.mem_cons_self
    have habsent := h.absent
    rw [hwhole, hgaps, List.forall_mem_cons] at habsent
    obtain ⟨hfront, hbehind⟩ := habsent
    refine ⟨whole ⟨gap, rest⟩, rfl, hsame, ?_, rfl, ?_, ?_⟩
    · exact Casing.firstAt_of_absent ⟨front, found, _, rfl, rfl, hsame⟩
        fun earlier => hfront earlier (Nat.zero_le _)
    · exact fun segment hsegment => h.same segment (List.mem_cons_of_mem _ hsegment)
    · intro place hplace position hle hlt hoccurs
      refine hbehind _ (List.mem_map_of_mem hplace) (Text.size (front ++ found) + position) ?_ ?_
        ((hmoved _ _).2 hoccurs)
      · exact Nat.add_le_add_left hle _
      · exact Nat.add_lt_add_left hlt _
  · rintro ⟨after, rfl, hsame, hfirst, h⟩
    refine ⟨?_, ?_, ?_⟩
    · rw [hwhole, h.whole]
    · exact List.forall_mem_cons.2 ⟨hsame, h.same⟩
    · rw [hgaps, List.forall_mem_cons]
      refine ⟨fun position _ hlt => hfirst.absent hlt, ?_⟩
      intro place hplace position hle hlt hoccurs
      obtain ⟨inner, hinner, rfl⟩ := List.mem_map.1 hplace
      simp only [ByteRange.shift] at hle hlt
      obtain ⟨moved, rfl⟩ := Nat.exists_eq_add_of_le (Nat.le_trans (Nat.le_add_right _ _) hle)
      exact h.absent inner hinner moved (Nat.le_of_add_le_add_left hle) (Nat.lt_of_add_lt_add_left hlt)
        ((hmoved _ _).1 hoccurs)

/-- There is one way to take a text apart, and it is where a search cuts. -/
theorem exists_leftmost (nonempty : piece ≠ []) (casing : Casing) (text : Text) :
    ∃ s : Segments, (∀ other : Segments, other.Leftmost casing piece text ↔ other = s) ∧
      ∀ replacement, casing.replaceAll piece text replacement = s.filled replacement := by
  induction text using Casing.between.induct casing piece with
  | case1 text hempty => exact absurd hempty nonempty
  | case2 text _ hnone =>
    refine ⟨⟨text, []⟩, ?_, ?_⟩
    · rintro ⟨front, rest⟩
      cases rest with
      | nil =>
        rw [leftmost_last_iff nonempty, and_iff_left hnone, mk.injEq, and_iff_left rfl]
      | cons segment rest =>
        constructor
        · intro h
          obtain ⟨after, -, -, hfirst, -⟩ := leftmost_cons_iff.1 h
          obtain ⟨cut, hcut, -⟩ := Casing.firstAt_iff_find?.1 hfirst
          cases hnone.symm.trans hcut
        · intro h
          cases h
    · intro replacement
      rw [Casing.replaceAll_of_find?_none replacement hnone]
      exact (List.append_nil text).symm
  | case3 text _ cut hcut ih =>
    obtain ⟨s, hunique, hfilled⟩ := ih
    obtain ⟨hwhole, -⟩ := Casing.of_find? hcut
    rw [Cut.whole, List.append_assoc] at hwhole
    -- the first gap ends at the first occurrence, and what is behind that is taken apart alone
    refine ⟨⟨cut.before, (cut.kept, s.front) :: s.rest⟩, ?_, ?_⟩
    · rintro ⟨front, rest⟩
      cases rest with
      | nil =>
        constructor
        · intro h
          cases hcut.symm.trans ((leftmost_last_iff nonempty).1 h).2
        · intro h
          cases h
      | cons segment rest =>
        obtain ⟨found, gap⟩ := segment
        rw [leftmost_cons_iff]
        constructor
        · rintro ⟨after, rfl, hsame, hfirst, h⟩
          cases hcut.symm.trans (Casing.find?_of_firstAt hsame hfirst)
          obtain rfl := (hunique _).1 h
          rfl
        · intro h
          cases h
          exact ⟨cut.after, hwhole, Casing.sameText_of_find? hcut,
            Casing.firstAt_iff_find?.2 ⟨cut, hcut, rfl⟩, (hunique _).2 rfl⟩
    · intro replacement
      rw [Casing.replaceAll_of_find? replacement nonempty hcut, hfilled, filled_cons]

end Segments

namespace Casing

/-- The places that a loop meets with that searches behind each of them for the next, until it finds none. -/
inductive Visits (casing : Casing) (text piece : Text) : Nat → List ByteRange → Prop where
  | done {cursor : Nat} (absent : casing.findFrom? text piece cursor = none) :
      Visits casing text piece cursor []
  | next {cursor : Nat} {r : ByteRange} {more : List ByteRange}
      (found : casing.findFrom? text piece cursor = some r) (rest : Visits casing text piece r.stop more) :
      Visits casing text piece cursor (r :: more)

variable {casing : Casing} {piece : Text}

theorem visits_append (nonempty : piece ≠ []) (passed : Text) {text gap : Text}
    {rest : List (Text × Text)} (h : Segments.Leftmost casing piece text ⟨gap, rest⟩) :
    casing.Visits (passed ++ text) piece passed.size
      (Segments.occurrencesFrom passed.size gap rest) := by
  induction rest generalizing passed text gap with
  | nil =>
    refine .done ?_
    rw [findFrom?_append, ((Segments.leftmost_last_iff nonempty).1 h).2]
    rfl
  | cons segment rest ih =>
    obtain ⟨found, next⟩ := segment
    obtain ⟨after, rfl, hsame, hfirst, hrest⟩ := Segments.leftmost_cons_iff.1 h
    have hfound : casing.findFrom? (passed ++ (gap ++ (found ++ after))) piece passed.size =
        some ⟨passed.size + gap.size, passed.size + gap.size + found.size⟩ := by
      rw [findFrom?_append, find?_of_firstAt hsame hfirst]
      simp only [Option.map_some, Cut.range, ByteRange.shift, Nat.add_assoc]
    have hmore := ih (passed ++ gap ++ found) hrest
    have hpassed : passed ++ gap ++ found ++ after = passed ++ (gap ++ (found ++ after)) := by
      simp only [List.append_assoc]
    rw [hpassed, Text.size_append, Text.size_append] at hmore
    exact .next hfound hmore

/-- For a piece that is not empty there is exactly one way to take a text apart into occurrences of the
piece and gaps in which none begins. A loop that searches behind each occurrence for the next one meets
with these, one after the other, and then ends; what it has written is the gaps with the replacement between
them. An empty piece is not replaced. -/
theorem replaceAll_leftmost (casing : Casing) (piece text : Text) :
    (piece ≠ [] → ∃ s : Segments, (∀ other : Segments, other.Leftmost casing piece text ↔ other = s) ∧
      casing.Visits text piece 0 s.occurrences ∧
      ∀ replacement, casing.replaceLoop piece text replacement = .ok (s.filled replacement) ∧
        casing.replaceAll piece text replacement = s.filled replacement) ∧
    (piece = [] → ∀ replacement, casing.replaceLoop piece text replacement = .ok text ∧
      casing.replaceAll piece text replacement = text) := by
  constructor
  · intro nonempty
    obtain ⟨s, hunique, hfilled⟩ := Segments.exists_leftmost nonempty casing text
    refine ⟨s, hunique, visits_append nonempty [] ((hunique s).2 rfl), fun replacement => ?_⟩
    rw [replaceLoop_eq, hfilled]
    exact ⟨rfl, rfl⟩
  · rintro rfl replacement
    rw [replaceLoop_eq, replaceAll_nil]
    exact ⟨rfl, rfl⟩

/-- Occurrences that overlap, of which the first one has more bytes than the piece. -/
theorem replaceAll_leftmost_overlapping : "kk".toList ≠ [] ∧ ∃ s : Segments,
    (∀ other : Segments,
      other.Leftmost insensitive "kk".toList "\u212Akkxk\u212A".toList ↔ other = s) ∧
    s.filled "-".toList = "-kx-".toList := by
  have nonempty : "kk".toList ≠ [] := by decide
  obtain ⟨s, hunique, -, hfilled⟩ :=
    (replaceAll_leftmost insensitive "kk".toList "\u212Akkxk\u212A".toList).1 nonempty
  have hwritten : insensitive.replaceLoop "kk".toList "\u212Akkxk\u212A".toList "-".toList =
      .ok "-kx-".toList := by decide +kernel
  exact ⟨nonempty, s, hunique, Except.ok.inj ((hfilled _).1.symm.trans hwritten)⟩

end Casing

end Stencil
