import Stencil.Proofs.Check.Division
import Stencil.Proofs.Text.Bytes
import Stencil.Proofs.Text.Comparison

/-! # The least match

A search from a position on meets with the least position of the text from there at which what follows
begins with the piece (`Casing.findFrom?_least`). It may go from one position to the next and compare, and
where case matters it may as well search the bytes and take the end from the size of the piece. -/
namespace Stencil

namespace Text

/-- Every position of a text: where a character begins, and the end. -/
def boundaries (text : Text) : List Nat := text.indexed.map Prod.fst ++ [text.size]

theorem indexedFrom_add (a b : Nat) (text : Text) :
    indexedFrom (a + b) text = (indexedFrom b text).map fun (position, c) => (a + position, c) := by
  induction text generalizing b with
  | nil => rfl
  | cons c cs ih => simp only [indexedFrom, Nat.add_assoc, ih, List.map_cons]

theorem boundaries_cons (c : Char) (cs : Text) :
    boundaries (c :: cs) = 0 :: cs.boundaries.map (c.utf8Size + ·) := by
  have hbehind : indexedFrom (0 + c.utf8Size) cs =
      cs.indexed.map fun (position, d) => (c.utf8Size + position, d) := by
    rw [Nat.zero_add]
    exact indexedFrom_add c.utf8Size 0 cs
  simp only [boundaries, indexed, indexedFrom, hbehind, List.map_cons, List.map_append, List.map_map,
    List.map_nil, List.cons_append, size_cons]
  rfl

theorem mem_boundaries_iff {text : Text} {n : Nat} :
    n ∈ text.boundaries ↔ ∃ front rest, text = front ++ rest ∧ front.size = n := by
  induction text generalizing n with
  | nil =>
    constructor
    · intro h
      exact ⟨[], [], rfl, (List.mem_singleton.1 h).symm⟩
    · rintro ⟨front, rest, hnil, rfl⟩
      obtain ⟨rfl, -⟩ := List.append_eq_nil_iff.1 hnil.symm
      exact List.mem_singleton_self 0
  | cons c cs ih =>
    rw [boundaries_cons, List.mem_cons, List.mem_map]
    constructor
    · rintro (rfl | ⟨m, hm, rfl⟩)
      · exact ⟨[], c :: cs, rfl, rfl⟩
      · obtain ⟨front, rest, rfl, rfl⟩ := ih.1 hm
        exact ⟨c :: front, rest, rfl, rfl⟩
    · rintro ⟨front, rest, htext, rfl⟩
      cases front with
      | nil => exact .inl rfl
      | cons d front =>
        obtain ⟨rfl, rfl⟩ := List.cons.inj htext
        exact .inr ⟨size front, ih.2 ⟨front, rest, rfl, rfl⟩, rfl⟩

theorem splitAt?_eq_none_iff {text : Text} {n : Nat} :
    text.splitAt? n = none ↔ n ∉ text.boundaries := by
  rw [mem_boundaries_iff, Option.eq_none_iff_forall_ne_some]
  constructor
  · rintro hnone ⟨front, rest, htext, hsize⟩
    exact hnone (front, rest) (splitAt?_eq_some_iff.2 ⟨htext, hsize⟩)
  · rintro habsent ⟨front, rest⟩ hsplit
    exact habsent ⟨front, rest, splitAt?_eq_some_iff.1 hsplit⟩

end Text

namespace Casing

variable {casing : Casing} {text piece : Text} {start : Nat}

/-- From the least position at or behind `start` at which what follows begins with the piece, to where the
match ends. -/
structure LeastMatch (casing : Casing) (text piece : Text) (start : Nat) (r : ByteRange) : Prop where
  start_le : start ≤ r.start
  matched : ∃ rest size, text.slice? ⟨r.start, text.size⟩ = some rest ∧
    casing.prefixSize? rest piece = some size ∧ r.stop = r.start + size
  least : ∀ position rest, start ≤ position → position < r.start →
    text.slice? ⟨position, text.size⟩ = some rest → casing.prefixSize? rest piece = none

/-- At this position stands a text that is the same as the piece. -/
def OccursAt (casing : Casing) (piece text : Text) (position : Nat) : Prop :=
  ∃ before found after, text = before ++ (found ++ after) ∧ before.size = position ∧
    casing.sameText found piece = true

/-- The piece as a literal of a pattern. -/
abbrev asLiteral (casing : Casing) (piece : Text) : Literal := ⟨piece, casing, ⟨0, 0⟩⟩

theorem occursAt_append_iff (casing : Casing) (piece a b : Text) (position : Nat) :
    casing.OccursAt piece (a ++ b) (a.size + position) ↔ casing.OccursAt piece b position :=
  (casing.asLiteral piece).occursAt_append_iff a b position

theorem occursAt_iff {position : Nat} :
    casing.OccursAt piece text position ↔ ∃ rest size,
      text.slice? ⟨position, text.size⟩ = some rest ∧ casing.prefixSize? rest piece = some size := by
  simp only [Text.slice?_to_end_iff, prefixSize?_eq_some_iff, Text.splitAt?_eq_some_iff]
  constructor
  · rintro ⟨before, found, after, rfl, rfl, hsame⟩
    exact ⟨found ++ after, found.size, ⟨before, rfl, rfl⟩, found, after, ⟨rfl, rfl⟩, hsame⟩
  · rintro ⟨_, _, ⟨before, rfl, rfl⟩, found, after, ⟨rfl, rfl⟩, hsame⟩
    exact ⟨before, found, after, rfl, rfl, hsame⟩

theorem find?_eq_none_iff (front : Text) {tail : Text} :
    casing.find? piece tail = none ↔
      ∀ position, front.size ≤ position → ¬ casing.OccursAt piece (front ++ tail) position :=
  Literal.find?_eq_none_iff (l := casing.asLiteral piece) front

theorem LeastMatch.unique {r s : ByteRange} (hr : casing.LeastMatch text piece start r)
    (hs : casing.LeastMatch text piece start s) : r = s := by
  obtain ⟨rest, size, hrest, hsize, hstop⟩ := hr.matched
  obtain ⟨rest', size', hrest', hsize', hstop'⟩ := hs.matched
  have hle : r.start ≤ s.start := by
    refine Nat.le_of_not_lt fun hlt => ?_
    have hnone := hr.least _ _ hs.start_le hlt hrest'
    cases hnone.symm.trans hsize'
  have hge : s.start ≤ r.start := by
    refine Nat.le_of_not_lt fun hlt => ?_
    have hnone := hs.least _ _ hr.start_le hlt hrest
    cases hnone.symm.trans hsize
  have hstart := Nat.le_antisymm hle hge
  rw [← hstart] at hrest' hstop'
  cases hrest.symm.trans hrest'
  cases hsize.symm.trans hsize'
  obtain ⟨first, last⟩ := r
  obtain ⟨first', last'⟩ := s
  exact congr (congrArg ByteRange.mk hstart) (hstop.trans hstop'.symm)

theorem leastMatch_of_find? {tail : Text} {cut : Cut} (front : Text)
    (h : casing.find? piece tail = some cut) :
    casing.LeastMatch (front ++ tail) piece front.size (cut.range.shift front.size) := by
  have hfirst := Literal.firstFrom_of_find? (l := casing.asLiteral piece) front h
  obtain ⟨rfl, -⟩ := of_find? h
  refine ⟨hfirst.least_le, ?_, ?_⟩
  · have hwhole : front ++ cut.whole = front ++ cut.before ++ (cut.kept ++ cut.after) := by
      simp only [Cut.whole, List.append_assoc]
    refine ⟨cut.kept ++ cut.after, cut.kept.size, ?_, ?_, (Nat.add_assoc _ _ _).symm⟩
    · exact Text.slice?_to_end_iff.2 ⟨front ++ cut.before, hwhole, Text.size_append _ _⟩
    · exact prefixSize?_eq_some_iff.2
        ⟨cut.kept, cut.after, Text.splitAt?_append _ _, sameText_of_find? h⟩
  · intro position rest hle hlt hrest
    refine Option.eq_none_iff_forall_ne_some.2 fun size hsize => ?_
    have hearlier := hfirst.first position hle (occursAt_iff.2 ⟨rest, size, hrest, hsize⟩)
    exact absurd hlt (Nat.not_lt.2 hearlier)

theorem find?_eq_some_iff_leastMatch {front tail : Text} {r : ByteRange} :
    (casing.find? piece tail).map (fun cut => cut.range.shift front.size) = some r ↔
      casing.LeastMatch (front ++ tail) piece front.size r := by
  constructor
  · intro h
    obtain ⟨cut, hcut, rfl⟩ := Option.map_eq_some_iff.1 h
    exact leastMatch_of_find? front hcut
  · intro h
    obtain ⟨rest, size, hrest, hsize, -⟩ := h.matched
    have hoccurs := occursAt_iff.2 ⟨rest, size, hrest, hsize⟩
    cases hcut : casing.find? piece tail with
    | none => exact absurd hoccurs ((find?_eq_none_iff front).1 hcut _ h.start_le)
    | some cut => exact congrArg some ((leastMatch_of_find? front hcut).unique h)

open Attempt

/-- Go through positions of a tail that begins at `start`, up to the first at which the piece matches. -/
def scan (casing : Casing) (tail piece : Text) (start : Nat) : List Nat → Attempt (Option ByteRange)
  | [] => return none
  | position :: more => do
    let rest ← slice tail position tail.size
    match casing.prefixSize? rest piece with
    | some size => return some ⟨start + position, start + position + size⟩
    | none => casing.scan tail piece start more

/-- Search by comparing at every position. -/
def scanFrom? (casing : Casing) (text piece : Text) (start : Nat) : Attempt (Option ByteRange) :=
  match text.splitAt? start with
  | none => return none
  | some (_, tail) => casing.scan tail piece start tail.boundaries

/-- Search for the bytes of the piece, which end where these end. -/
def bytesFrom? (text piece : Text) (start : Nat) : Option ByteRange := do
  let (_, tail) ← text.splitAt? start
  let position ← Text.firstPosition? piece.bytes tail.bytes
  return ⟨start + position, start + position + piece.size⟩

theorem scan_cons (casing : Casing) (piece passed rest : Text) (start : Nat) (more : List Nat) :
    casing.scan (passed ++ rest) piece start (passed.size :: more) =
      match casing.stripFront? piece rest with
      | some (found, after) => .ok (some ((Cut.range ⟨[], found, after⟩).shift (start + passed.size)))
      | none => casing.scan (passed ++ rest) piece start more := by
  rw [scan, slice_to_end, ok_bind, prefixSize?_eq]
  cases casing.stripFront? piece rest with
  | none => rfl
  | some found =>
    simp only [Option.map_some, Cut.range, ByteRange.shift, Text.size_nil, Nat.zero_add, Nat.add_zero]
    rfl

theorem scan_boundaries (casing : Casing) (piece passed rest : Text) (start : Nat) :
    casing.scan (passed ++ rest) piece start (rest.boundaries.map (passed.size + ·)) =
      .ok ((casing.find? piece rest).map fun cut => cut.range.shift (start + passed.size)) := by
  induction rest generalizing passed with
  | nil =>
    have hpositions : (Text.boundaries []).map (passed.size + ·) = [passed.size] := rfl
    rw [hpositions, scan_cons, find?]
    cases casing.stripFront? piece [] <;> rfl
  | cons c cs ih =>
    have hrest := ih (passed ++ [c])
    rw [List.append_assoc, List.singleton_append, Text.size_append, Text.size_cons, Text.size_nil,
      Nat.add_zero] at hrest
    have hpositions : (Text.boundaries (c :: cs)).map (passed.size + ·) =
        passed.size :: (Text.boundaries cs).map (passed.size + c.utf8Size + ·) := by
      simp only [Text.boundaries_cons, List.map_cons, List.map_map, Nat.add_zero, Function.comp_def,
        Nat.add_assoc]
    have hpush (cut : Cut) : (cut.push c).range.shift (start + passed.size) =
        cut.range.shift (start + (passed.size + c.utf8Size)) := by
      simp only [Cut.push, Cut.range, ByteRange.shift, Text.size_cons, Nat.add_assoc]
    rw [hpositions, scan_cons, find?, hrest]
    cases casing.stripFront? piece (c :: cs) with
    | some found => rfl
    | none => simp only [Option.map_map, Function.comp_def, hpush]

theorem scanFrom?_eq (casing : Casing) (text piece : Text) (start : Nat) :
    casing.scanFrom? text piece start = .ok (casing.findFrom? text piece start) := by
  unfold scanFrom?
  cases hsplit : text.splitAt? start with
  | none =>
    rw [findFrom?, hsplit]
    rfl
  | some pieces =>
    obtain ⟨front, tail⟩ := pieces
    obtain ⟨rfl, rfl⟩ := Text.splitAt?_eq_some_iff.1 hsplit
    have hscan := scan_boundaries casing piece [] tail front.size
    simp only [Text.size_nil, Nat.zero_add, List.map_id', List.nil_append, Nat.add_zero] at hscan
    rw [findFrom?_append]
    exact hscan

theorem bytesFrom?_eq (text piece : Text) (start : Nat) :
    bytesFrom? text piece start = sensitive.findFrom? text piece start := by
  unfold bytesFrom? findFrom?
  cases text.splitAt? start with
  | none => rfl
  | some pieces =>
    simp only [Option.bind_eq_bind, Option.bind_some, Text.firstPosition?_bytes]
    cases hcut : sensitive.find? piece pieces.2 with
    | none => rfl
    | some cut =>
      have hkept : cut.kept = piece := sameText_sensitive_iff.1 (sameText_of_find? hcut)
      simp only [Option.map_some, Option.bind_some, Cut.range, ByteRange.shift, hkept, Nat.add_assoc]

/-- The way that is taken: by bytes if case matters, and otherwise by positions. -/
def searchFrom? (casing : Casing) (text piece : Text) (start : Nat) : Attempt (Option ByteRange) :=
  match casing with
  | .sensitive => return bytesFrom? text piece start
  | .insensitive => insensitive.scanFrom? text piece start

/-- Beyond the end and inside a character nothing is found. From a position of the text on, what is found is the least
position at which the piece matches what follows, and the end of the match. The search takes the one way
where case matters and the other way where it does not, yet both ways lead to the same, on the empty piece
and on characters of any number of bytes; no slice on the way is out of its bounds. -/
theorem findFrom?_least (casing : Casing) (text piece : Text) (start : Nat) :
    (start ∉ text.boundaries → casing.findFrom? text piece start = none) ∧
    (start ∈ text.boundaries → ∀ r,
      casing.findFrom? text piece start = some r ↔ casing.LeastMatch text piece start r) ∧
    casing.searchFrom? text piece start = .ok (casing.findFrom? text piece start) ∧
    casing.scanFrom? text piece start = .ok (casing.findFrom? text piece start) ∧
    bytesFrom? text piece start = sensitive.findFrom? text piece start := by
  refine ⟨?_, ?_, ?_, scanFrom?_eq casing text piece start, bytesFrom?_eq text piece start⟩
  · intro houtside
    rw [findFrom?, Text.splitAt?_eq_none_iff.2 houtside]
    rfl
  · intro hposition r
    obtain ⟨front, tail, rfl, rfl⟩ := Text.mem_boundaries_iff.1 hposition
    rw [findFrom?_append]
    exact find?_eq_some_iff_leastMatch
  · cases casing with
    | sensitive => exact congrArg Except.ok (bytesFrom?_eq text piece start)
    | insensitive => exact scanFrom?_eq insensitive text piece start

example : insensitive.findFrom? "h\u00E9llo w\u00F6rld".toList "W\u00F6".toList 0 = some ⟨7, 10⟩ := by
  decide +kernel

end Casing

end Stencil
