import Stencil.Proofs.Text.Occurrences

/-! # One relation of texts

Texts are compared on a walk over their characters, each of which comes with its byte position. A walk
from the front yields where it stops, a walk from the back where what has matched begins. Both find the
one position at which the text is cut into something that is the same as the piece and a rest, and to be
the same is an equivalence in either case mode (`Casing.comparisons_agree`). -/
namespace Stencil

namespace Text

/-- The characters of a text, each with the position at which it begins. -/
def indexedFrom : Nat → Text → List (Nat × Char)
  | _, [] => []
  | position, c :: cs => (position, c) :: indexedFrom (position + c.utf8Size) cs

def indexed (text : Text) : List (Nat × Char) := indexedFrom 0 text

theorem indexedFrom_append (position : Nat) (a b : Text) :
    indexedFrom position (a ++ b) = indexedFrom position a ++ indexedFrom (position + a.size) b := by
  induction a generalizing position with
  | nil => rfl
  | cons c cs ih => simp only [List.cons_append, indexedFrom, ih, size_cons, Nat.add_assoc]

theorem reverse_indexed_concat (front : Text) (c : Char) :
    (indexed (front ++ [c])).reverse = (front.size, c) :: (indexed front).reverse := by
  rw [indexed, indexedFrom_append, List.reverse_append, Nat.zero_add]
  rfl

@[simp] theorem size_reverse (text : Text) : size text.reverse = text.size := by
  induction text with
  | nil => rfl
  | cons c cs ih =>
    rw [List.reverse_cons, size_append, ih, size_cons, size_cons, size_nil]
    omega

theorem map_size_eq_some_iff {text : Text} {pieces : Option (Text × Text)} {P : Text → Text → Prop}
    (h : ∀ front rest, pieces = some (front, rest) ↔ text = front ++ rest ∧ P front rest) {n : Nat} :
    pieces.map (fun (front, _) => front.size) = some n ↔
      ∃ front rest, text.splitAt? n = some (front, rest) ∧ P front rest := by
  rw [Option.map_eq_some_iff]
  constructor
  · rintro ⟨⟨front, rest⟩, hpieces, rfl⟩
    obtain ⟨rfl, hp⟩ := (h front rest).1 hpieces
    exact ⟨front, rest, splitAt?_append front rest, hp⟩
  · rintro ⟨front, rest, hsplit, hp⟩
    obtain ⟨rfl, rfl⟩ := splitAt?_eq_some_iff.1 hsplit
    exact ⟨(front, rest), (h front rest).2 ⟨rfl, hp⟩, rfl⟩

end Text

namespace Casing

/-- Equal as they stand or, where the case is ignored, equal once they are folded. -/
def equates (casing : Casing) (a b : Char) : Bool :=
  a == b || (casing.isIgnored && fold a == fold b)

theorem equates_eq (casing : Casing) (a b : Char) : casing.equates a b = casing.sameChar a b := by
  cases casing with
  | sensitive => simp only [equates, isIgnored, Bool.false_and, Bool.or_false, sameChar, key, id]
  | insensitive =>
    rw [Bool.eq_iff_iff]
    simp only [equates, isIgnored, Bool.true_and, Bool.or_eq_true, beq_iff_eq, sameChar, key]
    constructor
    · rintro (rfl | hfold)
      · rfl
      · exact hfold
    · exact .inr

/-- Where a walk stops that has passed the piece; `stop` is the end of the text. -/
def frontStop? (casing : Casing) (stop : Nat) : (piece : Text) → List (Nat × Char) → Option Nat
  | [], [] => some stop
  | [], (position, _) :: _ => some position
  | _ :: _, [] => none
  | p :: ps, (_, c) :: walk => if casing.equates c p then casing.frontStop? stop ps walk else none

/-- How many bytes of a text match the piece that it begins with. -/
def prefixSize? (casing : Casing) (text piece : Text) : Option Nat :=
  casing.frontStop? text.size piece text.indexed

theorem frontStop?_indexedFrom (casing : Casing) (position : Nat) (text piece : Text) :
    casing.frontStop? (position + text.size) piece (Text.indexedFrom position text) =
      (casing.stripFront? piece text).map fun (front, _) => position + front.size := by
  induction piece generalizing position text with
  | nil => cases text <;> rfl
  | cons p ps ih =>
    cases text with
    | nil => rfl
    | cons c cs =>
      have hrest := ih (position + c.utf8Size) cs
      simp only [Text.indexedFrom, frontStop?, stripFront?, equates_eq]
      split
      · rw [Text.size_cons, ← Nat.add_assoc, hrest, Option.map_map]
        simp only [Function.comp_def, Text.size_cons, Nat.add_assoc]
      · rfl

theorem prefixSize?_eq (casing : Casing) (text piece : Text) :
    casing.prefixSize? text piece =
      (casing.stripFront? piece text).map fun (front, _) => front.size := by
  have hwalk := frontStop?_indexedFrom casing 0 text piece
  simp only [Nat.zero_add] at hwalk
  exact hwalk

/-- Where a walk from the back has come to when it has passed the piece; so far it has come to `start`. -/
def backStart? (casing : Casing) : (piece : Text) → (start : Nat) → List (Nat × Char) → Option Nat
  | [], start, _ => some start
  | _ :: _, _, [] => none
  | p :: ps, _, (position, c) :: walk =>
    if casing.equates c p then casing.backStart? ps position walk else none

/-- Where what matches the piece begins that a text ends with. -/
def suffixStart? (casing : Casing) (text piece : Text) : Option Nat :=
  casing.backStart? piece.reverse text.size text.indexed.reverse

theorem backStart?_indexed (casing : Casing) (piece text : Text) :
    casing.backStart? piece text.size text.indexed.reverse =
      (casing.stripFront? piece text.reverse).map fun (_, rest) => rest.size := by
  induction piece generalizing text with
  | nil => simp only [backStart?, stripFront?, Option.map_some, Text.size_reverse]
  | cons p ps ih =>
    rcases List.eq_nil_or_concat text with rfl | ⟨front, c, rfl⟩
    · rfl
    · simp only [List.concat_eq_append, Text.reverse_indexed_concat, backStart?, equates_eq,
        List.reverse_append, List.reverse_singleton, List.singleton_append, stripFront?]
      split
      · rw [ih, Option.map_map]
        rfl
      · rfl

theorem suffixStart?_eq (casing : Casing) (text piece : Text) :
    casing.suffixStart? text piece =
      (casing.stripBack? piece text).map fun (front, _) => front.size := by
  rw [suffixStart?, backStart?_indexed, stripBack?, Option.map_map]
  simp only [Function.comp_def, Text.size_reverse]

variable {casing : Casing} {text piece : Text}

theorem prefixSize?_eq_some_iff {n : Nat} :
    casing.prefixSize? text piece = some n ↔
      ∃ front rest, text.splitAt? n = some (front, rest) ∧ casing.sameText front piece = true := by
  rw [prefixSize?_eq]
  exact Text.map_size_eq_some_iff fun _ _ => stripFront?_eq_some_iff

theorem suffixStart?_eq_some_iff {n : Nat} :
    casing.suffixStart? text piece = some n ↔
      ∃ front rest, text.splitAt? n = some (front, rest) ∧ casing.sameText rest piece = true := by
  rw [suffixStart?_eq]
  exact Text.map_size_eq_some_iff fun _ _ => stripBack?_eq_some_iff

/-- Texts are the same if the walk over one of them passes the other and stops at the end. -/
def Same (casing : Casing) (a b : Text) : Prop := casing.prefixSize? a b = some a.size

theorem same_iff {a b : Text} : casing.Same a b ↔ casing.sameText a b = true := by
  rw [Same, prefixSize?_eq_some_iff]
  constructor
  · rintro ⟨front, rest, hsplit, hsame⟩
    obtain ⟨hwhole, hsize⟩ := Text.splitAt?_eq_some_iff.1 hsplit
    have hfront := Text.eq_of_isPrefix_of_size_le ⟨rest, hwhole.symm⟩ (Nat.le_of_eq hsize.symm)
    exact hfront ▸ hsame
  · intro hsame
    have hsplit : a.splitAt? a.size = some (a, []) :=
      Text.splitAt?_eq_some_iff.2 ⟨(List.append_nil a).symm, rfl⟩
    exact ⟨a, [], hsplit, hsame⟩

theorem same_equivalence (casing : Casing) : Equivalence casing.Same where
  refl a := same_iff.2 (sameText_refl casing a)
  symm h := same_iff.2 (sameText_symm (same_iff.1 h))
  trans h k := by
    rw [same_iff, sameText_iff] at h k ⊢
    exact h.trans k

theorem isSome_findFrom?_zero_iff :
    (casing.findFrom? text piece 0).isSome = true ↔
      ∃ before found after, text = before ++ found ++ after ∧ casing.sameText found piece = true := by
  have hfind := findFrom?_append casing [] text piece
  rw [List.nil_append, Text.size_nil] at hfind
  rw [hfind, Option.isSome_map]
  constructor
  · intro hsome
    obtain ⟨cut, hcut⟩ := Option.isSome_iff_exists.1 hsome
    exact ⟨cut.before, cut.kept, cut.after, (of_find? hcut).1, sameText_of_find? hcut⟩
  · rintro ⟨before, found, after, rfl, hsame⟩
    obtain ⟨cut, hcut, -⟩ := find?_of_occurrence before after hsame
    rw [List.append_assoc, hcut]
    rfl

/-- In either case mode to be the same is an equivalence of texts, and all comparisons are of it. A walk from
the front stops at the one position behind what is the same as the piece, a walk from the back at the one
in front of it, and a search meets with something exactly if the text has such a part anywhere. What is
stripped from a text by characters ends at these positions. -/
theorem comparisons_agree (casing : Casing) :
    Equivalence casing.Same ∧ (∀ a b, casing.sameText a b = true ↔ casing.Same a b) ∧
    ∀ text piece : Text,
      (∀ stop, casing.prefixSize? text piece = some stop ↔
        ∃ front rest, text.splitAt? stop = some (front, rest) ∧ casing.Same front piece) ∧
      (∀ start, casing.suffixStart? text piece = some start ↔
        ∃ front rest, text.splitAt? start = some (front, rest) ∧ casing.Same rest piece) ∧
      ((casing.findFrom? text piece 0).isSome = true ↔
        ∃ before found after, text = before ++ found ++ after ∧ casing.Same found piece) ∧
      casing.prefixSize? text piece =
        (casing.stripFront? piece text).map (fun (front, _) => front.size) ∧
      casing.suffixStart? text piece =
        (casing.stripBack? piece text).map (fun (front, _) => front.size) := by
  refine ⟨same_equivalence casing, fun a b => same_iff.symm, fun text piece => ?_⟩
  simp only [same_iff]
  exact ⟨fun _ => prefixSize?_eq_some_iff, fun _ => suffixStart?_eq_some_iff,
    isSome_findFrom?_zero_iff, prefixSize?_eq casing text piece, suffixStart?_eq casing text piece⟩

/-- What matches may have more bytes than the piece. -/
example : insensitive.prefixSize? "\u212Aelvin".toList "KEL".toList = some 5 := by decide +kernel

end Casing

end Stencil
