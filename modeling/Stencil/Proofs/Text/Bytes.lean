import Mathlib.Data.List.Infix
import Stencil.Proofs.Text.Occurrences

/-! # Searching the bytes of a text

A byte that can begin a character stands only where one begins. So the bytes of a piece stand among those of
a text exactly where the piece stands in the text, and the first position that a search for the bytes
gives is that of the first occurrence (`Text.firstPosition?_bytes`). -/
namespace Stencil.Text

def bytes (text : Text) : List UInt8 := text.flatMap String.utf8EncodeChar

/-- The first position at which a piece stands among some bytes. -/
def firstPosition? (piece bytes : List UInt8) : Option Nat :=
  bytes.tails.findIdx? fun tail => piece.isPrefixOf tail

theorem firstPosition?_eq_some_iff {piece bytes : List UInt8} {n : Nat} :
    firstPosition? piece bytes = some n ↔
      n ≤ bytes.length ∧ piece <+: bytes.drop n ∧ ∀ m < n, ¬ piece <+: bytes.drop m := by
  simp only [firstPosition?, List.findIdx?_eq_some_iff_getElem, List.getElem_tails,
    List.length_tails, List.isPrefixOf_iff_prefix, Nat.lt_succ_iff, exists_prop]

@[simp] theorem bytes_nil : bytes [] = [] := rfl

@[simp] theorem bytes_cons (c : Char) (cs : Text) :
    bytes (c :: cs) = String.utf8EncodeChar c ++ cs.bytes := List.flatMap_cons

@[simp] theorem bytes_append (a b : Text) : bytes (a ++ b) = a.bytes ++ b.bytes := List.flatMap_append

@[simp] theorem length_bytes (text : Text) : text.bytes.length = text.size := by
  induction text with
  | nil => rfl
  | cons c cs ih => rw [bytes_cons, List.length_append, ih, String.length_utf8EncodeChar, size_cons]

theorem isPrefix_of_bytes {piece text : Text} (h : piece.bytes <+: text.bytes) : piece <+: text := by
  obtain ⟨rest, hrest⟩ := h
  have hencoded := congrArg List.toByteArray hrest
  rw [List.toByteArray_append] at hencoded
  exact List.isPrefix_of_utf8Encode_append_eq_utf8Encode rest.toByteArray hencoded

/-- Inside a character no other one begins. -/
theorem not_isPrefix_inside {p c : Char} {n : Nat} (positive : 0 < n) (inside : n < c.utf8Size)
    (ps rest : Text) : ¬ bytes (p :: ps) <+: (String.utf8EncodeChar c).drop n ++ rest.bytes := by
  intro hprefix
  rw [bytes_cons] at hprefix
  have hn : n < (String.utf8EncodeChar c).length := by rwa [String.length_utf8EncodeChar]
  have hfirst := UInt8.isUTF8FirstByte_getElem_zero_utf8EncodeChar (c := p)
  have hp : 0 < (String.utf8EncodeChar p).length := by
    rw [String.length_utf8EncodeChar]
    exact p.utf8Size_pos
  have hbyte : (String.utf8EncodeChar p)[0] = (String.utf8EncodeChar c)[n] := by
    have hget := ((List.prefix_append _ _).trans hprefix).getElem hp
    rw [hget, List.getElem_append_left (by rw [List.length_drop]; omega), List.getElem_drop]
    rfl
  rw [hbyte, UInt8.isUTF8FirstByte_getElem_utf8EncodeChar] at hfirst
  omega

theorem exists_of_isPrefix_drop {piece text : Text} {n : Nat}
    (h : piece.bytes <+: text.bytes.drop n) :
    ∃ before after, text = before ++ (piece ++ after) ∧ before.size ≤ n := by
  cases piece with
  | nil => exact ⟨[], text, rfl, Nat.zero_le n⟩
  | cons p ps =>
    induction text generalizing n with
    | nil =>
      have hnil : bytes (p :: ps) = [] := by
        rwa [bytes_nil, List.drop_nil, List.prefix_nil] at h
      have hsize := size_pos (List.cons_ne_nil p ps)
      rw [← length_bytes, hnil] at hsize
      exact absurd hsize (Nat.lt_irrefl 0)
    | cons c cs ih =>
      rcases Nat.eq_zero_or_pos n with rfl | hpositive
      · obtain ⟨after, hafter⟩ := isPrefix_of_bytes h
        exact ⟨[], after, hafter.symm, Nat.le_refl 0⟩
      · rw [bytes_cons c, List.drop_append, String.length_utf8EncodeChar] at h
        rcases Nat.lt_or_ge n c.utf8Size with hinside | hbehind
        · rw [Nat.sub_eq_zero_of_le (Nat.le_of_lt hinside), List.drop_zero] at h
          exact absurd h (not_isPrefix_inside hpositive hinside ps cs)
        · have hpassed : (String.utf8EncodeChar c).drop n = [] :=
            List.drop_of_length_le (by rwa [String.length_utf8EncodeChar])
          rw [hpassed, List.nil_append] at h
          obtain ⟨before, after, rfl, hsize⟩ := ih h
          exact ⟨c :: before, after, rfl, by rw [size_cons]; omega⟩

theorem isPrefix_drop_bytes (before piece after : Text) :
    piece.bytes <+: (bytes (before ++ (piece ++ after))).drop before.size := by
  rw [bytes_append, ← length_bytes, List.drop_left, bytes_append]
  exact List.prefix_append _ _

/-- The first position of the bytes of a piece is where the piece first occurs. -/
theorem firstPosition?_bytes (piece text : Text) :
    firstPosition? piece.bytes text.bytes =
      (Casing.sensitive.find? piece text).map fun cut => cut.before.size := by
  ext n
  rw [Option.map_eq_some_iff, ← Casing.firstAt_iff_find?, firstPosition?_eq_some_iff]
  constructor
  · rintro ⟨-, hprefix, hleast⟩
    obtain ⟨before, after, rfl, hle⟩ := exists_of_isPrefix_drop hprefix
    have hearlier {front found rest : Text} (htext : before ++ (piece ++ after) = front ++ (found ++ rest))
        (hsame : Casing.sensitive.sameText found piece = true) : n ≤ front.size := by
      rw [Casing.sameText_sensitive_iff] at hsame
      subst hsame
      have hstands := isPrefix_drop_bytes front found rest
      rw [← htext] at hstands
      exact Nat.le_of_not_lt fun hlt => hleast _ hlt hstands
    have hself := Casing.sameText_refl .sensitive piece
    exact ⟨⟨before, piece, after, rfl, hself, Nat.le_antisymm hle (hearlier rfl hself)⟩,
      fun _ _ _ => hearlier⟩
  · rintro ⟨⟨before, found, after, rfl, hsame, rfl⟩, hfirst⟩
    rw [Casing.sameText_sensitive_iff] at hsame
    subst hsame
    refine ⟨?_, isPrefix_drop_bytes before found after, ?_⟩
    · rw [length_bytes, size_append]
      exact Nat.le_add_right _ _
    · intro m hm hprefix
      obtain ⟨front, rest, htext, hle⟩ := exists_of_isPrefix_drop hprefix
      have hge := hfirst front found rest htext (Casing.sameText_refl _ _)
      omega

end Stencil.Text
