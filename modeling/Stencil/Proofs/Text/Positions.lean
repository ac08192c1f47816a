import Stencil.Text.Basic

/-! # Byte positions are cuts

Every reading of a text by byte positions finds exactly the cuts of its list of characters: a
position that is reached has a front of that size before it, and a front's size is reached. -/
namespace Stencil

theorem utf8Size_ne_zero (c : Char) : c.utf8Size ≠ 0 := by
  have hc := c.utf8Size_pos
  omega

namespace Text

@[simp] theorem size_nil : size [] = 0 := rfl

@[simp] theorem size_cons (c : Char) (cs : Text) : size (c :: cs) = c.utf8Size + size cs := rfl

@[simp] theorem size_append (a b : Text) : size (a ++ b) = size a + size b := by
  induction a with
  | nil => simp
  | cons c cs ih =>
    simp only [List.cons_append, size_cons, ih]
    omega

theorem size_pos {text : Text} (h : text ≠ []) : 0 < text.size := by
  cases text with
  | nil => exact absurd rfl h
  | cons c cs => exact Nat.add_pos_left c.utf8Size_pos _

theorem size_le_of_isPrefix {a b : Text} (h : a <+: b) : a.size ≤ b.size := by
  obtain ⟨rest, rfl⟩ := h
  rw [size_append]
  exact Nat.le_add_right _ _

theorem eq_of_isPrefix_of_size_le {a b : Text} (h : a <+: b) (hs : b.size ≤ a.size) : a = b := by
  obtain ⟨rest, rfl⟩ := h
  cases rest with
  | nil => exact (List.append_nil a).symm
  | cons c cs =>
    have hc := utf8Size_ne_zero c
    simp only [size_append, size_cons] at hs
    omega

theorem eq_of_append_eq {a b rest more : Text} (same : a ++ rest = b ++ more)
    (size : a.size = b.size) : a = b ∧ rest = more := by
  have hprefix : a = b := by
    rcases List.append_eq_append_iff.1 same with ⟨piece, rfl, -⟩ | ⟨piece, rfl, -⟩
    · exact eq_of_isPrefix_of_size_le ⟨piece, rfl⟩ (Nat.le_of_eq size.symm)
    · exact (eq_of_isPrefix_of_size_le ⟨piece, rfl⟩ (Nat.le_of_eq size)).symm
  subst hprefix
  exact ⟨rfl, List.append_cancel_left same⟩

theorem splitAt?_zero (text : Text) : text.splitAt? 0 = some ([], text) := by
  cases text <;> rfl

theorem splitAt?_cons (c : Char) (cs : Text) {n : Nat} (h : n ≠ 0) :
    splitAt? (c :: cs) n =
      if c.utf8Size ≤ n then (splitAt? cs (n - c.utf8Size)).map fun (a, b) => (c :: a, b)
      else none := by
  cases n with
  | zero => exact absurd rfl h
  | succ n => rfl

@[simp] theorem splitAt?_append (a b : Text) : splitAt? (a ++ b) a.size = some (a, b) := by
  induction a with
  | nil => exact splitAt?_zero b
  | cons c cs ih =>
    have hc := utf8Size_ne_zero c
    rw [List.cons_append, splitAt?_cons c _ (by simp only [size_cons]; omega), size_cons,
      if_pos (by omega), Nat.add_sub_cancel_left, ih]
    rfl

theorem splitAt?_eq_some_iff {text a b : Text} {n : Nat} :
    text.splitAt? n = some (a, b) ↔ text = a ++ b ∧ a.size = n := by
  constructor
  · intro h
    induction text generalizing n a with
    | nil =>
      cases n with
      | zero => cases h; exact ⟨rfl, rfl⟩
      | succ n => cases h
    | cons c cs ih =>
      by_cases hn : n = 0
      · subst hn
        rw [splitAt?_zero] at h
        cases h
        exact ⟨rfl, rfl⟩
      · rw [splitAt?_cons c cs hn] at h
        split at h
        · obtain ⟨⟨x, y⟩, hx, he⟩ := Option.map_eq_some_iff.1 h
          cases he
          obtain ⟨rfl, hs⟩ := ih hx
          exact ⟨rfl, by simp only [size_cons]; omega⟩
        · cases h
  · rintro ⟨rfl, rfl⟩
    exact splitAt?_append a b

@[simp] theorem splitBytes_append (a b : Text) : splitBytes (a ++ b) a.size = (a, b) := by
  induction a with
  | nil =>
    cases b with
    | nil => rfl
    | cons c cs =>
      have hc := utf8Size_ne_zero c
      simp only [List.nil_append, size_nil, splitBytes]
      rw [if_neg (by omega)]
  | cons c cs ih =>
    simp only [List.cons_append, size_cons, splitBytes]
    rw [if_pos (by omega), Nat.add_sub_cancel_left, ih]

theorem splitLength?_eq_some_iff {text a b : Text} {n : Nat} :
    text.splitLength? n = some (a, b) ↔ text = a ++ b ∧ a.length = n := by
  constructor
  · intro h
    induction text generalizing n a with
    | nil =>
      cases n with
      | zero => cases h; exact ⟨rfl, rfl⟩
      | succ n => cases h
    | cons c cs ih =>
      cases n with
      | zero => cases h; exact ⟨rfl, rfl⟩
      | succ n =>
        obtain ⟨⟨x, y⟩, hx, he⟩ := Option.map_eq_some_iff.1 h
        cases he
        obtain ⟨rfl, hl⟩ := ih hx
        exact ⟨rfl, by simp only [List.length_cons]; omega⟩
  · rintro ⟨rfl, rfl⟩
    induction a with
    | nil => cases b <;> rfl
    | cons c cs ih => simp only [List.cons_append, List.length_cons, splitLength?, ih, Option.map_some]

theorem splitLength?_of_le {text : Text} {n : Nat} (h : n ≤ text.length) :
    text.splitLength? n = some (text.take n, text.drop n) :=
  splitLength?_eq_some_iff.2 ⟨(List.take_append_drop n text).symm, List.length_take_of_le h⟩

theorem splitLength?_eq_none_iff {text : Text} {n : Nat} :
    text.splitLength? n = none ↔ text.length < n := by
  constructor
  · intro hnone
    rcases Nat.lt_or_ge text.length n with hshort | hlong
    · exact hshort
    · rw [splitLength?_of_le hlong] at hnone
      cases hnone
  · intro hshort
    cases hsplit : text.splitLength? n with
    | none => rfl
    | some s =>
      obtain ⟨rfl, hlength⟩ := splitLength?_eq_some_iff.1 hsplit
      rw [List.length_append] at hshort
      omega

theorem exists_front {text : Text} {n : Nat} (h : n ≤ text.length) :
    ∃ front rest : Text, text = front ++ rest ∧ front.length = n :=
  ⟨text.take n, text.drop n, (List.take_append_drop n text).symm, List.length_take_of_le h⟩

theorem advance?_append (a b : Text) (count : Nat) :
    advance? (a ++ b) a.size count = (b.splitLength? count).map fun (x, _) => a.size + x.size := by
  simp only [advance?, splitAt?_append, Option.bind_eq_bind, Option.bind_some]
  cases b.splitLength? count <;> rfl

end Text

namespace ByteRange

@[simp] theorem length_shift (r : ByteRange) (base : Nat) : (r.shift base).length = r.length := by
  simp only [length, shift]
  omega

end ByteRange

namespace Cut

@[simp] theorem length_range (cut : Cut) : cut.range.length = cut.kept.size := by
  simp only [range, ByteRange.length]
  omega

end Cut

namespace Text

/-- A range is a slice of a text exactly if both ends are positions of it, in order. -/
theorem cut?_eq_some_iff {text : Text} {r : ByteRange} {cut : Cut} :
    text.cut? r = some cut ↔ text = cut.whole ∧ r = cut.range := by
  rcases r with ⟨start, stop⟩
  rcases cut with ⟨before, kept, after⟩
  simp only [cut?, Cut.whole, Cut.range, ByteRange.length, ByteRange.mk.injEq]
  constructor
  · intro h
    split at h
    case isTrue hle =>
      simp only [Option.bind_eq_bind, Option.bind_eq_some_iff, Option.pure_def, Option.some.injEq,
        Prod.exists, Cut.mk.injEq] at h
      obtain ⟨x, tail, hx, y, z, hy, rfl, rfl, rfl⟩ := h
      obtain ⟨rfl, rfl⟩ := splitAt?_eq_some_iff.1 hx
      obtain ⟨rfl, hs⟩ := splitAt?_eq_some_iff.1 hy
      exact ⟨(List.append_assoc ..).symm, rfl, by omega⟩
    case isFalse => cases h
  · rintro ⟨rfl, rfl, rfl⟩
    rw [if_pos (by omega), List.append_assoc, splitAt?_append, Nat.add_sub_cancel_left]
    simp

theorem cut?_range (cut : Cut) : cut.whole.cut? cut.range = some cut :=
  cut?_eq_some_iff.2 ⟨rfl, rfl⟩

/-- What stands in a range; there is nothing if an end is no position of the text. -/
def slice? (text : Text) (r : ByteRange) : Option Text := (text.cut? r).map Cut.kept

theorem slice?_append (a b c : Text) :
    slice? (a ++ (b ++ c)) ⟨a.size, a.size + b.size⟩ = some b := by
  have h := cut?_range ⟨a, b, c⟩
  rw [Cut.whole, List.append_assoc] at h
  rw [slice?, show (⟨a.size, a.size + b.size⟩ : ByteRange) = Cut.range ⟨a, b, c⟩ from rfl, h]
  rfl

theorem slice?_to_end_iff {text rest : Text} {n : Nat} :
    text.slice? ⟨n, text.size⟩ = some rest ↔ ∃ front, text = front ++ rest ∧ front.size = n := by
  constructor
  · intro h
    obtain ⟨⟨before, kept, after⟩, hcut, rfl⟩ := Option.map_eq_some_iff.1 h
    obtain ⟨rfl, hrange⟩ := cut?_eq_some_iff.1 hcut
    simp only [Cut.range, Cut.whole, size_append, ByteRange.mk.injEq] at hrange
    cases after with
    | nil => exact ⟨before, by rw [Cut.whole, List.append_nil], hrange.1.symm⟩
    | cons c cs =>
      have hpos := size_pos (List.cons_ne_nil c cs)
      omega
  · rintro ⟨front, rfl, rfl⟩
    have hslice := slice?_append front rest []
    rwa [List.append_nil, ← size_append] at hslice

end Text

end Stencil
