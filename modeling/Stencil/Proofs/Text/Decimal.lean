import Stencil.Proofs.Text.Blank
import Stencil.Text.Decimal

/-! # Numbers are read back

A number written in decimal is read back, with its sign and within the bounds of its width. -/
namespace Stencil.Decimal

theorem ofDigits_ofNat (n : Nat) : ofDigits (ofNat n) = n :=
  Nat.ofDigitChars_ten_toDigits

theorem isDigit_of_mem_ofNat {n : Nat} {c : Char} (h : c ∈ ofNat n) : c.isDigit = true :=
  Nat.isDigit_of_mem_toDigits (by decide) (by decide) h

theorem isAlphanum_of_mem_ofNat {n : Nat} {c : Char} (h : c ∈ ofNat n) : c.isAlphanum = true := by
  rw [Char.isAlphanum, isDigit_of_mem_ofNat h, Bool.or_true]

theorem eq_or_isAlphanum_of_mem_ofInt {i : Int} {c : Char} (h : c ∈ ofInt i) :
    c = '-' ∨ c.isAlphanum = true := by
  cases i with
  | ofNat n => exact .inr (isAlphanum_of_mem_ofNat h)
  | negSucc n =>
    rcases List.mem_cons.1 h with rfl | h
    · exact .inl rfl
    · exact .inr (isAlphanum_of_mem_ofNat h)

theorem isSpecial_of_mem_ofInt {i : Int} {c : Char} (h : c ∈ ofInt i) : isSpecial c = false := by
  rcases eq_or_isAlphanum_of_mem_ofInt h with rfl | h
  · rfl
  · exact isSpecial_of_isAlphanum h

theorem isBlank_of_mem_ofInt {i : Int} {c : Char} (h : c ∈ ofInt i) : isBlank c = false := by
  rcases eq_or_isAlphanum_of_mem_ofInt h with rfl | h
  · decide
  · exact isBlank_of_isAlphanum h

theorem ofNat_ne_nil (n : Nat) : ofNat n ≠ [] := Nat.toDigits_ne_nil

theorem ofInt_ne_nil (i : Int) : ofInt i ≠ [] := by
  cases i with
  | ofNat n => exact ofNat_ne_nil n
  | negSucc n => exact List.cons_ne_nil _ _

theorem unsigned?_ofNat (n : Nat) : unsigned? (ofNat n) = some n := by
  have hne : (ofNat n).isEmpty = false := List.isEmpty_eq_false_iff.2 (ofNat_ne_nil n)
  have hall : (ofNat n).all Char.isDigit = true := List.all_eq_true.2 fun c => isDigit_of_mem_ofNat
  rw [unsigned?, hne, hall, ofDigits_ofNat]
  rfl

theorem signed?_ofNat (n : Nat) : signed? (ofNat n) = some n := by
  have hu := unsigned?_ofNat n
  cases ht : ofNat n with
  | nil => exact absurd ht (ofNat_ne_nil n)
  | cons c cs =>
    have hc : c.isDigit = true := by
      refine isDigit_of_mem_ofNat (n := n) ?_
      rw [ht]
      exact List.mem_cons_self
    rw [ht] at hu
    rw [signed?]
    · rw [hu]
      rfl
    · rintro rest ⟨rfl, -⟩
      cases hc
    · rintro rest ⟨rfl, -⟩
      cases hc

theorem signed?_ofInt (i : Int) : signed? (ofInt i) = some i := by
  cases i with
  | ofNat n => exact signed?_ofNat n
  | negSucc n =>
    rw [ofInt, signed?, unsigned?_ofNat]
    rfl

theorem int32?_ofInt (n : Int32) : int32? (ofInt n.toInt) = some n := by
  have hlow : Int32.minValue.toInt ≤ n.toInt := n.minValue_le_toInt
  have hhigh : n.toInt ≤ Int32.maxValue.toInt := n.toInt_le
  rw [int32?, signed?_ofInt]
  simp only [Option.bind_eq_bind, Option.bind_some, if_pos (And.intro hlow hhigh), Int32.ofInt_toInt]

theorem int64?_ofInt (n : Int64) : int64? (ofInt n.toInt) = some n := by
  have hlow : Int64.minValue.toInt ≤ n.toInt := n.minValue_le_toInt
  have hhigh : n.toInt ≤ Int64.maxValue.toInt := n.toInt_le
  rw [int64?, signed?_ofInt]
  simp only [Option.bind_eq_bind, Option.bind_some, if_pos (And.intro hlow hhigh), Int64.ofInt_toInt]

end Stencil.Decimal
