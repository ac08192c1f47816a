import Stencil.Proofs.Example.Conditions
import Stencil.Proofs.Text.Decimal

/-! # Examples of numbers

The example of a number is meant to meet the condition on numbers, but the two do not read the arguments
in the same way: a lower bound that is absent is zero for the example and the least number for the
condition, and the example reads and counts in 64 bits for either width. Where its bounds are in order
the example always meets the condition. Where they are not, it misses in three ways (`Width.Misses`),
and in no other (`Width.bend_accepted_iff`). Its one step past the window leaves the 64 bits only where
the window is all there is. -/
namespace Stencil

variable {π : Type}

inductive Width where
  | bits32
  | bits64
  deriving DecidableEq, Repr

namespace Width

def function : Width → Function
  | bits32 => .number32
  | bits64 => .number64

def least : Width → Int
  | bits32 => Int32.minValue.toInt
  | bits64 => Int64.minValue.toInt

def greatest : Width → Int
  | bits32 => Int32.maxValue.toInt
  | bits64 => Int64.maxValue.toInt

def Holds (w : Width) (n : Int) : Prop := w.least ≤ n ∧ n ≤ w.greatest

def read? (w : Width) (text : Text) : Option Int :=
  match w with
  | bits32 => (Decimal.int32? text).map Int32.toInt
  | bits64 => (Decimal.int64? text).map Int64.toInt

def argument? (w : Width) (group : Group π) (slot : Nat) : Option Int :=
  match w with
  | bits32 => (group.int32? slot).map Int32.toInt
  | bits64 => (group.int64? slot).map Int64.toInt

/-- A bound, with the number that counts where it is absent. -/
def bound (w : Width) (group : Group π) (slot : Nat) (absent : Int) : Int :=
  (w.argument? group slot).getD absent

/-- The condition on a text that is a number of this width. -/
def accepts (w : Width) (group : Group π) (text : Text) : Bool :=
  match w with
  | bits32 => Predicate.number32 group text
  | bits64 => Predicate.number64 group text

variable (w : Width)

theorem limits : bits64.least ≤ w.least ∧ w.least < 0 ∧ 0 < w.greatest ∧
    w.greatest ≤ bits64.greatest := by
  cases w <;> decide

variable {w} in
theorem Holds.bits64 {n : Int} (h : w.Holds n) : Width.bits64.Holds n := by
  have hlimits := w.limits
  obtain ⟨hleast, hgreatest⟩ := h
  exact ⟨by omega, by omega⟩

theorem toInt_ofInt {n : Int} (h : bits64.Holds n) : (Int64.ofInt n).toInt = n :=
  Int64.toInt_ofInt_of_le h.1 (Int.lt_add_one_of_le h.2)

theorem eq_bits64_or_least : w = bits64 ∨ w = bits32 ∧ bits64.least < w.least := by
  cases w
  · exact .inr ⟨rfl, by decide⟩
  · exact .inl rfl

theorem read?_eq_some_iff {text : Text} {n : Int} :
    w.read? text = some n ↔ Decimal.signed? text = some n ∧ w.Holds n := by
  cases w
  · simp only [read?, Decimal.int32?, Option.bind_eq_bind, Option.map_eq_some_iff,
      Option.bind_eq_some_iff, Option.ite_none_right_eq_some, Option.some.injEq, Holds, least, greatest]
    constructor
    · rintro ⟨word, ⟨m, hm, hrange, rfl⟩, rfl⟩
      rw [← Int32.ofIntLE_eq_ofInt hrange.1 hrange.2, Int32.toInt_ofIntLE]
      exact ⟨hm, hrange⟩
    · rintro ⟨hn, hrange⟩
      exact ⟨.ofIntLE n hrange.1 hrange.2, ⟨n, hn, hrange, rfl⟩, Int32.toInt_ofIntLE⟩
  · simp only [read?, Decimal.int64?, Option.bind_eq_bind, Option.map_eq_some_iff,
      Option.bind_eq_some_iff, Option.ite_none_right_eq_some, Option.some.injEq, Holds, least, greatest]
    constructor
    · rintro ⟨word, ⟨m, hm, hrange, rfl⟩, rfl⟩
      rw [← Int64.ofIntLE_eq_ofInt hrange.1 hrange.2, Int64.toInt_ofIntLE]
      exact ⟨hm, hrange⟩
    · rintro ⟨hn, hrange⟩
      exact ⟨.ofIntLE n hrange.1 hrange.2, ⟨n, hn, hrange, rfl⟩, Int64.toInt_ofIntLE⟩

theorem holds_of_argument? {group : Group π} {slot : Nat} {n : Int}
    (h : w.argument? group slot = some n) : w.Holds n := by
  cases w
  · obtain ⟨word, -, rfl⟩ := Option.map_eq_some_iff.1 h
    exact ⟨word.minValue_le_toInt, word.toInt_le⟩
  · obtain ⟨word, -, rfl⟩ := Option.map_eq_some_iff.1 h
    exact ⟨word.minValue_le_toInt, word.toInt_le⟩

theorem holds_bound {group : Group π} {slot : Nat} {absent : Int} (h : w.Holds absent) :
    w.Holds (w.bound group slot absent) := by
  rw [bound]
  cases hn : w.argument? group slot with
  | none => exact h
  | some n => exact w.holds_of_argument? hn

theorem accepts_iff {group : Group π} {text : Text} :
    w.accepts group text = true ↔ ∃ n, w.read? text.trim = some n ∧
      Predicate.inRange n (w.bound group 0 w.least) (w.bound group 1 w.greatest) = true := by
  cases w
  · simp only [accepts, Predicate.number32, read?]
    rcases Decimal.int32? text.trim with _ | word
    · simp
    · simp [bound, argument?, Predicate.int32Bound, least, greatest]
  · simp only [accepts, Predicate.number64, read?]
    rcases Decimal.int64? text.trim with _ | word
    · simp
    · simp [bound, argument?, Predicate.int64Bound, least, greatest]

theorem trim_ofInt (n : Int) : (Decimal.ofInt n).trim = Decimal.ofInt n :=
  Text.trim_of_not_blank fun _ => Decimal.isBlank_of_mem_ofInt

theorem accepts_ofInt_iff {group : Group π} {n : Int} :
    w.accepts group (Decimal.ofInt n) = true ↔ w.Holds n ∧
      Predicate.inRange n (w.bound group 0 w.least) (w.bound group 1 w.greatest) = true := by
  rw [accepts_iff]
  simp only [trim_ofInt, read?_eq_some_iff, Decimal.signed?_ofInt, Option.some.injEq]
  constructor
  · rintro ⟨m, ⟨rfl, hholds⟩, hrange⟩
    exact ⟨hholds, hrange⟩
  · rintro ⟨hholds, hrange⟩
    exact ⟨n, ⟨rfl, hholds⟩, hrange⟩

theorem exists_accepts_iff {group : Group π} :
    (∃ text, w.accepts group text = true) ↔ ∃ n, w.Holds n ∧
      Predicate.inRange n (w.bound group 0 w.least) (w.bound group 1 w.greatest) = true := by
  constructor
  · rintro ⟨text, htext⟩
    obtain ⟨n, hn, hrange⟩ := w.accepts_iff.1 htext
    exact ⟨n, (w.read?_eq_some_iff.1 hn).2, hrange⟩
  · rintro ⟨n, h⟩
    exact ⟨_, w.accepts_ofInt_iff.2 h⟩

end Width

namespace Bend

/-- The number that is meant in the place of a sample, counted without a limit. -/
def target (low high : Int) : Int :=
  if low ≤ high then low else if Int64.minValue.toInt < high then high - 1 else low + 1

theorem instead_eq (low high : Int64) : instead low high = .ofInt (target low.toInt high.toInt) := by
  simp only [instead, target, Int64.le_iff_toInt_le, Int64.lt_iff_toInt_lt]
  split_ifs
  · exact (Int64.ofInt_toInt low).symm
  · rw [Int64.ofInt_sub, Int64.ofInt_toInt]
    rfl
  · rw [Int64.ofInt_add, Int64.ofInt_toInt]
    rfl

/-- The sample is a number of 64 bits in the range, and is kept. -/
def Keeps (low high : Int) (sample : Text) (n : Int) : Prop :=
  Width.bits64.read? sample.trim = some n ∧ Predicate.inRange n low high = true

theorem target_of_lt {low high : Int} (window : high < low) :
    Width.bits64.least < high ∧ target low high = high - 1 ∨
      ¬ Width.bits64.least < high ∧ target low high = low + 1 := by
  rw [target, if_neg (Int.not_le.2 window)]
  by_cases hroom : Int64.minValue.toInt < high
  · exact .inl ⟨hroom, if_pos hroom⟩
  · exact .inr ⟨hroom, if_neg hroom⟩

variable {low high : Int64} {sample : Text}

theorem number_of_keeps {n : Int} (h : Keeps low.toInt high.toInt sample n) :
    number low high sample = sample := by
  obtain ⟨word, hword, rfl⟩ := Option.map_eq_some_iff.1 h.1
  simp only [number, hword, h.2, ↓reduceIte]

theorem number_of_not_keeps (h : ∀ n, ¬ Keeps low.toInt high.toInt sample n) :
    number low high sample = Decimal.ofInt (instead low high).toInt := by
  rcases hword : Decimal.int64? sample.trim with _ | word
  · simp only [number, hword]
    rfl
  · have hread : Width.bits64.read? sample.trim = some word.toInt := by
      rw [Width.read?, hword]
      rfl
    have hrange : Predicate.inRange word.toInt low.toInt high.toInt = false :=
      Bool.eq_false_iff.2 fun hrange => h _ ⟨hread, hrange⟩
    simp only [number, hword, hrange]
    rfl

end Bend

namespace Width

variable (w : Width)

def lower (group : Group π) : Int := w.bound group 0 0

def upper (group : Group π) : Int := w.bound group 1 w.greatest

/-- The text that the example puts down, with its bounds taken as numbers of 64 bits. -/
def written (group : Group π) (sample : Text) : Text :=
  Bend.number (.ofInt (w.lower group)) (.ofInt (w.upper group)) sample

theorem ofInt_bound (group : Group π) (slot : Nat) :
    (∀ absent : Int32, Int64.ofInt (bits32.bound group slot absent.toInt) =
      ((group.int32? slot).getD absent).toInt64) ∧
    ∀ absent : Int64, Int64.ofInt (bits64.bound group slot absent.toInt) =
      (group.int64? slot).getD absent := by
  constructor
  · intro absent
    simp only [bound, argument?]
    cases group.int32? slot with
    | none => exact Int64.ofInt_int32ToInt absent
    | some word => exact Int64.ofInt_int32ToInt word
  · intro absent
    simp only [bound, argument?]
    cases group.int64? slot with
    | none => exact Int64.ofInt_toInt absent
    | some word => exact Int64.ofInt_toInt word

theorem bend_number (group : Group Sample) (sample : Text) :
    w.function.bend group sample = some (w.written group sample) := by
  cases w
  · have hlower := (ofInt_bound group 0).1 0
    have hupper := (ofInt_bound group 1).1 Int32.maxValue
    rw [written, lower, upper, greatest, hupper]
    exact congrArg some (congrArg (Bend.number · _ sample) hlower.symm)
  · have hlower := (ofInt_bound group 0).2 0
    have hupper := (ofInt_bound group 1).2 Int64.maxValue
    rw [written, lower, upper, greatest, hupper]
    exact congrArg some (congrArg (Bend.number · _ sample) hlower.symm)

theorem lower_map {ρ : Type} (g : π → ρ) (group : Group π) : w.lower (group.map g) = w.lower group := by
  cases w
  · simp only [lower, bound, argument?, Group.int32?_map]
  · simp only [lower, bound, argument?, Group.int64?_map]

theorem upper_map {ρ : Type} (g : π → ρ) (group : Group π) : w.upper (group.map g) = w.upper group := by
  cases w
  · simp only [upper, bound, argument?, Group.int32?_map]
  · simp only [upper, bound, argument?, Group.int64?_map]

theorem holds_lower (group : Group π) : w.Holds (w.lower group) := by
  have hlimits := w.limits
  exact w.holds_bound ⟨by omega, by omega⟩

theorem holds_upper (group : Group π) : w.Holds (w.upper group) := by
  have hlimits := w.limits
  exact w.holds_bound ⟨by omega, by omega⟩

theorem toInt_bounds (group : Group π) :
    (Int64.ofInt (w.lower group)).toInt = w.lower group ∧
      (Int64.ofInt (w.upper group)).toInt = w.upper group :=
  ⟨toInt_ofInt (w.holds_lower group).bits64, toInt_ofInt (w.holds_upper group).bits64⟩

theorem written_of_keeps {group : Group π} {sample : Text} {n : Int}
    (h : Bend.Keeps (w.lower group) (w.upper group) sample n) : w.written group sample = sample := by
  obtain ⟨hlower, hupper⟩ := w.toInt_bounds group
  rw [← hlower, ← hupper] at h
  exact Bend.number_of_keeps h

theorem written_of_not_keeps {group : Group π} {sample : Text}
    (h : ∀ n, ¬ Bend.Keeps (w.lower group) (w.upper group) sample n) :
    w.written group sample =
      Decimal.ofInt (Int64.ofInt (Bend.target (w.lower group) (w.upper group))).toInt := by
  obtain ⟨hlower, hupper⟩ := w.toInt_bounds group
  rw [← hlower, ← hupper] at h ⊢
  rw [← Bend.instead_eq]
  exact Bend.number_of_not_keeps h

theorem written_of_holds {group : Group π} {sample : Text}
    (h : ∀ n, ¬ Bend.Keeps (w.lower group) (w.upper group) sample n)
    (holds : bits64.Holds (Bend.target (w.lower group) (w.upper group))) :
    w.written group sample = Decimal.ofInt (Bend.target (w.lower group) (w.upper group)) := by
  rw [w.written_of_not_keeps h, toInt_ofInt holds]

/-- The step past the window leaves the 64 bits only where the window is all of them. -/
theorem not_holds_target_iff {group : Group π} :
    ¬ bits64.Holds (Bend.target (w.lower group) (w.upper group)) ↔
      w.lower group = bits64.greatest ∧ w.upper group = bits64.least := by
  have hlimits := w.limits
  obtain ⟨hleast, hgreatest⟩ := w.holds_lower group
  obtain ⟨hleast', hgreatest'⟩ := w.holds_upper group
  rw [Holds, not_and_or, Int.not_le, Int.not_le]
  by_cases ordered : w.lower group ≤ w.upper group
  · rw [Bend.target, if_pos ordered]
    have hrange : bits64.least < bits64.greatest := by decide
    omega
  · have htarget := Bend.target_of_lt (Int.not_le.1 ordered)
    omega

theorem written_of_not_holds {group : Group π} {sample : Text}
    (h : ¬ bits64.Holds (Bend.target (w.lower group) (w.upper group))) :
    w.written group sample = Decimal.ofInt bits64.least := by
  obtain ⟨hlower, hupper⟩ := w.not_holds_target_iff.1 h
  have hrange : bits64.least < bits64.greatest := by decide
  -- every number of 64 bits is in such a window, so that a sample is never kept
  have hreplaced : ∀ n, ¬ Bend.Keeps (w.lower group) (w.upper group) sample n := by
    rintro n ⟨hn, hin⟩
    obtain ⟨hleast, hgreatest⟩ := (bits64.read?_eq_some_iff.1 hn).2
    rw [hlower, hupper, Predicate.inRange_iff] at hin
    omega
  rw [w.written_of_not_keeps hreplaced, hlower, hupper]
  rfl

/-- A lower bound that is there is the same for both; one that is absent is zero for the example only. -/
theorem lower_spec (group : Group π) :
    (w.argument? group 0 = none ∧ w.lower group = 0 ∧ w.bound group 0 w.least = w.least) ∨
      (w.argument? group 0 ≠ none ∧ w.bound group 0 w.least = w.lower group) := by
  unfold lower bound
  cases w.argument? group 0 with
  | none => exact .inl ⟨rfl, rfl, rfl⟩
  | some n => exact .inr ⟨Option.some_ne_none n, rfl⟩

/-- How the example of a number misses the condition, which it does only where it takes its bounds for
those of a window to stay out of. -/
inductive Misses (group : Group π) (sample : Text) : Prop where
  /-- The sample is kept above a window that is none: its lower bound is absent. -/
  | above (n : Int) (window : w.upper group < w.lower group)
    (kept : Bend.Keeps (w.lower group) (w.upper group) sample n)
    (absent : w.argument? group 0 = none) (positive : 0 < n)
  /-- The sample is kept although it is too great or too small for the width. -/
  | beyond (n : Int) (window : w.upper group < w.lower group)
    (kept : Bend.Keeps (w.lower group) (w.upper group) sample n) (wide : ¬ w.Holds n)
  /-- The number below the window is none of the width, or the one above it is not in the range. -/
  | edge (window : w.upper group < w.lower group)
    (replaced : ∀ n, ¬ Bend.Keeps (w.lower group) (w.upper group) sample n)
    (least : w.upper group = w.least) (reason : w = bits32 ∨ w.argument? group 0 = none)

section

variable {w} {group : Group π} {sample : Text}

theorem accepts_of_keeps_iff {n : Int} (kept : Bend.Keeps (w.lower group) (w.upper group) sample n) :
    w.accepts group sample = true ↔ w.Holds n ∧
      Predicate.inRange n (w.bound group 0 w.least) (w.upper group) = true := by
  have hsigned := (bits64.read?_eq_some_iff.1 kept.1).1
  rw [accepts_iff]
  simp only [read?_eq_some_iff, hsigned, Option.some.injEq]
  constructor
  · rintro ⟨m, ⟨rfl, hholds⟩, hrange⟩
    exact ⟨hholds, hrange⟩
  · rintro ⟨hholds, hrange⟩
    exact ⟨n, ⟨rfl, hholds⟩, hrange⟩

theorem accepts_number_of_le (ordered : w.lower group ≤ w.upper group) :
    w.accepts group (w.written group sample) = true := by
  obtain ⟨hleast, hgreatest⟩ := w.holds_lower group
  obtain ⟨hleast', hgreatest'⟩ := w.holds_upper group
  have hlower := w.lower_spec group
  by_cases hkept : ∃ n, Bend.Keeps (w.lower group) (w.upper group) sample n
  · obtain ⟨n, hn⟩ := hkept
    have hrange := Predicate.inRange_iff.1 hn.2
    rw [w.written_of_keeps hn, accepts_of_keeps_iff hn, Predicate.inRange_iff]
    exact ⟨⟨by omega, by omega⟩, by omega⟩
  · rw [not_exists] at hkept
    have htarget : Bend.target (w.lower group) (w.upper group) = w.lower group := if_pos ordered
    have hholds : bits64.Holds (Bend.target (w.lower group) (w.upper group)) := by
      rw [htarget]
      exact (w.holds_lower group).bits64
    rw [w.written_of_holds hkept hholds, accepts_ofInt_iff, htarget, Predicate.inRange_iff]
    exact ⟨⟨hleast, hgreatest⟩, by change _ ∨ _ ∧ _ ≤ w.upper group; omega⟩

theorem misses_iff_of_keeps {n : Int} (window : w.upper group < w.lower group)
    (kept : Bend.Keeps (w.lower group) (w.upper group) sample n) :
    w.Misses group sample ↔ w.argument? group 0 = none ∧ 0 < n ∨ ¬ w.Holds n := by
  constructor
  · rintro (⟨m, -, hm, absent, positive⟩ | ⟨m, -, hm, wide⟩ | ⟨-, replaced, -, -⟩)
    · cases kept.1.symm.trans hm.1
      exact .inl ⟨absent, positive⟩
    · cases kept.1.symm.trans hm.1
      exact .inr wide
    · exact absurd kept (replaced n)
  · rintro (⟨absent, positive⟩ | wide)
    · exact .above n window kept absent positive
    · exact .beyond n window kept wide

theorem misses_iff_of_replaced (window : w.upper group < w.lower group)
    (replaced : ∀ n, ¬ Bend.Keeps (w.lower group) (w.upper group) sample n) :
    w.Misses group sample ↔
      w.upper group = w.least ∧ (w = bits32 ∨ w.argument? group 0 = none) := by
  constructor
  · rintro (⟨n, -, kept, -, -⟩ | ⟨n, -, kept, -⟩ | ⟨-, -, least, reason⟩)
    · exact absurd kept (replaced n)
    · exact absurd kept (replaced n)
    · exact ⟨least, reason⟩
  · rintro ⟨least, reason⟩
    exact .edge window replaced least reason

theorem accepts_number_iff_of_keeps {n : Int} (window : w.upper group < w.lower group)
    (kept : Bend.Keeps (w.lower group) (w.upper group) sample n) :
    w.accepts group (w.written group sample) = true ↔
      (∃ text, w.accepts group text = true) ∧ ¬ w.Misses group sample := by
  have hrange := Predicate.inRange_iff.1 kept.2
  have hlower := w.lower_spec group
  have hleast' := (w.holds_upper group).1
  rw [w.written_of_keeps kept, misses_iff_of_keeps window kept, not_or, not_not]
  constructor
  · intro haccepts
    obtain ⟨hholds, hin⟩ := (accepts_of_keeps_iff kept).1 haccepts
    rw [Predicate.inRange_iff] at hin
    refine ⟨⟨sample, haccepts⟩, ?_, hholds⟩
    rintro ⟨absent, positive⟩
    rcases hlower with ⟨-, hzero, hbound⟩ | ⟨hsome, -⟩
    · omega
    · exact hsome absent
  · rintro ⟨-, habove, hholds⟩
    rw [accepts_of_keeps_iff kept, Predicate.inRange_iff]
    refine ⟨hholds, ?_⟩
    rcases hlower with ⟨hnone, hzero, hbound⟩ | ⟨-, hbound⟩
    · have hnonpos : ¬ 0 < n := fun positive => habove ⟨hnone, positive⟩
      have := hholds.1
      omega
    · omega

theorem holds_target (h : ∃ text, w.accepts group text = true) :
    bits64.Holds (Bend.target (w.lower group) (w.upper group)) := by
  obtain ⟨n, ⟨hn, hn'⟩, hrange⟩ := w.exists_accepts_iff.1 h
  change Predicate.inRange n _ (w.upper group) = true at hrange
  rw [Predicate.inRange_iff] at hrange
  have hlimits := w.limits
  have hlower := w.lower_spec group
  by_contra hoverflow
  obtain ⟨hgreatest, hleast⟩ := w.not_holds_target_iff.1 hoverflow
  omega

theorem accepts_number_iff_of_replaced (window : w.upper group < w.lower group)
    (replaced : ∀ n, ¬ Bend.Keeps (w.lower group) (w.upper group) sample n) :
    w.accepts group (w.written group sample) = true ↔
      (∃ text, w.accepts group text = true) ∧ ¬ w.Misses group sample := by
  have hlimits := w.limits
  obtain ⟨hleast, hgreatest⟩ := w.holds_lower group
  obtain ⟨hleast', hgreatest'⟩ := w.holds_upper group
  have hlower := w.lower_spec group
  have htarget := Bend.target_of_lt window
  by_cases holds : bits64.Holds (Bend.target (w.lower group) (w.upper group))
  swap
  · -- the window is all of the 64 bits, and nothing is accepted
    have hnone : ¬ ∃ text, w.accepts group text = true := fun h => holds (w.holds_target h)
    exact iff_of_false (fun h => hnone ⟨_, h⟩) fun h => hnone h.1
  rw [w.written_of_holds replaced holds, misses_iff_of_replaced window replaced, accepts_ofInt_iff,
    exists_accepts_iff]
  change w.Holds _ ∧ Predicate.inRange _ _ (w.upper group) = true ↔
    (∃ n, w.Holds n ∧ Predicate.inRange n _ (w.upper group) = true) ∧ _
  simp only [Predicate.inRange_iff]
  constructor
  · rintro ⟨hholds, hrange⟩
    refine ⟨⟨_, hholds, hrange⟩, ?_⟩
    rintro ⟨least, rfl | absent⟩
    · -- one below the least number of 32 bits
      have hwide : bits64.least < bits32.least := by decide
      have := hholds.1
      omega
    · rcases hlower with ⟨-, hzero, hbound⟩ | ⟨hsome, -⟩
      · have := hholds.1
        omega
      · exact hsome absent
  · rintro ⟨⟨n, hholds, hrange⟩, hnot⟩
    obtain ⟨hn, hn'⟩ := hholds
    by_cases least : w.upper group = w.least
    -- only one above the window is left, and what is accepted leaves room for it
    · obtain ⟨hbits, hpresent⟩ := not_or.1 fun reason => hnot ⟨least, reason⟩
      obtain rfl := (or_iff_left fun h => hbits h.1).1 w.eq_bits64_or_least
      rcases hlower with ⟨hnone, -⟩ | ⟨-, hbound⟩
      · exact absurd hnone hpresent
      · exact ⟨⟨by omega, by omega⟩, by omega⟩
    · exact ⟨⟨by omega, by omega⟩, by omega⟩

end

/-- The example of a number meets the condition if anything does and it does not miss. -/
theorem accepts_number_iff (group : Group π) (sample : Text) :
    w.accepts group (w.written group sample) = true ↔
      (∃ text, w.accepts group text = true) ∧ ¬ w.Misses group sample := by
  by_cases ordered : w.lower group ≤ w.upper group
  · have haccepts : w.accepts group (w.written group sample) = true :=
      accepts_number_of_le ordered
    have hmisses : ¬ w.Misses group sample := by
      rintro (⟨_, window, _⟩ | ⟨_, window, _⟩ | ⟨window, _⟩) <;> omega
    exact iff_of_true haccepts ⟨⟨_, haccepts⟩, hmisses⟩
  · rw [Int.not_le] at ordered
    by_cases hkept : ∃ n, Bend.Keeps (w.lower group) (w.upper group) sample n
    · obtain ⟨n, kept⟩ := hkept
      exact accepts_number_iff_of_keeps ordered kept
    · exact accepts_number_iff_of_replaced ordered (not_exists.1 hkept)

end Width

/-- A call accepts a text, whatever span holds it and whatever the parameters are. -/
def Function.Accepts (f : Function) (group : Group Meaning) (text : Text) : Prop :=
  ∀ options (span : Span) params, span.text = text →
    (f.evaluate options group span params).1.isSome = true

namespace Width

variable (w : Width)

theorem accepts_function_iff {group : Group Pattern} {depth : Nat} {text : Text} :
    w.function.Accepts (group.interpretAt depth) text ↔ w.accepts group text = true := by
  have hverdict : w.function.verdict? (group.interpretAt depth) text = some (w.accepts group text) := by
    rw [Group.interpretAt, Function.verdict?_map]
    cases w <;> rfl
  constructor
  · intro h
    have haccepted := h ⟨false, false, false⟩ (.literal text 0 text.size) .empty rfl
    rwa [Function.isSome_evaluate_of_verdict? hverdict] at haccepted
  · rintro h options span params rfl
    rw [Function.isSome_evaluate_of_verdict? hverdict, h]

/-- What becomes of a sample where its text is to be a number: there always is an example, and where
anything is accepted the example is, unless it misses, and the step past the window stays within 64 bits.
It leaves them only where the window is all of them and nothing is accepted; then the greatest number and
one is the least number. -/
theorem bend_accepted_iff (group : Group Pattern) (depth : Nat) (sample : Text) :
    ∃ bent, w.function.bend (group.map Pattern.sampled) sample = some bent ∧
      (w.function.Accepts (group.interpretAt depth) bent ↔
        (∃ text, w.function.Accepts (group.interpretAt depth) text) ∧ ¬ w.Misses group sample) ∧
      ((∃ text, w.function.Accepts (group.interpretAt depth) text) →
        bits64.Holds (Bend.target (w.lower group) (w.upper group))) ∧
      (¬ bits64.Holds (Bend.target (w.lower group) (w.upper group)) ↔
        w.lower group = bits64.greatest ∧ w.upper group = bits64.least) ∧
      (¬ bits64.Holds (Bend.target (w.lower group) (w.upper group)) →
        bent = Decimal.ofInt bits64.least) := by
  have hbent : w.written (group.map Pattern.sampled) sample = w.written group sample := by
    rw [written, written, lower_map, upper_map]
  refine ⟨w.written group sample, ?_, ?_, ?_, w.not_holds_target_iff, w.written_of_not_holds⟩
  · rw [w.bend_number, hbent]
  · simp only [accepts_function_iff]
    exact w.accepts_number_iff group sample
  · simp only [accepts_function_iff]
    exact w.holds_target

def lowest : Group Pattern := ⟨[none, some ⟨.int32 Int32.minValue, .sensitive⟩]⟩

def negative : Group Pattern := ⟨[none, some ⟨.int32 (-5), .sensitive⟩]⟩

/-- All the numbers of 64 bits are in the window to stay out of. -/
def whole : Group Pattern :=
  ⟨[some ⟨.int64 Int64.maxValue, .sensitive⟩, some ⟨.int64 Int64.minValue, .sensitive⟩]⟩

/-- The least number is accepted, but the example is the one below it; five is kept as an example of what
is at most five below zero; and one above the greatest number there is no other of 64 bits. -/
theorem bend_misses :
    (Function.number32.Accepts (lowest.interpretAt 0) "-2147483648".toList ∧
      Function.number32.bend (lowest.map Pattern.sampled) [] = some "-2147483649".toList ∧
      ¬ Function.number32.Accepts (lowest.interpretAt 0) "-2147483649".toList) ∧
    (Function.number32.Accepts (negative.interpretAt 0) "-5".toList ∧
      Function.number32.bend (negative.map Pattern.sampled) "5".toList = some "5".toList ∧
      ¬ Function.number32.Accepts (negative.interpretAt 0) "5".toList) ∧
    ¬ bits64.Holds (Bend.target (bits64.lower whole) (bits64.upper whole)) ∧
      Function.number64.bend (whole.map Pattern.sampled) [] =
        some "-9223372036854775808".toList := by
  refine ⟨⟨?_, ?_, ?_⟩, ⟨?_, ?_, ?_⟩, ?_, ?_⟩
  · exact bits32.accepts_function_iff.2 (by decide +kernel)
  · decide +kernel
  · exact fun h => absurd (bits32.accepts_function_iff.1 h) (by decide +kernel)
  · exact bits32.accepts_function_iff.2 (by decide +kernel)
  · decide +kernel
  · exact fun h => absurd (bits32.accepts_function_iff.1 h) (by decide +kernel)
  · exact bits64.not_holds_target_iff.2 ⟨by decide +kernel, by decide +kernel⟩
  · decide +kernel

end Width

end Stencil
