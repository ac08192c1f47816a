import Stencil.Operators

/-! # Operators as bits

Operators are kept in a byte with a bit for each thing that can be set. Adding a word to the byte clears the
combinators if the word has one and the cases if it has one, and sets the bits of the word. This is what adding
a word does to operators (`Operators.toFlags_apply`), and so no two combinators are set at once and no two
cases. Of a list of words each setting is that of the last word for it. -/
namespace Stencil

abbrev Flags := BitVec 8

namespace Flags

def ofCombinator : Combinator → Flags
  | .and => 1
  | .or => 2
  | .xor => 4
  | .xnor => 8

def negating : Flags := 16

def ofCasing : Casing → Flags
  | .insensitive => 32
  | .sensitive => 64

def combinators : Flags :=
  ofCombinator .and ||| ofCombinator .or ||| ofCombinator .xor ||| ofCombinator .xnor

def casings : Flags := ofCasing .insensitive ||| ofCasing .sensitive

def clear (group flags word : Flags) : Flags := if word &&& group = 0 then flags else flags &&& ~~~group

/-- The flags with those of one more word. -/
def apply (flags word : Flags) : Flags := clear casings (clear combinators flags word) word ||| word

def run (flags : Flags) (words : List Flags) : Flags := words.foldl apply flags

def contains (flags part : Flags) : Bool := flags &&& part = part

def combinator (flags : Flags) : Combinator :=
  if flags.contains (ofCombinator .and) then .and
  else if flags.contains (ofCombinator .xor) then .xor
  else if flags.contains (ofCombinator .xnor) then .xnor
  else .or

def casingIn (flags : Flags) (pattern : Casing) : Casing :=
  if flags.contains (ofCasing .insensitive) then .insensitive
  else if flags.contains (ofCasing .sensitive) then .sensitive
  else pattern

end Flags

namespace Operators

def toFlags (ops : Operators) : Flags := BitVec.ofNat 8 ops.bits

def all : List Operators :=
  [none, some .and, some .or, some .xor, some .xnor].flatMap fun combinator? =>
    [false, true].flatMap fun negated =>
      [none, some .insensitive, some .sensitive].map fun casing? => ⟨combinator?, negated, casing?⟩

theorem mem_all (ops : Operators) : ops ∈ all := by
  obtain ⟨combinator?, negated, casing?⟩ := ops
  refine List.mem_flatMap.2 ⟨combinator?, ?_, List.mem_flatMap.2 ⟨negated, ?_, List.mem_map.2 ⟨casing?, ?_, rfl⟩⟩⟩
  · rcases combinator? with _ | combinator
    · decide
    · cases combinator <;> decide
  · cases negated <;> decide
  · rcases casing? with _ | casing
    · decide
    · cases casing <;> decide

theorem apply_empty (ops : Operators) : ops.apply empty = ops := by
  obtain ⟨combinator?, negated, casing?⟩ := ops
  simp [apply, empty]

theorem empty_apply (ops : Operators) : empty.apply ops = ops := by
  obtain ⟨combinator?, negated, casing?⟩ := ops
  simp [apply, empty]

theorem toFlags_apply (ops word : Operators) : (ops.apply word).toFlags = ops.toFlags.apply word.toFlags := by
  have hall : ∀ ops ∈ all, ∀ word ∈ all, (apply ops word).toFlags = ops.toFlags.apply word.toFlags := by
    decide +kernel
  exact hall ops ops.mem_all word word.mem_all

theorem eq_of_contains_ofCombinator (ops : Operators) {c d : Combinator}
    (hc : ops.toFlags.contains (.ofCombinator c) = true)
    (hd : ops.toFlags.contains (.ofCombinator d) = true) : c = d := by
  have hall : ∀ ops ∈ all, ∀ c ∈ [Combinator.and, .or, .xor, .xnor], ∀ d ∈ [Combinator.and, .or, .xor, .xnor],
      ops.toFlags.contains (.ofCombinator c) = true → ops.toFlags.contains (.ofCombinator d) = true → c = d := by
    decide +kernel
  exact hall ops ops.mem_all c (by cases c <;> decide) d (by cases d <;> decide) hc hd

theorem eq_of_contains_ofCasing (ops : Operators) {c d : Casing}
    (hc : ops.toFlags.contains (.ofCasing c) = true) (hd : ops.toFlags.contains (.ofCasing d) = true) :
    c = d := by
  have hall : ∀ ops ∈ all, ∀ c ∈ [Casing.sensitive, .insensitive], ∀ d ∈ [Casing.sensitive, .insensitive],
      ops.toFlags.contains (.ofCasing c) = true → ops.toFlags.contains (.ofCasing d) = true → c = d := by
    decide +kernel
  exact hall ops ops.mem_all c (by cases c <;> decide) d (by cases d <;> decide) hc hd

theorem combinator_toFlags (ops : Operators) : ops.toFlags.combinator = ops.combinator := by
  have hall : ∀ ops ∈ all, ops.toFlags.combinator = ops.combinator := by decide +kernel
  exact hall ops ops.mem_all

theorem casingIn_toFlags (ops : Operators) (pattern : Casing) :
    ops.toFlags.casingIn pattern = ops.casingIn pattern := by
  have hall : ∀ ops ∈ all, ops.toFlags.casingIn .sensitive = ops.casingIn .sensitive ∧
      ops.toFlags.casingIn .insensitive = ops.casingIn .insensitive := by
    decide +kernel
  cases pattern with
  | sensitive => exact (hall ops ops.mem_all).1
  | insensitive => exact (hall ops ops.mem_all).2

theorem contains_negating_toFlags (ops : Operators) : ops.toFlags.contains .negating = ops.negated := by
  have hall : ∀ ops ∈ all, ops.toFlags.contains .negating = ops.negated := by decide +kernel
  exact hall ops ops.mem_all

theorem applyAll_cons (ops word : Operators) (words : List Operators) :
    ops.applyAll (word :: words) = (ops.apply word).applyAll words := rfl

theorem toFlags_applyAll (ops : Operators) (words : List Operators) :
    (ops.applyAll words).toFlags = ops.toFlags.run (words.map toFlags) := by
  induction words generalizing ops with
  | nil => rfl
  | cons word words ih =>
    rw [applyAll_cons, ih, toFlags_apply]
    rfl

/-- What each word may set is set by the last word that does. -/
theorem applyAll_last {α : Type} (field : Operators → Option α)
    (step : ∀ ops word, field (apply ops word) = (field word).or (field ops)) (ops : Operators)
    (words : List Operators) :
    field (ops.applyAll words) = (words.filterMap field).getLast?.or (field ops) := by
  induction words generalizing ops with
  | nil => rfl
  | cons word words ih =>
    rw [applyAll_cons, ih, step]
    cases hword : field word with
    | none => rw [List.filterMap_cons_none hword, Option.none_or]
    | some a =>
      rw [List.filterMap_cons_some hword, List.getLast?_cons]
      cases (words.filterMap field).getLast? <;> rfl

theorem combinator?_applyAll (ops : Operators) (words : List Operators) :
    (ops.applyAll words).combinator? = (words.filterMap (·.combinator?)).getLast?.or ops.combinator? :=
  applyAll_last (·.combinator?) (fun _ word => by cases h : word.combinator? <;> simp [apply, h]) ops words

theorem casing?_applyAll (ops : Operators) (words : List Operators) :
    (ops.applyAll words).casing? = (words.filterMap (·.casing?)).getLast?.or ops.casing? :=
  applyAll_last (·.casing?) (fun _ word => by cases h : word.casing? <;> simp [apply, h]) ops words

theorem negated_applyAll (ops : Operators) (words : List Operators) :
    (ops.applyAll words).negated = (ops.negated || words.any (·.negated)) := by
  induction words generalizing ops with
  | nil => exact (Bool.or_false _).symm
  | cons word words ih => rw [applyAll_cons, ih, List.any_cons, ← Bool.or_assoc, apply]

def isOneOf (words : List String) (word : Text) : Bool :=
  words.any fun known => known.toList = word.lowerAscii

def combinatorWords : Combinator → List String
  | .and => ["and", "all", "nand"]
  | .or => ["or", "any", "nor"]
  | .xor => ["xor", "one", "nxor"]
  | .xnor => ["xnor", "same", "nxnor"]

def casingWords : Casing → List String
  | .insensitive => ["nocase", "icase"]
  | .sensitive => ["case", "forcecase"]

def negatingWords : List String := ["not", "nand", "nor", "nxor", "nxnor"]

/-- All words that name something. -/
def vocabulary : List (List String) :=
  negatingWords :: ([.and, .or, .xor, .xnor].map combinatorWords ++ [.insensitive, .sensitive].map casingWords)

/-- The combinator that a word names, alone or with an inversion. -/
def namedCombinator? (word : Text) : Option Combinator :=
  [.and, .or, .xor, .xnor].find? fun c => isOneOf (combinatorWords c) word

def namedCasing? (word : Text) : Option Casing :=
  [.insensitive, .sensitive].find? fun c => isOneOf (casingWords c) word

def negates (word : Text) : Bool := isOneOf negatingWords word

def isKnown (word : Text) : Bool :=
  (namedCombinator? word).isSome || negates word || (namedCasing? word).isSome

def named (word : Text) : Operators := ⟨namedCombinator? word, negates word, namedCasing? word⟩

theorem named_of_unknown {word : Text} (h : isKnown word = false) : named word = empty := by
  simp only [isKnown, Bool.or_eq_false_iff, Option.isSome_eq_false_iff, Option.isNone_iff_eq_none] at h
  rw [named, h.1.1, h.1.2, h.2]
  rfl

theorem ofWord?_eq (word : Text) : ofWord? word = if isKnown word then some (named word) else none := by
  unfold ofWord? named isKnown namedCombinator? namedCasing? negates isOneOf
  generalize word.lowerAscii = w
  by_cases hw : w ∈ modifiers.map fun entry => entry.1.toList
  · revert w
    decide +kernel
  · have hne : ∀ entry ∈ modifiers, entry.1.toList ≠ w := by
      rintro entry hentry rfl
      exact hw (List.mem_map_of_mem hentry)
    have hlisted : ∀ words ∈ vocabulary, ∀ known ∈ words, known ∈ modifiers.map Prod.fst := by decide +kernel
    have habsent : ∀ words ∈ vocabulary, (words.any fun known => known.toList = w) = false := by
      refine fun words hwords => List.any_eq_false.2 fun known hknown => ?_
      obtain ⟨entry, hentry, rfl⟩ := List.mem_map.1 (hlisted words hwords known hknown)
      simpa using hne entry hentry
    have hnone : modifiers.findSome? (fun entry => if entry.1.toList = w then some entry.2 else none) = none :=
      List.findSome?_eq_none_iff.2 fun entry hentry => if_neg (hne entry hentry)
    simp only [vocabulary, List.map_cons, List.map_nil, List.cons_append, List.nil_append,
      List.forall_mem_cons] at habsent
    simp only [hnone, List.find?_cons, List.find?_nil, habsent, Option.isSome_none, Bool.or_self,
      Bool.false_eq_true, if_false]

theorem ofWord?_eq_none_iff {word : Text} : ofWord? word = none ↔ isKnown word = false := by
  rw [ofWord?_eq]
  cases isKnown word <;> simp

theorem applyAll_filterMap_ofWord? (ops : Operators) (words : List Text) :
    ops.applyAll (words.filterMap ofWord?) = ops.applyAll (words.map named) := by
  induction words generalizing ops with
  | nil => rfl
  | cons word words ih =>
    rw [List.map_cons, applyAll_cons]
    cases hknown : isKnown word with
    | true =>
      have hword : ofWord? word = some (named word) := by rw [ofWord?_eq, if_pos hknown]
      rw [List.filterMap_cons_some hword, applyAll_cons, ih]
    | false =>
      rw [List.filterMap_cons_none (ofWord?_eq_none_iff.2 hknown), named_of_unknown hknown, apply_empty, ih]

end Operators

end Stencil
