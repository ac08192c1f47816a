import Mathlib.Data.List.TakeWhile
import Stencil.Compile.Clause
import Stencil.Proofs.Source.Pieces
import Stencil.Proofs.Text.Decimal

/-! # Heads of clauses

The name of a function followed by words in parentheses is a head that is taken apart again, into
the function and what the words mean. -/
namespace Stencil

theorem Text.eq_or_exists_of_mem_intercalate {c d : Char} {pieces : List Text}
    (h : d ∈ [c].intercalate pieces) : d = c ∨ ∃ piece ∈ pieces, d ∈ piece := by
  induction pieces with
  | nil => cases h
  | cons piece rest ih =>
    cases rest with
    | nil =>
      rw [List.intercalate_singleton] at h
      exact .inr ⟨piece, List.mem_cons_self, h⟩
    | cons next rest =>
      rw [List.intercalate_cons_cons, List.mem_append, List.mem_append, List.mem_singleton] at h
      rcases h with (h | h) | h
      · exact .inr ⟨piece, List.mem_cons_self, h⟩
      · exact .inl h
      · rcases ih h with he | ⟨p, hp, hd⟩
        · exact .inl he
        · exact .inr ⟨p, List.mem_cons_of_mem _ hp, hd⟩

namespace Function

theorem lower_name (f : Function) : f.name.lower = f.name := by cases f <;> decide +kernel

theorem isAlphanum_of_mem_name (f : Function) : ∀ c ∈ f.name, c.isAlphanum = true := by
  cases f <;> decide

theorem name_ne_nil (f : Function) : f.name ≠ [] := by cases f <;> decide

theorem ofName?_name (f : Function) : ofName? f.name = some f := by cases f <;> decide

theorem ofName?_eq_some_iff {name : Text} {f : Function} : ofName? name = some f ↔ f.name = name := by
  constructor
  · intro h
    simpa using List.find?_some h
  · rintro rfl
    exact ofName?_name f

end Function

theorem Resolution.ofName?_name (pattern : Casing) (f : Function) :
    ofName? pattern f.name = some ⟨f, none⟩ := by
  rw [ofName?, Function.ofName?_name]

theorem Directive.ofName?_name (f : Function) : ofName? f.name = none := by cases f <;> decide

theorem isAlpha_of_toLower {c : Char} (h : c.toLower.isAlpha = true) : c.isAlpha = true := by
  by_cases hc : c.val ≥ 'A'.val ∧ c.val ≤ 'Z'.val
  · have hupper : c.isUpper = true := decide_eq_true hc
    exact Bool.or_eq_true_iff.2 (.inl hupper)
  · have hsame : c.toLower = c := dif_neg hc
    rwa [hsame] at h

theorem Operators.isAlpha_of_ofWord? {word : Text} {ops : Operators} (h : ofWord? word = some ops) :
    word ≠ [] ∧ ∀ c ∈ word, c.isAlpha = true := by
  obtain ⟨⟨known, meaning⟩, hmem, hk⟩ := List.exists_of_findSome?_eq_some h
  have hletters : ∀ e ∈ modifiers, e.1.toList ≠ [] ∧ ∀ c ∈ e.1.toList, c.isAlpha = true := by decide
  obtain ⟨hne, hall⟩ := hletters _ hmem
  simp only [Option.ite_none_right_eq_some] at hk
  obtain ⟨hknown, -⟩ := hk
  rw [hknown] at hne hall
  constructor
  · rintro rfl
    exact hne rfl
  · intro c hc
    exact isAlpha_of_toLower (hall c.toLower (List.mem_map.2 ⟨c, hc, rfl⟩))

/-- A modifier word with its meaning. -/
structure Word where
  text : Text
  meaning : Operators
  known : Operators.ofWord? text = some meaning

namespace Word

theorem ne_nil (word : Word) : word.text ≠ [] := (Operators.isAlpha_of_ofWord? word.known).1

theorem isAlpha (word : Word) : ∀ c ∈ word.text, c.isAlpha = true :=
  (Operators.isAlpha_of_ofWord? word.known).2

theorem isAlphanum (word : Word) : ∀ c ∈ word.text, c.isAlphanum = true := by
  intro c hc
  rw [Char.isAlphanum, word.isAlpha c hc]
  rfl

theorem filterMap_ofWord? (words : List Word) :
    (words.map (·.text)).filterMap Operators.ofWord? = words.map (·.meaning) := by
  rw [List.filterMap_map, ← List.filterMap_eq_map]
  congr 1
  funext word
  exact word.known

end Word

namespace Clause

theorem splitHead_of_trim {head : Text} (htrim : head.trim = head)
    (hopen : ∀ rest, head ≠ '(' :: rest) :
    splitHead head = match head.dropWhile (· ≠ '(') with
      | [] => (head, [])
      | _ :: modifiers => (Text.trim (head.takeWhile (· ≠ '(')),
        if modifiers.getLast? = some ')' then modifiers.dropLast else modifiers) := by
  unfold splitHead
  rw [htrim]
  cases head with
  | nil => rfl
  | cons c cs =>
    have hc : c ≠ '(' := by
      rintro rfl
      exact hopen cs rfl
    simp only [hc, ne_eq, decide_not, decide_false, Bool.not_false, List.dropWhile_cons_of_pos,
      List.takeWhile_cons_of_pos]
    cases cs.dropWhile fun x => !decide (x = '(') <;> rfl

theorem ne_open_of_isAlphanum {name : Text} (h : ∀ c ∈ name, c.isAlphanum = true) :
    ∀ c ∈ name, decide (c ≠ '(') = true := by
  intro c hc
  refine decide_eq_true ?_
  rintro rfl
  exact absurd (h _ hc) (by decide)

theorem splitHead_of_isAlphanum {name : Text} (h : ∀ c ∈ name, c.isAlphanum = true) :
    splitHead name = (name, []) := by
  have htrim := Text.trim_of_not_blank fun c hc => isBlank_of_isAlphanum (h c hc)
  have hopen : ∀ rest, name ≠ '(' :: rest := by
    rintro rest rfl
    exact absurd (h _ List.mem_cons_self) (by decide)
  rw [splitHead_of_trim htrim hopen, List.dropWhile_eq_nil_iff.2 (ne_open_of_isAlphanum h)]

/-- The head of a tag: the name of its function and the words in parentheses. -/
def headOf (f : Function) (words : List Word) : Text :=
  f.name ++ '(' :: ([','].intercalate (words.map (·.text)) ++ [')'])

theorem headChar_of_mem_headOf (f : Function) (words : List Word) :
    ∀ c ∈ headOf f words, c.isAlphanum = true ∨ c ∈ ['(', ',', ')'] := by
  intro c h
  simp only [headOf, List.mem_append, List.mem_cons, List.not_mem_nil, or_false] at h
  rcases h with h | rfl | h | rfl
  · exact .inl (f.isAlphanum_of_mem_name c h)
  · exact .inr (by decide)
  · rcases Text.eq_or_exists_of_mem_intercalate h with rfl | ⟨text, ht, hc⟩
    · exact .inr (by decide)
    · obtain ⟨word, -, rfl⟩ := List.mem_map.1 ht
      exact .inl (word.isAlphanum c hc)
  · exact .inr (by decide)

theorem splitHead_behind {name : Text} (hname : ∀ c ∈ name, c.isAlphanum = true) (hne : name ≠ [])
    (modifiers : Text) : splitHead (name ++ '(' :: (modifiers ++ [')'])) = (name, modifiers) := by
  have hfirst : ∀ c ∈ (name ++ '(' :: (modifiers ++ [')'])).head?, c ∈ name := by
    intro c hc
    obtain ⟨d, ds, rfl⟩ := List.exists_cons_of_ne_nil hne
    cases hc
    exact List.mem_cons_self
  have hlast : ∀ c ∈ (name ++ '(' :: (modifiers ++ [')'])).getLast?, isBlank c = false := by
    intro c hc
    rw [← List.cons_append, ← List.append_assoc, List.getLast?_concat] at hc
    cases hc
    decide
  have htrim := Text.trim_of_ends (fun c hc => isBlank_of_isAlphanum (hname c (hfirst c hc))) hlast
  have hopen : ∀ rest, name ++ '(' :: (modifiers ++ [')']) ≠ '(' :: rest := by
    intro rest he
    rw [he] at hfirst
    exact absurd (hname '(' (hfirst '(' rfl)) (by decide)
  have hnameTrim := Text.trim_of_not_blank fun c hc => isBlank_of_isAlphanum (hname c hc)
  have hstop := ne_open_of_isAlphanum hname
  rw [splitHead_of_trim htrim hopen, List.dropWhile_append_of_pos hstop,
    List.takeWhile_append_of_pos hstop, List.dropWhile_cons_of_neg (by simp),
    List.takeWhile_cons_of_neg (by simp), List.append_nil]
  simp only [hnameTrim, List.getLast?_concat, List.dropLast_concat, ite_true]

theorem splitHead_front {modifiers name : Text} (hclose : ')' ∉ modifiers) (hne : name ≠ [])
    (htrim : name.trim = name) (hlast : ∀ c ∈ name.getLast?, isBlank c = false) :
    splitHead ('(' :: (modifiers ++ ')' :: name)) = (name, modifiers) := by
  have hend : ∀ c ∈ ('(' :: (modifiers ++ ')' :: name)).getLast?, isBlank c = false := by
    intro c hc
    have hname : '(' :: (modifiers ++ ')' :: name) = ('(' :: (modifiers ++ [')'])) ++ name := by simp
    rw [hname, List.getLast?_append, List.getLast?_eq_some_getLast hne, Option.some_or] at hc
    exact hlast c ((List.getLast?_eq_some_getLast hne).trans hc)
  have hhead : Text.trim ('(' :: (modifiers ++ ')' :: name)) = '(' :: (modifiers ++ ')' :: name) := by
    refine Text.trim_of_ends ?_ hend
    intro c hc
    cases hc
    decide
  have hstop : ∀ c ∈ modifiers, decide (c ≠ ')') = true := by
    intro c hc
    refine decide_eq_true ?_
    rintro rfl
    exact hclose hc
  unfold splitHead
  rw [hhead]
  simp only [List.dropWhile_append_of_pos hstop, List.takeWhile_append_of_pos hstop]
  rw [List.dropWhile_cons_of_neg (by simp), List.takeWhile_cons_of_neg (by simp), List.append_nil]
  simp only [htrim]

theorem splitHead_headOf (f : Function) (words : List Word) :
    splitHead (headOf f words) = (f.name, [','].intercalate (words.map (·.text))) :=
  splitHead_behind f.isAlphanum_of_mem_name f.name_ne_nil _

/-- What may stand between two words. -/
def isSeparator (c : Char) : Bool := c = ',' || c = '|' || isBlank c

theorem spaced_words (words : List Word) : Text.Spaced isSeparator (words.map (·.text))
    ([','].intercalate (words.map (·.text))) := by
  refine Text.spaced_intercalate rfl ?_ ?_
  · intro text ht
    obtain ⟨word, -, rfl⟩ := List.mem_map.1 ht
    exact word.ne_nil
  · intro text ht c hc
    obtain ⟨word, -, rfl⟩ := List.mem_map.1 ht
    have hletter := word.isAlpha c hc
    have hcomma : c ≠ ',' := by
      rintro rfl
      cases hletter
    have hbar : c ≠ '|' := by
      rintro rfl
      cases hletter
    simp [isSeparator, hcomma, hbar, isBlank_of_isAlphanum (word.isAlphanum c hc)]

theorem modifierWords_intercalate (words : List Word) :
    modifierWords ([','].intercalate (words.map (·.text))) = words.map (·.text) :=
  (spaced_words words).words_eq

theorem wordReports_map (name : Text) (words : List Word) :
    wordReports name (words.map (·.text)) = [] := by
  rw [wordReports, List.map_eq_nil_iff, List.filter_eq_nil_iff]
  intro text ht
  obtain ⟨word, -, rfl⟩ := List.mem_map.1 ht
  rw [word.known]
  simp

theorem length_ofNat (directive : Text) (n : UInt64) :
    length directive (Decimal.ofNat n.toNat) = .silent (some n.toNat) := by
  have hdigit : ∀ c ∈ Decimal.ofNat n.toNat, c.isDigit = true := fun c => Decimal.isDigit_of_mem_ofNat
  have htrim : (Decimal.ofNat n.toNat).trim = Decimal.ofNat n.toNat :=
    Text.trim_of_not_blank fun _ hc => isBlank_of_isAlphanum (Decimal.isAlphanum_of_mem_ofNat hc)
  have htake : (Decimal.ofNat n.toNat).takeWhile Char.isDigit = Decimal.ofNat n.toNat :=
    List.takeWhile_eq_self_iff.2 hdigit
  have hdrop : (Decimal.ofNat n.toNat).dropWhile Char.isDigit = [] :=
    List.dropWhile_eq_nil_iff.2 hdigit
  have hlt : n.toNat < UInt64.size := n.toNat_lt_size
  simp only [length, htrim, htake, hdrop, Decimal.unsigned?_ofNat, if_pos hlt]
  rfl

variable {π : Type}

/-- A comma is the only special character of the text, if any. -/
def IsHead (head : Text) : Prop := ∀ c ∈ head, isSpecial c = true → c = ','

instance (head : Text) : Decidable (IsHead head) :=
  inferInstanceAs (Decidable (∀ c ∈ head, isSpecial c = true → c = ','))

theorem isHead_of_isAlphanum {name : Text} (h : ∀ c ∈ name, c.isAlphanum = true) : IsHead name := by
  intro c hc hspecial
  rw [isSpecial_of_isAlphanum (h c hc)] at hspecial
  cases hspecial

theorem isHead_headOf (f : Function) (words : List Word) : IsHead (headOf f words) := by
  intro c hc hspecial
  rcases headChar_of_mem_headOf f words c hc with h | h
  · rw [isSpecial_of_isAlphanum h] at hspecial
    cases hspecial
  · have hcomma : ∀ d ∈ ['(', ',', ')'], isSpecial d = true → d = ',' := by decide
    exact hcomma c h hspecial

namespace IsHead

variable {head : Text} (h : IsHead head)

include h

theorem not_mem {c : Char} (hspecial : isSpecial c = true) (hne : c ≠ ',') : c ∉ head :=
  fun hc => hne (h c hc hspecial)

theorem settled : head.Settled := Text.settled_of_not_mem (h.not_mem (by decide) (by decide))

theorem symbols_eq : symbols head = head.map .bare :=
  Text.symbols_of_not_mem (h.not_mem (by decide) (by decide))

theorem balanced : Balanced [] (symbols head) := by
  refine Balanced.of_plain fun s hs => ?_
  rw [h.symbols_eq] at hs
  obtain ⟨c, hc, rfl⟩ := List.mem_map.1 hs
  cases hspecial : isSpecial c with
  | false => exact Symbol.plain_bare hspecial (by decide)
  | true =>
    rw [h c hc hspecial]
    exact ⟨rfl, rfl, by decide⟩

theorem splitBare? (arguments : List Symbol) :
    Stencil.splitBare? ['=', ':'] (symbols head ++ .bare '=' :: arguments) =
      some (symbols head, arguments) := by
  refine splitBare?_append ?_ (by decide) arguments
  intro s hs c hc he
  rw [h.symbols_eq] at hs
  obtain ⟨d, hd, rfl⟩ := List.mem_map.1 hs
  cases he
  simp only [List.mem_cons, List.not_mem_nil, or_false] at hc
  rcases hc with rfl | rfl
  · exact h.not_mem (by decide) (by decide) hd
  · exact h.not_mem (by decide) (by decide) hd

theorem compile_eq {name modifiers : Text} (split : splitHead head = (name, modifiers))
    (options : Options) (nested : Nest π) (position : Nat) (arguments : List Symbol) :
    compile options nested position (symbols head ++ .bare '=' :: arguments) =
      match Directive.ofName? name.lower with
      | some d => directive d (written arguments)
      | none => call options nested name.lower modifiers (position + writtenSize (symbols head) + 1)
          arguments := by
  rw [compile]
  cases hdirective : Directive.ofName? name.lower with
  | none => simp only [h.splitBare?, written_symbols, split, hdirective]
  | some d => simp only [h.splitBare?, written_symbols, split, hdirective]

end IsHead

theorem call_words (options : Options) (nested : Nest π) (position : Nat) (f : Function)
    {modifiers : Text} {words : List Word} (known : modifierWords modifiers = words.map (·.text))
    (arguments : List Symbol) :
    call options nested f.name modifiers position arguments =
      ((Site.mk f ((Operators.empty.applyAll (words.map (·.meaning))).casingIn options.casing)
        nested).groups position arguments).map fun groups =>
          .tag ⟨f.name, some f, Operators.empty.applyAll (words.map (·.meaning)), groups⟩ := by
  rw [call, Resolution.ofName?_name, known, wordReports_map]
  simp only [operators, Option.bind_some, Option.getD_none, Word.filterMap_ofWord?, Option.map_some]
  rfl

theorem exists_compile_headOf (options : Options) (nested : Nest π) (position : Nat) (f : Function)
    (words : List Word) (arguments : List Symbol) :
    ∃ start, compile options nested position (symbols (headOf f words) ++ .bare '=' :: arguments) =
      ((Site.mk f ((Operators.empty.applyAll (words.map (·.meaning))).casingIn options.casing)
        nested).groups start arguments).map fun groups =>
          .tag ⟨f.name, some f, Operators.empty.applyAll (words.map (·.meaning)), groups⟩ := by
  refine ⟨position + writtenSize (symbols (headOf f words)) + 1, ?_⟩
  rw [(isHead_headOf f words).compile_eq (splitHead_headOf f words), Function.lower_name,
    Directive.ofName?_name]
  exact call_words options nested _ f (modifierWords_intercalate words) arguments

theorem compile_length {name : Text} {d : Directive}
    (alphanum : ∀ c ∈ name, c.isAlphanum = true) (lower : name.lower = name)
    (hd : Directive.ofName? name = some d) (options : Options) (nested : Nest π) (position : Nat)
    (arguments : List Symbol) :
    compile options nested position (symbols name ++ .bare '=' :: arguments) =
      directive d (written arguments) := by
  rw [(isHead_of_isAlphanum alphanum).compile_eq (splitHead_of_isAlphanum alphanum), lower, hd]

end Clause

end Stencil
