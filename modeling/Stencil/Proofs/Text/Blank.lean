import Stencil.Proofs.Text.Escaped
import Stencil.Text.Blank

/-! # Trimming and words

Text without blank characters at its ends is not trimmed, and words that stand apart from each other in a
text, in whatever way, are its words (`Text.Spaced.words_eq`). Letters and digits are neither blank nor
special. -/
namespace Stencil

theorem isBlank_of_isAlphanum {c : Char} (h : c.isAlphanum = true) : isBlank c = false := by
  have hrange : 48 ≤ c.toNat ∧ c.toNat ≤ 122 := by
    have hclasses : ((decide (c.val ≥ 65 ∧ c.val ≤ 90) ||
        decide (c.val ≥ 97) && decide (c.val ≤ 122)) ||
        decide (c.val ≥ 48) && decide (c.val ≤ 57)) = true := h
    have hval : c.val.toNat = c.toNat := rfl
    simp only [Bool.or_eq_true, Bool.and_eq_true, decide_eq_true_eq, ge_iff_le,
      UInt32.le_iff_toNat_le, hval, UInt32.reduceToNat] at hclasses
    omega
  simp only [isBlank, inRanges, blankRanges, List.any_cons, List.any_nil, Bool.or_false,
    Bool.or_eq_false_iff, Bool.and_eq_false_iff, decide_eq_false_iff_not]
  omega

theorem isSpecial_of_isBlank {c : Char} (h : isBlank c = true) : isSpecial c = false := by
  cases hc : isSpecial c with
  | false => rfl
  | true =>
    have hnone : ∀ d ∈ ['\\', '%', '[', ']', '\x7b', '\x7d', ',', ';', '=', ':'], isBlank d = false := by
      decide
    rw [hnone c (of_decide_eq_true hc)] at h
    cases h

theorem isSpecial_of_isAlphanum {c : Char} (h : c.isAlphanum = true) : isSpecial c = false := by
  cases hc : isSpecial c with
  | false => rfl
  | true =>
    have hmem := of_decide_eq_true hc
    simp only [List.mem_cons, List.not_mem_nil, or_false] at hmem
    rcases hmem with rfl | rfl | rfl | rfl | rfl | rfl | rfl | rfl | rfl | rfl <;> cases h

namespace Text

theorem trim_of_ends {text : Text} (first : ∀ c ∈ text.head?, isBlank c = false)
    (last : ∀ c ∈ text.getLast?, isBlank c = false) : text.trim = text := by
  have hkeep (t : Text) (ht : ∀ c ∈ t.head?, isBlank c = false) : t.dropWhile isBlank = t := by
    cases t with
    | nil => rfl
    | cons c cs => exact List.dropWhile_cons_of_neg (by simp [ht c rfl])
  have hreverse : ∀ c ∈ text.reverse.head?, isBlank c = false := by
    rw [List.head?_reverse]
    exact last
  rw [trim, trimStart, hkeep text first, trimEnd, hkeep _ hreverse, List.reverse_reverse]

theorem trim_of_not_blank {text : Text} (h : ∀ c ∈ text, isBlank c = false) : text.trim = text :=
  trim_of_ends (fun c hc => h c (List.mem_of_head? hc)) fun c hc => h c (List.mem_of_getLast? hc)

theorem fields_append {separates : Char → Bool} {front : Text}
    (h : ∀ c ∈ front, separates c = false) (rest : Text) :
    fields separates (front ++ rest) = (fields separates rest).modifyHead (front ++ ·) := by
  induction front with
  | nil =>
    rw [List.nil_append]
    cases fields separates rest <;> rfl
  | cons c cs ih =>
    rw [List.cons_append, fields, h c List.mem_cons_self,
      ih fun d hd => h d (List.mem_cons_of_mem _ hd)]
    cases fields separates rest <;> rfl

theorem fields_ne_nil (separates : Char → Bool) (text : Text) : fields separates text ≠ [] := by
  induction text with
  | nil => exact List.cons_ne_nil _ _
  | cons c cs ih =>
    rw [fields]
    split
    · exact List.cons_ne_nil _ _
    · obtain ⟨field, rest, hrest⟩ := List.exists_cons_of_ne_nil ih
      rw [hrest]
      exact List.cons_ne_nil _ _

theorem fields_append_separator {separates : Char → Bool} {c : Char} (hc : separates c = true)
    (front back : Text) :
    fields separates (front ++ c :: back) = fields separates front ++ fields separates back := by
  induction front with
  | nil =>
    rw [List.nil_append, fields]
    exact if_pos hc
  | cons d ds ih =>
    rw [List.cons_append, fields, fields, ih]
    split
    · rfl
    · obtain ⟨field, rest, hrest⟩ := List.exists_cons_of_ne_nil (fields_ne_nil separates ds)
      rw [hrest]
      rfl

section

variable {separates : Char → Bool}

theorem words_append_separator {c : Char} (hc : separates c = true) (front back : Text) :
    words separates (front ++ c :: back) = words separates front ++ words separates back := by
  rw [words, fields_append_separator hc, List.filter_append]
  rfl

theorem words_gap_append {gap : Text} (h : ∀ c ∈ gap, separates c = true) (rest : Text) :
    words separates (gap ++ rest) = words separates rest := by
  induction gap with
  | nil => rfl
  | cons c cs ih =>
    rw [List.cons_append, ← ih fun d hd => h d (List.mem_cons_of_mem _ hd)]
    exact words_append_separator (h c List.mem_cons_self) [] (cs ++ rest)

theorem words_word {word : Text} (hne : word ≠ []) (h : ∀ c ∈ word, separates c = false) :
    words separates word = [word] := by
  have hfields := fields_append h []
  rw [List.append_nil] at hfields
  rw [words, hfields, fields, List.modifyHead_cons, List.append_nil, List.filter_eq_self]
  intro field hfield
  rw [List.mem_singleton.1 hfield]
  simpa using hne

/-- The words stand in the text in this order, each apart from the next, and all else are separators. -/
inductive Spaced (separates : Char → Bool) : List Text → Text → Prop where
  | gap {gap : Text} : (∀ c ∈ gap, separates c = true) → Spaced separates [] gap
  | word {gap word rest : Text} {words : List Text} :
    (∀ c ∈ gap, separates c = true) → word ≠ [] → (∀ c ∈ word, separates c = false) →
    (∀ c ∈ rest.head?, separates c = true) → Spaced separates words rest →
    Spaced separates (word :: words) (gap ++ (word ++ rest))

theorem Spaced.cons {c : Char} (hc : separates c = true) {pieces : List Text} {text : Text}
    (h : Spaced separates pieces text) : Spaced separates pieces (c :: text) := by
  cases h with
  | gap hgap => exact .gap (List.forall_mem_cons.2 ⟨hc, hgap⟩)
  | word hgap hne hword hrest h => exact .word (List.forall_mem_cons.2 ⟨hc, hgap⟩) hne hword hrest h

theorem Spaced.words_eq {pieces : List Text} {text : Text} (h : Spaced separates pieces text) :
    words separates text = pieces := by
  induction h with
  | gap hgap =>
    have hwords := words_gap_append hgap []
    rw [List.append_nil] at hwords
    exact hwords
  | @word gap word rest pieces hgap hne hword hrest _ ih =>
    rw [words_gap_append hgap]
    cases rest with
    | nil =>
      rw [List.append_nil, words_word hne hword, ← ih]
      rfl
    | cons c cs =>
      have hskip : words separates (c :: cs) = words separates cs :=
        words_append_separator (hrest c rfl) [] cs
      rw [words_append_separator (hrest c rfl), words_word hne hword, ← ih, hskip]
      rfl

theorem Spaced.separates_or {pieces : List Text} {text : Text} (h : Spaced separates pieces text) :
    ∀ c ∈ text, separates c = true ∨ ∃ piece ∈ pieces, c ∈ piece := by
  induction h with
  | gap hgap => exact fun c hc => .inl (hgap c hc)
  | word hgap _ _ _ _ ih =>
    intro c hc
    rcases List.mem_append.1 hc with hc | hc
    · exact .inl (hgap c hc)
    · rcases List.mem_append.1 hc with hc | hc
      · exact .inr ⟨_, List.mem_cons_self, hc⟩
      · rcases ih c hc with hs | ⟨piece, hp, hc⟩
        · exact .inl hs
        · exact .inr ⟨piece, List.mem_cons_of_mem _ hp, hc⟩

theorem spaced_intercalate {c : Char} (hc : separates c = true) {pieces : List Text}
    (hne : ∀ piece ∈ pieces, piece ≠ []) (h : ∀ piece ∈ pieces, ∀ d ∈ piece, separates d = false) :
    Spaced separates pieces ([c].intercalate pieces) := by
  induction pieces with
  | nil => exact .gap (by simp)
  | cons piece rest ih =>
    have hpiece := hne piece List.mem_cons_self
    have hword := h piece List.mem_cons_self
    have hrest := ih (fun p hp => hne p (List.mem_cons_of_mem _ hp))
      fun p hp => h p (List.mem_cons_of_mem _ hp)
    have hnogap : ∀ d ∈ ([] : Text), separates d = true := fun _ hd => absurd hd List.not_mem_nil
    cases rest with
    | nil =>
      have hlast : Spaced separates [piece] ([] ++ (piece ++ [])) :=
        .word hnogap hpiece hword (fun _ hd => absurd hd (Option.not_mem_none _)) (.gap hnogap)
      rw [List.nil_append, List.append_nil] at hlast
      rw [List.intercalate_singleton]
      exact hlast
    | cons next rest =>
      have hmore : ∀ d ∈ (c :: [c].intercalate (next :: rest)).head?, separates d = true := by
        intro d hd
        cases hd
        exact hc
      rw [List.intercalate_cons_cons, List.append_assoc]
      exact .word hnogap hpiece hword hmore (hrest.cons hc)

end

end Text

end Stencil
