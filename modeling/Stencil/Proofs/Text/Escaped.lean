import Stencil.Escape

/-! # Reading escaped text

Symbols are written as the text they were read from. Texts one after the other are read one after
the other, unless a backslash at the end of the first takes the start of the second; and an escaped
text means the text that was escaped. -/
namespace Stencil

@[simp] theorem written_nil : written [] = [] := rfl

@[simp] theorem written_cons (s : Symbol) (source : List Symbol) :
    written (s :: source) = s.written ++ written source := rfl

@[simp] theorem written_append (xs ys : List Symbol) :
    written (xs ++ ys) = written xs ++ written ys :=
  List.flatMap_append

@[simp] theorem symbols_nil : symbols [] = [] := rfl

theorem symbols_escaped (c : Char) (cs : Text) :
    symbols ('\\' :: c :: cs) = .escaped c :: symbols cs := by
  rw [symbols]

theorem symbols_cons {c : Char} (h : c ≠ '\\') (cs : Text) :
    symbols (c :: cs) = .bare c :: symbols cs := by
  rw [symbols]
  · intro hc
    exact absurd hc h
  · intro _ _ hc
    exact absurd hc h

theorem written_symbols (text : Text) : written (symbols text) = text := by
  fun_induction symbols text with
  | case1 => rfl
  | case2 => rfl
  | case3 c cs ih => rw [written_cons, ih]; rfl
  | case4 c cs _ _ ih => rw [written_cons, ih]; rfl

theorem symbols_eq_nil_iff {text : Text} : symbols text = [] ↔ text = [] := by
  constructor
  · intro h
    rw [← written_symbols text, h]
    rfl
  · rintro rfl
    rfl

@[simp] theorem writtenSize_append (xs ys : List Symbol) :
    writtenSize (xs ++ ys) = writtenSize xs + writtenSize ys := by
  induction xs with
  | nil => exact (Nat.zero_add _).symm
  | cons s xs ih =>
    simp only [List.cons_append, writtenSize, List.foldr_cons] at ih ⊢
    rw [ih, Nat.add_assoc]

theorem writtenSize_cons (s : Symbol) (rest : List Symbol) :
    writtenSize (s :: rest) = s.size + writtenSize rest := rfl

theorem Symbol.size_pos (s : Symbol) : 0 < s.size := by
  cases s with
  | bare c => exact c.utf8Size_pos
  | escaped c => exact Nat.add_pos_left Nat.one_pos _
  | dangling => exact Nat.one_pos

theorem writtenSize_pos {source : List Symbol} (h : source ≠ []) : 0 < writtenSize source := by
  cases source with
  | nil => exact absurd rfl h
  | cons s rest => exact Nat.add_pos_left s.size_pos _

theorem writtenSize_symbols (text : Text) : writtenSize (symbols text) = text.size := by
  rw [← size_written, written_symbols]

/-- The symbols are those of the text that they are written as: no backslash stands bare among them, and
none waits for a character but at the end. -/
def Legible (source : List Symbol) : Prop := symbols (written source) = source

theorem legible_symbols (text : Text) : Legible (symbols text) := by
  rw [Legible, written_symbols]

theorem legible_nil : Legible [] := symbols_nil

theorem legible_cons_iff {s : Symbol} {rest : List Symbol} :
    Legible (s :: rest) ↔ s ≠ .bare '\\' ∧ (s = .dangling → rest = []) ∧ Legible rest := by
  unfold Legible
  cases s with
  | bare c =>
    by_cases hc : c = '\\'
    · subst hc
      simp only [written_cons, Symbol.written, List.cons_append, List.nil_append]
      cases written rest with
      | nil => simp [symbols]
      | cons d ds => simp [symbols_escaped]
    · simp [Symbol.written, symbols_cons hc, hc]
  | escaped c => simp [Symbol.written, symbols_escaped]
  | dangling =>
    cases rest with
    | nil => simp [Symbol.written, symbols]
    | cons t rest =>
      have hne : written (t :: rest) ≠ [] := by
        cases t <;> simp [Symbol.written]
      obtain ⟨c, cs, hcs⟩ := List.exists_cons_of_ne_nil hne
      rw [written_cons, Symbol.written, List.cons_append, List.nil_append, hcs, symbols_escaped]
      simp

namespace Legible

variable {front back : List Symbol}

theorem left (h : Legible (front ++ back)) : Legible front := by
  induction front with
  | nil => exact legible_nil
  | cons s front ih =>
    obtain ⟨hbare, hdangling, hrest⟩ := legible_cons_iff.1 h
    refine legible_cons_iff.2 ⟨hbare, ?_, ih hrest⟩
    intro hs
    exact (List.append_eq_nil_iff.1 (hdangling hs)).1

theorem right (h : Legible (front ++ back)) : Legible back := by
  induction front with
  | nil => exact h
  | cons s front ih => exact ih (legible_cons_iff.1 h).2.2

theorem dangling_not_mem (h : Legible (front ++ back)) (hback : back ≠ []) : .dangling ∉ front := by
  induction front with
  | nil => exact List.not_mem_nil
  | cons s front ih =>
    obtain ⟨-, hdangling, hrest⟩ := legible_cons_iff.1 h
    intro hmem
    rcases List.mem_cons.1 hmem with hs | hmem
    · exact hback (List.append_eq_nil_iff.1 (hdangling hs.symm)).2
    · exact ih hrest hmem

theorem unescape_written (h : Legible front) : (written front).unescape = meant front := by
  rw [Text.unescape, h]

end Legible

namespace Text

/-- What holds of all characters of a text is decided on the text, not on all characters. -/
instance (priority := 2000) decidableForallMem (text : Text) (p : Char → Prop) [DecidablePred p] :
    Decidable (∀ c ∈ text, p c) :=
  List.decidableBAll p text

/-- No backslash at the end waits for a character. -/
def Settled (text : Text) : Prop := .dangling ∉ symbols text

theorem settled_nil : Settled [] := List.not_mem_nil

theorem Settled.symbols_append {a : Text} (h : a.Settled) (b : Text) :
    symbols (a ++ b) = symbols a ++ symbols b := by
  unfold Settled at h
  fun_induction symbols a with
  | case1 => rfl
  | case2 => exact absurd List.mem_cons_self h
  | case3 c cs ih =>
    rw [List.cons_append, List.cons_append, symbols_escaped, ih (List.not_mem_of_not_mem_cons h)]
    rfl
  | case4 c cs hend hc ih =>
    have hne : c ≠ '\\' := by
      rintro rfl
      cases cs with
      | nil => exact hend rfl rfl
      | cons d ds => exact hc d ds rfl rfl
    rw [List.cons_append, symbols_cons hne, ih (List.not_mem_of_not_mem_cons h)]
    rfl

theorem Settled.append {a b : Text} (ha : a.Settled) (hb : b.Settled) : (a ++ b).Settled := by
  rw [Settled, ha.symbols_append, List.mem_append]
  exact not_or.2 ⟨ha, hb⟩

theorem Settled.cons {c : Char} (h : c ≠ '\\') {text : Text} (ht : text.Settled) :
    Settled (c :: text) := by
  rw [Settled, symbols_cons h]
  exact List.not_mem_cons_of_ne_of_not_mem Symbol.noConfusion ht

theorem settled_flatMap {α : Type} {f : α → Text} {xs : List α} (h : ∀ x ∈ xs, (f x).Settled) :
    Settled (xs.flatMap f) := by
  induction xs with
  | nil => exact settled_nil
  | cons x xs ih =>
    rw [List.flatMap_cons]
    exact (h x List.mem_cons_self).append (ih fun y hy => h y (List.mem_cons_of_mem _ hy))

theorem symbols_flatMap {α : Type} {f : α → Text} {xs : List α} (h : ∀ x ∈ xs, (f x).Settled) :
    symbols (xs.flatMap f) = xs.flatMap fun x => symbols (f x) := by
  induction xs with
  | nil => rfl
  | cons x xs ih =>
    rw [List.flatMap_cons, List.flatMap_cons, (h x List.mem_cons_self).symbols_append,
      ih fun y hy => h y (List.mem_cons_of_mem _ hy)]

theorem symbols_of_not_mem {text : Text} (h : '\\' ∉ text) : symbols text = text.map .bare := by
  induction text with
  | nil => rfl
  | cons c cs ih =>
    have hc : c ≠ '\\' := (List.ne_of_not_mem_cons h).symm
    rw [symbols_cons hc, ih (List.not_mem_of_not_mem_cons h), List.map_cons]

theorem settled_of_not_mem {text : Text} (h : '\\' ∉ text) : text.Settled := by
  rw [Settled, symbols_of_not_mem h]
  simp

theorem meant_symbols_of_not_mem {text : Text} (h : '\\' ∉ text) : meant (symbols text) = text := by
  rw [symbols_of_not_mem h, meant, List.map_map]
  exact List.map_id text

section

variable {separator : Char} (h : separator ≠ '\\') {pieces : List Text}
  (settled : ∀ piece ∈ pieces, piece.Settled)

include h settled

theorem settled_intercalate : Settled ([separator].intercalate pieces) := by
  induction pieces with
  | nil => exact settled_nil
  | cons piece rest ih =>
    have hpiece := settled piece List.mem_cons_self
    have hrest := ih fun p hp => settled p (List.mem_cons_of_mem _ hp)
    cases rest with
    | nil => simpa using hpiece
    | cons next rest =>
      rw [List.intercalate_cons_cons]
      exact (hpiece.append (settled_nil.cons h)).append hrest

theorem symbols_intercalate :
    symbols ([separator].intercalate pieces) =
      [.bare separator].intercalate (pieces.map symbols) := by
  induction pieces with
  | nil => rfl
  | cons piece rest ih =>
    have hpiece := settled piece List.mem_cons_self
    have hrest := ih fun p hp => settled p (List.mem_cons_of_mem _ hp)
    cases rest with
    | nil => simp
    | cons next rest =>
      rw [List.intercalate_cons_cons, (hpiece.append (settled_nil.cons h)).symbols_append,
        hpiece.symbols_append, hrest, symbols_cons h]
      simp only [List.map_cons, List.intercalate_cons_cons, symbols_nil]

end

theorem escape_cons (c : Char) (cs : Text) :
    escape (c :: cs) = (if isSpecial c then ['\\', c] else [c]) ++ escape cs := rfl

theorem symbols_escape (text : Text) :
    symbols text.escape = text.map fun c => if isSpecial c then .escaped c else .bare c := by
  induction text with
  | nil => rfl
  | cons c cs ih =>
    rw [escape_cons, List.map_cons]
    by_cases hc : isSpecial c = true
    · rw [if_pos hc, if_pos hc, List.cons_append, List.cons_append, symbols_escaped]
      exact congrArg _ ih
    · have hne : c ≠ '\\' := by
        rintro rfl
        exact hc rfl
      rw [if_neg hc, if_neg hc, List.cons_append, symbols_cons hne]
      exact congrArg _ ih

theorem ne_bare_of_mem_escape {text : Text} {s : Symbol} (hs : s ∈ symbols text.escape) {c : Char}
    (hc : isSpecial c = true) : s ≠ .bare c := by
  rw [symbols_escape] at hs
  obtain ⟨d, -, rfl⟩ := List.mem_map.1 hs
  intro he
  split at he
  case isTrue => cases he
  case isFalse hd =>
    cases he
    exact hd hc

theorem settled_escape (text : Text) : text.escape.Settled := by
  rw [Settled, symbols_escape]
  intro h
  obtain ⟨c, -, hc⟩ := List.mem_map.1 h
  split at hc <;> cases hc

theorem meant_symbols_escape (text : Text) : meant (symbols text.escape) = text := by
  rw [symbols_escape, meant, List.map_map]
  have hmeant : (Symbol.meant ∘ fun c => if isSpecial c then Symbol.escaped c else .bare c) = id := by
    funext c
    by_cases hc : isSpecial c = true
    · simp only [Function.comp_apply, if_pos hc]
      rfl
    · simp only [Function.comp_apply, if_neg hc]
      rfl
  rw [hmeant, List.map_id]

end Text

end Stencil
