import Stencil.Proofs.Text.Escaped
import Stencil.Source.Bracket

/-! # Balanced source

In a balanced source every bracket has its partner. Looking for the end of an enclosing bracket
passes over such a source, and so does splitting at separators that it has only within brackets. A balanced
text is read to such a source. -/
namespace Stencil

namespace Bracket

def opener : Bracket → Symbol
  | square => .bare '['
  | curly => .bare '\x7b'

def closer : Bracket → Symbol
  | square => .bare ']'
  | curly => .bare '\x7d'

@[simp] theorem opened?_opener (b : Bracket) : opened? b.opener = some b := by cases b <;> rfl

@[simp] theorem closed?_opener (b : Bracket) : closed? b.opener = none := by cases b <;> rfl

@[simp] theorem opened?_closer (b : Bracket) : opened? b.closer = none := by cases b <;> rfl

@[simp] theorem closed?_closer (b : Bracket) : closed? b.closer = some b := by cases b <;> rfl

theorem opened?_eq_some_iff {s : Symbol} {b : Bracket} : opened? s = some b ↔ s = b.opener := by
  constructor
  · intro h
    unfold opened? at h
    split at h <;> cases h <;> rfl
  · rintro rfl
    exact opened?_opener b

theorem closed?_eq_some_iff {s : Symbol} {b : Bracket} : closed? s = some b ↔ s = b.closer := by
  constructor
  · intro h
    unfold closed? at h
    split at h <;> cases h <;> rfl
  · rintro rfl
    exact closed?_closer b

theorem pass_opener (b : Bracket) (nesting : Nesting) : pass nesting b.opener = b :: nesting := by
  rw [pass, opened?_opener]

theorem pass_closer (b : Bracket) (nesting : Nesting) : pass (b :: nesting) b.closer = nesting := by
  simp only [pass, opened?_closer, closed?_closer, close]
  rw [List.dropWhile_cons_of_neg (by simp)]

theorem isEnd_of_closed? {b : Bracket} {s : Symbol} (h : closed? s = none) (nesting : Nesting) :
    b.isEnd nesting s = false := by
  rw [isEnd, h]
  rfl

theorem isEnd_closer_cons (b inner : Bracket) (nesting : Nesting) :
    b.isEnd (inner :: nesting) inner.closer = false := by
  rw [isEnd, closed?_closer]
  by_cases h : inner = b
  · subst h
    simp
  · simp [h]

theorem isEnd_closer (b : Bracket) : b.isEnd [] b.closer = true := by
  rw [isEnd, closed?_closer]
  simp

end Bracket

/-- A character that is no bracket and takes no meaning away. -/
def isOrdinary (c : Char) : Bool := c ∉ ['\\', '[', ']', '\x7b', '\x7d']

namespace Symbol

/-- The symbol is no bracket and none of the separators. -/
structure Plain (separators : List Char) (s : Symbol) : Prop where
  opens : Bracket.opened? s = none
  closes : Bracket.closed? s = none
  apart : ∀ c ∈ separators, s ≠ .bare c

theorem plain_escaped (separators : List Char) (c : Char) : Plain separators (.escaped c) :=
  ⟨rfl, rfl, fun _ _ => Symbol.noConfusion⟩

theorem plain_of_isOrdinary {separators : List Char} {c : Char} (hc : isOrdinary c = true)
    (apart : c ∉ separators) : Plain separators (.bare c) where
  opens := by
    cases ho : Bracket.opened? (.bare c) with
    | none => rfl
    | some b =>
      have he := Bracket.opened?_eq_some_iff.1 ho
      cases b <;> cases he <;> cases hc
  closes := by
    cases ho : Bracket.closed? (.bare c) with
    | none => rfl
    | some b =>
      have he := Bracket.closed?_eq_some_iff.1 ho
      cases b <;> cases he <;> cases hc
  apart := by
    rintro d hd he
    cases he
    exact apart hd

theorem plain_bare {separators : List Char} {c : Char} (hc : isSpecial c = false)
    (h : ∀ d ∈ separators, isSpecial d = true) : Plain separators (.bare c) := by
  have hspecial : ∀ d ∈ ['\\', '[', ']', '\x7b', '\x7d'], isSpecial d = true := by decide
  refine plain_of_isOrdinary (decide_eq_true fun hmem => ?_) fun hmem => ?_
  · rw [hspecial c hmem] at hc
    cases hc
  · rw [h c hmem] at hc
    cases hc

theorem Plain.pass_eq {separators : List Char} {s : Symbol} (hs : s.Plain separators)
    (nesting : Nesting) : Bracket.pass nesting s = nesting := by
  rw [Bracket.pass, hs.opens, hs.closes]

end Symbol

/-- Brackets in pairs, and outside of them none of the separators. -/
inductive Balanced : (separators : List Char) → List Symbol → Prop where
  | nil {separators : List Char} : Balanced separators []
  | plain {separators : List Char} {s : Symbol} {rest : List Symbol} :
    s.Plain separators → Balanced separators rest → Balanced separators (s :: rest)
  | wrap {separators : List Char} {inner rest : List Symbol} (b : Bracket) :
    Balanced [] inner → Balanced separators rest →
    Balanced separators (b.opener :: (inner ++ b.closer :: rest))

namespace Balanced

variable {separators : List Char}

theorem append {xs ys : List Symbol} (hx : Balanced separators xs) (hy : Balanced separators ys) :
    Balanced separators (xs ++ ys) := by
  induction hx with
  | nil => exact hy
  | plain hs _ ih => exact .plain hs (ih hy)
  | wrap b hinner _ _ ih =>
    rw [List.cons_append, List.append_assoc, List.cons_append]
    exact .wrap b hinner (ih hy)

theorem mono {fewer : List Char} {source : List Symbol} (h : Balanced separators source)
    (sub : ∀ c ∈ fewer, c ∈ separators) : Balanced fewer source := by
  induction h with
  | nil => exact .nil
  | plain hs _ ih => exact .plain ⟨hs.opens, hs.closes, fun c hc => hs.apart c (sub c hc)⟩ (ih sub)
  | wrap b hinner _ _ ih => exact .wrap b hinner (ih sub)

theorem of_plain {source : List Symbol} (h : ∀ s ∈ source, s.Plain separators) :
    Balanced separators source := by
  induction source with
  | nil => exact .nil
  | cons s rest ih =>
    exact .plain (h s List.mem_cons_self) (ih fun t ht => h t (List.mem_cons_of_mem _ ht))

theorem flatMap {α : Type} {f : α → List Symbol} {xs : List α}
    (h : ∀ x ∈ xs, Balanced separators (f x)) : Balanced separators (xs.flatMap f) := by
  induction xs with
  | nil => exact .nil
  | cons x xs ih =>
    rw [List.flatMap_cons]
    exact (h x List.mem_cons_self).append (ih fun y hy => h y (List.mem_cons_of_mem _ hy))

theorem intercalate {c : Char} {pieces : List (List Symbol)}
    (hc : Symbol.Plain separators (.bare c)) (h : ∀ piece ∈ pieces, Balanced separators piece) :
    Balanced separators ([.bare c].intercalate pieces) := by
  induction pieces with
  | nil => exact .nil
  | cons piece rest ih =>
    have hpiece := h piece List.mem_cons_self
    have hrest := ih fun p hp => h p (List.mem_cons_of_mem _ hp)
    cases rest with
    | nil => simpa using hpiece
    | cons next rest =>
      rw [List.intercalate_cons_cons]
      exact (hpiece.append (.plain hc .nil)).append hrest

theorem escape (text : Text) (h : ∀ c ∈ separators, isSpecial c = true) :
    Balanced separators (symbols text.escape) := by
  refine of_plain ?_
  intro s hs
  rw [Text.symbols_escape] at hs
  obtain ⟨c, -, rfl⟩ := List.mem_map.1 hs
  split
  case isTrue => exact Symbol.plain_escaped separators c
  case isFalse hc => exact Symbol.plain_bare (Bool.eq_false_iff.2 hc) h

end Balanced

namespace Bracket

def opening : Bracket → Char
  | square => '['
  | curly => '\x7b'

def closing : Bracket → Char
  | square => ']'
  | curly => '\x7d'

theorem opener_eq (b : Bracket) : b.opener = .bare b.opening := by cases b <;> rfl

theorem closer_eq (b : Bracket) : b.closer = .bare b.closing := by cases b <;> rfl

theorem symbols_opening (b : Bracket) (rest : Text) :
    symbols (b.opening :: rest) = b.opener :: symbols rest := by
  rw [opener_eq]
  exact symbols_cons (by cases b <;> decide) rest

theorem symbols_closing (b : Bracket) (rest : Text) :
    symbols (b.closing :: rest) = b.closer :: symbols rest := by
  rw [closer_eq]
  exact symbols_cons (by cases b <;> decide) rest

end Bracket

/-- Ordinary characters, escaped ones and brackets in pairs, and outside of brackets none of the
separators but escaped. -/
inductive Text.Balanced : (separators : List Char) → Text → Prop where
  | nil {separators : List Char} : Balanced separators []
  | ordinary {separators : List Char} {c : Char} {rest : Text} :
    isOrdinary c = true → c ∉ separators → Balanced separators rest → Balanced separators (c :: rest)
  | escaped {separators : List Char} {rest : Text} (c : Char) :
    Balanced separators rest → Balanced separators ('\\' :: c :: rest)
  | wrap {separators : List Char} {inner rest : Text} (b : Bracket) :
    Balanced [] inner → Balanced separators rest →
    Balanced separators (b.opening :: (inner ++ b.closing :: rest))

namespace Text.Balanced

variable {separators : List Char} {text : Text}

theorem settled (h : text.Balanced separators) : text.Settled := by
  induction h with
  | nil => exact settled_nil
  | @ordinary _ c _ hc _ _ ih =>
    refine ih.cons ?_
    rintro rfl
    cases hc
  | escaped c _ ih =>
    rw [Settled, symbols_escaped]
    exact List.not_mem_cons_of_ne_of_not_mem Symbol.noConfusion ih
  | wrap b _ _ ih ih' =>
    have hopening : b.opening ≠ '\\' := by cases b <;> decide
    have hclosing : b.closing ≠ '\\' := by cases b <;> decide
    exact (ih.append (ih'.cons hclosing)).cons hopening

theorem symbols (h : text.Balanced separators) : Stencil.Balanced separators (symbols text) := by
  induction h with
  | nil => exact .nil
  | @ordinary _ c _ hc apart _ ih =>
    have hslash : c ≠ '\\' := by
      rintro rfl
      cases hc
    rw [symbols_cons hslash]
    exact .plain (Symbol.plain_of_isOrdinary hc apart) ih
  | escaped c _ ih =>
    rw [symbols_escaped]
    exact .plain (Symbol.plain_escaped _ c) ih
  | wrap b hinner _ ih ih' =>
    rw [b.symbols_opening, hinner.settled.symbols_append, b.symbols_closing]
    exact .wrap b ih ih'

end Text.Balanced

theorem Bracket.splitEnd?_append (b : Bracket) {separators : List Char} {source : List Symbol}
    (h : Balanced separators source) (nesting : Nesting) (rest : List Symbol) :
    b.splitEnd? nesting (source ++ rest) =
      (b.splitEnd? nesting rest).map fun (inner, outer) => (source ++ inner, outer) := by
  induction h generalizing nesting rest with
  | nil => cases hr : b.splitEnd? nesting rest <;> simp [hr]
  | @plain _ s source hs _ ih =>
    rw [List.cons_append, splitEnd?, isEnd_of_closed? hs.closes, hs.pass_eq, ih]
    cases b.splitEnd? nesting rest <;> rfl
  | @wrap _ inner source inside _ _ ih ih' =>
    rw [List.cons_append, List.append_assoc, List.cons_append, splitEnd?,
      isEnd_of_closed? (closed?_opener inside), pass_opener, ih, splitEnd?, isEnd_closer_cons,
      pass_closer, ih']
    cases b.splitEnd? nesting rest with
    | none => rfl
    | some split => simp

theorem Bracket.splitEnd?_closer (b : Bracket) {separators : List Char} {inner : List Symbol}
    (h : Balanced separators inner) (rest : List Symbol) :
    b.splitEnd? [] (inner ++ b.closer :: rest) = some (inner, rest) := by
  rw [b.splitEnd?_append h, splitEnd?, isEnd_closer]
  simp

section

variable {separator : Char} (hopen : Bracket.opened? (.bare separator) = none)

include hopen

/-- A source is not split where it has no separator outside of its brackets, and never within an
enclosing bracket. -/
theorem splitOutside_append {separators : List Char} {source : List Symbol}
    (h : Balanced separators source) {nesting : Nesting}
    (kept : nesting = [] → separator ∈ separators) (rest : List Symbol) :
    splitOutside separator nesting (source ++ rest) =
      (splitOutside separator nesting rest).modifyHead (source ++ ·) := by
  induction h generalizing nesting rest with
  | nil =>
    rw [List.nil_append]
    cases splitOutside separator nesting rest <;> rfl
  | @plain _ s source hs _ ih =>
    have hkeep : ¬(s = .bare separator ∧ nesting = []) :=
      fun ⟨he, hn⟩ => hs.apart separator (kept hn) he
    rw [List.cons_append, splitOutside, if_neg hkeep, hs.pass_eq, ih kept]
    cases splitOutside separator nesting rest <;> rfl
  | @wrap _ inner source b _ _ ih ih' =>
    have hopener : ¬(b.opener = .bare separator ∧ nesting = []) := by
      rintro ⟨he, -⟩
      rw [← he, Bracket.opened?_opener] at hopen
      cases hopen
    have hcloser : ¬(b.closer = .bare separator ∧ b :: nesting = []) := fun ⟨_, hn⟩ => by cases hn
    rw [List.cons_append, List.append_assoc, List.cons_append, splitOutside, if_neg hopener,
      Bracket.pass_opener, ih (fun hn => by cases hn), splitOutside, if_neg hcloser,
      Bracket.pass_closer, ih' kept]
    cases splitOutside separator nesting rest with
    | nil => rfl
    | cons piece rest => simp

theorem splitOutside_intercalate {pieces : List (List Symbol)} (hne : pieces ≠ [])
    (h : ∀ piece ∈ pieces, Balanced [separator] piece) :
    splitOutside separator [] ([.bare separator].intercalate pieces) = pieces := by
  induction pieces with
  | nil => exact absurd rfl hne
  | cons piece rest ih =>
    have hpiece := h piece List.mem_cons_self
    have hsep : ([] : Nesting) = [] → separator ∈ [separator] := fun _ => List.mem_singleton_self _
    cases rest with
    | nil =>
      have hs := splitOutside_append hopen hpiece hsep []
      rw [List.append_nil] at hs
      rw [List.intercalate_singleton, hs, splitOutside, List.modifyHead_cons, List.append_nil]
    | cons next rest =>
      have hrest := ih (List.cons_ne_nil _ _) fun p hp => h p (List.mem_cons_of_mem _ hp)
      rw [List.intercalate_cons_cons, List.append_assoc, splitOutside_append hopen hpiece hsep,
        List.singleton_append, splitOutside, if_pos ⟨rfl, rfl⟩, hrest, List.modifyHead_cons,
        List.append_nil]

theorem splitOutside_of_balanced {source : List Symbol} (h : Balanced [separator] source) :
    splitOutside separator [] source = [source] := by
  have hsplit := splitOutside_intercalate hopen (List.cons_ne_nil source [])
    (List.forall_mem_singleton.2 h)
  rwa [List.intercalate_singleton] at hsplit

end

end Stencil
