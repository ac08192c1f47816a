import Stencil.Proofs.Scan.Search
import Stencil.Proofs.Source.Pairing

/-! # The end of a bracket by byte positions

Looking for the end of a bracket from a position on finds the first closing bracket of its kind that is not
escaped, counting from there, and is paired with none that was opened behind the position. What is written
further on does not change what is found (`Scan.findEnd_exact`). -/
namespace Stencil

open Attempt

theorem Bracket.splitEnd?_of_found {b : Bracket} {nesting : Nesting} {inner outer : List Symbol}
    (h : b.splitEnd? nesting (inner ++ b.closer :: outer) = some (inner, outer)) (other : List Symbol) :
    b.splitEnd? nesting (inner ++ b.closer :: other) = some (inner, other) := by
  induction inner generalizing nesting with
  | nil =>
    rw [List.nil_append, splitEnd?] at h ⊢
    by_cases hend : b.isEnd nesting b.closer = true
    · rw [if_pos hend]
    · rw [if_neg hend] at h
      obtain ⟨⟨_, _⟩, -, hpair⟩ := Option.map_eq_some_iff.1 h
      cases hpair
  | cons s inner ih =>
    rw [List.cons_append, splitEnd?] at h ⊢
    by_cases hend : b.isEnd nesting s = true
    · rw [if_pos hend] at h
      cases h
    · rw [if_neg hend] at h ⊢
      obtain ⟨⟨front, back⟩, hrest, hpair⟩ := Option.map_eq_some_iff.1 h
      cases hpair
      rw [ih hrest]
      rfl

namespace Text

/-- Between two texts the bracket is closed that was opened in front of them: the closing bracket is not
escaped, is paired with none, and is the first of its kind like this. -/
structure Closes (b : Bracket) (inner rest : Text) : Prop where
  settled : inner.Settled
  ends : b.EndsAt (symbols (inner ++ b.closing :: rest)) 0 (symbols inner).length

theorem symbols_append_closing {inner : Text} (h : inner.Settled) (b : Bracket) (rest : Text) :
    symbols (inner ++ b.closing :: rest) = symbols inner ++ b.closer :: symbols rest := by
  rw [h.symbols_append, b.symbols_closing]

theorem splitEnd?_symbols_iff {b : Bracket} {tail : Text} {size : Nat} :
    ((b.splitEnd? [] (symbols tail)).map fun found => writtenSize found.1) = some size ↔
      ∃ inner rest, tail = inner ++ b.closing :: rest ∧ size = inner.size ∧ Closes b inner rest := by
  rw [Option.map_eq_some_iff]
  constructor
  · rintro ⟨⟨inner, outer⟩, hsplit, rfl⟩
    obtain ⟨hsource, hends⟩ := Bracket.splitEnd?_eq_some_iff.1 hsplit
    have hlegible := legible_symbols tail
    rw [hsource] at hlegible
    have htail : tail = written inner ++ b.closing :: written outer := by
      rw [← written_symbols tail, hsource, b.closer_eq]
      simp [Symbol.written]
    have hinner : symbols (written inner) = inner := hlegible.left
    refine ⟨written inner, written outer, htail, (size_written inner).symm, ?_, ?_⟩
    · rw [Settled, hinner]
      exact hlegible.dangling_not_mem (List.cons_ne_nil _ _)
    · rw [← htail, hinner]
      exact hends
  · rintro ⟨inner, rest, rfl, rfl, hcloses⟩
    have hsource := symbols_append_closing hcloses.settled b rest
    exact ⟨(symbols inner, symbols rest), Bracket.splitEnd?_eq_some_iff.2 ⟨hsource, hcloses.ends⟩,
      writtenSize_symbols inner⟩

theorem Closes.append {b : Bracket} {inner rest : Text} (h : Closes b inner rest) (more : Text) :
    Closes b inner (rest ++ more) := by
  have hsymbols := symbols_append_closing h.settled b
  have hsplit : b.splitEnd? [] (symbols inner ++ b.closer :: symbols rest) =
      some (symbols inner, symbols rest) := by
    rw [← hsymbols]
    exact Bracket.splitEnd?_eq_some_iff.2 ⟨hsymbols rest, h.ends⟩
  have hmore := Bracket.splitEnd?_of_found hsplit (symbols (rest ++ more))
  rw [← hsymbols] at hmore
  exact ⟨h.settled, (Bracket.splitEnd?_eq_some_iff.1 hmore).2⟩

/-- Where the end of a bracket stands that was opened before a position, if this is a position of the text. -/
def findEnd? (text : Text) (b : Bracket) (start : Nat) : Option Nat := do
  let tail ← text.slice? ⟨start, text.size⟩
  (b.splitEnd? [] (symbols tail)).map fun found => start + writtenSize found.1

theorem findEnd?_append (before tail : Text) (b : Bracket) : findEnd? (before ++ tail) b before.size =
    (b.splitEnd? [] (symbols tail)).map fun found => before.size + writtenSize found.1 := by
  have htail : (before ++ tail).slice? ⟨before.size, (before ++ tail).size⟩ = some tail :=
    slice?_to_end_iff.2 ⟨before, rfl, rfl⟩
  rw [findEnd?, htail]
  rfl

theorem findEnd?_eq_some_iff {text : Text} {b : Bracket} {start stop : Nat} :
    text.findEnd? b start = some stop ↔
      ∃ before inner rest, text = before ++ (inner ++ b.closing :: rest) ∧ start = before.size ∧
        stop = start + inner.size ∧ Closes b inner rest := by
  constructor
  · intro h
    obtain ⟨tail, htail, -⟩ := Option.bind_eq_some_iff.1 h
    obtain ⟨before, rfl, rfl⟩ := slice?_to_end_iff.1 htail
    rw [findEnd?_append] at h
    obtain ⟨found, hfound, rfl⟩ := Option.map_eq_some_iff.1 h
    obtain ⟨inner, rest, rfl, hsize, hcloses⟩ :=
      splitEnd?_symbols_iff.1 (Option.map_eq_some_iff.2 ⟨found, hfound, rfl⟩)
    exact ⟨before, inner, rest, rfl, rfl, by rw [hsize], hcloses⟩
  · rintro ⟨before, inner, rest, rfl, rfl, rfl, hcloses⟩
    obtain ⟨found, hfound, hsize⟩ :=
      Option.map_eq_some_iff.1 (splitEnd?_symbols_iff.2 ⟨inner, rest, rfl, rfl, hcloses⟩)
    rw [findEnd?_append, hfound, Option.map_some, hsize]

end Text

theorem Scan.findEnd_eq_ok_iff {text : Text} {b : Bracket} {start stop : Nat} :
    Scan.findEnd text b start = .ok (some stop) ↔ text.findEnd? b start = some stop := by
  rw [Scan.findEnd, bind_eq_ok_iff, Text.findEnd?, Option.bind_eq_bind, Option.bind_eq_some_iff]
  exact exists_congr fun tail => and_congr slice_eq_ok_iff ⟨Except.ok.inj, congrArg Except.ok⟩

theorem Text.findEnd?_balanced {inner : Text} (h : inner.Balanced []) (b : Bracket) (rest : Text) :
    findEnd? (inner ++ b.closing :: rest) b 0 = some inner.size := by
  have hfind := findEnd?_append [] (inner ++ b.closing :: rest) b
  rw [symbols_append_closing h.settled, b.splitEnd?_closer h.symbols, Option.map_some, size_nil,
    Nat.zero_add, writtenSize_symbols] at hfind
  exact hfind

/-- Behind a balanced text the closing bracket is found, whatever follows. In any text, from any position on,
a bracket's end is found exactly where its closing bracket stands, is not escaped, counting the escapes from
the position, is paired with no bracket that was opened behind the position, and is the first one like this.
It stays where it is when more is written behind the text, and the search that checks its bounds finds it. -/
theorem Text.findEnd?_exact (b : Bracket) :
    (∀ inner, inner.Balanced [] → ∀ rest, findEnd? (inner ++ b.closing :: rest) b 0 = some inner.size) ∧
    (∀ text start stop, findEnd? text b start = some stop ↔
      ∃ before inner rest, text = before ++ (inner ++ b.closing :: rest) ∧ start = before.size ∧
        stop = start + inner.size ∧ Closes b inner rest) ∧
    (∀ text start stop more, findEnd? text b start = some stop →
      findEnd? (text ++ more) b start = some stop) ∧
    ∀ text start stop, Scan.findEnd text b start = .ok (some stop) ↔ findEnd? text b start = some stop := by
  refine ⟨fun inner hinner rest => findEnd?_balanced hinner b rest, fun _ _ _ => findEnd?_eq_some_iff,
    fun text start stop more hfound => ?_, fun _ _ _ => Scan.findEnd_eq_ok_iff⟩
  obtain ⟨before, inner, rest, rfl, hstart, hstop, hcloses⟩ := findEnd?_eq_some_iff.1 hfound
  refine findEnd?_eq_some_iff.2 ⟨before, inner, rest ++ more, ?_, hstart, hstop, hcloses.append more⟩
  simp only [List.append_assoc, List.cons_append]

theorem Text.findEnd?_square :
    Balanced [] ['a', '\x7b', 'b', '\x7d', '\\', ']'] ∧
    findEnd? (['a', '\x7b', 'b', '\x7d', '\\', ']'] ++ ']' :: ['e']) .square 0 = some 6 ∧
    findEnd? ['a', '\x7b', 'b', ']'] .square 0 = some 3 ∧
    findEnd? (['a', '\x7b', 'b', ']'] ++ ['\x7d', ']']) .square 0 = some 3 := by
  have hbraces : Balanced [] ['\x7b', 'b', '\x7d', '\\', ']'] :=
    .wrap .curly (.ordinary rfl List.not_mem_nil .nil) (.escaped ']' .nil)
  have hinner := Balanced.ordinary (c := 'a') rfl List.not_mem_nil hbraces
  have hunended : findEnd? ['a', '\x7b', 'b', ']'] .square 0 = some 3 := by decide +kernel
  exact ⟨hinner, (findEnd?_exact .square).1 _ hinner ['e'], hunended,
    (findEnd?_exact .square).2.2.1 _ 0 3 ['\x7d', ']'] hunended⟩

example : Text.findEnd? "a\x7bb=%[c]\x7d\\]d]e".toList .square 0 = some 12 := by decide +kernel

end Stencil
