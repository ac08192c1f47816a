import Stencil.Proofs.Source.Balance
import Stencil.Source.Piece

/-! # Pieces that are found again

Pieces written one after another are found again: symbols that open no parameter, parameters and
clauses with a balanced body, and a name in front of its clauses. -/
namespace Stencil

theorem splitBare?_append {targets : List Char} {front : List Symbol}
    (h : ∀ s ∈ front, ∀ c ∈ targets, s ≠ .bare c) {c : Char} (hc : c ∈ targets)
    (rest : List Symbol) : splitBare? targets (front ++ .bare c :: rest) = some (front, rest) := by
  induction front with
  | nil =>
    rw [List.nil_append, splitBare?, if_pos]
    exact List.any_eq_true.2 ⟨c, hc, decide_eq_true rfl⟩
  | cons s front ih =>
    have hs : targets.any (fun d => decide (s = .bare d)) = false := by
      refine List.any_eq_false.2 ?_
      intro d hd
      simpa using h s List.mem_cons_self d hd
    rw [List.cons_append, splitBare?, hs, ih fun t ht => h t (List.mem_cons_of_mem _ ht)]
    rfl

theorem splitName_append {name rest : List Symbol} (h : ∀ s ∈ name, s ≠ .bare '\x7b')
    (hrest : rest = [] ∨ ∃ more, rest = .bare '\x7b' :: more) :
    splitName (name ++ rest) = (name, rest) := by
  have hname : ∀ s ∈ name, decide (s ≠ .bare '\x7b') = true :=
    fun s hs => decide_eq_true (h s hs)
  rw [splitName, List.takeWhile_append_of_pos hname, List.dropWhile_append_of_pos hname]
  rcases hrest with rfl | ⟨more, rfl⟩
  · simp
  · rw [List.takeWhile_cons_of_neg (by simp), List.dropWhile_cons_of_neg (by simp),
      List.append_nil]

namespace Piece

theorem ofSource_cons {s : Symbol} (h : s ≠ .bare '%') (rest : List Symbol) :
    ofSource (s :: rest) = symbol s :: ofSource rest := by
  rw [ofSource]
  intro _ hs
  exact absurd hs h

theorem ofSource_append {front : List Symbol} (h : ∀ s ∈ front, s ≠ .bare '%')
    (rest : List Symbol) : ofSource (front ++ rest) = front.map symbol ++ ofSource rest := by
  induction front with
  | nil => rfl
  | cons s front ih =>
    rw [List.cons_append, ofSource_cons (h s List.mem_cons_self),
      ih fun t ht => h t (List.mem_cons_of_mem _ ht)]
    rfl

theorem ofSource_of_splitEnd? {rest body after : List Symbol}
    (h : Bracket.square.splitEnd? [] rest = some (body, after)) :
    ofSource (.bare '%' :: .bare '[' :: rest) = parameter body :: ofSource after := by
  rw [ofSource]
  split
  case h_1 found =>
    rw [h] at found
    cases found
    rfl
  case h_2 found =>
    rw [h] at found
    cases found

theorem ofSource_parameter {body : List Symbol} (h : Balanced [] body) (rest : List Symbol) :
    ofSource ((parameter body).symbols ++ rest) = parameter body :: ofSource rest := by
  have hsymbols : (parameter body).symbols ++ rest =
      .bare '%' :: .bare '[' :: (body ++ Bracket.square.closer :: rest) := by
    simp [symbols, Bracket.closer]
  rw [hsymbols, ofSource_of_splitEnd? (Bracket.square.splitEnd?_closer h rest)]

theorem writtenSize_parameter (body : List Symbol) :
    writtenSize (parameter body).symbols = 2 + writtenSize body + 1 := by
  rw [symbols, writtenSize_append, writtenSize_cons, writtenSize_cons, ← Nat.add_assoc]
  rfl

end Piece

namespace BodyPiece

theorem writtenSize_clause (body : List Symbol) :
    writtenSize (clause body).symbols = 1 + writtenSize body + 1 := by
  rw [symbols, writtenSize_append]
  rfl

theorem ofSource_of_splitEnd? {rest body after : List Symbol}
    (h : Bracket.curly.splitEnd? [] rest = some (body, after)) :
    ofSource (.bare '\x7b' :: rest) = clause body :: ofSource after := by
  rw [ofSource, if_pos rfl]
  split
  case h_1 found =>
    rw [h] at found
    cases found
    rfl
  case h_2 found =>
    rw [h] at found
    cases found

theorem ofSource_of_unended {rest : List Symbol} (h : Bracket.curly.splitEnd? [] rest = none) :
    ofSource (.bare '\x7b' :: rest) = [unended rest] := by
  rw [ofSource, if_pos rfl]
  split
  case h_1 found =>
    rw [h] at found
    cases found
  case h_2 => rfl

theorem ofSource_clause {body : List Symbol} (h : Balanced [] body) (rest : List Symbol) :
    ofSource ((clause body).symbols ++ rest) = clause body :: ofSource rest := by
  have hsymbols : (clause body).symbols ++ rest =
      .bare '\x7b' :: (body ++ Bracket.curly.closer :: rest) := by
    simp [symbols, Bracket.closer]
  rw [hsymbols, ofSource_of_splitEnd? (Bracket.curly.splitEnd?_closer h rest)]

theorem ofSource_flatMap {bodies : List (List Symbol)} (h : ∀ body ∈ bodies, Balanced [] body) :
    ofSource (bodies.flatMap fun body => (clause body).symbols) = bodies.map clause := by
  induction bodies with
  | nil => rw [List.flatMap_nil, ofSource, List.map_nil]
  | cons body bodies ih =>
    rw [List.flatMap_cons, ofSource_clause (h body List.mem_cons_self),
      ih fun b hb => h b (List.mem_cons_of_mem _ hb), List.map_cons]

end BodyPiece

theorem map_snd_placed {α : Type} (symbols : α → List Symbol) (position : Nat) (xs : List α) :
    (placed symbols position xs).map Prod.snd = xs := by
  induction xs generalizing position with
  | nil => rfl
  | cons x xs ih => rw [placed, List.map_cons, ih]

theorem map_snd_located (position : Nat) (pieces : List (List Symbol)) :
    (located position pieces).map Prod.snd = pieces := by
  induction pieces generalizing position with
  | nil => rfl
  | cons piece pieces ih => rw [located, List.map_cons, ih]

theorem length_located (position : Nat) (pieces : List (List Symbol)) :
    (located position pieces).length = pieces.length := by
  rw [← List.length_map Prod.snd, map_snd_located]

theorem placed_append {α : Type} (symbols : α → List Symbol) (position : Nat) (xs ys : List α) :
    placed symbols position (xs ++ ys) =
      placed symbols position xs ++
        placed symbols (position + writtenSize (xs.flatMap symbols)) ys := by
  induction xs generalizing position with
  | nil => rfl
  | cons x xs ih =>
    rw [List.cons_append, placed, placed, ih, List.flatMap_cons, writtenSize_append, Nat.add_assoc]
    rfl

end Stencil
