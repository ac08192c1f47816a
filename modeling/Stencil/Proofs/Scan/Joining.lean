import Stencil.Proofs.Scan.Search

/-! # Splitting and joining arguments

The pieces that a text is split into at a separator are joined to the text again, and each is the slice of it
at its position. Splitting a join of texts that have the separator only escaped or within their brackets gives
these texts back (`Scan.pieces_exact`). -/
namespace Stencil

theorem written_intercalate (c : Char) (pieces : List (List Symbol)) :
    written ([.bare c].intercalate pieces) = [c].intercalate (pieces.map written) := by
  induction pieces with
  | nil => rfl
  | cons piece rest ih =>
    cases rest with
    | nil => simp
    | cons next rest =>
      rw [List.intercalate_cons_cons, written_append, ih, written_append]
      simp only [List.map_cons, List.intercalate_cons_cons]
      rfl

/-- Texts with their positions, where one byte separates each from the next. -/
def Text.located (position : Nat) : List Text → List (Nat × Text)
  | [] => []
  | piece :: rest => (position, piece) :: located (position + piece.size + 1) rest

theorem Text.map_snd_located (position : Nat) (pieces : List Text) :
    (Text.located position pieces).map Prod.snd = pieces := by
  induction pieces generalizing position with
  | nil => rfl
  | cons piece rest ih => rw [Text.located, List.map_cons, ih]

theorem map_written_located (position : Nat) (pieces : List (List Symbol)) :
    (located position pieces).map (fun place => (place.1, written place.2)) =
      Text.located position (pieces.map written) := by
  induction pieces generalizing position with
  | nil => rfl
  | cons piece rest ih => rw [located, List.map_cons, ih, List.map_cons, Text.located, size_written]

namespace Scan

variable {separator : Char}

theorem pieces_eq (hsize : separator.utf8Size = 1) (text : Text) : pieces text separator =
    .ok (Text.located 0 ((splitOutside separator [] (symbols text)).map written)) := by
  have hpieces := pieces_written hsize (legible_symbols text)
  rwa [written_symbols, map_written_located] at hpieces

theorem intercalate_written (separator : Char) (text : Text) :
    [separator].intercalate ((splitOutside separator [] (symbols text)).map written) = text := by
  rw [← written_intercalate, intercalate_splitOutside, written_symbols]

theorem slice?_of_mem_located (hsize : separator.utf8Size = 1) {text : Text} {place : Nat × Text}
    (hplace : place ∈ Text.located 0 ((splitOutside separator [] (symbols text)).map written)) :
    text.slice? ⟨place.1, place.1 + place.2.size⟩ = some place.2 := by
  rw [← map_written_located] at hplace
  obtain ⟨⟨position, piece⟩, hpiece, rfl⟩ := List.mem_map.1 hplace
  have hself := Stands.self (symbols text)
  rw [← intercalate_splitOutside separator [] (symbols text)] at hself
  have hslice := (hself.located hsize hpiece).slice?_written
  rwa [intercalate_splitOutside, written_symbols] at hslice

theorem map_written_splitOutside (hopen : Bracket.opened? (.bare separator) = none)
    (hslash : separator ≠ '\\') {parts : List Text} (hne : parts ≠ [])
    (h : ∀ part ∈ parts, part.Balanced [separator]) :
    (splitOutside separator [] (symbols ([separator].intercalate parts))).map written = parts := by
  have hbalanced : ∀ piece ∈ parts.map symbols, Balanced [separator] piece := by
    intro piece hpiece
    obtain ⟨part, hpart, rfl⟩ := List.mem_map.1 hpiece
    exact (h part hpart).symbols
  rw [Text.symbols_intercalate hslash fun part hpart => (h part hpart).settled,
    splitOutside_intercalate hopen (List.map_eq_nil_iff.not.2 hne) hbalanced, List.map_map]
  exact List.map_id'' written_symbols parts

/-- At a comma or a semicolon, any text is split without a fault. There is a piece, the pieces are joined to
the text again, and each is the slice of the text at its position; they are the ones that arguments are read
from. Joined texts of which each has the separator only escaped or within brackets in pairs are split into
these texts again, each at the position where it was written. -/
theorem pieces_exact {separator : Char} (h : separator = ',' ∨ separator = ';') :
    (∀ text, ∃ places, pieces text separator = .ok places ∧ places ≠ [] ∧
      [separator].intercalate (places.map Prod.snd) = text ∧
      (∀ place ∈ places, text.slice? ⟨place.1, place.1 + place.2.size⟩ = some place.2) ∧
      places = (located 0 (splitOutside separator [] (symbols text))).map
        fun place => (place.1, written place.2)) ∧
    ∀ parts : List Text, parts ≠ [] → (∀ part ∈ parts, part.Balanced [separator]) →
      pieces ([separator].intercalate parts) separator = .ok (Text.located 0 parts) := by
  have hsize : separator.utf8Size = 1 := by rcases h with rfl | rfl <;> rfl
  have hopen : Bracket.opened? (.bare separator) = none := by rcases h with rfl | rfl <;> rfl
  have hslash : separator ≠ '\\' := by rcases h with rfl | rfl <;> decide
  constructor
  · intro text
    refine ⟨_, pieces_eq hsize text, ?_, ?_, fun _ => slice?_of_mem_located hsize,
      (map_written_located 0 _).symm⟩
    · intro hnil
      have hpieces := congrArg (List.map Prod.snd) hnil
      rw [Text.map_snd_located] at hpieces
      exact splitOutside_ne_nil _ _ _ (List.map_eq_nil_iff.1 hpieces)
    · rw [Text.map_snd_located]
      exact intercalate_written separator text
  · intro parts hne hparts
    rw [pieces_eq hsize, map_written_splitOutside hopen hslash hne hparts]

theorem pieces_commas :
    Text.Balanced [','] ['b', '\\', ','] ∧ Text.Balanced [','] ['\x7b', ',', '\x7d'] ∧
    pieces ([','].intercalate [['b', '\\', ','], [], ['\x7b', ',', '\x7d']]) ',' =
      .ok [(0, ['b', '\\', ',']), (4, []), (5, ['\x7b', ',', '\x7d'])] := by
  have hescaped : Text.Balanced [','] ['b', '\\', ','] :=
    .ordinary rfl (by decide) (.escaped ',' .nil)
  have hwrapped : Text.Balanced [','] ['\x7b', ',', '\x7d'] :=
    .wrap .curly (.ordinary rfl List.not_mem_nil .nil) .nil
  refine ⟨hescaped, hwrapped, (pieces_exact (.inl rfl)).2 _ (List.cons_ne_nil _ _) ?_⟩
  simp only [List.forall_mem_cons, List.not_mem_nil, false_implies, implies_true, and_true]
  exact ⟨hescaped, .nil, hwrapped⟩

example : pieces "a,b\\,c,%[x\x7by=1,2\x7d]".toList ',' =
    .ok [(0, "a".toList), (2, "b\\,c".toList), (7, "%[x\x7by=1,2\x7d]".toList)] := by
  decide +kernel

end Scan

end Stencil
