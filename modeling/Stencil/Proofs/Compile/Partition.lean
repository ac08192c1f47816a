import Stencil.Proofs.Reports
import Stencil.Proofs.Scan.Level

/-! # Parts partition their source

The parts of a compiled source stand one behind another and leave nothing out. Each of them says what its
slice of the source means, however malformed the source is; and whoever compiles it by byte positions
never takes a slice that is not there (`Pattern.compileAt_partitions`). -/
namespace Stencil

variable {π : Type}

theorem Parameter.named_foldl_add (p : Parameter π) (clauses : List (Clause π)) :
    (clauses.foldl add p).name = p.name ∧ (clauses.foldl add p).source = p.source := by
  induction clauses generalizing p with
  | nil => exact ⟨rfl, rfl⟩
  | cons clause clauses ih =>
    have hadd : (p.add clause).name = p.name ∧ (p.add clause).source = p.source := by
      cases clause <;> exact ⟨rfl, rfl⟩
    rw [List.foldl_cons, (ih _).1, (ih _).2]
    exact hadd

theorem splitName_spec (body : List Symbol) : .bare '\x7b' ∉ (splitName body).1 ∧
    ((splitName body).2 = [] ∨ ∃ more, (splitName body).2 = .bare '\x7b' :: more) := by
  have hplain := Scan.not_mem_before (List.mem_singleton_self '\x7b') body
  rw [Scan.splitName_eq]
  cases hsplit : splitBare? ['\x7b'] body with
  | none =>
    rw [hsplit] at hplain
    exact ⟨hplain, .inl rfl⟩
  | some found =>
    rw [hsplit] at hplain
    exact ⟨hplain, .inr ⟨found.2, rfl⟩⟩

namespace Part

/-- The part says what the symbols mean that it is read from: of a parameter the name is what stands
before the first bare brace. -/
def Reads (piece : List Symbol) : Part π → Prop
  | .literal l => l.text = meant piece
  | .parameter p => ∃ body, piece = (Piece.parameter body).symbols ∧ p.name = meant (splitName body).1

/-- From a position on the parts stand one behind another over all the symbols. -/
inductive Tiling : Nat → List Symbol → List (Part π) → Prop
  | nil (position : Nat) : Tiling position [] []
  | cons {position : Nat} {piece rest : List Symbol} {part : Part π} {parts : List (Part π)}
      (source : part.source = ⟨position, position + writtenSize piece⟩) (full : piece ≠ [])
      (reads : part.Reads piece) (tiling : Tiling (position + writtenSize piece) rest parts) :
      Tiling position (piece ++ rest) (part :: parts)

theorem source_compile (options : Options) (nested : Clause.Nest π) (position : Nat) (piece : Piece) :
    (compile options nested position piece).value.source =
      ⟨position, position + writtenSize piece.symbols⟩ := by
  cases piece with
  | symbol s => rfl
  | opener => rfl
  | parameter body =>
    have hstop : position + (2 + writtenSize body + 1) = position + writtenSize body + 3 := by omega
    rw [Piece.writtenSize_parameter, hstop]
    exact (Parameter.named_foldl_add _ _).2

theorem reads_compile (options : Options) (nested : Clause.Nest π) (position : Nat) (piece : Piece) :
    (compile options nested position piece).value.Reads piece.symbols := by
  cases piece with
  | symbol s => rfl
  | opener => rfl
  | parameter body =>
    exact ⟨body, rfl, (Parameter.named_foldl_add _ _).1⟩

theorem Tiling.join {position : Nat} {piece rest : List Symbol} {part : Part π} {parts : List (Part π)}
    (source : part.source = ⟨position, position + writtenSize piece⟩) (full : piece ≠ [])
    (reads : part.Reads piece) (tiling : Tiling (position + writtenSize piece) rest parts) :
    Tiling position (piece ++ rest) (join part parts) := by
  cases part with
  | parameter p => exact .cons source full reads tiling
  | literal l =>
    cases tiling with
    | nil => exact .cons source full reads (.nil _)
    | @cons _ piece' rest' next parts' source' full' reads' tiling' =>
      cases next with
      | parameter q => exact .cons source full reads (.cons source' full' reads' tiling')
      | literal m =>
        have hsize : position + writtenSize (piece ++ piece') =
            position + writtenSize piece + writtenSize piece' := by
          rw [writtenSize_append, Nat.add_assoc]
        have hl : l.source = ⟨position, position + writtenSize piece⟩ := source
        have hm : m.source =
            ⟨position + writtenSize piece, position + writtenSize piece + writtenSize piece'⟩ := source'
        have htext : l.text ++ m.text = meant (piece ++ piece') := by
          have hltext : l.text = meant piece := reads
          have hmtext : m.text = meant piece' := reads'
          rw [hltext, hmtext]
          exact List.map_append.symm
        rw [← List.append_assoc]
        rw [← hsize] at tiling'
        refine .cons ?_ (List.append_ne_nil_of_left_ne_nil full piece') htext tiling'
        simp only [Part.source, hl, hm, hsize]

theorem tiling_foldr_join (options : Options) (nested : Clause.Nest π) (position : Nat)
    (pieces : List Piece) :
    Tiling position (pieces.flatMap Piece.symbols)
      (((placed Piece.symbols position pieces).map fun place =>
        (compile options nested place.1 place.2).value).foldr join []) := by
  induction pieces generalizing position with
  | nil => exact .nil position
  | cons piece pieces ih =>
    have hfull : piece.symbols ≠ [] := by cases piece <;> simp [Piece.symbols]
    exact .join (source_compile options nested position piece) hfull
      (reads_compile options nested position piece) (ih _)

theorem tiling_compile (options : Options) (nested : Clause.Nest π) (source : List Symbol) :
    Tiling 0 source (Layer.compile options nested source).parts := by
  have htiling := tiling_foldr_join options nested 0 (Piece.ofSource source)
  rw [Piece.flatMap_ofSource] at htiling
  unfold Layer.compile Reported.collect
  simp only [List.map_map]
  exact htiling

/-- The part says what its slice says. A literal is the slice without its escapes. A parameter stands in
brackets, and its name is the body without escapes, up to the first brace that is not escaped. -/
def Quotes (slice : Text) : Part π → Prop
  | .literal l => l.text ≠ [] ∧ l.text = slice.unescape
  | .parameter p => ∃ name clauses : Text, slice = ['%', '['] ++ (name ++ clauses) ++ [']'] ∧
      name.Settled ∧ .bare '\x7b' ∉ symbols name ∧ (clauses = [] ∨ clauses.head? = some '\x7b') ∧
      p.name = name.unescape

/-- From a position on the parts stand one behind another up to the end of the text, none of them empty,
and each says what its slice says. -/
def Partition (text : Text) : Nat → List (Part π) → Prop
  | position, [] => position = text.size
  | position, part :: parts =>
    part.source.start = position ∧ position < part.source.stop ∧
      (∃ slice, text.slice? part.source = some slice ∧ part.Quotes slice) ∧
      Partition text part.source.stop parts

theorem quotes_written {piece : List Symbol} (h : Legible piece) (full : piece ≠ []) {part : Part π}
    (reads : part.Reads piece) : part.Quotes (written piece) := by
  cases part with
  | literal l =>
    have hl : l.text = meant piece := reads
    refine ⟨?_, ?_⟩
    · rw [hl]
      exact mt List.map_eq_nil_iff.1 full
    · rw [h.unescape_written, hl]
  | parameter p =>
    obtain ⟨body, rfl, hname⟩ := reads
    have hbody : (splitName body).1 ++ (splitName body).2 = body := List.takeWhile_append_dropWhile
    have hsymbols : (Piece.parameter body).symbols =
        [.bare '%', .bare '['] ++ ((splitName body).1 ++ ((splitName body).2 ++ [.bare ']'])) := by
      rw [← List.append_assoc (splitName body).1, hbody]
      rfl
    rw [hsymbols] at h ⊢
    have hlegible : Legible (splitName body).1 := h.right.left
    refine ⟨written (splitName body).1, written (splitName body).2, ?_, ?_, ?_, ?_, ?_⟩
    · simp [Symbol.written]
    · rw [Text.Settled, hlegible]
      exact h.right.dangling_not_mem (by simp)
    · rw [hlegible]
      exact (splitName_spec body).1
    · rcases (splitName_spec body).2 with hrest | ⟨more, hrest⟩
      · exact .inl (by rw [hrest, written_nil])
      · exact .inr (by rw [hrest, written_cons]; rfl)
    · rw [hlegible.unescape_written, hname]

theorem Tiling.partition {front source : List Symbol} {parts : List (Part π)}
    (h : Legible (front ++ source)) (tiling : Tiling (writtenSize front) source parts) :
    Partition (written (front ++ source)) (writtenSize front) parts := by
  generalize hposition : writtenSize front = position at tiling
  induction tiling generalizing front with
  | nil position =>
    rw [List.append_nil, Partition, size_written, hposition]
  | @cons position piece rest part parts source full reads tiling ih =>
    subst hposition
    have hpos := writtenSize_pos full
    have hslice := Text.slice?_append (written front) (written piece) (written rest)
    rw [size_written, size_written, ← written_append, ← written_append] at hslice
    have hrest := ih (by rw [List.append_assoc]; exact h) (writtenSize_append front piece)
    rw [List.append_assoc] at hrest
    unfold Partition
    simp only [source]
    refine ⟨trivial, by omega, ⟨written piece, hslice, quotes_written h.right.left full reads⟩, ?_⟩
    exact hrest

end Part

namespace Pattern

/-- A source so many levels down, compiled by byte positions. -/
def scanAt (options : Options) (depth : Nat) (source : Text) : Attempt Pattern := do
  let layer ← Scan.layer options (Scan.nested options (options.maxDepth - 1 - depth)) source
  return .of layer

/-- The scanner never faults, and it reads what the compiler reads. -/
theorem scanAt_eq (options : Options) (depth : Nat) (source : Text) :
    scanAt options depth source = .ok (compileAt options depth (symbols source)) := by
  unfold scanAt
  rw [Scan.layer_eq (Scan.agrees_nested options _), Attempt.ok_bind]
  rfl

/-- However deep a source is nested and whatever is written in it, its parts stand one behind another from
its start to its end, on the edges of characters; each of them is not empty and says what its slice says,
and no two literals are neighbours. And compiling it by byte positions takes no slice that is
not there. -/
theorem compileAt_partitions (options : Options) (depth : Nat) (source : Text) :
    Part.Partition source 0 (compileAt options depth (symbols source)).parts ∧
    (compileAt options depth (symbols source)).parts.IsChain Part.Apart ∧
    scanAt options depth source = .ok (compileAt options depth (symbols source)) := by
  refine ⟨?_, Part.isChain_foldr_join _, scanAt_eq options depth source⟩
  have htiling := Part.tiling_compile options (compileNested options (options.maxDepth - 1 - depth))
    (symbols source)
  have hparts := @Part.Tiling.partition _ [] _ _ (legible_symbols source) htiling
  rw [List.nil_append, written_symbols] at hparts
  exact hparts

/-- An opening that never ends, a parameter, and a backslash at the end. -/
example : (compileAt {} 3 (symbols "é%[\\]%[a\x7b]\\".toList)).parts.map (·.source) =
    [⟨0, 6⟩, ⟨6, 11⟩, ⟨11, 12⟩] := by
  decide +kernel

end Pattern

end Stencil
