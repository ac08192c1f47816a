import Stencil.Proofs.Compile.Literals
import Stencil.Proofs.Scan.Parameter

/-! # Levels by byte positions

A cursor moves over the source of a level, with the literal that is being read and the position where it
begins. Every round passes one piece and leaves what the compiler makes of the rest as it was
(`Scan.nextPart_written`). So the scanner reads the parts that the compiler reads, on every level, and
it never faults (`Scan.layer_eq`, `Scan.agrees_nested`). -/
namespace Stencil

open Attempt

variable {π : Type}

namespace Scan

/-- How far the parts of a source are read: a literal that begins at `start` may be pending. -/
structure Progress (π : Type) where
  literal : Text
  start : Nat
  parts : List (Part π)
  reports : List Diagnostic

namespace Progress

variable (casing : Casing) (position : Nat) (s : Progress π)

/-- The pending literal, up to a position. -/
def pending : List (Part π) :=
  if s.start < position then [.literal ⟨s.literal, casing, ⟨s.start, position⟩⟩] else []

def flush : Progress π :=
  if s.start < position then { s with literal := [], parts := s.parts ++ s.pending casing position } else s

/-- What is pending begins no later than the cursor, and where it begins at the cursor there is nothing. -/
def Sound : Prop := s.start ≤ position ∧ (s.start = position → s.literal = [])

theorem parts_flush : (s.flush casing position).parts = s.parts ++ s.pending casing position := by
  unfold flush pending
  by_cases hs : s.start < position
  · rw [if_pos hs, if_pos hs]
  · rw [if_neg hs, if_neg hs, List.append_nil]

theorem literal_flush {s : Progress π} (h : s.Sound position) : (s.flush casing position).literal = [] := by
  unfold flush
  by_cases hs : s.start < position
  · rw [if_pos hs]
  · rw [if_neg hs]
    exact h.2 (Nat.le_antisymm h.1 (Nat.le_of_not_lt hs))

theorem reports_flush : (s.flush casing position).reports = s.reports := by
  unfold flush
  split <;> rfl

def behind (next : Nat) (p : Reported (Parameter π)) : Progress π :=
  ⟨[], next, s.parts ++ s.pending casing position ++ [.parameter p.value], s.reports ++ p.reports⟩

end Progress

section

variable (options : Options) (nested : Nest π) (source : Text)

/-- The next piece at a position, where a character stands before others, and where to go on. -/
def nextPart (position : Nat) (c : Char) (others : Text) (s : Progress π) :
    Attempt (Nat × Progress π) :=
  if c = '%' ∧ others.head? = some '[' then do
    match ← findEnd source .square (position + 2) with
    | some closing => do
      let s := s.flush options.casing position
      let p ← parameter options nested source ⟨position, closing + 1⟩ ⟨position + 2, closing⟩
      return (closing + 1, { s with
        start := closing + 1
        parts := s.parts ++ [.parameter p.value]
        reports := s.reports ++ p.reports })
    | none => return (position + 2, { s with
        literal := s.literal ++ ['%', '[']
        reports := s.reports ++ [.unterminatedParameter position] })
  else do
    let next := position + c.utf8Size
    let behind ← (if c = '\\' then slice source next source.size else return [] : Attempt Text)
    match behind with
    | escaped :: _ => return (next + escaped.utf8Size, { s with literal := s.literal ++ [escaped] })
    | [] => return (next, { s with literal := s.literal ++ [c] })

def parts (position : Nat) (s : Progress π) : Attempt (Reported (List (Part π))) := do
  let tail ← slice source position source.size
  match tail with
  | [] =>
    let s := s.flush options.casing position
    return ⟨s.parts, s.reports⟩
  | c :: others => do
    let (next, s) ← nextPart options nested source position c others s
    if position < next ∧ next ≤ source.size then parts next s else .error .fault
termination_by source.size - position
decreasing_by omega

end

/-- The parts when the compiler reads the pieces from a position on. -/
def finish (options : Options) (nest : Clause.Nest π) (position : Nat) (pieces : List Piece)
    (s : Progress π) : Reported (List (Part π)) :=
  let read := Reported.collect <| (placed Piece.symbols position pieces).map fun (position, piece) =>
    Part.compile options nest position piece
  ⟨s.parts ++ (s.pending options.casing position ++ read.value).foldr Part.join [],
    s.reports ++ read.reports⟩

section

variable (options : Options) (nest : Clause.Nest π) {position : Nat} {s : Progress π}

theorem finish_nil : finish options nest position [] s =
    ⟨(s.flush options.casing position).parts, (s.flush options.casing position).reports⟩ := by
  rw [Progress.parts_flush, Progress.reports_flush, finish]
  unfold Progress.pending
  split <;> simp [placed, Reported.collect, Part.join]

theorem finish_literal (h : s.Sound position) (piece : Piece) (pieces : List Piece) {text : Text}
    (hvalue : (Part.compile options nest position piece).value =
      .literal ⟨text, options.casing, ⟨position, position + writtenSize piece.symbols⟩⟩)
    (hpiece : piece.symbols ≠ []) :
    finish options nest position (piece :: pieces) s =
      finish options nest (position + writtenSize piece.symbols) pieces { s with
        literal := s.literal ++ text
        reports := s.reports ++ (Part.compile options nest position piece).reports } := by
  have hsize := writtenSize_pos hpiece
  unfold finish Progress.pending
  simp only [placed, List.map_cons, Reported.collect, List.flatMap_cons, hvalue, List.foldr_append,
    List.foldr_cons, Reported.mk.injEq, List.append_assoc, and_true]
  rw [if_pos (show s.start < position + writtenSize piece.symbols by have := h.1; omega)]
  by_cases hs : s.start < position
  · rw [if_pos hs]
    simp only [List.foldr_cons, List.foldr_nil, Part.join_join]
  · obtain rfl := Nat.le_antisymm h.1 (Nat.le_of_not_lt hs)
    rw [if_neg hs, h.2 rfl]
    rfl

theorem finish_parameter (body : List Symbol) (pieces : List Piece) :
    finish options nest position (.parameter body :: pieces) s =
      finish options nest (position + writtenSize (Piece.parameter body).symbols) pieces
        (s.behind options.casing position (position + writtenSize (Piece.parameter body).symbols)
          (Parameter.compile options nest position body)) := by
  unfold finish Progress.behind Progress.pending
  simp only [placed, List.map_cons, Reported.collect, List.flatMap_cons, List.append_assoc,
    Reported.mk.injEq, List.foldr_append, Nat.lt_irrefl, ↓reduceIte, List.foldr_cons, List.foldr_nil]
  refine ⟨?_, rfl⟩
  by_cases hs : s.start < position
  · rw [if_pos hs]
    rfl
  · rw [if_neg hs]
    rfl

end

section

variable {nested : Nest π} {nest : Clause.Nest π} (agrees : nested.Agrees nest) (options : Options)
  (before : Text) {s : Progress π}

theorem head?_of_head?_written {c : Char} (hc : c ≠ '\\') {source : List Symbol}
    (h : (written source).head? = some c) : source.head? = some (.bare c) := by
  cases source with
  | nil => cases h
  | cons t rest =>
    cases t with
    | bare d =>
      obtain rfl : d = c := by simpa [Symbol.written] using h
      rfl
    | escaped d => exact absurd (by simpa [Symbol.written] using h.symm) hc
    | dangling => exact absurd (by simpa [Symbol.written] using h.symm) hc

variable (nested) in
theorem nextPart_symbol {t : Symbol} {rest : List Symbol} (h : Legible (t :: rest))
    (hopens : ¬ (t = .bare '%' ∧ rest.head? = some (.bare '['))) :
    ∃ c others, written (t :: rest) = c :: others ∧
      nextPart options nested (before ++ written (t :: rest)) before.size c others s =
        .ok (before.size + writtenSize [t], { s with literal := s.literal ++ [t.meant] }) := by
  have hslash : '\\'.utf8Size = 1 := by decide
  have hpercent : ¬ '\\' = '%' := by decide
  obtain ⟨hbare, hdangling, hrest⟩ := legible_cons_iff.1 h
  cases t with
  | bare c =>
    have hc : c ≠ '\\' := by
      rintro rfl
      exact hbare rfl
    have hplain : ¬ (c = '%' ∧ (written rest).head? = some '[') := by
      rintro ⟨rfl, hhead⟩
      exact hopens ⟨rfl, head?_of_head?_written (by decide) hhead⟩
    refine ⟨c, written rest, rfl, ?_⟩
    unfold nextPart
    rw [if_neg hplain]
    simp only [if_neg hc]
    rfl
  | escaped c =>
    refine ⟨'\\', c :: written rest, rfl, ?_⟩
    have hbehind := slice_behind before '\\' (c :: written rest)
    rw [hslash] at hbehind
    have hwhole : before ++ written (.escaped c :: rest) = before ++ '\\' :: c :: written rest := rfl
    unfold nextPart
    rw [if_neg (fun h => hpercent h.1)]
    simp only [↓reduceIte, hwhole, hslash, hbehind, ok_bind, Nat.add_assoc]
    rfl
  | dangling =>
    obtain rfl := hdangling rfl
    refine ⟨'\\', [], rfl, ?_⟩
    unfold nextPart
    rw [if_neg (fun h => hpercent h.1)]
    have hbehind := slice_behind before '\\' []
    rw [hslash] at hbehind
    have hwhole : before ++ written [.dangling] = before ++ ['\\'] := rfl
    simp only [↓reduceIte, hwhole, hslash, hbehind, ok_bind]
    rfl

theorem nextPart_opener {rest : List Symbol} (h : Legible rest)
    (hend : Bracket.square.splitEnd? [] rest = none) :
    nextPart options nested (before ++ '%' :: '[' :: written rest) before.size '%'
        ('[' :: written rest) s =
      .ok (before.size + 2, { s with
        literal := s.literal ++ ['%', '[']
        reports := s.reports ++ [.unterminatedParameter before.size] }) := by
  have hsize : Text.size ['%', '['] = 2 := by decide
  have hfind := findEnd_written (before ++ ['%', '[']) .square h
  rw [hend, Text.size_append, hsize, List.append_assoc] at hfind
  unfold nextPart
  rw [if_pos ⟨rfl, rfl⟩]
  rw [List.cons_append, List.cons_append, List.nil_append] at hfind
  rw [hfind, ok_bind]
  rfl

include agrees in
theorem nextPart_parameter (hs : s.Sound before.size) {rest body outer : List Symbol}
    (h : Legible rest) (hend : Bracket.square.splitEnd? [] rest = some (body, outer)) :
    nextPart options nested (before ++ '%' :: '[' :: written rest) before.size '%'
        ('[' :: written rest) s =
      .ok (before.size + writtenSize (Piece.parameter body).symbols,
        s.behind options.casing before.size (before.size + writtenSize (Piece.parameter body).symbols)
          (Parameter.compile options nest before.size body)) := by
  have hsize : Text.size (before ++ ['%', '[']) = before.size + 2 := by
    rw [Text.size_append]
    rfl
  have hbody : Legible body := by
    rw [Bracket.eq_of_splitEnd? hend] at h
    exact h.left
  have hwhole : before ++ '%' :: '[' :: written rest =
      before ++ ['%', '['] ++ (written body ++ (']' :: written outer)) := by
    rw [Bracket.eq_of_splitEnd? hend]
    simp [Symbol.written, Bracket.closer]
  have hfind := findEnd_written (before ++ ['%', '[']) .square h
  rw [hend, hsize, List.append_assoc, List.cons_append, List.cons_append, List.nil_append] at hfind
  have hparameter := parameter_written agrees options (before ++ ['%', '[']) (']' :: written outer)
    before.size hbody hsize
  have hstop : before.size + writtenSize body + 3 = before.size + 2 + writtenSize body + 1 := by omega
  rw [← hwhole, hsize, hstop] at hparameter
  unfold nextPart Progress.behind
  rw [if_pos ⟨rfl, rfl⟩, hfind, ok_bind, Piece.writtenSize_parameter, ← Progress.parts_flush,
    ← Progress.literal_flush options.casing before.size hs]
  simp only [Option.map_some, hparameter, ok_bind, Progress.reports_flush, ← Nat.add_assoc]
  rfl

theorem sound_lengthened (hs : s.Sound before.size) {piece : List Symbol} (hpiece : piece ≠ [])
    (literal : Text) (reports : List Diagnostic) :
    Progress.Sound (before.size + writtenSize piece)
      { s with literal := literal, reports := reports } := by
  have hsize := writtenSize_pos hpiece
  have hstart := hs.1
  refine ⟨by simp only; omega, ?_⟩
  intro hsame
  simp only at hsame
  omega

include agrees

/-- One round passes one piece, and what the compiler finishes from there is what it finishes from
here. -/
theorem nextPart_written {source : List Symbol} (h : Legible source) (hne : source ≠ [])
    (hs : s.Sound before.size) :
    ∃ c others passed outer after, written source = c :: others ∧ source = passed ++ outer ∧
      passed ≠ [] ∧ after.Sound (before.size + writtenSize passed) ∧
      nextPart options nested (before ++ written source) before.size c others s =
        .ok (before.size + writtenSize passed, after) ∧
      finish options nest before.size (Piece.ofSource source) s =
        finish options nest (before.size + writtenSize passed) (Piece.ofSource outer) after := by
  fun_cases Piece.ofSource source with
  | case1 => exact absurd rfl hne
  | case2 rest body outer hend =>
    have hrest : Legible rest := (legible_cons_iff.1 (legible_cons_iff.1 h).2.2).2.2
    refine ⟨'%', '[' :: written rest, (Piece.parameter body).symbols, outer, _, rfl, ?_,
      by simp [Piece.symbols], ?_, nextPart_parameter agrees options before hs hrest hend,
      finish_parameter options nest body _⟩
    · rw [Bracket.eq_of_splitEnd? hend]
      simp [Piece.symbols, Bracket.closer]
    · exact ⟨Nat.le_refl _, fun _ => rfl⟩
  | case3 rest hend =>
    have hrest : Legible rest := (legible_cons_iff.1 (legible_cons_iff.1 h).2.2).2.2
    have hopener : Piece.opener.symbols ≠ [] := by simp [Piece.symbols]
    exact ⟨'%', '[' :: written rest, Piece.opener.symbols, rest, _, rfl, rfl, hopener,
      sound_lengthened before hs hopener _ _, nextPart_opener options before hrest hend,
      finish_literal options nest hs Piece.opener _ rfl hopener⟩
  | case4 t rest hopens =>
    have hsymbol : ¬ (t = .bare '%' ∧ rest.head? = some (.bare '[')) := by
      rintro ⟨rfl, hhead⟩
      obtain ⟨more, rfl⟩ := List.head?_eq_some_iff.1 hhead
      exact hopens more rfl rfl
    have ht : (Piece.symbol t).symbols ≠ [] := by simp [Piece.symbols]
    obtain ⟨c, others, hwritten, hnext⟩ := nextPart_symbol nested options before h hsymbol
    have hfinish := finish_literal options nest hs (.symbol t) (Piece.ofSource rest) rfl ht
    refine ⟨c, others, [t], rest, _, hwritten, rfl, by simp, ?_, hnext, ?_⟩
    · exact sound_lengthened before hs (by simp) _ _
    · rw [hfinish]
      simp only [Part.compile, Reported.silent, List.append_nil]
      rfl

theorem parts_written {source : List Symbol} (h : Legible source) (hs : s.Sound before.size) :
    parts options nested (before ++ written source) before.size s =
      .ok (finish options nest before.size (Piece.ofSource source) s) := by
  -- by the length of what is left, since every round passes a piece
  induction hn : source.length using Nat.strongRecOn generalizing source before s with
  | ind n ih =>
    subst hn
    by_cases hne : source = []
    · subst hne
      unfold parts
      rw [slice_to_end, ok_bind, Piece.ofSource, finish_nil]
      rfl
    · obtain ⟨c, others, passed, outer, after, hwritten, rfl, hpassed, hafter, hnext, hfinish⟩ :=
        nextPart_written agrees options before h hne hs
      have hshorter : outer.length < (passed ++ outer).length := by
        have hlength := List.length_pos_of_ne_nil hpassed
        rw [List.length_append]
        omega
      rw [← size_written, ← Text.size_append] at hafter
      have hrest := ih outer.length hshorter (before ++ written passed) h.right hafter rfl
      rw [Text.size_append, size_written, List.append_assoc, ← written_append] at hrest
      have hmoved := writtenSize_pos hpassed
      unfold parts
      rw [slice_to_end, ok_bind, hwritten]
      simp only
      rw [← hwritten, hnext, ok_bind, hfinish]
      simp only
      rw [if_pos, hrest]
      rw [Text.size_append, size_written, writtenSize_append]
      omega

end

/-- One level of a pattern, whose nested patterns are read as they are found. -/
def layer (options : Options) (nested : Nest π) (source : Text) : Attempt (Layer π) := do
  let read ← parts options nested source 0 ⟨[], 0, [], []⟩
  return { source, parts := read.value, diagnostics := .ofList read.reports, options }

/-- A nested source where so many levels are left below the enclosing pattern. -/
def nested (options : Options) : (levels : Nat) → Nest Pattern
  | 0, _, source => return ⟨.literal source.unescape options, [.nestingTooDeep options.maxDepth]⟩
  | levels + 1, position, source => do
    let layer ← layer options (nested options levels) source
    return ⟨.of layer, layer.diagnostics.rebase position⟩

theorem layer_eq {nested : Nest π} {nest : Clause.Nest π} (agrees : nested.Agrees nest)
    (options : Options) (source : Text) :
    layer options nested source = .ok (.compile options nest (symbols source)) := by
  have hsound : Progress.Sound 0 (⟨[], 0, [], []⟩ : Progress π) := ⟨Nat.le_refl 0, fun _ => rfl⟩
  have hparts := parts_written agrees options [] (legible_symbols source) hsound
  rw [written_symbols, List.nil_append, Text.size_nil] at hparts
  unfold layer Layer.compile
  rw [hparts, ok_bind, written_symbols]
  rfl

theorem agrees_nested (options : Options) (levels : Nat) :
    (nested options levels).Agrees (Pattern.compileNested options levels) := by
  induction levels with
  | zero =>
    intro position text
    rfl
  | succ levels ih =>
    intro position text
    rw [nested, layer_eq ih, ok_bind]
    rfl

end Scan

end Stencil
