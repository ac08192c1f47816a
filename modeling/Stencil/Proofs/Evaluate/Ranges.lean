import Stencil.Proofs.Check.Cursor

/-! # Narrowing by ranges

The functions that narrow a span once more as computations with byte positions: a range is computed
from the text that the span has at that moment, and narrowing faults unless both its ends are
positions of that text, in order. It never faults, and through whatever tags a span goes, it keeps
a place in the text that it was made from. -/
namespace Stencil

open Attempt

variable {π : Type}

/-- Keep a range of the text as it is now. -/
def Span.narrowTo (span : Span) (r : ByteRange) : Attempt Span :=
  match span.narrow? r with
  | some narrowed => .ok narrowed
  | none => .error .fault

theorem Span.narrowTo_range {span : Span} {cut : Cut} (whole : cut.whole = span.text) :
    span.narrowTo cut.range = .ok (span.narrow cut) := by
  rw [narrowTo, narrow?, ← whole, Text.cut?_range]
  rfl

namespace DelimitFlags

/-- Between which positions the element stands. -/
def occurrenceRange? (flags : DelimitFlags) (casing : Casing) (element text : Text) :
    Option ByteRange :=
  if flags.equals then if casing.sameText text element then some ⟨0, text.size⟩ else none
  else if flags.starts then
    (casing.stripFront? element text).map fun (found, _) => ⟨0, found.size⟩
  else if flags.ends then
    (casing.stripBack? element text).map fun (rest, _) => ⟨rest.size, text.size⟩
  else casing.findFrom? text element 0

/-- The range up to the nearest delimiters, which are looked for in the text in front of the element
and in the text behind it. -/
def widenRange (casing : Casing) (left right text : Text) (r : ByteRange) : Attempt ByteRange := do
  let free (set : Text) (c : Char) : Bool := !casing.memberOf set c
  let front ← slice text 0 r.start
  let rear ← slice text r.stop text.size
  return ⟨(Text.trimEnd (free left) front).size, r.stop + Text.size (rear.takeWhile (free right))⟩

def extractRange? (flags : DelimitFlags) (casing : Casing) (element left right text : Text) :
    Attempt (Option ByteRange) :=
  let casing := if flags.nocase then .insensitive else casing
  match flags.occurrenceRange? casing element text with
  | none => return none
  | some r =>
    if flags.only || (left.isEmpty && right.isEmpty) then return some r
    else some <$> widenRange casing left right text r

theorem occurrenceRange?_eq (flags : DelimitFlags) (casing : Casing) (element text : Text) :
    flags.occurrenceRange? casing element text =
      (flags.occurrence? casing element text).map Cut.range := by
  unfold occurrenceRange? occurrence?
  split
  · split
    · simp [Cut.range]
    · rfl
  · split
    · rw [Option.map_map]
      congr 1
      funext s
      simp [Cut.range]
    · split
      · rcases hs : casing.stripBack? element text with _ | ⟨rest, found⟩
        · rfl
        · simp [Cut.range, (Casing.stripBack?_eq_some_iff.1 hs).1]
      · have hfind := Casing.findFrom?_append casing [] text element
        simpa [ByteRange.shift] using hfind

theorem widenRange_eq (casing : Casing) (left right : Text) (cut : Cut) :
    widenRange casing left right cut.whole cut.range =
      .ok (widen casing left right cut).range := by
  have hfront : slice cut.whole 0 cut.range.start = .ok cut.before := by
    have h := slice_append [] cut.before (cut.kept ++ cut.after)
    simpa [Cut.whole, Cut.range] using h
  have hrear : slice cut.whole cut.range.stop cut.whole.size = .ok cut.after := by
    have h := slice_to_end (cut.before ++ cut.kept) cut.after
    rwa [Text.size_append] at h
  have hsize (p : Char → Bool) : cut.before.size =
      (Text.trimEnd p cut.before).size + Text.size (cut.before.reverse.takeWhile p).reverse := by
    rw [← Text.size_append, Text.trimEnd_append]
  simp only [widenRange, hfront, hrear, ok_bind]
  refine congrArg Except.ok (congrArg (ByteRange.mk _) ?_)
  simp only [widen, Cut.range, Text.size_append]
  rw [hsize fun c => !casing.memberOf left c]
  simp only [Text.trimEnd, Nat.add_assoc]

theorem extractRange?_eq (flags : DelimitFlags) (casing : Casing) (element left right text : Text) :
    flags.extractRange? casing element left right text =
      .ok ((flags.extract? casing element left right text).map Cut.range) := by
  simp only [extractRange?, extract?, occurrenceRange?_eq]
  rcases ho : flags.occurrence? (if flags.nocase then .insensitive else casing) element text
    with _ | cut
  · rfl
  · simp only [Option.map_some]
    split
    · rfl
    · rw [← whole_of_occurrence? ho, widenRange_eq]
      rfl

end DelimitFlags

namespace Change

def attemptDelimit (group : Group π) (span : Span) : Attempt (Option Span) := do
  let flags := DelimitFlags.ofText (group.text 1)
  match ← flags.extractRange? (group.casing 0) (group.text 0) (group.text 2) (group.text 3)
      span.text with
  | some r => some <$> span.narrowTo r
  | none => return none

def resizeRange (length : Int) (text : Text) : ByteRange :=
  let target := length.natAbs
  if 0 ≤ length then ⟨0, (text.advance? 0 target).getD text.size⟩
  else ⟨(text.advance? 0 (text.length - target)).getD 0, text.size⟩

def attemptResize (group : Group π) (span : Span) : Attempt (Option Span) :=
  match group.int32? 0 with
  | none => return none
  | some length =>
    if length.toInt.natAbs < span.text.length then
      some <$> span.narrowTo (resizeRange length.toInt span.text)
    else return some (resizeTo length.toInt (group.text 1) span)

/-- What is left of a text without the characters `p` at both ends. -/
def stripRange (p : Char → Bool) (text : Text) : Attempt ByteRange := do
  let rest := text.trimStart p
  let start ← minus text.size rest.size .faults
  return ⟨start, start + (rest.trimEnd p).size⟩

def attemptStrip (group : Group π) (span : Span) : Attempt Span := do
  let set := group.text 0
  let p := if set.isEmpty then isBlank else (group.casing 0).memberOf set
  span.narrowTo (← stripRange p span.text)

theorem attemptDelimit_eq (group : Group π) (span : Span) :
    attemptDelimit group span = .ok (delimit group span) := by
  simp only [attemptDelimit, delimit, DelimitFlags.extractRange?_eq, ok_bind]
  rcases he : (DelimitFlags.ofText (group.text 1)).extract? (group.casing 0) (group.text 0)
    (group.text 2) (group.text 3) span.text with _ | cut
  · rfl
  · simp only [Option.map_some, Span.narrowTo_range (DelimitFlags.whole_of_extract? he)]
    rfl

theorem advance?_zero {text : Text} {count : Nat} (h : count ≤ text.length) :
    text.advance? 0 count = some (Text.size (text.take count)) := by
  have hadvance := Text.advance?_append [] text count
  rw [Text.splitLength?_of_le h] at hadvance
  simpa using hadvance

theorem narrowTo_resizeRange (length : Int) (pad : Text) {span : Span}
    (h : length.natAbs < span.text.length) :
    span.narrowTo (resizeRange length span.text) = .ok (resizeTo length pad span) := by
  simp only [resizeTo, if_pos h, resizeRange]
  split
  · have hwhole : (Cut.mk [] (span.text.take length.natAbs) (span.text.drop length.natAbs)).whole =
        span.text := List.take_append_drop _ span.text
    rw [← Span.narrowTo_range hwhole, advance?_zero (Nat.le_of_lt h)]
    simp [Cut.range]
  · have hwhole : (Cut.mk (span.text.take (span.text.length - length.natAbs))
        (span.text.drop (span.text.length - length.natAbs)) []).whole = span.text := by
      simp [Cut.whole]
    have hsize := congrArg Text.size hwhole
    rw [← Span.narrowTo_range hwhole, advance?_zero (Nat.sub_le _ _)]
    simp only [Cut.whole, List.append_nil, Text.size_append] at hsize
    simp only [Option.getD_some, Cut.range, hsize]

theorem attemptResize_eq (group : Group π) (span : Span) :
    attemptResize group span = .ok (resize group span) := by
  rw [attemptResize, resize]
  rcases group.int32? 0 with _ | length
  · rfl
  · simp only [Option.map_some]
    split
    case isTrue hshrinks =>
      rw [narrowTo_resizeRange length.toInt (group.text 1) hshrinks]
      rfl
    case isFalse => rfl

theorem stripRange_eq (p : Char → Bool) (text : Text) :
    stripRange p text = .ok (stripCut p text).range := by
  have hsize : text.size = Text.size (text.takeWhile p) + (text.trimStart p).size := by
    rw [← Text.size_append, Text.trimStart, List.takeWhile_append_dropWhile]
  rw [stripRange, minus_of_le (by omega), ok_bind, hsize, Nat.add_sub_cancel]
  rfl

theorem attemptStrip_eq (group : Group π) (span : Span) :
    attemptStrip group span = .ok (strip group span) := by
  simp only [attemptStrip, strip, stripRange_eq, ok_bind]
  exact Span.narrowTo_range (whole_stripCut _ _)

end Change

/-- Evaluate a call, narrowing by ranges. -/
def Function.attempt (f : Function) (options : FormatOptions) (group : Group Meaning) (span : Span)
    (params : Params) : Attempt (Option Span × Params) :=
  match f with
  | delimit => (·, params) <$> Change.attemptDelimit group span
  | resize => (·, params) <$> Change.attemptResize group span
  | strip => (some ·, params) <$> Change.attemptStrip group span
  | f => return f.evaluate options group span params

theorem Function.attempt_eq (f : Function) (options : FormatOptions) (group : Group Meaning)
    (span : Span) (params : Params) :
    f.attempt options group span params = .ok (f.evaluate options group span params) := by
  cases f <;> try rfl
  · rw [attempt, Change.attemptDelimit_eq]
    rfl
  · rw [attempt, Change.attemptResize_eq]
    rfl
  · rw [attempt, Change.attemptStrip_eq]
    rfl

namespace Combinator

variable {γ σ : Type}

/-- Run groups as long as nothing faults. -/
def attempt (c : Combinator) (evaluate : γ → Span → σ → Attempt (Option Span × σ)) :
    Option Bool → List γ → Span → σ → Attempt (Bool × Span × σ)
  | last, [], span, state => return (c.finish last, span, state)
  | last, group :: rest, span, state => do
    let (result, state) ← evaluate group span state
    let span := result.getD span
    match c.step last result.isSome with
    | .decided verdict => return (verdict, span, state)
    | .undecided last => c.attempt evaluate last rest span state

theorem attempt_eq (c : Combinator) {attempted : γ → Span → σ → Attempt (Option Span × σ)}
    {evaluate : γ → Span → σ → Option Span × σ}
    (h : ∀ group span state, attempted group span state = .ok (evaluate group span state))
    (last : Option Bool) (groups : List γ) (span : Span) (state : σ) :
    c.attempt attempted last groups span state = .ok (c.run evaluate last groups span state) := by
  induction groups generalizing last span state with
  | nil => rfl
  | cons group rest ih =>
    simp only [attempt, run, h, ok_bind]
    cases c.step last (evaluate group span state).1.isSome with
    | decided verdict => rfl
    | undecided last => exact ih last _ _

end Combinator

def Tag.attempt (tag : Tag Meaning) (mode : Mode) (options : FormatOptions) (span : Span)
    (params : Params) : Attempt (Bool × Span × Params) :=
  match tag.function with
  | none => return (mode = .format, span, params)
  | some f => do
    let (verdict, span, params) ←
      tag.operators.combinator.attempt (f.attempt options) none tag.runGroups span params
    return (verdict != tag.operators.negated, span, params)

theorem Tag.attempt_eq (tag : Tag Meaning) (mode : Mode) (options : FormatOptions) (span : Span)
    (params : Params) :
    tag.attempt mode options span params = .ok (tag.evaluate mode options span params) := by
  rw [attempt, evaluate]
  cases tag.function with
  | none => rfl
  | some f =>
    have hrun := tag.operators.combinator.attempt_eq (f.attempt_eq options) none tag.runGroups span
      params
    simp only [hrun, ok_bind]
    rfl

/-- Evaluate tags one after another, also behind one that refuses, and keep what each results in. -/
def evaluateEach (mode : Mode) (options : FormatOptions) :
    List (Tag Meaning) → Span → Params → List (Bool × Span × Params)
  | [], _, _ => []
  | tag :: rest, span, params =>
    let (verdict, span, params) := tag.evaluate mode options span params
    (verdict, span, params) :: evaluateEach mode options rest span params

def attemptEach (mode : Mode) (options : FormatOptions) :
    List (Tag Meaning) → Span → Params → Attempt (List (Bool × Span × Params))
  | [], _, _ => return []
  | tag :: rest, span, params => do
    let (verdict, span, params) ← tag.attempt mode options span params
    let results ← attemptEach mode options rest span params
    return (verdict, span, params) :: results

theorem attemptEach_eq (mode : Mode) (options : FormatOptions) (tags : List (Tag Meaning))
    (span : Span) (params : Params) :
    attemptEach mode options tags span params = .ok (evaluateEach mode options tags span params) := by
  induction tags generalizing span params with
  | nil => rfl
  | cons tag rest ih =>
    simp only [attemptEach, evaluateEach, Tag.attempt_eq, ok_bind, ih]
    rfl

namespace Span

/-- The span of a parameter that was made from a text at a position: its place lies within, both ends
are positions of the text, and as long as nothing rewrote it, it is what the text says there. -/
structure Placed (name source : Text) (position : Nat) (span : Span) : Prop where
  start_ge : position ≤ span.range.start
  start_le_stop : span.range.start ≤ span.range.stop
  stop_le : span.range.stop ≤ position + source.size
  start_isPosition : (source.splitAt? (span.range.start - position)).isSome
  stop_isPosition : (source.splitAt? (span.range.stop - position)).isSome
  text_eq : span.rewritten = false →
    source.slice? ⟨span.range.start - position, span.range.stop - position⟩ = some span.text
  isParameter : span.isParameter = true
  name_eq : span.name? = if name.isEmpty then none else some name

theorem Traced.placed {name source : Text} {position : Nat} {span : Span}
    (h : Traced source position (.parameter name) span) : Placed name source position span := by
  obtain ⟨⟨⟨before, kept, after⟩, rfl, hrange, htext⟩, horigin⟩ := h
  have hstart : span.range.start - position = before.size := by
    rw [hrange]
    exact Nat.add_sub_cancel_left _ _
  have hstop : span.range.stop - position = before.size + kept.size := by
    rw [hrange]
    exact Nat.add_sub_cancel_left _ _
  have hwhole : (Cut.mk before kept after).whole = before ++ (kept ++ after) :=
    List.append_assoc _ _ _
  constructor
  · rw [hrange]
    exact Nat.le_add_right _ _
  · exact Nat.le_add_right _ _
  · rw [hrange]
    simp only [ByteRange.shift, Cut.range, Cut.whole, Text.size_append]
    omega
  · rw [hstart, hwhole, Text.splitAt?_append]
    rfl
  · rw [hstop, Cut.whole, ← Text.size_append, Text.splitAt?_append]
    rfl
  · intro hkept
    rw [hstart, hstop, hwhole, Text.slice?_append, htext hkept]
  · rw [isParameter, horigin]
  · rw [name?, horigin]

theorem Traced.evaluateEach {source : Text} {position : Nat} {origin : Origin} {span : Span}
    (h : Traced source position origin span) (mode : Mode) (options : FormatOptions)
    (tags : List (Tag Meaning)) (params : Params) :
    ∀ result ∈ Stencil.evaluateEach mode options tags span params,
      Traced source position origin result.2.1 := by
  induction tags generalizing span params with
  | nil =>
    intro result hresult
    cases hresult
  | cons tag rest ih =>
    have hnext := h.evaluate tag mode options params
    intro result hresult
    rcases List.mem_cons.1 hresult with rfl | hresult
    · exact hnext
    · exact ih hnext _ result hresult

end Span

/-- A parameter's span keeps its place in the text it was made from, whatever tags are evaluated on it
one after another and whether they accept: no range that it is narrowed to is reversed, out of the
text or inside a character. So the range that tags leave of a capture is not changed by bringing it
within the ends of the capture. -/
theorem evaluateEach_placed (name text : Text) (position : Nat) (mode : Mode)
    (options : FormatOptions) (tags : List (Tag Meaning)) (params : Params) :
    attemptEach mode options tags (.parameter name text position) params =
      .ok (evaluateEach mode options tags (.parameter name text position) params) ∧
    (∀ result ∈ evaluateEach mode options tags (.parameter name text position) params,
      result.2.1.Placed name text position) ∧
    let kept := (evaluateAll mode options tags (.parameter name text position) params).2.1.range
    clamp kept.start position (position + text.size) = .ok kept.start ∧
      clamp kept.stop kept.start (position + text.size) = .ok kept.stop := by
  have hinitial := Span.traced_parameter name text position
  refine ⟨attemptEach_eq mode options tags _ params, ?_, ?_⟩
  · intro result hresult
    exact (hinitial.evaluateEach mode options tags params result hresult).placed
  · have hplaced := (hinitial.evaluateAll mode options tags params).placed
    have hstart := Nat.le_trans hplaced.start_le_stop hplaced.stop_le
    exact ⟨clamp_of_le hplaced.start_ge hstart,
      clamp_of_le hplaced.start_le_stop hplaced.stop_le⟩

end Stencil
