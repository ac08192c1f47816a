import Stencil.Proofs.Check.Coverage

/-! # Checking with a cursor

The check once more as a walk over byte positions: a cursor moves through the text, the tags of a
capture run as soon as its run has been split, and what follows is searched only after that. Every
slice is asked for by its range, and where there is none the walk faults. Lengths are counted in 64
bits, and what does not fit in them either goes round, as in the check, or is a fault as well. No
slice is ever missing, and nothing goes round unless what one run needs does not fit. -/
namespace Stencil

/-- Why a walk stops without a result. -/
inductive Stop where
  | mismatch
  /-- A range that is no slice, bounds in the wrong order or a count that does not fit. -/
  | fault
  deriving DecidableEq, Repr

/-- What is done with a count that does not fit in 64 bits. -/
inductive Overflow where
  | wraps
  | faults
  deriving DecidableEq, Repr

abbrev Attempt (α : Type) := Except Stop α

namespace Attempt

variable {α β : Type}

def found : Option α → Attempt α
  | some a => .ok a
  | none => .error .mismatch

def slice (text : Text) (start stop : Nat) : Attempt Text :=
  match text.slice? ⟨start, stop⟩ with
  | some piece => .ok piece
  | none => .error .fault

def plus (a b : Nat) : Overflow → Attempt Nat
  | .wraps => .ok ((a + b) % UInt64.size)
  | .faults => if a + b < UInt64.size then .ok (a + b) else .error .fault

def minus (a b : Nat) : Overflow → Attempt Nat
  | .wraps => .ok (Run.minus a b)
  | .faults => if b ≤ a then .ok (a - b) else .error .fault

def clamp (n low high : Nat) : Attempt Nat :=
  if low ≤ high then .ok (max low (min n high)) else .error .fault

theorem ok_bind (a : α) (f : α → Attempt β) : ((Except.ok a : Attempt α) >>= f) = f a := rfl

theorem bind_eq_ok_iff {x : Attempt α} {f : α → Attempt β} {b : β} :
    x >>= f = .ok b ↔ ∃ a, x = .ok a ∧ f a = .ok b := by
  cases x with
  | ok a => simp [ok_bind]
  | error reason => exact ⟨nofun, nofun⟩

theorem slice_eq_ok_iff {text piece : Text} {start stop : Nat} :
    slice text start stop = .ok piece ↔ text.slice? ⟨start, stop⟩ = some piece := by
  rw [slice]
  cases text.slice? ⟨start, stop⟩ <;> simp

theorem slice_to_end_eq_ok_iff {text rest : Text} {start : Nat} :
    slice text start text.size = .ok rest ↔ ∃ front, text = front ++ rest ∧ front.size = start :=
  slice_eq_ok_iff.trans Text.slice?_to_end_iff

theorem slice_append (a b c : Text) :
    slice (a ++ (b ++ c)) a.size (a.size + b.size) = .ok b := by
  rw [slice, Text.slice?_append]

theorem slice_to_end (a b : Text) : slice (a ++ b) a.size (Text.size (a ++ b)) = .ok b := by
  have h := slice_append a b []
  rwa [List.append_nil, ← Text.size_append] at h

theorem slice_front (a b : Text) : slice (a ++ b) 0 a.size = .ok a := by
  have h := slice_append [] a b
  rwa [Text.size_nil, Nat.zero_add] at h

theorem minus_of_le {a b : Nat} (h : b ≤ a) (o : Overflow) : minus a b o = .ok (a - b) := by
  cases o with
  | wraps => exact congrArg _ (Run.minus_of_le h)
  | faults => exact if_pos h

theorem clamp_of_le {n low high : Nat} (hl : low ≤ n) (hh : n ≤ high) :
    clamp n low high = .ok n := by
  rw [clamp, if_pos (by omega), show max low (min n high) = n by omega]

end Attempt

structure Cursor where
  position : Nat
  params : Params
  spans : List Span

namespace Cursor

open Attempt

def literal (text : Text) (l : Literal) (c : Cursor) : Attempt Cursor := do
  let rest ← slice text c.position text.size
  let (front, _) ← found (l.casing.stripFront? l.text rest)
  let taken ← slice rest 0 front.size
  return { c with
    position := c.position + front.size
    spans := c.spans ++ [.literal taken c.position front.size] }

def cutOff (o : Overflow) (text : Text) (start stop : Nat) : Attempt (List Span) :=
  if start < stop then do
    let piece ← slice text start stop
    let length ← minus stop start o
    return [.literal piece start length]
  else return []

/-- Run the tags on a slice; its spans reach from one end to the other. -/
def capture (o : Overflow) (text : Text) (p : Parameter Meaning) (start stop : Nat) (c : Cursor) :
    Attempt Cursor := do
  let taken ← slice text start stop
  match evaluateAll .check .inCheck p.tags (.parameter p.name taken start) c.params with
  | (false, _, _) => .error .mismatch
  | (true, span, params) =>
    let keptStart ← clamp span.range.start start stop
    let keptStop ← clamp span.range.stop keptStart stop
    let before ← cutOff o text start keptStart
    let kept ← slice text keptStart keptStop
    let length ← minus keptStop keptStart o
    let after ← cutOff o text keptStop stop
    return { c with
      params := if p.isAnonymous then params else params.insert p.name (.text span.text)
      spans := c.spans ++ (before ++ [⟨kept, keptStart, length, span.origin, false⟩] ++ after) }

def minLength (o : Overflow) (run : List (Parameter Meaning)) : Attempt Nat :=
  run.foldlM (fun n p => plus n p.minLength o) 0

/-- The length of one parameter: the last one without a fixed length gets what the others of the run
leave of the total. -/
def ownLength (o : Overflow) (total least : Nat) (p : Parameter Meaning)
    (rest : List (Parameter Meaning)) : Attempt Nat :=
  if !p.isFixed && Run.isFixed rest then do
    let others ← minus least p.minLength o
    minus total others o
  else return p.minLength

def captures (o : Overflow) (text : Text) (total least : Nat) :
    List (Parameter Meaning) → Nat → Cursor → Attempt Cursor
  | [], _, c => return c
  | p :: rest, start, c => do
    let length ← ownLength o total least p rest
    let stop ← found (text.advance? start length)
    let c ← capture o text p start stop c
    captures o text total least rest stop c

/-- Where a run ends, when its least length ends at a position. -/
def edge (text : Text) (run : List (Parameter Meaning)) (next : Option Literal) (least : Nat) :
    Attempt Nat :=
  if Run.isFixed run then pure least
  else match next with
    | some l => do
      let range ← found (l.casing.findFrom? text l.text least)
      return range.start
    | none => pure text.size

def parameters (o : Overflow) (text : Text) (run : List (Parameter Meaning)) (next : Option Literal)
    (c : Cursor) : Attempt Cursor := do
  let needed ← minLength o run
  let least ← found (text.advance? c.position needed)
  let stop ← edge text run next least
  let taken ← slice text c.position stop
  let after ← captures o text taken.length needed run c.position c
  return { after with position := stop }

/-- Walk over parts that stand behind a run of parameters. -/
def walk (o : Overflow) (text : Text) :
    List (Parameter Meaning) → List (Part Meaning) → Cursor → Attempt Cursor
  | run, [], c => do
    let c ← parameters o text run none c
    if c.position < text.size then do
      let _ ← slice text c.position text.size
      .error .mismatch
    else return c
  | run, .parameter p :: parts, c => walk o text (run ++ [p]) parts c
  | run, .literal l :: parts, c => do
    let c ← parameters o text run (some l) c
    let c ← literal text l c
    walk o text [] parts c

theorem literal_append (a t : Text) (l : Literal) (params : Params) (spans : List Span) :
    literal (a ++ t) l ⟨a.size, params, spans⟩ =
      found ((l.casing.stripFront? l.text t).map fun (w, _) =>
        ⟨a.size + w.size, params, spans ++ [.literal w a.size w.size]⟩) := by
  simp only [literal, slice_to_end, ok_bind]
  cases hs : l.casing.stripFront? l.text t with
  | none => rfl
  | some s =>
    obtain ⟨w, r⟩ := s
    obtain ⟨rfl, -⟩ := Casing.stripFront?_eq_some_iff.1 hs
    have hw := slice_append [] w r
    simp only [List.nil_append, Text.size_nil, Nat.zero_add] at hw
    simp only [found, Option.map_some, ok_bind, hw]
    rfl

theorem cutOff_append (o : Overflow) (a b c : Text) :
    cutOff o (a ++ (b ++ c)) a.size (a.size + b.size) =
      .ok (if b.isEmpty then [] else [.literal b a.size b.size]) := by
  cases b with
  | nil =>
    rw [cutOff, if_neg (by simp)]
    rfl
  | cons x xs =>
    have hx := x.utf8Size_pos
    rw [cutOff, if_pos (by simp only [Text.size_cons]; omega), slice_append, ok_bind,
      minus_of_le (by omega), ok_bind, Nat.add_sub_cancel_left]
    rfl

/-- The ends that the tags leave are positions of the slice, so all pieces of it are slices. -/
theorem capture_append (o : Overflow) (a v t : Text) (p : Parameter Meaning) (position : Nat)
    (params : Params) (spans : List Span) :
    capture o (a ++ (v ++ t)) p a.size (a.size + v.size) ⟨position, params, spans⟩ =
      found (((Slice.capture p v).evaluate? a.size params).map fun (more, after) =>
        ⟨position, after, spans ++ more⟩) := by
  have htraced := (Span.traced_parameter p.name v a.size).evaluateAll .check .inCheck p.tags params
  simp only [capture, slice_append, ok_bind, Slice.evaluate?]
  rcases he : evaluateAll .check .inCheck p.tags (.parameter p.name v a.size) params
    with ⟨verdict, span, after⟩
  rw [he] at htraced
  cases verdict with
  | false => rfl
  | true =>
    obtain ⟨⟨⟨b, k, e⟩, rfl, hr, -⟩, ho⟩ := htraced
    have hstart : span.range.start = a.size + b.size := by rw [hr]; rfl
    have hstop : span.range.stop = a.size + b.size + k.size := by
      rw [hr]
      exact (Nat.add_assoc ..).symm
    have hsize : (Cut.whole ⟨b, k, e⟩).size = b.size + k.size + e.size := by
      simp only [Cut.whole, Text.size_append]
    have hb : a ++ (Cut.whole ⟨b, k, e⟩ ++ t) = a ++ (b ++ (k ++ (e ++ t))) := by
      simp only [Cut.whole, List.append_assoc]
    have hk := slice_append (a ++ b) k (e ++ t)
    have he := cutOff_append o (a ++ b ++ k) e t
    have hclampStart : clamp (a.size + b.size) a.size (a.size + (Cut.whole ⟨b, k, e⟩).size) =
        .ok (a.size + b.size) := clamp_of_le (by omega) (by omega)
    have hclampStop : clamp (a.size + b.size + k.size) (a.size + b.size)
        (a.size + (Cut.whole ⟨b, k, e⟩).size) = .ok (a.size + b.size + k.size) :=
      clamp_of_le (by omega) (by omega)
    simp only [Text.size_append, List.append_assoc, ← Nat.add_assoc] at hk he
    have hend : a.size + (b.size + k.size + e.size) = a.size + b.size + k.size + e.size := by omega
    simp only [hstart, hstop, hclampStart, hclampStop, ok_bind]
    rw [hb, hsize, hend, cutOff_append, ok_bind, hk, ok_bind, minus_of_le (by omega), ok_bind, he,
      ok_bind, Nat.add_sub_cancel_left, ho, hr, Slice.captureSpans_cut]
    rfl

theorem minLength_wraps (run : List (Parameter Meaning)) :
    minLength .wraps run = .ok (Run.minLength run) := by
  have hfold (n : Nat) (h : n < UInt64.size) :
      run.foldlM (fun n p => plus n p.minLength .wraps) n = .ok ((n + Run.needed run) % UInt64.size) := by
    induction run generalizing n with
    | nil => rw [Run.needed_nil, Nat.add_zero, Nat.mod_eq_of_lt h, List.foldlM_nil]; rfl
    | cons p run ih =>
      rw [List.foldlM_cons, plus, ok_bind, ih _ (Nat.mod_lt _ (by decide)), Run.needed_cons,
        Nat.mod_add_mod, Nat.add_assoc]
  rw [minLength, hfold 0 (by decide), Run.minLength_eq, Nat.zero_add]

theorem minLength_faults (run : List (Parameter Meaning)) :
    minLength .faults run =
      if Run.needed run < UInt64.size then .ok (Run.needed run) else .error .fault := by
  have hfold (n : Nat) (h : n < UInt64.size) :
      run.foldlM (fun n p => plus n p.minLength .faults) n =
        if n + Run.needed run < UInt64.size then .ok (n + Run.needed run) else .error .fault := by
    induction run generalizing n with
    | nil => rw [Run.needed_nil, Nat.add_zero, if_pos h, List.foldlM_nil]; rfl
    | cons p run ih =>
      rw [List.foldlM_cons, plus, Run.needed_cons, ← Nat.add_assoc]
      by_cases hp : n + p.minLength < UInt64.size
      · rw [if_pos hp, ok_bind, ih _ hp]
      · rw [if_neg hp, if_neg (by omega)]
        rfl
  rw [minLength, hfold 0 (by decide), Nat.zero_add]

theorem minLength_of_fits {run : List (Parameter Meaning)} (fits : Run.needed run < UInt64.size)
    (o : Overflow) : minLength o run = .ok (Run.minLength run) := by
  cases o with
  | wraps => exact minLength_wraps run
  | faults => rw [minLength_faults, if_pos fits, Run.minLength_of_fits fits]

theorem ownLength_wraps (total least : Nat) (p : Parameter Meaning)
    (rest : List (Parameter Meaning)) :
    ownLength .wraps total least p rest = .ok (Run.own total least p rest) := by
  rw [ownLength, Run.own]
  split <;> rfl

theorem ownLength_of_le {total least : Nat} {p : Parameter Meaning} (o : Overflow)
    (rest : List (Parameter Meaning)) (hp : p.minLength ≤ least) (hle : least ≤ total) :
    ownLength o total least p rest = .ok (Run.own total least p rest) := by
  rw [ownLength, Run.own, minus_of_le hp, ok_bind, minus_of_le (by omega), Run.minus_of_le hp,
    Run.minus_of_le (by omega)]
  split <;> rfl

theorem captures_append {o : Overflow} {total least : Nat} {run : List (Parameter Meaning)}
    (a t : Text) (position : Nat) (params : Params) (spans : List Span)
    (hown : ∀ p ∈ run, ∀ rest, ownLength o total least p rest = .ok (Run.own total least p rest)) :
    captures o (a ++ t) total least run a.size ⟨position, params, spans⟩ =
      found ((Run.share? total least run t).bind fun slices =>
        (Slice.evaluateFrom? a.size params slices).map fun (more, after) =>
          ⟨position, after, spans ++ more⟩) := by
  induction run generalizing a t params spans with
  | nil =>
    simp only [captures, Run.share?, Option.bind_some, Slice.evaluateFrom?, Option.map_some,
      List.append_nil]
    rfl
  | cons p run ih =>
    rw [captures, hown p List.mem_cons_self, ok_bind, Text.advance?_append, Run.share?]
    cases hs : t.splitLength? (Run.own total least p run) with
    | none => rfl
    | some s =>
      obtain ⟨v, t⟩ := s
      obtain ⟨rfl, -⟩ := Text.splitLength?_eq_some_iff.1 hs
      simp only [Option.map_some, found, ok_bind, capture_append, Option.bind_eq_bind,
        Option.bind_some]
      cases he : (Slice.capture p v).evaluate? a.size params with
      | none =>
        -- the tags refuse, whether or not there is enough text for the others
        cases Run.share? total least run t with
        | none => rfl
        | some slices =>
          simp only [Option.bind_some, Slice.evaluateFrom?, he, Option.bind_eq_bind, Option.bind_none]
          rfl
      | some s =>
        obtain ⟨first, between⟩ := s
        have hstep := ih (a ++ v) t between (spans ++ first)
          (fun q hq => hown q (List.mem_cons_of_mem p hq))
        rw [List.append_assoc, Text.size_append] at hstep
        simp only [Option.map_some, found, ok_bind, hstep]
        cases Run.share? total least run t with
        | none => rfl
        | some slices =>
          simp only [Option.bind_some, Slice.evaluateFrom?, he, Option.bind_eq_bind, Slice.text]
          rcases Slice.evaluateFrom? (a.size + v.size) between slices with _ | ⟨more, after⟩
          · rfl
          · simp only [Option.map_some, Option.bind_some, List.append_assoc]

theorem edge_append {run : List (Parameter Meaning)} {l : Text} (a more : Text)
    (next : Option Literal) (hl : l.length = Run.minLength run) :
    edge (a ++ (l ++ more)) run next (a.size + l.size) =
      found ((Run.extent? run next (l ++ more)).map fun (taken, _) => a.size + taken.size) := by
  unfold edge
  rw [Run.extent?_append next more hl]
  split
  · rfl
  · cases next with
    | none =>
      simp only [Option.map_some, found, Text.size_append]
      rfl
    | some literal =>
      have hf := Casing.findFrom?_append literal.casing (a ++ l) more literal.text
      rw [List.append_assoc, Text.size_append] at hf
      simp only [hf]
      cases literal.casing.find? literal.text more with
      | none => rfl
      | some cut =>
        simp only [Option.map_some, found, ok_bind, Text.size_append, ← Nat.add_assoc]
        rfl

/-- The walk over a run counts what there is: what the run needs, or else a text that is not too long
to be counted. -/
def Counts (o : Overflow) (run : List (Parameter Meaning)) (t : Text) : Prop :=
  Run.needed run < UInt64.size ∨ o = .wraps ∧ t.length < UInt64.size

theorem Counts.minLength_eq {o : Overflow} {run : List (Parameter Meaning)} {t : Text}
    (h : Counts o run t) : minLength o run = .ok (Run.minLength run) := by
  rcases h with fits | ⟨rfl, -⟩
  · exact minLength_of_fits fits o
  · exact minLength_wraps run

theorem Counts.ownLength_eq {o : Overflow} {run : List (Parameter Meaning)} {t : Text} {total : Nat}
    (h : Counts o run t) (hle : Run.minLength run ≤ total) {p : Parameter Meaning} (hp : p ∈ run)
    (rest : List (Parameter Meaning)) :
    ownLength o total (Run.minLength run) p rest =
      .ok (Run.own total (Run.minLength run) p rest) := by
  rcases h with fits | ⟨rfl, -⟩
  · have hmin : p.minLength ≤ Run.minLength run := by
      rw [Run.minLength_of_fits fits]
      exact Run.mem_needed_le hp
    exact ownLength_of_le o rest hmin hle
  · exact ownLength_wraps total _ p rest

theorem parameters_append {o : Overflow} (a : Text) {t : Text} {run : List (Parameter Meaning)}
    (h : Counts o run t) (next : Option Literal) (params : Params) (spans : List Span) :
    parameters o (a ++ t) run next ⟨a.size, params, spans⟩ =
      found ((Run.extent? run next t).bind fun (taken, _) => (Run.slices? run taken).bind fun slices =>
        (Slice.evaluateFrom? a.size params slices).map fun (more, after) =>
          ⟨a.size + taken.size, after, spans ++ more⟩) := by
  simp only [parameters, h.minLength_eq, ok_bind, Text.advance?_append]
  cases hs : t.splitLength? (Run.minLength run) with
  | none =>
    rw [Run.extent?, hs]
    rfl
  | some s =>
    obtain ⟨l, more⟩ := s
    obtain ⟨rfl, hl⟩ := Text.splitLength?_eq_some_iff.1 hs
    simp only [Option.map_some, found, ok_bind, edge_append a more next hl]
    cases he : Run.extent? run next (l ++ more) with
    | none => rfl
    | some extent =>
      obtain ⟨taken, rest⟩ := extent
      obtain ⟨htext, hmin, hfixed⟩ := Run.of_extent? he
      rw [htext] at h
      have hshare := Run.share?_eq_slices? hmin hfixed (h.imp_right And.right)
      have hcaptures := captures_append a (taken ++ rest) a.size params spans
        (fun p hp rest => h.ownLength_eq hmin hp rest)
      simp only [Option.map_some, ok_bind, htext, slice_append, Option.bind_some, hcaptures, hshare]
      rcases Run.slices? run taken with _ | slices
      · rfl
      simp only [Option.bind_some]
      cases Slice.evaluateFrom? a.size params slices <;> rfl

/-- Where the cursor comes to when what follows it is split first and evaluated then. -/
def outcome? (run : List (Parameter Meaning)) (parts : List (Part Meaning)) (t : Text) (c : Cursor) :
    Option Cursor :=
  (splitParts? run parts t).bind fun slices =>
    (Slice.evaluateFrom? c.position c.params slices).map fun (more, after) =>
      ⟨c.position + t.size, after, c.spans ++ more⟩

theorem walk_nil {o : Overflow} (a : Text) {t : Text} {run : List (Parameter Meaning)}
    (h : Counts o run t) (params : Params) (spans : List Span) :
    walk o (a ++ t) run [] ⟨a.size, params, spans⟩ =
      found (outcome? run [] t ⟨a.size, params, spans⟩) := by
  rw [walk, parameters_append a h, outcome?, splitParts?]
  cases he : Run.extent? run none t with
  | none => rfl
  | some extent =>
    obtain ⟨taken, rest⟩ := extent
    obtain ⟨rfl, -, -⟩ := Run.of_extent? he
    simp only [Option.bind_some, Option.bind_eq_bind]
    cases hrest : rest with
    | nil =>
      simp only [List.append_nil, List.isEmpty_nil, ↓reduceIte]
      rcases Run.slices? run taken with _ | slices
      · rfl
      simp only [Option.bind_some]
      cases Slice.evaluateFrom? a.size params slices with
      | none => rfl
      | some s =>
        simp only [Option.map_some, found, ok_bind]
        rw [if_neg (by simp)]
        rfl
    | cons c cs =>
      -- text is left over, which a run without a free parameter does not take
      have hc := c.utf8Size_pos
      simp only [List.isEmpty_cons, Bool.false_eq_true, ↓reduceIte, Option.bind_none]
      rcases Run.slices? run taken with _ | slices
      · rfl
      simp only [Option.bind_some]
      cases Slice.evaluateFrom? a.size params slices with
      | none => rfl
      | some s =>
        have hend := slice_to_end (a ++ taken) (c :: cs)
        rw [List.append_assoc, Text.size_append a taken] at hend
        simp only [Option.map_some, found, ok_bind]
        rw [if_pos (by simp only [Text.size_append, Text.size_cons]; omega), hend]
        rfl

theorem walk_literal {o : Overflow} (a : Text) {t : Text} {run : List (Parameter Meaning)}
    (h : Counts o run t) (l : Literal) {parts : List (Part Meaning)} (params : Params)
    (spans : List Span)
    (hwalk : ∀ a rest params spans, rest.length ≤ t.length →
      walk o (a ++ rest) [] parts ⟨a.size, params, spans⟩ =
        found (outcome? [] parts rest ⟨a.size, params, spans⟩)) :
    walk o (a ++ t) run (.literal l :: parts) ⟨a.size, params, spans⟩ =
      found (outcome? run (.literal l :: parts) t ⟨a.size, params, spans⟩) := by
  simp only [walk, parameters_append a h, outcome?, splitParts?, Option.bind_eq_bind]
  cases he : Run.extent? run (some l) t with
  | none => rfl
  | some extent =>
    obtain ⟨taken, rest⟩ := extent
    obtain ⟨rfl, hmin, hfixed⟩ := Run.of_extent? he
    simp only [Option.bind_some]
    cases hslices : Run.slices? run taken with
    | none => rfl
    | some slices =>
    obtain ⟨hflat, -⟩ := Run.of_slices? hmin hfixed hslices
    simp only [Option.bind_some]
    cases hv : Slice.evaluateFrom? a.size params slices with
    | none =>
      -- a tag refuses before the rest is even split
      cases hl : l.casing.stripFront? l.text rest with
      | none => rfl
      | some s =>
        simp only [Option.bind_some, Option.map_none, found]
        cases splitParts? [] parts s.2 with
        | none => rfl
        | some others =>
          simp only [Option.bind_some, Slice.evaluateFrom?_append, hv, Option.bind_none]
          rfl
    | some first =>
      obtain ⟨more, between⟩ := first
      have hlit := literal_append (a ++ taken) rest l between (spans ++ more)
      rw [List.append_assoc, Text.size_append] at hlit
      simp only [Option.map_some, found, ok_bind, hlit]
      cases hl : l.casing.stripFront? l.text rest with
      | none => rfl
      | some s =>
        obtain ⟨w, r⟩ := s
        obtain ⟨rfl, -⟩ := Casing.stripFront?_eq_some_iff.1 hl
        have hbehind := hwalk (a ++ (taken ++ w)) r between
          (spans ++ more ++ [.literal w (a.size + taken.size) w.size])
          (by simp only [List.length_append]; omega)
        simp only [outcome?, List.append_assoc, Text.size_append, ← Nat.add_assoc] at hbehind
        simp only [Option.map_some, found, ok_bind, Option.bind_some, List.append_assoc, hbehind]
        cases splitParts? [] parts r with
        | none => rfl
        | some others =>
          simp only [Option.bind_some, Slice.evaluateFrom?_append, hv, hflat,
            Slice.evaluateFrom?, Slice.evaluate?, Option.bind_eq_bind, Slice.text]
          rcases Slice.evaluateFrom? (a.size + taken.size + w.size) between others
            with _ | ⟨last, after⟩
          · rfl
          · simp only [Option.map_some, Option.bind_some, Text.size_append, ← Nat.add_assoc]

/-- A walk from a reached position splits what follows it, evaluates the slices and ends at the end
of the text; it stops with a mismatch where the split or a tag fails. -/
theorem walk_append {o : Overflow} (a : Text) {t : Text} {run : List (Parameter Meaning)}
    {parts : List (Part Meaning)} (h : ∀ r ∈ Part.runsFrom run parts, Counts o r t) (params : Params)
    (spans : List Span) :
    walk o (a ++ t) run parts ⟨a.size, params, spans⟩ =
      found (outcome? run parts t ⟨a.size, params, spans⟩) := by
  induction parts generalizing a t run params spans with
  | nil => exact walk_nil a (h run List.mem_cons_self) params spans
  | cons part parts ih =>
    cases part with
    | parameter p =>
      have hlonger : ∀ r ∈ Part.runsFrom (run ++ [p]) parts, Counts o r t := h
      exact ih a hlonger params spans
    | literal l =>
      apply walk_literal a (h run List.mem_cons_self)
      intro a rest params spans hle
      apply ih
      intro r hr
      exact (h r (List.mem_cons_of_mem _ hr)).imp_right fun ⟨ho, ht⟩ => ⟨ho, by omega⟩

end Cursor

/-- The check of a text by a walk from its start. -/
def Layer.walk (o : Overflow) (layer : Layer Meaning) (text : Text) (params : Params) :
    Attempt (List Span × Params) := do
  let c ← Cursor.walk o text [] layer.parts ⟨0, params, []⟩
  return (c.spans, c.params)

theorem Layer.walk_eq {o : Overflow} {layer : Layer Meaning} {text : Text}
    (h : ∀ run ∈ Part.runs layer.parts, Cursor.Counts o run text) (params : Params) :
    layer.walk o text params = Attempt.found (layer.check text params) := by
  have hwalk := Cursor.walk_append [] h params []
  simp only [List.nil_append, Text.size_nil] at hwalk
  rw [walk, hwalk, Cursor.outcome?, check]
  simp only [Option.bind_eq_bind]
  rcases splitParts? [] layer.parts text with _ | slices
  · rfl
  · simp only [Option.bind_some]
    rcases Slice.evaluateFrom? 0 params slices with _ | ⟨spans, after⟩ <;> rfl

namespace Pattern

/-- The walk of a pattern that is nested so deep; beyond the pattern's bound it finds nothing. -/
def walkAt (p : Pattern) (o : Overflow) (depth : Nat) (text : Text) (params : Params) :
    Attempt (List Span × Params) :=
  if p.options.maxDepth < depth then .error .mismatch else (p.levelAt depth).walk o text params

theorem walkAt_eq {p : Pattern} {o : Overflow} {text : Text}
    (h : (∀ run ∈ Part.runs p.parts, Run.needed run < UInt64.size) ∨
      o = .wraps ∧ text.length < UInt64.size) (depth : Nat) (params : Params) :
    p.walkAt o depth text params = Attempt.found ((p.meaningAt depth).check text params) := by
  have hcounts : ∀ run ∈ Part.runs (p.levelAt depth).parts, Cursor.Counts o run text := by
    intro run hrun
    obtain ⟨own, hown, hneeded⟩ := exists_needed_levelAt hrun
    exact h.imp_left fun fits => hneeded ▸ fits own hown
  rw [walkAt, meaningAt_eq]
  split
  · rfl
  · exact Layer.walk_eq hcounts params

end Pattern

end Stencil
