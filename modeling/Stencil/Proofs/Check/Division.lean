import Stencil.Proofs.Check.Cursor

/-! # How a run of parameters is divided

Where the parameters of a run stand can be told before any tag is evaluated. The run ends where what
it needs ends, at the first possible occurrence of the next literal, or at the end of the text, and
whatever it has to spare goes to one of its parameters. All this holds if what the run needs can be
counted. -/
namespace Stencil

variable {π : Type}

namespace Literal

def OccursAt (l : Literal) (text : Text) (position : Nat) : Prop :=
  ∃ before found after, text = before ++ (found ++ after) ∧ before.size = position ∧
    l.casing.sameText found l.text = true

/-- The first position from `least` on at which the literal occurs. -/
structure FirstFrom (l : Literal) (text : Text) (least position : Nat) : Prop where
  least_le : least ≤ position
  occurs : l.OccursAt text position
  first : ∀ other, least ≤ other → l.OccursAt text other → position ≤ other

theorem occursAt_append_iff (l : Literal) (a b : Text) (position : Nat) :
    l.OccursAt (a ++ b) (a.size + position) ↔ l.OccursAt b position := by
  constructor
  · rintro ⟨before, found, after, htext, hsize, hsame⟩
    have hbefore : before <+: a ++ b := ⟨found ++ after, htext.symm⟩
    have ha : a <+: before := by
      rcases List.prefix_or_prefix_of_prefix (List.prefix_append a b) hbefore with ha | ha
      · exact ha
      · have heq := Text.eq_of_isPrefix_of_size_le ha (by omega)
        exact heq ▸ List.prefix_rfl
    obtain ⟨inner, rfl⟩ := ha
    rw [List.append_assoc, List.append_cancel_left_eq] at htext
    rw [Text.size_append, Nat.add_left_cancel_iff] at hsize
    exact ⟨inner, found, after, htext, hsize, hsame⟩
  · rintro ⟨before, found, after, rfl, rfl, hsame⟩
    exact ⟨a ++ before, found, after, (List.append_assoc ..).symm, Text.size_append a before, hsame⟩

theorem firstFrom_of_find? {l : Literal} {b : Text} {cut : Cut} (a : Text)
    (h : l.casing.find? l.text b = some cut) :
    l.FirstFrom (a ++ b) a.size (a.size + cut.before.size) := by
  have hfirst := Casing.firstAt_iff_find?.2 ⟨cut, h, rfl⟩
  obtain ⟨before, found, after, htext, hsame, hsize⟩ := hfirst.occurs
  refine ⟨Nat.le_add_right _ _, ?_, ?_⟩
  · exact (occursAt_append_iff l a b _).2 ⟨before, found, after, htext, hsize, hsame⟩
  · intro other hle hother
    obtain ⟨n, rfl⟩ := Nat.exists_eq_add_of_le hle
    obtain ⟨before, found, after, htext, rfl, hsame⟩ := (occursAt_append_iff l a b n).1 hother
    exact Nat.add_le_add_left (hfirst.first before found after htext hsame) _

theorem find?_eq_none_iff {l : Literal} {b : Text} (a : Text) :
    l.casing.find? l.text b = none ↔ ∀ position, a.size ≤ position → ¬ l.OccursAt (a ++ b) position := by
  constructor
  · intro hnone position hle hoccurs
    obtain ⟨n, rfl⟩ := Nat.exists_eq_add_of_le hle
    obtain ⟨before, found, after, rfl, -, hsame⟩ := (occursAt_append_iff l a b n).1 hoccurs
    obtain ⟨cut, hcut, -⟩ := Casing.find?_of_occurrence before after hsame
    rw [hnone] at hcut
    cases hcut
  · intro habsent
    cases hfind : l.casing.find? l.text b with
    | none => rfl
    | some cut =>
      have hfirst := firstFrom_of_find? a hfind
      exact absurd hfirst.occurs (habsent _ hfirst.least_le)

end Literal

namespace Run

/-- Where the run ends that begins at `start`. -/
def EndsAt (run : List (Parameter π)) (next : Option Literal) (text : Text) (start stop : Nat) : Prop :=
  ∃ least, text.advance? start (needed run) = some least ∧
    if isFixed run then stop = least
    else match next with
      | some l => l.FirstFrom text least stop
      | none => stop = text.size

theorem advance?_append {l : Text} {n : Nat} (a more : Text) (hl : l.length = n) :
    Text.advance? (a ++ (l ++ more)) a.size n = some (a ++ l).size := by
  rw [Text.advance?_append, Text.splitLength?_eq_some_iff.2 ⟨rfl, hl⟩, Text.size_append]
  rfl

section

variable {run : List (Parameter π)} (fits : needed run < UInt64.size)

include fits

theorem extent?_eq_none_iff {next : Option Literal} (a : Text) {t : Text} :
    extent? run next t = none ↔ t.length < needed run ∨
      isFixed run = false ∧ ∃ l, next = some l ∧
        ∀ least, Text.advance? (a ++ t) a.size (needed run) = some least →
          ∀ position, least ≤ position → ¬ l.OccursAt (a ++ t) position := by
  have hmin := minLength_of_fits fits
  rcases Nat.lt_or_ge t.length (needed run) with hshort | hlong
  · refine iff_of_true ?_ (.inl hshort)
    rw [extent?, hmin, Text.splitLength?_eq_none_iff.2 hshort]
    rfl
  · obtain ⟨l, more, rfl, hl⟩ := Text.exists_front hlong
    rw [or_iff_right (Nat.not_lt.2 hlong), extent?_append next more (hl.trans hmin.symm),
      advance?_append a more hl]
    cases isFixed run with
    | true => simp
    | false =>
      cases next with
      | none => simp
      | some literal =>
        have hfind := Literal.find?_eq_none_iff (l := literal) (b := more) (a ++ l)
        rw [List.append_assoc] at hfind
        simp [hfind]

theorem endsAt_of_extent? {next : Option Literal} {t taken rest : Text} (a : Text)
    (h : extent? run next t = some (taken, rest)) :
    EndsAt run next (a ++ t) a.size (a.size + taken.size) := by
  have hmin := minLength_of_fits fits
  obtain ⟨l, more, rfl, hl⟩ := Text.exists_front (minLength_le_of_extent? h)
  refine ⟨(a ++ l).size, advance?_append a more (hl.trans hmin), ?_⟩
  rw [extent?_append next more hl] at h
  cases hfixed : isFixed run with
  | true =>
    rw [if_pos hfixed] at h
    cases h
    rw [if_pos rfl, Text.size_append]
  | false =>
    rw [if_neg (Bool.eq_false_iff.1 hfixed)] at h
    rw [if_neg Bool.false_ne_true]
    cases next with
    | none =>
      cases h
      simp only [Text.size_append]
    | some literal =>
      obtain ⟨cut, hfind, he⟩ := Option.map_eq_some_iff.1 h
      cases he
      have hfirst := Literal.firstFrom_of_find? (a ++ l) hfind
      simpa only [List.append_assoc, Text.size_append, Nat.add_assoc] using hfirst

end

theorem stripFront?_of_extent? {run : List (Parameter π)} {next : Option Literal} {l : Literal}
    {t taken rest : Text} (hfree : isFixed run = false) (hnext : next = some l)
    (h : extent? run next t = some (taken, rest)) :
    ∃ found after, l.casing.stripFront? l.text rest = some (found, after) := by
  obtain ⟨front, more, rfl, hl⟩ := Text.exists_front (minLength_le_of_extent? h)
  rw [extent?_append next more hl, hfree, if_neg Bool.false_ne_true, hnext] at h
  obtain ⟨cut, hfind, he⟩ := Option.map_eq_some_iff.1 h
  cases he
  exact ⟨_, _, Casing.stripFront?_of_find? hfind⟩

/-- All parameters get their least lengths, but the last one without a fixed length gets all that the
others leave of the total. -/
def Shares (run : List (Parameter π)) (total : Nat) (lengths : List Nat) : Prop :=
  if isFixed run then lengths = run.map (·.minLength)
  else ∃ front p rear rest, run = front ++ p :: rear ∧ p.isFixed = false ∧ isFixed rear = true ∧
    lengths = front.map (·.minLength) ++ rest :: rear.map (·.minLength) ∧
    needed front + rest + needed rear = total ∧ p.minLength ≤ rest

theorem needed_append (front rear : List (Parameter π)) :
    needed (front ++ rear) = needed front + needed rear := by
  rw [needed, List.map_append, List.sum_append]
  rfl

theorem lengths_of_isFixed (total least : Nat) {run : List (Parameter π)} (h : isFixed run = true) :
    lengths total least run = run.map (·.minLength) := by
  induction run with
  | nil => rfl
  | cons p run ih =>
    rw [isFixed_cons, Bool.and_eq_true_iff] at h
    rw [lengths, ih h.2, own, h.1]
    rfl

theorem exists_lengths {total least : Nat} {run : List (Parameter π)} (hfree : isFixed run = false)
    (hmin : ∀ p ∈ run, p.minLength ≤ least) (hle : least ≤ total) :
    ∃ front p rear, run = front ++ p :: rear ∧ p.isFixed = false ∧ isFixed rear = true ∧
      lengths total least run = front.map (·.minLength) ++
        (p.minLength + (total - least)) :: rear.map (·.minLength) := by
  induction run with
  | nil => cases hfree
  | cons p run ih =>
    have hown := own_of_le run (hmin p List.mem_cons_self) hle
    rw [lengths, hown]
    cases hrun : isFixed run with
    | true =>
      rw [isFixed_cons, hrun, Bool.and_true] at hfree
      refine ⟨[], p, run, rfl, hfree, hrun, ?_⟩
      rw [lengths_of_isFixed total least hrun, hfree]
      rfl
    | false =>
      obtain ⟨front, q, rear, rfl, hq, hrear, hlengths⟩ :=
        ih hrun fun q hq => hmin q (List.mem_cons_of_mem p hq)
      refine ⟨p :: front, q, rear, rfl, hq, hrear, ?_⟩
      rw [hlengths, Bool.and_false]
      rfl

theorem shares_lengths {total : Nat} {run : List (Parameter π)} (hle : needed run ≤ total) :
    Shares run total (lengths total (needed run) run) := by
  unfold Shares
  cases hrun : isFixed run with
  | true => exact lengths_of_isFixed total _ hrun
  | false =>
    obtain ⟨front, p, rear, rfl, hp, hrear, hlengths⟩ :=
      exists_lengths hrun (fun p => mem_needed_le) hle
    refine ⟨front, p, rear, _, rfl, hp, hrear, hlengths, ?_, Nat.le_add_right _ _⟩
    rw [needed_append, needed_cons] at hle ⊢
    omega

/-- Each range begins where the one before it stops. -/
def Adjoin : Nat → List ByteRange → Nat → Prop
  | start, [], stop => start = stop
  | start, range :: ranges, stop =>
    range.start = start ∧ start ≤ range.stop ∧ Adjoin range.stop ranges stop

def ranges : Nat → List Text → List ByteRange
  | _, [] => []
  | start, piece :: pieces => ⟨start, start + piece.size⟩ :: ranges (start + piece.size) pieces

theorem adjoin_ranges (start : Nat) (pieces : List Text) :
    Adjoin start (ranges start pieces) (start + Text.size pieces.flatten) := by
  induction pieces generalizing start with
  | nil => exact (Nat.add_zero _).symm
  | cons piece pieces ih =>
    refine ⟨rfl, Nat.le_add_right _ _, ?_⟩
    rw [List.flatten_cons, Text.size_append, ← Nat.add_assoc]
    exact ih _

theorem map_slice?_ranges (a : Text) (pieces : List Text) (t : Text) :
    (ranges a.size pieces).map (Text.slice? (a ++ (pieces.flatten ++ t))) = pieces.map some := by
  induction pieces generalizing a with
  | nil => rfl
  | cons piece pieces ih =>
    have hrest := ih (a ++ piece)
    rw [Text.size_append] at hrest
    rw [ranges, List.map_cons, List.map_cons, List.flatten_cons, List.append_assoc,
      Text.slice?_append, ← hrest, List.append_assoc]

/-- The ranges divide what lies between two positions among the parameters of the run. -/
structure Divides (run : List (Parameter π)) (text : Text) (start stop : Nat)
    (ranges : List ByteRange) : Prop where
  adjoin : Adjoin start ranges stop
  pieces : ∃ pieces : List Text, ranges.map text.slice? = pieces.map some ∧
    text.slice? ⟨start, stop⟩ = some pieces.flatten ∧
    Shares run pieces.flatten.length (pieces.map List.length)

theorem divides_slices {run : List (Parameter π)} {v : Text} {slices : List (Slice π)} (a t : Text)
    (fits : needed run < UInt64.size) (hle : minLength run ≤ v.length)
    (hfixed : isFixed run = true → v.length = minLength run) (h : slices? run v = some slices) :
    Divides run (a ++ (v ++ t)) a.size (a.size + v.size) (ranges a.size (slices.map Slice.text)) := by
  obtain ⟨hflat, -⟩ := of_slices? hle hfixed h
  obtain ⟨-, -, hlengths⟩ := of_share? h
  rw [List.flatMap_def] at hflat
  have hadjoin := adjoin_ranges a.size (slices.map Slice.text)
  have hslices := map_slice?_ranges a (slices.map Slice.text) t
  rw [hflat] at hadjoin hslices
  refine ⟨hadjoin, _, hslices, ?_, ?_⟩
  · rw [hflat, Text.slice?_append]
  · rw [minLength_of_fits fits] at hle hlengths
    rw [hflat, List.map_map]
    exact hlengths ▸ shares_lengths hle

end Run

namespace Cursor

open Attempt

/-- The ranges of the parameters of a run from a position on. A range that the text does not have is
a fault. -/
def divide (o : Overflow) (text : Text) (total least : Nat) :
    List (Parameter Meaning) → Nat → Attempt (List ByteRange)
  | [], _ => return []
  | p :: rest, start => do
    let length ← ownLength o total least p rest
    match text.advance? start length with
    | none => .error .fault
    | some stop =>
      let more ← divide o text total least rest stop
      return ⟨start, stop⟩ :: more

/-- The ranges of the parameters of a run and where it ends, before any tag is evaluated. -/
def places (o : Overflow) (text : Text) (run : List (Parameter Meaning)) (next : Option Literal)
    (start : Nat) : Attempt (List ByteRange × Nat) := do
  let needed ← minLength o run
  let least ← found (text.advance? start needed)
  let stop ← edge text run next least
  let taken ← slice text start stop
  let ranges ← divide o text taken.length needed run start
  return (ranges, stop)

/-- Capture the parameters of a run in ranges that have been told before. -/
def captureAll (o : Overflow) (text : Text) (placed : List (Parameter Meaning × ByteRange))
    (c : Cursor) : Attempt Cursor :=
  placed.foldlM (fun c (p, range) => capture o text p range.start range.stop c) c

theorem divide_append {o : Overflow} {total least : Nat} {run : List (Parameter Meaning)}
    {slices : List (Slice Meaning)} (a : Text) {t : Text}
    (hown : ∀ p ∈ run, ∀ rest, ownLength o total least p rest = .ok (Run.own total least p rest))
    (h : Run.share? total least run t = some slices) :
    divide o (a ++ t) total least run a.size =
      .ok (Run.ranges a.size (slices.map Slice.text)) := by
  induction run generalizing a t slices with
  | nil =>
    cases h
    rfl
  | cons p run ih =>
    simp only [Run.share?, Option.bind_eq_bind, Option.bind_eq_some_iff, Prod.exists] at h
    obtain ⟨v, rest, hv, slices, hslices, h⟩ := h
    cases h
    obtain ⟨rfl, hlength⟩ := Text.splitLength?_eq_some_iff.1 hv
    have hmore := ih (a ++ v) (fun q hq => hown q (List.mem_cons_of_mem p hq)) hslices
    rw [List.append_assoc, Text.size_append] at hmore
    rw [divide, hown p List.mem_cons_self, ok_bind, Run.advance?_append a rest hlength,
      Text.size_append]
    simp only [hmore, ok_bind]
    rfl

theorem captures_of_divide {o : Overflow} {text : Text} {total least : Nat}
    {run : List (Parameter Meaning)} {start : Nat} {ranges : List ByteRange} (c : Cursor)
    (h : divide o text total least run start = .ok ranges) :
    captures o text total least run start c = captureAll o text (run.zip ranges) c := by
  induction run generalizing start ranges c with
  | nil => rfl
  | cons p run ih =>
    obtain ⟨length, hlength, h⟩ := bind_eq_ok_iff.1 h
    rw [captures, hlength, ok_bind]
    cases hstop : text.advance? start length with
    | none =>
      rw [hstop] at h
      cases h
    | some stop =>
      rw [hstop] at h
      obtain ⟨more, hmore, h⟩ := bind_eq_ok_iff.1 h
      cases h
      simp only [found, ok_bind, ih _ hmore]
      rfl

theorem parameters_of_places {o : Overflow} {text : Text} {run : List (Parameter Meaning)}
    {next : Option Literal} {c : Cursor} {ranges : List ByteRange} {stop : Nat}
    (h : places o text run next c.position = .ok (ranges, stop)) :
    parameters o text run next c = do
      let after ← captureAll o text (run.zip ranges) c
      return { after with position := stop } := by
  obtain ⟨needed, hneeded, h⟩ := bind_eq_ok_iff.1 h
  obtain ⟨least, hleast, h⟩ := bind_eq_ok_iff.1 h
  obtain ⟨edge, hedge, h⟩ := bind_eq_ok_iff.1 h
  obtain ⟨taken, htaken, h⟩ := bind_eq_ok_iff.1 h
  obtain ⟨ranges, hdivide, h⟩ := bind_eq_ok_iff.1 h
  cases h
  rw [parameters, hneeded, ok_bind, hleast, ok_bind, hedge, ok_bind, htaken, ok_bind,
    captures_of_divide c hdivide]

/-- The run has the extent that the split gives it, divided among its parameters. -/
theorem places_append (o : Overflow) (a t : Text) {run : List (Parameter Meaning)}
    (fits : Run.needed run < UInt64.size) (next : Option Literal) :
    (Run.extent? run next t = none ∧ places o (a ++ t) run next a.size = .error .mismatch) ∨
    ∃ taken rest slices, Run.extent? run next t = some (taken, rest) ∧
      Run.slices? run taken = some slices ∧ places o (a ++ t) run next a.size =
        .ok (Run.ranges a.size (slices.map Slice.text), a.size + taken.size) := by
  have hcounts : Counts o run t := .inl fits
  rw [places, hcounts.minLength_eq, ok_bind, Text.advance?_append]
  cases hs : t.splitLength? (Run.minLength run) with
  | none =>
    refine .inl ⟨?_, rfl⟩
    rw [Run.extent?, hs]
    rfl
  | some s =>
    obtain ⟨l, more⟩ := s
    obtain ⟨rfl, hl⟩ := Text.splitLength?_eq_some_iff.1 hs
    simp only [Option.map_some, found, ok_bind, edge_append a more next hl]
    cases he : Run.extent? run next (l ++ more) with
    | none => exact .inl ⟨rfl, rfl⟩
    | some extent =>
      obtain ⟨taken, rest⟩ := extent
      obtain ⟨htext, hmin, hfixed⟩ := Run.of_extent? he
      obtain ⟨slices, hslices⟩ := Run.exists_slices? hmin hfixed fits
      have hdivide := divide_append a (fun p hp rest => hcounts.ownLength_eq hmin hp rest)
        (Run.share?_append rest hslices)
      refine .inr ⟨taken, rest, slices, rfl, hslices, ?_⟩
      simp only [Option.map_some, ok_bind, htext, slice_append, hdivide]
      rfl

/-- Exactly where the split of a run puts its parameters, before any tag is evaluated, if what the run
needs can be counted. It fails only when too little text is left or the literal that ends the run does
not come; otherwise the run ends as early as that literal allows and all but one of its parameters get
no more than they must. No slice and no difference is asked for that is not there, and the walk
captures in these ranges. -/
theorem places_exact (o : Overflow) (a t : Text) (run : List (Parameter Meaning))
    (next : Option Literal) (params : Params) (spans : List Span) :
    (UInt64.size ≤ Run.needed run → places .faults (a ++ t) run next a.size = .error .fault) ∧
    (Run.needed run < UInt64.size →
      places o (a ++ t) run next a.size ≠ .error .fault ∧
      (places o (a ++ t) run next a.size = .error .mismatch ↔
        t.length < Run.needed run ∨ Run.isFixed run = false ∧ ∃ l, next = some l ∧
          ∀ least, Text.advance? (a ++ t) a.size (Run.needed run) = some least →
            ∀ position, least ≤ position → ¬ l.OccursAt (a ++ t) position) ∧
      (∀ ranges stop, places o (a ++ t) run next a.size = .ok (ranges, stop) →
        Run.EndsAt run next (a ++ t) a.size stop ∧
        Run.Divides run (a ++ t) a.size stop ranges ∧
        ∀ l, next = some l → Run.isFixed run = false →
          ∃ c, literal (a ++ t) l ⟨stop, params, spans⟩ = .ok c) ∧
      parameters o (a ++ t) run next ⟨a.size, params, spans⟩ = do
        let (ranges, stop) ← places o (a ++ t) run next a.size
        let after ← captureAll o (a ++ t) (run.zip ranges) ⟨a.size, params, spans⟩
        return { after with position := stop }) := by
  constructor
  · intro large
    rw [places, minLength_faults, if_neg (Nat.not_lt.2 large)]
    rfl
  intro fits
  refine ⟨?_, ?_, ?_, ?_⟩
  · rcases places_append o a t fits next with ⟨-, hp⟩ | ⟨_, _, _, -, -, hp⟩ <;> simp [hp]
  · rw [← Run.extent?_eq_none_iff fits a]
    rcases places_append o a t fits next with ⟨he, hp⟩ | ⟨_, _, _, he, -, hp⟩ <;> simp [he, hp]
  · intro ranges stop h
    rcases places_append o a t fits next with ⟨-, hp⟩ | ⟨taken, rest, slices, he, hslices, hp⟩
    · rw [hp] at h
      cases h
    · rw [hp] at h
      cases h
      obtain ⟨rfl, hmin, hfixed⟩ := Run.of_extent? he
      refine ⟨Run.endsAt_of_extent? fits a he, Run.divides_slices a rest fits hmin hfixed hslices, ?_⟩
      intro l hnext hfree
      have hliteral := literal_append (a ++ taken) rest l params spans
      obtain ⟨found, after, hfront⟩ := Run.stripFront?_of_extent? hfree hnext he
      rw [List.append_assoc, Text.size_append, hfront] at hliteral
      exact ⟨_, hliteral⟩
  · rcases places_append o a t fits next with ⟨he, hp⟩ | ⟨_, _, _, -, -, hp⟩
    · rw [parameters_append a (.inl fits), he, hp]
      rfl
    · rw [hp]
      exact parameters_of_places hp

end Cursor

end Stencil
