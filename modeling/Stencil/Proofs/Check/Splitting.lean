import Mathlib.Algebra.Order.Ring.Nat
import Mathlib.Data.List.Forall2
import Stencil.Compile
import Stencil.Proofs.Levels
import Stencil.Proofs.Text.Occurrences

/-! # How a text is split

A split gives every part of the pattern, in order, a slice, and the slices are the whole text. A run
of parameters takes its least length where all its lengths are fixed, and otherwise what stands before
the first possible occurrence of the next literal. Lengths are counted in 64 bits: where what a run
needs fits in them, each part admits its slice. -/
namespace Stencil

variable {π ρ : Type}

namespace Parameter

/-- The lengths that a parameter can have. -/
def Admits (p : Parameter π) (text : Text) : Prop :=
  match p.fixed with
  | some n => text.length = n
  | none => p.min.getD 0 ≤ text.length

theorem admits_of_isFixed {p : Parameter π} {text : Text} (h : p.isFixed = true) :
    p.Admits text ↔ text.length = p.minLength := by
  rcases p with ⟨name, tags, fixed, min, source⟩
  cases fixed with
  | none => cases h
  | some n => rfl

theorem admits_of_not_isFixed {p : Parameter π} {text : Text} (h : p.isFixed = false) :
    p.Admits text ↔ p.minLength ≤ text.length := by
  rcases p with ⟨name, tags, fixed, min, source⟩
  cases fixed with
  | none => rfl
  | some n => cases h

theorem Admits.minLength_le {p : Parameter π} {text : Text} (h : p.Admits text) :
    p.minLength ≤ text.length := by
  cases hf : p.isFixed with
  | true => exact Nat.le_of_eq ((admits_of_isFixed hf).1 h).symm
  | false => exact (admits_of_not_isFixed hf).1 h

end Parameter

/-- What a part can take of a text. -/
def Part.Takes : Part π → Text → Prop
  | .literal l, text => l.casing.sameText text l.text = true
  | .parameter p, text => p.Admits text

def Part.onParameter (g : Parameter π → Parameter ρ) : Part π → Part ρ
  | .literal l => .literal l
  | .parameter p => .parameter (g p)

/-- The runs of parameters between literals, when the first run has begun. -/
def Part.runsFrom : List (Parameter π) → List (Part π) → List (List (Parameter π))
  | run, [] => [run]
  | run, .parameter p :: parts => runsFrom (run ++ [p]) parts
  | run, .literal _ :: parts => run :: runsFrom [] parts

/-- The longest runs of parameters side by side; where a literal has no parameter next to it, the
run there is empty. -/
def Part.runs (parts : List (Part π)) : List (List (Parameter π)) := runsFrom [] parts

namespace Slice

def onParameter (g : Parameter π → Parameter ρ) : Slice π → Slice ρ
  | .literal text => .literal text
  | .capture p text => .capture (g p) text

/-- The slice is one of the part. -/
def Fits : Part π → Slice π → Prop
  | .literal l, .literal text => l.casing.sameText text l.text = true
  | .parameter p, .capture q _ => q = p
  | _, _ => False

theorem fits_literal_iff {l : Literal} {slice : Slice π} :
    Fits (.literal l) slice ↔
      ∃ text, slice = .literal text ∧ l.casing.sameText text l.text = true := by
  cases slice with
  | literal text => exact ⟨fun h => ⟨text, rfl, h⟩, fun ⟨_, rfl, h⟩ => h⟩
  | capture q text => exact ⟨nofun, nofun⟩

theorem fits_parameter_iff {p : Parameter π} {slice : Slice π} :
    Fits (.parameter p) slice ↔ ∃ text, slice = .capture p text := by
  cases slice with
  | literal text => exact ⟨nofun, nofun⟩
  | capture q text =>
    constructor
    · intro h
      cases h
      exact ⟨text, rfl⟩
    · rintro ⟨_, ⟨⟩⟩
      rfl

end Slice

namespace Run

@[simp] theorem isFixed_cons (p : Parameter π) (run : List (Parameter π)) :
    isFixed (p :: run) = (p.isFixed && isFixed run) := rfl

/-- What the parameters of a run need, counted without a limit. -/
def needed (run : List (Parameter π)) : Nat := (run.map (·.minLength)).sum

@[simp] theorem needed_nil : needed ([] : List (Parameter π)) = 0 := rfl

@[simp] theorem needed_cons (p : Parameter π) (run : List (Parameter π)) :
    needed (p :: run) = p.minLength + needed run := rfl

theorem mem_needed_le {run : List (Parameter π)} {p : Parameter π} (h : p ∈ run) :
    p.minLength ≤ needed run := by
  induction run with
  | nil => cases h
  | cons q run ih =>
    rw [needed_cons]
    rcases List.mem_cons.1 h with rfl | h
    · exact Nat.le_add_right _ _
    · exact Nat.le_trans (ih h) (Nat.le_add_left _ _)

theorem needed_le_of_admits {run : List (Parameter π)} {texts : List Text}
    (h : List.Forall₂ Parameter.Admits run texts) : needed run ≤ texts.flatten.length := by
  induction h with
  | nil => exact Nat.zero_le _
  | cons hp _ ih =>
    have hle := hp.minLength_le
    rw [needed_cons, List.flatten_cons, List.length_append]
    omega

theorem minLength_eq (run : List (Parameter π)) : minLength run = needed run % UInt64.size := by
  induction run with
  | nil => rfl
  | cons p run ih =>
    change (p.minLength + minLength run) % UInt64.size = _
    rw [ih, needed_cons, Nat.add_mod_mod]

theorem minLength_of_fits {run : List (Parameter π)} (fits : needed run < UInt64.size) :
    minLength run = needed run := by
  rw [minLength_eq, Nat.mod_eq_of_lt fits]

theorem minLength_le_needed (run : List (Parameter π)) : minLength run ≤ needed run := by
  rw [minLength_eq]
  exact Nat.mod_le _ _

theorem extent?_of_isFixed {run : List (Parameter π)} (next : Option Literal) {text : Text}
    (h : isFixed run = true) : extent? run next text = text.splitLength? (minLength run) := by
  rw [extent?]
  cases text.splitLength? (minLength run) with
  | none => rfl
  | some s => simp only [Option.bind_eq_bind, Option.bind_some, if_pos h]

theorem extent?_nil (next : Option Literal) (text : Text) :
    extent? ([] : List (Parameter π)) next text = some ([], text) := by
  have hfixed : isFixed ([] : List (Parameter π)) = true := rfl
  have hmin : minLength ([] : List (Parameter π)) = 0 := rfl
  rw [extent?_of_isFixed next hfixed, hmin, Text.splitLength?_of_le (Nat.zero_le _)]
  rfl

theorem of_extent? {run : List (Parameter π)} {next : Option Literal} {text taken rest : Text}
    (h : extent? run next text = some (taken, rest)) :
    text = taken ++ rest ∧ minLength run ≤ taken.length ∧
      (isFixed run = true → taken.length = minLength run) := by
  cases hf : isFixed run with
  | true =>
    rw [extent?_of_isFixed next hf] at h
    obtain ⟨rfl, hl⟩ := Text.splitLength?_eq_some_iff.1 h
    exact ⟨rfl, Nat.le_of_eq hl.symm, fun _ => hl⟩
  | false =>
    rw [extent?, Option.bind_eq_bind, Option.bind_eq_some_iff] at h
    obtain ⟨⟨least, more⟩, hs, h⟩ := h
    obtain ⟨rfl, hl⟩ := Text.splitLength?_eq_some_iff.1 hs
    simp only [hf, Bool.false_eq_true, ↓reduceIte] at h
    refine ⟨?_, ?_, fun ht => by cases ht⟩
    · cases next with
      | none => cases h; exact (List.append_nil _).symm
      | some literal =>
        obtain ⟨cut, hc, he⟩ := Option.bind_eq_some_iff.1 h
        cases he
        rw [(Casing.of_find? hc).1]
        simp only [Cut.whole, List.append_assoc]
    · cases next with
      | none =>
        cases h
        rw [List.length_append]
        omega
      | some literal =>
        obtain ⟨cut, hc, he⟩ := Option.bind_eq_some_iff.1 h
        cases he
        rw [List.length_append]
        omega

theorem extent?_append {run : List (Parameter π)} {l : Text} (next : Option Literal) (more : Text)
    (hl : l.length = minLength run) :
    extent? run next (l ++ more) =
      if isFixed run then some (l, more)
      else match next with
        | none => some (l ++ more, [])
        | some literal => (literal.casing.find? literal.text more).map fun cut =>
            (l ++ cut.before, cut.kept ++ cut.after) := by
  rw [extent?, Text.splitLength?_eq_some_iff.2 ⟨rfl, hl⟩]
  simp only [Option.bind_eq_bind, Option.bind_some, Option.map_eq_bind]
  cases next <;> rfl

theorem minLength_le_of_extent? {run : List (Parameter π)} {next : Option Literal}
    {text taken rest : Text} (h : extent? run next text = some (taken, rest)) :
    minLength run ≤ text.length := by
  obtain ⟨rfl, hle, -⟩ := of_extent? h
  rw [List.length_append]
  omega

theorem minus_of_le {a b : Nat} (h : b ≤ a) : minus a b = a - b := if_pos h

def lengths (total least : Nat) : List (Parameter π) → List Nat
  | [] => []
  | p :: rest => own total least p rest :: lengths total least rest

section

variable {total least : Nat} {run : List (Parameter π)} {text : Text}

theorem of_share? {slices : List (Slice π)} (h : share? total least run text = some slices) :
    (∃ rest, text = slices.flatMap Slice.text ++ rest) ∧
      List.Forall₂ Slice.Fits (run.map .parameter) slices ∧
      slices.map (·.text.length) = lengths total least run := by
  induction run generalizing text slices with
  | nil =>
    cases h
    exact ⟨⟨text, rfl⟩, .nil, rfl⟩
  | cons p run ih =>
    simp only [share?, Option.bind_eq_bind, Option.bind_eq_some_iff, Prod.exists] at h
    obtain ⟨taken, more, htaken, slices, hslices, h⟩ := h
    cases h
    obtain ⟨rfl, hlength⟩ := Text.splitLength?_eq_some_iff.1 htaken
    obtain ⟨⟨rest, hrest⟩, hfits, hlengths⟩ := ih hslices
    refine ⟨⟨rest, ?_⟩, .cons rfl hfits, ?_⟩
    · rw [List.flatMap_cons, List.append_assoc, ← hrest]
      rfl
    · rw [List.map_cons, hlengths, lengths, ← hlength]
      rfl

theorem exists_share? (h : (lengths total least run).sum ≤ text.length) :
    ∃ slices, share? total least run text = some slices := by
  induction run generalizing text with
  | nil => exact ⟨[], rfl⟩
  | cons p run ih =>
    rw [lengths, List.sum_cons] at h
    obtain ⟨slices, hslices⟩ : ∃ slices, share? total least run
        (text.drop (own total least p run)) = some slices := by
      apply ih
      rw [List.length_drop]
      omega
    refine ⟨.capture p (text.take (own total least p run)) :: slices, ?_⟩
    rw [share?, Text.splitLength?_of_le (by omega)]
    simp only [Option.bind_eq_bind, Option.bind_some, hslices]

theorem sum_lengths_le_of_share? {slices : List (Slice π)}
    (h : share? total least run text = some slices) :
    (lengths total least run).sum ≤ text.length := by
  obtain ⟨⟨rest, htext⟩, -, hlengths⟩ := of_share? h
  rw [← hlengths, htext, List.length_append, List.length_flatMap]
  exact Nat.le_add_right _ _

theorem share?_eq_none_iff :
    share? total least run text = none ↔ text.length < (lengths total least run).sum := by
  have hiff : (∃ slices, share? total least run text = some slices) ↔
      (lengths total least run).sum ≤ text.length :=
    ⟨fun ⟨_, h⟩ => sum_lengths_le_of_share? h, exists_share?⟩
  rw [← Nat.not_le, ← hiff, ← Option.isSome_iff_exists, Bool.not_eq_true, Option.isSome_eq_false_iff,
    Option.isNone_iff_eq_none]

theorem share?_append {slices : List (Slice π)} (more : Text)
    (h : share? total least run text = some slices) :
    share? total least run (text ++ more) = some slices := by
  induction run generalizing text slices with
  | nil => exact h
  | cons p run ih =>
    simp only [share?, Option.bind_eq_bind, Option.bind_eq_some_iff, Prod.exists] at h ⊢
    obtain ⟨taken, rest, htaken, slices, hslices, h⟩ := h
    obtain ⟨rfl, hlength⟩ := Text.splitLength?_eq_some_iff.1 htaken
    refine ⟨taken, rest ++ more, ?_, slices, ih hslices, h⟩
    rw [List.append_assoc]
    exact Text.splitLength?_eq_some_iff.2 ⟨rfl, hlength⟩

end

theorem sum_lengths_of_isFixed (total least : Nat) {run : List (Parameter π)}
    (h : isFixed run = true) : (lengths total least run).sum = needed run := by
  induction run with
  | nil => rfl
  | cons p run ih =>
    rw [isFixed_cons, Bool.and_eq_true_iff] at h
    rw [lengths, List.sum_cons, ih h.2, own, h.1]
    rfl

theorem exists_sum_lengths (total least : Nat) {run : List (Parameter π)} (h : isFixed run = false) :
    ∃ others length, needed run = others + length ∧
      (lengths total least run).sum = others + minus total (minus least length) := by
  induction run with
  | nil => cases h
  | cons p run ih =>
    rw [lengths, List.sum_cons, needed_cons, own]
    cases hrun : isFixed run with
    | false =>
      obtain ⟨others, length, hneeded, hsum⟩ := ih hrun
      refine ⟨p.minLength + others, length, by omega, ?_⟩
      rw [hsum, Bool.and_false, if_neg Bool.false_ne_true, Nat.add_assoc]
    | true =>
      rw [isFixed_cons, hrun, Bool.and_true] at h
      refine ⟨needed run, p.minLength, Nat.add_comm _ _, ?_⟩
      rw [sum_lengths_of_isFixed total least hrun, h, Nat.add_comm]
      rfl

/-- What is given is the total, or it is more than can be counted. -/
theorem add_minus_spec {others length total : Nat} (h : (others + length) % UInt64.size ≤ total) :
    (others + minus total (minus ((others + length) % UInt64.size) length) = total ∨
      UInt64.size ≤ others + minus total (minus ((others + length) % UInt64.size) length)) ∧
    total ≤ others + minus total (minus ((others + length) % UInt64.size) length) ∧
    (others + length < UInt64.size →
      others + minus total (minus ((others + length) % UInt64.size) length) = total) := by
  unfold UInt64.size at h ⊢
  -- the inner difference is what the others need, or that is too much to be counted
  obtain ⟨hle, hlt, heq, hfits⟩ : minus ((others + length) % 18446744073709551616) length ≤ others ∧
      minus ((others + length) % 18446744073709551616) length < 18446744073709551616 ∧
      (minus ((others + length) % 18446744073709551616) length = others ∨
        18446744073709551616 ≤ others) ∧
      (others + length < 18446744073709551616 →
        minus ((others + length) % 18446744073709551616) length = others ∧ others ≤ total) := by
    unfold minus UInt64.size
    split <;> omega
  generalize minus ((others + length) % 18446744073709551616) length = x at *
  unfold minus UInt64.size
  split <;> omega

section

variable {run : List (Parameter π)} {taken : Text} (hle : minLength run ≤ taken.length)
  (hfixed : isFixed run = true → taken.length = minLength run)

include hle hfixed

theorem sum_lengths_spec :
    ((lengths taken.length (minLength run) run).sum = taken.length ∨
      UInt64.size ≤ (lengths taken.length (minLength run) run).sum) ∧
    taken.length ≤ (lengths taken.length (minLength run) run).sum ∧
    (needed run < UInt64.size → (lengths taken.length (minLength run) run).sum = taken.length) := by
  cases hf : isFixed run with
  | true =>
    have htaken := hfixed hf
    rw [sum_lengths_of_isFixed _ _ hf]
    rcases Nat.lt_or_ge (needed run) UInt64.size with hfits | hlarge
    · have hmin := minLength_of_fits hfits
      omega
    · have hmin := minLength_le_needed run
      omega
  | false =>
    have hmin := minLength_eq run
    obtain ⟨others, length, hneeded, hsum⟩ := exists_sum_lengths taken.length (minLength run) hf
    rw [hneeded] at hmin ⊢
    rw [hsum, hmin]
    rw [hmin] at hle
    exact add_minus_spec hle

theorem of_slices? {slices : List (Slice π)} (h : slices? run taken = some slices) :
    slices.flatMap Slice.text = taken ∧ List.Forall₂ Slice.Fits (run.map .parameter) slices := by
  obtain ⟨⟨rest, htaken⟩, hfits, hlengths⟩ := of_share? h
  obtain ⟨-, hsum, -⟩ := sum_lengths_spec hle hfixed
  have hlength := congrArg List.length htaken
  rw [List.length_append, List.length_flatMap, hlengths] at hlength
  have hrest : rest = [] := List.length_eq_zero_iff.1 (by omega)
  rw [hrest, List.append_nil] at htaken
  exact ⟨htaken.symm, hfits⟩

theorem exists_slices? (fits : needed run < UInt64.size) :
    ∃ slices, slices? run taken = some slices :=
  exists_share? (Nat.le_of_eq ((sum_lengths_spec hle hfixed).2.2 fits))

/-- Behind what a run takes there is no more that the slices could take, unless that could not be
counted. -/
theorem share?_eq_slices? {rest : Text}
    (h : needed run < UInt64.size ∨ (taken ++ rest).length < UInt64.size) :
    share? taken.length (minLength run) run (taken ++ rest) = slices? run taken := by
  cases hs : slices? run taken with
  | some slices => exact share?_append rest hs
  | none =>
    have hshort := share?_eq_none_iff.1 hs
    obtain ⟨hsum, -, hfits⟩ := sum_lengths_spec hle hfixed
    rw [share?_eq_none_iff]
    rcases h with fits | small
    · have hexact := hfits fits
      omega
    · omega

end

theorem own_of_le {total least : Nat} {p : Parameter π} (rest : List (Parameter π))
    (hp : p.minLength ≤ least) (hle : least ≤ total) :
    own total least p rest =
      if !p.isFixed && isFixed rest then p.minLength + (total - least) else p.minLength := by
  rw [own, minus_of_le hp, minus_of_le (by omega)]
  split <;> omega

theorem admits_own {total least : Nat} {p : Parameter π} {rest : List (Parameter π)} {text : Text}
    (hp : p.minLength ≤ least) (hle : least ≤ total) (h : text.length = own total least p rest) :
    p.Admits text := by
  rw [own_of_le rest hp hle] at h
  cases hf : p.isFixed with
  | true =>
    rw [Parameter.admits_of_isFixed hf, h, hf]
    rfl
  | false =>
    rw [Parameter.admits_of_not_isFixed hf, h]
    split <;> omega

theorem forall₂_takes {total least : Nat} {run : List (Parameter π)} {slices : List (Slice π)}
    (hmin : ∀ p ∈ run, p.minLength ≤ least) (hle : least ≤ total)
    (h : slices.map (·.text.length) = lengths total least run) :
    List.Forall₂ (fun (part : Part π) slice => part.Takes slice.text)
      (run.map .parameter) slices := by
  induction run generalizing slices with
  | nil =>
    rw [List.map_eq_nil_iff.1 h]
    exact .nil
  | cons p run ih =>
    cases slices with
    | nil => cases h
    | cons slice slices =>
      obtain ⟨hslice, hslices⟩ := List.cons_eq_cons.1 h
      exact .cons (admits_own (hmin p List.mem_cons_self) hle hslice)
        (ih (fun q hq => hmin q (List.mem_cons_of_mem _ hq)) hslices)

theorem takes_of_slices? {run : List (Parameter π)} {taken : Text} {slices : List (Slice π)}
    (hle : minLength run ≤ taken.length) (fits : needed run < UInt64.size)
    (h : slices? run taken = some slices) :
    List.Forall₂ (fun (part : Part π) slice => part.Takes slice.text)
      (run.map .parameter) slices := by
  refine forall₂_takes ?_ hle (of_share? h).2.2
  intro p hp
  rw [minLength_of_fits fits]
  exact mem_needed_le hp

end Run

theorem of_splitParts? {run : List (Parameter π)} {parts : List (Part π)} {text : Text}
    {slices : List (Slice π)} (h : splitParts? run parts text = some slices) :
    slices.flatMap Slice.text = text ∧
      List.Forall₂ Slice.Fits (run.map .parameter ++ parts) slices := by
  induction parts generalizing run text slices with
  | nil =>
    simp only [splitParts?, Option.bind_eq_bind, Option.bind_eq_some_iff, Prod.exists,
      Option.ite_none_right_eq_some, List.isEmpty_iff] at h
    obtain ⟨taken, rest, he, rfl, hslices⟩ := h
    obtain ⟨rfl, hle, hfixed⟩ := Run.of_extent? he
    rw [List.append_nil, List.append_nil]
    exact Run.of_slices? hle hfixed hslices
  | cons part parts ih =>
    cases part with
    | parameter p =>
      obtain ⟨hflat, hfits⟩ := ih h
      rw [List.map_append, List.append_assoc] at hfits
      exact ⟨hflat, hfits⟩
    | literal literal =>
      simp only [splitParts?, Option.bind_eq_bind, Option.bind_eq_some_iff, Prod.exists] at h
      obtain ⟨taken, rest, he, captures, hcaptures, found, after, hfound, more, hmore, h⟩ := h
      cases h
      obtain ⟨rfl, hle, hfixed⟩ := Run.of_extent? he
      obtain ⟨rfl, hsame⟩ := Casing.stripFront?_eq_some_iff.1 hfound
      obtain ⟨hflat, hfits⟩ := Run.of_slices? hle hfixed hcaptures
      obtain ⟨hflat', hfits'⟩ := ih hmore
      refine ⟨?_, List.rel_append hfits (.cons hsame hfits')⟩
      rw [List.flatMap_append, hflat, List.flatMap_cons, hflat']
      rfl

theorem takes_of_splitParts? {run : List (Parameter π)} {parts : List (Part π)} {text : Text}
    {slices : List (Slice π)} (fits : ∀ r ∈ Part.runsFrom run parts, Run.needed r < UInt64.size)
    (h : splitParts? run parts text = some slices) :
    List.Forall₂ (fun (part : Part π) slice => part.Takes slice.text)
      (run.map .parameter ++ parts) slices := by
  induction parts generalizing run text slices with
  | nil =>
    simp only [splitParts?, Option.bind_eq_bind, Option.bind_eq_some_iff, Prod.exists,
      Option.ite_none_right_eq_some, List.isEmpty_iff] at h
    obtain ⟨taken, rest, he, rfl, hslices⟩ := h
    rw [List.append_nil]
    exact Run.takes_of_slices? (Run.of_extent? he).2.1 (fits run List.mem_cons_self) hslices
  | cons part parts ih =>
    cases part with
    | parameter p =>
      have htakes := ih fits h
      rw [List.map_append, List.append_assoc] at htakes
      exact htakes
    | literal literal =>
      simp only [splitParts?, Option.bind_eq_bind, Option.bind_eq_some_iff, Prod.exists] at h
      obtain ⟨taken, rest, he, captures, hcaptures, found, after, hfound, more, hmore, h⟩ := h
      cases h
      have hrun := Run.takes_of_slices? (Run.of_extent? he).2.1 (fits run List.mem_cons_self) hcaptures
      have hrest := ih (fun r hr => fits r (List.mem_cons_of_mem _ hr)) hmore
      exact List.rel_append hrun (.cons (Casing.stripFront?_eq_some_iff.1 hfound).2 hrest)

theorem needed_le_of_takes {run : List (Parameter π)} {parts : List (Part π)} {texts pieces : List Text}
    (hrun : List.Forall₂ Parameter.Admits run texts) (hparts : List.Forall₂ Part.Takes parts pieces) :
    ∀ r ∈ Part.runsFrom run parts, Run.needed r ≤ (texts.flatten ++ pieces.flatten).length := by
  induction parts generalizing run texts pieces with
  | nil =>
    intro r hr
    rw [List.mem_singleton.1 hr, List.length_append]
    exact Nat.le_trans (Run.needed_le_of_admits hrun) (Nat.le_add_right _ _)
  | cons part parts ih =>
    cases hparts with
    | @cons _ piece _ pieces hpiece hparts =>
      intro r hr
      cases part with
      | parameter p =>
        have hle := ih (List.rel_append hrun (.cons hpiece .nil)) hparts r hr
        simpa only [List.flatten_append, List.flatten_cons, List.flatten_nil, List.append_nil,
          List.append_assoc] using hle
      | literal l =>
        rw [List.flatten_cons, List.length_append, List.length_append]
        rcases List.mem_cons.1 hr with rfl | hr
        · exact Nat.le_trans (Run.needed_le_of_admits hrun) (Nat.le_add_right _ _)
        · have hle := ih .nil hparts r hr
          rw [List.flatten_nil, List.nil_append] at hle
          omega

theorem Part.runsFrom_map (g : Parameter π → Parameter ρ) (run : List (Parameter π))
    (parts : List (Part π)) :
    runsFrom (run.map g) (parts.map (.onParameter g)) = (runsFrom run parts).map (List.map g) := by
  induction parts generalizing run with
  | nil => rfl
  | cons part parts ih =>
    cases part with
    | parameter p =>
      have h := ih (run ++ [p])
      rw [List.map_append] at h
      exact h
    | literal l => exact congrArg _ (ih [])

theorem Part.map_eq_onParameter (g : π → ρ) : Part.map g = Part.onParameter (.map g) := by
  funext part
  cases part <;> rfl

-- parameters that have the same lengths split a text in the same way
section

variable {g : Parameter π → Parameter ρ} (hfixed : ∀ p, (g p).fixed = p.fixed)
  (hmin : ∀ p, (g p).min = p.min)

include hfixed in
theorem Run.isFixed_map (run : List (Parameter π)) : isFixed (run.map g) = isFixed run := by
  induction run with
  | nil => rfl
  | cons p run ih => rw [List.map_cons, isFixed_cons, isFixed_cons, ih, Parameter.isFixed, hfixed]; rfl

include hfixed hmin

theorem Parameter.minLength_of_same (p : Parameter π) : (g p).minLength = p.minLength := by
  rw [minLength, minLength, hfixed, hmin]

theorem Run.needed_map (run : List (Parameter π)) : needed (run.map g) = needed run := by
  rw [needed, needed, List.map_map]
  exact congrArg List.sum (List.map_congr_left fun p _ => Parameter.minLength_of_same hfixed hmin p)

theorem Run.minLength_map (run : List (Parameter π)) : minLength (run.map g) = minLength run := by
  rw [minLength_eq, minLength_eq, needed_map hfixed hmin]

theorem Run.extent?_map (run : List (Parameter π)) (next : Option Literal) (text : Text) :
    extent? (run.map g) next text = extent? run next text := by
  rw [extent?, extent?, isFixed_map hfixed, minLength_map hfixed hmin]

theorem Run.share?_map (total least : Nat) (run : List (Parameter π)) (text : Text) :
    share? total least (run.map g) text = (share? total least run text).map (List.map (.onParameter g)) := by
  induction run generalizing text with
  | nil => rfl
  | cons p run ih =>
    have hown : own total least (g p) (run.map g) = own total least p run := by
      rw [own, own, isFixed_map hfixed, Parameter.minLength_of_same hfixed hmin, Parameter.isFixed,
        hfixed]
      rfl
    rw [List.map_cons, share?, share?, hown]
    rcases text.splitLength? (own total least p run) with _ | ⟨taken, more⟩
    · rfl
    · simp only [Option.bind_eq_bind, Option.bind_some, ih]
      cases share? total least run more <;> rfl

theorem Run.slices?_map (run : List (Parameter π)) (text : Text) :
    slices? (run.map g) text = (slices? run text).map (List.map (.onParameter g)) := by
  rw [slices?, slices?, minLength_map hfixed hmin, share?_map hfixed hmin]

theorem splitParts?_map (run : List (Parameter π)) (parts : List (Part π)) (text : Text) :
    splitParts? (run.map g) (parts.map (.onParameter g)) text =
      (splitParts? run parts text).map (List.map (.onParameter g)) := by
  induction parts generalizing run text with
  | nil =>
    rw [List.map_nil, splitParts?, splitParts?, Run.extent?_map hfixed hmin]
    rcases Run.extent? run none text with _ | ⟨taken, rest⟩
    · rfl
    · simp only [Option.bind_eq_bind, Option.bind_some, Run.slices?_map hfixed hmin]
      split <;> rfl
  | cons part parts ih =>
    cases part with
    | parameter p =>
      have h := ih (run ++ [p]) text
      rw [List.map_append] at h
      exact h
    | literal l =>
      rw [List.map_cons, Part.onParameter, splitParts?, splitParts?, Run.extent?_map hfixed hmin]
      rcases Run.extent? run (some l) text with _ | ⟨taken, rest⟩
      · rfl
      simp only [Option.bind_eq_bind, Option.bind_some, Run.slices?_map hfixed hmin]
      rcases Run.slices? run taken with _ | captures
      · rfl
      simp only [Option.map_some, Option.bind_some]
      rcases l.casing.stripFront? l.text rest with _ | ⟨found, after⟩
      · rfl
      have h := ih [] after
      rw [List.map_nil] at h
      simp only [Option.bind_some, h]
      rcases splitParts? [] parts after with _ | slices
      · rfl
      · simp only [Option.map_some, Option.bind_some, List.map_append, List.map_cons,
          Slice.onParameter]

end

namespace Pattern

theorem parts_levelAt (p : Pattern) (depth : Nat) :
    (p.levelAt depth).parts =
      p.parts.map (.onParameter (.map fun nested => nested.meaningAt (depth + 1))) :=
  congrArg (p.parts.map ·) (Part.map_eq_onParameter _)

/-- Before any tag is run, the check is a split of the text by the parts as they are compiled. -/
theorem splitParts?_levelAt (p : Pattern) (depth : Nat) (text : Text) :
    splitParts? [] (p.levelAt depth).parts text =
      (splitParts? [] p.parts text).map
        (List.map (.onParameter (.map fun nested => nested.meaningAt (depth + 1)))) := by
  rw [parts_levelAt]
  exact splitParts?_map (g := .map fun nested : Pattern => nested.meaningAt (depth + 1))
    (fun _ => rfl) (fun _ => rfl) [] p.parts text

theorem exists_needed_levelAt {p : Pattern} {depth : Nat} {run : List (Parameter Meaning)}
    (h : run ∈ Part.runs (p.levelAt depth).parts) :
    ∃ own ∈ Part.runs p.parts, Run.needed run = Run.needed own := by
  have hruns := Part.runsFrom_map (.map fun nested : Pattern => nested.meaningAt (depth + 1)) []
    p.parts
  rw [Part.runs, parts_levelAt, ← List.map_nil, hruns] at h
  obtain ⟨own, hown, rfl⟩ := List.mem_map.1 h
  have hneeded := Run.needed_map (g := .map fun nested : Pattern => nested.meaningAt (depth + 1))
    (fun _ => rfl) (fun _ => rfl) own
  exact ⟨own, hown, hneeded⟩

end Pattern

end Stencil
