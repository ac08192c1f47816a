import Stencil.Proofs.Check.Greedy
import Stencil.Proofs.Check.Phases
import Stencil.Proofs.Example.Conditions

/-! # Examples are captured as they were made

An example has for every part a text that the part takes. Where no parameter has tags the text of each
parameter has its least length, and then a check takes the example apart as it was put together: what a
run has to take ends where the next literal stands, so that is where the literal is found, whatever
the texts are. Only an example so long that it cannot be counted is not taken apart. -/
namespace Stencil

variable {π ρ : Type}

/-- A text of the least length that a parameter can have. -/
def Parameter.TakesLeast (p : Parameter π) (text : Text) : Prop := text.length = p.minLength

/-- What a part takes where every parameter takes its least length. -/
def Part.TakesLeast : Part π → Text → Prop
  | .literal l, text => l.casing.sameText text l.text = true
  | .parameter p, text => p.TakesLeast text

/-- The slice in which a part takes a text. -/
def Slice.ofPart : Part π → Text → Slice π
  | .literal _, text => .literal text
  | .parameter p, text => .capture p text

theorem Part.TakesLeast.takes {part : Part π} {text : Text} (h : part.TakesLeast text) :
    part.Takes text := by
  cases part with
  | literal l => exact h
  | parameter p =>
    change text.length = p.minLength at h
    cases hf : p.isFixed with
    | true => exact (Parameter.admits_of_isFixed hf).2 h
    | false => exact (Parameter.admits_of_not_isFixed hf).2 (Nat.le_of_eq h.symm)

namespace Run

variable {run : List (Parameter π)} {texts : List Text}
  (least : List.Forall₂ Parameter.TakesLeast run texts)

include least

theorem length_flatten_of_least : texts.flatten.length = needed run := by
  induction least with
  | nil => rfl
  | cons hp _ ih => rw [List.flatten_cons, List.length_append, hp, ih, needed_cons]

theorem share?_of_least {n : Nat} (hmin : ∀ p ∈ run, p.minLength ≤ n) :
    share? n n run texts.flatten = some (List.zipWith Slice.capture run texts) := by
  induction least with
  | nil => rfl
  | @cons p text run texts hp _ ih =>
    have hown : own n n p run = text.length := by
      rw [own_of_le run (hmin p List.mem_cons_self) (Nat.le_refl n), Nat.sub_self, Nat.add_zero,
        ite_self, hp]
    rw [share?, hown, List.flatten_cons, Text.splitLength?_eq_some_iff.2 ⟨rfl, rfl⟩]
    simp only [Option.bind_eq_bind, Option.bind_some,
      ih fun q hq => hmin q (List.mem_cons_of_mem p hq), List.zipWith_cons_cons]

variable (fits : needed run < UInt64.size)

include fits

theorem slices?_of_least :
    slices? run texts.flatten = some (List.zipWith Slice.capture run texts) := by
  rw [slices?, length_flatten_of_least least, minLength_of_fits fits]
  exact share?_of_least least fun p => mem_needed_le

theorem extent?_of_least {l : Literal} {found : Text} (after : Text)
    (h : l.casing.sameText found l.text = true) :
    extent? run (some l) (texts.flatten ++ (found ++ after)) =
      some (texts.flatten, found ++ after) := by
  have hlength := (length_flatten_of_least least).trans (minLength_of_fits fits).symm
  rw [extent?_append (some l) _ hlength]
  simp only [Casing.find?_front after h, Option.map_some, List.append_nil, ite_self]

theorem extent?_none_of_least : extent? run none texts.flatten = some (texts.flatten, []) := by
  have hlength := (length_flatten_of_least least).trans (minLength_of_fits fits).symm
  have h : extent? run none (texts.flatten ++ []) = _ := extent?_append none [] hlength
  simp only [List.append_nil, ite_self] at h
  exact h

end Run

/-- A text whose pieces have the least lengths is split into these pieces. -/
theorem splitParts?_of_least {run : List (Parameter π)} {parts : List (Part π)}
    {texts pieces : List Text}
    (fits : ∀ r ∈ Part.runsFrom run parts, Run.needed r < UInt64.size)
    (hrun : List.Forall₂ Parameter.TakesLeast run texts)
    (hparts : List.Forall₂ Part.TakesLeast parts pieces) :
    splitParts? run parts (texts.flatten ++ pieces.flatten) =
      some (List.zipWith Slice.capture run texts ++ List.zipWith Slice.ofPart parts pieces) := by
  -- the run that has begun grows up to the next literal and is empty behind it
  induction parts generalizing run texts pieces with
  | nil =>
    cases hparts
    have hfits := fits run List.mem_cons_self
    simp only [splitParts?, List.flatten_nil, List.append_nil, Run.extent?_none_of_least hrun hfits,
      Run.slices?_of_least hrun hfits, Option.bind_eq_bind, Option.bind_some, List.isEmpty_nil,
      ↓reduceIte, List.zipWith_nil_left]
  | cons part parts ih =>
    cases hparts with
    | @cons _ piece _ pieces hpiece hparts =>
      cases part with
      | parameter p =>
        have hgrown : List.Forall₂ Parameter.TakesLeast (run ++ [p]) (texts ++ [piece]) :=
          List.rel_append hrun (.cons hpiece .nil)
        have hsplit := ih fits hgrown hparts
        have hzip : List.zipWith Slice.capture (run ++ [p]) (texts ++ [piece]) =
            List.zipWith Slice.capture run texts ++ [.capture p piece] :=
          List.zipWith_append hrun.length_eq
        simp only [List.flatten_append, List.flatten_cons, List.flatten_nil, List.append_nil, hzip,
          List.append_assoc] at hsplit
        exact hsplit
      | literal l =>
        have hfits := fits run List.mem_cons_self
        have hstrip : l.casing.stripFront? l.text (piece ++ pieces.flatten) =
            some (piece, pieces.flatten) := Casing.stripFront?_eq_some_iff.2 ⟨rfl, hpiece⟩
        have hsplit := ih (fun r hr => fits r (List.mem_cons_of_mem _ hr)) .nil hparts
        rw [List.flatten_nil, List.nil_append, List.zipWith_nil_left, List.nil_append] at hsplit
        rw [splitParts?, List.flatten_cons, Run.extent?_of_least hrun hfits _ hpiece]
        simp only [Option.bind_eq_bind, Option.bind_some, Run.slices?_of_least hrun hfits, hstrip,
          hsplit]
        rfl

theorem mapM_eq_some_iff {α β : Type} {f : α → Option β} {xs : List α} {ys : List β} :
    xs.mapM f = some ys ↔ List.Forall₂ (fun x y => f x = some y) xs ys := by
  induction xs generalizing ys with
  | nil =>
    rw [List.mapM_nil, List.forall₂_nil_left_iff]
    exact Option.some_inj.trans eq_comm
  | cons x xs ih =>
    simp only [List.mapM_cons, Option.bind_eq_bind, Option.bind_eq_some_iff, ih, Option.pure_def,
      Option.some.injEq, List.forall₂_cons_left_iff]
    constructor
    · rintro ⟨y, hy, rest, hrest, rfl⟩
      exact ⟨y, rest, hy, hrest, rfl⟩
    · rintro ⟨y, rest, hy, hrest, rfl⟩
      exact ⟨y, hy, rest, hrest, rfl⟩

namespace Parameter

theorem admits_fit (p : Parameter π) (sample : Text) : p.Admits (p.fit sample) := by
  rcases p with ⟨name, tags, fixed, min, source⟩
  cases fixed with
  | some length => exact Bend.length_toLength length sample
  | none =>
    cases min with
    | none => exact Nat.zero_le _
    | some least =>
      change least ≤ (sample ++ List.replicate (least - sample.length) 'x').length
      rw [List.length_append, List.length_replicate]
      omega

theorem fit_nil (p : Parameter π) : p.fit [] = List.replicate p.minLength 'x' := by
  rcases p with ⟨name, tags, fixed, min, source⟩
  cases fixed with
  | some length =>
    change [].take length ++ List.replicate length 'x' = List.replicate length 'x'
    rw [List.take_nil, List.nil_append]
  | none => cases min <;> rfl

theorem sample_of_untagged {p : Parameter Sample} (untagged : p.tags = []) :
    p.sample = some (List.replicate p.minLength 'x') := by
  rw [sample, untagged, ← fit_nil]
  rfl

end Parameter

namespace Part

theorem takes_of_sample {part : Part Sample} {text : Text} (h : part.sample = some text) :
    part.Takes text := by
  cases part with
  | literal l =>
    cases h
    exact Casing.sameText_refl l.casing l.text
  | parameter p =>
    obtain ⟨sample, -, rfl⟩ := Option.map_eq_some_iff.1 h
    exact p.admits_fit sample

theorem takes_map (g : π → ρ) (part : Part π) (text : Text) :
    (part.map g).Takes text ↔ part.Takes text := by
  cases part <;> rfl

/-- A text that the part contributes to an example of its pattern, and can take. -/
def Exemplifies (part : Part Pattern) (text : Text) : Prop :=
  (part.map Pattern.sampled).sample = some text ∧ part.Takes text

def plain : Part π → Text
  | .literal l => l.text
  | .parameter p => List.replicate p.minLength 'x'

theorem takesLeast_plain (part : Part π) : part.TakesLeast part.plain := by
  cases part with
  | literal l => exact Casing.sameText_refl l.casing l.text
  | parameter p => exact List.length_replicate

theorem exemplifies_iff {part : Part Pattern} {text : Text} :
    part.Exemplifies text ↔ (part.map Pattern.sampled).sample = some text := by
  constructor
  · exact And.left
  · intro h
    exact ⟨h, (takes_map _ _ _).1 (takes_of_sample h)⟩

theorem exemplifies_plain {part : Part Pattern} (untagged : ∀ p, part = .parameter p → p.tags = []) :
    part.Exemplifies part.plain := by
  rw [exemplifies_iff]
  cases part with
  | literal l => rfl
  | parameter p =>
    have hmapped : (p.map Pattern.sampled).tags = [] := by
      rw [Parameter.map, untagged p rfl]
      rfl
    exact Parameter.sample_of_untagged hmapped

end Part

namespace Slice

section

variable {g : Parameter π → Parameter ρ} (hname : ∀ p, (g p).name = p.name)

include hname

theorem whole_onParameter (slice : Slice π) (position : Nat) :
    (slice.onParameter g).whole position = slice.whole position := by
  cases slice with
  | literal text => rfl
  | capture p text => rw [onParameter, whole, hname, whole]

theorem store_onParameter (slice : Slice π) (params : Params) :
    (slice.onParameter g).store params = slice.store params := by
  cases slice with
  | literal text => rfl
  | capture p text =>
    rw [onParameter, store, store, Parameter.store, Parameter.store, Parameter.isAnonymous,
      Parameter.isAnonymous, hname]

theorem wholeFrom_map (position : Nat) (slices : List (Slice π)) :
    wholeFrom position (slices.map (.onParameter g)) = wholeFrom position slices := by
  induction slices generalizing position with
  | nil => rfl
  | cons slice slices ih =>
    have htext : (slice.onParameter g).text = slice.text := by
      cases slice <;> rfl
    rw [List.map_cons, wholeFrom, whole_onParameter hname, htext, ih, wholeFrom]

theorem storeAll_map (slices : List (Slice π)) (params : Params) :
    storeAll (slices.map (.onParameter g)) params = storeAll slices params := by
  rw [storeAll, List.foldl_map]
  simp only [store_onParameter hname]
  rfl

end

end Slice

namespace Pattern

theorem sample_eq (p : Pattern) :
    p.sample = ((p.parts.map (.map sampled)).mapM Part.sample).map List.flatten := by
  rcases p with ⟨layer⟩
  rw [sample, fold_of]
  rfl

theorem sample_eq_some_iff {p : Pattern} {text : Text} :
    p.sample = some text ↔
      ∃ samples, List.Forall₂ Part.Exemplifies p.parts samples ∧ samples.flatten = text := by
  simp only [sample_eq, Option.map_eq_some_iff, mapM_eq_some_iff, List.forall₂_map_left_iff,
    ← Part.exemplifies_iff]

def taking (p : Pattern) (texts : List Text) : List (Slice Pattern) :=
  List.zipWith Slice.ofPart p.parts texts

theorem check_of_untagged {p : Pattern} (untagged : ∀ q ∈ p.layer.parameters, q.tags = [])
    (text : Text) (params : Params) :
    p.check text params = (splitParts? [] p.parts text).map fun slices =>
      (Slice.wholeFrom 0 slices, Slice.storeAll slices params) := by
  have hself : p.untagged = p := by
    rcases p with ⟨source, parts, diagnostics, options⟩
    have hpart : ∀ part ∈ parts, part.onParameter .untagged = part := by
      intro part hpart
      cases part with
      | literal l => rfl
      | parameter q =>
        have hq : q.tags = [] := untagged q (Layer.mem_parameters_iff.2 hpart)
        rw [Part.onParameter, Parameter.untagged, ← hq]
    have hparts : parts.map (.onParameter .untagged) = parts :=
      (List.map_congr_left hpart).trans (List.map_id parts)
    rw [Pattern.untagged, layer, Layer.untagged, hparts]
  have hlevel : p.levelAt 0 = (p.levelAt 0).untagged := by
    rw [← levelAt_untagged, hself]
  rw [check_eq, hlevel, Layer.check_untagged_eq, splitParts?_levelAt, Option.map_map]
  congr 1
  funext slices
  rw [Function.comp_apply, Slice.wholeFrom_map, Slice.storeAll_map]
  · exact fun _ => rfl
  · exact fun _ => rfl

/-- An example is made of a text for each part, which has a length that the part admits. Without tags
there is an example, and a check takes it apart in the same way, if it is not too long to be counted:
each part is a span that holds its own text, and each parameter that has a name stores its own text, in
order. -/
theorem check_sample (p : Pattern) :
    (∀ text, p.sample = some text → ∃ samples, samples.flatten = text ∧
      List.Forall₂ Part.Exemplifies p.parts samples) ∧
    ((∀ q ∈ p.layer.parameters, q.tags = []) → ∃ samples, p.sample = some samples.flatten ∧
      List.Forall₂ Part.Exemplifies p.parts samples ∧
      (samples.flatten.length < UInt64.size → ∀ params, p.check samples.flatten params =
        some (Slice.wholeFrom 0 (p.taking samples), Slice.storeAll (p.taking samples) params))) := by
  constructor
  · intro text h
    obtain ⟨samples, hsamples, rfl⟩ := sample_eq_some_iff.1 h
    exact ⟨samples, rfl, hsamples⟩
  · intro untagged
    have hexample : List.Forall₂ Part.Exemplifies p.parts (p.parts.map Part.plain) := by
      rw [List.forall₂_map_right_iff, List.forall₂_same]
      intro part hpart
      apply Part.exemplifies_plain
      rintro q rfl
      exact untagged q (Layer.mem_parameters_iff.2 hpart)
    have hleast : List.Forall₂ Part.TakesLeast p.parts (p.parts.map Part.plain) := by
      rw [List.forall₂_map_right_iff, List.forall₂_same]
      exact fun part _ => part.takesLeast_plain
    refine ⟨_, sample_eq_some_iff.2 ⟨_, hexample, rfl⟩, hexample, ?_⟩
    intro small params
    have fits : ∀ run ∈ Part.runs p.parts, Run.needed run < UInt64.size := by
      intro run hrun
      have hle := needed_le_of_takes .nil (hleast.imp fun _ _ => Part.TakesLeast.takes) run hrun
      rw [List.flatten_nil, List.nil_append] at hle
      omega
    have hsplit := splitParts?_of_least fits .nil hleast
    rw [List.flatten_nil, List.nil_append] at hsplit
    rw [check_of_untagged untagged, hsplit]
    rfl

/-- The literals are made of the letter that lengths are filled up with, and a name is used twice. -/
def filler : Pattern := compile "%[a{plf=2}]xX%[a{plm=1}]%[]%[b]x".toList { casing := .insensitive }

theorem check_sample_filler :
    (∀ q ∈ filler.layer.parameters, q.tags = []) ∧ filler.sample = some "xxxXxx".toList ∧
      ∃ after, filler.check "xxxXxx".toList (.ofList [("b".toList, .text "old".toList)]) = some
        ([.parameter "a".toList "xx".toList 0, .literal "xX".toList 2 2,
          .parameter "a".toList "x".toList 4, .parameter [] [] 5, .parameter "b".toList [] 5,
          .literal "x".toList 5 1], after) ∧
        after.entries = [("a".toList, .text "x".toList), ("b".toList, .text [])] := by
  have untagged : ∀ q ∈ filler.layer.parameters, q.tags = [] := by decide +kernel
  obtain ⟨samples, hsample, hexample, hcheck⟩ := (check_sample filler).2 untagged
  have hsamples : samples = ["xx".toList, "xX".toList, "x".toList, [], [], "x".toList] := by
    have hmade := mapM_eq_some_iff.2 (hexample.imp fun _ _ => Part.exemplifies_iff.1)
    have hparts : filler.parts.mapM (fun part => (part.map sampled).sample) =
        some ["xx".toList, "xX".toList, "x".toList, [], [], "x".toList] := by decide +kernel
    exact Option.some_inj.1 (hmade.symm.trans hparts)
  subst hsamples
  have hspans : Slice.wholeFrom 0
      (filler.taking ["xx".toList, "xX".toList, "x".toList, [], [], "x".toList]) =
        [.parameter "a".toList "xx".toList 0, .literal "xX".toList 2 2,
          .parameter "a".toList "x".toList 4, .parameter [] [] 5, .parameter "b".toList [] 5,
          .literal "x".toList 5 1] := by decide +kernel
  have hchecked := hcheck (by decide) (.ofList [("b".toList, .text "old".toList)])
  rw [hspans] at hchecked
  exact ⟨untagged, hsample, _, hchecked, by decide +kernel⟩

end Pattern

end Stencil
