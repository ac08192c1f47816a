import Stencil.Proofs.Check.Greedy
import Stencil.Proofs.Format.RoundTrip

/-! # Checking what was formatted

Where literals stand between the parameters, they are the delimiters of the values. A check of the
formatted text takes each value up to the first occurrence of its delimiter, so it gives the values
back exactly if no delimiter begins earlier than where its value ends. -/
namespace Stencil

variable {π : Type}

namespace Parameter

/-- The parameter takes texts of any length. -/
def IsFree (p : Parameter π) : Prop := p.fixed = none ∧ p.min = none

instance (p : Parameter π) : Decidable p.IsFree := inferInstanceAs (Decidable (_ ∧ _))

theorem IsFree.minLength_eq {p : Parameter π} (h : p.IsFree) : p.minLength = 0 := by
  rw [minLength, h.1, h.2]
  rfl

theorem IsFree.isFixed_eq {p : Parameter π} (h : p.IsFree) : p.isFixed = false := by
  rw [isFixed, h.1]
  rfl

end Parameter

namespace Run

theorem needed_free {p : Parameter π} (h : p.IsFree) : needed [p] = 0 := by
  rw [needed_cons, h.minLength_eq, needed_nil]

theorem minLength_free {p : Parameter π} (h : p.IsFree) : minLength [p] = 0 := by
  have hneeded := needed_free h
  rw [minLength_of_fits (by rw [hneeded]; decide), hneeded]

theorem isFixed_free {p : Parameter π} (h : p.IsFree) : isFixed [p] = false := by
  rw [isFixed_cons, h.isFixed_eq, Bool.false_and]

theorem extent?_free {p : Parameter π} (h : p.IsFree) (l : Literal) (text : Text) :
    extent? [p] (some l) text =
      (l.casing.find? l.text text).map fun cut => (cut.before, cut.kept ++ cut.after) := by
  rw [extent?, minLength_free h, Text.splitLength?_of_le (Nat.zero_le _)]
  simp only [Option.bind_eq_bind, Option.bind_some, isFixed_free h, Bool.false_eq_true, ↓reduceIte,
    List.take_zero, List.drop_zero, List.nil_append]
  cases l.casing.find? l.text text <;> rfl

theorem slices?_free {p : Parameter π} (h : p.IsFree) (text : Text) :
    slices? [p] text = some [.capture p text] := by
  have hown : own text.length 0 p [] = text.length := by
    rw [own_of_le [] (Nat.le_of_eq h.minLength_eq) (Nat.zero_le _), h.isFixed_eq, h.minLength_eq]
    simp [isFixed]
  rw [slices?, minLength_free h, share?, hown, Text.splitLength?_of_le (Nat.le_refl _),
    List.take_length]
  rfl

end Run

namespace Part

/-- A literal stands between two parameters. -/
def Separated (a b : Part π) : Prop := a.parameter? = none ∨ b.parameter? = none

instance : DecidableRel (@Separated π) := fun _ _ => inferInstanceAs (Decidable (_ ∨ _))

variable (value : Parameter π → Text)

/-- The literal behind a parameter does not begin before the parameter's value has ended. -/
def Delimits : Part π → Part π → Prop
  | .parameter p, .literal l => l.casing.FirstAt l.text (value p ++ l.text) (value p).size
  | _, _ => True

instance : DecidableRel (Delimits value)
  | .parameter _, .literal _ => decidable_of_iff _ (Casing.find?_delimiter_iff _ _ _ [])
  | .parameter _, .parameter _ => .isTrue trivial
  | .literal _, _ => .isTrue trivial

/-- The slice that a part takes when it takes just what it was formatted to. -/
def slice : Part π → Slice π
  | .literal l => .literal l.text
  | .parameter p => .capture p (value p)

/-- Parts that are filled in are split into just what fills them. -/
def SplitBack (parts : List (Part π)) : Prop :=
  splitParts? [] parts (parts.flatMap (filled value)) = some (parts.map (slice value))

variable {value} {parts : List (Part π)}

theorem splitBack_literal_iff (l : Literal) :
    SplitBack value (.literal l :: parts) ↔ SplitBack value parts := by
  have hstrip : l.casing.stripFront? l.text (l.text ++ parts.flatMap (filled value)) =
      some (l.text, parts.flatMap (filled value)) :=
    Casing.stripFront?_eq_some_iff.2 ⟨rfl, Casing.sameText_refl _ _⟩
  rw [SplitBack, SplitBack, List.flatMap_cons, splitParts?, Run.extent?_nil]
  simp only [Option.bind_eq_bind, Option.bind_some, filled, hstrip]
  cases splitParts? [] parts (parts.flatMap (filled value)) with
  | none => simp
  | some slices => simp [Run.slices?, Run.share?, slice]

theorem splitBack_parameter {p : Parameter π} (free : p.IsFree) :
    SplitBack value [.parameter p] := by
  have hmin : Run.minLength [p] ≤ (value p).length := by
    rw [Run.minLength_free free]
    exact Nat.zero_le _
  rw [SplitBack, List.flatMap_singleton, filled, splitParts?, List.nil_append, splitParts?,
    Run.extent?_none (Run.isFixed_free free) hmin]
  simp [Run.slices?_free free, slice]

/-- A parameter gets its value back exactly if its delimiter is found right behind it. -/
theorem splitBack_delimited_iff {p : Parameter π} (free : p.IsFree) (l : Literal) :
    SplitBack value (.parameter p :: .literal l :: parts) ↔
      Delimits value (.parameter p) (.literal l) ∧ SplitBack value parts := by
  have hfind := Casing.find?_delimiter_iff l.casing (value p) l.text
    (parts.flatMap (filled value))
  rw [Delimits, ← hfind, SplitBack, SplitBack, List.flatMap_cons, List.flatMap_cons, splitParts?,
    List.nil_append, splitParts?, Run.extent?_free free]
  simp only [filled]
  constructor
  · intro h
    rcases hcut : l.casing.find? l.text (value p ++ (l.text ++ parts.flatMap (filled value)))
      with _ | ⟨before, kept, after⟩
    · rw [hcut] at h
      cases h
    have hstrip := Casing.stripFront?_of_find? hcut
    have hwhole := (Casing.of_find? hcut).1
    simp only [hcut, Option.map_some, Option.bind_eq_bind, Option.bind_some, hstrip,
      Run.slices?_free free] at h
    obtain ⟨slices, hslices, h⟩ := Option.bind_eq_some_iff.1 h
    simp only [List.map_cons, slice, List.cons_append, List.nil_append, Option.some.injEq,
      List.cons.injEq, Slice.capture.injEq, Slice.literal.injEq, true_and] at h
    obtain ⟨rfl, rfl, rfl⟩ := h
    rw [Cut.whole, List.append_assoc, List.append_cancel_left_eq, List.append_cancel_left_eq] at hwhole
    rw [hwhole]
    exact ⟨rfl, hslices⟩
  · rintro ⟨hcut, hparts⟩
    have hstrip := Casing.stripFront?_of_find? hcut
    simp only [hcut, Option.map_some, Option.bind_eq_bind, Option.bind_some, hstrip, hparts,
      Run.slices?_free free]
    rfl

theorem isChain_delimits_literal_iff (l : Literal) :
    (literal l :: parts).IsChain (Delimits value) ↔ parts.IsChain (Delimits value) := by
  rw [List.isChain_cons]
  exact and_iff_right fun next _ => trivial

theorem splitBack_iff : ∀ {parts : List (Part π)}, (∀ p, .parameter p ∈ parts → p.IsFree) →
    parts.IsChain Separated → (SplitBack value parts ↔ parts.IsChain (Delimits value))
  | [], _, _ => iff_of_true rfl .nil
  | .literal l :: parts, free, separated => by
    have hrest := splitBack_iff (fun p hp => free p (List.mem_cons_of_mem _ hp)) separated.tail
    rw [splitBack_literal_iff, isChain_delimits_literal_iff, hrest]
  | [.parameter p], free, _ =>
    iff_of_true (splitBack_parameter (free p List.mem_cons_self)) (.singleton _)
  | .parameter p :: .literal l :: parts, free, separated => by
    have hrest := splitBack_iff (fun q hq => free q (List.mem_cons_of_mem _ (List.mem_cons_of_mem _ hq)))
      separated.tail.tail
    rw [splitBack_delimited_iff (free p List.mem_cons_self), hrest, List.isChain_cons_cons,
      isChain_delimits_literal_iff]
  | .parameter p :: .parameter q :: parts, _, separated => by
    rcases (List.isChain_cons_cons.1 separated).1 with h | h <;> cases h

end Part

theorem Slice.eq_map_slice {value : Parameter Meaning → Text} {parts : List (Part Meaning)}
    {slices : List (Slice Meaning)} {after : Params} (fits : List.Forall₂ Fits parts slices)
    (holds : List.Forall₂ (Part.Holds after) parts (slices.map Slice.text))
    (same : ∀ p, .parameter p ∈ parts → after.resolve? p.name = some (value p))
    (whole : slices.flatMap Slice.text = parts.flatMap (Part.filled value)) :
    slices = parts.map (Part.slice value) := by
  induction fits with
  | nil => rfl
  | @cons part slice parts slices hfits _ ih =>
    rcases holds with _ | ⟨hholds, hrest⟩
    rw [List.flatMap_cons, List.flatMap_cons] at whole
    have htext : slice.text = part.filled value ∧ slice = part.slice value := by
      cases part with
      | literal l =>
        obtain ⟨text, rfl, hsame⟩ := fits_literal_iff.1 hfits
        obtain ⟨rfl, -⟩ := List.append_inj whole (Casing.length_of_sameText hsame)
        exact ⟨rfl, rfl⟩
      | parameter p =>
        obtain ⟨text, rfl⟩ := fits_parameter_iff.1 hfits
        have hvalue := same p List.mem_cons_self
        rw [hholds.1, Option.some.injEq] at hvalue
        subst hvalue
        exact ⟨rfl, rfl⟩
    rw [htext.1, List.append_cancel_left_eq] at whole
    rw [List.map_cons, htext.2, ih hrest (fun p hp => same p (List.mem_cons_of_mem _ hp)) whole]

/-- A check of filled parts stores the values again exactly if they are delimited. -/
theorem Layer.check_filled_iff {layer : Layer Meaning} {value : Parameter Meaning → Text}
    (recorded : Recorded layer.parameters) (bare : ∀ p ∈ layer.parameters, p.tags = [] ∧ p.IsFree)
    (separated : layer.parts.IsChain Part.Separated) (start : Params) :
    (∃ spans after, layer.check (layer.parts.flatMap (Part.filled value)) start = some (spans, after) ∧
      ∀ p ∈ layer.parameters, after.resolve? p.name = some (value p)) ↔
    layer.parts.IsChain (Part.Delimits value) := by
  have hbare : ∀ p, .parameter p ∈ layer.parts → p.tags = [] ∧ p.IsFree := fun p hp =>
    bare p (Layer.mem_parameters_iff.2 hp)
  rw [← Part.splitBack_iff (fun p hp => (hbare p hp).2) separated]
  constructor
  · rintro ⟨spans, after, hcheck, same⟩
    obtain ⟨slices, hs, he⟩ := Option.bind_eq_some_iff.1 hcheck
    obtain ⟨hflat, hfits⟩ := of_splitParts? hs
    rw [List.map_nil, List.nil_append] at hfits
    obtain ⟨hholds, -⟩ := Slice.holds_of_evaluateFrom? hfits recorded he
    have hslices := Slice.eq_map_slice hfits hholds
      (fun p hp => same p (Layer.mem_parameters_iff.2 hp)) hflat
    rw [Part.SplitBack, hs, hslices]
  · intro h
    obtain ⟨-, hfits⟩ := of_splitParts? h
    rw [List.map_nil, List.nil_append] at hfits
    obtain ⟨⟨spans, after⟩, he⟩ :=
      Slice.exists_evaluateFrom? (fun p hp => (hbare p hp).1) hfits 0 start
    refine ⟨spans, after, Option.bind_eq_some_iff.2 ⟨_, h, he⟩, ?_⟩
    obtain ⟨hholds, -⟩ := Slice.holds_of_evaluateFrom? hfits recorded he
    rw [List.map_map, List.forall₂_map_right_iff, List.forall₂_same] at hholds
    intro p hp
    exact (hholds _ (Layer.mem_parameters_iff.1 hp)).1

theorem Parameter.accepts_of_untagged {p : Parameter Meaning} (h : p.tags = []) (text : Text) :
    p.Accepts text := by
  intro mode options span params _
  rw [h]
  rfl

section

variable {ρ : Type} (g : π → ρ) {parts : List (Part π)}

theorem Part.isChain_separated_map (separated : parts.IsChain Separated) :
    (parts.map (.map g)).IsChain Separated := by
  refine (List.isChain_map _).2 (separated.imp ?_)
  intro a b hab
  cases a with
  | literal l => exact .inl rfl
  | parameter p =>
    cases b with
    | literal l => exact .inr rfl
    | parameter q => rcases hab with h | h <;> cases h

theorem Part.isChain_delimits_map (params : Params) :
    (parts.map (.map g)).IsChain (Delimits (·.held params)) ↔
      parts.IsChain (Delimits (·.held params)) := by
  refine (List.isChain_map _).trans (List.IsChain.iff ?_)
  intro a b
  cases a <;> cases b <;> exact Iff.rfl

theorem Layer.bare_map {layer : Layer π} (bare : ∀ p ∈ layer.parameters, p.tags = [] ∧ p.IsFree) :
    ∀ p ∈ (layer.map g).parameters, p.tags = [] ∧ p.IsFree := by
  rw [Layer.parameters_map, List.forall_mem_map]
  intro p hp
  obtain ⟨htags, hfree⟩ := bare p hp
  refine ⟨?_, hfree⟩
  rw [Parameter.map, htags]
  rfl

end

namespace Pattern

/-- If no parameters are adjacent and none has tags or lengths, a text formatted from values is
checked, and the check stores the values again, exactly if no value and its delimiter have an
occurrence of the delimiter that begins inside the value. -/
theorem check_formatText_iff (source : Text) (options : Options) (formatOptions : FormatOptions)
    (params start : Params)
    (named : ∀ p ∈ (compile source options).layer.parameters, p.name ≠ [])
    (distinct : ((compile source options).layer.parameters.map (·.name)).Nodup)
    (bare : ∀ p ∈ (compile source options).layer.parameters, p.tags = [] ∧ p.IsFree)
    (separated : (compile source options).parts.IsChain Part.Separated)
    (valued : ∀ p ∈ (compile source options).layer.parameters, (params.resolve? p.name).isSome) :
    ∃ text, ((compile source options).formatText formatOptions params).1 = some text ∧
      ((∃ spans after, (compile source options).check text start = some (spans, after) ∧
          ∀ p ∈ (compile source options).layer.parameters,
            after.resolve? p.name = params.resolve? p.name) ↔
        (compile source options).parts.IsChain (Part.Delimits (·.held params))) := by
  generalize compile source options = p at named distinct bare separated valued ⊢
  -- the parameters are those of the compiled level but for what is nested in their tags
  have hparameters : (p.levelAt 0).parameters =
      p.layer.parameters.map (.map fun nested => nested.meaningAt 1) := Layer.parameters_map _ _
  have recorded : Recorded (p.levelAt 0).parameters := by
    rw [hparameters]
    refine (Recorded.mk named distinct ?_).map _
    intro q hq tag htag
    rw [(bare q hq).1] at htag
    cases htag
  have hbare : ∀ q ∈ (p.levelAt 0).parameters, q.tags = [] ∧ q.IsFree := Layer.bare_map _ bare
  have hseparated : (p.levelAt 0).parts.IsChain Part.Separated :=
    Part.isChain_separated_map _ separated
  have hheld : ∀ q ∈ p.layer.parameters, params.resolve? q.name = some (q.held params) := by
    intro q hq
    obtain ⟨v, hv⟩ := Option.isSome_iff_exists.1 (valued q hq)
    rw [Parameter.held, hv]
    rfl
  have hheld' : ∀ q ∈ (p.levelAt 0).parameters, params.resolve? q.name = some (q.held params) := by
    rw [hparameters, List.forall_mem_map]
    exact hheld
  obtain ⟨found, hformat, hrender⟩ := exists_formatParts_filled formatOptions recorded hheld'
    fun q hq => Parameter.accepts_of_untagged (hbare q hq).1 _
  refine ⟨Span.render found, ?_, ?_⟩
  · have hspans : (p.format formatOptions params).1 = some found := by
      rw [format_eq]
      exact hformat
    simp only [formatText, hspans, Option.map_some]
  · have hsame (after : Params) :
        (∀ q ∈ p.layer.parameters, after.resolve? q.name = params.resolve? q.name) ↔
          ∀ q ∈ (p.levelAt 0).parameters, after.resolve? q.name = some (q.held params) := by
      rw [hparameters, List.forall_mem_map]
      refine forall₂_congr fun q hq => ?_
      rw [hheld q hq]
      rfl
    have hchain : (p.levelAt 0).parts.IsChain (Part.Delimits (·.held params)) ↔
        p.parts.IsChain (Part.Delimits (·.held params)) := Part.isChain_delimits_map _ params
    rw [← hchain, ← Layer.check_filled_iff recorded hbare hseparated start, hrender]
    simp only [hsame, check_eq]

/-- A value that ends as its delimiter begins, but for case. -/
def folded : Pattern := compile "%[key]Aa%[value]".toList { casing := .insensitive }

def foldedParams : Params :=
  .ofList [("key".toList, .lazy "xA".toList), ("value".toList, .text "b".toList)]

/-- The value does not come back: the delimiter is met one character early. -/
theorem check_formatText_iff_folded :
    (∀ p ∈ folded.layer.parameters, p.name ≠ []) ∧
    (folded.layer.parameters.map (·.name)).Nodup ∧
    (∀ p ∈ folded.layer.parameters, p.tags = [] ∧ p.IsFree) ∧
    folded.parts.IsChain Part.Separated ∧
    (∀ p ∈ folded.layer.parameters, (foldedParams.resolve? p.name).isSome) ∧
    ∃ text, (folded.formatText .strict foldedParams).1 = some text ∧
      ¬ ∃ spans after, folded.check text .empty = some (spans, after) ∧
        ∀ p ∈ folded.layer.parameters, after.resolve? p.name = foldedParams.resolve? p.name := by
  have named : ∀ p ∈ folded.layer.parameters, p.name ≠ [] := by decide +kernel
  have distinct : (folded.layer.parameters.map (·.name)).Nodup := by decide +kernel
  have bare : ∀ p ∈ folded.layer.parameters, p.tags = [] ∧ p.IsFree := by decide +kernel
  have separated : folded.parts.IsChain Part.Separated := by decide +kernel
  have valued : ∀ p ∈ folded.layer.parameters, (foldedParams.resolve? p.name).isSome := by
    decide +kernel
  have early : ¬ folded.parts.IsChain (Part.Delimits (·.held foldedParams)) := by decide +kernel
  obtain ⟨text, hformat, hiff⟩ :=
    check_formatText_iff _ _ .strict foldedParams .empty named distinct bare separated valued
  exact ⟨named, distinct, bare, separated, valued, text, hformat, fun h => early (hiff.1 h)⟩

/-- With its case the same delimiter is met where the value ends. -/
example : (compile "%[key]Aa%[value]".toList {}).parts.IsChain
    (Part.Delimits (·.held foldedParams)) := by decide +kernel

end Pattern

end Stencil
