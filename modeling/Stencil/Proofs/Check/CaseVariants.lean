import Stencil.Proofs.Check.Phases
import Stencil.Proofs.Compile.Literals
import Stencil.Proofs.Compile.Tags
import Stencil.Proofs.Evaluate.Conditions
import Stencil.Proofs.Evaluate.Related

/-! # Case variants of a text

Two texts that differ in the case of their characters alone may differ in every byte position. A
check that ignores case still goes the same way on both: each of its steps looks at folded characters
and counts of characters, and leaves case variants (`Pattern.check_caseVariants`). -/
namespace Stencil

variable {π : Type}

/-- The same characters but for their case. -/
def Text.Variant (a b : Text) : Prop := a.map fold = b.map fold

namespace Text.Variant

variable {a b : Text}

theorem of_forall₂ (h : List.Forall₂ (fun c d => Casing.insensitive.sameChar c d = true) a b) :
    a.Variant b := by
  induction h with
  | nil => rfl
  | cons hchar _ ih =>
    unfold Variant at ih ⊢
    rw [List.map_cons, List.map_cons, ih]
    congr 1
    simpa [Casing.sameChar, Casing.key] using hchar

theorem sameText (h : a.Variant b) : Casing.insensitive.sameText a b = true :=
  Casing.sameText_iff.2 h

theorem symm (h : a.Variant b) : b.Variant a := Eq.symm h

theorem length_eq (h : a.Variant b) : a.length = b.length := by
  have hlength := congrArg List.length h
  simpa using hlength

theorem eq_nil_iff (h : a.Variant b) : a = [] ↔ b = [] := by
  rw [← List.length_eq_zero_iff, ← List.length_eq_zero_iff, h.length_eq]

theorem append {c d : Text} (h : a.Variant b) (k : c.Variant d) : (a ++ c).Variant (b ++ d) := by
  unfold Variant at h k ⊢
  rw [List.map_append, List.map_append, h, k]

theorem reverse (h : a.Variant b) : Variant a.reverse b.reverse := by
  unfold Variant at h ⊢
  rw [List.map_reverse, List.map_reverse, h]

theorem exists_append {front rest : Text} (h : Variant (front ++ rest) b) :
    ∃ front' rest', b = front' ++ rest' ∧ front.Variant front' ∧ rest.Variant rest' := by
  unfold Variant at h
  rw [List.map_append] at h
  obtain ⟨front', rest', hb, hfront, hrest⟩ := List.map_eq_append_iff.1 h.symm
  exact ⟨front', rest', hb, hfront.symm, hrest.symm⟩

theorem sameText_of_sameText {piece : Text} (h : a.Variant b)
    (same : Casing.insensitive.sameText a piece = true) :
    Casing.insensitive.sameText b piece = true := by
  rw [Casing.sameText_iff] at same ⊢
  exact h.symm.trans same

theorem exists_stripFront? {piece front rest : Text} (h : a.Variant b)
    (hstrip : Casing.insensitive.stripFront? piece a = some (front, rest)) :
    ∃ front' rest', Casing.insensitive.stripFront? piece b = some (front', rest') ∧
      front.Variant front' ∧ rest.Variant rest' := by
  obtain ⟨rfl, hsame⟩ := Casing.stripFront?_eq_some_iff.1 hstrip
  obtain ⟨front', rest', rfl, hfront, hrest⟩ := h.exists_append
  have hsame' := hfront.sameText_of_sameText hsame
  exact ⟨front', rest', Casing.stripFront?_eq_some_iff.2 ⟨rfl, hsame'⟩, hfront, hrest⟩

theorem exists_find? {piece : Text} {cut : Cut} (h : a.Variant b)
    (hfind : Casing.insensitive.find? piece a = some cut) :
    ∃ cut', Casing.insensitive.find? piece b = some cut' ∧ cut.before.Variant cut'.before ∧
      cut.kept.Variant cut'.kept ∧ cut.after.Variant cut'.after := by
  -- what is found in one text occurs in the other, so neither is found earlier
  have occurs {a b : Text} {cut : Cut} (h : a.Variant b)
      (hfind : Casing.insensitive.find? piece a = some cut) :
      ∃ cut', Casing.insensitive.find? piece b = some cut' ∧
        cut'.before.length ≤ cut.before.length := by
    obtain ⟨rfl, -⟩ := Casing.of_find? hfind
    rw [Cut.whole, List.append_assoc] at h
    obtain ⟨before, rest, rfl, hbefore, hrest⟩ := h.exists_append
    obtain ⟨kept, after, rfl, hkept, -⟩ := hrest.exists_append
    have hsame := hkept.sameText_of_sameText (Casing.sameText_of_find? hfind)
    obtain ⟨cut', hcut', hle⟩ := Casing.find?_of_occurrence before after hsame
    refine ⟨cut', hcut', ?_⟩
    rw [hbefore.length_eq]
    exact hle
  obtain ⟨cut', hcut', hle⟩ := occurs h hfind
  obtain ⟨other, hother, hge⟩ := occurs h.symm hcut'
  rw [hfind] at hother
  cases hother
  obtain ⟨rfl, hlength⟩ := Casing.of_find? hfind
  obtain ⟨rfl, hlength'⟩ := Casing.of_find? hcut'
  rw [Cut.whole, Cut.whole, List.append_assoc, List.append_assoc] at h
  obtain ⟨before, rest, heq, hbefore, hrest⟩ := h.exists_append
  obtain ⟨kept, after, rfl, hkept, hafter⟩ := hrest.exists_append
  have hsize := hbefore.length_eq
  have hsize' := hkept.length_eq
  obtain ⟨rfl, hrest⟩ := List.append_inj heq (by omega)
  obtain ⟨rfl, rfl⟩ := List.append_inj hrest (by omega)
  exact ⟨cut', hcut', hbefore, hkept, hafter⟩

/-- An answer that a variant cannot take back is the same for both. -/
theorem congr_of_imp (answer : Text → Bool)
    (himp : ∀ {a b : Text}, a.Variant b → answer a = true → answer b = true) (h : a.Variant b) :
    answer a = answer b :=
  Bool.eq_iff_iff.2 ⟨himp h, himp h.symm⟩

theorem isSome_stripFront? (piece : Text) (h : a.Variant b) :
    (Casing.insensitive.stripFront? piece a).isSome =
      (Casing.insensitive.stripFront? piece b).isSome := by
  apply congr_of_imp (fun text => (Casing.insensitive.stripFront? piece text).isSome) _ h
  intro a b h ha
  obtain ⟨⟨front, rest⟩, hstrip⟩ := Option.isSome_iff_exists.1 ha
  obtain ⟨front', rest', hstrip', -, -⟩ := h.exists_stripFront? hstrip
  simp [hstrip']

theorem isSome_find? (piece : Text) (h : a.Variant b) :
    (Casing.insensitive.find? piece a).isSome = (Casing.insensitive.find? piece b).isSome := by
  apply congr_of_imp (fun text => (Casing.insensitive.find? piece text).isSome) _ h
  intro a b h ha
  obtain ⟨cut, hcut⟩ := Option.isSome_iff_exists.1 ha
  obtain ⟨cut', hcut', -⟩ := h.exists_find? hcut
  simp [hcut']

theorem all_congr {p : Char → Bool} (hp : ∀ c d, fold c = fold d → p c = p d) (h : a.Variant b) :
    a.all p = b.all p := by
  induction a generalizing b with
  | nil =>
    obtain rfl := h.eq_nil_iff.1 rfl
    rfl
  | cons c cs ih =>
    cases b with
    | nil => cases h
    | cons d ds =>
      unfold Variant at h ih
      simp only [List.map_cons, List.cons.injEq] at h
      rw [List.all_cons, List.all_cons, hp c d h.1, ih h.2]

end Text.Variant

theorem Run.exists_extent?_variant {run : List (Parameter π)} {next : Option Literal}
    (ignores : ∀ l ∈ next, l.casing = .insensitive) {a b taken rest : Text} (h : a.Variant b)
    (hextent : extent? run next a = some (taken, rest)) :
    ∃ taken' rest', extent? run next b = some (taken', rest') ∧ taken.Variant taken' ∧
      rest.Variant rest' := by
  unfold extent? at hextent ⊢
  simp only [Option.bind_eq_bind, Option.bind_eq_some_iff, Prod.exists] at hextent
  obtain ⟨least, more, hcut, hextent⟩ := hextent
  obtain ⟨rfl, hlength⟩ := Text.splitLength?_eq_some_iff.1 hcut
  -- a variant can be cut after as many characters
  obtain ⟨least', more', rfl, hleast, hmore⟩ := h.exists_append
  have hsplit : Text.splitLength? (least' ++ more') (minLength run) = some (least', more') :=
    Text.splitLength?_eq_some_iff.2 ⟨rfl, hleast.length_eq ▸ hlength⟩
  simp only [Option.bind_eq_bind, hsplit, Option.bind_some]
  split at hextent
  case isTrue hfixed =>
    cases hextent
    rw [if_pos hfixed]
    exact ⟨least', more', rfl, hleast, hmore⟩
  case isFalse hfixed =>
    rw [if_neg hfixed]
    cases next with
    | none =>
      cases hextent
      exact ⟨_, [], rfl, h, rfl⟩
    | some l =>
      have hl : l.casing = .insensitive := ignores l rfl
      simp only [hl, Option.bind_eq_some_iff] at hextent
      obtain ⟨cut, hcut, hpair⟩ := hextent
      cases hpair
      obtain ⟨cut', hcut', hbefore, hkept, hafter⟩ := hmore.exists_find? hcut
      simp only [hl, hcut', Option.bind_some]
      exact ⟨_, _, rfl, hleast.append hbefore, hkept.append hafter⟩

/-- Slices that the same part takes of case variants. -/
def Slice.Variant : Slice π → Slice π → Prop
  | .literal a, .literal b => a.Variant b
  | .capture p a, .capture q b => p = q ∧ a.Variant b
  | _, _ => False

theorem Run.exists_share?_variant {total least : Nat} {run : List (Parameter π)} {a b : Text}
    {slices : List (Slice π)} (h : a.Variant b) (hshare : share? total least run a = some slices) :
    ∃ slices', share? total least run b = some slices' ∧
      List.Forall₂ Slice.Variant slices slices' := by
  induction run generalizing a b slices with
  | nil =>
    cases hshare
    exact ⟨[], rfl, .nil⟩
  | cons p run ih =>
    simp only [share?, Option.bind_eq_bind, Option.bind_eq_some_iff, Prod.exists] at hshare ⊢
    obtain ⟨taken, rest, htaken, slices, hslices, he⟩ := hshare
    cases he
    obtain ⟨rfl, hlength⟩ := Text.splitLength?_eq_some_iff.1 htaken
    obtain ⟨taken', rest', rfl, hvariant, hrest⟩ := h.exists_append
    obtain ⟨slices', hslices', hvariants⟩ := ih hrest hslices
    have htaken' : Text.splitLength? (taken' ++ rest') (own total least p run) =
        some (taken', rest') :=
      Text.splitLength?_eq_some_iff.2 ⟨rfl, hvariant.length_eq ▸ hlength⟩
    exact ⟨_, ⟨taken', rest', htaken', slices', hslices', rfl⟩, .cons ⟨rfl, hvariant⟩ hvariants⟩

theorem Run.exists_slices?_variant {run : List (Parameter π)} {a b : Text} {slices : List (Slice π)}
    (h : a.Variant b) (hslices : slices? run a = some slices) :
    ∃ slices', slices? run b = some slices' ∧ List.Forall₂ Slice.Variant slices slices' := by
  rw [slices?, ← h.length_eq]
  exact exists_share?_variant h hslices

theorem exists_splitParts?_variant {run : List (Parameter π)} {parts : List (Part π)}
    (ignores : ∀ part ∈ parts, part.Compares .insensitive) {a b : Text} {slices : List (Slice π)}
    (h : a.Variant b) (hsplit : splitParts? run parts a = some slices) :
    ∃ slices', splitParts? run parts b = some slices' ∧
      List.Forall₂ Slice.Variant slices slices' := by
  induction parts generalizing run a b slices with
  | nil =>
    simp only [splitParts?, Option.bind_eq_bind, Option.bind_eq_some_iff, Prod.exists,
      Option.ite_none_right_eq_some, List.isEmpty_iff] at hsplit ⊢
    obtain ⟨taken, rest, hextent, hrest, hslices⟩ := hsplit
    obtain ⟨taken', rest', hextent', htaken, hrests⟩ :=
      Run.exists_extent?_variant (by simp) h hextent
    obtain ⟨slices', hslices', hvariants⟩ := Run.exists_slices?_variant htaken hslices
    exact ⟨slices', ⟨taken', rest', hextent', hrests.eq_nil_iff.1 hrest, hslices'⟩, hvariants⟩
  | cons part parts ih =>
    obtain ⟨hpart, hparts⟩ := List.forall_mem_cons.1 ignores
    cases part with
    | parameter p => exact ih hparts h hsplit
    | literal l =>
      have hl : l.casing = .insensitive := hpart
      simp only [splitParts?, Option.bind_eq_bind, Option.bind_eq_some_iff, Prod.exists] at hsplit
      obtain ⟨taken, rest, hextent, captures, hcaptures, found, after, hfound, more, hmore, he⟩ :=
        hsplit
      cases he
      obtain ⟨taken', rest', hextent', htaken, hrest⟩ :=
        Run.exists_extent?_variant (by simpa using hl) h hextent
      rw [hl] at hfound
      obtain ⟨found', after', hfound', hfounds, hafter⟩ := hrest.exists_stripFront? hfound
      obtain ⟨captures', hcaptures', hvariants⟩ := Run.exists_slices?_variant htaken hcaptures
      obtain ⟨more', hmore', hslices⟩ := ih hparts hafter hmore
      refine ⟨captures' ++ .literal found' :: more', ?_,
        List.rel_append hvariants (.cons hfounds hslices)⟩
      simp only [splitParts?, Option.bind_eq_bind, hextent', hcaptures', hl, hfound', hmore',
        Option.bind_some]

namespace Function

/-- The functions that compare a text or count its characters. -/
def comparisons : List Function := [equals, contains, starts, ends, charset, length]

end Function

/-- A text in the group is compared without its case, or it is empty. -/
def Group.IgnoresCase (group : Group π) : Prop := group.casing 0 = .insensitive ∨ group.text 0 = []

namespace Predicate

variable {group : Group π} {a b : Text}

theorem length_variant (h : a.Variant b) : length group a = length group b := by
  simp only [length, h.length_eq]

theorem equals_variant (ignores : group.IgnoresCase) (h : a.Variant b) :
    equals group a = equals group b := by
  unfold equals
  rcases ignores with hcasing | htext
  · rw [hcasing]
    exact Text.Variant.congr_of_imp _ (fun h => h.sameText_of_sameText) h
  · rw [htext, Bool.eq_iff_iff, Casing.sameText_iff, Casing.sameText_iff]
    simp [h.eq_nil_iff]

theorem starts_variant (ignores : group.IgnoresCase) (h : a.Variant b) :
    starts group a = starts group b := by
  unfold starts
  rcases ignores with hcasing | htext
  · rw [hcasing, h.isSome_stripFront?]
  · rw [htext]
    rfl

theorem ends_variant (ignores : group.IgnoresCase) (h : a.Variant b) :
    ends group a = ends group b := by
  unfold ends Casing.stripBack?
  rw [Option.isSome_map, Option.isSome_map]
  rcases ignores with hcasing | htext
  · rw [hcasing, h.reverse.isSome_stripFront?]
  · rw [htext]
    rfl

theorem contains_variant (ignores : group.IgnoresCase) (h : a.Variant b) :
    contains group a = contains group b := by
  unfold contains
  rcases ignores with hcasing | htext
  · rw [hcasing, h.isSome_find?]
  · have hempty (text : Text) : ((group.casing 0).find? [] text).isSome = true := by
      cases text <;> rfl
    rw [htext, hempty, hempty]

theorem charset_variant (ignores : group.IgnoresCase) (h : a.Variant b) :
    charset group a = charset group b := by
  apply Text.Variant.all_congr _ h
  intro c d hfold
  rcases ignores with hcasing | htext
  · simp only [hcasing, Casing.memberOf, Casing.sameChar, Casing.key, hfold]
  · rw [htext]
    rfl

end Predicate

theorem Function.exists_holds {f : Function} (h : f ∈ comparisons) :
    ∃ holds : Group Meaning → Text → Bool,
      (∀ options group span params,
        f.evaluate options group span params = Call.keepIf (holds group span.text) span params) ∧
      ∀ group a b, group.IgnoresCase → Text.Variant a b → holds group a = holds group b := by
  simp only [comparisons, List.mem_cons, List.not_mem_nil, or_false] at h
  rcases h with rfl | rfl | rfl | rfl | rfl | rfl
  · exact ⟨Predicate.equals, fun _ _ _ _ => rfl, fun _ _ _ => Predicate.equals_variant⟩
  · exact ⟨Predicate.contains, fun _ _ _ _ => rfl, fun _ _ _ => Predicate.contains_variant⟩
  · exact ⟨Predicate.starts, fun _ _ _ _ => rfl, fun _ _ _ => Predicate.starts_variant⟩
  · exact ⟨Predicate.ends, fun _ _ _ _ => rfl, fun _ _ _ => Predicate.ends_variant⟩
  · exact ⟨Predicate.charset, fun _ _ _ _ => rfl, fun _ _ _ => Predicate.charset_variant⟩
  · exact ⟨Predicate.length, fun _ _ _ _ => rfl, fun _ _ _ _ => Predicate.length_variant⟩

/-- Evaluation that gives all case variants the same answer, and does nothing else. -/
def IsBlind (evaluate : Span → Params → Bool × Span × Params) : Prop :=
  ∃ answer : Text → Bool,
    (∀ span params, evaluate span params = (answer span.text, span, params)) ∧
    ∀ a b, Text.Variant a b → answer a = answer b

theorem Tag.isBlind {tag : Tag Meaning} {f : Function} (hf : f ∈ Function.comparisons)
    (hfunction : tag.function = some f) (ignores : ∀ group ∈ tag.groups, group.IgnoresCase) :
    IsBlind (tag.evaluate .check .inCheck) := by
  obtain ⟨holds, hholds, hvariant⟩ := Function.exists_holds hf
  have hgroups : ∀ group ∈ tag.runGroups, group.IgnoresCase := by
    unfold runGroups
    split
    · simpa using .inr rfl
    · exact ignores
  refine ⟨fun text => tag.operators.combinator.verdict none (tag.runGroups.map (holds · text)) !=
    tag.operators.negated, ?_, ?_⟩
  · intro span params
    have hrun := Combinator.run_of_keepIf tag.operators.combinator (hholds .inCheck) none
      tag.runGroups span params
    simp only [evaluate, hfunction, hrun]
  · intro a b h
    have hresults : tag.runGroups.map (holds · a) = tag.runGroups.map (holds · b) :=
      List.map_congr_left fun group hgroup => hvariant group a b (hgroups group hgroup) h
    simp only [hresults]

theorem isBlind_evaluateAll {tags : List (Tag Meaning)}
    (h : ∀ tag ∈ tags, IsBlind (tag.evaluate .check .inCheck)) :
    IsBlind (evaluateAll .check .inCheck tags) := by
  induction tags with
  | nil => exact ⟨fun _ => true, fun _ _ => rfl, fun _ _ _ => rfl⟩
  | cons tag rest ih =>
    obtain ⟨⟨first, hfirst, hvariant⟩, hrest⟩ := List.forall_mem_cons.1 h
    obtain ⟨others, hothers, hvariants⟩ := ih hrest
    refine ⟨fun text => first text && others text, ?_, ?_⟩
    · intro span params
      rw [evaluateAll, hfirst]
      cases hf : first span.text <;> simp [hothers, hf]
    · intro a b hab
      simp only [hvariant a b hab, hvariants a b hab]

/-- What of a span does not depend on the case of its text. -/
structure Span.Variant (a b : Span) : Prop where
  isParameter : a.isParameter = b.isParameter
  name : a.name? = b.name?
  length : a.text.length = b.text.length
  text : Casing.insensitive.sameText a.text b.text = true

namespace Slice

theorem evaluate?_of_isBlind {p : Parameter Meaning}
    (blind : IsBlind (evaluateAll .check .inCheck p.tags)) :
    ∃ answer : Text → Bool,
      (∀ position params text, (capture p text).evaluate? position params =
        if answer text then some ([.parameter p.name text position], p.store text params) else none) ∧
      ∀ a b, Text.Variant a b → answer a = answer b := by
  obtain ⟨answer, hanswer, hvariant⟩ := blind
  refine ⟨answer, ?_, hvariant⟩
  intro position params text
  have htext : (Span.parameter p.name text position).text = text := rfl
  rw [evaluate?, hanswer, htext]
  cases answer text with
  | false => rfl
  | true =>
    rw [if_pos rfl, ← captureSpans_whole]
    rfl

theorem exists_evaluateFrom?_variant {slices slices' : List (Slice Meaning)}
    (h : List.Forall₂ Variant slices slices')
    (blind : ∀ p text, .capture p text ∈ slices →
      IsBlind (evaluateAll .check .inCheck p.tags))
    {position : Nat} {params after : Params} {spans : List Span}
    (hspans : evaluateFrom? position params slices = some (spans, after)) (position' : Nat)
    (params' : Params) :
    ∃ spans' after', evaluateFrom? position' params' slices' = some (spans', after') ∧
      List.Forall₂ Span.Variant spans spans' := by
  induction h generalizing position params spans position' params' with
  | nil =>
    cases hspans
    exact ⟨[], params', rfl, .nil⟩
  | @cons slice slice' slices slices' hslice _ ih =>
    simp only [evaluateFrom?, Option.bind_eq_bind, Option.bind_eq_some_iff, Prod.exists] at hspans
    obtain ⟨first, between, hfirst, more, last, hmore, hpair⟩ := hspans
    cases hpair
    have hrest : ∀ p text, .capture p text ∈ slices →
        IsBlind (evaluateAll .check .inCheck p.tags) :=
      fun p text hp => blind p text (List.mem_cons_of_mem _ hp)
    have hstep : ∃ first' between', slice'.evaluate? position' params' = some (first', between') ∧
        List.Forall₂ Span.Variant first first' := by
      cases slice with
      | literal a =>
        cases slice' with
        | literal b =>
          cases hfirst
          exact ⟨_, _, rfl, .cons ⟨rfl, rfl, hslice.length_eq, hslice.sameText⟩ .nil⟩
        | capture q b => cases hslice
      | capture p a =>
        cases slice' with
        | literal b => cases hslice
        | capture q b =>
          obtain ⟨rfl, hab⟩ := hslice
          obtain ⟨answer, hanswer, hvariant⟩ := evaluate?_of_isBlind (blind p a List.mem_cons_self)
          rw [hanswer] at hfirst
          -- the tags answer alike, and where they accept they have changed nothing
          rw [hanswer, ← hvariant a b hab]
          split at hfirst
          case isTrue hyes =>
            cases hfirst
            rw [if_pos hyes]
            exact ⟨_, _, rfl, .cons ⟨rfl, rfl, hab.length_eq, hab.sameText⟩ .nil⟩
          case isFalse => cases hfirst
    obtain ⟨first', between', hfirst', hspans⟩ := hstep
    obtain ⟨more', last', hmore', hmores⟩ :=
      ih hrest hmore (position' + slice'.text.size) between'
    refine ⟨first' ++ more', last', ?_, List.rel_append hspans hmores⟩
    simp only [evaluateFrom?, Option.bind_eq_bind, hfirst', hmore', Option.bind_some]

end Slice

/-- What a level finds in a text it finds in a case variant, whatever the parameters are. -/
theorem Layer.exists_check_variant {layer : Layer Meaning}
    (ignores : ∀ part ∈ layer.parts, part.Compares .insensitive)
    (blind : ∀ p ∈ layer.parameters, ∀ tag ∈ p.tags, IsBlind (tag.evaluate .check .inCheck))
    {a b : Text} (h : a.Variant b) {params after : Params} {spans : List Span}
    (hcheck : layer.check a params = some (spans, after)) (params' : Params) :
    ∃ spans' after', layer.check b params' = some (spans', after') ∧
      List.Forall₂ Span.Variant spans spans' := by
  obtain ⟨slices, hsplit, hspans⟩ := Option.bind_eq_some_iff.1 hcheck
  obtain ⟨slices', hsplit', hslices⟩ := exists_splitParts?_variant ignores h hsplit
  have hblind : ∀ p text, .capture p text ∈ slices →
      IsBlind (evaluateAll .check .inCheck p.tags) := by
    intro p text hp
    have hpart := Slice.parameter_mem_of_fits (of_splitParts? hsplit).2 hp
    exact isBlind_evaluateAll (blind p (mem_parameters_iff.2 hpart))
  obtain ⟨spans', after', hspans', hvariants⟩ :=
    Slice.exists_evaluateFrom?_variant hslices hblind hspans 0 params'
  refine ⟨spans', after', ?_, hvariants⟩
  rw [check, hsplit']
  exact hspans'

namespace Pattern

theorem ignoresCase_of_called {options : Options} (ignores : options.casing = .insensitive)
    {nested : Clause.Nest π} {tag : Tag π} (called : Clause.Called options nested tag) {f : Function}
    (hf : f ∈ Function.comparisons) (hfunction : tag.function = some f)
    (keeps : tag.operators.casing? ≠ some .sensitive) :
    ∀ group ∈ tag.groups, group.IgnoresCase := by
  obtain ⟨name, modifiers, position, arguments, hcall⟩ := called
  intro group hgroup
  have hcasing : tag.operators.casingIn options.casing = .insensitive := by
    unfold Operators.casingIn
    rw [ignores]
    rcases hown : tag.operators.casing? with _ | _ | _
    · rfl
    · exact absurd hown keeps
    · rfl
  cases hc : group.component? 0 with
  | none =>
    right
    simp [Group.text, Group.text?, hc]
  | some c =>
    left
    obtain ⟨s, hs, hcompares⟩ := Clause.casing_of_call hcall hfunction hgroup hc
    have hslot : s.keepsCase = false := by
      simp only [Function.comparisons, List.mem_cons, List.not_mem_nil, or_false] at hf
      rcases hf with rfl | rfl | rfl | rfl | rfl | rfl <;> cases hs <;> rfl
    rw [hslot, hcasing] at hcompares
    simpa [Group.casing, hc] using hcompares

theorem levelAt_compile (source : Text) (options : Options) :
    (compile source options).levelAt 0 = .compile options
      (.map (fun nested => nested.meaningAt 1) (compileNested options (options.maxDepth - 1)))
      (symbols source) :=
  (Layer.compile_map _ options _ _).symm

theorem isBlind_levelAt {source : Text} {options : Options} (ignores : options.casing = .insensitive)
    (compares : ∀ p ∈ (compile source options).layer.parameters, ∀ tag ∈ p.tags,
      (∃ f ∈ Function.comparisons, tag.function = some f) ∧
        tag.operators.casing? ≠ some .sensitive) :
    ∀ p ∈ ((compile source options).levelAt 0).parameters, ∀ tag ∈ p.tags,
      IsBlind (tag.evaluate .check .inCheck) := by
  intro p hp tag htag
  have hcalled := hp
  rw [levelAt_compile] at hcalled
  have hcall := Layer.exists_call_of_mem_tags hcalled tag htag
  rw [levelAt, Layer.parameters_map] at hp
  obtain ⟨q, hq, rfl⟩ := List.mem_map.1 hp
  obtain ⟨t, ht, rfl⟩ := List.mem_map.1 htag
  obtain ⟨⟨f, hf, hfunction⟩, hkeeps⟩ := compares q hq t ht
  exact Tag.isBlind hf hfunction (ignoresCase_of_called ignores hcall hf hfunction hkeeps)

/-- A pattern that ignores case cannot tell case variants of a text apart, if its tags only compare
or count and none of them asks for the case: it takes both texts or neither, and it divides them into
spans of the same parts with as many characters, the same but for case. -/
theorem check_caseVariants (source : Text) (options : Options)
    (ignores : options.casing = .insensitive)
    (compares : ∀ p ∈ (compile source options).layer.parameters, ∀ tag ∈ p.tags,
      (∃ f ∈ Function.comparisons, tag.function = some f) ∧
        tag.operators.casing? ≠ some .sensitive)
    (a b : Text) (variants : List.Forall₂ (fun c d => Casing.insensitive.sameChar c d = true) a b)
    (params params' : Params) :
    (((compile source options).check a params).isSome = true ↔
      ((compile source options).check b params').isSome = true) ∧
    ∀ spans after spans' after', (compile source options).check a params = some (spans, after) →
      (compile source options).check b params' = some (spans', after') →
        List.Forall₂ Span.Variant spans spans' := by
  have hsame : a.Variant b := .of_forall₂ variants
  have hblind := isBlind_levelAt ignores compares
  have hliterals : ∀ part ∈ ((compile source options).levelAt 0).parts,
      part.Compares .insensitive := by
    rw [levelAt_compile, ← ignores]
    exact Layer.compares_compile _ _ _
  simp only [check_eq, Option.isSome_iff_exists, Prod.exists]
  refine ⟨⟨?_, ?_⟩, ?_⟩
  · rintro ⟨spans, after, h⟩
    obtain ⟨spans', after', h', -⟩ :=
      Layer.exists_check_variant hliterals hblind hsame h params'
    exact ⟨spans', after', h'⟩
  · rintro ⟨spans, after, h⟩
    obtain ⟨spans', after', h', -⟩ :=
      Layer.exists_check_variant hliterals hblind hsame.symm h params
    exact ⟨spans', after', h'⟩
  · intro spans after spans' after' h h'
    obtain ⟨found, final, hfound, hspans⟩ :=
      Layer.exists_check_variant hliterals hblind hsame h params'
    rw [h'] at hfound
    cases hfound
    exact hspans

/-- Lengths, several groups, an inversion, and the two characters that fold to the letter k. -/
def measured : Pattern :=
  compile "%[a{plf=1}{charset=k}]%[b{length=1,4;7}{ends(not)=x}] IS K%[{contains=K}]".toList
    { casing := .insensitive }

/-- The Kelvin sign takes three bytes and its lower case one, so nearly all positions differ. -/
theorem check_caseVariants_measured :
    (∀ p ∈ measured.layer.parameters, ∀ tag ∈ p.tags,
      (∃ f ∈ Function.comparisons, tag.function = some f) ∧
        tag.operators.casing? ≠ some .sensitive) ∧
    List.Forall₂ (fun c d => Casing.insensitive.sameChar c d = true)
      "kÉ k is kAK".toList "\u212Aé \u212A IS \u212Aa\u212A".toList ∧
    ∃ spans after spans' after', measured.check "kÉ k is kAK".toList .empty = some (spans, after) ∧
      measured.check "\u212Aé \u212A IS \u212Aa\u212A".toList .empty = some (spans', after') ∧
      List.Forall₂ Span.Variant spans spans' := by
  have compares : ∀ p ∈ measured.layer.parameters, ∀ tag ∈ p.tags,
      (∃ f ∈ Function.comparisons, tag.function = some f) ∧
        tag.operators.casing? ≠ some .sensitive := by decide +kernel
  have variants : List.Forall₂ (fun c d => Casing.insensitive.sameChar c d = true)
      "kÉ k is kAK".toList "\u212Aé \u212A IS \u212Aa\u212A".toList := by decide +kernel
  have hcheck : (measured.check "kÉ k is kAK".toList .empty).isSome = true := by decide +kernel
  obtain ⟨hsome, hspans⟩ :=
    check_caseVariants _ _ rfl compares _ _ variants Params.empty Params.empty
  obtain ⟨⟨spans, after⟩, h⟩ := Option.isSome_iff_exists.1 hcheck
  obtain ⟨⟨spans', after'⟩, h'⟩ := Option.isSome_iff_exists.1 (hsome.1 hcheck)
  exact ⟨compares, variants, spans, after, spans', after', h, h', hspans _ _ _ _ h h'⟩

end Pattern

end Stencil
