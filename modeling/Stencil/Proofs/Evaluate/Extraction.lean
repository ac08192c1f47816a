import Mathlib.Data.List.TakeWhile
import Stencil.Proofs.Evaluate.Ranges

/-! # What is extracted around an element

An element is found where the flags demand it or it is not there. Around it a text is kept up to the
nearest delimiters, and no further. -/
namespace Stencil

namespace DelimitFlags

/-- The middle of the cut is the element, at the place that the flags demand: of several demands the
first one counts. -/
def Shows (flags : DelimitFlags) (casing : Casing) (element : Text) (cut : Cut) : Prop :=
  casing.sameText cut.kept element = true ∧
    if flags.equals then cut.before = [] ∧ cut.after = []
    else if flags.starts then cut.before = []
    else if flags.ends then cut.after = []
    else True

/-- The first cut of the text that shows the element. -/
structure ShowsFirst (flags : DelimitFlags) (casing : Casing) (element text : Text) (cut : Cut) :
    Prop where
  whole : cut.whole = text
  shows : flags.Shows casing element cut
  first : ∀ other : Cut, other.whole = text → flags.Shows casing element other →
    cut.before.size ≤ other.before.size

variable {flags : DelimitFlags} {casing : Casing} {element text : Text} {cut : Cut}

theorem showsFirst_of_occurrence? (h : flags.occurrence? casing element text = some cut) :
    flags.ShowsFirst casing element text cut := by
  have hwhole := whole_of_occurrence? h
  unfold occurrence? at h
  by_cases hequals : flags.equals = true
  · simp only [hequals, ↓reduceIte, Option.ite_none_right_eq_some, Option.some.injEq] at h
    obtain ⟨hsame, rfl⟩ := h
    exact ⟨hwhole, ⟨hsame, by simp [hequals]⟩, fun _ _ _ => Nat.zero_le _⟩
  by_cases hstarts : flags.starts = true
  · simp only [hequals, hstarts, Bool.false_eq_true, ↓reduceIte] at h
    obtain ⟨⟨found, rest⟩, hfound, rfl⟩ := Option.map_eq_some_iff.1 h
    have hsame := (Casing.stripFront?_eq_some_iff.1 hfound).2
    exact ⟨hwhole, ⟨hsame, by simp [hequals, hstarts]⟩, fun _ _ _ => Nat.zero_le _⟩
  by_cases hends : flags.ends = true
  · simp only [hequals, hstarts, hends, Bool.false_eq_true, ↓reduceIte] at h
    obtain ⟨⟨rest, found⟩, hfound, rfl⟩ := Option.map_eq_some_iff.1 h
    have hsame := (Casing.stripBack?_eq_some_iff.1 hfound).2
    refine ⟨hwhole, ⟨hsame, by simp [hequals, hstarts, hends]⟩, ?_⟩
    -- another cut at the end has a middle of the same length
    rintro ⟨before, kept, after⟩ hother ⟨hkept, hafter⟩
    simp only [hequals, hstarts, hends, Bool.false_eq_true, ↓reduceIte] at hafter
    subst hafter
    simp only [Cut.whole, List.append_nil] at hother hwhole
    have hlength := (Casing.length_of_sameText hkept).trans (Casing.length_of_sameText hsame).symm
    obtain ⟨rfl, -⟩ := List.append_inj' (hother.trans hwhole.symm) hlength
    exact Nat.le_refl _
  · simp only [hequals, hstarts, hends, Bool.false_eq_true, ↓reduceIte] at h
    have hfirst := (Casing.firstAt_iff_find?.2 ⟨cut, h, rfl⟩).first
    refine ⟨hwhole, ⟨Casing.sameText_of_find? h, by simp [hequals, hstarts, hends]⟩, ?_⟩
    rintro ⟨before, kept, after⟩ rfl ⟨hkept, -⟩
    exact hfirst before kept after (List.append_assoc _ _ _) hkept

theorem occurrence?_ne_none (whole : cut.whole = text) (h : flags.Shows casing element cut) :
    flags.occurrence? casing element text ≠ none := by
  obtain ⟨before, kept, after⟩ := cut
  obtain ⟨hsame, hplace⟩ := h
  subst whole
  unfold occurrence?
  by_cases hequals : flags.equals = true
  · simp only [hequals, ↓reduceIte] at hplace ⊢
    obtain ⟨rfl, rfl⟩ := hplace
    simp only [Cut.whole, List.nil_append, List.append_nil, hsame, ↓reduceIte]
    exact Option.some_ne_none _
  by_cases hstarts : flags.starts = true
  · simp only [hequals, hstarts, Bool.false_eq_true, ↓reduceIte] at hplace ⊢
    subst hplace
    rw [Cut.whole, List.nil_append, Casing.stripFront?_eq_some_iff.2 ⟨rfl, hsame⟩]
    exact Option.some_ne_none _
  by_cases hends : flags.ends = true
  · simp only [hequals, hstarts, hends, Bool.false_eq_true, ↓reduceIte] at hplace ⊢
    subst hplace
    rw [Cut.whole, List.append_nil, Casing.stripBack?_eq_some_iff.2 ⟨rfl, hsame⟩]
    exact Option.some_ne_none _
  · simp only [hequals, hstarts, hends, Bool.false_eq_true, ↓reduceIte]
    obtain ⟨found, hfound, -⟩ := Casing.find?_of_occurrence before after hsame
    rw [Cut.whole, List.append_assoc, hfound]
    exact Option.some_ne_none _

end DelimitFlags

/-- From what was found, the kept range reaches on both sides to the nearest delimiter or to the end of
the text, and ends in front of it. -/
structure Text.Widened (casing : Casing) (left right text : Text) (found kept : ByteRange) : Prop where
  start_le : kept.start ≤ found.start
  found_le : found.start ≤ found.stop
  le_stop : found.stop ≤ kept.stop
  left_edge : kept.start = 0 ∨ ∃ before c after,
    text = before ++ c :: after ∧ casing.memberOf left c = true ∧ kept.start = size before + c.utf8Size
  left_free : ∃ piece, text.slice? ⟨kept.start, found.start⟩ = some piece ∧
    ∀ c ∈ piece, casing.memberOf left c = false
  right_edge : kept.stop = text.size ∨ ∃ before c after,
    text = before ++ c :: after ∧ casing.memberOf right c = true ∧ kept.stop = size before
  right_free : ∃ piece, text.slice? ⟨found.stop, kept.stop⟩ = some piece ∧
    ∀ c ∈ piece, casing.memberOf right c = false

theorem Text.dropWhile_eq (p : Char → Bool) (text : Text) :
    text.dropWhile p = [] ∨ ∃ c rest, text.dropWhile p = c :: rest ∧ p c = false := by
  have hhead := List.head?_dropWhile_not p text
  cases hdrop : text.dropWhile p with
  | nil => exact .inl rfl
  | cons c rest =>
    rw [hdrop] at hhead
    exact .inr ⟨c, rest, rfl, hhead⟩

theorem Text.trimEnd_eq (p : Char → Bool) (text : Text) :
    text.trimEnd p = [] ∨ ∃ before c, text.trimEnd p = before ++ [c] ∧ p c = false := by
  rw [trimEnd]
  rcases dropWhile_eq p text.reverse with hdrop | ⟨c, rest, hdrop, hc⟩
  · exact .inl (List.reverse_eq_nil_iff.2 hdrop)
  · rw [hdrop]
    exact .inr ⟨rest.reverse, c, List.reverse_cons, hc⟩

/-- Between two delimiters or ends of the text nothing but what was found may hold delimiters. -/
theorem Text.widened_pieces {casing : Casing} {left right front near far rear : Text} (kept : Text)
    (hfront : front = [] ∨ ∃ before c, front = before ++ [c] ∧ casing.memberOf left c = true)
    (hnear : ∀ c ∈ near, casing.memberOf left c = false)
    (hfar : ∀ c ∈ far, casing.memberOf right c = false)
    (hrear : rear = [] ∨ ∃ c after, rear = c :: after ∧ casing.memberOf right c = true) :
    Widened casing left right (front ++ (near ++ (kept ++ (far ++ rear))))
      (Cut.range ⟨front ++ near, kept, far ++ rear⟩) (Cut.range ⟨front, near ++ kept ++ far, rear⟩) := by
  have hleft := slice?_append front near (kept ++ (far ++ rear))
  have hright := slice?_append (front ++ near ++ kept) far rear
  simp only [size_append, List.append_assoc, Nat.add_assoc] at hright
  constructor <;> simp only [Cut.range, size_append, Nat.add_assoc]
  case left_free => exact ⟨near, hleft, hnear⟩
  case right_free => exact ⟨far, hright, hfar⟩
  case left_edge =>
    rcases hfront with rfl | ⟨before, c, rfl, hc⟩
    · exact .inl rfl
    · refine .inr ⟨before, c, near ++ (kept ++ (far ++ rear)), ?_, hc, ?_⟩
      · rw [List.append_assoc, List.singleton_append]
      · simp
  case right_edge =>
    rcases hrear with rfl | ⟨c, after, rfl, hc⟩
    · exact .inl rfl
    · refine .inr ⟨front ++ (near ++ (kept ++ far)), c, after, ?_, hc, ?_⟩
      · simp only [List.append_assoc]
      · simp only [size_append]
  all_goals omega

theorem Text.widened_cut {casing : Casing} {left right near far : Text} {cut kept : Cut}
    (before : cut.before = kept.before ++ near) (after : cut.after = far ++ kept.after)
    (middle : kept.kept = near ++ cut.kept ++ far)
    (hfront : kept.before = [] ∨ ∃ before c, kept.before = before ++ [c] ∧ casing.memberOf left c = true)
    (hnear : ∀ c ∈ near, casing.memberOf left c = false)
    (hfar : ∀ c ∈ far, casing.memberOf right c = false)
    (hrear : kept.after = [] ∨ ∃ c after, kept.after = c :: after ∧ casing.memberOf right c = true) :
    Widened casing left right cut.whole cut.range kept.range := by
  have hpieces := widened_pieces cut.kept hfront hnear hfar hrear
  have hwhole : kept.before ++ (near ++ (cut.kept ++ (far ++ kept.after))) = cut.whole := by
    rw [Cut.whole, before, after]
    simp only [List.append_assoc]
  rw [hwhole, ← before, ← after, ← middle] at hpieces
  exact hpieces

theorem DelimitFlags.exists_widen_pieces (casing : Casing) (left right : Text) (cut : Cut) :
    let kept := widen casing left right cut
    ∃ near far, cut.before = kept.before ++ near ∧ cut.after = far ++ kept.after ∧
      kept.kept = near ++ cut.kept ++ far ∧
      (∀ c ∈ near, casing.memberOf left c = false) ∧ (∀ c ∈ far, casing.memberOf right c = false) ∧
      (kept.before = [] ∨ ∃ before c, kept.before = before ++ [c] ∧ casing.memberOf left c = true) ∧
      (kept.after = [] ∨ ∃ c after, kept.after = c :: after ∧ casing.memberOf right c = true) := by
  have hfront := Text.trimEnd_eq (fun c => !casing.memberOf left c) cut.before
  have hrear := Text.dropWhile_eq (fun c => !casing.memberOf right c) cut.after
  simp only [Bool.not_eq_false'] at hfront hrear
  refine ⟨(cut.before.reverse.takeWhile fun c => !casing.memberOf left c).reverse,
    cut.after.takeWhile fun c => !casing.memberOf right c,
    (Text.trimEnd_append (fun c => !casing.memberOf left c) cut.before).symm,
    List.takeWhile_append_dropWhile.symm, rfl, ?_, ?_, hfront, hrear⟩
  · intro c hc
    simpa using List.mem_takeWhile_imp (List.mem_reverse.1 hc)
  · intro c hc
    simpa using List.mem_takeWhile_imp hc

theorem DelimitFlags.widened_widen (casing : Casing) (left right : Text) (cut : Cut) :
    Text.Widened casing left right cut.whole cut.range (widen casing left right cut).range := by
  obtain ⟨near, far, hbefore, hafter, hkept, hnear, hfar, hfront, hrear⟩ :=
    exists_widen_pieces casing left right cut
  exact Text.widened_cut hbefore hafter hkept hfront hnear hfar hrear

namespace DelimitFlags

/-- An element is extracted exactly if it stands where the flags demand it. What is kept is the first
such place alone, if that is asked for or no delimiters are given, and otherwise all up to the nearest
delimiters on both sides. No slice of the text that is looked at on the way is out of its bounds. -/
theorem extract?_extent (flags : DelimitFlags) (casing : Casing) (element left right text : Text) :
    let mode := if flags.nocase then .insensitive else casing
    let kept? := (flags.extract? casing element left right text).map Cut.range
    flags.extractRange? casing element left right text = .ok kept? ∧
    (kept? = none ↔ ∀ cut : Cut, cut.whole = text → ¬ flags.Shows mode element cut) ∧
    ∀ kept, kept? = some kept → ∃ cut, flags.ShowsFirst mode element text cut ∧
      if flags.only ∨ (left = [] ∧ right = []) then kept = cut.range
      else Text.Widened mode left right text cut.range kept := by
  intro mode kept?
  refine ⟨extractRange?_eq flags casing element left right text, ?_, ?_⟩
  · rw [Option.map_eq_none_iff, extract?, Option.map_eq_none_iff]
    constructor
    · intro hnone cut hwhole hshows
      exact occurrence?_ne_none hwhole hshows hnone
    · intro habsent
      cases hoccurs : flags.occurrence? mode element text with
      | none => rfl
      | some cut =>
        have hfirst := showsFirst_of_occurrence? hoccurs
        exact absurd hfirst.shows (habsent cut hfirst.whole)
  · intro kept hkept
    obtain ⟨extracted, hextract, rfl⟩ := Option.map_eq_some_iff.1 hkept
    obtain ⟨cut, hoccurs, rfl⟩ := Option.map_eq_some_iff.1 hextract
    have hfirst := showsFirst_of_occurrence? hoccurs
    refine ⟨cut, hfirst, ?_⟩
    have hcondition : (flags.only || (left.isEmpty && right.isEmpty)) = true ↔
        flags.only = true ∨ left = [] ∧ right = [] := by
      simp only [Bool.or_eq_true, Bool.and_eq_true, List.isEmpty_iff]
    simp only [hcondition]
    split
    · rfl
    · rw [← hfirst.whole]
      exact widened_widen mode left right cut

end DelimitFlags

end Stencil
