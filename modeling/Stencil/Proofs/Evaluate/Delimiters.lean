import Stencil.Proofs.Compile.Tags
import Stencil.Proofs.Evaluate.Extraction
import Stencil.Proofs.Nesting

/-! # Which characters delimit

The sets of delimiters of a compiled call keep their case, yet whether a character delimits is decided in
the way in which the element was looked for. So the kept range ends at the nearest characters of the sets
exactly if what it ends at is in the sets as it stands (`Pattern.delimit_widens`); where the case was
ignored it may end at the other case of one of them. -/
namespace Stencil

theorem Casing.memberOf_sensitive_iff {set : Text} {c : Char} :
    Casing.sensitive.memberOf set c = true ↔ c ∈ set := by
  rw [memberOf, List.any_eq_true]
  constructor
  · rintro ⟨d, hd, hsame⟩
    have heq : d = c := eq_of_beq hsame
    exact heq ▸ hd
  · intro hc
    exact ⟨c, hc, beq_self_eq_true _⟩

theorem Casing.memberOf_of_sensitive (casing : Casing) {set : Text} {c : Char}
    (h : Casing.sensitive.memberOf set c = true) : casing.memberOf set c = true :=
  List.any_eq_true.2 ⟨c, memberOf_sensitive_iff.1 h, beq_self_eq_true _⟩

/-- What stands on both sides of the kept text is in the sets, or nothing stands there. -/
def Cut.Literal (left right : Text) (kept : Cut) : Prop :=
  (∀ c ∈ kept.before.getLast?, c ∈ left) ∧ ∀ c ∈ kept.after.head?, c ∈ right

namespace DelimitFlags

variable {casing : Casing} {left right : Text} {cut kept : Cut}

theorem literal_of_widened {found : ByteRange}
    (h : Text.Widened .sensitive left right kept.whole found kept.range) : kept.Literal left right := by
  have hwhole : kept.whole = kept.before ++ kept.kept ++ kept.after := rfl
  constructor
  · intro c hc
    obtain ⟨front, hfront⟩ := List.getLast?_eq_some_iff.1 hc
    have hpos := c.utf8Size_pos
    rcases h.left_edge with hzero | ⟨before, d, after, htext, hd, hstart⟩
    · simp only [Cut.range, hfront, Text.size_append, Text.size_cons] at hzero
      omega
    · -- both fronts of the text end where the kept range begins
      have hsize : kept.before.size = Text.size (before ++ [d]) := by
        rw [Text.size_append, Text.size_cons]
        exact hstart
      have hsame : kept.before ++ (kept.kept ++ kept.after) = before ++ [d] ++ after := by
        rw [← List.append_assoc, ← hwhole, htext, List.append_assoc]
        rfl
      obtain ⟨hbefore, -⟩ := Text.eq_of_append_eq hsame hsize
      rw [hbefore, List.getLast?_concat] at hc
      cases hc
      exact Casing.memberOf_sensitive_iff.1 hd
  · intro c hc
    obtain ⟨rest, hrest⟩ := List.head?_eq_some_iff.1 hc
    have hpos := c.utf8Size_pos
    have hstop : kept.range.stop = Text.size (kept.before ++ kept.kept) := (Text.size_append _ _).symm
    rcases h.right_edge with hend | ⟨before, d, after, htext, hd, hedge⟩
    · rw [hstop, hwhole, hrest] at hend
      simp only [Text.size_append, Text.size_cons] at hend
      omega
    · have hsame : kept.before ++ kept.kept ++ kept.after = before ++ d :: after := by
        rw [← hwhole, htext]
      obtain ⟨-, hafter⟩ := Text.eq_of_append_eq hsame (hstop.symm.trans hedge)
      rw [hafter] at hc
      cases hc
      exact Casing.memberOf_sensitive_iff.1 hd

theorem widened_of_literal (h : (widen casing left right cut).Literal left right) :
    Text.Widened .sensitive left right cut.whole cut.range (widen casing left right cut).range := by
  obtain ⟨near, far, hbefore, hafter, hkept, hnear, hfar, hfront, hrear⟩ :=
    exists_widen_pieces casing left right cut
  have hfree {set piece : Text} (hpiece : ∀ c ∈ piece, casing.memberOf set c = false) :
      ∀ c ∈ piece, Casing.sensitive.memberOf set c = false := by
    intro c hc
    refine Bool.eq_false_iff.2 fun hmember => ?_
    exact Bool.false_ne_true ((hpiece c hc).symm.trans (casing.memberOf_of_sensitive hmember))
  refine Text.widened_cut hbefore hafter hkept ?_ (hfree hnear) (hfree hfar) ?_
  · rcases hfront with hnil | ⟨before, c, hconcat, -⟩
    · exact .inl hnil
    · have hc := h.1 c (by rw [hconcat, List.getLast?_concat]; rfl)
      exact .inr ⟨before, c, hconcat, Casing.memberOf_sensitive_iff.2 hc⟩
  · rcases hrear with hnil | ⟨c, after, hcons, -⟩
    · exact .inl hnil
    · have hc := h.2 c (by rw [hcons]; rfl)
      exact .inr ⟨c, after, hcons, Casing.memberOf_sensitive_iff.2 hc⟩

theorem widened_sensitive_iff :
    Text.Widened .sensitive left right cut.whole cut.range (widen casing left right cut).range ↔
      (widen casing left right cut).Literal left right := by
  constructor
  · intro h
    rw [← whole_widen casing left right cut] at h
    exact literal_of_widened h
  · exact widened_of_literal

end DelimitFlags

namespace Pattern

theorem casing_of_mem_nestedAt {source : Text} {options : Options} {depth : Nat} {q : Pattern}
    (hq : q ∈ nestedAt depth (compile source options)) {p : Parameter Pattern}
    (hp : p ∈ q.layer.parameters) {tag : Tag Pattern} (htag : tag ∈ p.tags) {f : Function}
    (known : tag.function = some f) {group : Group Pattern} (hgroup : group ∈ tag.runGroups) {slot : Nat}
    {c : Component Pattern} (hc : group.component? slot = some c) :
    ∃ s, f.slots[slot]? = some s ∧
      c.casing = if s.keepsCase then .sensitive else tag.operators.casingIn options.casing := by
  have hwhole : q ∈ nestedAt depth
      (compileNested options (options.maxDepth - 1 + 1) 0 (symbols source)).value := hq
  obtain ⟨rest, position, raw, -, rfl⟩ := exists_of_mem_nestedAt options hwhole
  cases rest with
  | zero =>
    have hnone : (literal (meant raw) options).layer.parameters = [] := by
      cases meant raw <;> rfl
    rw [compileNested, hnone] at hp
    cases hp
  | succ rest =>
    obtain ⟨name, modifiers, position, arguments, hcall⟩ := Layer.exists_call_of_mem_tags hp tag htag
    have hmem : group ∈ tag.groups := by
      rw [Tag.runGroups] at hgroup
      split at hgroup
      · rw [List.mem_singleton.1 hgroup] at hc
        cases hc
      · exact hgroup
    exact Clause.casing_of_call hcall known hmem hc

/-- A compiled call that extracts. Its sets of delimiters keep their case, and its element has the case mode
of the tag. When it keeps a text that reaches to delimiters, it has found the element where the flags demand it,
and the range reaches to the nearest characters that are in the sets in the mode of the element. These are
the nearest characters of the sets themselves exactly if they are in the sets as they stand. -/
theorem delimit_widens {source : Text} {options : Options} {depth : Nat} {q : Pattern}
    (hq : q ∈ nestedAt depth (compile source options)) {p : Parameter Pattern}
    (hp : p ∈ q.layer.parameters) {tag : Tag Pattern} (htag : tag ∈ p.tags)
    (known : tag.function = some .delimit) {group : Group Pattern} (hgroup : group ∈ tag.runGroups)
    (level : Nat) (formatOptions : FormatOptions) (span : Span) (params : Params) :
    let call := group.interpretAt level
    let flags := DelimitFlags.ofText (call.text 1)
    let mode := if flags.nocase then .insensitive else call.casing 0
    (call.casing 2 = .sensitive ∧ call.casing 3 = .sensitive) ∧
    (call.isPresent 0 = true → call.casing 0 = tag.operators.casingIn options.casing) ∧
    ∀ result after, Function.delimit.evaluate formatOptions call span params = (some result, after) →
      ¬ (flags.only = true ∨ call.text 2 = [] ∧ call.text 3 = []) →
      ∃ cut kept : Cut, flags.ShowsFirst mode (call.text 0) span.text cut ∧ kept.whole = span.text ∧
        result = span.narrow kept ∧
        Text.Widened mode (call.text 2) (call.text 3) span.text cut.range kept.range ∧
        (Text.Widened .sensitive (call.text 2) (call.text 3) span.text cut.range kept.range ↔
          kept.Literal (call.text 2) (call.text 3)) := by
  intro call flags mode
  have hcasing (slot : Nat) : call.casing slot = group.casing slot := Group.casing_map _ group slot
  -- the words of the call have no say in the slots of the two sets
  have hkept {slot : Nat} (hslot : Function.delimit.slots[slot]? = some .keptText) :
      call.casing slot = .sensitive := by
    rw [hcasing, Group.casing]
    cases hc : group.component? slot with
    | none => rfl
    | some c =>
      obtain ⟨s, hs, hmode⟩ := casing_of_mem_nestedAt hq hp htag known hgroup hc
      rw [hslot] at hs
      cases hs
      exact hmode
  refine ⟨⟨hkept rfl, hkept rfl⟩, ?_, ?_⟩
  · intro hpresent
    obtain ⟨_, hmapped⟩ := Option.isSome_iff_exists.1 hpresent
    obtain ⟨c, hc, -⟩ := Option.map_eq_some_iff.1 ((Group.component?_map _ group 0).symm.trans hmapped)
    obtain ⟨s, hs, hmode⟩ := casing_of_mem_nestedAt hq hp htag known hgroup hc
    cases hs
    rw [hcasing, Group.casing, hc]
    exact hmode
  · intro result after hresult hdelimited
    have hextract : (flags.extract? (call.casing 0) (call.text 0) (call.text 2) (call.text 3)
        span.text).map span.narrow = some result := congrArg Prod.fst hresult
    obtain ⟨kept, hkept, rfl⟩ := Option.map_eq_some_iff.1 hextract
    have hwhole := DelimitFlags.whole_of_extract? hkept
    obtain ⟨cut, hoccurs, rfl⟩ := Option.map_eq_some_iff.1 hkept
    have hfirst := DelimitFlags.showsFirst_of_occurrence? hoccurs
    have hcondition : ¬ (flags.only || ((call.text 2).isEmpty && (call.text 3).isEmpty)) = true := by
      simpa only [Bool.or_eq_true, Bool.and_eq_true, List.isEmpty_iff] using hdelimited
    rw [if_neg hcondition] at hwhole ⊢
    refine ⟨cut, _, hfirst, hwhole, rfl, ?_, ?_⟩
    · rw [← hfirst.whole]
      exact DelimitFlags.widened_widen mode _ _ cut
    · rw [← hfirst.whole]
      exact DelimitFlags.widened_sensitive_iff

/-- The delimiters are small letters, and there are capital ones in the text. -/
def capitals : Text := "%[v{delimit(nocase)=B,,x,y}]".toList

def amongCapitals : Span := .parameter "v".toList "aXbYc".toList 0

theorem exists_delimit_capitals : ∃ p ∈ (compile capitals {}).layer.parameters, ∃ tag ∈ p.tags,
    tag.function = some .delimit ∧ ∃ group ∈ tag.runGroups,
      (group.interpretAt 0).text 1 = [] ∧ (group.interpretAt 0).text 2 = ['x'] ∧
      (group.interpretAt 0).text 3 = ['y'] ∧
      (Function.delimit.evaluate .inCheck (group.interpretAt 0) amongCapitals .empty).1 =
        some (amongCapitals.narrow ⟨['a', 'X'], ['b'], ['Y', 'c']⟩) := by
  decide +kernel

theorem delimit_widens_capitals : ∃ p ∈ (compile capitals {}).layer.parameters, ∃ tag ∈ p.tags,
    tag.function = some .delimit ∧ ∃ group ∈ tag.runGroups,
      (group.interpretAt 0).casing 2 = .sensitive ∧
      ∃ cut kept : Cut, kept.whole = "aXbYc".toList ∧
        amongCapitals.narrow ⟨['a', 'X'], ['b'], ['Y', 'c']⟩ = amongCapitals.narrow kept ∧
        (Text.Widened .sensitive ['x'] ['y'] "aXbYc".toList cut.range kept.range ↔
          kept.Literal ['x'] ['y']) := by
  obtain ⟨p, hp, tag, htag, known, group, hgroup, hflags, hleft, hright, heval⟩ :=
    exists_delimit_capitals
  have hq : compile capitals {} ∈ nestedAt 0 (compile capitals {}) := List.mem_singleton_self _
  obtain ⟨⟨hcasing, -⟩, -, hnarrows⟩ := delimit_widens hq hp htag
    known hgroup 0 .inCheck amongCapitals .empty
  have hdelimited : ¬ ((DelimitFlags.ofText ((group.interpretAt 0).text 1)).only = true ∨
      (group.interpretAt 0).text 2 = [] ∧ (group.interpretAt 0).text 3 = []) := by
    rw [hflags, hleft, hright]
    decide
  obtain ⟨cut, kept, -, hwhole, hresult, -, hliteral⟩ :=
    hnarrows _ _ (Prod.ext heval rfl) hdelimited
  rw [hleft, hright] at hliteral
  exact ⟨p, hp, tag, htag, known, group, hgroup, hcasing, cut, kept, hwhole, hresult, hliteral⟩

/-- Small letters delimit where only capital ones stand: the text kept begins behind one of these. -/
theorem delimit_folds_sets :
    (¬ ∀ (source : Text) (options : Options), ∀ p ∈ (compile source options).layer.parameters,
      ∀ tag ∈ p.tags, tag.function = some .delimit → ∀ group ∈ tag.runGroups, ∀ (span : Span) (kept : Cut),
        (Function.delimit.evaluate .inCheck (group.interpretAt 0) span .empty).1 =
          some (span.narrow kept) → kept.whole = span.text →
        ¬ ((DelimitFlags.ofText ((group.interpretAt 0).text 1)).only = true ∨
          (group.interpretAt 0).text 2 = [] ∧ (group.interpretAt 0).text 3 = []) →
        ∃ found, Text.Widened .sensitive ((group.interpretAt 0).text 2) ((group.interpretAt 0).text 3)
          span.text found kept.range) ∧
    ((compile capitals {}).check "aXbYc".toList .empty).map (fun (spans, _) => spans.map (·.text)) =
      some ["aX".toList, "b".toList, "Yc".toList] := by
  constructor
  · intro literal
    obtain ⟨p, hp, tag, htag, known, group, hgroup, hflags, hleft, hright, heval⟩ :=
      exists_delimit_capitals
    have hclaim := literal capitals {} p hp tag htag known group hgroup amongCapitals
      ⟨['a', 'X'], ['b'], ['Y', 'c']⟩ heval rfl
    rw [hflags, hleft, hright] at hclaim
    obtain ⟨found, hwidened⟩ := hclaim (by decide)
    rcases hwidened.left_edge with hzero | ⟨before, c, after, htext, hc, -⟩
    · cases hzero
    · -- the text has no small x
      have hmem : c ∈ "aXbYc".toList := by
        have hspan : amongCapitals.text = "aXbYc".toList := rfl
        rw [← hspan, htext]
        exact List.mem_append_right _ List.mem_cons_self
      have hset := Casing.memberOf_sensitive_iff.1 hc
      rw [List.mem_singleton.1 hset] at hmem
      exact absurd hmem (by decide)
  · decide +kernel

end Pattern

end Stencil
