import Stencil.Proofs.Text.Positions
import Stencil.Text.Search

/-! # Occurrences of a piece

A piece is found at the front of a text exactly if the text begins with something the same, and the
search from the front meets the first of all occurrences. -/
namespace Stencil.Casing

theorem sameText_iff {casing : Casing} {a b : Text} :
    casing.sameText a b = true ↔ a.map casing.key = b.map casing.key := by
  simp only [sameText, beq_iff_eq]

theorem sameText_refl (casing : Casing) (a : Text) : casing.sameText a a = true :=
  sameText_iff.2 rfl

theorem sameText_symm {casing : Casing} {a b : Text} (h : casing.sameText a b = true) :
    casing.sameText b a = true :=
  sameText_iff.2 (sameText_iff.1 h).symm

@[simp] theorem sameText_sensitive_iff {a b : Text} :
    sensitive.sameText a b = true ↔ a = b := by
  rw [sameText_iff]
  simp only [key, List.map_id]

theorem sameText_append {casing : Casing} {a b c d : Text} (h : casing.sameText a b = true)
    (k : casing.sameText c d = true) : casing.sameText (a ++ c) (b ++ d) = true := by
  rw [sameText_iff] at h k ⊢
  rw [List.map_append, List.map_append, h, k]

theorem length_of_sameText {casing : Casing} {a b : Text} (h : casing.sameText a b = true) :
    a.length = b.length := by
  have hl := congrArg List.length (sameText_iff.1 h)
  rwa [List.length_map, List.length_map] at hl

/-- The same but for case is what the same is where case is ignored. -/
theorem sameText_insensitive {casing : Casing} {a b : Text} (h : casing.sameText a b = true) :
    insensitive.sameText a b = true := by
  cases casing with
  | insensitive => exact h
  | sensitive =>
    rw [sameText_sensitive_iff] at h
    rw [h]
    exact sameText_refl _ b

theorem stripFront?_eq_some_iff {casing : Casing} {piece text a b : Text} :
    casing.stripFront? piece text = some (a, b) ↔
      text = a ++ b ∧ casing.sameText a piece = true := by
  rw [sameText_iff]
  induction piece generalizing text a with
  | nil =>
    rw [stripFront?]
    cases a <;> simp
  | cons p ps ih =>
    cases text with
    | nil => cases a <;> simp [stripFront?]
    | cons c cs =>
      cases a with
      | nil => simp [stripFront?]
      | cons x xs =>
        simp only [stripFront?, sameChar, beq_iff_eq, List.cons_append, List.cons.injEq,
          List.map_cons]
        constructor
        · intro h
          split at h
          case isTrue hc =>
            obtain ⟨⟨y, z⟩, hy, he⟩ := Option.map_eq_some_iff.1 h
            simp only [Prod.mk.injEq, List.cons.injEq] at he
            obtain ⟨⟨rfl, rfl⟩, rfl⟩ := he
            obtain ⟨hs, hk⟩ := ih.1 hy
            exact ⟨⟨rfl, hs⟩, hc, hk⟩
          case isFalse => cases h
        · rintro ⟨⟨rfl, hs⟩, hc, hk⟩
          rw [if_pos hc, ih.2 ⟨hs, hk⟩]
          rfl

theorem stripBack?_eq_some_iff {casing : Casing} {piece text a b : Text} :
    casing.stripBack? piece text = some (a, b) ↔
      text = a ++ b ∧ casing.sameText b piece = true := by
  have hreverse (x y : Text) : casing.sameText x.reverse y.reverse = casing.sameText x y := by
    rw [Bool.eq_iff_iff, sameText_iff, sameText_iff, List.map_reverse, List.map_reverse,
      List.reverse_inj]
  rw [stripBack?, Option.map_eq_some_iff]
  constructor
  · rintro ⟨⟨x, y⟩, hx, he⟩
    cases he
    obtain ⟨htext, hsame⟩ := stripFront?_eq_some_iff.1 hx
    refine ⟨?_, ?_⟩
    · rw [← List.reverse_append, ← htext, List.reverse_reverse]
    · rw [← hreverse, List.reverse_reverse]
      exact hsame
  · rintro ⟨rfl, hsame⟩
    refine ⟨(b.reverse, a.reverse), stripFront?_eq_some_iff.2 ⟨?_, ?_⟩, ?_⟩
    · exact List.reverse_append
    · rw [hreverse]
      exact hsame
    · simp only [List.reverse_reverse]

theorem sameText_of_find? {casing : Casing} {piece text : Text} {cut : Cut}
    (h : casing.find? piece text = some cut) : casing.sameText cut.kept piece = true := by
  induction text generalizing cut with
  | nil =>
    obtain ⟨⟨a, b⟩, ha, rfl⟩ := Option.map_eq_some_iff.1 h
    exact (stripFront?_eq_some_iff.1 ha).2
  | cons c cs ih =>
    simp only [find?] at h
    split at h
    case h_1 ha =>
      cases h
      exact (stripFront?_eq_some_iff.1 ha).2
    case h_2 =>
      obtain ⟨shorter, hs, he⟩ := Option.map_eq_some_iff.1 h
      have hk := ih hs
      rw [← he]
      exact hk

theorem stripFront?_of_find? {casing : Casing} {piece text : Text} {cut : Cut}
    (h : casing.find? piece text = some cut) :
    casing.stripFront? piece (cut.kept ++ cut.after) = some (cut.kept, cut.after) :=
  stripFront?_eq_some_iff.2 ⟨rfl, sameText_of_find? h⟩

theorem find?_front {casing : Casing} {piece found : Text} (after : Text)
    (h : casing.sameText found piece = true) :
    casing.find? piece (found ++ after) = some ⟨[], found, after⟩ := by
  have hfront : casing.stripFront? piece (found ++ after) = some (found, after) :=
    stripFront?_eq_some_iff.2 ⟨rfl, h⟩
  cases htext : found ++ after with
  | nil =>
    rw [htext] at hfront
    rw [find?, hfront]
    rfl
  | cons c cs =>
    rw [htext] at hfront
    simp only [find?, hfront]

theorem find?_of_occurrence {casing : Casing} {piece found : Text} (before after : Text)
    (h : casing.sameText found piece = true) :
    ∃ cut, casing.find? piece (before ++ (found ++ after)) = some cut ∧
      cut.before.length ≤ before.length := by
  induction before with
  | nil => exact ⟨⟨[], found, after⟩, find?_front after h, Nat.le_refl 0⟩
  | cons c cs ih =>
    obtain ⟨cut, hcut, hle⟩ := ih
    rw [List.cons_append, find?]
    split
    · exact ⟨_, rfl, Nat.zero_le _⟩
    · rw [hcut]
      exact ⟨cut.push c, rfl, Nat.succ_le_succ hle⟩

/-- The piece occurs at this byte position of the text, and nowhere before it. -/
structure FirstAt (casing : Casing) (piece text : Text) (position : Nat) : Prop where
  occurs : ∃ before found after, text = before ++ (found ++ after) ∧
    casing.sameText found piece = true ∧ before.size = position
  first : ∀ before found after, text = before ++ (found ++ after) →
    casing.sameText found piece = true → position ≤ before.size

theorem firstAt_iff_find? {casing : Casing} {piece text : Text} {position : Nat} :
    casing.FirstAt piece text position ↔
      ∃ cut, casing.find? piece text = some cut ∧ cut.before.size = position := by
  constructor
  · rintro ⟨⟨before, found, after, rfl, hsame, rfl⟩, hfirst⟩
    obtain ⟨cut, hcut, hle⟩ := find?_of_occurrence before after hsame
    obtain ⟨hwhole, -⟩ := of_find? hcut
    rw [Cut.whole, List.append_assoc] at hwhole
    have hcutFront : cut.before <+: before ++ (found ++ after) := by
      rw [hwhole]
      exact List.prefix_append _ _
    have hbefore : cut.before <+: before :=
      List.prefix_of_prefix_length_le hcutFront (List.prefix_append _ _) hle
    have hge := hfirst _ _ _ hwhole (sameText_of_find? hcut)
    have hsize := Text.size_le_of_isPrefix hbefore
    exact ⟨cut, hcut, by omega⟩
  · rintro ⟨cut, hcut, rfl⟩
    obtain ⟨hwhole, -⟩ := of_find? hcut
    rw [Cut.whole, List.append_assoc] at hwhole
    refine ⟨⟨_, _, _, hwhole, sameText_of_find? hcut, rfl⟩, ?_⟩
    intro before found after htext hsame
    obtain ⟨other, hother, hle⟩ := find?_of_occurrence before after hsame
    rw [← htext, hcut] at hother
    cases hother
    have hcutFront : cut.before <+: text := by
      rw [hwhole]
      exact List.prefix_append _ _
    have hfront : before <+: text := by
      rw [htext]
      exact List.prefix_append _ _
    exact Text.size_le_of_isPrefix (List.prefix_of_prefix_length_le hcutFront hfront hle)

/-- A value is found in front of its delimiter, whatever stands behind that, exactly if the
delimiter does not begin earlier in the two of them. -/
theorem find?_delimiter_iff (casing : Casing) (value delimiter rest : Text) :
    casing.find? delimiter (value ++ (delimiter ++ rest)) = some ⟨value, delimiter, rest⟩ ↔
      casing.FirstAt delimiter (value ++ delimiter) value.size := by
  have hself := sameText_refl casing delimiter
  constructor
  · intro h
    refine ⟨⟨value, delimiter, [], by rw [List.append_nil], hself, rfl⟩, ?_⟩
    intro before found after htext hsame
    have hfirst := (firstAt_iff_find?.2 ⟨_, h, rfl⟩).first before found (after ++ rest)
    refine hfirst ?_ hsame
    simp only [← List.append_assoc, htext]
  · intro h
    obtain ⟨cut, hcut, hle⟩ := find?_of_occurrence value rest hself
    obtain ⟨hwhole, hlength⟩ := of_find? hcut
    have hbound : value ++ delimiter <+: cut.whole := by
      rw [← hwhole, ← List.append_assoc]
      exact List.prefix_append _ _
    have hlength' : (cut.before ++ cut.kept).length ≤ (value ++ delimiter).length := by
      simp only [List.length_append]
      omega
    -- what is found ends no later than the delimiter, so it lies within the value and the delimiter
    obtain ⟨after, hafter⟩ : cut.before ++ cut.kept <+: value ++ delimiter :=
      List.prefix_of_prefix_length_le (List.prefix_append _ _) hbound hlength'
    rw [List.append_assoc] at hafter
    have hsize := h.first _ _ _ hafter.symm (sameText_of_find? hcut)
    have hcutFront : cut.before <+: value ++ delimiter := by
      rw [← hafter]
      exact List.prefix_append _ _
    have hbefore : cut.before <+: value :=
      List.prefix_of_prefix_length_le hcutFront (List.prefix_append _ _) hle
    obtain ⟨before, kept, after⟩ := cut
    obtain rfl : before = value := Text.eq_of_isPrefix_of_size_le hbefore hsize
    rw [Cut.whole, List.append_assoc, List.append_cancel_left_eq] at hwhole
    obtain ⟨rfl, rfl⟩ := List.append_inj hwhole hlength.symm
    exact hcut

theorem findFrom?_append (casing : Casing) (a b piece : Text) :
    casing.findFrom? (a ++ b) piece a.size =
      (casing.find? piece b).map fun cut => cut.range.shift a.size := by
  simp only [findFrom?, Text.splitAt?_append, Option.bind_eq_bind, Option.bind_some]
  cases casing.find? piece b <;> rfl

end Stencil.Casing
