import Mathlib.Data.List.Chain
import Stencil.Escape.Hex

/-! # Hexadecimal escapes are read back

An encoded text is plain text and runs of digits in turn. A run has no number sign but those at its
ends, so reading finds the runs where they were written, and each reads as the characters that it
hides (`Text.unescapeHex_escapeHex`). -/
namespace Stencil

namespace Hex

def digits : Text := "0123456789ABCDEF".toList

theorem digit_mem : ∀ n < 16, digit n ∈ digits := by decide

theorem digitValue?_digit : ∀ n < 16, digitValue? (digit n) = some n := by decide

theorem ne_mark_of_mem_digits {c : Char} (h : c ∈ digits) : c ≠ '#' := by
  rintro rfl
  revert h
  decide

theorem toNat_lt_of_needsHex {c : Char} (h : needsHex c = true) : c.toNat < 0x80 := by
  simp only [needsHex, Bool.or_eq_true, decide_eq_true_eq] at h
  rcases h with (rfl | h) | h
  · decide
  · omega
  · omega

theorem bytes?_pair {c : Char} (h : c.toNat < 0x80) (rest : Text) :
    bytes? (pair c ++ rest) = (c.toNat :: ·) <$> bytes? rest := by
  have hhigh := digitValue?_digit (c.toNat / 16) (by omega)
  have hlow := digitValue?_digit (c.toNat % 16) (by omega)
  have hbyte : 16 * (c.toNat / 16) + c.toNat % 16 = c.toNat := by omega
  simp [pair, bytes?, hhigh, hlow, hbyte]

theorem decode?_cons {c : Char} (h : c.toNat < 0x80) (bytes : List Nat) :
    Utf8.decode? (c.toNat :: bytes) = (c :: ·) <$> Utf8.decode? bytes := by
  have hlead : Utf8.lead? c.toNat = some (c.toNat, 0) := by
    unfold Utf8.lead?
    rw [if_pos h]
  have hsize : c.utf8Size = 1 := Char.utf8Size_eq_one_iff.2 (by
    simp only [UInt32.le_iff_toNat_le]
    exact Nat.le_of_lt_succ h)
  have hvalid : c.toNat.isValidChar := c.valid
  simp [Utf8.decode?, Utf8.decodeFrom?, Utf8.step?, hlead, Utf8.Unfinished.char?, hsize, hvalid]

theorem decodeRun?_of_ne_nil {run : Text} (h : run ≠ []) :
    decodeRun? run = (bytes? run).bind Utf8.decode? := by
  cases run with
  | nil => exact absurd rfl h
  | cons c cs => rfl

theorem decodeRun?_pair {c : Char} (h : c.toNat < 0x80) {run hidden : Text}
    (hrun : (bytes? run).bind Utf8.decode? = some hidden) :
    decodeRun? (pair c ++ run) = some (c :: hidden) := by
  obtain ⟨bytes, hbytes, hdecode⟩ := Option.bind_eq_some_iff.1 hrun
  rw [decodeRun?_of_ne_nil (by simp [pair]), bytes?_pair h, hbytes]
  simp [decode?_cons h, hdecode]

theorem digits_of_mem_pair {c : Char} (h : c.toNat < 0x80) : ∀ d ∈ pair c, d ∈ digits := by
  simp only [pair, List.forall_mem_cons]
  exact ⟨digit_mem _ (by omega), digit_mem _ (by omega), by simp⟩

/-- A piece of an encoded text. -/
inductive Segment where
  | plain (text : Text)
  /-- The digits of a run and the characters that they hide. -/
  | run (digits hidden : Text)

namespace Segment

def written : Segment → Text
  | plain text => text
  | run digits _ => '#' :: (digits ++ ['#'])

/-- The piece of the text that is encoded. -/
def source : Segment → Text
  | plain text => text
  | run _ hidden => hidden

def isRun : Segment → Bool
  | plain _ => false
  | run _ _ => true

/-- Plain text has no number sign. The digits of a run are two for each byte of what they hide, and
only what has to be hidden is. -/
def Proper : Segment → Prop
  | plain text => text ≠ [] ∧ '#' ∉ text
  | run digits hidden => digits ≠ [] ∧ digits.length % 2 = 0 ∧ (∀ c ∈ digits, c ∈ Hex.digits) ∧
    (∀ c ∈ hidden, needsHex c = true) ∧ decodeRun? digits = some hidden

def single (c : Char) : Segment := if needsHex c then run (pair c) [c] else plain [c]

/-- One more character in front of a segment that has its kind. -/
def extend (c : Char) : Segment → Segment
  | plain text => plain (c :: text)
  | run digits hidden => run (pair c ++ digits) (c :: hidden)

/-- The segments in which a text is encoded. -/
def ofText : Text → List Segment
  | [] => []
  | c :: cs =>
    match ofText cs with
    | [] => [single c]
    | s :: rest => if s.isRun = needsHex c then s.extend c :: rest else single c :: s :: rest

/-- Neighbours are of different kinds. -/
def Alternate (a b : Segment) : Prop := a.isRun ≠ b.isRun

@[simp] theorem isRun_single (c : Char) : (single c).isRun = needsHex c := by
  unfold single
  cases needsHex c <;> rfl

@[simp] theorem isRun_extend (c : Char) (s : Segment) : (s.extend c).isRun = s.isRun := by
  cases s <;> rfl

@[simp] theorem source_single (c : Char) : (single c).source = [c] := by
  unfold single
  cases needsHex c <;> rfl

@[simp] theorem source_extend (c : Char) (s : Segment) : (s.extend c).source = c :: s.source := by
  cases s <;> rfl

theorem ne_mark_of_not_needsHex {c : Char} (h : needsHex c = false) : '#' ≠ c := by
  rintro rfl
  cases h

theorem proper_single (c : Char) : (single c).Proper := by
  unfold single
  cases hc : needsHex c with
  | false => exact ⟨List.cons_ne_nil c [], by simpa using ne_mark_of_not_needsHex hc⟩
  | true =>
    have hlt := toNat_lt_of_needsHex hc
    have hrun : decodeRun? (pair c ++ []) = some [c] := decodeRun?_pair hlt rfl
    rw [List.append_nil] at hrun
    exact ⟨by simp [pair], by simp [pair], digits_of_mem_pair hlt, by simpa using hc, hrun⟩

theorem Proper.extend {c : Char} {s : Segment} (h : s.Proper) (hc : s.isRun = needsHex c) :
    (s.extend c).Proper := by
  cases s with
  | plain text =>
    obtain ⟨-, hmark⟩ := h
    have hne := ne_mark_of_not_needsHex hc.symm
    exact ⟨List.cons_ne_nil c text, List.not_mem_cons_of_ne_of_not_mem hne hmark⟩
  | run digits hidden =>
    obtain ⟨hne, hlength, hdigits, hhidden, hdecode⟩ := h
    have hlt := toNat_lt_of_needsHex hc.symm
    refine ⟨by simp [pair], ?_, ?_, ?_, ?_⟩
    · simp only [pair, List.length_append, List.length_cons, List.length_nil]
      omega
    · intro d hd
      rcases List.mem_append.1 hd with hd | hd
      · exact digits_of_mem_pair hlt d hd
      · exact hdigits d hd
    · exact List.forall_mem_cons.2 ⟨hc.symm, hhidden⟩
    · rw [decodeRun?_of_ne_nil hne] at hdecode
      exact decodeRun?_pair hlt hdecode

theorem ofText_cons_of_nil {cs : Text} (h : ofText cs = []) (c : Char) :
    ofText (c :: cs) = [single c] := by
  rw [ofText, h]

theorem ofText_cons_of_cons {cs : Text} {s : Segment} {rest : List Segment}
    (h : ofText cs = s :: rest) (c : Char) :
    ofText (c :: cs) =
      if s.isRun = needsHex c then s.extend c :: rest else single c :: s :: rest := by
  rw [ofText, h]

theorem flatMap_source_ofText (text : Text) : (ofText text).flatMap source = text := by
  induction text with
  | nil => rfl
  | cons c cs ih =>
    cases hcs : ofText cs with
    | nil =>
      rw [hcs, List.flatMap_nil] at ih
      rw [ofText_cons_of_nil hcs, ← ih]
      simp
    | cons s rest =>
      simp only [hcs, List.flatMap_cons] at ih
      rw [ofText_cons_of_cons hcs]
      split <;> simp [← ih]

theorem proper_ofText (text : Text) : ∀ s ∈ ofText text, s.Proper := by
  induction text with
  | nil => simp [ofText]
  | cons c cs ih =>
    cases hcs : ofText cs with
    | nil => simpa [ofText_cons_of_nil hcs] using proper_single c
    | cons s rest =>
      simp only [hcs, List.forall_mem_cons] at ih
      rw [ofText_cons_of_cons hcs]
      by_cases hc : s.isRun = needsHex c
      · rw [if_pos hc]
        exact List.forall_mem_cons.2 ⟨ih.1.extend hc, ih.2⟩
      · rw [if_neg hc]
        exact List.forall_mem_cons.2 ⟨proper_single c, List.forall_mem_cons.2 ih⟩

theorem isChain_ofText (text : Text) : (ofText text).IsChain Alternate := by
  induction text with
  | nil => exact .nil
  | cons c cs ih =>
    cases hcs : ofText cs with
    | nil =>
      rw [ofText_cons_of_nil hcs]
      exact .singleton _
    | cons s rest =>
      rw [hcs] at ih
      rw [ofText_cons_of_cons hcs]
      by_cases hc : s.isRun = needsHex c
      · rw [if_pos hc]
        -- what follows a segment looks at its kind only
        cases rest with
        | nil => exact .singleton _
        | cons next rest =>
          obtain ⟨hnext, hrest⟩ := List.isChain_cons_cons.1 ih
          refine .cons_cons ?_ hrest
          simpa [Alternate] using hnext
      · rw [if_neg hc]
        refine .cons_cons ?_ ih
        simpa [Alternate, eq_comm] using hc

/-- An open run goes on with the digits of a first run, or is closed. -/
theorem encodeFrom_ofText (text : Text) :
    encodeFrom false text = (ofText text).flatMap written ∧
    encodeFrom true text = match ofText text with
      | run digits _ :: rest => digits ++ '#' :: rest.flatMap written
      | segments => '#' :: segments.flatMap written := by
  induction text with
  | nil => exact ⟨rfl, rfl⟩
  | cons c cs ih =>
    obtain ⟨hclosed, hopen⟩ := ih
    cases hc : needsHex c <;> rcases hcs : ofText cs with _ | ⟨text | ⟨digits, hidden⟩, rest⟩ <;>
      simp [encodeFrom, ofText, single, extend, isRun, written, hc, hcs, hclosed, hopen]

end Segment

theorem decode_plain {text : Text} (h : '#' ∉ text) (rest : Text) :
    decode (text ++ rest) = text ++ decode rest := by
  induction text with
  | nil => rfl
  | cons c cs ih =>
    rw [List.mem_cons, not_or] at h
    have hc : c ≠ '#' := h.1 ∘ Eq.symm
    rw [List.cons_append, decode, if_neg hc, ih h.2]
    rfl

theorem decode_run {run hidden : Text} (hmark : '#' ∉ run) (h : decodeRun? run = some hidden)
    (rest : Text) : decode ('#' :: (run ++ '#' :: rest)) = hidden ++ decode rest := by
  have hrun : ∀ c ∈ run, (c != '#') = true := by
    intro c hc
    rw [bne_iff_ne]
    rintro rfl
    exact hmark hc
  have htake : (run ++ '#' :: rest).takeWhile (· != '#') = run := by
    simp [List.takeWhile_append_of_pos hrun]
  have hdrop : (run ++ '#' :: rest).dropWhile (· != '#') = '#' :: rest := by
    simp [List.dropWhile_append_of_pos hrun]
  rw [decode, if_pos rfl, htake, h]
  split
  case h_1 mark after found hcut hfound =>
    rw [hdrop] at hcut
    cases hcut
    cases hfound
    rfl
  case h_2 hno => exact (hno '#' rest hidden hdrop rfl).elim

theorem decode_flatMap_written {segments : List Segment} (h : ∀ s ∈ segments, s.Proper) :
    decode (segments.flatMap Segment.written) = segments.flatMap Segment.source := by
  induction segments with
  | nil => simp [decode]
  | cons s rest ih =>
    obtain ⟨hs, hrest⟩ := List.forall_mem_cons.1 h
    rw [List.flatMap_cons, List.flatMap_cons, ← ih hrest]
    cases s with
    | plain text => exact decode_plain hs.2 _
    | run digits hidden =>
      obtain ⟨-, -, hdigits, -, hdecode⟩ := hs
      have hmark : '#' ∉ digits := fun hc => ne_mark_of_mem_digits (hdigits _ hc) rfl
      simpa [Segment.written, Segment.source] using decode_run hmark hdecode _

def isControl (c : Char) : Bool := c.toNat < 0x20 || c.toNat = 0x7F

theorem isControl_of_mem_digits : ∀ c ∈ digits, isControl c = false := by decide

theorem isControl_of_not_needsHex {c : Char} (h : ¬ needsHex c = true) : isControl c = false := by
  simp only [needsHex, Bool.or_eq_true, decide_eq_true_eq, not_or] at h
  simp [isControl, h]

theorem isControl_of_mem_encodeFrom (inRun : Bool) (text : Text) :
    ∀ c ∈ encodeFrom inRun text, isControl c = false := by
  have hmark : isControl '#' = false := by decide
  induction text generalizing inRun with
  | nil => cases inRun <;> simp [encodeFrom, hmark]
  | cons c cs ih =>
    by_cases hc : needsHex c = true
    · rw [encodeFrom, if_pos hc]
      have hdigits : ∀ d ∈ pair c, isControl d = false := fun d hd =>
        isControl_of_mem_digits d (digits_of_mem_pair (toNat_lt_of_needsHex hc) d hd)
      refine List.forall_mem_append.2 ⟨List.forall_mem_append.2 ⟨?_, hdigits⟩, ih true⟩
      cases inRun <;> simp [hmark]
    · rw [encodeFrom, if_neg hc]
      refine List.forall_mem_append.2 ⟨?_, ?_⟩
      · cases inRun <;> simp [hmark]
      · exact List.forall_mem_cons.2 ⟨isControl_of_not_needsHex hc, ih false⟩

end Hex

/-- Every text is read back from its hexadecimal form. That form has no ASCII control characters, and
it is plain text copied from the text and runs of hexadecimal digits in turn. -/
theorem Text.unescapeHex_escapeHex (text : Text) :
    text.escapeHex.unescapeHex = text ∧
    (∀ c ∈ text.escapeHex, Hex.isControl c = false) ∧
    ∃ segments : List Hex.Segment, text.escapeHex = segments.flatMap Hex.Segment.written ∧
      text = segments.flatMap Hex.Segment.source ∧ (∀ s ∈ segments, s.Proper) ∧
      segments.IsChain Hex.Segment.Alternate := by
  have hwritten : text.escapeHex = (Hex.Segment.ofText text).flatMap Hex.Segment.written :=
    (Hex.Segment.encodeFrom_ofText text).1
  have hproper := Hex.Segment.proper_ofText text
  refine ⟨?_, Hex.isControl_of_mem_encodeFrom false text, Hex.Segment.ofText text, hwritten,
    (Hex.Segment.flatMap_source_ofText text).symm, hproper, Hex.Segment.isChain_ofText text⟩
  rw [unescapeHex, hwritten, Hex.decode_flatMap_written hproper, Hex.Segment.flatMap_source_ofText]

/-- A number sign of the text goes into the run beside it. -/
example : Text.escapeHex "a\r\n#b#1".toList = "a#0D0A23#b#23#1".toList := by decide

end Stencil
