import Mathlib.Data.List.TakeWhile
import Mathlib.Tactic.ByContra
import Stencil.Proofs.Source.Places

/-! # Brackets that belong together

A closing bracket is paired with the last opening bracket of its kind in front of it that is still open. This
says of any source which brackets belong together, however malformed it is. The nesting that the scanners keep
holds exactly what is open (`Bracket.Tracks`), so what they find is the first closing bracket that is paired
with none (`Bracket.splitEnd?_eq_some_iff`). -/
namespace Stencil

namespace Bracket

theorem closer_injective {b c : Bracket} (h : b.closer = c.closer) : b = c := by
  have hclosed := closed?_closer b
  rw [h, closed?_closer] at hclosed
  exact (Option.some.inj hclosed).symm

theorem opener_injective {b c : Bracket} (h : b.opener = c.opener) : b = c := by
  have hopened := opened?_opener b
  rw [h, opened?_opener] at hopened
  exact (Option.some.inj hopened).symm

theorem opener_ne_closer (b c : Bracket) : b.opener ≠ c.closer := by
  intro h
  have hopened := opened?_opener b
  rw [h, opened?_closer] at hopened
  cases hopened

theorem close_append {b : Bracket} {inner : Nesting} (h : b ∉ inner) (outer : Nesting) :
    close b (inner ++ b :: outer) = outer := by
  have hskip : ∀ c ∈ inner, decide (c ≠ b) = true := fun c hc => decide_eq_true (ne_of_mem_of_not_mem hc h)
  rw [close, List.dropWhile_append_of_pos hskip, List.dropWhile_cons_of_neg (by simp)]

theorem close_of_not_mem {b : Bracket} {nesting : Nesting} (h : b ∉ nesting) :
    close b nesting = nesting := by
  have hskip : ∀ c ∈ nesting, decide (c ≠ b) = true := fun c hc => decide_eq_true (ne_of_mem_of_not_mem hc h)
  rw [close, List.dropWhile_eq_nil_iff.2 hskip]

/-- The brackets at two indices belong together: the closing one is of the kind of the opening one, which is
still open, and all of this kind that were opened in between are not. An opening bracket is no longer open
behind a closing one that is paired with it or with one in front of it. -/
def Paired (source : List Symbol) (opening closing : Nat) : Prop :=
  ∃ b : Bracket, source[opening]? = some b.opener ∧ source[closing]? = some b.closer ∧
    (opening < closing ∧ ∀ between outer, opening < between → (_ : between < closing) →
      Paired source outer between → opening < outer) ∧
    ∀ later, opening < later → later < closing → source[later]? = some b.opener →
      ∃ between outer, later < between ∧ ∃ _ : between < closing,
        Paired source outer between ∧ outer ≤ later
termination_by closing

/-- The closing bracket stands at an index and is paired with none. -/
def Unpaired (b : Bracket) (source : List Symbol) (closing : Nat) : Prop :=
  source[closing]? = some b.closer ∧ ∀ opening, ¬ Paired source opening closing

/-- From the first index on, this is the first closing bracket that is paired with none. -/
structure EndsAt (b : Bracket) (source : List Symbol) (start stop : Nat) : Prop where
  start_le : start ≤ stop
  unpaired : b.Unpaired source stop
  first : ∀ n, start ≤ n → n < stop → ¬ b.Unpaired source n

/-- What stands at the first index is still open in front of the second. -/
def OpenAt (source : List Symbol) (opening stop : Nat) : Prop :=
  opening < stop ∧ ∀ between outer, opening < between → between < stop →
    Paired source outer between → opening < outer

variable {source : List Symbol} {b : Bracket} {n opening closing : Nat}

theorem paired_iff : Paired source opening closing ↔ ∃ b : Bracket,
    source[opening]? = some b.opener ∧ source[closing]? = some b.closer ∧
    OpenAt source opening closing ∧
    ∀ later, opening < later → source[later]? = some b.opener → ¬ OpenAt source later closing := by
  rw [Paired]
  refine exists_congr fun b => and_congr_right fun _ => and_congr_right fun _ =>
    and_congr_right fun _ => forall_congr' fun later => forall_congr' fun _ => ?_
  constructor
  · intro h hlater hopen
    obtain ⟨between, outer, hbetween, hstop, hpaired, hle⟩ := h hopen.1 hlater
    have hlt := hopen.2 between outer hbetween hstop hpaired
    omega
  · intro h hstop hlater
    by_contra hnone
    refine h hlater ⟨hstop, fun between outer hbetween hclosing hpaired => ?_⟩
    by_contra hle
    exact hnone ⟨between, outer, hbetween, hclosing, hpaired, Nat.le_of_not_lt hle⟩

theorem Paired.unique {other : Nat} (h : Paired source opening closing)
    (k : Paired source other closing) : opening = other := by
  obtain ⟨b, hopener, hcloser, hopen, hlast⟩ := paired_iff.1 h
  obtain ⟨c, hopener', hcloser', hopen', hlast'⟩ := paired_iff.1 k
  obtain rfl : b = c := closer_injective (Option.some.inj (hcloser.symm.trans hcloser'))
  rcases Nat.lt_trichotomy opening other with hlt | hsame | hlt
  · exact absurd hopen' (hlast other hlt hopener')
  · exact hsame
  · exact absurd hopen (hlast' opening hlt hopener)

theorem openAt_succ_iff : OpenAt source opening (n + 1) ↔
    opening = n ∨ OpenAt source opening n ∧ ∀ outer, Paired source outer n → opening < outer := by
  constructor
  · rintro ⟨hlt, hopen⟩
    rcases Nat.lt_succ_iff_lt_or_eq.1 hlt with hlt | rfl
    · exact .inr ⟨⟨hlt, fun between outer hbetween hstop => hopen between outer hbetween (by omega)⟩,
        fun outer => hopen n outer hlt (Nat.lt_succ_self n)⟩
    · exact .inl rfl
  · rintro (rfl | ⟨⟨hlt, hopen⟩, hlast⟩)
    · exact ⟨Nat.lt_succ_self _, fun between _ hbetween hstop => by omega⟩
    · refine ⟨by omega, fun between outer hbetween hstop hpaired => ?_⟩
      rcases Nat.lt_succ_iff_lt_or_eq.1 hstop with hstop | rfl
      · exact hopen between outer hbetween hstop hpaired
      · exact hlast outer hpaired

/-- The opened brackets, the innermost first, are those that are open in front of an index. -/
structure Tracks (source : List Symbol) (n : Nat) (opened : List (Nat × Bracket)) : Prop where
  sorted : opened.Pairwise fun x y => y.1 < x.1
  mem_iff : ∀ k b, (k, b) ∈ opened ↔ source[k]? = some b.opener ∧ OpenAt source k n

namespace Tracks

variable {opened : List (Nat × Bracket)}

theorem zero (source : List Symbol) : Tracks source 0 [] :=
  ⟨.nil, fun _ _ => iff_of_false List.not_mem_nil fun h => Nat.not_lt_zero _ h.2.1⟩

theorem paired_iff (h : Tracks source n opened) (hs : source[n]? = some b.closer) :
    Paired source opening n ↔
      ∃ inner outer, opened = inner ++ (opening, b) :: outer ∧ b ∉ inner.map Prod.snd := by
  rw [Bracket.paired_iff]
  constructor
  · rintro ⟨c, hopener, hcloser, hopen, hlast⟩
    obtain rfl : b = c := closer_injective (Option.some.inj (hs.symm.trans hcloser))
    obtain ⟨inner, outer, rfl⟩ := List.append_of_mem ((h.mem_iff opening b).2 ⟨hopener, hopen⟩)
    refine ⟨inner, outer, rfl, ?_⟩
    intro hmem
    obtain ⟨⟨later, c⟩, hlater, rfl⟩ := List.mem_map.1 hmem
    obtain ⟨hopens, hstill⟩ := (h.mem_iff later c).1 (List.mem_append_left _ hlater)
    have hlt : opening < later := (List.pairwise_append.1 h.sorted).2.2 _ hlater _ List.mem_cons_self
    exact hlast later hlt hopens hstill
  · rintro ⟨inner, outer, rfl, hinner⟩
    obtain ⟨hopener, hopen⟩ :=
      (h.mem_iff opening b).1 (List.mem_append_right _ List.mem_cons_self)
    refine ⟨b, hopener, hs, hopen, ?_⟩
    intro later hlater hopens hstill
    rcases List.mem_append.1 ((h.mem_iff later b).2 ⟨hopens, hstill⟩) with hmem | hmem
    · exact hinner (List.mem_map_of_mem (f := Prod.snd) hmem)
    · rcases List.mem_cons.1 hmem with hsame | hmem
      · cases hsame
        exact Nat.lt_irrefl _ hlater
      · have hlt : later < opening :=
          (List.pairwise_cons.1 (List.pairwise_append.1 h.sorted).2.1).1 _ hmem
        omega

theorem exists_innermost (hb : b ∈ opened.map Prod.snd) :
    ∃ k inner outer, opened = inner ++ (k, b) :: outer ∧ b ∉ inner.map Prod.snd := by
  obtain ⟨front, back, hsplit, hfront⟩ := List.eq_append_cons_of_mem hb
  obtain ⟨inner, rest, rfl, rfl, hrest⟩ := List.map_eq_append_iff.1 hsplit
  obtain ⟨⟨k, c⟩, outer, rfl, rfl, -⟩ := List.map_eq_cons_iff.1 hrest
  exact ⟨k, inner, outer, rfl, hfront⟩

theorem isEnd_iff (h : Tracks source n opened) {s : Symbol} (hs : source[n]? = some s) :
    b.isEnd (opened.map Prod.snd) s = true ↔ b.Unpaired source n := by
  rw [isEnd, Bool.and_eq_true, decide_eq_true_eq, decide_eq_true_eq, closed?_eq_some_iff, Unpaired, hs,
    Option.some.injEq]
  refine and_congr_right fun hcloser => ?_
  rw [hcloser] at hs
  constructor
  · intro hb k hpaired
    obtain ⟨inner, outer, rfl, -⟩ := (h.paired_iff hs).1 hpaired
    exact hb (List.mem_map_of_mem (f := Prod.snd) (List.mem_append_right _ List.mem_cons_self))
  · intro hnone hb
    obtain ⟨k, inner, outer, hopened, hinner⟩ := exists_innermost hb
    exact hnone k ((h.paired_iff hs).2 ⟨inner, outer, hopened, hinner⟩)

theorem keep (h : Tracks source n opened) (hopener : ∀ b : Bracket, source[n]? ≠ some b.opener)
    (hnone : ∀ k, ¬ Paired source k n) : Tracks source (n + 1) opened := by
  refine ⟨h.sorted, fun k b => ?_⟩
  rw [h.mem_iff, openAt_succ_iff]
  refine and_congr_right fun hk => ⟨fun hopen => .inr ⟨hopen, fun k hpaired => absurd hpaired (hnone k)⟩, ?_⟩
  rintro (rfl | ⟨hopen, -⟩)
  · exact absurd hk (hopener b)
  · exact hopen

theorem push (h : Tracks source n opened) (hs : source[n]? = some b.opener) :
    Tracks source (n + 1) ((n, b) :: opened) := by
  have hnone (k : Nat) : ¬ Paired source k n := by
    intro hpaired
    obtain ⟨c, -, hcloser, -⟩ := Bracket.paired_iff.1 hpaired
    exact opener_ne_closer b c (Option.some.inj (hs.symm.trans hcloser))
  refine ⟨List.pairwise_cons.2 ⟨fun x hx => ((h.mem_iff x.1 x.2).1 hx).2.1, h.sorted⟩, fun k c => ?_⟩
  rw [List.mem_cons, h.mem_iff, openAt_succ_iff, Prod.mk.injEq]
  constructor
  · rintro (⟨rfl, rfl⟩ | ⟨hk, hopen⟩)
    · exact ⟨hs, .inl rfl⟩
    · exact ⟨hk, .inr ⟨hopen, fun k hpaired => absurd hpaired (hnone k)⟩⟩
  · rintro ⟨hk, rfl | ⟨hopen, -⟩⟩
    · exact .inl ⟨rfl, opener_injective (Option.some.inj (hk.symm.trans hs))⟩
    · exact .inr ⟨hk, hopen⟩

theorem pop {k : Nat} {inner outer : List (Nat × Bracket)}
    (h : Tracks source n (inner ++ (k, b) :: outer)) (hs : source[n]? = some b.closer)
    (hinner : b ∉ inner.map Prod.snd) : Tracks source (n + 1) outer := by
  obtain ⟨-, hsorted, hcross⟩ := List.pairwise_append.1 h.sorted
  obtain ⟨hbehind, houter⟩ := List.pairwise_cons.1 hsorted
  have hpaired : Paired source k n := (h.paired_iff hs).2 ⟨inner, outer, rfl, hinner⟩
  refine ⟨houter, fun m c => ?_⟩
  rw [openAt_succ_iff]
  constructor
  · intro hm
    obtain ⟨hopener, hopen⟩ :=
      (h.mem_iff m c).1 (List.mem_append_right _ (List.mem_cons_of_mem _ hm))
    refine ⟨hopener, .inr ⟨hopen, fun o ho => ?_⟩⟩
    rw [ho.unique hpaired]
    exact hbehind _ hm
  · rintro ⟨hopener, rfl | ⟨hopen, hlast⟩⟩
    · exact absurd (Option.some.inj (hopener.symm.trans hs)) (opener_ne_closer c b)
    · have hlt := hlast k hpaired
      rcases List.mem_append.1 ((h.mem_iff m c).2 ⟨hopener, hopen⟩) with hm | hm
      · have hgt : k < m := hcross _ hm _ List.mem_cons_self
        omega
      · rcases List.mem_cons.1 hm with hsame | hm
        · cases hsame
          omega
        · exact hm

/-- The nesting behind a symbol is what is open there. -/
theorem exists_pass (h : Tracks source n opened) {s : Symbol} (hs : source[n]? = some s) :
    ∃ opened', pass (opened.map Prod.snd) s = opened'.map Prod.snd ∧ Tracks source (n + 1) opened' := by
  cases hopened : opened? s with
  | some b =>
    obtain rfl := opened?_eq_some_iff.1 hopened
    exact ⟨(n, b) :: opened, pass_opener b _, h.push hs⟩
  | none =>
    have hopener (b : Bracket) : source[n]? ≠ some b.opener := by
      intro hb
      rw [Option.some.inj (hs.symm.trans hb), opened?_opener] at hopened
      cases hopened
    cases hclosed : closed? s with
    | none =>
      refine ⟨opened, by rw [pass, hopened, hclosed], h.keep hopener fun k hpaired => ?_⟩
      obtain ⟨b, -, hcloser, -⟩ := Bracket.paired_iff.1 hpaired
      rw [Option.some.inj (hs.symm.trans hcloser), closed?_closer] at hclosed
      cases hclosed
    | some b =>
      obtain rfl := closed?_eq_some_iff.1 hclosed
      rw [pass, hopened, hclosed]
      by_cases hb : b ∈ opened.map Prod.snd
      · obtain ⟨k, inner, outer, rfl, hinner⟩ := exists_innermost hb
        refine ⟨outer, ?_, h.pop hs hinner⟩
        rw [List.map_append, List.map_cons]
        exact close_append hinner _
      · refine ⟨opened, close_of_not_mem hb, h.keep hopener fun k hpaired => ?_⟩
        obtain ⟨inner, outer, rfl, -⟩ := (h.paired_iff hs).1 hpaired
        exact hb (List.mem_map_of_mem (f := Prod.snd) (List.mem_append_right _ List.mem_cons_self))

end Tracks

variable {start stop : Nat}

theorem endsAt_self (h : b.Unpaired source start) : b.EndsAt source start start :=
  ⟨Nat.le_refl start, h, fun _ hle hlt => absurd hle (Nat.not_le_of_lt hlt)⟩

theorem EndsAt.eq_of_unpaired (h : b.EndsAt source start stop) (hstart : b.Unpaired source start) :
    start = stop := by
  rcases Nat.eq_or_lt_of_le h.start_le with hsame | hlt
  · exact hsame
  · exact absurd hstart (h.first start (Nat.le_refl start) hlt)

theorem endsAt_succ_iff (hstart : ¬ b.Unpaired source start) :
    b.EndsAt source (start + 1) stop ↔ b.EndsAt source start stop := by
  constructor
  · rintro ⟨hle, hunpaired, hfirst⟩
    refine ⟨by omega, hunpaired, fun n hn hlt => ?_⟩
    rcases Nat.eq_or_lt_of_le hn with rfl | hn
    · exact hstart
    · exact hfirst n hn hlt
  · rintro ⟨hle, hunpaired, hfirst⟩
    have hne : start ≠ stop := by
      rintro rfl
      exact hstart hunpaired
    exact ⟨by omega, hunpaired, fun n hn hlt => hfirst n (by omega) hlt⟩

/-- Behind any front, the end of a bracket is the first one of its kind that is paired with none. -/
theorem splitEnd?_iff {front rest : List Symbol} {opened : List (Nat × Bracket)}
    (h : Tracks (front ++ rest) front.length opened) {inner outer : List Symbol} :
    b.splitEnd? (opened.map Prod.snd) rest = some (inner, outer) ↔
      rest = inner ++ b.closer :: outer ∧
        b.EndsAt (front ++ rest) front.length (front.length + inner.length) := by
  induction rest generalizing front opened inner with
  | nil => simp [splitEnd?]
  | cons s rest ih =>
    have hs : (front ++ s :: rest)[front.length]? = some s := by simp
    have hend := h.isEnd_iff (b := b) hs
    rw [splitEnd?]
    by_cases hfirst : b.isEnd (opened.map Prod.snd) s = true
    · rw [if_pos hfirst, Option.some.injEq, Prod.mk.injEq]
      have hunpaired := hend.1 hfirst
      constructor
      · rintro ⟨rfl, rfl⟩
        obtain rfl : s = b.closer := Option.some.inj (hs.symm.trans hunpaired.1)
        exact ⟨rfl, endsAt_self hunpaired⟩
      · rintro ⟨hrest, hends⟩
        have hlength := hends.eq_of_unpaired hunpaired
        obtain rfl : inner = [] := List.eq_nil_of_length_eq_zero (by omega)
        exact ⟨rfl, (List.cons.inj hrest).2⟩
    · -- the end is further on: the symbol joins the front, and what is open behind it is tracked again
      have hnone : ¬ b.Unpaired (front ++ s :: rest) front.length := fun hb => hfirst (hend.2 hb)
      obtain ⟨opened', hpass, htracks⟩ := h.exists_pass hs
      have hwhole : front ++ [s] ++ rest = front ++ s :: rest := by simp
      have hlength : (front ++ [s]).length = front.length + 1 := List.length_append
      have hplace (inner : List Symbol) :
          front.length + (s :: inner).length = front.length + 1 + inner.length := by
        rw [List.length_cons]
        omega
      rw [← hwhole, ← hlength] at htracks
      rw [if_neg hfirst, hpass, Option.map_eq_some_iff]
      constructor
      · rintro ⟨⟨inner', outer'⟩, hsplit, hpair⟩
        cases hpair
        obtain ⟨rfl, hends⟩ := (ih htracks).1 hsplit
        rw [hwhole, hlength] at hends
        rw [hplace]
        exact ⟨rfl, (endsAt_succ_iff hnone).1 hends⟩
      · rintro ⟨hrest, hends⟩
        cases inner with
        | nil => exact absurd hends.unpaired hnone
        | cons t inner =>
          obtain ⟨rfl, rfl⟩ := List.cons.inj hrest
          rw [hplace] at hends
          refine ⟨(inner, outer), (ih htracks).2 ⟨rfl, ?_⟩, rfl⟩
          rw [hwhole, hlength]
          exact (endsAt_succ_iff hnone).2 hends

theorem splitEnd?_eq_some_iff {inner outer : List Symbol} :
    b.splitEnd? [] source = some (inner, outer) ↔
      source = inner ++ b.closer :: outer ∧ b.EndsAt source 0 inner.length := by
  have htracks : Tracks ([] ++ source) ([] : List Symbol).length [] := Tracks.zero source
  have hsplit : b.splitEnd? [] source = some (inner, outer) ↔ _ := splitEnd?_iff htracks
  simpa using hsplit

end Bracket

end Stencil
