import Stencil.Proofs.Scan.Clause

/-! # Parameters by byte positions

A cursor moves over the body of a parameter from clause to clause. Every round must move it on, within
the body; each adds what the compiler adds (`Scan.nextClause_written`), and so do all together
(`Scan.clauses_written`). -/
namespace Stencil

open Attempt

variable {π : Type}

namespace Scan

def add (p : Reported (Parameter π)) (clause : Reported (Clause π)) : Reported (Parameter π) :=
  ⟨p.value.add clause.value, p.reports ++ clause.reports⟩

def stray (position : Nat) (text : Text) : Reported (Clause π) :=
  ⟨.nothing, if text.isAllBlank then [] else [.strayText position text]⟩

section

variable (options : Options) (nested : Nest π) (text : Text) (base : Nat)

/-- The next clause behind a position, and where to go on; the last one leaves nothing to go on with. -/
def nextClause (position : Nat) (p : Reported (Parameter π)) :
    Attempt (Option Nat × Reported (Parameter π)) := do
  match ← find text ['\x7b'] position with
  | none => do
    let rest ← slice text position text.size
    return (none, add p (stray (base + position) rest))
  | some opening => do
    let front ← slice text position opening
    let p := add p (stray (base + position) front)
    match ← findEnd text .curly (opening + 1) with
    | none => return (none, add p ⟨.nothing, [.unterminatedTag (base + opening)]⟩)
    | some closing => do
      let body ← slice text (opening + 1) closing
      let read ← clause options nested (base + opening + 1) body
      return (some (closing + 1), add p read)

def clauses (position : Nat) (p : Reported (Parameter π)) : Attempt (Reported (Parameter π)) :=
  if position < text.size then do
    match ← nextClause options nested text base position p with
    | (none, p) => return p
    | (some next, p) =>
      if position < next ∧ next ≤ text.size then clauses next p else .error .fault
  else return p
termination_by text.size - position
decreasing_by omega

end

/-- The parameter in a range of the source, whose body is another range. -/
def parameter (options : Options) (nested : Nest π) (source : Text) (range body : ByteRange) :
    Attempt (Reported (Parameter π)) := do
  let text ← slice source body.start body.stop
  let stop := (← find text ['\x7b'] 0).getD text.size
  let name ← slice text 0 stop
  clauses options nested text body.start stop ⟨⟨name.unescape, [], none, none, range⟩, []⟩

theorem not_mem_before {targets : List Char} {c : Char} (hc : c ∈ targets) (source : List Symbol) :
    .bare c ∉ ((splitBare? targets source).map Prod.fst).getD source := by
  induction source with
  | nil => exact List.not_mem_nil
  | cons s rest ih =>
    unfold splitBare?
    by_cases hs : (targets.any fun c => decide (s = .bare c)) = true
    · rw [if_pos hs]
      exact List.not_mem_nil
    · rw [if_neg hs]
      have hne : .bare c ≠ s := by
        rintro rfl
        exact hs (List.any_eq_true.2 ⟨c, hc, decide_eq_true rfl⟩)
      cases hrest : splitBare? targets rest with
      | none =>
        rw [hrest] at ih
        exact List.not_mem_cons_of_ne_of_not_mem hne ih
      | some found =>
        rw [hrest] at ih
        exact List.not_mem_cons_of_ne_of_not_mem hne ih

end Scan

theorem BodyPiece.ofSource_stray {front rest : List Symbol} (h : .bare '\x7b' ∉ front)
    (hne : front ≠ []) (hrest : rest = [] ∨ ∃ more, rest = .bare '\x7b' :: more) :
    ofSource (front ++ rest) = stray front :: ofSource rest := by
  induction front with
  | nil => exact absurd rfl hne
  | cons s front ih =>
    have hs : s ≠ .bare '\x7b' := (List.ne_of_not_mem_cons h).symm
    rw [List.cons_append, ofSource, if_neg hs]
    by_cases hfront : front = []
    · subst hfront
      rcases hrest with rfl | ⟨more, rfl⟩
      · rw [List.nil_append, ofSource]
        rfl
      · rw [List.nil_append, ofSource, if_pos rfl]
        split <;> rfl
    · rw [ih (List.not_mem_of_not_mem_cons h) hfront]
      rfl

namespace Scan

def addBody (options : Options) (nest : Clause.Nest π) (position : Nat) (source : List Symbol)
    (p : Reported (Parameter π)) : Reported (Parameter π) :=
  (placed BodyPiece.symbols position (BodyPiece.ofSource source)).foldl
    (fun p place => add p (Parameter.bodyPiece options nest place.1 place.2)) p

section

variable (options : Options) (nest : Clause.Nest π) (position : Nat) (p : Reported (Parameter π))

theorem addBody_nil : addBody options nest position [] p = p := by
  rw [addBody, BodyPiece.ofSource]
  rfl

theorem addBody_stray {front rest : List Symbol} (h : .bare '\x7b' ∉ front)
    (hrest : rest = [] ∨ ∃ more, rest = .bare '\x7b' :: more) :
    addBody options nest position (front ++ rest) p =
      addBody options nest (position + writtenSize front) rest
        (add p (stray position (written front))) := by
  by_cases hfront : front = []
  · subst hfront
    have hnothing : add p (stray position []) = p := by
      unfold add stray
      rw [if_pos (by rfl), List.append_nil]
      rfl
    rw [written_nil, hnothing]
    rfl
  · rw [addBody, BodyPiece.ofSource_stray h hfront hrest]
    rfl

theorem addBody_clause {rest body outer : List Symbol}
    (h : Bracket.curly.splitEnd? [] rest = some (body, outer)) :
    addBody options nest position (.bare '\x7b' :: rest) p =
      addBody options nest (position + 1 + writtenSize body + 1) outer
        (add p (Clause.compile options nest (position + 1) body)) := by
  rw [addBody, BodyPiece.ofSource_of_splitEnd? h, placed, List.foldl_cons, BodyPiece.writtenSize_clause,
    ← Nat.add_assoc, ← Nat.add_assoc]
  rfl

theorem addBody_unended {rest : List Symbol} (h : Bracket.curly.splitEnd? [] rest = none) :
    addBody options nest position (.bare '\x7b' :: rest) p =
      add p ⟨.nothing, [.unterminatedTag position]⟩ := by
  rw [addBody, BodyPiece.ofSource_of_unended h]
  rfl

end

section

variable {nested : Nest π} {nest : Clause.Nest π} (agrees : nested.Agrees nest) (options : Options)
  (base : Nat) (before : Text) (p : Reported (Parameter π))

variable (nest) in
theorem nextClause_stray {source : List Symbol} (h : Legible source)
    (hsplit : splitBare? ['\x7b'] source = none) :
    nextClause options nested (before ++ written source) base before.size p =
      .ok (none, addBody options nest (base + before.size) source p) := by
  have hplain : .bare '\x7b' ∉ source := by
    simpa [hsplit] using not_mem_before (List.mem_singleton_self '\x7b') source
  have hbody := addBody_stray options nest (base + before.size) p hplain (.inl rfl)
  rw [List.append_nil, addBody_nil] at hbody
  unfold nextClause
  rw [find_written _ _ h, ok_bind, hsplit, hbody]
  simp only [Option.map_none, slice_to_end, ok_bind]
  rfl

theorem nextClause_opening {front rest : List Symbol} (h : Legible (front ++ .bare '\x7b' :: rest))
    (hsplit : splitBare? ['\x7b'] (front ++ .bare '\x7b' :: rest) = some (front, rest)) :
    nextClause options nested (before ++ written (front ++ .bare '\x7b' :: rest)) base before.size p =
      match Bracket.curly.splitEnd? [] rest with
      | none => .ok (none, add (add p (stray (base + before.size) (written front)))
          ⟨.nothing, [.unterminatedTag (base + before.size + writtenSize front)]⟩)
      | some found => do
        let read ← clause options nested (base + before.size + writtenSize front + 1) (written found.1)
        return (some (before.size + writtenSize front + 1 + writtenSize found.1 + 1),
          add (add p (stray (base + before.size) (written front))) read) := by
  have hrest : Legible rest := (legible_cons_iff.1 h.right).2.2
  have hwhole : before ++ written (front ++ .bare '\x7b' :: rest) =
      before ++ written front ++ ['\x7b'] ++ written rest := by
    simp [Symbol.written]
  have hsize : (before ++ written front ++ ['\x7b']).size = before.size + writtenSize front + 1 := by
    simp only [Text.size_append, size_written, Text.size_cons, Text.size_nil]
    rfl
  have hfront := slice_append before (written front) (['\x7b'] ++ written rest)
  rw [size_written, ← List.append_assoc, ← List.append_assoc, ← hwhole] at hfront
  have hend := findEnd_written (before ++ written front ++ ['\x7b']) .curly hrest
  rw [← hwhole, hsize] at hend
  unfold nextClause
  rw [find_written _ _ h, ok_bind, hsplit]
  simp only [Option.map_some, hfront, ok_bind, hend]
  cases hfound : Bracket.curly.splitEnd? [] rest with
  | none =>
    simp only [Option.map_none, ← Nat.add_assoc]
    rfl
  | some found =>
    have hbody := slice_append (before ++ written front ++ ['\x7b']) (written found.1)
      (['\x7d'] ++ written found.2)
    have hinner : written rest = written found.1 ++ (['\x7d'] ++ written found.2) := by
      rw [Bracket.eq_of_splitEnd? hfound]
      simp [Symbol.written, Bracket.closer]
    rw [← hinner, ← hwhole, hsize, size_written] at hbody
    simp only [Option.map_some, ok_bind, hbody, ← Nat.add_assoc]

include agrees

/-- One round either comes to the end of the clauses or passes one of them, and adds what the compiler
adds. -/
theorem nextClause_written {source : List Symbol} (h : Legible source) :
    nextClause options nested (before ++ written source) base before.size p =
        .ok (none, addBody options nest (base + before.size) source p) ∨
      ∃ passed outer after, source = passed ++ outer ∧ passed ≠ [] ∧
        nextClause options nested (before ++ written source) base before.size p =
          .ok (some (before.size + writtenSize passed), after) ∧
        addBody options nest (base + before.size) source p =
          addBody options nest (base + before.size + writtenSize passed) outer after := by
  cases hsplit : splitBare? ['\x7b'] source with
  | none => exact .inl (nextClause_stray nest options base before p h hsplit)
  | some found =>
    obtain ⟨front, rest⟩ := found
    have hplain : .bare '\x7b' ∉ front := by
      simpa [hsplit] using not_mem_before (List.mem_singleton_self '\x7b') source
    obtain ⟨c, hc, rfl⟩ := exists_of_splitBare? hsplit
    obtain rfl := List.mem_singleton.1 hc
    rw [nextClause_opening options base before p h hsplit,
      addBody_stray options nest _ p hplain (.inr ⟨rest, rfl⟩)]
    cases hend : Bracket.curly.splitEnd? [] rest with
    | none =>
      rw [addBody_unended options nest _ _ hend]
      exact .inl rfl
    | some inner =>
      obtain ⟨body, outer⟩ := inner
      have hbody : Legible body := by
        have hrest := (legible_cons_iff.1 h.right).2.2
        rw [Bracket.eq_of_splitEnd? hend] at hrest
        exact hrest.left
      have hsize : writtenSize (front ++ .bare '\x7b' :: (body ++ [Bracket.curly.closer])) =
          writtenSize front + 1 + writtenSize body + 1 := by
        rw [writtenSize_append]
        have hclause : writtenSize (.bare '\x7b' :: (body ++ [Bracket.curly.closer])) =
            1 + (writtenSize body + 1) := by
          rw [writtenSize_cons, writtenSize_append]
          rfl
        omega
      refine .inr ⟨front ++ .bare '\x7b' :: (body ++ [Bracket.curly.closer]), outer,
        add (add p (stray (base + before.size) (written front)))
          (Clause.compile options nest (base + before.size + writtenSize front + 1) body),
        ?_, by simp, ?_, ?_⟩
      · rw [Bracket.eq_of_splitEnd? hend]
        simp
      · simp only [clause_written agrees options _ hbody, ok_bind, hsize, ← Nat.add_assoc]
        rfl
      · rw [addBody_clause options nest _ _ hend, hsize]
        simp only [← Nat.add_assoc]

theorem clauses_written {source : List Symbol} (h : Legible source) :
    clauses options nested (before ++ written source) base before.size p =
      .ok (addBody options nest (base + before.size) source p) := by
  -- by the length of what is left: a round that does not end the loop passes something
  induction hn : source.length using Nat.strongRecOn generalizing source before p with
  | ind n ih =>
    subst hn
    unfold clauses
    by_cases hs : source = []
    · subst hs
      rw [if_neg (by simp), addBody_nil]
      rfl
    · have hpos := writtenSize_pos hs
      rw [if_pos (by rw [Text.size_append, size_written]; omega)]
      rcases nextClause_written agrees options base before p h with hlast | hon
      · rw [hlast, ok_bind]
        rfl
      · obtain ⟨passed, outer, after, rfl, hpassed, hnext, hadd⟩ := hon
        have hshorter : outer.length < (passed ++ outer).length := by
          have hlength := List.length_pos_of_ne_nil hpassed
          rw [List.length_append]
          omega
        have hrest := ih outer.length hshorter (before ++ written passed) after h.right rfl
        rw [Text.size_append, size_written, List.append_assoc, ← written_append,
          ← Nat.add_assoc] at hrest
        have hmoved := writtenSize_pos hpassed
        simp only [hnext, ok_bind, hadd]
        rw [if_pos, hrest]
        rw [Text.size_append, size_written, writtenSize_append]
        omega

end

theorem splitName_eq (body : List Symbol) :
    splitName body = match splitBare? ['\x7b'] body with
      | none => (body, [])
      | some found => (found.1, .bare '\x7b' :: found.2) := by
  have hplain := not_mem_before (List.mem_singleton_self '\x7b') body
  cases hsplit : splitBare? ['\x7b'] body with
  | none =>
    rw [hsplit] at hplain
    have hname := splitName_append (fun s hs => ne_of_mem_of_not_mem hs hplain) (.inl rfl)
    rw [List.append_nil] at hname
    exact hname
  | some found =>
    obtain ⟨front, rest⟩ := found
    rw [hsplit] at hplain
    obtain ⟨c, hc, rfl⟩ := exists_of_splitBare? hsplit
    obtain rfl := List.mem_singleton.1 hc
    exact splitName_append (fun s hs => ne_of_mem_of_not_mem hs hplain) (.inr ⟨rest, rfl⟩)

theorem foldl_add (read : Nat × BodyPiece → Reported (Clause π)) (places : List (Nat × BodyPiece))
    (p : Reported (Parameter π)) :
    places.foldl (fun p place => add p (read place)) p =
      ⟨(Reported.collect (places.map read)).value.foldl Parameter.add p.value,
        p.reports ++ (Reported.collect (places.map read)).reports⟩ := by
  induction places generalizing p with
  | nil => simp [Reported.collect]
  | cons place places ih =>
    rw [List.foldl_cons, ih]
    simp [Reported.collect, add]

theorem parameter_written {nested : Nest π} {nest : Clause.Nest π} (agrees : nested.Agrees nest)
    (options : Options) (before after : Text) (position : Nat) {body : List Symbol} (h : Legible body)
    (hposition : before.size = position + 2) :
    parameter options nested (before ++ (written body ++ after))
        ⟨position, position + writtenSize body + 3⟩ ⟨before.size, before.size + writtenSize body⟩ =
      .ok (Parameter.compile options nest position body) := by
  have htext := slice_append before (written body) after
  rw [size_written] at htext
  have hfind := find_written [] ['\x7b'] h
  simp only [List.nil_append, Text.size_nil, Nat.zero_add] at hfind
  have hname : (splitName body).1 ++ (splitName body).2 = body := List.takeWhile_append_dropWhile
  have hstop : ((splitBare? ['\x7b'] body).map fun found => writtenSize found.1).getD
      (written body).size = (written (splitName body).1).size := by
    rw [splitName_eq, size_written, size_written]
    cases splitBare? ['\x7b'] body <;> rfl
  rw [← hname] at h
  have hslice := slice_front (written (splitName body).1) (written (splitName body).2)
  rw [← written_append, hname] at hslice
  have hclauses := clauses_written agrees options before.size (written (splitName body).1)
    ⟨⟨meant (splitName body).1, [], none, none, ⟨position, position + writtenSize body + 3⟩⟩, []⟩ h.right
  rw [← written_append, hname, size_written] at hclauses
  unfold parameter
  simp only [htext, hfind, ok_bind, hstop, hslice, h.left.unescape_written]
  rw [size_written, hclauses, hposition, addBody, foldl_add]
  simp only [List.nil_append]
  rfl

end Scan

end Stencil
