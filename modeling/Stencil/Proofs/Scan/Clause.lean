import Stencil.Proofs.Compile.Shifted
import Stencil.Proofs.Scan.Name
import Stencil.Proofs.Scan.Search

/-! # Clauses by byte positions

Arguments and clauses are read from slices of the source. What reads the nested patterns is left open; as
long as it does not fault and agrees with the compiler, reading a clause does the same. -/
namespace Stencil

open Attempt

variable {π : Type}

namespace Scan

def components (source : Text) : Attempt (List (Nat × Text)) :=
  if source.isEmpty then return [] else pieces source ','

theorem components_written {source : List Symbol} (h : Legible source) :
    components (written source) =
      .ok ((located 0 (Site.components source)).map fun place => (place.1, written place.2)) := by
  have hempty : (written source).isEmpty = source.isEmpty := by
    have hnil := @symbols_eq_nil_iff (written source)
    rw [h] at hnil
    rw [Bool.eq_iff_iff, List.isEmpty_iff, List.isEmpty_iff, hnil]
  unfold components Site.components
  rw [hempty]
  by_cases hs : source.isEmpty = true
  · rw [if_pos hs, if_pos hs]
    rfl
  · rw [if_neg hs, if_neg hs]
    exact pieces_written rfl h

/-- Reads a nested pattern, whose text begins at a position. -/
abbrev Nest (π : Type) := Nat → Text → Attempt (Reported π)

/-- What is read of a nested text is what is read of its symbols, and nothing faults. -/
def Nest.Agrees (nested : Nest π) (nest : Clause.Nest π) : Prop :=
  ∀ position text, nested position text = .ok (nest position (symbols text))

def plain (function : Function) : Site Read := ⟨function, .sensitive, reading fun _ _ => []⟩

section

variable (nested : Nest π) (function : Function) (casing : Casing) (position : Nat)

def value (kind : Kind) (raw : Text) : Attempt (Reported (Option (Value π))) :=
  match kind with
  | .int32 => return ((plain function).number Decimal.int32? (symbols raw)).map (Option.map .int32)
  | .int64 => return ((plain function).number Decimal.int64? (symbols raw)).map (Option.map .int64)
  | .text => return .silent (some (.text raw.unescape))
  | .nested => do
    let read ← nested position raw
    return read.map fun p => some (.nested p)

def component (slot : Slot) (raw : Text) : Attempt (Reported (Option (Component π))) := do
  let read ← value nested function position slot.kind raw
  return read.map <| Option.map fun value =>
    ⟨value, if slot.keepsCase then .sensitive else casing⟩

def group (source : Text) : Attempt (Reported (Group π)) := do
  let raw ← components source
  let read ← (raw.zip function.slots).mapM fun ((start, raw), slot) =>
    component nested function casing (position + start) slot raw
  return ((Reported.collect read).map Group.mk).after ((plain function).countReports raw.length)

def groups (source : Text) : Attempt (Reported (List (Group π))) := do
  let raw ← pieces source ';'
  let read ← raw.mapM fun (start, source) => group nested function casing (position + start) source
  return Reported.collect read

end

section

variable {nested : Nest π} {nest : Clause.Nest π} (agrees : nested.Agrees nest) (function : Function)
  (casing : Casing) (position : Nat)

include agrees

theorem value_written (kind : Kind) {raw : List Symbol} (h : Legible raw) :
    value nested function position kind (written raw) =
      .ok ((Site.mk function casing nest).value kind position raw) := by
  unfold value Site.value
  cases kind with
  | int32 =>
    rw [h]
    rfl
  | int64 =>
    rw [h]
    rfl
  | text =>
    rw [h.unescape_written]
    rfl
  | nested =>
    rw [agrees, h]
    rfl

theorem component_written (slot : Slot) {raw : List Symbol} (h : Legible raw) :
    component nested function casing position slot (written raw) =
      .ok ((Site.mk function casing nest).component slot position raw) := by
  rw [component, value_written agrees function casing position slot.kind h, ok_bind]
  rfl

theorem group_written {source : List Symbol} (h : Legible source) :
    group nested function casing position (written source) =
      .ok ((Site.mk function casing nest).group position source) := by
  have hself := Stands.self source
  rw [← Site.intercalate_components source] at hself
  have hread : ∀ place ∈ (located 0 (Site.components source)).zip function.slots,
      component nested function casing (position + place.1.1) place.2 (written place.1.2) =
        .ok ((Site.mk function casing nest).component place.2 (position + place.1.1) place.1.2) := by
    intro place hplace
    apply component_written agrees
    have hstands := hself.located rfl (List.of_mem_zip hplace).1
    rw [Site.intercalate_components source] at hstands
    exact hstands.legible h
  have hplaces := located_shift position 0 (Site.components source)
  rw [Nat.add_zero] at hplaces
  unfold group Site.group
  rw [components_written h, ok_bind, List.zip_map_left, mapM_map_eq hread, ok_bind, hplaces]
  simp only [List.zip_map_left, List.map_map, List.length_map, Function.comp_def]
  rfl

theorem groups_written {source : List Symbol} (h : Legible source) :
    groups nested function casing position (written source) =
      .ok ((Site.mk function casing nest).groups position source) := by
  have hself := Stands.self source
  rw [← intercalate_splitOutside ';' [] source] at hself
  have hread : ∀ place ∈ located 0 (splitOutside ';' [] source),
      group nested function casing (position + place.1) (written place.2) =
        .ok ((Site.mk function casing nest).group (position + place.1) place.2) := by
    intro place hplace
    apply group_written agrees
    have hstands := hself.located rfl hplace
    rw [intercalate_splitOutside ';' [] source] at hstands
    exact hstands.legible h
  have hplaces := located_shift position 0 (splitOutside ';' [] source)
  rw [Nat.add_zero] at hplaces
  unfold groups Site.groups
  rw [pieces_written rfl h, ok_bind, mapM_map_eq hread, ok_bind, hplaces, List.map_map]
  rfl

end

def leading (head : Text) : Attempt (Option (Text × Text)) :=
  match head with
  | '(' :: rest => around rest ')'
  | _ => return none

def splitHead (head : Text) : Attempt (Text × Text) := do
  let head := head.trim
  match ← leading head with
  | some (modifiers, name) => return (name.trim, modifiers)
  | none =>
    match ← around head '(' with
    | some (name, modifiers) =>
      return (name.trim, if modifiers.getLast? = some ')' then modifiers.dropLast else modifiers)
    | none => return (head, [])

def length (directive value : Text) : Attempt (Reported (Option Nat)) := do
  let value := value.trim
  let digits := (findPast value Char.isDigit).getD value.size
  let number ← slice value 0 digits
  match Decimal.unsigned? number with
  | none => return ⟨none, [.invalidDirectiveValue directive value]⟩
  | some n =>
    if n < UInt64.size then do
      let trailing ← slice value digits value.size
      let trailing := trailing.trim
      return ⟨some n, if trailing.isEmpty then [] else [.trailingText directive trailing]⟩
    else return ⟨none, [.invalidDirectiveValue directive value]⟩

def directive (d : Directive) (value : Text) : Attempt (Reported (Clause π)) :=
  match d with
  | .version => return ⟨.nothing, Clause.version value⟩
  | .fixedLength => do
    let read ← length d.name value
    return read.map fun n => (n.map .fixed).getD .nothing
  | .minLength => do
    let read ← length d.name value
    return read.map fun n => (n.map .min).getD .nothing

theorem splitHead_eq (head : Text) : splitHead head = .ok (Clause.splitHead head) := by
  have hclose : ')'.utf8Size = 1 := by decide
  have hopen : '('.utf8Size = 1 := by decide
  unfold splitHead Clause.splitHead leading
  simp only [around_eq _ hclose, around_eq _ hopen]
  generalize head.trim = trimmed
  split
  case h_1 rest =>
    simp only [ok_bind]
    cases List.dropWhile (· ≠ ')') rest with
    | nil => cases List.dropWhile (· ≠ '(') ('(' :: rest) <;> rfl
    | cons d name => rfl
  case h_2 hother =>
    have hnone : (return none : Attempt (Option (Text × Text))) = .ok none := rfl
    rw [hnone, ok_bind]
    cases List.dropWhile (· ≠ '(') trimmed <;> simp only <;> rfl

theorem length_eq (directive value : Text) :
    length directive value = .ok (Clause.length directive value) := by
  have hwhole : value.trim.takeWhile Char.isDigit ++ value.trim.dropWhile Char.isDigit = value.trim :=
    List.takeWhile_append_dropWhile
  have hfront := slice_front (value.trim.takeWhile Char.isDigit) (value.trim.dropWhile Char.isDigit)
  have hback := slice_to_end (value.trim.takeWhile Char.isDigit) (value.trim.dropWhile Char.isDigit)
  rw [hwhole] at hfront hback
  unfold length Clause.length
  simp only [findPast_getD, hfront, ok_bind]
  cases Decimal.unsigned? (value.trim.takeWhile Char.isDigit) with
  | none => rfl
  | some n =>
    simp only
    by_cases hn : n < UInt64.size
    · rw [if_pos hn, if_pos hn, hback, ok_bind]
      rfl
    · rw [if_neg hn, if_neg hn]
      rfl

theorem directive_eq (d : Directive) (value : Text) :
    (directive d value : Attempt (Reported (Clause π))) = .ok (Clause.directive d value) := by
  cases d with
  | version => rfl
  | fixedLength =>
    rw [directive, length_eq, ok_bind]
    rfl
  | minLength =>
    rw [directive, length_eq, ok_bind]
    rfl

section

variable (options : Options) (nested : Nest π)

def call (name modifiers : Text) (position : Nat) (arguments : Text) :
    Attempt (Reported (Clause π)) := do
  let resolution ← resolve options.casing name
  let words := Clause.modifierWords modifiers
  let ops := Clause.operators resolution words
  let read ← (match resolution with
    | some r => groups nested r.function (ops.casingIn options.casing) position arguments
    | none => return .silent [] : Attempt (Reported (List (Group π))))
  return (read.map fun groups => .tag ⟨name, resolution.map (·.function), ops, groups⟩).after
    (Clause.nameReports name resolution ++ Clause.wordReports name words)

/-- The head, the arguments and where these begin, of a clause whose body begins at a position. -/
def splitArguments (position : Nat) (body : Text) : Attempt (Text × Text × Nat) := do
  match ← find body ['=', ':'] 0 with
  | some sign => do
    let head ← slice body 0 sign
    let arguments ← slice body (sign + 1) body.size
    return (head, arguments, position + sign + 1)
  | none => return (body, [], position + body.size)

def clause (position : Nat) (body : Text) : Attempt (Reported (Clause π)) := do
  let (head, arguments, start) ← splitArguments position body
  let (name, modifiers) ← splitHead head
  let name := name.lower
  match Directive.ofName? name with
  | some d => directive d arguments
  | none => call options nested name modifiers start arguments

end

section

variable {nested : Nest π} {nest : Clause.Nest π} (agrees : nested.Agrees nest) (options : Options)

include agrees

theorem call_written (name modifiers : Text) (position : Nat) {arguments : List Symbol}
    (h : Legible arguments) :
    call options nested name modifiers position (written arguments) =
      .ok (Clause.call options nest name modifiers position arguments) := by
  unfold call Clause.call
  rw [resolve_eq, ok_bind]
  cases Resolution.ofName? options.casing name with
  | none => rfl
  | some r =>
    simp only [groups_written agrees _ _ _ h, ok_bind]
    rfl

omit agrees in
theorem splitArguments_written (position : Nat) {body : List Symbol} (h : Legible body) :
    splitArguments position (written body) = .ok (match splitBare? ['=', ':'] body with
      | some found => (written found.1, written found.2, position + writtenSize found.1 + 1)
      | none => (written body, [], position + writtenSize body)) := by
  have hfind := find_written [] ['=', ':'] h
  simp only [List.nil_append, Text.size_nil, Nat.zero_add] at hfind
  unfold splitArguments
  rw [hfind, ok_bind]
  cases hsplit : splitBare? ['=', ':'] body with
  | none =>
    rw [← size_written]
    rfl
  | some found =>
    obtain ⟨c, hc, heq⟩ := exists_of_splitBare? hsplit
    have hsize : c.utf8Size = 1 := by
      simp only [List.mem_cons, List.not_mem_nil, or_false] at hc
      rcases hc with rfl | rfl <;> decide
    have hwhole : written body = written found.1 ++ c :: written found.2 := by
      rw [heq]
      simp [Symbol.written]
    have hfront := slice_front (written found.1) (c :: written found.2)
    have hback := slice_behind (written found.1) c (written found.2)
    rw [← hwhole, size_written] at hfront
    rw [← hwhole, hsize, size_written] at hback
    simp only [Option.map_some, hfront, ok_bind, hback]
    rfl

theorem clause_written (position : Nat) {body : List Symbol} (h : Legible body) :
    clause options nested position (written body) =
      .ok (Clause.compile options nest position body) := by
  unfold clause Clause.compile
  rw [splitArguments_written position h, ok_bind]
  cases hsplit : splitBare? ['=', ':'] body with
  | none =>
    simp only [splitHead_eq, ok_bind]
    cases Directive.ofName? (Clause.splitHead (written body)).1.lower with
    | some d => exact directive_eq d []
    | none => exact call_written agrees options _ _ _ legible_nil
  | some found =>
    obtain ⟨c, hc, heq⟩ := exists_of_splitBare? hsplit
    rw [heq] at h
    simp only [splitHead_eq, ok_bind]
    cases Directive.ofName? (Clause.splitHead (written found.1)).1.lower with
    | some d => exact directive_eq d _
    | none => exact call_written agrees options _ _ _ (legible_cons_iff.1 h.right).2.2

end

end Scan

end Stencil
