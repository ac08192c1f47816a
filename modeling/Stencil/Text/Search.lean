import Stencil.Text.Lowercase

/-! # Comparing and searching text

Texts are compared character by character through a key, which either is the character or forgets
its case. All searches go from the front and never look at a position twice. -/
namespace Stencil

/-- Whether case matters in a comparison. -/
inductive Casing where
  | sensitive
  | insensitive
  deriving DecidableEq, Repr

namespace Casing

def ignoredIf (ignored : Bool) : Casing := if ignored then .insensitive else .sensitive

def isIgnored : Casing → Bool
  | .sensitive => false
  | .insensitive => true

def key : Casing → Char → Char
  | .sensitive => id
  | .insensitive => fold

def sameChar (casing : Casing) (a b : Char) : Bool := casing.key a == casing.key b

def memberOf (casing : Casing) (set : Text) (c : Char) : Bool := set.any (casing.sameChar · c)

def sameText (casing : Casing) (a b : Text) : Bool := a.map casing.key == b.map casing.key

/-- What matches `piece` at the front of a text, and the rest of the text. -/
def stripFront? (casing : Casing) : (piece text : Text) → Option (Text × Text)
  | [], text => some ([], text)
  | _ :: _, [] => none
  | p :: ps, c :: cs =>
    if casing.sameChar c p then (casing.stripFront? ps cs).map fun (a, b) => (c :: a, b) else none

/-- The front of a text and what matches `piece` at its end. -/
def stripBack? (casing : Casing) (piece text : Text) : Option (Text × Text) :=
  (casing.stripFront? piece.reverse text.reverse).map fun (a, b) => (b.reverse, a.reverse)

/-- The first occurrence. -/
def find? (casing : Casing) (piece : Text) : Text → Option Cut
  | [] => (casing.stripFront? piece []).map fun (a, b) => ⟨[], a, b⟩
  | c :: cs =>
    match casing.stripFront? piece (c :: cs) with
    | some (a, b) => some ⟨[], a, b⟩
    | none => (casing.find? piece cs).map (.push c)

/-- The range of the first occurrence at or after a byte position. -/
def findFrom? (casing : Casing) (text piece : Text) (start : Nat) : Option ByteRange := do
  let (_, tail) ← text.splitAt? start
  let cut ← casing.find? piece tail
  return cut.range.shift start

theorem of_stripFront? {casing : Casing} {piece text a b : Text}
    (h : casing.stripFront? piece text = some (a, b)) :
    text = a ++ b ∧ a.length = piece.length := by
  induction piece generalizing text a with
  | nil => cases h; exact ⟨rfl, rfl⟩
  | cons p ps ih =>
    cases text with
    | nil => cases h
    | cons c cs =>
      simp only [stripFront?] at h
      split at h
      · obtain ⟨⟨x, y⟩, found, same⟩ := Option.map_eq_some_iff.1 h
        cases same
        obtain ⟨rfl, len⟩ := ih found
        exact ⟨rfl, congrArg (· + 1) len⟩
      · cases h

theorem of_find? {casing : Casing} {piece text : Text} {cut : Cut}
    (h : casing.find? piece text = some cut) :
    text = cut.whole ∧ cut.kept.length = piece.length := by
  induction text generalizing cut with
  | nil =>
    obtain ⟨⟨a, b⟩, found, rfl⟩ := Option.map_eq_some_iff.1 h
    exact of_stripFront? found
  | cons c cs ih =>
    simp only [find?] at h
    split at h
    case h_1 found =>
      cases h
      exact of_stripFront? found
    case h_2 =>
      obtain ⟨shorter, found, rfl⟩ := Option.map_eq_some_iff.1 h
      exact ⟨congrArg (c :: ·) (ih found).1, (ih found).2⟩

/-- What stands between the occurrences of `piece`, each searched after the one before; an empty
piece separates nothing. -/
def between (casing : Casing) (piece text : Text) : List Text :=
  if _empty : piece = [] then [text]
  else match _found : casing.find? piece text with
    | none => [text]
    | some cut => cut.before :: casing.between piece cut.after
termination_by text.length
decreasing_by
  obtain ⟨rfl, len⟩ := of_find? _found
  have := List.length_pos_iff.2 _empty
  simp only [Cut.whole, List.length_append]
  omega

/-- Every occurrence of `piece` replaced. -/
def replaceAll (casing : Casing) (piece text replacement : Text) : Text :=
  replacement.intercalate (casing.between piece text)

end Casing

end Stencil
