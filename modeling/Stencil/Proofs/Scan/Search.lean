import Stencil.Proofs.Check.Cursor
import Stencil.Proofs.Source.Places
import Stencil.Proofs.Text.Escaped

/-! # Searching a source by byte positions

What the compiler looks for is found as a position here, and everything between two positions is a slice,
which may be out of range or off a character's edge. On a written source each search finds the place
of what the compiler finds. -/
namespace Stencil

open Attempt

variable {α β : Type}

namespace Scan

/-- Where one of some characters first stands bare, from a position on. -/
def find (text : Text) (targets : List Char) (start : Nat) : Attempt (Option Nat) := do
  let tail ← slice text start text.size
  return (splitBare? targets (symbols tail)).map fun found => start + writtenSize found.1

/-- Where the end of a bracket stands that was opened before a position. -/
def findEnd (text : Text) (b : Bracket) (start : Nat) : Attempt (Option Nat) := do
  let tail ← slice text start text.size
  return (b.splitEnd? [] (symbols tail)).map fun found => start + writtenSize found.1

/-- Where the first character stands that is not skipped. -/
def findPast (text : Text) (skip : Char → Bool) : Option Nat :=
  match text.dropWhile skip with
  | [] => none
  | _ :: _ => some (Text.size (text.takeWhile skip))

/-- The pieces between bare separators outside all brackets, from a start on, with a cursor on what has
not been looked at. -/
def split (text : Text) (separator : Char) (start : Nat) :
    Nesting → Nat → List Symbol → Attempt (List (Nat × Text))
  | _, _, [] => do
    let piece ← slice text start text.size
    return [(start, piece)]
  | nesting, position, s :: rest =>
    if s = .bare separator ∧ nesting = [] then do
      let piece ← slice text start position
      let more ← split text separator (position + separator.utf8Size) nesting (position + s.size) rest
      return (start, piece) :: more
    else split text separator start (Bracket.pass nesting s) (position + s.size) rest

theorem slice_behind (front : Text) (c : Char) (rest : Text) :
    slice (front ++ c :: rest) (front.size + c.utf8Size) (front ++ c :: rest).size = .ok rest := by
  have hrest := slice_to_end (front ++ [c]) rest
  rw [Text.size_append, Text.size_cons, Text.size_nil, Nat.add_zero, List.append_assoc,
    List.singleton_append] at hrest
  exact hrest

theorem modifyHead_nil_append (pieces : List (List Symbol)) :
    pieces.modifyHead ([] ++ ·) = pieces := by
  cases pieces <;> rfl

theorem find_written (a : Text) (targets : List Char) {source : List Symbol} (h : Legible source) :
    find (a ++ written source) targets a.size =
      .ok ((splitBare? targets source).map fun found => a.size + writtenSize found.1) := by
  unfold find
  rw [slice_to_end, ok_bind, h]
  rfl

theorem findEnd_written (a : Text) (b : Bracket) {source : List Symbol} (h : Legible source) :
    findEnd (a ++ written source) b a.size =
      .ok ((b.splitEnd? [] source).map fun found => a.size + writtenSize found.1) := by
  unfold findEnd
  rw [slice_to_end, ok_bind, h]
  rfl

/-- The pieces that are split off stand where the compiler has them; `pending` is what has been looked at
of a piece. -/
theorem split_written (before : Text) {separator : Char} (hseparator : separator.utf8Size = 1)
    (nesting : Nesting) (pending rest : List Symbol) :
    split (before ++ written (pending ++ rest)) separator before.size nesting
        (before.size + writtenSize pending) rest =
      .ok ((located before.size ((splitOutside separator nesting rest).modifyHead (pending ++ ·))).map
        fun place => (place.1, written place.2)) := by
  induction rest generalizing before nesting pending with
  | nil =>
    unfold split
    rw [slice_to_end, ok_bind]
    simp [splitOutside, located]
    rfl
  | cons s rest ih =>
    unfold split splitOutside
    by_cases hs : s = .bare separator ∧ nesting = []
    · rw [if_pos hs, if_pos hs]
      obtain ⟨rfl, rfl⟩ := hs
      have hpiece : slice (before ++ written (pending ++ .bare separator :: rest)) before.size
          (before.size + writtenSize pending) = .ok (written pending) := by
        rw [← size_written, written_append, slice_append]
      have hwhole : before ++ written (pending ++ .bare separator :: rest) =
          before ++ written pending ++ [separator] ++ written rest := by
        simp [Symbol.written]
      have hstart : before.size + writtenSize pending + 1 =
          (before ++ written pending ++ [separator]).size := by
        simp only [Text.size_append, size_written, Text.size_cons, Text.size_nil, hseparator]
      have hsize : Symbol.size (.bare separator) = 1 := hseparator
      have hrest := ih (before ++ written pending ++ [separator]) [] []
      rw [modifyHead_nil_append, ← hstart] at hrest
      rw [hpiece, ok_bind, hwhole, hseparator, hsize, List.modifyHead_cons, List.append_nil]
      exact congrArg (fun more => more >>= fun more => .ok ((before.size, written pending) :: more))
        hrest
    · -- the symbol belongs to the piece that is pending
      rw [if_neg hs, if_neg hs]
      have hrest := ih before (Bracket.pass nesting s) (pending ++ [s])
      simp only [writtenSize_append, List.append_assoc, List.cons_append, List.nil_append,
        ← Nat.add_assoc] at hrest
      rw [List.modifyHead_modifyHead]
      exact hrest

def pieces (text : Text) (separator : Char) : Attempt (List (Nat × Text)) :=
  split text separator 0 [] 0 (symbols text)

theorem pieces_written {separator : Char} (hseparator : separator.utf8Size = 1)
    {source : List Symbol} (h : Legible source) :
    pieces (written source) separator =
      .ok ((located 0 (splitOutside separator [] source)).map
        fun place => (place.1, written place.2)) := by
  have hsplit := split_written [] hseparator [] [] source
  rw [modifyHead_nil_append] at hsplit
  rw [pieces, h]
  exact hsplit

def around (text : Text) (c : Char) : Attempt (Option (Text × Text)) :=
  match findPast text (· ≠ c) with
  | none => return none
  | some place => do
    let front ← slice text 0 place
    let back ← slice text (place + 1) text.size
    return some (front, back)

theorem around_eq (text : Text) {c : Char} (hc : c.utf8Size = 1) :
    around text c = .ok (match text.dropWhile (· ≠ c) with
      | [] => none
      | _ :: back => some (text.takeWhile (· ≠ c), back)) := by
  have hwhole : text.takeWhile (· ≠ c) ++ text.dropWhile (· ≠ c) = text :=
    List.takeWhile_append_dropWhile
  have hhead := List.head?_dropWhile_not (· ≠ c) text
  unfold around findPast
  cases hback : text.dropWhile (· ≠ c) with
  | nil => rfl
  | cons d back =>
    rw [hback] at hwhole hhead
    obtain rfl : d = c := by simpa using hhead
    generalize text.takeWhile (· ≠ d) = front at hwhole ⊢
    subst hwhole
    have hrest := slice_behind front d back
    rw [hc] at hrest
    simp only [slice_front, ok_bind, hrest]
    rfl

theorem findPast_getD (text : Text) (skip : Char → Bool) :
    (findPast text skip).getD text.size = Text.size (text.takeWhile skip) := by
  have hwhole : text.takeWhile skip ++ text.dropWhile skip = text := List.takeWhile_append_dropWhile
  unfold findPast
  cases hback : text.dropWhile skip with
  | nil =>
    rw [hback, List.append_nil] at hwhole
    rw [Option.getD_none, hwhole]
  | cons c back => exact Option.getD_some

theorem mapM_map_eq {γ : Type} {xs : List γ} {k : γ → α} {f : α → Attempt β} {g : γ → β}
    (h : ∀ x ∈ xs, f (k x) = .ok (g x)) : (xs.map k).mapM f = .ok (xs.map g) := by
  induction xs with
  | nil => rfl
  | cons x xs ih =>
    have hxs := ih fun y hy => h y (List.mem_cons_of_mem _ hy)
    rw [List.map_cons, List.mapM_cons, h x List.mem_cons_self, ok_bind, hxs]
    rfl

end Scan

end Stencil
