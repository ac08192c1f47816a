import Stencil.Compile
import Stencil.Proofs.Draft.Printed

/-! # A parameter with one clause

A source that is one parameter with one clause compiles to what the clause adds to a parameter of that
name, and reports what is reported of the clause (`Layer.exists_compile_capture`). -/
namespace Stencil

/-- A parameter with one clause. -/
def Text.capture (name body : Text) : Text :=
  "%[".toList ++ (name.escape ++ '\x7b' :: (body ++ "\x7d]".toList))

section

variable {body : Text} (settled : body.Settled) (balanced : Balanced [] (symbols body)) (name : Text)

include settled

theorem symbols_capture : symbols (.capture name body) =
    (Piece.parameter (symbols name.escape ++ (BodyPiece.clause (symbols body)).symbols)).symbols := by
  have hopening : Text.Settled "%[".toList := Text.settled_of_not_mem (by decide)
  have hbrackets : symbols (body ++ "\x7d]".toList) = symbols body ++ [.bare '\x7d', .bare ']'] :=
    settled.symbols_append _
  rw [Text.capture, hopening.symbols_append, (Text.settled_escape name).symbols_append,
    symbols_cons (by decide), hbrackets]
  simp [Piece.symbols, BodyPiece.symbols, symbols]

include balanced

omit settled in
theorem balanced_capture :
    Balanced [] (symbols name.escape ++ (BodyPiece.clause (symbols body)).symbols) :=
  (Balanced.escape name (by decide)).append (.wrap .curly balanced .nil)

theorem nestable_capture : Nestable (.capture name body) := by
  constructor
  · have hopening : Text.Settled "%[".toList := Text.settled_of_not_mem (by decide)
    have hclosing : Text.Settled "\x7d]".toList := Text.settled_of_not_mem (by decide)
    exact hopening.append
      ((Text.settled_escape name).append ((settled.append hclosing).cons (by decide)))
  · rw [symbols_capture settled]
    exact .plain ⟨rfl, rfl, by decide⟩
      (.wrap .square (balanced_capture balanced name) .nil)

theorem ofSource_capture : Piece.ofSource (symbols (.capture name body)) =
    [.parameter (symbols name.escape ++ (BodyPiece.clause (symbols body)).symbols)] := by
  have hparameter := Piece.ofSource_parameter (balanced_capture balanced name) []
  rw [List.append_nil] at hparameter
  rw [symbols_capture settled, hparameter, Piece.ofSource]

end

variable {π : Type} (options : Options) (nested : Clause.Nest π)

theorem Parameter.exists_compile_clause {body : List Symbol} (balanced : Balanced [] body) (name : Text)
    (position : Nat) : ∃ start place,
      compile options nested position (symbols name.escape ++ (BodyPiece.clause body).symbols) =
        (Clause.compile options nested start body).map (add ⟨name, [], none, none, place⟩) := by
  have hletters : ∀ s ∈ symbols name.escape, s ≠ .bare '\x7b' :=
    fun s hs => Text.ne_bare_of_mem_escape hs (by decide)
  have hname : splitName (symbols name.escape ++ (BodyPiece.clause body).symbols) =
      (symbols name.escape, (BodyPiece.clause body).symbols) :=
    splitName_append hletters (.inr ⟨_, rfl⟩)
  have hpieces : BodyPiece.ofSource (BodyPiece.clause body).symbols = [.clause body] := by
    have hclause := BodyPiece.ofSource_clause balanced []
    rw [List.append_nil] at hclause
    rw [hclause, BodyPiece.ofSource]
  refine ⟨position + 2 + writtenSize (symbols name.escape) + 1, ⟨position, position + writtenSize
    (symbols name.escape ++ (BodyPiece.clause body).symbols) + 3⟩, ?_⟩
  simp only [compile, hname, hpieces, placed, List.map_cons, List.map_nil, bodyPiece,
    Reported.collect, Reported.map, Text.meant_symbols_escape, List.flatMap_cons, List.flatMap_nil,
    List.append_nil, List.foldl_cons, List.foldl_nil]

theorem Layer.exists_compile_capture {body : Text} (settled : body.Settled)
    (balanced : Balanced [] (symbols body)) (name : Text) : ∃ start place,
      (compile options nested (symbols (.capture name body))).parts =
        [.parameter (Parameter.add ⟨name, [], none, none, place⟩
          (Clause.compile options nested start (symbols body)).value)] ∧
      (compile options nested (symbols (.capture name body))).diagnostics =
        .ofList (Clause.compile options nested start (symbols body)).reports := by
  obtain ⟨start, place, hparameter⟩ :=
    Parameter.exists_compile_clause options nested balanced name 0
  refine ⟨start, place, ?_⟩
  simp only [compile, ofSource_capture settled balanced, placed, List.map_cons, List.map_nil,
    Part.compile, hparameter, Reported.collect, Reported.map, List.flatMap_cons, List.flatMap_nil,
    List.append_nil]
  exact ⟨rfl, trivial⟩

end Stencil
