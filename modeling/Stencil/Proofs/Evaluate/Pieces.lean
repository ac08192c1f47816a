import Stencil.Proofs.Compile.Nested
import Stencil.Proofs.Params.Lookup
import Stencil.Proofs.Text.Replacing

/-! # Pieces that are kept as they are

A nested pattern that is the anonymous parameter and nothing else renders every text as it is. A split
whose pieces are rendered by it only puts the joiner in the place of the separator, which is what a
replacement does. -/
namespace Stencil

theorem Parameter.format_anonymous (place : ByteRange) (options : FormatOptions) (params : Params) :
    Parameter.format ⟨[], [], none, none, place⟩ options params =
      (some (.parameter [] ((params.resolve? []).getD []) 0), params) := rfl

namespace Pattern

theorem parts_compile_anonymous (options : Options) :
    (compile "%[]".toList options).parts = [.parameter ⟨[], [], none, none, ⟨0, 3⟩⟩] := by
  have hpieces : Piece.ofSource (symbols "%[]".toList) = [.parameter []] := by decide +kernel
  have hbody : BodyPiece.ofSource [] = [] := by decide +kernel
  have hname : splitName [] = ([], []) := rfl
  have hparameter (nested : Clause.Nest Pattern) :
      Parameter.compile options nested 0 [] = ⟨⟨[], [], none, none, ⟨0, 3⟩⟩, []⟩ := by
    simp only [Parameter.compile, hname, hbody]
    rfl
  simp only [compile, compileSymbols, parts, layer, Layer.compile, hpieces, placed, List.map_cons,
    List.map_nil, Part.compile, hparameter]
  rfl

theorem render_anonymous {options : Options} {depth : Nat} (allowed : depth ≤ options.maxDepth)
    (given : FormatOptions) (value : Text) (params : Params) :
    ((compile "%[]".toList options).meaningAt depth).render given value params =
      (some value, params) := by
  have hdepth : ¬ (compile "%[]".toList options).options.maxDepth < depth := Nat.not_lt.2 allowed
  have hparts : ((compile "%[]".toList options).levelAt depth).parts =
      [.parameter ⟨[], [], none, none, ⟨0, 3⟩⟩] := by
    change ((compile "%[]".toList options).parts).map _ = _
    rw [parts_compile_anonymous]
    rfl
  rw [Meaning.render, meaningAt_eq, if_neg hdepth]
  simp only [Layer.meaning, Layer.format, hparts, formatParts, Part.format,
    Parameter.format_anonymous, Params.resolve?_insert_self, Option.getD_some, Option.map_some,
    Params.restore_get?]
  rw [Span.render_cons, Span.render_nil, List.append_nil]
  rfl

end Pattern

namespace Meaning

theorem renderAll_of_render {m : Meaning} {options : FormatOptions}
    (h : ∀ value params, m.render options value params = (some value, params)) (pieces : List Text)
    (params : Params) : m.renderAll options pieces params = (some pieces, params) := by
  induction pieces with
  | nil => rfl
  | cons piece rest ih => simp only [renderAll, h, ih, Option.map_some]

end Meaning

theorem Combinator.run_single {γ σ : Type} (c : Combinator) {evaluate : γ → Span → σ → Option Span × σ}
    {group : γ} {span edited : Span} {state after : σ}
    (h : evaluate group span state = (some edited, after)) :
    c.run evaluate none [group] span state = (true, edited, after) := by
  cases c <;> simp only [run, h] <;> rfl

/-- The arguments of the replacement for a split with these arguments. -/
structure Group.Exchanges (group exchange : Group Pattern) : Prop where
  separator : exchange.text 0 = group.text 0
  sensitive : exchange.casing 0 = .sensitive
  joiner : exchange.text 1 = group.text 2

def Tag.single (name : Text) (f : Function) (operators : Operators) (group : Group Pattern) :
    Tag Pattern := ⟨name, some f, operators, [group]⟩

theorem Tag.evaluate_single {f : Function} {group : Group Pattern} {depth : Nat}
    {options : FormatOptions} {span edited : Span} {params after : Params}
    (h : f.evaluate options (group.interpretAt depth) span params = (some edited, after)) (name : Text)
    (operators : Operators) (mode : Mode) :
    ((single name f operators group).interpretAt depth).evaluate mode options span params =
      (!operators.negated, edited, after) := by
  have hfunction : ((single name f operators group).interpretAt depth).function = some f := rfl
  have hgroups : ((single name f operators group).interpretAt depth).runGroups =
      [group.interpretAt depth] := rfl
  rw [evaluate, hfunction]
  simp only [hgroups]
  rw [Combinator.run_single _ h]
  exact congrArg (·, edited, after) (Bool.true_bne _)

theorem Function.evaluate_replace {exchange : Group Pattern} (sensitive : exchange.casing 0 = .sensitive)
    (depth : Nat) (options : FormatOptions) (span : Span) (params : Params) :
    replace.evaluate options (exchange.interpretAt depth) span params =
      (some (span.rewrite (Casing.sensitive.replaceAll (exchange.text 0) span.text (exchange.text 1))),
        params) := by
  rw [evaluate, Change.replace, Group.interpretAt, Group.casing_map, Group.text_map, Group.text_map,
    sensitive]

theorem Call.joiner_interpretAt (group : Group Pattern) (depth : Nat) :
    joiner (group.interpretAt depth) = if group.isPresent 2 then group.text 2 else group.text 0 := by
  have hpresent : (group.interpretAt depth).isPresent 2 = group.isPresent 2 := by
    rw [Group.isPresent, Group.interpretAt, Group.component?_map, Option.isSome_map]
    rfl
  rw [joiner, hpresent, Group.interpretAt, Group.text_map, Group.text_map]

section

variable {o : Options} {group : Group Pattern} {depth : Nat}
  (each : group.nested? 1 = some (.compile "%[]".toList o)) (allowed : depth < o.maxDepth)

include each allowed

/-- A split whose pieces are kept joins what it has cut. -/
theorem Function.evaluate_split (options : FormatOptions) (span : Span) (params : Params) :
    split.evaluate options (group.interpretAt depth) span params =
      (some (span.rewrite (Casing.sensitive.replaceAll (group.text 0) span.text
        (if group.isPresent 2 then group.text 2 else group.text 0))), params) := by
  have hnested : (group.interpretAt depth).nested? 1 =
      some ((Pattern.compile "%[]".toList o).meaningAt (depth + 1)) := by
    rw [Group.interpretAt, Group.nested?_map, each]
    rfl
  have htext : (group.interpretAt depth).text 0 = group.text 0 := Group.text_map _ _ _
  have hrendered (pieces : List Text) :=
    Meaning.renderAll_of_render (Pattern.render_anonymous allowed options) pieces params
  rw [evaluate, Call.split, hnested]
  simp only [hrendered, htext, Call.joiner_interpretAt, Option.map_some]
  rfl

/-- A split that keeps its pieces and joins them again leaves a text as it is. With another joiner it
does what a replacement of the separator by that does, also as the one call of a tag in any mode: the
text is cut at the separators, and a loop that copies what stands between them gives the same. -/
theorem Function.split_eq_replace (options : FormatOptions) (span : Span) (params : Params) :
    (group.isPresent 2 = false →
      split.evaluate options (group.interpretAt depth) span params = (some span, params)) ∧
    (group.isPresent 2 = true →
      (∃ pieces,
        (∀ other, Casing.sensitive.Cuts (group.text 0) span.text other ↔ other = pieces) ∧
        Casing.sensitive.replaceLoop (group.text 0) span.text (group.text 2) =
          .ok ((group.text 2).intercalate pieces) ∧
        split.evaluate options (group.interpretAt depth) span params =
          (some (span.rewrite ((group.text 2).intercalate pieces)), params)) ∧
      ∀ exchange, group.Exchanges exchange →
        split.evaluate options (group.interpretAt depth) span params =
          replace.evaluate options (exchange.interpretAt depth) span params ∧
        ∀ name operators mode,
          ((Tag.single name split operators group).interpretAt depth).evaluate mode options span
              params =
            ((Tag.single name replace operators exchange).interpretAt depth).evaluate mode options span
              params) := by
  have hsplit := evaluate_split each allowed options span params
  constructor
  · intro absent
    rw [hsplit, absent, if_neg Bool.false_ne_true, Casing.replaceAll_self, Span.rewrite, if_pos rfl]
  · intro present
    rw [if_pos present] at hsplit
    refine ⟨⟨_, fun other => Casing.cuts_iff.trans eq_comm, Casing.replaceLoop_eq _ _ _ _, hsplit⟩, ?_⟩
    intro exchange h
    have hreplace := evaluate_replace h.sensitive depth options span params
    rw [h.separator, h.joiner] at hreplace
    refine ⟨hsplit.trans hreplace.symm, ?_⟩
    intro name operators mode
    rw [Tag.evaluate_single hsplit, Tag.evaluate_single hreplace]

end

/-- A separator that overlaps itself, with another case mode than counts for it. -/
def Group.doubled : Group Pattern :=
  ⟨[some ⟨.text "aa".toList, .insensitive⟩, some ⟨.nested (.compile "%[]".toList {}), .sensitive⟩,
    some ⟨.text "-".toList, .sensitive⟩]⟩

def Group.doubledExchange : Group Pattern :=
  ⟨[some ⟨.text "aa".toList, .sensitive⟩, some ⟨.text "-".toList, .insensitive⟩]⟩

theorem Function.split_eq_replace_doubled :
    Group.doubled.nested? 1 = some (.compile "%[]".toList {}) ∧ 63 < ({} : Options).maxDepth ∧
      Group.doubled.isPresent 2 = true ∧ Group.doubled.Exchanges Group.doubledExchange ∧
      ∀ options params, let span : Span := .parameter "v".toList "aaaXaa".toList 5
        split.evaluate options (Group.doubled.interpretAt 63) span params =
          (some ⟨"-aX-".toList, 5, 6, .parameter "v".toList, true⟩, params) ∧
        split.evaluate options (Group.doubled.interpretAt 63) span params =
          replace.evaluate options (Group.doubledExchange.interpretAt 63) span params := by
  have each : Group.doubled.nested? 1 = some (.compile "%[]".toList {}) := rfl
  have allowed : 63 < ({} : Options).maxDepth := by decide
  have exchange : Group.doubled.Exchanges Group.doubledExchange := ⟨rfl, rfl, rfl⟩
  refine ⟨each, allowed, rfl, exchange, ?_⟩
  intro options params span
  obtain ⟨⟨pieces, -, hloop, hsplit⟩, hreplace⟩ :=
    (split_eq_replace each allowed options span params).2 rfl
  have hcopied : Casing.sensitive.replaceLoop "aa".toList "aaaXaa".toList "-".toList =
      .ok "-aX-".toList := by decide +kernel
  have hpieces : "-".toList.intercalate pieces = "-aX-".toList :=
    Except.ok.inj (hloop.symm.trans hcopied)
  refine ⟨?_, (hreplace _ exchange).1⟩
  rw [hsplit]
  exact congrArg (fun text => (some (span.rewrite text), params)) hpieces

end Stencil
