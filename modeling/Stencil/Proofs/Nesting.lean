import Stencil.Proofs.Compile.Nested

/-! # The bound on nesting

A compiler that stops at a greatest depth leaves nothing below it. So what a compiled pattern means
does not depend on whether the depth is looked at again when the pattern is interpreted. -/
namespace Stencil.Pattern

/-- What a pattern means when no level asks how deep it is. -/
def unguarded : Pattern → Meaning := fold Layer.meaning

theorem unguarded_of (layer : Layer Pattern) :
    unguarded (of layer) = (layer.map unguarded).meaning :=
  fold_of Layer.meaning layer

/-- The patterns that stand so many levels down. -/
def nestedAt : Nat → Pattern → List Pattern
  | 0, p => [p]
  | levels + 1, p => p.layer.nested.flatMap (nestedAt levels)

theorem map_ofLiteral {π ρ : Type} (g : π → ρ) (text : Text) (options : Options) :
    (Layer.ofLiteral text options).map g = .ofLiteral text options := by
  simp only [Layer.map, Layer.ofLiteral]
  cases text <;> rfl

theorem nested_literal (text : Text) (options : Options) : (literal text options).layer.nested = [] := by
  cases text <;> rfl

variable (options : Options)

theorem exists_of_mem_nestedAt {depth levels : Nat} {position : Nat} {raw : List Symbol} {q : Pattern}
    (h : q ∈ nestedAt depth (compileNested options levels position raw).value) :
    ∃ rest position raw, levels = depth + rest ∧ q = (compileNested options rest position raw).value := by
  induction depth generalizing levels position raw with
  | zero =>
    have hq : q = (compileNested options levels position raw).value := List.mem_singleton.1 h
    exact ⟨levels, position, raw, (Nat.zero_add levels).symm, hq⟩
  | succ depth ih =>
    obtain ⟨inner, hinner, hq⟩ := List.mem_flatMap.1 h
    cases levels with
    | zero =>
      rw [compileNested, nested_literal] at hinner
      cases hinner
    | succ levels =>
      obtain ⟨position, raw, rfl⟩ := Layer.exists_of_mem_nested hinner
      obtain ⟨rest, position, raw, hlevels, hq⟩ := ih hq
      exact ⟨rest, position, raw, by omega, hq⟩

/-- Within the bound a level means what it means unguarded, if its nested patterns do. -/
theorem meaningAt_level {nested : Clause.Nest Pattern} {depth : Nat} (source : List Symbol)
    (within : depth ≤ options.maxDepth)
    (same : ∀ position raw, (nested position raw).value.meaningAt (depth + 1) =
      (nested position raw).value.unguarded) :
    (of (.compile options nested source)).meaningAt depth =
      (of (.compile options nested source)).unguarded := by
  have hguard : ¬ (of (.compile options nested source)).options.maxDepth < depth :=
    Nat.not_lt.2 within
  have hnested : Clause.Nest.map (meaningAt · (depth + 1)) nested =
      Clause.Nest.map unguarded nested := by
    funext position raw
    exact congrArg (Reported.mk · _) (same position raw)
  rw [meaningAt_eq, if_neg hguard, unguarded_of, ← Layer.compile_map, ← hnested, Layer.compile_map]
  rfl

theorem meaningAt_compileNested {levels depth : Nat} (h : depth + levels ≤ options.maxDepth)
    (position : Nat) (raw : List Symbol) :
    (compileNested options levels position raw).value.meaningAt depth =
      (compileNested options levels position raw).value.unguarded := by
  induction levels generalizing depth position raw with
  | zero =>
    have hguard : ¬ (literal (meant raw) options).options.maxDepth < depth := Nat.not_lt.2 h
    rw [compileNested, meaningAt_eq, if_neg hguard, literal, unguarded_of, map_ofLiteral]
    exact congrArg Layer.meaning (map_ofLiteral _ _ _)
  | succ levels ih =>
    have hdeeper : depth + 1 + levels ≤ options.maxDepth := by omega
    exact meaningAt_level options raw (by omega) fun position raw => ih hdeeper position raw

/-- Under a bound of at least one level, a compiled pattern checks and formats as it does when no
level asks for its depth. What is nested in it is compiled above the bound, and is text exactly at
the bound. -/
theorem check_unguarded (source : Text) (options : Options) (h : 1 ≤ options.maxDepth) :
    (∀ text params, (compile source options).check text params =
      (compile source options).unguarded.check text params) ∧
    (∀ formatOptions params, (compile source options).format formatOptions params =
      (compile source options).unguarded.format formatOptions params) ∧
    ∀ depth, 1 ≤ depth → ∀ q ∈ nestedAt depth (compile source options),
      (depth < options.maxDepth ∧ ∃ raw, q =
        of (.compile options (compileNested options (options.maxDepth - depth - 1)) raw)) ∨
      (depth = options.maxDepth ∧ ∃ raw, q = literal (meant raw) options) := by
  have hmeaning : (compile source options).meaningAt 0 = (compile source options).unguarded := by
    refine meaningAt_level options (symbols source) (Nat.zero_le _) ?_
    intro position raw
    exact meaningAt_compileNested options (by omega) position raw
  refine ⟨?_, ?_, ?_⟩
  · intro text params
    rw [check, hmeaning]
  · intro formatOptions params
    rw [format, hmeaning]
  · intro depth hdepth q hq
    obtain ⟨above, rfl⟩ : ∃ above, depth = above + 1 := ⟨depth - 1, by omega⟩
    obtain ⟨inner, hinner, hq⟩ := List.mem_flatMap.1 hq
    obtain ⟨position, raw, rfl⟩ := Layer.exists_of_mem_nested hinner
    obtain ⟨rest, position, raw, hlevels, rfl⟩ := exists_of_mem_nestedAt options hq
    cases rest with
    | zero => exact .inr ⟨by omega, raw, rfl⟩
    | succ rest =>
      have hrest : options.maxDepth - (above + 1) - 1 = rest := by omega
      rw [hrest]
      exact .inl ⟨by omega, raw, rfl⟩

/-- Three levels under a bound of two, so that the innermost is text. -/
def towering : Pattern := compile "%[v{pattern=%[w{pattern=%[x]}]}]".toList { maxDepth := 2 }

theorem check_unguarded_towering :
    1 ≤ 2 ∧ (towering.unguarded.check "%[x]".toList .empty).isSome = true ∧
      (towering.unguarded.check "a".toList .empty).isSome = false := by
  have hcheck : (towering.check "%[x]".toList .empty).isSome = true ∧
      (towering.check "a".toList .empty).isSome = false := by decide +kernel
  obtain ⟨hsame, -, -⟩ :=
    check_unguarded "%[v{pattern=%[w{pattern=%[x]}]}]".toList { maxDepth := 2 } (by decide)
  rw [towering, hsame, hsame] at hcheck
  exact ⟨by decide, hcheck⟩

/-- Under a bound of none the nested text stands above the bound, and the guard refuses it. -/
example :
    let p := compile "%[v{pattern=a}]".toList { maxDepth := 0 }
    (p.check "a".toList .empty).isSome = false ∧
      (p.unguarded.check "a".toList .empty).isSome = true := by
  decide +kernel

end Stencil.Pattern
