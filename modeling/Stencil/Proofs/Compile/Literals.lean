import Mathlib.Data.List.Chain
import Stencil.Compile

/-! # Literals of a compiled pattern

Neighbouring literals are joined, so between two literals there always stands a parameter; and every
literal compares as the pattern does. -/
namespace Stencil

variable {π : Type}

namespace Part

/-- Not both are literals. -/
def Apart (a b : Part π) : Prop := a.literal? = none ∨ b.literal? = none

/-- A literal compares in this way. -/
def Compares (casing : Casing) : Part π → Prop
  | .literal l => l.casing = casing
  | .parameter _ => True

theorem join_of_apart {part : Part π} {parts : List (Part π)}
    (h : ∀ next ∈ parts.head?, part.Apart next) : join part parts = part :: parts := by
  rw [join]
  rintro l m rest rfl rfl
  rcases h _ rfl with hl | hm
  · cases hl
  · cases hm

theorem join_join (l m : Literal) (parts : List (Part π)) :
    join (.literal l) (join (.literal m) parts) =
      join (.literal ⟨l.text ++ m.text, l.casing, ⟨l.source.start, m.source.stop⟩⟩) parts := by
  cases parts with
  | nil => rfl
  | cons next rest =>
    cases next with
    | parameter p => rfl
    | literal n =>
      simp only [join, List.append_assoc]

theorem isChain_join (part : Part π) {parts : List (Part π)} (h : parts.IsChain Apart) :
    (join part parts).IsChain Apart := by
  cases part with
  | parameter p =>
    rw [join]
    · exact h.cons (fun _ _ => .inl rfl)
    · intro l m rest he
      cases he
  | literal l =>
    cases parts with
    | nil => exact .singleton _
    | cons next rest =>
      cases next with
      | parameter p => exact .cons_cons (.inr rfl) h
      | literal m =>
        cases rest with
        | nil => exact .singleton _
        | cons after rest =>
          -- the joined literal is as far from what follows as the second one was
          obtain ⟨hm, hrest⟩ := List.isChain_cons_cons.1 h
          have hafter : after.literal? = none := hm.resolve_left fun hl => by cases hl
          exact .cons_cons (.inr hafter) hrest

theorem isChain_foldr_join (parts : List (Part π)) : (parts.foldr join []).IsChain Apart := by
  induction parts with
  | nil => exact .nil
  | cons part parts ih => exact isChain_join part ih

theorem compares_join {casing : Casing} {part : Part π} {parts : List (Part π)}
    (hp : part.Compares casing) (h : ∀ q ∈ parts, q.Compares casing) :
    ∀ q ∈ join part parts, q.Compares casing := by
  intro q hq
  cases part with
  | parameter p =>
    rcases List.mem_cons.1 hq with rfl | hq
    · trivial
    · exact h q hq
  | literal l =>
    cases parts with
    | nil =>
      rw [List.mem_singleton.1 hq]
      exact hp
    | cons next rest =>
      cases next with
      | parameter p =>
        rcases List.mem_cons.1 hq with rfl | hq
        · exact hp
        · exact h q hq
      | literal m =>
        rcases List.mem_cons.1 hq with rfl | hq
        · exact hp
        · exact h q (List.mem_cons_of_mem _ hq)

theorem compares_foldr_join {casing : Casing} {parts : List (Part π)}
    (h : ∀ q ∈ parts, q.Compares casing) : ∀ q ∈ parts.foldr join [], q.Compares casing := by
  induction parts with
  | nil => intro q hq; cases hq
  | cons part parts ih =>
    exact compares_join (h part List.mem_cons_self) (ih fun q hq => h q (List.mem_cons_of_mem _ hq))

theorem compares_compile (options : Options) (nested : Clause.Nest π) (position : Nat)
    (piece : Piece) : (compile options nested position piece).value.Compares options.casing := by
  cases piece with
  | symbol s => rfl
  | opener => rfl
  | parameter body => trivial

end Part

theorem Layer.compares_compile (options : Options) (nested : Clause.Nest π) (source : List Symbol) :
    ∀ part ∈ (compile options nested source).parts, part.Compares options.casing := by
  refine Part.compares_foldr_join ?_
  intro q hq
  simp only [Reported.collect, List.map_map, List.mem_map, Function.comp_apply] at hq
  obtain ⟨⟨position, piece⟩, -, rfl⟩ := hq
  exact Part.compares_compile options nested position piece

namespace Pattern

theorem compares_compile (source : Text) (options : Options) :
    ∀ part ∈ (compile source options).parts, part.Compares options.casing :=
  Layer.compares_compile options _ (symbols source)

end Pattern

end Stencil
