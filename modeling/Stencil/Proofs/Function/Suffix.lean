import Stencil.Proofs.Scan.Name
import Stencil.Proofs.Compile.Head
import Mathlib.Data.List.Induction

/-! # The suffix language

Behind a short name stand tokens, each of which is spelled by letters. The spelling can be read back
(`SuffixToken.read?_eq_some_iff`), so a name that is not the name of a function stands for at most one
short name and one list of tokens, whatever is searched first. -/
namespace Stencil

inductive SuffixToken where
  | all
  | a
  | n
  | c
  deriving DecidableEq, Repr

namespace SuffixToken

def letters : SuffixToken → Text
  | all => ['a', 'l', 'l']
  | a => ['a']
  | n => ['n']
  | c => ['c']

def spell (tokens : List SuffixToken) : Text := tokens.flatMap letters

def meaning (pattern : Casing) : SuffixToken → Operators
  | all => .combine .and
  | a => .combine .and
  | n => .negation
  | c => .casing pattern.opposite

/-- What tokens imply, in whatever order and number they stand. -/
def implied (pattern : Casing) (tokens : List SuffixToken) : Operators where
  combinator? := if a ∈ tokens ∨ all ∈ tokens then some .and else none
  negated := n ∈ tokens
  casing? := if c ∈ tokens then some pattern.opposite else none

/-- The tokens of a suffix, `all` before `a`. -/
def read? : Text → Option (List SuffixToken)
  | [] => some []
  | 'a' :: 'l' :: 'l' :: rest => (read? rest).map (all :: ·)
  | 'a' :: rest => (read? rest).map (a :: ·)
  | 'n' :: rest => (read? rest).map (n :: ·)
  | 'c' :: rest => (read? rest).map (c :: ·)
  | _ => none

theorem spell_of_read? {suffix : Text} {tokens : List SuffixToken} (h : read? suffix = some tokens) :
    spell tokens = suffix := by
  fun_induction read? suffix generalizing tokens with
  | case1 =>
    cases h
    rfl
  | case6 => cases h
  | case2 more ih | case3 more _ ih | case4 more ih | case5 more ih =>
    obtain ⟨rest, hrest, rfl⟩ := Option.map_eq_some_iff.1 h
    rw [spell, List.flatMap_cons, ← ih hrest]
    rfl

/-- No token is spelled with an `l` in front, so an `a` is not taken for the start of `all`. -/
theorem read?_spell (tokens : List SuffixToken) : read? (spell tokens) = some tokens := by
  induction tokens with
  | nil => rfl
  | cons token rest ih =>
    rw [spell, List.flatMap_cons, ← spell]
    cases token with
    | all => simp [letters, read?, ih]
    | n => simp [letters, read?, ih]
    | c => simp [letters, read?, ih]
    | a =>
      have hnext : ∀ more, spell rest ≠ 'l' :: 'l' :: more := by
        intro more
        cases rest with
        | nil => simp [spell]
        | cons next _ => cases next <;> simp [spell, letters]
      rw [letters, List.singleton_append, read?, ih, Option.map_some]
      exact hnext

theorem read?_eq_some_iff {suffix : Text} {tokens : List SuffixToken} :
    read? suffix = some tokens ↔ suffix = spell tokens :=
  ⟨fun h => (spell_of_read? h).symm, fun h => h ▸ read?_spell tokens⟩

theorem spell_injective : Function.Injective spell := by
  intro tokens tokens' h
  have hread := read?_spell tokens
  rw [h, read?_spell] at hread
  exact (Option.some.inj hread).symm

theorem suffixWords?_eq (pattern : Casing) (suffix : Text) :
    Resolution.suffixWords? pattern suffix = (read? suffix).map (List.map (meaning pattern)) := by
  fun_induction read? suffix with
  | case1 => rfl
  | case2 rest ih =>
    rw [Resolution.suffixWords?, ih, Option.map_map, Option.map_map]
    rfl
  | case3 rest _ ih =>
    rw [Resolution.suffixWords?, ih, Option.map_map, Option.map_map]
    · rfl
    · assumption
  | case4 rest ih =>
    rw [Resolution.suffixWords?, ih, Option.map_map, Option.map_map]
    rfl
  | case5 rest ih =>
    rw [Resolution.suffixWords?, ih, Option.map_map, Option.map_map]
    rfl
  | case6 suffix => rw [Resolution.suffixWords?, Option.map_none] <;> assumption

theorem implied_append (pattern : Casing) (tokens : List SuffixToken) (token : SuffixToken) :
    implied pattern (tokens ++ [token]) = (implied pattern tokens).apply (meaning pattern token) := by
  cases token <;>
    simp [implied, meaning, Operators.apply, Operators.combine, Operators.negation, Operators.casing,
      Operators.empty]

theorem applyAll_meaning (pattern : Casing) (tokens : List SuffixToken) :
    Operators.empty.applyAll (tokens.map (meaning pattern)) = implied pattern tokens := by
  induction tokens using List.reverseRecOn with
  | nil => rfl
  | append_singleton tokens token ih =>
    rw [implied_append, ← ih, Operators.applyAll, List.map_append, List.foldl_append]
    rfl

end SuffixToken

open SuffixToken

namespace Resolution

variable (pattern : Casing)

theorem ofShortName?_name (f : Function) : ofShortName? pattern f.name = none := by
  cases pattern <;> cases f <;> decide +kernel

theorem ofCut?_spell (f : Function) (tokens : List SuffixToken) :
    ofCut? pattern f.shortName (spell tokens) = some ⟨f, some (implied pattern tokens)⟩ := by
  refine ofCut?_eq_some_iff.2 ⟨f, tokens.map (meaning pattern), rfl, ?_, ?_⟩
  · rw [suffixWords?_eq, read?_spell, Option.map_some]
  · rw [applyAll_meaning]

theorem ofShortName?_eq_some_iff_spell {name : Text} {r : Resolution} :
    ofShortName? pattern name = some r ↔
      ∃ f tokens, name = f.shortName ++ spell tokens ∧ r = ⟨f, some (implied pattern tokens)⟩ := by
  rw [ofShortName?_eq_some_iff]
  constructor
  · rintro ⟨front, back, rfl, h⟩
    obtain ⟨f, words, rfl, hwords, rfl⟩ := ofCut?_eq_some_iff.1 h
    rw [suffixWords?_eq, Option.map_eq_some_iff] at hwords
    obtain ⟨tokens, htokens, rfl⟩ := hwords
    exact ⟨f, tokens, by rw [read?_eq_some_iff.1 htokens], by rw [applyAll_meaning]⟩
  · rintro ⟨f, tokens, rfl, rfl⟩
    exact ⟨_, _, rfl, ofCut?_spell pattern f tokens⟩

theorem name_ne_spell (f g : Function) (tokens : List SuffixToken) :
    f.name ≠ g.shortName ++ spell tokens := by
  intro h
  have hfound := (ofShortName?_eq_some_iff_spell .sensitive).2 ⟨g, tokens, h, rfl⟩
  rw [ofShortName?_name] at hfound
  cases hfound

theorem spell_unique {f g : Function} {tokens tokens' : List SuffixToken}
    (h : f.shortName ++ spell tokens = g.shortName ++ spell tokens') : f = g ∧ tokens = tokens' := by
  obtain ⟨hfront, hback⟩ :=
    eq_of_ofCut? (ofCut?_spell .sensitive f tokens) (ofCut?_spell .sensitive g tokens') h
  have hf := Function.ofShortName?_shortName f
  rw [hfront, Function.ofShortName?_shortName] at hf
  exact ⟨(Option.some.inj hf).symm, spell_injective hback⟩

theorem ofName?_spell (f : Function) (tokens : List SuffixToken) :
    ofName? pattern (f.shortName ++ spell tokens) = some ⟨f, some (implied pattern tokens)⟩ := by
  have hname : Function.ofName? (f.shortName ++ spell tokens) = none :=
    Option.eq_none_iff_forall_ne_some.2 fun g hg =>
      name_ne_spell g f tokens (Function.ofName?_eq_some_iff.1 hg)
  rw [ofName?, hname]
  exact (ofShortName?_eq_some_iff_spell pattern).2 ⟨f, tokens, rfl, rfl⟩

theorem exists_of_ofName? {name : Text} {r : Resolution} (h : ofName? pattern name = some r) :
    (∃ f : Function, name = f.name) ∨
      ∃ (f : Function) (tokens : List SuffixToken), name = f.shortName ++ spell tokens := by
  unfold ofName? at h
  split at h
  case h_1 f hf => exact .inl ⟨f, (Function.ofName?_eq_some_iff.1 hf).symm⟩
  case h_2 =>
    obtain ⟨f, tokens, hname, -⟩ := (ofShortName?_eq_some_iff_spell pattern).1 h
    exact .inr ⟨f, tokens, hname⟩

/-- What a name stands for. A name stands for something only if it is the name of a function, which
brings no operators along, or a short name with a suffix. No name is both, and the second kind has one
short name and one list of tokens; what these stand for is the function and what the tokens imply. The
search by byte positions finds the same and never leaves the name. -/
theorem ofName?_exact (name : Text) :
    Scan.resolve pattern name = .ok (ofName? pattern name) ∧
    ((ofName? pattern name).isSome ↔ (∃ f : Function, name = f.name) ∨
      ∃ (f : Function) (tokens : List SuffixToken), name = f.shortName ++ spell tokens) ∧
    (∀ f : Function, name = f.name → ofName? pattern name = some ⟨f, none⟩ ∧
      ∀ (g : Function) (tokens : List SuffixToken), name ≠ g.shortName ++ spell tokens) ∧
    ∀ (f : Function) (tokens : List SuffixToken), name = f.shortName ++ spell tokens →
      ofName? pattern name = some ⟨f, some (implied pattern tokens)⟩ ∧
      ∀ (g : Function) (tokens' : List SuffixToken), name = g.shortName ++ spell tokens' →
        g = f ∧ tokens' = tokens := by
  refine ⟨Scan.resolve_eq pattern name, ⟨?_, ?_⟩, ?_, ?_⟩
  · intro h
    obtain ⟨r, hr⟩ := Option.isSome_iff_exists.1 h
    exact exists_of_ofName? pattern hr
  · rintro (⟨f, rfl⟩ | ⟨f, tokens, rfl⟩)
    · rw [ofName?_name]
      rfl
    · rw [ofName?_spell]
      rfl
  · rintro f rfl
    exact ⟨ofName?_name pattern f, name_ne_spell f⟩
  · rintro f tokens rfl
    exact ⟨ofName?_spell pattern f tokens, fun g tokens' h => spell_unique h.symm⟩

end Resolution

end Stencil
