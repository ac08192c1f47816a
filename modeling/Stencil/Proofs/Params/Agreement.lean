import Stencil.Proofs.Params.Lookup
import Stencil.Proofs.Params.Names
import Stencil.Session

/-! # What evaluation reads

Checking and formatting look up the anonymous name, the names of parameters and the names that
`validate` is called with, in the pattern or nested in it. On maps that agree there they show the same
results and leave maps that agree there again, whatever else the maps hold, and whether a text is held
as it is or produced on demand. -/
namespace Stencil

namespace Params

/-- Both maps hold the same text under each of the names, or both hold none. -/
def AgreeOn (names : Text → Prop) (a b : Params) : Prop :=
  ∀ name, names name → a.resolve? name = b.resolve? name

variable {names : Text → Prop} {a b : Params} {name : Text}

theorem AgreeOn.insert (h : AgreeOn names a b) (name text : Text) :
    AgreeOn names (a.insert name (.text text)) (b.insert name (.text text)) := by
  intro other hother
  by_cases same : other = name
  · rw [same, resolve?_insert_self, resolve?_insert_self]
  · rw [resolve?_insert_of_ne same, resolve?_insert_of_ne same]
    exact h other hother

theorem AgreeOn.erase (h : AgreeOn names a b) (name : Text) :
    AgreeOn names (a.erase name) (b.erase name) := by
  intro other hother
  by_cases same : other = name
  · rw [same, resolve?_erase_self, resolve?_erase_self]
  · rw [resolve?_erase_of_ne same, resolve?_erase_of_ne same]
    exact h other hother

theorem AgreeOn.restore (h : AgreeOn names a b) {before other : Params}
    (held : AgreeOn names before other) (name : Text) :
    AgreeOn names (a.restore name (before.get? name)) (b.restore name (other.get? name)) := by
  intro key hkey
  by_cases same : key = name
  · subst same
    rw [resolve?, resolve?, get?_restore_self, get?_restore_self]
    exact held key hkey
  · rw [resolve?, resolve?, get?_restore_of_ne same, get?_restore_of_ne same]
    exact h key hkey

theorem stores_agreeOn (name : Text) : Stores (AgreeOn names) name := by
  intro text a b hab
  exact hab.insert name text

theorem removes_agreeOn (name : Text) : Removes (AgreeOn names) name := by
  intro a b hab
  exact hab.erase name

theorem shows_agreeOn (h : names name) : Shows (AgreeOn names) name := by
  intro a b hab
  exact hab name h

end Params

/-- A pattern that formats alike renders alike: the anonymous entry is bound to one text in both maps,
and put back to values that resolve to the same. -/
theorem Meaning.Respects.of_format {names : Text → Prop} {m : Meaning}
    (check : ∀ text a b, Params.AgreeOn names a b →
      Option.Rel (Alike (Params.AgreeOn names)) (m.check text a) (m.check text b))
    (format : ∀ options a b, Params.AgreeOn names a b →
      Alike (Params.AgreeOn names) (m.format options a) (m.format options b)) (use : Mode) :
    m.Respects (Params.AgreeOn names) use := by
  cases use with
  | check => exact check
  | format =>
    intro options text a b hab
    have hbound := hab.insert [] text
    obtain ⟨result, a', b', ha, hb, hab'⟩ :=
      format { options with removeConsumed := false } _ _ hbound
    rw [Meaning.render, Meaning.render, ha, hb]
    exact ⟨result.map Span.render, _, _, rfl, rfl, hab'.restore hab []⟩

namespace Pattern

/-- The pattern may look up the name: it is the anonymous one, a parameter has it, or `validate` is
called with it, here or in a nested pattern. -/
def Reads (p : Pattern) (name : Text) : Prop := name = [] ∨ p.Mentions .validate name

instance (p : Pattern) (name : Text) : Decidable (p.Reads name) :=
  inferInstanceAs (Decidable (name = [] ∨ p.Mentions .validate name))

theorem Reads.nested {layer : Layer Pattern} {q : Pattern} (h : q ∈ layer.nested) {name : Text}
    (hr : q.Reads name) : (of layer).Reads name := by
  rcases hr with hanonymous | hmentions
  · exact .inl hanonymous
  · exact .inr (.nested h hmentions)

variable {names : Text → Prop} {layer : Layer Pattern} {depth : Nat}

theorem suits_agreeOn
    (nested : ∀ q ∈ layer.nested, ∀ inner,
      (q.meaningAt (depth + 1)).Respects (Params.AgreeOn names) inner)
    (covers : ∀ name, (of layer).Reads name → names name) (use : Mode) :
    ∀ p ∈ ((of layer).levelAt depth).parameters, p.Suits (Params.AgreeOn names) use := by
  apply suits_levelAt fun {inner q} huses => nested q huses.mem_nested inner
  · intro name _ _
    exact Params.stores_agreeOn name
  · intro name hpasses
    exact Params.shows_agreeOn (covers name (.inr (.argument hpasses)))
  · exact Params.shows_agreeOn (covers [] (.inl rfl))
  · intro _ q _ _
    exact Params.stores_agreeOn q.name
  · intro _ q hq
    exact Params.shows_agreeOn (covers q.name (.inr (.parameter hq rfl)))

/-- At every depth a pattern is alike on maps that agree on the names it may look up. -/
theorem alike_meaningAt (p : Pattern) (depth : Nat) (covers : ∀ name, p.Reads name → names name) :
    (∀ text a b, Params.AgreeOn names a b → Option.Rel (Alike (Params.AgreeOn names))
      ((p.meaningAt depth).check text a) ((p.meaningAt depth).check text b)) ∧
    ∀ options a b, Params.AgreeOn names a b → Alike (Params.AgreeOn names)
      ((p.meaningAt depth).format options a) ((p.meaningAt depth).format options b) := by
  induction p using Pattern.induction generalizing depth with
  | level layer ih =>
    have nested : ∀ q ∈ layer.nested, ∀ inner,
        (q.meaningAt (depth + 1)).Respects (Params.AgreeOn names) inner := by
      intro q hq
      obtain ⟨hcheck, hformat⟩ := ih q hq (depth + 1) fun name hr => covers name (hr.nested hq)
      exact .of_format hcheck hformat
    have hsuits := suits_agreeOn nested covers
    rw [meaningAt_eq]
    split
    · constructor
      · intro text a b _
        exact .none
      · intro options a b hab
        exact .same hab none
    · constructor
      · intro text a b hab
        exact Layer.alike_check (hsuits .check) text hab
      · intro options a b hab
        exact Layer.alike_format (hsuits .format) (fun _ p _ _ => Params.removes_agreeOn p.name) hab

end Pattern

namespace Session

/-- On maps that agree on the names that a pattern may look up, checking has the same result and so has
formatting, and the maps that are left agree on those names again. -/
theorem evaluation_agrees (p : Pattern) {s t : Session} (h : Params.AgreeOn p.Reads s.params t.params) :
    (∀ text, (s.check p text).1 = (t.check p text).1 ∧
      Params.AgreeOn p.Reads (s.check p text).2.params (t.check p text).2.params) ∧
    (∀ options, (s.format p options).1 = (t.format p options).1 ∧
      Params.AgreeOn p.Reads (s.format p options).2.params (t.format p options).2.params) := by
  obtain ⟨hcheck, hformat⟩ := p.alike_meaningAt 0 fun name (hr : p.Reads name) => hr
  constructor
  · intro text
    have halike : Option.Rel (Alike (Params.AgreeOn p.Reads)) (p.check text s.params)
        (p.check text t.params) := hcheck text s.params t.params h
    rw [check, check]
    obtain ⟨hs, ht⟩ | ⟨spans, a, b, hs, ht, hab⟩ := Alike.of_rel halike
    · rw [hs, ht]
      exact ⟨rfl, h⟩
    · rw [hs, ht]
      exact ⟨rfl, hab⟩
  · intro options
    obtain ⟨spans, a, b, hs, ht, hab⟩ := hformat options s.params t.params h
    rw [format, format, Pattern.format, Pattern.format, hs, ht]
    exact ⟨rfl, hab⟩

/-- The value is copied to a name that the pattern nested in the next tag renders. -/
def copying : Pattern := .compile "%[v{copy=c}{validate=k,%[c]}]".toList {}

/-- The one session holds the text that is asked for, the other produces it, and they differ in a name
that the pattern does not look up. -/
def holding : Session :=
  start (.ofList [("k".toList, .text "q".toList), ("z".toList, .text "1".toList)])

def producing : Session := start (.ofList [("k".toList, .lazy "q".toList)])

theorem evaluation_agrees_copying :
    Params.AgreeOn copying.Reads holding.params producing.params ∧ ¬ copying.Reads "z".toList ∧
      (holding.check copying "q".toList).1 = (producing.check copying "q".toList).1 ∧
      (holding.check copying "q".toList).1.isSome = true := by
  have hagree : Params.AgreeOn copying.Reads holding.params producing.params := by
    have hlist : ∀ name ∈ [] :: copying.mentioned .validate,
        holding.params.resolve? name = producing.params.resolve? name := by decide +kernel
    rintro name (hanonymous | hmentions)
    · exact hlist name (hanonymous ▸ List.mem_cons_self)
    · exact hlist name (List.mem_cons_of_mem _ (Pattern.mem_mentioned_iff.2 hmentions))
  obtain ⟨hcheck, -⟩ := evaluation_agrees copying hagree
  exact ⟨hagree, by decide +kernel, (hcheck "q".toList).1, by decide +kernel⟩

end Session

end Stencil
