import Stencil.Proofs.Params.Lookup
import Stencil.Proofs.Params.Names
import Stencil.Session

/-! # What evaluation writes

Checking and formatting write the names of parameters and the names that `copy` is called with, in the
pattern or nested in it, and nothing else. The anonymous entry is rebound while a nested pattern is
formatted, and it is put back whether that succeeds or fails. -/
namespace Stencil

namespace Params

/-- Evaluation may change what is held under the names `written`, and it may only remove what is held
under the names `removed`. -/
structure Kept (written removed : Text → Prop) (before after : Params) : Prop where
  outside : ∀ name, ¬ written name → after.get? name = before.get? name
  stays : ∀ name, ¬ removed name → before.contains name = true → after.contains name = true

namespace Kept

variable {written removed : Text → Prop} {before between after : Params} {name : Text}

theorem refl (params : Params) : Kept written removed params params := by
  constructor
  · intro name _
    rfl
  · intro name _ hcontains
    exact hcontains

theorem trans (h : Kept written removed before between) (k : Kept written removed between after) :
    Kept written removed before after := by
  constructor
  · intro name hname
    exact (k.outside name hname).trans (h.outside name hname)
  · intro name hname hcontains
    exact k.stays name hname (h.stays name hname hcontains)

theorem mono (h : Kept written removed before after) {more gone : Text → Prop}
    (writes : ∀ name, written name → more name) (removes : ∀ name, removed name → gone name) :
    Kept more gone before after := by
  constructor
  · intro name hname
    exact h.outside name fun hw => hname (writes name hw)
  · intro name hname
    exact h.stays name fun hr => hname (removes name hr)

theorem insert (h : Kept written removed before after) (hname : written name) (value : ParamValue) :
    Kept written removed before (after.insert name value) := by
  constructor
  · intro other hother
    have hne : other ≠ name := by
      rintro rfl
      exact hother hname
    rw [get?_insert_of_ne hne]
    exact h.outside other hother
  · intro other hother hcontains
    by_cases same : other = name
    · rw [same, contains, get?_insert_self]
      rfl
    · rw [contains, get?_insert_of_ne same]
      exact h.stays other hother hcontains

theorem erase (h : Kept written removed before after) (hname : written name)
    (hremoved : removed name) : Kept written removed before (after.erase name) := by
  constructor
  · intro other hother
    have hne : other ≠ name := by
      rintro rfl
      exact hother hname
    rw [get?_erase_of_ne hne]
    exact h.outside other hother
  · intro other hother hcontains
    have hne : other ≠ name := by
      rintro rfl
      exact hother hremoved
    rw [contains, get?_erase_of_ne hne]
    exact h.stays other hother hcontains

/-- A name may be bound to any value in between if afterwards it holds what it held. -/
theorem restore (value : ParamValue)
    (h : Kept written removed (before.insert name value) after) :
    Kept written removed before (after.restore name (before.get? name)) := by
  constructor
  · intro other hother
    by_cases same : other = name
    · rw [same, get?_restore_self]
    · have houtside := h.outside other hother
      rw [get?_insert_of_ne same] at houtside
      rw [get?_restore_of_ne same, houtside]
  · intro other hother hcontains
    by_cases same : other = name
    · rw [same] at hcontains ⊢
      rw [contains, get?_restore_self]
      exact hcontains
    · have hstays := h.stays other hother
      rw [contains, get?_insert_of_ne same] at hstays
      rw [contains, get?_restore_of_ne same]
      exact hstays hcontains

end Kept

/-- One run of evaluation, seen as two that are the same: both have kept what `start` holds. -/
def KeptFrom (written removed : Text → Prop) (start a b : Params) : Prop :=
  a = b ∧ Kept written removed start a

variable {written removed : Text → Prop} {start : Params} {name : Text}

theorem stores_keptFrom (h : written name) : Stores (KeptFrom written removed start) name := by
  rintro text a _ ⟨rfl, hkept⟩
  exact ⟨rfl, hkept.insert h (.text text)⟩

theorem removes_keptFrom (h : written name) (hremoved : removed name) :
    Removes (KeptFrom written removed start) name := by
  rintro a _ ⟨rfl, hkept⟩
  exact ⟨rfl, hkept.erase h hremoved⟩

theorem shows_keptFrom : Shows (KeptFrom written removed start) name := by
  rintro a _ ⟨rfl, -⟩
  rfl

end Params

theorem Alike.kept {α : Type} {written removed : Text → Prop} {start : Params} {x : α × Params}
    (h : Alike (Params.KeptFrom written removed start) x x) :
    Params.Kept written removed start x.2 := by
  obtain ⟨result, a, b, rfl, -, -, hkept⟩ := h
  exact hkept

/-- Used so, a nested pattern writes these names at most, and removes none. -/
def Meaning.Frames (written : Text → Prop) (m : Meaning) : Mode → Prop
  | .check => ∀ text before result, m.check text before = some result →
    Params.Kept written (fun _ => False) before result.2
  | .format => ∀ options before, options.removeConsumed = false →
    Params.Kept written (fun _ => False) before (m.format options before).2

namespace Meaning

variable {written removed : Text → Prop}

theorem Frames.render {m : Meaning} (h : m.Frames written .format) (options : FormatOptions)
    (value : Text) (before : Params) :
    Params.Kept written (fun _ => False) before (m.render options value before).2 :=
  (h { options with removeConsumed := false } _ rfl).restore (.text value)

theorem Frames.respects {m : Meaning} {use : Mode} (h : m.Frames written use) (removed : Text → Prop)
    (start : Params) : m.Respects (Params.KeptFrom written removed start) use := by
  have weaken {before after : Params} (k : Params.Kept written (fun _ => False) before after) :
      Params.Kept written removed before after := k.mono (fun _ hw => hw) fun _ hr => hr.elim
  cases use with
  | check =>
    rintro text a _ ⟨rfl, hkept⟩
    cases hcheck : m.check text a with
    | none => exact .none
    | some result =>
      have hafter := hkept.trans (weaken (h text a result hcheck))
      exact .some ⟨result.1, result.2, result.2, rfl, rfl, rfl, hafter⟩
  | format =>
    rintro options text a _ ⟨rfl, hkept⟩
    have hafter := hkept.trans (weaken (h.render options text a))
    exact ⟨_, _, _, rfl, rfl, rfl, hafter⟩

end Meaning

namespace Pattern

/-- The pattern may store a value under the name: a parameter has it, or `copy` is called with it, here
or in a nested pattern. -/
def Writes (p : Pattern) (name : Text) : Prop := name ≠ [] ∧ p.Mentions .copy name

/-- Formatting uses up the value of a parameter of the pattern itself. -/
def Consumes (p : Pattern) (options : FormatOptions) (name : Text) : Prop :=
  options.removeConsumed = true ∧ name ≠ [] ∧ ∃ q ∈ p.layer.parameters, q.name = name

theorem Stores.writes {p : Pattern} {name : Text} {use : Mode} (h : p.Stores name use) :
    p.Writes name := ⟨h.named, h.mentions⟩

theorem Consumes.writes {p : Pattern} {options : FormatOptions} {name : Text}
    (h : p.Consumes options name) : p.Writes name := by
  rcases p with ⟨layer⟩
  obtain ⟨-, hname, q, hq, same⟩ := h
  exact ⟨hname, .parameter hq same⟩

variable {written : Text → Prop} {layer : Layer Pattern} {depth : Nat} {use : Mode}

theorem suits_keptFrom
    (nested : ∀ {inner q}, layer.Uses inner q → (q.meaningAt (depth + 1)).Frames written inner)
    (covers : ∀ name, (of layer).Stores name use → written name) (removed : Text → Prop)
    (start : Params) :
    ∀ p ∈ ((of layer).levelAt depth).parameters,
      p.Suits (Params.KeptFrom written removed start) use := by
  apply suits_levelAt
  · intro inner q huses
    exact (nested huses).respects removed start
  · intro name hpasses hname
    exact Params.stores_keptFrom (covers name (.copied hpasses hname))
  · intro name _
    exact Params.shows_keptFrom
  · exact Params.shows_keptFrom
  · rintro rfl q hq hname
    exact Params.stores_keptFrom (covers q.name (.captured hq rfl hname))
  · intro _ q _
    exact Params.shows_keptFrom

theorem kept_check
    (nested : ∀ {inner q}, layer.Uses inner q → (q.meaningAt (depth + 1)).Frames written inner)
    (covers : ∀ name, (of layer).Stores name .check → written name) {text : Text} {before : Params}
    {result : List Span × Params}
    (h : ((of layer).levelAt depth).check text before = some result) :
    Params.Kept written (fun _ => False) before result.2 := by
  have hsuits := suits_keptFrom nested covers (fun _ => False) before
  have halike := Layer.alike_check hsuits text ⟨rfl, .refl before⟩
  rw [h] at halike
  cases halike with
  | some hresult => exact hresult.kept

theorem kept_format
    (nested : ∀ {inner q}, layer.Uses inner q → (q.meaningAt (depth + 1)).Frames written inner)
    (covers : ∀ name, (of layer).Stores name .format → written name) {options : FormatOptions}
    (consumes : ∀ name, (of layer).Consumes options name → written name) (before : Params) :
    Params.Kept written ((of layer).Consumes options) before
      (((of layer).levelAt depth).format options before).2 := by
  have hsuits := suits_keptFrom nested covers ((of layer).Consumes options) before
  have hremoves : options.removeConsumed = true → ∀ p ∈ ((of layer).levelAt depth).parameters,
      p.name ≠ [] →
      Params.Removes (Params.KeptFrom written ((of layer).Consumes options) before) p.name := by
    intro hremove p hp hname
    rw [levelAt, Layer.parameters_map] at hp
    obtain ⟨q, hq, rfl⟩ := List.mem_map.1 hp
    have hconsumes : (of layer).Consumes options q.name := ⟨hremove, hname, q, hq, rfl⟩
    exact Params.removes_keptFrom (consumes _ hconsumes) hconsumes
  exact (Layer.alike_format hsuits hremoves ⟨rfl, .refl before⟩).kept

/-- A check and a format write the names that the pattern stores when it is used so, and formatting uses
up the values of the pattern's own parameters at most. -/
structure Stored (p : Pattern) (m : Meaning) : Prop where
  check : ∀ {written : Text → Prop}, (∀ name, p.Stores name .check → written name) →
    m.Frames written .check
  format : ∀ {written : Text → Prop} {options : FormatOptions},
    (∀ name, p.Stores name .format → written name) →
    (∀ name, p.Consumes options name → written name) → ∀ before,
    Params.Kept written (p.Consumes options) before (m.format options before).2

theorem Stored.frames {p : Pattern} {m : Meaning} (h : p.Stored m)
    (covers : ∀ name, p.Stores name use → written name) : m.Frames written use := by
  cases use with
  | check => exact h.check covers
  | format =>
    intro options before hoptions
    have hnone : ∀ name, ¬ p.Consumes options name := by
      intro name hconsumes
      exact Bool.false_ne_true (hoptions.symm.trans hconsumes.1)
    have hkept := h.format covers (fun name hconsumes => absurd hconsumes (hnone name)) before
    exact hkept.mono (fun _ hw => hw) hnone

theorem stored_meaningAt (p : Pattern) (depth : Nat) : p.Stored (p.meaningAt depth) := by
  induction p using Pattern.induction generalizing depth with
  | level layer ih =>
    have nested {written : Text → Prop} {use : Mode}
        (covers : ∀ name, (of layer).Stores name use → written name) {inner : Mode} {q : Pattern}
        (huses : layer.Uses inner q) : (q.meaningAt (depth + 1)).Frames written inner :=
      (ih q huses.mem_nested (depth + 1)).frames fun name hstores => covers name (.nested huses hstores)
    rw [meaningAt_eq]
    split
    · constructor
      · intro written _ text before result h
        cases h
      · intro written options _ _ before
        exact .refl before
    · constructor
      · intro written covers text before result h
        exact kept_check (nested covers) covers h
      · intro written options covers consumes before
        exact kept_format (nested covers) covers consumes before

/-- At every depth a pattern writes the names it may write at most, and uses up the values of its own
parameters at most. -/
theorem kept_meaningAt (p : Pattern) (depth : Nat) (covers : ∀ name, p.Writes name → written name) :
    (∀ text before result, (p.meaningAt depth).check text before = some result →
      Params.Kept written (fun _ => False) before result.2) ∧
    ∀ options before,
      Params.Kept written (p.Consumes options) before ((p.meaningAt depth).format options before).2 := by
  have hstored := p.stored_meaningAt depth
  have hcovers (use : Mode) : ∀ name, p.Stores name use → written name :=
    fun name hstores => covers name hstores.writes
  refine ⟨hstored.check (hcovers .check), ?_⟩
  intro options before
  exact hstored.format (hcovers .format) (fun name hconsumes => covers name hconsumes.writes) before

end Pattern

/-- After a check or a format, whether it succeeds or fails, every entry outside the names that the
pattern writes is what it was, the anonymous one included, and only formatting removes any: the values
of the pattern's own parameters, if they are to be used up. A check that fails changes nothing. -/
theorem Session.evaluation_frame (s : Session) (p : Pattern) :
    (∀ text,
      (s.check p text).2.params.get? [] = s.params.get? [] ∧
      Params.Kept p.Writes (fun _ => False) s.params (s.check p text).2.params ∧
      ((s.check p text).1 = none → (s.check p text).2 = s)) ∧
    (∀ options,
      (s.format p options).2.params.get? [] = s.params.get? [] ∧
      Params.Kept p.Writes (p.Consumes options) s.params (s.format p options).2.params) := by
  have hanonymous : ¬ p.Writes [] := fun h => h.1 rfl
  obtain ⟨hcheck, hformat⟩ := p.kept_meaningAt 0 fun name (hw : p.Writes name) => hw
  constructor
  · intro text
    cases h : p.check text s.params with
    | none =>
      have hnone : s.check p text = (none, s) := by rw [check, h]
      rw [hnone]
      exact ⟨rfl, .refl s.params, fun _ => rfl⟩
    | some result =>
      have hsome : s.check p text = (some result.1, { s with params := result.2 }) := by rw [check, h]
      have hkept := hcheck text s.params result h
      rw [hsome]
      refine ⟨hkept.outside [] hanonymous, hkept, ?_⟩
      intro hresult
      cases hresult
  · intro options
    have hkept := hformat options s.params
    exact ⟨hkept.outside [] hanonymous, hkept⟩

namespace Session

/-- The nested pattern is formatted with the anonymous entry bound anew, and fails for want of a value. -/
def rebinding : Pattern := .compile "%[v{format=%[x]}]".toList {}

def occupied : Session :=
  start (.ofList [([], .lazy "k".toList), ("v".toList, .text "1".toList)])

theorem evaluation_frame_rebinding :
    (occupied.format rebinding .strict).1.isSome = false ∧
      (occupied.format rebinding .strict).2.params.get? [] = some (.lazy "k".toList) := by
  obtain ⟨-, hformat⟩ := evaluation_frame occupied rebinding
  obtain ⟨hanonymous, -⟩ := hformat .strict
  refine ⟨by decide +kernel, hanonymous.trans ?_⟩
  decide +kernel

end Session

end Stencil
