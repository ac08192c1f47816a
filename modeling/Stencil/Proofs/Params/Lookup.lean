import Stencil.Params

/-! # Looking up parameters

Inserting and erasing change what one name holds and nothing else. Maps are equal if every name holds
the same in them. -/
namespace Stencil

theorem Text.not_precedes_self (text : Text) : ¬ text.precedes text := by
  induction text with
  | nil => exact Bool.false_ne_true
  | cons c cs ih => simpa [precedes] using ih

namespace Entry

theorem lookup_cons_of_ne {name other : Text} (h : other ≠ name) (value : ParamValue)
    (entries : List Entry) : List.lookup other ((name, value) :: entries) = entries.lookup other := by
  rw [List.lookup_cons, beq_eq_false_iff_ne.2 h]

theorem lookup_insert_self (name : Text) (value : ParamValue) (entries : List Entry) :
    (insert name value entries).lookup name = some value := by
  induction entries with
  | nil => rw [insert, List.lookup_cons_self]
  | cons head rest ih =>
    rcases head with ⟨other, held⟩
    rw [insert]
    by_cases first : name.precedes other
    · rw [if_pos first]
      exact List.lookup_cons_self
    · rw [if_neg first]
      by_cases same : name = other
      · rw [if_pos same]
        exact List.lookup_cons_self
      · rw [if_neg same, lookup_cons_of_ne same]
        exact ih

theorem lookup_insert_of_ne {name other : Text} (h : other ≠ name) (value : ParamValue)
    (entries : List Entry) : (insert name value entries).lookup other = entries.lookup other := by
  induction entries with
  | nil => exact lookup_cons_of_ne h value []
  | cons head rest ih =>
    rcases head with ⟨key, held⟩
    rw [insert]
    by_cases first : name.precedes key
    · rw [if_pos first]
      exact lookup_cons_of_ne h value _
    · rw [if_neg first]
      by_cases same : name = key
      · subst same
        rw [if_pos rfl, lookup_cons_of_ne h, lookup_cons_of_ne h]
      · rw [if_neg same, List.lookup_cons, List.lookup_cons, ih]

theorem lookup_erase_self (name : Text) (entries : List Entry) :
    (erase name entries).lookup name = none := by
  rw [List.lookup_eq_none_iff]
  intro e he
  have hne := (List.mem_filter.1 he).2
  simpa using fun same : name = e.1 => (of_decide_eq_true hne) same.symm

theorem lookup_erase_of_ne {name other : Text} (h : other ≠ name) (entries : List Entry) :
    (erase name entries).lookup other = entries.lookup other := by
  induction entries with
  | nil => rfl
  | cons head rest ih =>
    rcases head with ⟨key, held⟩
    rw [erase] at ih ⊢
    by_cases same : key = name
    · subst same
      rw [List.filter_cons_of_neg (by simp), ih, lookup_cons_of_ne h]
    · rw [List.filter_cons_of_pos (by simpa using same), List.lookup_cons, List.lookup_cons, ih]

theorem precedes_of_lookup {head : Entry} {rest : List Entry} (h : Ascending (head :: rest))
    {name : Text} {value : ParamValue} (held : rest.lookup name = some value) :
    head.1.precedes name := by
  obtain ⟨before, after, rfl, -⟩ := List.lookup_eq_some_iff.1 held
  have hmem : (name, value) ∈ before ++ (name, value) :: after :=
    List.mem_append_right before List.mem_cons_self
  exact (List.pairwise_cons.1 h).1 _ hmem

theorem name_eq_of_lookup {a b : Entry} {as bs : List Entry} (ha : Ascending (a :: as))
    (hb : Ascending (b :: bs)) (same : ∀ name, (a :: as).lookup name = (b :: bs).lookup name) :
    a.1 = b.1 := by
  refine Classical.byContradiction fun differs => ?_
  have hbs : bs.lookup a.1 = some a.2 := by
    rw [← lookup_cons_of_ne differs b.2, ← same, List.lookup_cons_self]
  have has : as.lookup b.1 = some b.2 := by
    rw [← lookup_cons_of_ne (Ne.symm differs) a.2, same, List.lookup_cons_self]
  -- each of the two names would stand before the other
  have hround := Text.precedes_trans (precedes_of_lookup ha has) (precedes_of_lookup hb hbs)
  exact Text.not_precedes_self a.1 hround

theorem eq_of_lookup {as bs : List Entry} (ha : Ascending as) (hb : Ascending bs)
    (same : ∀ name, as.lookup name = bs.lookup name) : as = bs := by
  induction as generalizing bs with
  | nil =>
    cases bs with
    | nil => rfl
    | cons b bs =>
      have hfirst := same b.1
      rw [List.lookup_cons_self] at hfirst
      cases hfirst
  | cons a as ih =>
    cases bs with
    | nil =>
      have hfirst := same a.1
      rw [List.lookup_cons_self] at hfirst
      cases hfirst
    | cons b bs =>
      have hname := name_eq_of_lookup ha hb same
      have hvalue : some a.2 = some b.2 := by
        have hfirst := same a.1
        rw [List.lookup_cons_self, hname, List.lookup_cons_self] at hfirst
        exact hfirst
      have hhead : a = b := Prod.ext hname (Option.some.inj hvalue)
      subst hhead
      refine congrArg (a :: ·) (ih (List.Pairwise.of_cons ha) (List.Pairwise.of_cons hb) ?_)
      intro name
      by_cases hheld : name = a.1
      · -- the name of the first entry is held only there
        have hnone {rest : List Entry} (h : Ascending (a :: rest)) : rest.lookup a.1 = none := by
          cases hl : rest.lookup a.1 with
          | none => rfl
          | some value => exact absurd (precedes_of_lookup h hl) (Text.not_precedes_self a.1)
        rw [hheld, hnone ha, hnone hb]
      · have hrest := same name
        rwa [lookup_cons_of_ne hheld, lookup_cons_of_ne hheld] at hrest

end Entry

namespace Params

theorem eq_of_get? {a b : Params} (same : ∀ name, a.get? name = b.get? name) : a = b :=
  ext (Entry.eq_of_lookup a.ascending b.ascending same)

@[simp] theorem get?_insert_self (params : Params) (name : Text) (value : ParamValue) :
    (params.insert name value).get? name = some value :=
  Entry.lookup_insert_self name value params.entries

theorem get?_insert_of_ne {name other : Text} (h : other ≠ name) (params : Params)
    (value : ParamValue) : (params.insert name value).get? other = params.get? other :=
  Entry.lookup_insert_of_ne h value params.entries

@[simp] theorem get?_erase_self (params : Params) (name : Text) :
    (params.erase name).get? name = none :=
  Entry.lookup_erase_self name params.entries

theorem get?_erase_of_ne {name other : Text} (h : other ≠ name) (params : Params) :
    (params.erase name).get? other = params.get? other :=
  Entry.lookup_erase_of_ne h params.entries

@[simp] theorem resolve?_insert_self (params : Params) (name : Text) (value : ParamValue) :
    (params.insert name value).resolve? name = some value.resolve := by
  rw [resolve?, get?_insert_self]
  rfl

theorem resolve?_insert_of_ne {name other : Text} (h : other ≠ name) (params : Params)
    (value : ParamValue) : (params.insert name value).resolve? other = params.resolve? other := by
  rw [resolve?, resolve?, get?_insert_of_ne h]

@[simp] theorem resolve?_erase_self (params : Params) (name : Text) :
    (params.erase name).resolve? name = none := by
  rw [resolve?, get?_erase_self]
  rfl

theorem resolve?_erase_of_ne {name other : Text} (h : other ≠ name) (params : Params) :
    (params.erase name).resolve? other = params.resolve? other := by
  rw [resolve?, resolve?, get?_erase_of_ne h]

@[simp] theorem get?_restore_self (params : Params) (name : Text) (value : Option ParamValue) :
    (params.restore name value).get? name = value := by
  cases value with
  | none => exact get?_erase_self params name
  | some value => exact get?_insert_self params name value

theorem get?_restore_of_ne {name other : Text} (h : other ≠ name) (params : Params)
    (value : Option ParamValue) : (params.restore name value).get? other = params.get? other := by
  cases value with
  | none => exact get?_erase_of_ne h params
  | some value => exact get?_insert_of_ne h params value

theorem restore_get? (params : Params) (name : Text) (value : ParamValue) :
    (params.insert name value).restore name (params.get? name) = params := by
  apply eq_of_get?
  intro other
  by_cases same : other = name
  · rw [same, get?_restore_self]
  · rw [get?_restore_of_ne same, get?_insert_of_ne same]

end Params

end Stencil
