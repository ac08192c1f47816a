import Stencil.Text.Basic

/-! # Parameters

Named values, kept in the order of their names. Each map has one list of entries, so maps with the
same entries are equal. -/
namespace Stencil

/-- A lazy value yields its text when it is asked for; it always yields the same one. -/
inductive ParamValue where
  | text (text : Text)
  | lazy (text : Text)
  deriving DecidableEq, Repr

def ParamValue.resolve : ParamValue → Text
  | text t => t
  | lazy t => t

namespace Text

/-- Order by code points, which is the order of the bytes as well. -/
def precedes : Text → Text → Bool
  | _, [] => false
  | [], _ :: _ => true
  | a :: as, b :: bs => a.toNat < b.toNat || (a = b && precedes as bs)

theorem precedes_trans {x y z : Text} (h : x.precedes y) (k : y.precedes z) : x.precedes z := by
  induction x generalizing y z with
  | nil =>
    cases z with
    | nil => cases y <;> simp [precedes] at k
    | cons c cs => rfl
  | cons a as ih =>
    cases y with
    | nil => simp [precedes] at h
    | cons b bs =>
      cases z with
      | nil => simp [precedes] at k
      | cons c cs =>
        simp only [precedes, Bool.or_eq_true, Bool.and_eq_true, decide_eq_true_eq] at h k ⊢
        rcases h with h | ⟨rfl, h⟩
        · rcases k with k | ⟨rfl, k⟩
          · exact .inl (by omega)
          · exact .inl h
        · rcases k with k | ⟨rfl, k⟩
          · exact .inl k
          · exact .inr ⟨rfl, ih h k⟩

theorem precedes_of_not {x y : Text} (h : ¬ x.precedes y) (differs : x ≠ y) : y.precedes x := by
  induction x generalizing y with
  | nil =>
    cases y with
    | nil => exact absurd rfl differs
    | cons b bs => exact absurd rfl h
  | cons a as ih =>
    cases y with
    | nil => rfl
    | cons b bs =>
      simp only [precedes, Bool.or_eq_true, Bool.and_eq_true, decide_eq_true_eq, not_or,
        not_and] at h ⊢
      by_cases same : a = b
      · subst same
        exact .inr ⟨rfl, ih (h.2 rfl) fun e => differs (e ▸ rfl)⟩
      · have : a.toNat ≠ b.toNat := fun e => same (Char.toNat_inj.1 e)
        exact .inl (by omega)

end Text

abbrev Entry := Text × ParamValue

namespace Entry

def Ascending (entries : List Entry) : Prop := entries.Pairwise fun a b => a.1.precedes b.1

def insert (name : Text) (value : ParamValue) : List Entry → List Entry
  | [] => [(name, value)]
  | (other, held) :: rest =>
    if name.precedes other then (name, value) :: (other, held) :: rest
    else if name = other then (name, value) :: rest
    else (other, held) :: insert name value rest

def erase (name : Text) (entries : List Entry) : List Entry := entries.filter (·.1 ≠ name)

theorem eq_or_mem_of_mem_insert {name : Text} {value : ParamValue} {entries : List Entry}
    {e : Entry} (h : e ∈ insert name value entries) : e = (name, value) ∨ e ∈ entries := by
  induction entries with
  | nil => simpa [insert] using h
  | cons head rest ih =>
    simp only [insert] at h
    split at h
    · simpa using h
    · split at h
      · simp only [List.mem_cons] at h ⊢
        exact h.imp id .inr
      · simp only [List.mem_cons] at h ⊢
        rcases h with h | h
        · exact .inr (.inl h)
        · exact (ih h).imp id .inr

theorem ascending_insert (name : Text) (value : ParamValue) {entries : List Entry}
    (h : Ascending entries) : Ascending (insert name value entries) := by
  induction entries with
  | nil => simp [insert, Ascending]
  | cons head rest ih =>
    obtain ⟨below, sorted⟩ := List.pairwise_cons.1 h
    simp only [insert]
    split
    case isTrue first =>
      refine List.pairwise_cons.2 ⟨fun e he => ?_, h⟩
      rcases List.mem_cons.1 he with rfl | he
      · exact first
      · exact Text.precedes_trans first (below e he)
    case isFalse later =>
      split
      case isTrue same => exact List.pairwise_cons.2 ⟨fun e he => same ▸ below e he, sorted⟩
      case isFalse differs =>
        refine List.pairwise_cons.2 ⟨fun e he => ?_, ih sorted⟩
        rcases eq_or_mem_of_mem_insert he with rfl | he
        · exact Text.precedes_of_not later differs
        · exact below e he

theorem ascending_erase (name : Text) {entries : List Entry} (h : Ascending entries) :
    Ascending (erase name entries) :=
  h.filter _

end Entry

structure Params where
  entries : List Entry
  ascending : Entry.Ascending entries

namespace Params

theorem ext {a b : Params} (h : a.entries = b.entries) : a = b := by
  cases a; cases b; cases h; rfl

def empty : Params := ⟨[], List.Pairwise.nil⟩

def insert (params : Params) (name : Text) (value : ParamValue) : Params :=
  ⟨Entry.insert name value params.entries, Entry.ascending_insert name value params.ascending⟩

def erase (params : Params) (name : Text) : Params :=
  ⟨Entry.erase name params.entries, Entry.ascending_erase name params.ascending⟩

def get? (params : Params) (name : Text) : Option ParamValue := params.entries.lookup name

/-- The text of the value, which a lazy value yields now. -/
def resolve? (params : Params) (name : Text) : Option Text := (params.get? name).map (·.resolve)

def contains (params : Params) (name : Text) : Bool := (params.get? name).isSome

/-- Hold this value, or none at all. -/
def restore (params : Params) (name : Text) : Option ParamValue → Params
  | some value => params.insert name value
  | none => params.erase name

def size (params : Params) : Nat := params.entries.length

def isEmpty (params : Params) : Bool := params.entries.isEmpty

def names (params : Params) : List Text := params.entries.map (·.1)

/-- Of two entries with one name the later counts. -/
def ofList (entries : List Entry) : Params :=
  entries.foldl (fun params e => params.insert e.1 e.2) empty

end Params

end Stencil
