import Mathlib.Data.List.Chain
import Stencil.Pattern
import Stencil.Proofs.Compile.Head

/-! # Drafts

A pattern as its author thinks of it: literal texts, and captures with their lengths and with calls
of functions, whose arguments may again be drafts. A draft is printed as a source, and it is built
into the pattern that it stands for, each part with its place in the printed source. -/
namespace Stencil

variable {π ρ σ : Type}

namespace Draft

inductive Argument (π : Type) where
  | int32 (number : Option Int32)
  | int64 (number : Option Int64)
  | text (text : Text)
  | nested (draft : π)

structure Call (π : Type) where
  function : Function
  words : List Word
  groups : List (List (Argument π))

structure Capture (π : Type) where
  name : Text
  /-- Lengths fit in 64 bits. -/
  fixed : Option UInt64
  min : Option UInt64
  calls : List (Call π)

inductive Item (π : Type) where
  | literal (text : Text)
  | capture (capture : Capture π)

def Argument.map (g : π → ρ) : Argument π → Argument ρ
  | int32 number => int32 number
  | int64 number => int64 number
  | text t => text t
  | nested draft => nested (g draft)

def Call.map (g : π → ρ) (call : Call π) : Call ρ :=
  ⟨call.function, call.words, call.groups.map (List.map (.map g))⟩

def Capture.map (g : π → ρ) (c : Capture π) : Capture ρ :=
  ⟨c.name, c.fixed, c.min, c.calls.map (.map g)⟩

def Item.map (g : π → ρ) : Item π → Item ρ
  | literal text => literal text
  | capture c => capture (c.map g)

end Draft

inductive Draft where
  | of (items : List (Draft.Item Draft))

namespace Draft

section

variable (f : List (Item π) → π)

mutual

def fold : Draft → π
  | of items => f (foldItems items)

def foldItems : List (Item Draft) → List (Item π)
  | [] => []
  | .literal text :: rest => .literal text :: foldItems rest
  | .capture ⟨name, fixed, min, calls⟩ :: rest =>
    .capture ⟨name, fixed, min, foldCalls calls⟩ :: foldItems rest

def foldCalls : List (Call Draft) → List (Call π)
  | [] => []
  | ⟨function, words, groups⟩ :: rest => ⟨function, words, foldGroups groups⟩ :: foldCalls rest

def foldGroups : List (List (Argument Draft)) → List (List (Argument π))
  | [] => []
  | group :: rest => foldArguments group :: foldGroups rest

def foldArguments : List (Argument Draft) → List (Argument π)
  | [] => []
  | .int32 number :: rest => .int32 number :: foldArguments rest
  | .int64 number :: rest => .int64 number :: foldArguments rest
  | .text text :: rest => .text text :: foldArguments rest
  | .nested draft :: rest => .nested (fold draft) :: foldArguments rest

end

theorem foldArguments_eq (arguments : List (Argument Draft)) :
    foldArguments f arguments = arguments.map (.map (fold f)) := by
  induction arguments with
  | nil => rfl
  | cons argument rest ih => cases argument <;> simp [foldArguments, Argument.map, ih]

theorem foldGroups_eq (groups : List (List (Argument Draft))) :
    foldGroups f groups = groups.map (List.map (.map (fold f))) := by
  induction groups with
  | nil => rfl
  | cons group rest ih => simp [foldGroups, foldArguments_eq, ih]

theorem foldCalls_eq (calls : List (Call Draft)) :
    foldCalls f calls = calls.map (.map (fold f)) := by
  induction calls with
  | nil => rfl
  | cons call rest ih => simp [foldCalls, foldGroups_eq, Call.map, ih]

theorem foldItems_eq (items : List (Item Draft)) :
    foldItems f items = items.map (.map (fold f)) := by
  induction items with
  | nil => rfl
  | cons item rest ih =>
    cases item <;> simp [foldItems, foldCalls_eq, Item.map, Capture.map, ih]

theorem fold_of (items : List (Item Draft)) : fold f (of items) = f (items.map (.map (fold f))) := by
  rw [fold, foldItems_eq]

end

theorem Argument.map_map (g : ρ → σ) (f : π → ρ) (argument : Argument π) :
    (argument.map f).map g = argument.map (g ∘ f) := by
  cases argument <;> rfl

theorem Call.map_map (g : ρ → σ) (f : π → ρ) (call : Call π) :
    (call.map f).map g = call.map (g ∘ f) := by
  simp only [Call.map, List.map_map]
  congr 2
  funext group
  simp only [Function.comp_apply, List.map_map]
  congr 1
  funext argument
  exact Argument.map_map g f argument

theorem Item.map_map (g : ρ → σ) (f : π → ρ) (item : Item π) :
    (item.map f).map g = item.map (g ∘ f) := by
  cases item with
  | literal text => rfl
  | capture c =>
    simp only [Item.map, Capture.map, List.map_map]
    congr 3
    funext call
    exact Call.map_map g f call

def Argument.print : Argument Text → Text
  | int32 number => (number.map fun n => Decimal.ofInt n.toInt).getD []
  | int64 number => (number.map fun n => Decimal.ofInt n.toInt).getD []
  | text t => t.escape
  | nested source => source

def printGroup (group : List (Argument Text)) : Text := [','].intercalate (group.map (·.print))

def Call.print (call : Call Text) : Text :=
  Clause.headOf call.function call.words ++ '=' :: [';'].intercalate (call.groups.map printGroup)

def printLength (directive : Text) (length : UInt64) : Text :=
  directive ++ '=' :: Decimal.ofNat length.toNat

/-- What stands in the curly brackets of a capture. -/
def Capture.clauses (c : Capture Text) : List Text :=
  (c.fixed.map (printLength "plf".toList)).toList ++ (c.min.map (printLength "plm".toList)).toList
    ++ c.calls.map (·.print)

def Capture.body (c : Capture Text) : Text :=
  c.name.escape ++ c.clauses.flatMap fun clause => '\x7b' :: (clause ++ ['\x7d'])

def Item.print : Item Text → Text
  | literal text => text.escape
  | capture c => '%' :: '[' :: (c.body ++ [']'])

def printItems (items : List (Item Text)) : Text := items.flatMap (·.print)

def print : Draft → Text := fold printItems

def Argument.value? : Argument π → Option (Value π)
  | int32 number => number.map .int32
  | int64 number => number.map .int64
  | text t => some (.text t)
  | nested p => some (.nested p)

def Argument.component? (casing : Casing) (argument : Argument π) (slot : Slot) :
    Option (Component π) :=
  argument.value?.map fun value => ⟨value, if slot.keepsCase then .sensitive else casing⟩

def Call.operators (call : Call π) : Operators :=
  Operators.empty.applyAll (call.words.map (·.meaning))

def Call.tag (pattern : Casing) (call : Call π) : Tag π where
  name := call.function.name
  function := some call.function
  operators := call.operators
  groups := call.groups.map fun group =>
    ⟨group.zipWith (Argument.component? (call.operators.casingIn pattern)) call.function.slots⟩

def Capture.parameter (pattern : Casing) (source : ByteRange) (c : Capture π) : Parameter π where
  name := c.name
  tags := c.calls.map (Call.tag pattern)
  fixed := c.fixed.map (·.toNat)
  min := c.min.map (·.toNat)
  source

def Item.part (pattern : Casing) (source : ByteRange) : Item π → Part π
  | literal text => .literal ⟨text, pattern, source⟩
  | capture c => .parameter (c.parameter pattern source)

def partsFrom (pattern : Casing) : Nat → List (Item Pattern) → List (Part Pattern)
  | _, [] => []
  | start, item :: rest =>
    let stop := start + (item.map Pattern.source).print.size
    item.part pattern ⟨start, stop⟩ :: partsFrom pattern stop rest

def layer (options : Options) (items : List (Item Pattern)) : Layer Pattern where
  source := printItems (items.map (.map Pattern.source))
  parts := partsFrom options.casing 0 items
  diagnostics := []
  options

def build (options : Options) : Draft → Pattern := fold fun items => .of (layer options items)

def Argument.kind : Argument π → Kind
  | int32 _ => .int32
  | int64 _ => .int64
  | text _ => .text
  | nested _ => .nested

def Argument.nested? : Argument π → Option π
  | nested draft => some draft
  | _ => none

def Item.nested : Item π → List π
  | literal _ => []
  | capture c => c.calls.flatMap fun call => call.groups.flatMap (List.filterMap (·.nested?))

theorem Argument.kind_map (g : π → ρ) (argument : Argument π) :
    (argument.map g).kind = argument.kind := by
  cases argument <;> rfl

theorem Argument.nested?_map (g : π → ρ) (argument : Argument π) :
    (argument.map g).nested? = argument.nested?.map g := by
  cases argument <;> rfl

theorem Item.nested_map (g : π → ρ) (item : Item π) : (item.map g).nested = item.nested.map g := by
  cases item with
  | literal text => rfl
  | capture c =>
    simp only [Item.map, nested, Capture.map, Call.map, List.flatMap_map, List.map_flatMap,
      List.filterMap_map, List.map_filterMap, Function.comp_def, Argument.nested?_map]

theorem Capture.mem_nested {c : Capture π} {call : Call π} (hcall : call ∈ c.calls)
    {group : List (Argument π)} (hg : group ∈ call.groups) {argument : Argument π}
    (ha : argument ∈ group) {d : π} (hd : d ∈ argument.nested?) : d ∈ (Item.capture c).nested :=
  List.mem_flatMap.2 ⟨call, hcall, List.mem_flatMap.2 ⟨group, hg,
    List.mem_filterMap.2 ⟨argument, ha, hd⟩⟩⟩

theorem Argument.map_congr {f g : π → ρ} {argument : Argument π}
    (h : ∀ d ∈ argument.nested?, f d = g d) : argument.map f = argument.map g := by
  cases argument with
  | int32 number => rfl
  | int64 number => rfl
  | text t => rfl
  | nested d => exact congrArg nested (h d rfl)

theorem Item.map_congr {f g : π → ρ} {item : Item π} (h : ∀ d ∈ item.nested, f d = g d) :
    item.map f = item.map g := by
  cases item with
  | literal text => rfl
  | capture c =>
    rw [Item.map, Item.map, Capture.map, Capture.map]
    congr 2
    refine List.map_congr_left ?_
    intro call hcall
    rw [Call.map, Call.map]
    congr 1
    refine List.map_congr_left ?_
    intro group hg
    refine List.map_congr_left ?_
    intro argument ha
    exact Argument.map_congr fun d hd => h d (Capture.mem_nested hcall hg ha hd)

/-- The groups are what the function's signature asks for, and each of them can be seen. -/
structure Call.Proper (call : Call Text) : Prop where
  called : call.groups ≠ []
  kinds : ∀ group ∈ call.groups, group.map (·.kind) <+: call.function.slots.map (·.kind)
  least : ∀ group ∈ call.groups, call.function.least ≤ group.length
  visible : ∀ group ∈ call.groups, printGroup group ≠ []

def Item.Proper : Item Text → Prop
  | literal text => text ≠ []
  | capture c => ∀ call ∈ c.calls, call.Proper

instance (call : Call Text) : Decidable call.Proper :=
  decidable_of_iff
    (call.groups ≠ [] ∧
      (∀ group ∈ call.groups, group.map (·.kind) <+: call.function.slots.map (·.kind)) ∧
      (∀ group ∈ call.groups, call.function.least ≤ group.length) ∧
      (∀ group ∈ call.groups, printGroup group ≠ []))
    ⟨fun ⟨called, kinds, least, visible⟩ => ⟨called, kinds, least, visible⟩,
      fun h => ⟨h.called, h.kinds, h.least, h.visible⟩⟩

instance : DecidablePred Item.Proper
  | .literal text => inferInstanceAs (Decidable (text ≠ []))
  | .capture c => inferInstanceAs (Decidable (∀ call ∈ c.calls, call.Proper))

/-- Not both are literals. -/
def Item.Apart : Item π → Item π → Prop
  | literal _, literal _ => False
  | _, _ => True

/-- Every level has proper items, and no two literals side by side. -/
inductive Proper : Draft → Prop where
  | of {items : List (Item Draft)} (proper : ∀ item ∈ items, (item.map print).Proper)
    (apart : items.IsChain Item.Apart) (nested : ∀ item ∈ items, ∀ d ∈ item.nested, Proper d) :
    Proper (of items)

/-- Levels of nesting below the outermost. -/
def depth : Draft → Nat :=
  fold fun items => (items.flatMap (·.nested)).foldr (fun below n => max (below + 1) n) 0

theorem lt_foldr_max {depths : List Nat} {n : Nat} (h : n ∈ depths) :
    n < depths.foldr (fun below n => max (below + 1) n) 0 := by
  induction depths with
  | nil => cases h
  | cons first rest ih =>
    rw [List.foldr_cons]
    rcases List.mem_cons.1 h with rfl | h
    · exact Nat.lt_of_lt_of_le (Nat.lt_succ_self n) (Nat.le_max_left ..)
    · exact Nat.lt_of_lt_of_le (ih h) (Nat.le_max_right ..)

theorem depth_lt_of_mem {items : List (Item Draft)} {item : Item Draft} (hi : item ∈ items)
    {d : Draft} (hd : d ∈ item.nested) : d.depth < (of items).depth := by
  have hdepth : (of items).depth =
      ((items.map (Item.map depth)).flatMap (·.nested)).foldr (fun below n => max (below + 1) n) 0 :=
    fold_of _ items
  rw [hdepth]
  refine lt_foldr_max (List.mem_flatMap.2 ⟨item.map depth, List.mem_map.2 ⟨item, hi, rfl⟩, ?_⟩)
  rw [Item.nested_map]
  exact List.mem_map.2 ⟨d, hd, rfl⟩

end Draft

end Stencil
