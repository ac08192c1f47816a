import Stencil.Proofs.Draft.Basic

/-! # The source of a printed draft

What is printed is read symbol by symbol as it was put together: nothing is escaped by what stands
in front of it, and all brackets that were printed have their partners. -/
namespace Stencil

/-- A text that may stand where a nested pattern is expected. -/
structure Nestable (text : Text) : Prop where
  settled : text.Settled
  balanced : Balanced [',', ';'] (symbols text)

theorem nestable_escape (text : Text) : Nestable text.escape :=
  ⟨Text.settled_escape text, Balanced.escape text (by decide)⟩

theorem nestable_of_not_special {text : Text} (h : ∀ c ∈ text, isSpecial c = false) :
    Nestable text := by
  have hbackslash : '\\' ∉ text := fun hc => Bool.noConfusion (h _ hc)
  refine ⟨Text.settled_of_not_mem hbackslash, Balanced.of_plain ?_⟩
  intro s hs
  rw [Text.symbols_of_not_mem hbackslash] at hs
  obtain ⟨c, hc, rfl⟩ := List.mem_map.1 hs
  exact Symbol.plain_bare (h c hc) (by decide)

theorem nestable_ofNat (n : Nat) : Nestable (Decimal.ofNat n) :=
  nestable_of_not_special fun _ hc => isSpecial_of_isAlphanum (Decimal.isAlphanum_of_mem_ofNat hc)

theorem nestable_ofInt (i : Int) : Nestable (Decimal.ofInt i) :=
  nestable_of_not_special fun _ => Decimal.isSpecial_of_mem_ofInt

namespace Draft

theorem Argument.nestable_print {argument : Argument Text}
    (h : ∀ t ∈ argument.nested?, Nestable t) : Nestable argument.print := by
  have hempty : Nestable [] := ⟨Text.settled_nil, .nil⟩
  cases argument with
  | int32 number =>
    cases number with
    | none => exact hempty
    | some n => exact nestable_ofInt n.toInt
  | int64 number =>
    cases number with
    | none => exact hempty
    | some n => exact nestable_ofInt n.toInt
  | text t => exact nestable_escape t
  | nested t => exact h t rfl

section

variable {group : List (Argument Text)}
  (h : ∀ argument ∈ group, ∀ t ∈ argument.nested?, Nestable t)

include h

theorem settled_of_mem_print : ∀ piece ∈ group.map (·.print), piece.Settled := by
  intro piece hp
  obtain ⟨argument, ha, rfl⟩ := List.mem_map.1 hp
  exact (Argument.nestable_print (h argument ha)).settled

theorem settled_printGroup : (printGroup group).Settled :=
  Text.settled_intercalate (by decide) (settled_of_mem_print h)

theorem symbols_printGroup :
    symbols (printGroup group) = [.bare ','].intercalate (group.map fun a => symbols a.print) := by
  rw [printGroup, Text.symbols_intercalate (by decide) (settled_of_mem_print h), List.map_map]
  rfl

theorem balanced_printGroup : Balanced [';'] (symbols (printGroup group)) := by
  rw [symbols_printGroup h]
  refine Balanced.intercalate ⟨rfl, rfl, by decide⟩ ?_
  intro piece hp
  obtain ⟨argument, ha, rfl⟩ := List.mem_map.1 hp
  exact (Argument.nestable_print (h argument ha)).balanced.mono (by decide)

end

theorem plain_equals : Symbol.Plain [] (.bare '=') := ⟨rfl, rfl, by decide⟩

section

variable {call : Call Text}
  (h : ∀ group ∈ call.groups, ∀ argument ∈ group, ∀ t ∈ argument.nested?, Nestable t)

include h

theorem settled_of_mem_printGroup : ∀ piece ∈ call.groups.map printGroup, piece.Settled := by
  intro piece hp
  obtain ⟨group, hg, rfl⟩ := List.mem_map.1 hp
  exact settled_printGroup (h group hg)

theorem Call.settled_print : call.print.Settled :=
  (Clause.isHead_headOf call.function call.words).settled.append <|
    (Text.settled_intercalate (by decide) (settled_of_mem_printGroup h)).cons (by decide)

theorem Call.symbols_print :
    symbols call.print = symbols (Clause.headOf call.function call.words) ++
      .bare '=' :: [.bare ';'].intercalate (call.groups.map fun group => symbols (printGroup group)) := by
  rw [Call.print, (Clause.isHead_headOf call.function call.words).settled.symbols_append,
    symbols_cons (by decide), Text.symbols_intercalate (by decide) (settled_of_mem_printGroup h),
    List.map_map]
  rfl

theorem Call.balanced_print : Balanced [] (symbols call.print) := by
  rw [symbols_print h]
  refine (Clause.isHead_headOf call.function call.words).balanced.append (.plain plain_equals ?_)
  refine Balanced.intercalate ⟨rfl, rfl, by decide⟩ ?_
  intro piece hp
  obtain ⟨group, hg, rfl⟩ := List.mem_map.1 hp
  exact (balanced_printGroup (h group hg)).mono (by decide)

end

section

variable {directive : Text} (hd : Nestable directive) (length : UInt64)

include hd

theorem symbols_printLength :
    symbols (printLength directive length) =
      symbols directive ++ .bare '=' :: symbols (Decimal.ofNat length.toNat) := by
  rw [printLength, hd.settled.symbols_append, symbols_cons (by decide)]

theorem settled_printLength : (printLength directive length).Settled :=
  hd.settled.append ((nestable_ofNat length.toNat).settled.cons (by decide))

theorem balanced_printLength : Balanced [] (symbols (printLength directive length)) := by
  rw [symbols_printLength hd length]
  have hnumber := (nestable_ofNat length.toNat).balanced
  exact (hd.balanced.mono (by decide)).append (.plain plain_equals (hnumber.mono (by decide)))

end

theorem nestable_fixed : Nestable "plf".toList := nestable_of_not_special (by decide)

theorem nestable_min : Nestable "plm".toList := nestable_of_not_special (by decide)

section

variable {c : Capture Text} (h : ∀ t ∈ (Item.capture c).nested, Nestable t)

include h

theorem Capture.nestable_of_mem {call : Call Text} (hcall : call ∈ c.calls) :
    ∀ group ∈ call.groups, ∀ argument ∈ group, ∀ t ∈ argument.nested?, Nestable t := by
  intro group hg argument ha t ht
  exact h t (mem_nested hcall hg ha ht)

theorem Capture.clause_of_mem {clause : Text} (hc : clause ∈ c.clauses) :
    clause.Settled ∧ Balanced [] (symbols clause) := by
  simp only [clauses, List.mem_append, Option.mem_toList, Option.map_eq_some_iff,
    List.mem_map] at hc
  rcases hc with (⟨n, -, rfl⟩ | ⟨n, -, rfl⟩) | ⟨call, hcall, rfl⟩
  · exact ⟨settled_printLength nestable_fixed n, balanced_printLength nestable_fixed n⟩
  · exact ⟨settled_printLength nestable_min n, balanced_printLength nestable_min n⟩
  · exact ⟨call.settled_print (nestable_of_mem h hcall), call.balanced_print (nestable_of_mem h hcall)⟩

theorem Capture.settled_clauses :
    ∀ clause ∈ c.clauses, Text.Settled ('\x7b' :: (clause ++ ['\x7d'])) := by
  intro clause hc
  exact ((clause_of_mem h hc).1.append (Text.settled_nil.cons (by decide))).cons (by decide)

theorem Capture.settled_body : c.body.Settled :=
  (Text.settled_escape c.name).append (Text.settled_flatMap (settled_clauses h))

theorem Capture.symbols_body :
    symbols c.body = symbols c.name.escape ++
      (c.clauses.map symbols).flatMap fun clause => (BodyPiece.clause clause).symbols := by
  rw [body, (Text.settled_escape c.name).symbols_append, Text.symbols_flatMap (settled_clauses h),
    List.flatMap_map]
  congr 1
  refine List.flatMap_congr ?_
  intro clause hc
  rw [symbols_cons (by decide), (clause_of_mem h hc).1.symbols_append]
  rfl

theorem Capture.balanced_body : Balanced [] (symbols c.body) := by
  rw [symbols_body h]
  refine (nestable_escape c.name).balanced.mono (by decide) |>.append (Balanced.flatMap ?_)
  intro source hs
  obtain ⟨clause, hc, rfl⟩ := List.mem_map.1 hs
  exact .wrap .curly (clause_of_mem h hc).2 .nil

end

theorem Item.settled_print {item : Item Text} (h : ∀ t ∈ item.nested, Nestable t) :
    item.print.Settled := by
  cases item with
  | literal text => exact Text.settled_escape text
  | capture c =>
    have hbody := (Capture.settled_body h).append (Text.settled_nil.cons (by decide : ']' ≠ '\\'))
    exact (hbody.cons (by decide)).cons (by decide)

theorem Item.symbols_print_capture {c : Capture Text}
    (h : ∀ t ∈ (Item.capture c).nested, Nestable t) :
    symbols (Item.capture c).print = (Piece.parameter (symbols c.body)).symbols := by
  rw [Item.print, symbols_cons (by decide), symbols_cons (by decide),
    (Capture.settled_body h).symbols_append]
  rfl

theorem Item.nestable_print {item : Item Text} (h : ∀ t ∈ item.nested, Nestable t) :
    Nestable item.print := by
  refine ⟨settled_print h, ?_⟩
  cases item with
  | literal text => exact (nestable_escape text).balanced
  | capture c =>
    rw [symbols_print_capture h]
    exact .plain ⟨rfl, rfl, by decide⟩ (.wrap .square (Capture.balanced_body h) .nil)

section

variable {items : List (Item Text)} (h : ∀ item ∈ items, ∀ t ∈ item.nested, Nestable t)

include h

theorem symbols_printItems : symbols (printItems items) = items.flatMap fun i => symbols i.print :=
  Text.symbols_flatMap fun item hi => (Item.nestable_print (h item hi)).settled

theorem nestable_printItems : Nestable (printItems items) := by
  refine ⟨Text.settled_flatMap fun item hi => (Item.nestable_print (h item hi)).settled, ?_⟩
  rw [symbols_printItems h]
  exact Balanced.flatMap fun item hi => (Item.nestable_print (h item hi)).balanced

end

end Draft

end Stencil
