import Mathlib.Data.List.Basic
import Mathlib.Data.List.Nodup
import Stencil.Proofs.Compile.Nested
import Stencil.Proofs.Source.Places

/-! # What compiling a level reports

What a level reports is listed in order: diagnostics of its own, and between them whatever there is to
say of the nested patterns, each where it is read (`Layer.itemized_parts`). The list does not depend on
what is said of those. So whatever is reported with a position is right about what stands there, the
reads of nested patterns are where their sources stand, and nothing that is reported of them gets lost
(`Layer.faithful_compile`). The position of a clause counts from the parameter, that of an argument from
the clause, and so on; each step adds its own part. -/
namespace Stencil

namespace Diagnostics

theorem mem_push_iff {entries : Diagnostics} {d e : Diagnostic} :
    e ∈ entries.push d ↔ e ∈ entries ∨ e = d := by
  rw [push]
  split
  case isTrue hd =>
    constructor
    · exact .inl
    · rintro (he | rfl)
      · exact he
      · exact hd
  case isFalse => rw [List.mem_append, List.mem_singleton]

theorem nodup_push {entries : Diagnostics} (h : entries.Nodup) (d : Diagnostic) :
    (entries.push d).Nodup := by
  rw [push]
  split
  case isTrue => exact h
  case isFalse hd => exact h.append (List.nodup_singleton d) (List.disjoint_singleton.2 hd)

theorem mem_extend_iff {entries more : Diagnostics} {e : Diagnostic} :
    e ∈ entries.extend more ↔ e ∈ entries ∨ e ∈ more := by
  rw [extend]
  induction more generalizing entries with
  | nil => simp
  | cons d more ih => rw [List.foldl_cons, ih, mem_push_iff, List.mem_cons, or_assoc]

theorem nodup_extend {entries : Diagnostics} (h : entries.Nodup) (more : Diagnostics) :
    (entries.extend more).Nodup := by
  rw [extend]
  induction more generalizing entries with
  | nil => exact h
  | cons d more ih => exact ih (nodup_push h d)

theorem mem_ofList_iff {reports : List Diagnostic} {e : Diagnostic} :
    e ∈ ofList reports ↔ e ∈ reports := by
  rw [ofList, mem_extend_iff]
  exact or_iff_right List.not_mem_nil

theorem nodup_ofList (reports : List Diagnostic) : (ofList reports).Nodup :=
  nodup_extend List.nodup_nil reports

end Diagnostics

namespace Diagnostic

/-- What the diagnostic notes of its position is so in the source; most have none. -/
def PointsInto (source : Text) : Diagnostic → Prop
  | unterminatedParameter position => source.slice? ⟨position, position + 2⟩ = some ['%', '[']
  | unterminatedTag position => source.slice? ⟨position, position + 1⟩ = some ['\x7b']
  | strayText position text =>
    source.slice? ⟨position, position + text.size⟩ = some text ∧ text.isAllBlank = false
  | _ => True

theorem rebase_rebase (outer inner : Nat) (d : Diagnostic) :
    (d.rebase inner).rebase outer = d.rebase (outer + inner) := by
  cases d <;> simp only [rebase, Nat.add_assoc]

/-- The diagnostic is one of those about the arguments of a call. -/
def AboutArguments : Diagnostic → Prop
  | invalidNumber _ _ => True
  | tooManyArguments _ _ => True
  | missingArguments _ _ => True
  | _ => False

/-- The diagnostic is of a level itself: right about its source, and not about the depth of nesting. -/
structure OwnIn (source : Text) (d : Diagnostic) : Prop where
  points : d.PointsInto source
  shallow : ∀ bound, d ≠ .nestingTooDeep bound

theorem OwnIn.of_mem_singleton {source : Text} {d e : Diagnostic} (hd : d ∈ [e])
    (h : e.OwnIn source) : d.OwnIn source := by
  rw [List.mem_singleton.1 hd]
  exact h

theorem AboutArguments.ownIn {d : Diagnostic} (h : d.AboutArguments) (source : Text) :
    d.OwnIn source := by
  cases d with
  | invalidNumber => exact ⟨trivial, fun _ => Diagnostic.noConfusion⟩
  | tooManyArguments => exact ⟨trivial, fun _ => Diagnostic.noConfusion⟩
  | missingArguments => exact ⟨trivial, fun _ => Diagnostic.noConfusion⟩
  | _ => exact h.elim

theorem PointsInto.rebase {d : Diagnostic} {source piece : List Symbol} {position : Nat}
    (h : d.PointsInto (written piece)) (k : Stands source position piece) :
    (d.rebase position).PointsInto (written source) := by
  obtain ⟨before, after, heq, rfl⟩ := k.written_eq
  rw [heq]
  cases d with
  | unterminatedParameter position => exact Text.slice?_shift h before after
  | unterminatedTag position => exact Text.slice?_shift h before after
  | strayText position text =>
    have hslice := Text.slice?_shift h.1 before after
    rw [ByteRange.shift, ← Nat.add_assoc] at hslice
    exact ⟨hslice, h.2⟩
  | unknownFunction => trivial
  | unknownModifier => trivial
  | legacyAlias => trivial
  | versionMismatch => trivial
  | invalidDirectiveValue => trivial
  | trailingText => trivial
  | invalidNumber => trivial
  | tooManyArguments => trivial
  | missingArguments => trivial
  | nestingTooDeep => trivial

end Diagnostic

/-- The source of a nested pattern that is read, with its position. -/
abbrev Read := Nat × List Symbol

/-- What there is to say of a nested pattern that is read at a position. -/
abbrev Notes := Nat → List Symbol → List Diagnostic

/-- Reading a nested pattern only takes down what is read; something may be reported of it. -/
def reading (notes : Notes) : Clause.Nest Read := fun position raw => ⟨(position, raw), notes position raw⟩

/-- One thing that is reported: a diagnostic, or whatever there is to say of a nested pattern. -/
inductive Remark where
  | own (d : Diagnostic)
  | read (read : Read)

namespace Remark

def reports (notes : Notes) : Remark → List Diagnostic
  | own d => [d]
  | read r => notes r.1 r.2

def read? : Remark → Option Read
  | own _ => none
  | read r => some r

theorem flatMap_own (notes : Notes) (ds : List Diagnostic) : (ds.map own).flatMap (reports notes) = ds := by
  rw [List.flatMap_map]
  exact List.flatMap_singleton' ds

theorem filterMap_own (ds : List Diagnostic) : (ds.map own).filterMap read? = [] := by
  rw [List.filterMap_map]
  exact List.filterMap_eq_nil_iff.2 fun _ _ => rfl

end Remark

variable {α β γ : Type} {source : List Symbol} {Own Own' : Diagnostic → Prop}

/-- Whatever is said of nested patterns, these are the reports, and the reads among them are the nested
patterns of the value; a read stands in the source where it is read. -/
structure Itemizes (source : List Symbol) (Own : Diagnostic → Prop) (reads : α → List Read)
    (r : Notes → Reported α) (remarks : List Remark) : Prop where
  own : ∀ d, .own d ∈ remarks → Own d
  stands : ∀ read, .read read ∈ remarks → Stands source read.1 read.2
  reports : ∀ notes, (r notes).reports = remarks.flatMap (Remark.reports notes)
  reads : ∀ notes, reads (r notes).value = remarks.filterMap Remark.read?

def Itemized (source : List Symbol) (Own : Diagnostic → Prop) (reads : α → List Read)
    (r : Notes → Reported α) : Prop :=
  ∃ remarks, Itemizes source Own reads r remarks

namespace Itemized

variable {reads : α → List Read} {reads' : β → List Read} {r : Notes → Reported α}

theorem of_own (ds : List Diagnostic) (own : ∀ d ∈ ds, Own d)
    (reports : ∀ notes, (r notes).reports = ds) (none : ∀ notes, reads (r notes).value = []) : Itemized source Own reads r := by
  refine ⟨ds.map .own, ?_, ?_, ?_, ?_⟩
  · intro d hd
    obtain ⟨e, he, hsame⟩ := List.mem_map.1 hd
    cases hsame
    exact own d he
  · intro read hread
    obtain ⟨e, -, hsame⟩ := List.mem_map.1 hread
    cases hsame
  · intro notes
    rw [reports, Remark.flatMap_own]
  · intro notes
    rw [none, Remark.filterMap_own]

theorem mono (h : Itemized source Own reads r) (sub : ∀ d, Own d → Own' d) :
    Itemized source Own' reads r := by
  obtain ⟨remarks, h⟩ := h
  exact ⟨remarks, fun d hd => sub d (h.own d hd), h.stands, h.reports, h.reads⟩

theorem map (h : Itemized source Own reads r) (f : α → β)
    (same : ∀ notes, reads' (f (r notes).value) = reads (r notes).value) :
    Itemized source Own reads' fun notes => (r notes).map f := by
  obtain ⟨remarks, h⟩ := h
  refine ⟨remarks, h.own, h.stands, h.reports, ?_⟩
  intro notes
  exact (same notes).trans (h.reads notes)

theorem after (h : Itemized source Own reads r) {more : List Diagnostic} (own : ∀ d ∈ more, Own d) :
    Itemized source Own reads fun notes => (r notes).after more := by
  obtain ⟨remarks, h⟩ := h
  refine ⟨more.map .own ++ remarks, ?_, ?_, ?_, ?_⟩
  · intro d hd
    rcases List.mem_append.1 hd with hd | hd
    · obtain ⟨e, he, hsame⟩ := List.mem_map.1 hd
      cases hsame
      exact own d he
    · exact h.own d hd
  · intro read hread
    rcases List.mem_append.1 hread with hread | hread
    · obtain ⟨e, -, hsame⟩ := List.mem_map.1 hread
      cases hsame
    · exact h.stands read hread
  · intro notes
    rw [Reported.after, h.reports, List.flatMap_append, Remark.flatMap_own]
  · intro notes
    rw [List.filterMap_append, Remark.filterMap_own, List.nil_append]
    exact h.reads notes

theorem collect {xs : List γ} {read : γ → Notes → Reported α}
    (h : ∀ x ∈ xs, Itemized source Own reads (read x)) :
    Itemized source Own (List.flatMap reads) fun notes =>
      .collect (xs.map fun x => read x notes) := by
  induction xs with
  | nil => exact of_own [] (by simp) (fun _ => rfl) fun _ => rfl
  | cons x xs ih =>
    obtain ⟨first, hfirst⟩ := h x List.mem_cons_self
    obtain ⟨rest, hrest⟩ := ih fun y hy => h y (List.mem_cons_of_mem _ hy)
    refine ⟨first ++ rest, ?_, ?_, ?_, ?_⟩
    · intro d hd
      rcases List.mem_append.1 hd with hd | hd
      · exact hfirst.own d hd
      · exact hrest.own d hd
    · intro read hread
      rcases List.mem_append.1 hread with hread | hread
      · exact hfirst.stands read hread
      · exact hrest.stands read hread
    · intro notes
      rw [List.flatMap_append, ← hfirst.reports, ← hrest.reports]
      rfl
    · intro notes
      rw [List.filterMap_append, ← hfirst.reads notes, ← hrest.reads notes]
      rfl

end Itemized

theorem Site.intercalate_components (source : List Symbol) :
    [.bare ','].intercalate (components source) = source := by
  rw [components]
  cases source with
  | nil => rfl
  | cons s rest => exact intercalate_splitOutside ',' [] (s :: rest)

namespace Site

variable (function : Function) (casing : Casing) {position : Nat} {raw : List Symbol}

theorem about_number {α : Type} (site : Site Read) (read? : Text → Option α) (raw : List Symbol) :
    ∀ d ∈ (site.number read? raw).reports, d.AboutArguments := by
  intro d hd
  simp only [number] at hd
  split at hd
  · cases hd
  · split at hd
    · cases hd
    · rw [List.mem_singleton.1 hd]
      trivial

theorem about_countReports (site : Site Read) (count : Nat) :
    ∀ d ∈ site.countReports count, d.AboutArguments := by
  intro d hd
  rw [countReports] at hd
  rcases List.mem_append.1 hd with hd | hd
  · split at hd
    · rw [List.mem_singleton.1 hd]
      trivial
    · cases hd
  · split at hd
    · rw [List.mem_singleton.1 hd]
      trivial
    · cases hd

theorem itemized_value (kind : Kind) (h : Stands source position raw) :
    Itemized source Diagnostic.AboutArguments (fun v => (v.bind Value.nested?).toList) fun notes =>
      (Site.mk function casing (reading notes)).value kind position raw := by
  cases kind with
  | text => exact .of_own [] (by simp) (fun _ => rfl) fun _ => rfl
  | int32 =>
    refine .of_own _ (about_number ⟨function, casing, reading fun _ _ => []⟩ Decimal.int32? raw)
      (fun _ => rfl) fun notes => ?_
    simp only [value, Reported.map]
    cases ((Site.mk function casing (reading notes)).number Decimal.int32? raw).value <;> rfl
  | int64 =>
    refine .of_own _ (about_number ⟨function, casing, reading fun _ _ => []⟩ Decimal.int64? raw)
      (fun _ => rfl) fun notes => ?_
    simp only [value, Reported.map]
    cases ((Site.mk function casing (reading notes)).number Decimal.int64? raw).value <;> rfl
  | nested =>
    refine ⟨[.read (position, raw)], ?_, ?_, ?_, ?_⟩
    · intro d hd
      cases List.mem_singleton.1 hd
    · intro read hread
      cases List.mem_singleton.1 hread
      exact h
    · intro notes
      exact (List.append_nil _).symm
    · intro notes
      rfl

theorem itemized_component (slot : Slot) (h : Stands source position raw) :
    Itemized source Diagnostic.AboutArguments (fun c => (c.bind (·.value.nested?)).toList) fun notes =>
      (Site.mk function casing (reading notes)).component slot position raw := by
  have hvalue := itemized_value function casing slot.kind h
  refine hvalue.map (Option.map fun value => Component.mk value
    (if slot.keepsCase then .sensitive else casing)) fun notes => ?_
  generalize ((Site.mk function casing (reading notes)).value slot.kind position raw).value = v
  cases v <;> rfl

theorem itemized_group (h : Stands source position raw) :
    Itemized source Diagnostic.AboutArguments Group.nested fun notes =>
      (Site.mk function casing (reading notes)).group position raw := by
  have hread (place) (hplace : place ∈ (located position (components raw)).zip function.slots) :
      Itemized source Diagnostic.AboutArguments (fun c => (c.bind (·.value.nested?)).toList) fun notes =>
        (Site.mk function casing (reading notes)).component place.2 place.1.1 place.1.2 := by
    rw [← intercalate_components raw] at h
    exact itemized_component function casing place.2 (h.located rfl (List.of_mem_zip hplace).1)
  refine ((Itemized.collect hread).map Group.mk fun notes => ?_).after
    (about_countReports ⟨function, casing, reading fun _ _ => []⟩
      (located position (components raw)).length)
  rw [Group.nested, List.filterMap_eq_flatMap_toList]

theorem itemized_groups (h : Stands source position raw) :
    Itemized source Diagnostic.AboutArguments (List.flatMap Group.nested) fun notes =>
      (Site.mk function casing (reading notes)).groups position raw := by
  refine Itemized.collect fun place hplace => ?_
  rw [← intercalate_splitOutside ';' [] raw] at h
  exact itemized_group function casing (h.located rfl hplace)

end Site

variable {π : Type}

namespace Clause

def nested : Clause π → List π
  | tag t => t.groups.flatMap Group.nested
  | _ => []

theorem own_directive (d : Directive) (value : Text) :
    ∀ e ∈ (directive d value : Reported (Clause π)).reports, e.OwnIn (written source) := by
  have hlength (name : Text) : ∀ e ∈ (length name value).reports, e.OwnIn (written source) := by
    intro e he
    simp only [length] at he
    split at he
    · exact .of_mem_singleton he ⟨trivial, fun _ => Diagnostic.noConfusion⟩
    · split at he
      · simp only at he
        split at he
        · cases he
        · exact .of_mem_singleton he ⟨trivial, fun _ => Diagnostic.noConfusion⟩
      · exact .of_mem_singleton he ⟨trivial, fun _ => Diagnostic.noConfusion⟩
  cases d with
  | version =>
    intro e he
    simp only [directive, version] at he
    split at he
    · exact .of_mem_singleton he ⟨trivial, fun _ => Diagnostic.noConfusion⟩
    · split at he
      · cases he
      · exact .of_mem_singleton he ⟨trivial, fun _ => Diagnostic.noConfusion⟩
  | fixedLength => exact hlength _
  | minLength => exact hlength _

theorem nested_directive (d : Directive) (value : Text) :
    (directive d value : Reported (Clause π)).value.nested = [] := by
  cases d with
  | version => rfl
  | fixedLength =>
    rw [directive, Reported.map]
    cases (length (Directive.fixedLength).name value).value <;> rfl
  | minLength =>
    rw [directive, Reported.map]
    cases (length (Directive.minLength).name value).value <;> rfl

theorem own_nameReports (name : Text) (resolution : Option Resolution) :
    ∀ d ∈ nameReports name resolution, d.OwnIn (written source) := by
  intro d hd
  rcases resolution with _ | ⟨f, _ | legacy⟩
  · exact .of_mem_singleton hd ⟨trivial, fun _ => Diagnostic.noConfusion⟩
  · cases hd
  · exact .of_mem_singleton hd ⟨trivial, fun _ => Diagnostic.noConfusion⟩

theorem own_wordReports (name : Text) (words : List Text) :
    ∀ d ∈ wordReports name words, d.OwnIn (written source) := by
  intro d hd
  obtain ⟨word, -, rfl⟩ := List.mem_map.1 hd
  exact ⟨trivial, fun _ => Diagnostic.noConfusion⟩

variable (options : Options) {position : Nat}

theorem itemized_call (name modifiers : Text) {arguments : List Symbol}
    (h : Stands source position arguments) :
    Itemized source (Diagnostic.OwnIn (written source)) nested fun notes =>
      call options (reading notes) name modifiers position arguments := by
  have hreports : ∀ d ∈ nameReports name (Resolution.ofName? options.casing name) ++
      wordReports name (modifierWords modifiers), d.OwnIn (written source) := by
    intro d hd
    rcases List.mem_append.1 hd with hd | hd
    · exact own_nameReports name _ d hd
    · exact own_wordReports name _ d hd
  unfold call
  refine Itemized.after ?_ hreports
  cases Resolution.ofName? options.casing name with
  | none => exact .of_own [] (by simp) (fun _ => rfl) fun _ => rfl
  | some r =>
    have hgroups := Site.itemized_groups r.function
      ((operators (some r) (modifierWords modifiers)).casingIn options.casing) h
    exact (hgroups.mono fun _ hd => hd.ownIn _).map _ fun _ => rfl

theorem itemized_compile {body : List Symbol} (h : Stands source position body) :
    Itemized source (Diagnostic.OwnIn (written source)) nested fun notes =>
      compile options (reading notes) position body := by
  have hsplit : ∀ found ∈ splitBare? ['=', ':'] body,
      Stands source (position + writtenSize found.1 + 1) found.2 := by
    intro found hfound
    obtain ⟨c, hc, rfl⟩ := exists_of_splitBare? hfound
    have hsize : c.utf8Size = 1 := by
      rcases List.mem_cons.1 hc with rfl | hc
      · rfl
      · rw [List.mem_singleton.1 hc]
        rfl
    exact Stands.tail hsize h.right
  have hend : Stands source (position + writtenSize body) [] := by
    rw [← List.append_nil body] at h
    exact h.right
  unfold compile
  cases hfound : splitBare? ['=', ':'] body with
  | none =>
    simp only
    split
    · exact .of_own _ (own_directive _ _) (fun _ => rfl) fun _ => nested_directive _ _
    · exact itemized_call options _ _ hend
  | some found =>
    simp only
    split
    · exact .of_own _ (own_directive _ _) (fun _ => rfl) fun _ => nested_directive _ _
    · exact itemized_call options _ _ (hsplit found hfound)

end Clause

namespace Parameter

def nested (p : Parameter π) : List π := p.tags.flatMap fun tag => tag.groups.flatMap Group.nested

theorem nested_foldl_add (p : Parameter π) (clauses : List (Clause π)) :
    (clauses.foldl add p).nested = p.nested ++ clauses.flatMap Clause.nested := by
  induction clauses generalizing p with
  | nil => exact (List.append_nil _).symm
  | cons clause clauses ih =>
    have hadd : (p.add clause).nested = p.nested ++ clause.nested := by
      cases clause with
      | tag t => simp only [add, nested, Clause.nested, List.flatMap_append, List.flatMap_singleton]
      | fixed n => exact (List.append_nil _).symm
      | min n => exact (List.append_nil _).symm
      | nothing => exact (List.append_nil _).symm
    rw [List.foldl_cons, ih, hadd, List.append_assoc, List.flatMap_cons]

variable (options : Options) {position : Nat}

theorem itemized_bodyPiece {piece : BodyPiece} (h : Stands source position piece.symbols) :
    Itemized source (Diagnostic.OwnIn (written source)) Clause.nested fun notes =>
      bodyPiece options (reading notes) position piece := by
  cases piece with
  | stray text =>
    refine .of_own (if (written text).isAllBlank then [] else [.strayText position (written text)]) ?_
      (fun _ => rfl) fun _ => rfl
    intro d hd
    split at hd
    case isTrue => cases hd
    case isFalse hblank =>
      exact .of_mem_singleton hd
        ⟨⟨h.slice?_written, Bool.eq_false_iff.2 hblank⟩, fun _ => Diagnostic.noConfusion⟩
  | clause body =>
    have hbody : Stands source (position + 1) body := by
      have htail : Stands source (position + 1) (body ++ [.bare '\x7d']) := Stands.tail rfl h
      exact htail.left
    exact Clause.itemized_compile options hbody
  | unended text =>
    refine .of_own _ ?_ (fun _ => rfl) fun _ => rfl
    intro d hd
    have hopening : Stands source position [.bare '\x7b'] := Stands.left h
    exact .of_mem_singleton hd ⟨hopening.slice?_written, fun _ => Diagnostic.noConfusion⟩

theorem itemized_compile {body : List Symbol} (h : Stands source position (Piece.parameter body).symbols) :
    Itemized source (Diagnostic.OwnIn (written source)) nested fun notes =>
      compile options (reading notes) position body := by
  have hbody : Stands source (position + 2) body := by
    have htail : Stands source (position + 2) (body ++ [.bare ']']) :=
      Stands.tail rfl (Stands.tail rfl h)
    exact htail.left
  have hrest : Stands source (position + 2 + writtenSize (splitName body).1)
      ((BodyPiece.ofSource (splitName body).2).flatMap BodyPiece.symbols) := by
    have hname : (splitName body).1 ++ (splitName body).2 = body := List.takeWhile_append_dropWhile
    rw [← hname] at hbody
    rw [BodyPiece.flatMap_ofSource]
    exact hbody.right
  have hread (place) (hplace : place ∈ placed BodyPiece.symbols
      (position + 2 + writtenSize (splitName body).1) (BodyPiece.ofSource (splitName body).2)) :
      Itemized source (Diagnostic.OwnIn (written source)) Clause.nested fun notes =>
        bodyPiece options (reading notes) place.1 place.2 :=
    itemized_bodyPiece options (hrest.placed hplace)
  refine (Itemized.collect hread).map _ fun notes => ?_
  rw [nested_foldl_add]
  rfl

end Parameter

namespace Part

def nested (part : Part π) : List π := part.parameter?.toList.flatMap Parameter.nested

theorem nested_join (part : Part π) (parts : List (Part π)) :
    (join part parts).flatMap nested = (part :: parts).flatMap nested := by
  cases part with
  | parameter p => rfl
  | literal l =>
    cases parts with
    | nil => rfl
    | cons next rest => cases next <;> rfl

theorem nested_foldr_join (parts : List (Part π)) :
    (parts.foldr join []).flatMap nested = parts.flatMap nested := by
  induction parts with
  | nil => rfl
  | cons part parts ih =>
    rw [List.foldr_cons, nested_join, List.flatMap_cons, ih, List.flatMap_cons]

theorem itemized_compile (options : Options) {position : Nat} {piece : Piece}
    (h : Stands source position piece.symbols) :
    Itemized source (Diagnostic.OwnIn (written source)) nested fun notes =>
      compile options (reading notes) position piece := by
  cases piece with
  | symbol s => exact .of_own [] (by simp) (fun _ => rfl) fun _ => rfl
  | opener =>
    refine .of_own _ ?_ (fun _ => rfl) fun _ => rfl
    intro d hd
    exact .of_mem_singleton hd ⟨h.slice?_written, fun _ => Diagnostic.noConfusion⟩
  | parameter body =>
    refine (Parameter.itemized_compile options h).map _ fun notes => ?_
    rw [nested, parameter?, Option.toList_some, List.flatMap_singleton]

end Part

namespace Layer

theorem nested_eq (layer : Layer π) : layer.nested = layer.parts.flatMap Part.nested := by
  rw [nested, parameters, List.filterMap_eq_flatMap_toList, List.flatMap_assoc]
  rfl

theorem itemized_parts (options : Options) (source : List Symbol) :
    Itemized source (Diagnostic.OwnIn (written source)) (List.flatMap Part.nested) fun notes =>
      .collect ((placed Piece.symbols 0 (Piece.ofSource source)).map fun place =>
        Part.compile options (reading notes) place.1 place.2) := by
  have hsource : Stands source 0 ((Piece.ofSource source).flatMap Piece.symbols) := by
    rw [Piece.flatMap_ofSource]
    exact .self source
  exact Itemized.collect fun place hplace => Part.itemized_compile options (hsource.placed hplace)

/-- The diagnostics of a level are its own and those of the patterns that it reads, in an order that does
not depend on these. -/
theorem exists_remarks (options : Options) (source : List Symbol) :
    ∃ remarks : List Remark, (∀ d, .own d ∈ remarks → d.OwnIn (written source)) ∧
      (∀ read, .read read ∈ remarks → Stands source read.1 read.2) ∧
      ∀ notes,
        (compile options (reading notes) source).diagnostics =
          .ofList (remarks.flatMap (Remark.reports notes)) ∧
        (compile options (reading notes) source).nested = remarks.filterMap Remark.read? := by
  obtain ⟨remarks, h⟩ := itemized_parts options source
  refine ⟨remarks, h.own, h.stands, fun notes => ⟨congrArg Diagnostics.ofList (h.reports notes), ?_⟩⟩
  rw [nested_eq, compile, Part.nested_foldr_join]
  exact h.reads notes

/-- The level as it is compiled: its diagnostics are right about its source, what it reads of nested
patterns stands where it is read, and all that is reported of them is among the diagnostics. -/
theorem faithful_compile {notes : Notes}
    (points : ∀ position raw, Stands source position raw →
      ∀ d ∈ notes position raw, d.PointsInto (written source)) (options : Options) :
    (∀ d ∈ (compile options (reading notes) source).diagnostics, d.PointsInto (written source)) ∧
    ∀ read ∈ (compile options (reading notes) source).nested, Stands source read.1 read.2 ∧
      ∀ d ∈ notes read.1 read.2, d ∈ (compile options (reading notes) source).diagnostics := by
  obtain ⟨remarks, hown, hstands, hlevel⟩ := exists_remarks options source
  obtain ⟨hdiagnostics, hnested⟩ := hlevel notes
  rw [hdiagnostics, hnested]
  constructor
  · intro d hd
    obtain ⟨remark, hremark, hd⟩ := List.mem_flatMap.1 (Diagnostics.mem_ofList_iff.1 hd)
    cases remark with
    | own e =>
      rw [List.mem_singleton.1 hd]
      exact (hown e hremark).points
    | read read => exact points read.1 read.2 (hstands read hremark) d hd
  · intro read hread
    obtain ⟨remark, hremark, hsame⟩ := List.mem_filterMap.1 hread
    cases remark with
    | own e => cases hsame
    | read other =>
      cases hsame
      refine ⟨hstands read hremark, fun d hd => ?_⟩
      exact Diagnostics.mem_ofList_iff.2 (List.mem_flatMap.2 ⟨.read read, hremark, hd⟩)

end Layer

end Stencil
