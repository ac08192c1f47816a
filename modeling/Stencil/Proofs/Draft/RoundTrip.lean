import Stencil.Compile
import Stencil.Proofs.Compile.Literals
import Stencil.Proofs.Draft.Arguments
import Stencil.Proofs.Text.Positions

/-! # Compiling a printed draft

Compiling undoes printing: the source that a draft is printed as compiles to the pattern that is
built from the draft, and nothing is reported, as long as the draft nests no deeper than the pattern
may. -/
namespace Stencil.Draft

variable {π : Type}

def Capture.added (pattern : Casing) (c : Capture π) : List (Clause π) :=
  (c.fixed.map fun n => Clause.fixed n.toNat).toList
    ++ (c.min.map fun n => Clause.min n.toNat).toList
    ++ c.calls.map fun call => Clause.tag (call.tag pattern)

theorem foldl_add_tags (p : Parameter π) (tags : List (Tag π)) :
    (tags.map Clause.tag).foldl Parameter.add p = { p with tags := p.tags ++ tags } := by
  induction tags generalizing p with
  | nil => simp
  | cons tag tags ih => simp [Parameter.add, ih]

theorem Capture.foldl_added (pattern : Casing) (source : ByteRange) (c : Capture π) :
    (c.added pattern).foldl Parameter.add ⟨c.name, [], none, none, source⟩ =
      c.parameter pattern source := by
  have htags : (c.calls.map fun call => Clause.tag (call.tag pattern)) =
      (c.calls.map (Call.tag pattern)).map Clause.tag := by
    rw [List.map_map]
    rfl
  rw [added, List.foldl_append, List.foldl_append, htags, foldl_add_tags]
  rcases c with ⟨name, fixed, min, calls⟩
  cases fixed <;> cases min <;> rfl

theorem nestable_of_readable_item {nested : Clause.Nest Pattern} {item : Item Pattern}
    (h : ∀ p ∈ item.nested, Readable nested p) :
    ∀ t ∈ (item.map Pattern.source).nested, Nestable t := by
  intro t ht
  rw [Item.nested_map] at ht
  obtain ⟨p, hp, rfl⟩ := List.mem_map.1 ht
  exact (h p hp).nestable

theorem compile_printLength (options : Options) {nested : Clause.Nest π} {name : Text}
    {d : Directive} (hn : Nestable name) (alphanum : ∀ ch ∈ name, ch.isAlphanum = true)
    (lower : name.lower = name) (hd : Directive.ofName? name = some d) (n : UInt64)
    (position : Nat) :
    Clause.compile options nested position (symbols (printLength name n)) =
      Clause.directive d (Decimal.ofNat n.toNat) := by
  rw [symbols_printLength hn, Clause.compile_length alphanum lower hd, written_symbols]

section

variable {c : Capture Pattern} {nested : Clause.Nest Pattern} (options : Options)
  (proper : (Item.capture (c.map Pattern.source)).Proper)
  (h : ∀ p ∈ (Item.capture c).nested, Readable nested p)

include proper h

theorem Capture.compile_clauses :
    List.Forall₂ (fun clause value => ∀ position,
        Parameter.bodyPiece options nested position (.clause (symbols clause)) = .silent value)
      (c.map Pattern.source).clauses (c.added options.casing) := by
  have hfixed (n : UInt64) (position : Nat) :
      Parameter.bodyPiece options nested position (.clause (symbols (printLength "plf".toList n))) =
        .silent (.fixed n.toNat) := by
    have hdirective : Directive.ofName? "plf".toList = some .fixedLength := by decide
    rw [Parameter.bodyPiece, compile_printLength options nestable_fixed (by decide)
      (by decide +kernel) hdirective, Clause.directive, Clause.length_ofNat]
    rfl
  have hmin (n : UInt64) (position : Nat) :
      Parameter.bodyPiece options nested position (.clause (symbols (printLength "plm".toList n))) =
        .silent (.min n.toNat) := by
    have hdirective : Directive.ofName? "plm".toList = some .minLength := by decide
    rw [Parameter.bodyPiece, compile_printLength options nestable_min (by decide)
      (by decide +kernel) hdirective, Clause.directive, Clause.length_ofNat]
    rfl
  have hcalls : (c.map Pattern.source).calls = c.calls.map (Call.map Pattern.source) := rfl
  rw [clauses, added, hcalls]
  refine List.rel_append (List.rel_append ?_ ?_) ?_
  · rw [show (c.map Pattern.source).fixed = c.fixed from rfl]
    cases c.fixed with
    | none => exact .nil
    | some n => exact .cons (hfixed n) .nil
  · rw [show (c.map Pattern.source).min = c.min from rfl]
    cases c.min with
    | none => exact .nil
    | some n => exact .cons (hmin n) .nil
  · rw [List.forall₂_map_left_iff, List.forall₂_map_left_iff, List.forall₂_map_right_iff,
      List.forall₂_same]
    intro call hcall position
    have hproper := proper (call.map Pattern.source) (List.mem_map.2 ⟨call, hcall, rfl⟩)
    have hreadable : ∀ group ∈ call.groups, ∀ argument ∈ group, ∀ p ∈ argument.nested?,
        Readable nested p := fun group hg argument ha p hp => h p (mem_nested hcall hg ha hp)
    have hread := Call.clause_print options hproper hreadable (position + 1)
    rw [Parameter.bodyPiece]
    exact hread

theorem Capture.compile_body (position : Nat) :
    Parameter.compile options nested position (symbols (c.map Pattern.source).body) =
      .silent (c.parameter options.casing
        ⟨position, position + (Item.capture (c.map Pattern.source)).print.size⟩) := by
  have hnestable := nestable_of_readable_item h
  have hname : splitName (symbols (c.map Pattern.source).body) =
      (symbols c.name.escape, ((c.map Pattern.source).clauses.map symbols).flatMap fun clause =>
        (BodyPiece.clause clause).symbols) := by
    rw [symbols_body hnestable]
    refine splitName_append ?_ ?_
    · intro s hs
      exact Text.ne_bare_of_mem_escape hs (by decide)
    · cases (c.map Pattern.source).clauses with
      | nil => exact .inl rfl
      | cons clause rest => exact .inr ⟨_, rfl⟩
  have hpieces : BodyPiece.ofSource (((c.map Pattern.source).clauses.map symbols).flatMap
      fun clause => (BodyPiece.clause clause).symbols) =
        ((c.map Pattern.source).clauses.map symbols).map .clause := by
    refine BodyPiece.ofSource_flatMap ?_
    intro source hs
    obtain ⟨clause, hc, rfl⟩ := List.mem_map.1 hs
    exact (clause_of_mem hnestable hc).2
  have hclauses (start : Nat) : List.Forall₂ (fun piece value => ∀ position,
      Parameter.bodyPiece options nested position piece = .silent value)
      ((placed BodyPiece.symbols start
        (((c.map Pattern.source).clauses.map symbols).map .clause)).map Prod.snd)
      (c.added options.casing) := by
    rw [map_snd_placed, List.forall₂_map_left_iff, List.forall₂_map_left_iff]
    exact compile_clauses options proper h
  have hsize : (Item.capture (c.map Pattern.source)).print.size =
      (c.map Pattern.source).body.size + 3 := by
    have hbrackets : '%'.utf8Size = 1 ∧ '['.utf8Size = 1 ∧ ']'.utf8Size = 1 := by decide
    obtain ⟨hpercent, hopen, hclose⟩ := hbrackets
    simp only [Item.print, Text.size_cons, Text.size_append, Text.size_nil, hpercent, hopen, hclose]
    omega
  rw [Parameter.compile, hname]
  simp only [hpieces, Reported.collect_at (hclauses _), Reported.map_silent,
    Text.meant_symbols_escape, foldl_added, writtenSize_symbols]
  rw [hsize, Nat.add_assoc]

end

/-- The pieces that the source of an item comes apart into. -/
def Item.pieces : Item Text → List Piece
  | literal text => (symbols text.escape).map .symbol
  | capture c => [.parameter (symbols c.body)]

theorem Item.symbols_pieces {item : Item Text} (h : ∀ t ∈ item.nested, Nestable t) :
    item.pieces.flatMap Piece.symbols = symbols item.print := by
  cases item with
  | literal text =>
    rw [pieces, List.flatMap_map]
    exact List.flatMap_singleton' _
  | capture c =>
    rw [symbols_print_capture h, pieces, List.flatMap_singleton]

theorem Item.ofSource_print {item : Item Text} (h : ∀ t ∈ item.nested, Nestable t)
    (rest : List Symbol) :
    Piece.ofSource (symbols item.print ++ rest) = item.pieces ++ Piece.ofSource rest := by
  cases item with
  | literal text => exact Piece.ofSource_append (fun s hs => Text.ne_bare_of_mem_escape hs rfl) rest
  | capture c =>
    rw [symbols_print_capture h, Piece.ofSource_parameter (Capture.balanced_body h)]
    rfl

theorem ofSource_printItems {items : List (Item Text)}
    (h : ∀ item ∈ items, ∀ t ∈ item.nested, Nestable t) :
    Piece.ofSource (symbols (printItems items)) = items.flatMap (·.pieces) := by
  rw [symbols_printItems h]
  induction items with
  | nil => rw [List.flatMap_nil, Piece.ofSource, List.flatMap_nil]
  | cons item rest ih =>
    rw [List.flatMap_cons, List.flatMap_cons, Item.ofSource_print (h item List.mem_cons_self),
      ih fun i hi => h i (List.mem_cons_of_mem _ hi)]

/-- What pieces from a position are read as, before literals are joined. -/
def readPieces (options : Options) (nested : Clause.Nest π) (position : Nat) (pieces : List Piece) :
    Reported (List (Part π)) :=
  Reported.collect <| (placed Piece.symbols position pieces).map fun (position, piece) =>
    Part.compile options nested position piece

theorem readPieces_append {options : Options} {nested : Clause.Nest π} {position : Nat}
    {xs ys : List Piece} {vs ws : List (Part π)}
    (hx : readPieces options nested position xs = .silent vs)
    (hy : readPieces options nested (position + writtenSize (xs.flatMap Piece.symbols)) ys =
      .silent ws) :
    readPieces options nested position (xs ++ ys) = .silent (vs ++ ws) := by
  rw [readPieces, placed_append, List.map_append]
  exact Reported.collect_append hx hy

theorem readPieces_symbols (options : Options) (nested : Clause.Nest π) (position : Nat)
    (source : List Symbol) :
    ∃ parts, readPieces options nested position (source.map .symbol) = .silent parts ∧
      ∀ rest : List (Part π), (∀ next ∈ rest.head?, next.literal? = none) → source ≠ [] →
        parts.foldr Part.join rest =
          .literal ⟨meant source, options.casing, ⟨position, position + writtenSize source⟩⟩ :: rest := by
  induction source generalizing position with
  | nil => exact ⟨[], rfl, fun _ _ hne => absurd rfl hne⟩
  | cons s source ih =>
    obtain ⟨parts, hread, hjoin⟩ := ih (position + writtenSize [s])
    refine ⟨_, Reported.collect_cons_silent _ hread, ?_⟩
    intro rest hrest _
    rw [List.foldr_cons]
    by_cases hsource : source = []
    · subst hsource
      cases hread
      exact Part.join_of_apart fun next hn => .inr (hrest next hn)
    · rw [hjoin rest hrest hsource, Part.join, Nat.add_assoc]
      have hsize : writtenSize (s :: source) = writtenSize [s] + writtenSize source :=
        writtenSize_append [s] source
      rw [hsize]
      rfl

section

variable {nested : Clause.Nest Pattern} (options : Options)

theorem Item.readPieces_pieces {item : Item Pattern} (proper : (item.map Pattern.source).Proper)
    (h : ∀ p ∈ item.nested, Readable nested p) (position : Nat) :
    ∃ parts, readPieces options nested position (item.map Pattern.source).pieces = .silent parts ∧
      ∀ range rest, (∀ next ∈ rest.head?, (item.part options.casing range).Apart next) →
        parts.foldr Part.join rest = item.part options.casing
          ⟨position, position + (item.map Pattern.source).print.size⟩ :: rest := by
  cases item with
  | literal text =>
    obtain ⟨parts, hread, hjoin⟩ := readPieces_symbols options nested position (symbols text.escape)
    refine ⟨parts, hread, ?_⟩
    intro range rest hrest
    have hliteral : ∀ next ∈ rest.head?, next.literal? = none := by
      intro next hn
      exact (hrest next hn).resolve_left fun hl => by cases hl
    have hne : symbols text.escape ≠ [] := by
      intro hempty
      have hmeant := Text.meant_symbols_escape text
      rw [hempty] at hmeant
      exact proper hmeant.symm
    rw [hjoin rest hliteral hne, Text.meant_symbols_escape, writtenSize_symbols]
    rfl
  | capture c =>
    have hpart := congrArg (Reported.map Part.parameter)
      (Capture.compile_body options proper h position)
    refine ⟨[.parameter (c.parameter options.casing
      ⟨position, position + (Item.capture (c.map Pattern.source)).print.size⟩)], ?_, ?_⟩
    · rw [Reported.map_silent] at hpart
      simp only [readPieces, Item.map, pieces, placed, List.map_cons, List.map_nil, Part.compile,
        hpart]
      rfl
    · intro range rest hrest
      exact Part.join_of_apart fun next hn => .inl rfl

theorem partsFrom_apart {item : Item Pattern} {items : List (Item Pattern)}
    (apart : (item :: items).IsChain Item.Apart) (range : ByteRange) (position : Nat) :
    ∀ next ∈ (partsFrom options.casing position items).head?,
      (item.part options.casing range).Apart next := by
  cases items with
  | nil =>
    intro next hn
    cases hn
  | cons after rest =>
    intro next hn
    cases hn
    have hapart := (List.isChain_cons_cons.1 apart).1
    cases item with
    | capture c => exact .inl rfl
    | literal text =>
      cases after with
      | capture c => exact .inr rfl
      | literal text => exact absurd hapart id

section

variable {items : List (Item Pattern)}
  (proper : ∀ item ∈ items, (item.map Pattern.source).Proper) (apart : items.IsChain Item.Apart)
  (h : ∀ item ∈ items, ∀ p ∈ item.nested, Readable nested p)

include proper apart h

/-- Items one after the other are read as their parts, each where the one before ends. -/
theorem readPieces_items (position : Nat) :
    ∃ parts, readPieces options nested position
        (items.flatMap fun item => (item.map Pattern.source).pieces) = .silent parts ∧
      parts.foldr Part.join [] = partsFrom options.casing position items := by
  induction items generalizing position with
  | nil => exact ⟨[], rfl, rfl⟩
  | cons item items ih =>
    have hitem := h item List.mem_cons_self
    have hsize : writtenSize ((item.map Pattern.source).pieces.flatMap Piece.symbols) =
        (item.map Pattern.source).print.size := by
      rw [Item.symbols_pieces (nestable_of_readable_item hitem), writtenSize_symbols]
    obtain ⟨front, hfront, hjoin⟩ :=
      Item.readPieces_pieces options (proper item List.mem_cons_self) hitem position
    obtain ⟨back, hback, hparts⟩ := ih (fun i hi => proper i (List.mem_cons_of_mem _ hi))
      apart.tail (fun i hi => h i (List.mem_cons_of_mem _ hi))
      (position + (item.map Pattern.source).print.size)
    rw [← hsize] at hback
    refine ⟨front ++ back, readPieces_append hfront hback, ?_⟩
    rw [List.foldr_append, hparts]
    exact hjoin ⟨position, position⟩ _ (partsFrom_apart options apart _ _)

theorem compile_layer :
    Layer.compile options nested (symbols (printItems (items.map (.map Pattern.source)))) =
      layer options items := by
  have hnestable : ∀ item ∈ items.map (Item.map Pattern.source), ∀ t ∈ item.nested, Nestable t := by
    intro item hi
    obtain ⟨plain, hp, rfl⟩ := List.mem_map.1 hi
    exact nestable_of_readable_item (h plain hp)
  obtain ⟨parts, hread, hparts⟩ := readPieces_items options proper apart h 0
  have hpieces : readPieces options nested 0
      (Piece.ofSource (symbols (printItems (items.map (.map Pattern.source))))) = .silent parts := by
    rw [ofSource_printItems hnestable, List.flatMap_map]
    exact hread
  unfold readPieces at hpieces
  simp only [Layer.compile, hpieces, written_symbols, layer]
  rw [← hparts]
  rfl

end

end

theorem build_of (options : Options) (items : List (Item Draft)) :
    (of items).build options = .of (layer options (items.map (.map (build options)))) :=
  fold_of _ items

theorem print_of (items : List (Item Draft)) :
    (of items).print = printItems (items.map (.map print)) :=
  fold_of _ items

theorem source_build {d : Draft} (proper : d.Proper) (options : Options) :
    (d.build options).source = d.print := by
  induction proper with
  | @of items _ _ _ ih =>
    have hitems : (items.map (.map (build options))).map (.map Pattern.source) =
        items.map (Item.map print) := by
      rw [List.map_map]
      refine List.map_congr_left ?_
      intro item hi
      rw [Function.comp_apply, Item.map_map]
      exact Item.map_congr (ih item hi)
    rw [build_of, print_of, ← hitems]
    rfl

theorem compile_level {items : List (Item Draft)} (proper : (of items).Proper) (options : Options)
    {nested : Clause.Nest Pattern}
    (h : ∀ item ∈ items, ∀ d ∈ item.nested, Readable nested (d.build options)) :
    Pattern.of (.compile options nested (symbols (of items).print)) = (of items).build options := by
  have hprint : (of items).print = printItems
      ((items.map (Item.map (build options))).map (Item.map Pattern.source)) :=
    (source_build proper options).symm.trans (congrArg Pattern.source (build_of options items))
  rw [hprint, build_of]
  obtain ⟨hproper, hapart, hnested⟩ := proper
  refine congrArg Pattern.of (compile_layer options ?_ ?_ ?_)
  · intro item hi
    obtain ⟨plain, hp, rfl⟩ := List.mem_map.1 hi
    have hsource : ∀ d ∈ plain.nested, (Pattern.source ∘ build options) d = d.print :=
      fun d hd => source_build (hnested plain hp d hd) options
    rw [Item.map_map, Item.map_congr hsource]
    exact hproper plain hp
  · rw [List.isChain_map]
    refine hapart.imp ?_
    intro a b hab
    cases a <;> cases b <;> exact hab
  · intro item hi p hp
    obtain ⟨plain, hplain, rfl⟩ := List.mem_map.1 hi
    rw [Item.nested_map] at hp
    obtain ⟨d, hd, rfl⟩ := List.mem_map.1 hp
    exact h plain hplain d hd

/-- A nested draft is read back as long as levels are left for all that it nests. -/
theorem readable_build {d : Draft} (proper : d.Proper) (options : Options) {levels : Nat}
    (h : d.depth < levels) : Readable (Pattern.compileNested options levels) (d.build options) := by
  induction proper generalizing levels with
  | @of items hproper hapart hnested ih =>
    cases levels with
    | zero => exact absurd h (Nat.not_lt_zero _)
    | succ levels =>
      have hbelow : ∀ item ∈ items, ∀ d ∈ item.nested,
          Readable (Pattern.compileNested options levels) (d.build options) := by
        intro item hi d hd
        have hdepth := depth_lt_of_mem hi hd
        exact ih item hi d hd (by omega)
      have hlevel := compile_level (.of hproper hapart hnested) options hbelow
      have hsource := source_build (.of hproper hapart hnested) options
      constructor
      · rw [hsource, print_of]
        refine nestable_printItems ?_
        intro item hi t ht
        obtain ⟨plain, hp, rfl⟩ := List.mem_map.1 hi
        rw [Item.nested_map] at ht
        obtain ⟨d, hd, rfl⟩ := List.mem_map.1 ht
        rw [← source_build (hnested plain hp d hd) options]
        exact (hbelow plain hp d hd).nestable
      · intro position
        rw [hsource, Pattern.compileNested, hlevel]
        rfl

/-- Compiling undoes printing: the printed draft compiles to what is built from it, and there is
nothing to report. -/
theorem compile_print {d : Draft} (proper : d.Proper) (options : Options)
    (h : d.depth = 0 ∨ d.depth < options.maxDepth) :
    Pattern.compile d.print options = d.build options ∧
      (Pattern.compile d.print options).diagnostics = [] := by
  rcases d with ⟨items⟩
  have hbelow : ∀ item ∈ items, ∀ d ∈ item.nested,
      Readable (Pattern.compileNested options (options.maxDepth - 1)) (d.build options) := by
    intro item hi d hd
    have hdepth := depth_lt_of_mem hi hd
    obtain ⟨-, -, hnested⟩ := proper
    exact readable_build (hnested item hi d hd) options (by omega)
  have hlevel : Pattern.compile (of items).print options = (of items).build options :=
    compile_level proper options hbelow
  refine ⟨hlevel, ?_⟩
  rw [hlevel, build_of]
  rfl

def separated : Draft :=
  .of [.literal "x,y;\x7d".toList,
    .capture ⟨[], none, none, [⟨.charset, [], [[.text "0-9".toList], [.text ";".toList]]⟩]⟩]

theorem proper_separated : separated.Proper := by
  refine .of (by decide +kernel) (.cons_cons trivial (.singleton _)) ?_
  simp [Item.nested, Argument.nested?]

/-- A draft in a draft, with brackets and separators in the texts of both. -/
def bracketed : Draft :=
  .of [.literal "100%[".toList,
    .capture ⟨"a]\x7b".toList, some 3, some 1,
      [⟨.number32, [⟨"Not".toList, .negation, by decide⟩], [[.int32 none, .int32 (some 7)]]⟩,
       ⟨.ifelse, [], [[.nested (.of []), .nested separated], [.nested separated, .nested (.of [])]]⟩]⟩]

theorem proper_bracketed : bracketed.Proper := by
  have hempty : Proper (of []) := .of (List.forall_mem_nil _) .nil (List.forall_mem_nil _)
  refine .of (by decide +kernel) (.cons_cons trivial (.singleton _)) ?_
  simp [Item.nested, Argument.nested?, proper_separated, hempty]

theorem compile_print_bracketed :
    bracketed.Proper ∧ bracketed.depth < Options.maxDepth {} ∧
    Pattern.compile bracketed.print {} = bracketed.build {} ∧
      (Pattern.compile bracketed.print {}).diagnostics = [] := by
  have hdepth : bracketed.depth < Options.maxDepth {} := by decide +kernel
  exact ⟨proper_bracketed, hdepth, compile_print proper_bracketed {} (.inr hdepth)⟩

end Stencil.Draft
