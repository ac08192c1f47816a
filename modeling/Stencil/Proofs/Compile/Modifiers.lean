import Stencil.Proofs.Compile.Capture
import Stencil.Proofs.Compile.Reads
import Stencil.Proofs.Compile.Shifted
import Stencil.Proofs.Function.Suffix

/-! # Modifiers on either side of a name

The words of a tag may stand in parentheses in front of the name of its function or behind it. Where they
stand on one side the tag is read with the operators of its words in order. Where they stand on both sides
only those in front are taken for words; what is behind is taken for a part of the name, and no function has
that name (`Pattern.compile_headWith`). -/
namespace Stencil

namespace Clause

/-- Words that mean something, written apart from each other in any way. -/
structure Modifiers where
  words : List Word
  text : Text
  spaced : Text.Spaced isSeparator (words.map (·.text)) text

def Modifiers.ofWords (words : List Word) : Modifiers :=
  ⟨words, [','].intercalate (words.map (·.text)), spaced_words words⟩

theorem Modifiers.modifierWords_text (m : Modifiers) : modifierWords m.text = m.words.map (·.text) :=
  m.spaced.words_eq

theorem Modifiers.isAlpha_or_isSeparator (m : Modifiers) :
    ∀ c ∈ m.text, c.isAlpha = true ∨ isSeparator c = true := by
  intro c hc
  rcases m.spaced.separates_or c hc with hs | ⟨text, ht, hc⟩
  · exact .inr hs
  · obtain ⟨word, -, rfl⟩ := List.mem_map.1 ht
    exact .inl (word.isAlpha c hc)

def bracketed : Option Modifiers → Text
  | none => []
  | some m => '(' :: (m.text ++ [')'])

def wordsOf (m : Option Modifiers) : List Word := (m.map (·.words)).getD []

/-- A head with modifiers in front of the name, behind it, or on both sides. -/
def headWith (before : Option Modifiers) (f : Function) (behind : Option Modifiers) : Text :=
  bracketed before ++ (f.name ++ bracketed behind)

theorem Modifiers.close_not_mem (m : Modifiers) : ')' ∉ m.text :=
  fun hc => absurd (m.isAlpha_or_isSeparator _ hc) (by decide)

theorem Modifiers.isHead_text (m : Modifiers) : IsHead m.text := by
  intro c hc hspecial
  rcases m.isAlpha_or_isSeparator c hc with h | h
  · have halphanum : c.isAlphanum = true := by
      rw [Char.isAlphanum, h]
      rfl
    rw [isSpecial_of_isAlphanum halphanum] at hspecial
    cases hspecial
  · simp only [isSeparator, Bool.or_eq_true, decide_eq_true_eq] at h
    rcases h with (rfl | rfl) | h
    · rfl
    · cases hspecial
    · rw [isSpecial_of_isBlank h] at hspecial
      cases hspecial

theorem IsHead.append {head more : Text} (h : IsHead head) (k : IsHead more) : IsHead (head ++ more) := by
  intro c hc
  rcases List.mem_append.1 hc with hc | hc
  · exact h c hc
  · exact k c hc

theorem isHead_bracketed (m : Option Modifiers) : IsHead (bracketed m) := by
  cases m with
  | none => exact fun c hc => absurd hc List.not_mem_nil
  | some m =>
    have hopen : IsHead ['('] := by decide
    have hclose : IsHead [')'] := by decide
    exact hopen.append (m.isHead_text.append hclose)

theorem isHead_headWith (before : Option Modifiers) (f : Function) (behind : Option Modifiers) :
    IsHead (headWith before f behind) :=
  (isHead_bracketed before).append
    ((isHead_of_isAlphanum f.isAlphanum_of_mem_name).append (isHead_bracketed behind))

/-- What stands behind modifiers in front is taken for the name as it is. -/
theorem splitHead_headWith (m : Modifiers) (f : Function) (behind : Option Modifiers) :
    splitHead (headWith (some m) f behind) = (f.name ++ bracketed behind, m.text) := by
  have hne : f.name ++ bracketed behind ≠ [] := by simp [f.name_ne_nil]
  have hfirst : ∀ c ∈ (f.name ++ bracketed behind).head?, isBlank c = false := by
    intro c hc
    have hname := List.head?_eq_some_head f.name_ne_nil
    rw [List.head?_append, hname, Option.some_or] at hc
    exact isBlank_of_isAlphanum (f.isAlphanum_of_mem_name c (List.mem_of_head? (hname.trans hc)))
  have hlast : ∀ c ∈ (f.name ++ bracketed behind).getLast?, isBlank c = false := by
    intro c hc
    cases behind with
    | none =>
      rw [bracketed, List.append_nil] at hc
      exact isBlank_of_isAlphanum (f.isAlphanum_of_mem_name c (List.mem_of_getLast? hc))
    | some m =>
      rw [bracketed, ← List.cons_append, ← List.append_assoc, List.getLast?_concat] at hc
      cases hc
      decide
  have hhead : headWith (some m) f behind = '(' :: (m.text ++ ')' :: (f.name ++ bracketed behind)) := by
    simp [headWith, bracketed]
  rw [hhead]
  exact splitHead_front m.close_not_mem hne (Text.trim_of_ends hfirst hlast) hlast

end Clause

theorem mem_lowerFrom_of_fold {c : Char} (hsigma : c ≠ 'Σ') (hdotted : c ≠ 'İ') {text : Text} (h : c ∈ text)
    (seen : Text) : fold c ∈ lowerFrom seen text := by
  induction text generalizing seen with
  | nil => cases h
  | cons d ds ih =>
    rw [lowerFrom]
    rcases List.mem_cons.1 h with rfl | h
    · rw [if_neg hsigma, if_neg hdotted]
      exact List.mem_append_left _ (List.mem_singleton_self _)
    · exact List.mem_append_right _ (ih h (d :: seen))

theorem Text.open_mem_lower {text : Text} (h : '(' ∈ text) : '(' ∈ text.lower := by
  have hfold : fold '(' = '(' := by decide +kernel
  rw [← hfold]
  exact mem_lowerFrom_of_fold (by decide) (by decide) h []

theorem Resolution.ofName?_of_open_mem (pattern : Casing) {name : Text} (h : '(' ∈ name) :
    ofName? pattern name = none := by
  refine Option.eq_none_iff_forall_ne_some.2 fun r hr => ?_
  rcases exists_of_ofName? pattern hr with ⟨f, rfl⟩ | ⟨f, tokens, rfl⟩
  · exact absurd (f.isAlphanum_of_mem_name _ h) (by decide)
  · rcases List.mem_append.1 h with h | h
    · revert h
      cases f <;> decide
    · obtain ⟨token, -, htoken⟩ := List.mem_flatMap.1 h
      revert htoken
      cases token <;> decide

theorem Directive.ofName?_of_open_mem {name : Text} (h : '(' ∈ name) : ofName? name = none := by
  refine Option.eq_none_iff_forall_ne_some.2 fun d hd => ?_
  obtain ⟨⟨known, directive⟩, hmem, hknown⟩ := List.exists_of_findSome?_eq_some hd
  have hletters : ∀ entry ∈ names, '(' ∉ entry.1.toList := by decide
  simp only [Option.ite_none_right_eq_some] at hknown
  exact hletters _ hmem (hknown.1 ▸ h)

namespace Diagnostic

/-- The diagnostic says that a function or a modifier is not known. -/
def NamesUnknown : Diagnostic → Prop
  | unknownFunction _ => True
  | unknownModifier _ _ => True
  | _ => False

theorem namesUnknown_rebase {base : Nat} {d : Diagnostic} : (d.rebase base).NamesUnknown ↔ d.NamesUnknown := by
  cases d <;> rfl

theorem AboutArguments.not_namesUnknown {d : Diagnostic} (h : d.AboutArguments) : ¬ d.NamesUnknown := by
  cases d <;> first | exact h.elim | exact id

end Diagnostic

namespace Pattern

variable (options : Options)

theorem eq_nestingTooDeep_of_ne_percent (levels position : Nat) {raw : List Symbol}
    (h : ∀ s ∈ raw, s ≠ .bare '%') :
    ∀ d ∈ (compileNested options levels position raw).reports, d = .nestingTooDeep options.maxDepth := by
  cases levels with
  | zero => exact fun d hd => List.mem_singleton.1 hd
  | succ levels =>
    intro d hd
    obtain ⟨e, he, -⟩ := List.mem_map.1 hd
    obtain ⟨part, hpart, he⟩ := List.mem_flatMap.1 (Diagnostics.mem_ofList_iff.1 he)
    obtain ⟨⟨start, piece⟩, hplace, rfl⟩ := List.mem_map.1 hpart
    have hpieces : Piece.ofSource raw = raw.map .symbol := by
      have happend := Piece.ofSource_append h []
      rwa [List.append_nil, Piece.ofSource, List.append_nil] at happend
    have hpiece := List.mem_map_of_mem (f := Prod.snd) hplace
    rw [map_snd_placed, hpieces] at hpiece
    obtain ⟨s, -, rfl⟩ := List.mem_map.1 hpiece
    cases he

theorem not_namesUnknown_groups (levels : Nat) (f : Function) (casing : Casing) (position : Nat)
    (args : Text) :
    ∀ d ∈ ((Site.mk f casing (compileNested options levels)).groups position (symbols args.escape)).reports,
      ¬ d.NamesUnknown := by
  -- wherever the arguments stand, the same is said of them but for the positions
  have hshift : (Site.mk f casing (compileNested options levels)).groups position (symbols args.escape) =
      ((Site.mk f casing (compileNested options levels)).groups 0 (symbols args.escape)).rebase position :=
    Site.groups_shift (isLocal_compileNested position options levels) f casing 0
      (symbols args.escape)
  rw [hshift]
  intro d hd
  obtain ⟨e, he, rfl⟩ := List.mem_map.1 hd
  rw [Diagnostic.namesUnknown_rebase]
  obtain ⟨remarks, hown, hstands, hreports⟩ :=
    Site.remarks_groups f casing (.self (symbols args.escape))
  rw [hreports] at he
  obtain ⟨remark, hremark, he⟩ := List.mem_flatMap.1 he
  cases remark with
  | own d =>
    rw [List.mem_singleton.1 he]
    exact (hown d hremark).not_namesUnknown
  | read read =>
    have hpercent : ∀ s ∈ read.2, s ≠ .bare '%' := by
      obtain ⟨before, after, hsource, -⟩ := hstands read hremark
      intro s hs
      have hmem : s ∈ symbols args.escape := by
        rw [hsource]
        exact List.mem_append_left _ (List.mem_append_right _ hs)
      exact Text.ne_bare_of_mem_escape hmem (by decide)
    rw [eq_nestingTooDeep_of_ne_percent options levels read.1 hpercent e he]
    exact id

end Pattern

variable {π : Type}

/-- The tag calls the function with the operators of the words, and nothing was unknown. -/
structure Tag.ReadsAs (f : Function) (words : List Word) (tag : Tag π) (reports : List Diagnostic) :
    Prop where
  function : tag.function = some f
  operators : tag.operators = Operators.empty.applyAll (words.map (·.meaning))
  known : ∀ d ∈ reports, ¬ d.NamesUnknown

open Clause in
/-- Exactly with modifiers on one side at most the tag is read as it is written; else its function is
unknown, under the name with all that stands behind it. -/
structure Tag.Heads (before : Option Modifiers) (f : Function) (behind : Option Modifiers) (tag : Tag π)
    (reports : List Diagnostic) : Prop where
  reads : tag.ReadsAs f (wordsOf before ++ wordsOf behind) reports ↔ before = none ∨ behind = none
  unknown : tag.function = none ∧ .unknownFunction (Text.lower (f.name ++ bracketed behind)) ∈ reports ↔
    before ≠ none ∧ behind ≠ none

theorem Tag.Heads.ofList {before behind : Option Clause.Modifiers} {f : Function} {tag : Tag π}
    {reports : List Diagnostic} (h : tag.Heads before f behind reports) :
    tag.Heads before f behind (Diagnostics.ofList reports) := by
  have hreads (words : List Word) : tag.ReadsAs f words (Diagnostics.ofList reports) ↔
      tag.ReadsAs f words reports :=
    ⟨fun k => ⟨k.function, k.operators, fun d hd => k.known d (Diagnostics.mem_ofList_iff.2 hd)⟩,
      fun k => ⟨k.function, k.operators, fun d hd => k.known d (Diagnostics.mem_ofList_iff.1 hd)⟩⟩
  constructor
  · rw [hreads]
    exact h.reads
  · rw [Diagnostics.mem_ofList_iff]
    exact h.unknown

theorem Tag.ReadsAs.heads {before behind : Option Clause.Modifiers} {f : Function} {tag : Tag π}
    {reports : List Diagnostic} (oneSide : before = none ∨ behind = none)
    (h : tag.ReadsAs f (Clause.wordsOf before ++ Clause.wordsOf behind) reports) :
    tag.Heads before f behind reports := by
  refine ⟨iff_of_true h oneSide, iff_of_false ?_ ?_⟩
  · rintro ⟨hnone, -⟩
    rw [h.function] at hnone
    cases hnone
  · rintro ⟨hbefore, hbehind⟩
    exact oneSide.elim hbefore hbehind

section

variable (options : Options) (levels position : Nat) (f : Function) (args : Text)

namespace Clause

theorem symbols_clause {head : Text} (h : IsHead head) :
    symbols (head ++ '=' :: args.escape) = symbols head ++ .bare '=' :: symbols args.escape := by
  rw [h.settled.symbols_append, symbols_cons (by decide)]

theorem exists_compile_named {head modifiers : Text} {words : List Word} (h : IsHead head)
    (split : splitHead head = (f.name, modifiers)) (known : modifierWords modifiers = words.map (·.text)) :
    ∃ tag reports, compile options (Pattern.compileNested options levels) position
        (symbols (head ++ '=' :: args.escape)) = ⟨.tag tag, reports⟩ ∧
      tag.ReadsAs f words reports := by
  rw [symbols_clause args h, h.compile_eq split, Function.lower_name, Directive.ofName?_name]
  simp only [call_words options _ _ f known]
  exact ⟨_, _, rfl, rfl, rfl, Pattern.not_namesUnknown_groups options levels f _ _ args⟩

theorem exists_compile_headWith (before behind : Option Modifiers) :
    ∃ tag reports, compile options (Pattern.compileNested options levels) position
        (symbols (headWith before f behind ++ '=' :: args.escape)) = ⟨.tag tag, reports⟩ ∧
      tag.Heads before f behind reports := by
  have hhead := isHead_headWith before f behind
  cases before with
  | none =>
    cases behind with
    | none =>
      have hsplit : splitHead (headWith none f none) = (f.name, []) := by
        rw [headWith, bracketed, List.nil_append, List.append_nil]
        exact splitHead_of_isAlphanum f.isAlphanum_of_mem_name
      have hnone : modifierWords [] = List.map Word.text [] := rfl
      obtain ⟨tag, reports, hcompile, hreads⟩ :=
        exists_compile_named options levels position f args hhead hsplit hnone
      exact ⟨tag, reports, hcompile, hreads.heads (.inl rfl)⟩
    | some m =>
      have hsplit : splitHead (headWith none f (some m)) = (f.name, m.text) :=
        splitHead_behind f.isAlphanum_of_mem_name f.name_ne_nil m.text
      obtain ⟨tag, reports, hcompile, hreads⟩ :=
        exists_compile_named options levels position f args hhead hsplit m.modifierWords_text
      exact ⟨tag, reports, hcompile, hreads.heads (.inl rfl)⟩
  | some m =>
    have hsplit := splitHead_headWith m f behind
    cases behind with
    | none =>
      rw [bracketed, List.append_nil] at hsplit
      obtain ⟨tag, reports, hcompile, hreads⟩ :=
        exists_compile_named options levels position f args hhead hsplit m.modifierWords_text
      rw [← List.append_nil m.words] at hreads
      exact ⟨tag, reports, hcompile, hreads.heads (.inr rfl)⟩
    | some more =>
      -- what follows the name stays in it, and no name has a parenthesis
      have hopen : '(' ∈ Text.lower (f.name ++ bracketed (some more)) :=
        Text.open_mem_lower (List.mem_append_right _ List.mem_cons_self)
      rw [symbols_clause args hhead, hhead.compile_eq hsplit, Directive.ofName?_of_open_mem hopen]
      simp only [call, Resolution.ofName?_of_open_mem _ hopen]
      refine ⟨_, _, rfl, iff_of_false ?_ ?_, iff_of_true ⟨rfl, List.mem_cons_self⟩ ?_⟩
      · intro h
        cases h.function
      · simp
      · simp

end Clause

open Clause in
theorem Pattern.exists_compile_headWith (name : Text) (before behind : Option Modifiers) :
    ∃ tag place,
      (compile (.capture name (headWith before f behind ++ '=' :: args.escape)) options).parts =
        [.parameter ⟨name, [tag], none, none, place⟩] ∧
      tag.Heads before f behind
        (compile (.capture name (headWith before f behind ++ '=' :: args.escape)) options).diagnostics := by
  have hhead := isHead_headWith before f behind
  have hsettled : Text.Settled (headWith before f behind ++ '=' :: args.escape) :=
    hhead.settled.append ((Text.settled_escape args).cons (by decide))
  have hbalanced : Balanced [] (symbols (headWith before f behind ++ '=' :: args.escape)) := by
    rw [symbols_clause args hhead]
    exact hhead.balanced.append (.plain Draft.plain_equals (Balanced.escape args (by decide)))
  obtain ⟨start, place, hparts, hdiagnostics⟩ := Layer.exists_compile_capture options
    (compileNested options (options.maxDepth - 1)) hsettled hbalanced name
  obtain ⟨tag, reports, hclause, hheads⟩ :=
    Clause.exists_compile_headWith options (options.maxDepth - 1) start f args before behind
  rw [hclause] at hparts hdiagnostics
  refine ⟨tag, place, hparts, ?_⟩
  have hreports : (compile (.capture name (headWith before f behind ++ '=' :: args.escape))
      options).diagnostics = .ofList reports := hdiagnostics
  rw [hreports]
  exact hheads.ofList

end

open Clause in
/-- A tag whose head is the name of a function with words in parentheses, and whose argument is escaped
text: alone in a parameter it is all that the pattern has to say, and wherever else it stands it is read in
the same way. With words on one side at most it is a tag of that function with the operators of the words in
order, and nothing in it is unknown; with words on both sides its function is. -/
theorem Pattern.compile_headWith (before : Option Modifiers) (f : Function) (behind : Option Modifiers)
    (name args : Text) (options : Options) :
    (∃ tag place,
      (compile (.capture name (headWith before f behind ++ '=' :: args.escape)) options).parts =
        [.parameter ⟨name, [tag], none, none, place⟩] ∧
      tag.Heads before f behind
        (compile (.capture name (headWith before f behind ++ '=' :: args.escape)) options).diagnostics) ∧
    ∀ levels position, ∃ tag reports, Clause.compile options (compileNested options levels) position
        (symbols (headWith before f behind ++ '=' :: args.escape)) = ⟨.tag tag, reports⟩ ∧
      tag.Heads before f behind reports :=
  ⟨Pattern.exists_compile_headWith options f args name before behind,
    fun levels position => Clause.exists_compile_headWith options levels position f args before behind⟩

open Clause in
/-- With a word on both sides of its name a function is not known. -/
theorem Pattern.compile_bothSides :
    Text.capture "v".toList (headWith (some (.ofWords [⟨"not".toList, .negation, rfl⟩])) .equals
        (some (.ofWords [⟨"nocase".toList, .casing .insensitive, rfl⟩])) ++ '=' :: Text.escape "a".toList) =
      "%[v{(not)equals(nocase)=a}]".toList ∧
    (compile "%[v{(not)equals(nocase)=a}]".toList {}).diagnostics =
      [.unknownFunction "equals(nocase)".toList] ∧
    (compile "%[v{(not)equals(nocase)=a}]".toList {}).layer.parameters.map
      (fun p => p.tags.map fun tag => (tag.function, tag.operators)) = [[(none, .negation)]] := by
  decide +kernel

end Stencil
