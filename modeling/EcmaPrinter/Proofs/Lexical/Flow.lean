import EcmaPrinter.Generate.Code
import EcmaPrinter.Proofs.Lexical.Sound

/-!
Where fragments of code may stand.

`Fits rule S E f` says that behind any edge of `S` the events of `f` follow each other by the rule,
and that they lead to an edge of `E`.  The rules for `Fits` are those of a program logic: a fragment
with fewer edges before it or more behind it fits as well, and in a sequence the edges behind one
part are those before the next.  So each form of code has one rule for its parts, and all questions
about single edges are closed by evaluation.

A rule is lawful if it goes no further than the table where keywords, punctuators and the numbers of
property names are concerned.  What it says of names and literals is left open.
-/

namespace EcmaPrinter.Lexical

open EcmaPrinter
open EcmaPrinter.Generate
open EcmaPrinter.Number
open EcmaPrinter.Text

/-! ### Lawful rules -/

/-- A piece of plain characters.  An operator, which may be padded, is none of the marks that stand
close to what they belong to. -/
def isCommon (p : Piece) : Bool :=
  (charsOf {} p).all isPlain && p ∉ [.operator ".", .operator "\x60", .operator "\x7d"]

/-- The rule allows a piece wherever the table does. -/
def Rule.Admits (rule : Rule) (p : Piece) : Prop :=
  ∀ e, allows e p → rule e p

/-- The rule allows the text as a name. -/
structure Rule.AdmitsName (rule : Rule) (text : String) : Prop where
  admits : rule.Admits (.token text)
  kind : kindOf (.token text) = .word

/-- The rule allows the text as a string literal. -/
structure Rule.AdmitsString (rule : Rule) (text : String) : Prop where
  admits : rule.Admits (.token text)
  kind : kindOf (.token text) = .string

/-- A rule that allows what the table allows of keywords, punctuators and numbers without a sign. -/
class Rule.Lawful (rule : Rule) : Prop where
  solid : ∀ e p, rule e p → p ≠ .statementEnd
  fixed : ∀ p, isFixed p → isCommon p → rule.Admits p
  number : ∀ x : Double, x.isNaN = false → x.negative = false ∨ x.isZero → rule.Admits (.number x)

/-- A rule that allows every string in the given spelling. -/
class Rule.Quotes (rule : Rule) (spell : String → String) : Prop where
  quote : ∀ value, rule.AdmitsString (spell (quote value))

instance : (Table {}).Lawful where
  solid _ _ h := h.1.ne_statementEnd
  fixed _ hfixed _ _ hallows := ⟨sound_of_isFixed hfixed, hallows⟩
  number _ hnan hsign _ hallows := ⟨sound_number hnan hsign, hallows⟩

/-! ### Fragments between edges -/

/-- Behind every edge of `S` the fragment leads to an edge of `E`. -/
def Fits (rule : Rule) (S E : List Edge) (f : Fragment) : Prop :=
  ∀ noIn, ∀ e ∈ S, ∃ e' ∈ E, Path rule e (f.events noIn) e'

variable {rule : Rule} {S S' M E E' : List Edge} {f g : Fragment} {fs gs : List Fragment}

theorem Fits.mono (h : Fits rule S E f) (hS : S' ⊆ S) (hE : E ⊆ E') : Fits rule S' E' f := by
  intro noIn e he
  obtain ⟨e', he', hpath⟩ := h noIn e (hS he)
  exact ⟨e', hE he', hpath⟩

theorem Fits.widen (h : Fits rule S E f) (hE : E ⊆ E') : Fits rule S E' f :=
  h.mono (List.Subset.refl S) hE

theorem Fits.withMarks (h : Fits rule S E f) (m : Marks) : Fits rule S E (f.withMarks m) := by
  intro noIn e he
  rw [Fragment.events_withMarks]
  exact h noIn e he

theorem fits_empty (hS : S ⊆ E) : Fits rule S E .empty :=
  fun _ e he => ⟨e, hS he, .nil e⟩

theorem fits_nil (hS : S ⊆ E) : Fits rule S E (.sequence []) :=
  fun _ e he => ⟨e, hS he, .nil e⟩

theorem Fits.cons (h : Fits rule S' M f) (hS : S ⊆ S') (hfs : Fits rule M E (.sequence fs)) :
    Fits rule S E (.sequence (f :: fs)) := by
  intro noIn e he
  obtain ⟨m, hm, hf⟩ := h noIn e (hS he)
  obtain ⟨e', he', hpath⟩ := hfs noIn m hm
  rw [Fragment.events_sequence] at hpath ⊢
  exact ⟨e', he', hf.append hpath⟩

theorem Fits.andThen (h : Fits rule S M f) (hfs : Fits rule M E (.sequence fs)) :
    Fits rule S E (.sequence (f :: fs)) :=
  h.cons (List.Subset.refl S) hfs

theorem Fits.append (hfs : Fits rule S M (.sequence fs)) (hgs : Fits rule M E (.sequence gs)) :
    Fits rule S E (.sequence (fs ++ gs)) := by
  intro noIn e he
  obtain ⟨m, hm, hf⟩ := hfs noIn e he
  obtain ⟨e', he', hpath⟩ := hgs noIn m hm
  rw [Fragment.events_sequence] at hf hpath ⊢
  rw [List.flatMap_append]
  exact ⟨e', he', hf.append hpath⟩

/-! ### Single pieces -/

/-- May the piece follow all the edges? -/
def follows (S : List Edge) (p : Piece) : Bool :=
  S.all (allows · p)

/-- A piece that the rule admits leads to its edge. -/
theorem fits_piece {p : Piece} (hp : rule.Admits p) (hS : follows S p)
    (hf : ∀ noIn, f.events noIn = [.piece p]) : Fits rule S [edgeOf p] f := by
  intro noIn e he
  rw [hf]
  exact ⟨edgeOf p, List.mem_singleton_self _, .single (hp e (List.all_eq_true.mp hS e he))⟩

theorem fits_statementEnd (hS : S ⊆ ended) : Fits rule S [.operator] .statementEnd :=
  fun _ _ he => ⟨_, List.mem_singleton_self _, .ending (hS he) (.nil _)⟩

/-- A sequence that ends a statement. -/
theorem fits_end (hS : S ⊆ ended) (hE : .operator ∈ E) :
    Fits rule S E (.sequence [.statementEnd]) :=
  (fits_statementEnd hS).andThen (fits_nil (by simpa using hE))

theorem Fits.noIn (h : Fits rule S E f) : Fits rule S E (.noIn f) :=
  fun _ e he => h true e he

/-! ### Lines and parts that may be missing -/

/-- Lines one after the other; behind each of them the next one may start. -/
theorem fits_lines (h : ∀ f ∈ fs, Fits rule S E f) (hE : E ⊆ between) (hS : E.map turned ⊆ S) :
    Fits rule E E (lines fs) := by
  intro noIn
  have hevents : (lines fs).events noIn = fs.flatMap fun f => .lineBreak :: f.events noIn := by
    simp only [lines, Fragment.events_sequence, List.flatMap_map]
    rfl
  rw [hevents]
  clear hevents
  induction fs with
  | nil => exact fun e he => ⟨e, he, .nil e⟩
  | cons f fs ih =>
    intro e he
    obtain ⟨m, hm, hf⟩ := h f List.mem_cons_self noIn _ (hS (List.mem_map_of_mem he))
    obtain ⟨e', he', hpath⟩ := ih (fun g hg => h g (List.mem_cons_of_mem f hg)) m hm
    exact ⟨e', he', .turn (hE he) (hf.append hpath)⟩

/-- Behind indented code there may be a line break. -/
theorem Fits.indent (h : Fits rule S E f) (hE : E ⊆ between) :
    Fits rule S (E.map turned) (.indent f) := by
  intro noIn e he
  obtain ⟨e', he', hpath⟩ := h noIn e he
  exact ⟨turned e', List.mem_map_of_mem he', hpath.append (.turn (hE he') (.nil _))⟩

theorem fits_orEmpty {f? : Option Fragment} (h : ∀ f ∈ f?, Fits rule S E f) (hS : S ⊆ E) :
    Fits rule S E (orEmpty f?) := by
  cases f? with
  | none => exact fits_empty hS
  | some f => exact h f rfl

theorem fits_option {f? : Option Fragment} (h : ∀ f ∈ f?, Fits rule S E f) (hS : S ⊆ E) :
    Fits rule S E (.sequence f?.toList) := by
  cases f? with
  | none => exact fits_nil hS
  | some f => exact (h f rfl).andThen (fits_nil (List.Subset.refl E))

/-! ### Names and literals -/

/-- The edges behind which any name may stand. -/
def beforeName : List Edge := [.operator, .point, .word, .number, .tick, .brace, .closed]

/-- The edges behind which a string or a regular expression may stand. -/
def beforeLiteral : List Edge := [.operator, .word, .number, .slash, .tick, .brace, .closed]

theorem fits_name {text : String} (h : rule.AdmitsName text) (hS : S ⊆ beforeName) :
    Fits rule S [.word] (.token text) := by
  have hall : ∀ e ∈ beforeName, e ≠ .chunk ∧ e ≠ .slash := by decide
  have hfollows : follows S (.token text) := by
    refine List.all_eq_true.mpr fun e he => ?_
    obtain ⟨hchunk, hslash⟩ := hall e (hS he)
    simp [allows, h.kind, hchunk, hslash]
  have hedge : edgeOf (.token text) = .word := by simp only [edgeOf, h.kind]
  rw [← hedge]
  exact fits_piece h.admits hfollows fun _ => rfl

theorem follows_literal {p : Piece} (h : kindOf p = .string ∨ kindOf p = .regExp)
    (hS : S ⊆ beforeLiteral) : follows S p := by
  have hall : ∀ e ∈ beforeLiteral, e ≠ .point ∧ e ≠ .chunk := by decide
  refine List.all_eq_true.mpr fun e he => ?_
  obtain ⟨hpoint, hchunk⟩ := hall e (hS he)
  rcases h with h | h <;> simp [allows, h, hpoint, hchunk]

theorem fits_quoted {text : String} (h : rule.AdmitsString text) (hS : S ⊆ beforeLiteral) :
    Fits rule S [.closed] (.token text) := by
  have hedge : edgeOf (.token text) = .closed := by simp only [edgeOf, h.kind]
  rw [← hedge]
  exact fits_piece h.admits (follows_literal (.inl h.kind) hS) fun _ => rfl

theorem fits_stringLiteral {spell : String → String} [rule.Quotes spell] (value : String)
    (hS : S ⊆ beforeLiteral) : Fits rule S [.closed] (stringLiteral spell value) :=
  fits_quoted (Rule.Quotes.quote value) hS

/-- The token of a regular expression. -/
def regExpToken (pattern : String) (flags : RegExpFlags) : Piece :=
  .token (String.ofList ('/' :: (pattern.toList ++ '/' :: flags.text.toList)))

theorem fits_regExp {pattern : String} {flags : RegExpFlags}
    (h : rule.Admits (regExpToken pattern flags)) (hS : S ⊆ beforeLiteral) :
    Fits rule S [.slash, .word] (Generate.regExp pattern flags) := by
  have hkind : kindOf (regExpToken pattern flags) = .regExp := kindOf_regExp _
  refine (fits_piece h (follows_literal (.inr hkind) hS) fun _ => rfl).widen ?_
  simp only [edgeOf, hkind]
  split <;> simp

theorem fits_number {x : Double} (h : rule.Admits (.number x))
    (hS : S ⊆ [.operator, .closed, .word, .tick, .brace]) :
    Fits rule S [.number] (.number x) := by
  have hfollows : follows S (.number x) := by
    refine List.all_eq_true.mpr fun e he => ?_
    simpa [allows, kindOf] using hS he
  exact fits_piece h hfollows fun _ => rfl

/-! ### Keywords and punctuators -/

/-- A fixed piece that may follow all the edges. -/
def passes (S : List Edge) (p : Piece) : Bool :=
  isFixed p && isCommon p && follows S p

variable [rule.Lawful]

theorem admits_of_passes {p : Piece} (h : passes S p) : rule.Admits p := by
  obtain ⟨hp, -⟩ := Bool.and_eq_true_iff.mp h
  obtain ⟨hfixed, hcommon⟩ := Bool.and_eq_true_iff.mp hp
  exact Rule.Lawful.fixed p hfixed hcommon

theorem follows_of_passes {p : Piece} (h : passes S p) : follows S p :=
  (Bool.and_eq_true_iff.mp h).2

/-- What passes may follow each of the edges. -/
theorem rule_of_passes {p : Piece} (h : passes S p) {e : Edge} (he : e ∈ S) : rule e p :=
  admits_of_passes h e (List.all_eq_true.mp (follows_of_passes h) e he)

theorem fits_fixed {p : Piece} (h : passes S p) (hf : ∀ noIn, f.events noIn = [.piece p]) :
    Fits rule S [edgeOf p] f :=
  fits_piece (admits_of_passes h) (follows_of_passes h) hf

theorem fits_token {text : String} (h : passes S (.token text))
    (hE : edgeOf (.token text) ∈ E) : Fits rule S E (.token text) :=
  (fits_fixed h fun _ => rfl).widen (by simpa using hE)

/-! In a sequence, tokens are passed one by one. -/

theorem Fits.token {text : String} (h : passes S (.token text))
    (hfs : Fits rule [edgeOf (.token text)] E (.sequence fs)) :
    Fits rule S E (.sequence (.token text :: fs)) :=
  (fits_token h (List.mem_singleton_self _)).andThen hfs

theorem Fits.operator {text : String} (h : passes S (.operator text))
    (hfs : Fits rule [edgeOf (.operator text)] E (.sequence fs)) :
    Fits rule S E (.sequence (.operator text :: fs)) :=
  (fits_fixed h fun _ => rfl).andThen hfs

theorem Fits.semicolon (h : passes S .semicolon)
    (hfs : Fits rule [edgeOf .semicolon] E (.sequence fs)) :
    Fits rule S E (.sequence (.semicolon :: fs)) :=
  (fits_fixed h fun _ => rfl).andThen hfs

/-! ### Brackets -/

/-- A fragment between brackets that are written in one way or another. -/
theorem fits_enclose {opening closing : String} (hopen : passes S (.token opening))
    (h : Fits rule S' E f) (hS' : edgeOf (.token opening) ∈ S') (hclose : passes E (.token closing))
    (hg : ∀ noIn, g.events noIn = surround opening closing (f.events false)) :
    Fits rule S [edgeOf (.token closing)] g := by
  intro noIn e he
  obtain ⟨m, hm, hpath⟩ := h false _ hS'
  rw [hg]
  refine ⟨_, List.mem_singleton_self _, ?_⟩
  exact .token (rule_of_passes hopen he) (hpath.append (.single (rule_of_passes hclose hm)))

theorem Fits.paren (h : Fits rule S' E f) (hS' : .closed ∈ S') (hS : passes S (.token "("))
    (hE : passes E (.token ")")) : Fits rule S [.closed] (.paren f) :=
  fits_enclose hS h hS' hE fun _ => rfl

theorem Fits.bracket (h : Fits rule S' E f) (hS' : .closed ∈ S') (hS : passes S (.token "["))
    (hE : passes E (.token "]")) : Fits rule S [.closed] (.bracket f) :=
  fits_enclose hS h hS' hE fun _ => rfl

theorem Fits.brace (h : Fits rule S' E f) (hS' : .closed ∈ S') (hS : passes S (.token "\x7b"))
    (hE : passes E (.token "\x7d")) : Fits rule S [.brace] (.brace f) :=
  fits_enclose hS h hS' hE fun _ => rfl

/-! ### Lists -/

/-- Items behind commas. -/
theorem exists_path_commas (h : ∀ f ∈ fs, Fits rule S' E f) (hS' : .closed ∈ S')
    (hE : passes E .comma) (noIn : Bool) {e : Edge} (he : e ∈ E) :
    ∃ e' ∈ E, Path rule e (fs.flatMap fun f => .piece .comma :: f.events noIn) e' := by
  induction fs generalizing e with
  | nil => exact ⟨e, he, .nil e⟩
  | cons f fs ih =>
    obtain ⟨m, hm, hf⟩ := h f List.mem_cons_self noIn _ hS'
    obtain ⟨e', he', hpath⟩ := ih (fun g hg => h g (List.mem_cons_of_mem f hg)) hm
    refine ⟨e', he', ?_⟩
    rw [List.flatMap_cons]
    exact .token (rule_of_passes hE he) (hf.append hpath)

theorem Fits.separated_cons (h : Fits rule S E f) (hfs : ∀ g ∈ fs, Fits rule S' E g)
    (hS' : .closed ∈ S') (hE : passes E .comma) : Fits rule S E (.separated (f :: fs)) := by
  intro noIn e he
  obtain ⟨m, hm, hf⟩ := h noIn e he
  obtain ⟨e', he', hpath⟩ := exists_path_commas hfs hS' hE noIn hm
  rw [Fragment.events_separated_cons]
  exact ⟨e', he', hf.append hpath⟩

theorem fits_separated (h : ∀ f ∈ fs, Fits rule S E f) (hS : .closed ∈ S) (hE : passes E .comma) :
    Fits rule S (S ++ E) (.separated fs) := by
  cases fs with
  | nil => exact fun _ e he => ⟨e, List.mem_append_left E he, .nil e⟩
  | cons f fs =>
    have hf := h f List.mem_cons_self
    have hfs := fun g hg => h g (List.mem_cons_of_mem f hg)
    exact (hf.separated_cons hfs hS hE).widen (List.subset_append_right S E)

theorem fits_keywordIf {keyword : String} (h : passes S (.token keyword)) (present : Bool) :
    Fits rule S (edgeOf (.token keyword) :: S) (keywordIf present keyword) := by
  cases present with
  | false => exact fits_empty (List.subset_cons_self _ _)
  | true => exact fits_token h (by simp)

/-! ### Guards and declarations -/

/-- A guard adds parentheses or nothing. -/
theorem Fits.guardIn (h : Fits rule S E f) (hclosed : .closed ∈ S) (hS : passes S (.token "("))
    (hE : passes E (.token ")")) (hclosed' : .closed ∈ E) : Fits rule S E (.guardIn f) := by
  unfold Fragment.guardIn
  split
  · intro noIn e he
    cases noIn with
    | false => exact h false e he
    | true =>
      have hparen : Fits rule S E (.paren f) :=
        (h.paren hclosed hS hE).widen (by simpa using hclosed')
      exact hparen true e he
  · exact h

/-- A declared name with or without a value. -/
theorem Fits.declarator {value? : Option Fragment} (h : Fits rule S M f)
    (hM : passes M (.operator "=")) (hvalue : ∀ g ∈ value?, Fits rule S' E g)
    (hS' : .operator ∈ S') (hE : M ⊆ E) : Fits rule S E (.declarator f value?) := by
  intro noIn e he
  obtain ⟨m, hm, hf⟩ := h false e he
  cases value? with
  | none => exact ⟨m, hE hm, hf⟩
  | some g =>
    obtain ⟨e', he', hg⟩ := hvalue g rfl noIn _ hS'
    exact ⟨e', he', hf.append (.token (rule_of_passes hM hm) hg)⟩

end EcmaPrinter.Lexical
