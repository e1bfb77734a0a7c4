import EcmaPrinter.Proofs.Hazard.Exposed
import EcmaPrinter.Proofs.Text.Spelled
import EcmaPrinter.Proofs.Tree.Inside

/-!
All code is balanced.

A fragment is `Even` if its pieces are balanced wherever it stands.  The functions that make code
keep this, so the code of every tree is even (`Tree.even`), as long as no name is spelled like a
bracket.
-/

namespace EcmaPrinter

open EcmaPrinter.Generate
open EcmaPrinter.Text

/-! ### Even fragments -/

/-- The texts of tokens that open or close something. -/
def bracketTexts : List String :=
  ["(", ")", "[", "]", "\x7b", "\x7d", "$\x7b"]

theorem isBracket_token {text : String} (h : text ∉ bracketTexts) :
    (Piece.token text).isBracket = false := by
  simp only [bracketTexts, List.mem_cons, List.not_mem_nil, or_false, not_or] at h
  simp [Piece.isBracket, brackets, h]

/-- The pieces are balanced wherever the fragment stands. -/
def Fragment.Even (f : Fragment) : Prop :=
  ∀ noIn, Balanced (f.pieces noIn)

namespace Fragment

variable {f g : Fragment} {fs : List Fragment}

theorem Even.withMarks (h : f.Even) (m : Marks) : (f.withMarks m).Even := by
  intro noIn
  rw [pieces_withMarks]
  exact h noIn

@[simp] theorem even_empty : empty.Even := fun _ => balanced_nil

theorem even_token {text : String} (h : text ∉ bracketTexts) : (token text).Even := fun _ =>
  balanced_single (isBracket_token h)

@[simp] theorem even_raw (text : String) : (raw text).Even := fun _ => balanced_single rfl

@[simp] theorem even_number (v : Number.Double) : (number v).Even := fun _ => balanced_single rfl

theorem even_operator {text : String} (h : text ≠ "?" ∧ text ≠ ":") : (operator text).Even :=
  fun _ => balanced_single (by simp [Piece.isBracket, brackets, h])

@[simp] theorem even_semicolon : semicolon.Even := fun _ => balanced_single rfl

@[simp] theorem even_statementEnd : statementEnd.Even := fun _ => balanced_single rfl

@[simp] theorem even_paren (h : f.Even) : (paren f).Even := fun _ =>
  ((h false).between (by decide)).1

@[simp] theorem even_bracket (h : f.Even) : (bracket f).Even := fun _ =>
  ((h false).between (by decide)).1

@[simp] theorem even_brace (h : f.Even) : (brace f).Even := fun _ =>
  ((h false).between (by decide)).1

@[simp] theorem even_noIn (h : f.Even) : (noIn f).Even := fun _ => h true

@[simp] theorem even_guardIn (h : f.Even) : (guardIn f).Even := by
  intro noIn
  unfold guardIn
  split
  · cases noIn
    · exact h false
    · exact even_paren h false
  · exact h noIn

theorem even_stringStatement (h : f.Even) : (stringStatement f).Even := fun noIn =>
  (h noIn).append (balanced_single rfl)

@[simp] theorem even_line (h : f.Even) : (line f).Even := h

@[simp] theorem even_indent (h : f.Even) : (indent f).Even := h

theorem even_ite {b : Prop} [Decidable b] (hf : f.Even) (hg : g.Even) :
    (if b then f else g).Even := by
  split
  · exact hf
  · exact hg

theorem even_paren_if {b : Prop} [Decidable b] (h : f.Even) : (if b then paren f else f).Even :=
  even_ite (even_paren h) h

theorem even_sequence (h : ∀ f ∈ fs, f.Even) : (sequence fs).Even := by
  intro noIn
  rw [pieces_sequence]
  exact balanced_flatMap fun f hf => h f hf noIn

theorem even_separated (h : ∀ f ∈ fs, f.Even) : (separated fs).Even := by
  intro noIn
  cases fs with
  | nil => exact balanced_nil
  | cons f fs =>
    obtain ⟨hf, hfs⟩ := List.forall_mem_cons.mp h
    rw [pieces_separated_cons]
    exact (hf noIn).append (balanced_flatMap fun g hg => (hfs g hg noIn).cons rfl)

theorem even_declarator {right? : Option Fragment} (h : f.Even) (hr : ∀ g ∈ right?, g.Even) :
    (declarator f right?).Even := by
  intro noIn
  cases right? with
  | none => exact h false
  | some g => exact (h false).append ((hr g rfl noIn).cons rfl)

end Fragment

open Fragment

/-! ### Spellings -/

/-- A spelling that turns nothing into a bracket, of the texts that have a form of their own. -/
structure QuietSpelling (spell : String → String) : Prop where
  name : ∀ text, isIdentifierName text → spell text ∉ bracketTexts
  quote : ∀ value, spell (quote value) ∉ bracketTexts
  directive : ∀ raw, spell (quoteDirective raw) ∉ bracketTexts

theorem not_mem_bracketTexts {text : String} {c : Char} {cs : List Char} (h : text.toList = c :: cs)
    (hc : ['(', ')', '[', ']', '{', '}', '$'].contains c = false) : text ∉ bracketTexts := by
  intro hmem
  simp only [bracketTexts, List.mem_cons, List.not_mem_nil, or_false] at hmem
  rcases hmem with rfl | rfl | rfl | rfl | rfl | rfl | rfl <;>
    (obtain ⟨rfl, -⟩ := List.cons_eq_cons.mp h; cases hc)

theorem Options.quietSpelling (o : Options) : QuietSpelling o.spell where
  name text htext hmem := by
    have hwords : ∀ word ∈ bracketTexts,
        backslash ∉ word.toList ∧ isIdentifierName word = false := by
      decide
    obtain ⟨hback, hword⟩ := hwords _ hmem
    rw [← o.eq_of_spell_eq htext hback rfl, htext] at hword
    cases hword
  quote value := by
    obtain ⟨mark, cs, hmark, hcs⟩ := o.exists_spell_quote value
    refine not_mem_bracketTexts hcs ?_
    rcases isQuote_iff.mp hmark with rfl | rfl <;> decide
  directive raw := by
    obtain ⟨mark, cs, hmark, hcs⟩ := o.exists_spell_quoteDirective raw
    refine not_mem_bracketTexts hcs ?_
    rcases isQuote_iff.mp hmark with rfl | rfl <;> decide

/-- The spelling that leaves all names and literals out. -/
def blank (_ : String) : String := ""

theorem quietSpelling_blank : QuietSpelling blank where
  name _ _ := show "" ∉ bracketTexts by decide
  quote _ := show "" ∉ bracketTexts by decide
  directive _ := show "" ∉ bracketTexts by decide

/-! ### Operands and lists -/

section

variable {spell : String → String} {e e' e'' : Operand} {f g : Fragment} {fs gs : List Fragment}

theorem even_within (h : e.code.Even) (p : Precedence) : (e.within p).Even :=
  even_paren_if h

theorem even_single (h : e.code.Even) : e.single.Even := even_within h _

theorem even_keywordIf (present : Bool) {keyword : String} (h : keyword ∉ bracketTexts) :
    (keywordIf present keyword).Even :=
  even_ite (even_token h) even_empty

theorem even_orEmpty {f? : Option Fragment} (h : ∀ f ∈ f?, f.Even) : (orEmpty f?).Even := by
  cases f? with
  | none => exact even_empty
  | some f => exact h f rfl

theorem even_lines (h : ∀ f ∈ fs, f.Even) : (lines fs).Even := by
  refine even_sequence fun g hg => ?_
  obtain ⟨f, hf, rfl⟩ := List.mem_map.mp hg
  exact even_line (h f hf)

theorem even_block (h : ∀ f ∈ fs, f.Even) : (Generate.block fs).Even :=
  even_brace (even_indent (even_lines h))

theorem even_rest (h : f.Even) : (rest f).Even :=
  even_sequence (by simp [even_token, bracketTexts, h])

/-- The elements of an array are balanced between their brackets. -/
theorem exists_arrayElements_eq {elements : List (Option Fragment)} {rest? : Option Fragment}
    (h : ∀ f? ∈ elements, ∀ f ∈ f?, f.Even) (hrest : ∀ f ∈ rest?, f.Even) :
    ∃ inner, arrayElements elements rest? = bracket inner ∧ inner.Even := by
  refine ⟨_, rfl, even_separated fun g hg => ?_⟩
  rcases List.mem_append.mp hg with hg | hg
  · obtain ⟨f?, hf?, rfl⟩ := List.mem_map.mp hg
    exact even_orEmpty (h f? hf?)
  · cases rest? with
    | some r =>
      obtain rfl := List.mem_singleton.mp hg
      exact even_rest (hrest r rfl)
    | none =>
      cases hhole : endsInHole elements
      · simp [hhole] at hg
      · simp only [hhole, if_true, List.mem_singleton] at hg
        subst hg
        exact even_empty

theorem even_arrayElements {elements : List (Option Fragment)} {rest? : Option Fragment}
    (h : ∀ f? ∈ elements, ∀ f ∈ f?, f.Even) (hrest : ∀ f ∈ rest?, f.Even) :
    (arrayElements elements rest?).Even := by
  obtain ⟨inner, heq, hinner⟩ := exists_arrayElements_eq h hrest
  rw [heq]
  exact even_bracket hinner

theorem even_properties (h : ∀ f ∈ fs, f.Even) : (properties fs).Even :=
  even_brace (even_separated h)

theorem even_directiveSafe (h : f.Even) : (directiveSafe f).Even := by
  unfold directiveSafe
  split
  · next e =>
    have he : Balanced (e.pieces false) := (h false).of_append_single rfl
    refine even_sequence ?_
    simp only [List.forall_mem_cons, List.not_mem_nil, false_imp_iff, implies_true, and_true,
      even_statementEnd]
    exact fun _ => (he.between (by decide)).1
  · exact h

theorem even_prologue (hd : ∀ f ∈ fs, f.Even) (hs : ∀ g ∈ gs, g.Even) : (prologue fs gs).Even := by
  cases gs with
  | nil => exact even_lines hd
  | cons g gs =>
    obtain ⟨hg, hgs⟩ := List.forall_mem_cons.mp hs
    refine even_lines (List.forall_mem_append.mpr ⟨hd, ?_⟩)
    exact List.forall_mem_cons.mpr ⟨even_directiveSafe hg, hgs⟩

theorem even_withDefault (hf : f.Even) (h : e.code.Even) : (withDefault f e).Even := by
  refine even_declarator hf ?_
  rintro _ ⟨⟩
  exact even_single h

theorem even_withDefault? {e? : Option Operand} (hf : f.Even) (h : ∀ e ∈ e?, e.code.Even) :
    (withDefault? f e?).Even := by
  cases e? with
  | none => exact hf
  | some e => exact even_withDefault hf (h e rfl)

theorem even_renamed (hf : f.Even) (hg : g.Even) : (renamed f g).Even :=
  even_sequence (by simp [even_token, bracketTexts, hf, hg])

theorem even_asName (hf : f.Even) {other? : Option String}
    (h : ∀ other ∈ other?, spell other ∉ bracketTexts) : (asName spell f other?).Even := by
  cases other? with
  | none => exact hf
  | some other =>
    have hother : (token (spell other)).Even := even_token (h other rfl)
    exact even_sequence (by simp [hf, hother, even_token, bracketTexts])

/-! ### Modules -/

theorem even_source (hs : QuietSpelling spell) (specifier : String) :
    (stringLiteral spell specifier).Even :=
  even_token (hs.quote specifier)

theorem even_directive (hs : QuietSpelling spell) (raw : String) :
    (Generate.directive spell raw).Even :=
  even_sequence (by simp [even_token, hs.directive raw])

theorem even_importBindings (hs : QuietSpelling spell) (h : ∀ f ∈ fs, f.Even)
    (specifier : String) : (importBindings spell fs specifier).Even :=
  even_sequence (by
    simp [even_token, bracketTexts, even_separated h, even_source hs specifier])

theorem even_importNamed (hs : QuietSpelling spell) {d? : Option Fragment}
    (hd : ∀ f ∈ d?, f.Even) (h : ∀ f ∈ fs, f.Even) (specifier : String) :
    (Generate.importNamed spell d? fs specifier).Even := by
  unfold Generate.importNamed
  refine even_ite ?_ (even_importBindings hs (fun g hg => ?_) specifier)
  · exact even_sequence (by simp [even_token, bracketTexts, even_source hs specifier])
  · rcases List.mem_append.mp hg with hg | hg
    · exact hd g (by simpa using hg)
    · split at hg
      · cases hg
      · obtain rfl := List.mem_singleton.mp hg
        exact even_properties h

theorem even_importNamespace (hs : QuietSpelling spell) {d? : Option Fragment}
    (hd : ∀ f ∈ d?, f.Even) (h : f.Even) (specifier : String) :
    (Generate.importNamespace spell d? f specifier).Even := by
  refine even_importBindings hs (fun g hg => ?_) specifier
  rcases List.mem_append.mp hg with hg | hg
  · exact hd g (by simpa using hg)
  · obtain rfl := List.mem_singleton.mp hg
    exact even_sequence (by simp [even_token, bracketTexts, h])

theorem even_importSpecifier {name? : Option String} (h : f.Even)
    (hname : ∀ name ∈ name?, spell name ∉ bracketTexts) :
    (Generate.importSpecifier spell name? f).Even := by
  cases name? with
  | none => exact h
  | some name =>
    have htoken : (token (spell name)).Even := even_token (hname name rfl)
    exact even_sequence (by simp [h, htoken, even_token, bracketTexts])

theorem even_exportAll (hs : QuietSpelling spell) (specifier : String) :
    (Generate.exportAll spell specifier).Even :=
  even_sequence (by simp [even_token, bracketTexts, even_source hs specifier])

theorem even_exportFrom (hs : QuietSpelling spell) (h : ∀ f ∈ fs, f.Even) (specifier : String) :
    (Generate.exportFrom spell fs specifier).Even :=
  even_sequence (by
    simp [even_token, bracketTexts, even_properties h, even_source hs specifier])

theorem even_exportLocals (h : ∀ f ∈ fs, f.Even) : (Generate.exportLocals fs).Even :=
  even_sequence (by simp [even_token, bracketTexts, even_properties h])

theorem even_exportDeclared (h : ∀ f ∈ fs, f.Even) : (Generate.exportDeclared fs).Even :=
  even_sequence (List.forall_mem_cons.mpr ⟨even_token (by decide), h⟩)

theorem even_exportDefault (h : ∀ f ∈ fs, f.Even) : (Generate.exportDefault fs).Even :=
  even_sequence (List.forall_mem_cons.mpr ⟨even_token (by decide),
    List.forall_mem_cons.mpr ⟨even_token (by decide), h⟩⟩)

theorem even_defaultExpression (h : e.code.Even) : ∀ f ∈ defaultExpression e, f.Even :=
  List.forall_mem_cons.mpr ⟨even_paren_if (even_single h),
    List.forall_mem_singleton.mpr even_statementEnd⟩

/-! ### Functions and classes -/

theorem even_parameters {r? : Option Fragment} (h : ∀ f ∈ fs, f.Even) (hr : ∀ r ∈ r?, r.Even) :
    (Generate.parameters fs r?).Even := by
  refine even_separated (List.forall_mem_append.mpr ⟨h, fun g hg => ?_⟩)
  cases r? with
  | none => cases hg
  | some r =>
    obtain rfl := List.mem_singleton.mp hg
    exact even_rest (hr r rfl)

theorem even_function (isAsync isGenerator : Bool) {name? : Option Fragment}
    (hname : ∀ n ∈ name?, n.Even) (hf : f.Even) (hg : g.Even) :
    (Generate.function isAsync isGenerator name? f g).Even := by
  refine even_sequence fun k hk => ?_
  simp only [List.mem_append, List.mem_cons, List.not_mem_nil, or_false, Option.mem_toList] at hk
  rcases hk with ((rfl | rfl | rfl) | hk) | rfl | rfl
  · exact even_keywordIf _ (by decide)
  · exact even_token (by decide)
  · exact even_keywordIf _ (by decide)
  · exact hname k hk
  · exact even_paren hf
  · exact even_brace hg

theorem even_classCode {name? : Option Fragment} {parent? : Option Operand}
    (hname : ∀ n ∈ name?, n.Even) (hparent : ∀ p ∈ parent?, p.code.Even)
    (h : ∀ f ∈ fs, f.Even) : (classCode name? parent? fs).Even := by
  refine even_sequence fun k hk => ?_
  simp only [List.mem_append, List.mem_singleton, Option.mem_toList] at hk
  rcases hk with ((rfl | hk) | hk) | rfl
  · exact even_token (by decide)
  · exact hname k hk
  · cases parent? with
    | none => cases hk
    | some p =>
      simp only [List.mem_cons, List.not_mem_nil, or_false] at hk
      rcases hk with rfl | rfl
      · exact even_token (by decide)
      · exact even_within (hparent p rfl) _
  · exact even_block h

theorem even_classElement (isStatic : Bool) (h : f.Even) :
    (Generate.classElement isStatic f).Even :=
  even_ite (even_sequence (by simp [even_token, bracketTexts, h])) h

theorem even_method (isAsync isGenerator : Bool) {b : Fragment} (hf : f.Even) (hg : g.Even)
    (hb : b.Even) : (Generate.method isAsync isGenerator f g b).Even :=
  even_sequence (by simp [even_keywordIf, bracketTexts, hf, hg, hb])

theorem even_getter (hf : f.Even) (hg : g.Even) : (Generate.getter f g).Even :=
  even_sequence (by simp [even_token, bracketTexts, hf, hg])

theorem even_setter {b : Fragment} (hf : f.Even) (hg : g.Even) (hb : b.Even) :
    (Generate.setter f g b).Even :=
  even_sequence (by simp [even_token, bracketTexts, hf, hg, hb])

theorem even_expressionBody (h : e.code.Even) : (expressionBody e).Even :=
  even_paren_if (even_single h)

theorem even_arrow (isAsync isSingleName : Bool) (hf : f.Even) (hg : g.Even) :
    (Generate.arrow isAsync isSingleName f g).Even := by
  have hhead : (if isSingleName then f else paren f).Even := even_ite hf (even_paren hf)
  exact (even_sequence (by
    simp [even_keywordIf, even_operator, bracketTexts, hhead, hg])).withMarks _

/-! ### Properties -/

theorem even_computedName (h : e.code.Even) : (Generate.computedName e).Even :=
  even_bracket (even_single h)

theorem even_staticName (hs : QuietSpelling spell) (value : String) :
    (Generate.staticName spell value).Even := by
  unfold Generate.staticName
  split
  · next hname => exact even_token (hs.name value hname)
  · split
    · exact even_number _
    · exact even_source hs value

theorem even_dataProperty (hf : f.Even) (h : e.code.Even) : (Generate.dataProperty f e).Even :=
  even_sequence (by simp [even_token, bracketTexts, hf, even_single h])

/-! ### Expressions -/

theorem even_regExp (pattern : String) (flags : RegExpFlags) :
    (Generate.regExp pattern flags).Even :=
  even_token (not_mem_bracketTexts String.toList_ofList (by decide))

theorem even_staticMember (h : e.code.Even) {property : String}
    (hp : spell property ∉ bracketTexts) : (Generate.staticMember spell e property).Even := by
  have hbase : (memberObject e).Even := even_within h _
  have hproperty : (token (spell property)).Even := even_token hp
  exact (even_sequence (by simp [even_token, bracketTexts, hbase, hproperty])).withMarks _

theorem even_computedMember (isLet : Bool) (h : e.code.Even) (hf : f.Even) :
    (Generate.computedMember isLet e f).Even := by
  have hbase : (memberObject e).Even := even_within h _
  exact (even_sequence (by simp [hbase, hf])).withMarks _

theorem even_arguments (h : ∀ f ∈ fs, f.Even) : (arguments fs).Even :=
  even_paren (even_separated h)

theorem even_call (h : e.code.Even) (hfs : ∀ f ∈ fs, f.Even) : (Generate.call e fs).Even :=
  (even_sequence (by simp [even_within h, even_arguments hfs])).withMarks _

theorem even_construct (h : e.code.Even) (hfs : ∀ f ∈ fs, f.Even) :
    (Generate.construct e fs).Even := by
  have hcallee : (constructCallee e fs.isEmpty).Even :=
    even_ite (even_paren h) (even_within h _)
  have harguments : (if fs.isEmpty then empty else arguments fs).Even :=
    even_ite even_empty (even_arguments hfs)
  refine even_sequence (List.forall_mem_cons.mpr ⟨even_token (by decide), ?_⟩)
  exact List.forall_mem_cons.mpr ⟨hcallee, List.forall_mem_singleton.mpr harguments⟩

theorem balanced_chunk (tagged : Bool) {part : Chunk} (h : ∀ f, part = .hole f → f.Even)
    (noIn : Bool) : Balanced ((part.code spell tagged).flatMap (·.pieces noIn)) := by
  cases part with
  | text raw => exact balanced_single rfl
  | hole f =>
    have hhole := ((h f rfl noIn).between (l := .token "$\x7b") (r := .token "\x7d") (by decide)).1
    simpa [Chunk.code] using hhole

theorem even_template {tag? : Option Operand} {parts : List Chunk}
    (htag : ∀ e ∈ tag?, e.code.Even) (h : ∀ part ∈ parts, ∀ f, part = .hole f → f.Even) :
    (Generate.template spell tag? parts).Even := by
  have hmark : (Piece.token "\x60").isBracket = false := by decide
  have hbody : ∀ tagged noIn, Balanced ((token "\x60" ::
      (parts.flatMap (·.code spell tagged) ++ [token "\x60"])).flatMap (·.pieces noIn)) := by
    intro tagged noIn
    rw [List.flatMap_cons, List.flatMap_append, List.flatMap_assoc]
    refine (balanced_single hmark).append (.append (balanced_flatMap fun part hpart => ?_) ?_)
    · exact balanced_chunk tagged (h part hpart) noIn
    · exact balanced_single hmark
  cases tag? with
  | none =>
    intro noIn
    exact (pieces_sequence _ noIn).symm ▸ hbody false noIn
  | some tag =>
    unfold Generate.template
    refine Even.withMarks (fun noIn => ?_) _
    rw [pieces_sequence, List.flatMap_cons]
    exact (even_within (htag tag rfl) _ noIn).append (hbody true noIn)

theorem even_unary {op : String} (hop : op ∉ bracketTexts) (h : e.code.Even) :
    (Generate.unary op e).Even :=
  even_sequence (by simp [even_token, hop, even_within h])

theorem even_update (before : Bool) (op : UpdateOperator) (h : f.Even) :
    (Generate.update before op f).Even := by
  have hop : (token op.text).Even := even_token (by cases op <;> decide)
  cases before
  · exact (even_sequence (by simp [hop, h])).withMarks _
  · exact even_sequence (by simp [hop, h])

theorem even_binary (isPrefixed : Bool) (op : BinaryOperator) (h : e.code.Even)
    (h' : e'.code.Even) : (Generate.binary isPrefixed e op e').Even := by
  have hop : (operator op.text).Even := even_operator (by cases op <;> decide)
  have hl : (leftOperand op isPrefixed e).Even := even_ite (even_paren_if h) (even_within h _)
  have hr : (rightOperand op e').Even := even_ite (even_within h' _) (even_paren_if h')
  refine Even.withMarks (even_ite (even_separated ?_) (even_sequence ?_)) _
  · simp [hl, hr]
  · simp [hl, hr, hop]

theorem even_conditional (h : e.code.Even) (h' : e'.code.Even) (h'' : e''.code.Even) :
    (Generate.conditional e e' e'').Even := by
  unfold Generate.conditional
  refine Even.withMarks (fun noIn => ?_) _
  have hmiddle := ((even_single h' noIn).between (l := .operator "?") (r := .operator ":")
    (by decide)).1
  have hall := ((even_within h .logicalOr noIn).append hmiddle).append (even_single h'' noIn)
  simpa using hall

theorem even_assignment (hf : f.Even) {op : String} (hop : op ≠ "?" ∧ op ≠ ":")
    (h : e.code.Even) : (assignment f op e).Even :=
  (even_sequence (by simp [hf, even_operator hop, even_single h])).withMarks _

theorem even_yieldCode {e? : Option Operand} (h : ∀ e ∈ e?, e.code.Even) :
    (yieldCode e?).Even := by
  cases e? with
  | none => exact even_token (by decide)
  | some e =>
    exact (even_sequence (by simp [even_token, bracketTexts, even_single (h e rfl)])).withMarks _

theorem even_yieldFrom (h : e.code.Even) : (Generate.yieldFrom e).Even :=
  (even_sequence (by simp [even_token, bracketTexts, even_single h])).withMarks _

/-! ### Statements -/

theorem even_jump {keyword : String} (hk : keyword ∉ bracketTexts) {label? : Option String}
    (h : ∀ label ∈ label?, spell label ∉ bracketTexts) : (jump spell keyword label?).Even := by
  have hlabel : (orEmpty (label?.map fun l => token (spell l))).Even := by
    cases label? with
    | none => exact even_empty
    | some label => exact even_token (h label rfl)
  exact even_sequence (by simp [even_token, hk, hlabel])

theorem even_keywordStatement {keyword : String} (hk : keyword ∉ bracketTexts) (h : f.Even) :
    (keywordStatement keyword f).Even :=
  even_sequence (by simp [even_token, hk, h])

theorem even_expressionStatement (isString : Bool) (h : f.Even) :
    (Generate.expressionStatement isString f).Even := by
  have hbody : (if isHazardousStart f.marks then paren f else f).Even := even_paren_if h
  exact even_ite (even_stringStatement h) (even_sequence (by simp [hbody]))

theorem even_endingIn (h : f.Even) (hfs : ∀ f ∈ fs, f.Even) : (endingIn f fs).Even :=
  (even_sequence (List.forall_mem_append.mpr
    ⟨hfs, List.forall_mem_singleton.mpr h⟩)).withMarks _

theorem even_headed {keyword : String} (hk : keyword ∉ bracketTexts) (hf : f.Even)
    (hg : g.Even) : (headed keyword f g).Even :=
  even_endingIn hg (by simp [even_token, hk, hf])

theorem even_doWhile (hf : f.Even) (hg : g.Even) : (Generate.doWhile f g).Even :=
  even_sequence (by simp [even_token, bracketTexts, hf, hg])

theorem even_loopTarget (h : f.Even) : (loopTarget f).Even := even_paren_if h

theorem even_forIn (isDeclaration : Bool) {b : Fragment} (hf : f.Even) (hg : g.Even)
    (hb : b.Even) : (Generate.forIn isDeclaration f g b).Even := by
  have hleft : (if isDeclaration then noIn (guardIn f) else loopTarget f).Even :=
    even_ite (even_noIn (even_guardIn hf)) (even_loopTarget hf)
  refine even_headed (by decide) (even_sequence ?_) hb
  simp [even_token, bracketTexts, hleft, hg]

theorem even_forOf (isDeclaration : Bool) {b : Fragment} (hf : f.Even) (h : e.code.Even)
    (hb : b.Even) : (Generate.forOf isDeclaration f e b).Even := by
  have hleft : (if isDeclaration then f else loopTarget f).Even :=
    even_ite hf (even_loopTarget hf)
  refine even_headed (by decide) (even_sequence ?_) hb
  simp [even_token, bracketTexts, hleft, even_single h]

theorem even_loopStart (h : f.Even) : (loopStart f).Even :=
  even_noIn (even_guardIn (even_paren_if h))

theorem even_forLoop {start? test? update? : Option Fragment} (hstart : ∀ f ∈ start?, f.Even)
    (htest : ∀ f ∈ test?, f.Even) (hupdate : ∀ f ∈ update?, f.Even) (hg : g.Even) :
    (Generate.forLoop start? test? update? g).Even := by
  have hfirst : (orEmpty (start?.map loopStart)).Even := by
    cases start? with
    | none => exact even_empty
    | some start => exact even_loopStart (hstart start rfl)
  refine even_headed (by decide) (even_sequence ?_) hg
  simp [hfirst, even_orEmpty htest, even_orEmpty hupdate]

theorem even_ifStatement {alternate? : Option Fragment} (hf : f.Even) (hg : g.Even)
    (h : ∀ a ∈ alternate?, a.Even) : (Generate.ifStatement f g alternate?).Even := by
  cases alternate? with
  | none => exact (even_sequence (by simp [even_token, bracketTexts, hf, hg])).withMarks _
  | some a =>
    have hblock : (Generate.block [g]).Even := even_block (List.forall_mem_singleton.mpr hg)
    have hthen : (if g.marks.endsWithMissingElse then Generate.block [g] else g).Even :=
      even_ite hblock hg
    exact even_endingIn (h a rfl) (by simp [even_token, bracketTexts, hf, hthen])

theorem even_labeled {label : String} (hl : spell label ∉ bracketTexts) (h : f.Even) :
    (Generate.labeled spell label f).Even := by
  have hlabel : (token (spell label)).Even := even_token hl
  exact even_endingIn h (by simp [even_token, bracketTexts, hlabel])

theorem even_switch (hf : f.Even) (h : ∀ g ∈ fs, g.Even) : (switch f fs).Even :=
  even_sequence (by simp [even_token, bracketTexts, hf, even_block h])

theorem even_switchCase (hf : f.Even) (h : ∀ g ∈ fs, g.Even) :
    (Generate.switchCase f fs).Even :=
  even_sequence (by simp [even_token, bracketTexts, hf, even_lines h])

theorem even_switchDefault (h : ∀ g ∈ fs, g.Even) : (Generate.switchDefault fs).Even :=
  even_sequence (by simp [even_token, bracketTexts, even_lines h])

theorem even_tryCatch (hf : f.Even) (hg : g.Even) : (Generate.tryCatch f g).Even :=
  even_sequence (by simp [even_token, bracketTexts, hf, hg])

theorem even_tryFinally {clause? : Option Fragment} (hf : f.Even) (h : ∀ c ∈ clause?, c.Even)
    (hg : g.Even) : (Generate.tryFinally f clause? g).Even :=
  even_sequence (by simp [even_token, bracketTexts, hf, hg, even_orEmpty h])

theorem even_catchClause (hf : f.Even) (hg : g.Even) : (Generate.catchClause f g).Even :=
  even_sequence (by simp [even_token, bracketTexts, hf, hg])

theorem even_declaration (kind : DeclarationKind) (h : ∀ f ∈ fs, f.Even) :
    (Generate.declaration kind fs).Even := by
  have hkind : (token kind.text).Even := even_token (by cases kind <;> decide)
  exact even_sequence (by simp [hkind, even_separated h])

theorem even_declaredValue (h : f.Even) : (declaredValue f).Even :=
  even_ite (even_paren h) (even_guardIn h)

theorem even_codeDeclarator {value? : Option Fragment} (hf : f.Even)
    (h : ∀ v ∈ value?, v.Even) : (Generate.declarator f value?).Even := by
  refine even_declarator hf fun g hg => ?_
  obtain ⟨v, hv, rfl⟩ := Option.map_eq_some_iff.mp hg
  exact even_declaredValue (h v hv)

end

/-! ### Trees -/

theorem even_declaredName {P : Node → Prop} {n : Tree .bindingName} {code : Fragment}
    (h : ∀ m ∈ (if n.isDefaultName then [] else n.nodes), P m)
    (ih : (∀ m ∈ n.nodes, P m) → code.Even) : ∀ f ∈ Tree.declaredName n code, f.Even := by
  intro f hf
  unfold Tree.declaredName at hf
  split at hf
  · cases hf
  · next hname =>
    obtain rfl := Option.some.inj hf
    rw [if_neg hname] at h
    exact ih h

theorem even_optionalCode {e? : Option Operand} (h : ∀ e ∈ e?, e.code.Even) :
    ∀ f ∈ e?.map (·.code), f.Even := by
  intro f hf
  obtain ⟨e, he, rfl⟩ := Option.map_eq_some_iff.mp hf
  exact h e he

/-- All code is balanced, if no name is spelled like a bracket. -/
theorem Tree.even {spell : String → String} (hs : QuietSpelling spell) {c : Category} (t : Tree c)
    (h : t.AllNames (spell · ∉ bracketTexts)) : Code.All Even c (t.code spell) := by
  induction t with
  | nil => exact List.forall_mem_nil _
  | cons t ts iht ihts =>
    obtain ⟨ht, hts⟩ := parts_of_two h
    exact List.forall_mem_cons.mpr ⟨iht ht, ihts hts⟩
  | absent => rintro _ ⟨⟩
  | present t ih =>
    rintro code ⟨⟩
    exact ih (part_of_one h)
  -- trees that stand for another
  | ofImport t ih | ofExport t ih | ofStatement t ih | ofBinding t ih | ofMethod t ih
  | ofBindingName t ih | ofSimpleTarget t ih | ofTargetName t ih | ofTarget t ih
  | blockStatement t ih | ofFunction t ih | ofClass t ih | ofLoopTarget t ih
  | ofLoopDeclaration t ih | ofStartExpression t ih | ofStartDeclaration t ih | ofIdentifier t ih
  | ofCallee t ih => exact ih (part_of_one h)
  | ofExportedFunction t ih | ofExportedClass t ih | ofDefaultFunction t ih
  | ofDefaultClass t ih => exact List.forall_mem_singleton.mpr (ih (part_of_one h))
  | ofExportedVariables t ih =>
    exact List.forall_mem_cons.mpr ⟨ih (part_of_one h), List.forall_mem_singleton.mpr
      even_statementEnd⟩
  | ofDefaultExpression e ih => exact even_defaultExpression (ih (part_of_one h))
  | ofSubstitution e ih =>
    rintro f ⟨⟩
    exact ih (part_of_one h)
  | templateText raw => rintro f ⟨⟩
  | ofArgument e ih => exact even_single (ih (part_of_one h))
  | spread e ih => exact even_rest (even_single (ih (part_of_one h)))
  | ofExpressionBody e ih => exact even_expressionBody (ih (part_of_one h))
  | ofFunctionBody b ih => exact even_brace (ih (part_of_one h))
  | shorthandProperty n ih => exact Even.withMarks (ih (part_of_one h)) _
  -- names and literals
  | bindingName n | targetName n | identifier n =>
    exact Even.withMarks (even_token (h _ List.mem_cons_self n List.mem_cons_self)) _
  | directive raw => exact even_directive hs raw
  | staticName value => exact even_staticName hs value
  | boolean value => exact even_token (by cases value <;> decide)
  | infinity => exact even_number (Number.Double.infinity false)
  | number value => exact even_number value
  | null | this | super => exact even_token (by decide)
  | regExp pattern flags => exact even_regExp pattern flags
  | string value => exact even_source hs value
  -- programs and modules
  | script ds ss ihd ihs | moduleBody ds ss ihd ihs =>
    obtain ⟨hd, hss⟩ := parts_of_two h
    exact even_prologue (ihd hd) (ihs hss)
  | importNamed d ns specifier ihd ihn =>
    obtain ⟨hd, hn⟩ := parts_of_two h
    exact even_importNamed hs (ihd hd) (ihn hn) specifier
  | importNamespace d n specifier ihd ihn =>
    obtain ⟨hd, hn⟩ := parts_of_two h
    exact even_importNamespace hs (ihd hd) (ihn hn) specifier
  | importSpecifier name? b ih =>
    refine even_importSpecifier (ih (part_of_one h)) fun name hname => ?_
    exact h _ List.mem_cons_self name (Option.mem_toList.mpr hname)
  | exportAll specifier => exact even_exportAll hs specifier
  | exportFrom ns specifier ih => exact even_exportFrom hs (ih (part_of_one h)) specifier
  | exportFromSpecifier name exported? =>
    have hown := h _ List.mem_cons_self
    refine even_asName (even_token (hown name List.mem_cons_self)) fun other hother => ?_
    exact hown other (List.mem_cons_of_mem _ (Option.mem_toList.mpr hother))
  | exportLocals ns ih => exact even_exportLocals (ih (part_of_one h))
  | exportLocalSpecifier name exported? ih =>
    refine even_asName (ih (part_of_one h)) fun other hother => ?_
    exact h _ List.mem_cons_self other (Option.mem_toList.mpr hother)
  | exportDeclared d ih => exact even_exportDeclared (ih (part_of_one h))
  | exportDefault b ih => exact even_exportDefault (ih (part_of_one h))
  -- functions and classes
  | function isAsync isGenerator n ps b ihn ihps ihb =>
    obtain ⟨hn, hps, hb⟩ := parts_of_three h
    exact even_function isAsync isGenerator (even_declaredName hn ihn) (ihps hps) (ihb hb)
  | functionExpression isAsync isGenerator n ps b ihn ihps ihb =>
    obtain ⟨hn, hps, hb⟩ := parts_of_three h
    exact (even_function isAsync isGenerator (ihn hn) (ihps hps) (ihb hb)).withMarks _
  | classDeclaration n p es ihn ihp ihes =>
    obtain ⟨hn, hp, hes⟩ := parts_of_three h
    exact even_classCode (even_declaredName hn ihn) (ihp hp) (ihes hes)
  | classExpression n p es ihn ihp ihes =>
    obtain ⟨hn, hp, hes⟩ := parts_of_three h
    exact (even_classCode (ihn hn) (ihp hp) (ihes hes)).withMarks _
  | parameters is r ihi ihr =>
    obtain ⟨hi, hr⟩ := parts_of_two h
    exact even_parameters (ihi hi) (ihr hr)
  | functionBody ds ss ihd ihs =>
    obtain ⟨hd, hss⟩ := parts_of_two h
    exact even_indent (even_prologue (ihd hd) (ihs hss))
  | classElement isStatic m ih => exact even_classElement isStatic (ih (part_of_one h))
  | method isAsync isGenerator n ps b ihn ihps ihb =>
    obtain ⟨hn, hps, hb⟩ := parts_of_three h
    exact even_method isAsync isGenerator (ihn hn) (ihps hps) (ihb hb)
  | getter n b ihn ihb =>
    obtain ⟨hn, hb⟩ := parts_of_two h
    exact even_getter (ihn hn) (ihb hb)
  | setter n p b ihn ihp ihb =>
    obtain ⟨hn, hp, hb⟩ := parts_of_three h
    exact even_setter (ihn hn) (ihp hp) (ihb hb)
  -- properties, bindings and targets
  | computedName e ih => exact even_computedName (ih (part_of_one h))
  | dataProperty n v ihn ihv =>
    obtain ⟨hn, hv⟩ := parts_of_two h
    exact even_dataProperty (ihn hn) (ihv hv)
  | bindingWithDefault b v ihb ihv | targetWithDefault b v ihb ihv =>
    obtain ⟨hb, hv⟩ := parts_of_two h
    exact even_withDefault (ihb hb) (ihv hv)
  | bindingShorthand n v ihn ihv | targetShorthand n v ihn ihv =>
    obtain ⟨hn, hv⟩ := parts_of_two h
    exact even_withDefault? (ihn hn) (ihv hv)
  | bindingProperty n b ihn ihb | targetProperty n b ihn ihb =>
    obtain ⟨hn, hb⟩ := parts_of_two h
    exact even_renamed (ihn hn) (ihb hb)
  | arrayBinding es r ihes ihr | arrayTarget es r ihes ihr =>
    obtain ⟨hes, hr⟩ := parts_of_two h
    exact even_arrayElements (ihes hes) (ihr hr)
  | array es ih =>
    show (arrayElements (es.code spell) none).Even
    refine even_arrayElements (ih (part_of_one h)) ?_
    rintro _ ⟨⟩
  | objectBinding ps ih => exact even_properties (ih (part_of_one h))
  | objectTarget ps ih | object ps ih =>
    exact (even_properties (ih (part_of_one h))).withMarks _
  | staticMemberTarget o property ih | staticMember o property ih =>
    exact even_staticMember (ih (part_of_one h)) (h _ List.mem_cons_self _ List.mem_cons_self)
  | computedMemberTarget o e iho ihe | computedMember o e iho ihe =>
    obtain ⟨ho, he⟩ := parts_of_two h
    exact even_computedMember _ (iho ho) (ihe he)
  -- statements
  | breakStatement label? | continueStatement label? =>
    refine even_jump (by decide) fun label hlabel => ?_
    exact h _ List.mem_cons_self label (Option.mem_toList.mpr hlabel)
  | debuggerStatement => exact even_sequence (by simp [even_token, bracketTexts])
  | emptyStatement => exact even_semicolon
  | doWhile b t ihb iht =>
    obtain ⟨hb, ht⟩ := parts_of_two h
    exact even_doWhile (ihb hb) (iht ht)
  | expressionStatement e ih => exact even_expressionStatement _ (ih (part_of_one h))
  | forIn l o b ihl iho ihb =>
    obtain ⟨hl, ho, hb⟩ := parts_of_three h
    exact even_forIn _ (ihl hl) (iho ho) (ihb hb)
  | forOf l is b ihl ihi ihb =>
    obtain ⟨hl, hi, hb⟩ := parts_of_three h
    exact even_forOf _ (ihl hl) (ihi hi) (ihb hb)
  | forLoop s t u b ihs iht ihu ihb =>
    obtain ⟨hss, ht, hu, hb⟩ := parts_of_four h
    exact even_forLoop (ihs hss) (even_optionalCode (iht ht)) (even_optionalCode (ihu hu)) (ihb hb)
  | ifStatement t s a iht ihs iha =>
    obtain ⟨ht, hss, ha⟩ := parts_of_three h
    exact even_ifStatement (iht ht) (ihs hss) (iha ha)
  | labeled label b ih =>
    exact even_labeled (h _ List.mem_cons_self _ List.mem_cons_self) (ih (part_of_one h))
  | returnStatement e ih =>
    exact even_keywordStatement (by decide) (even_orEmpty (even_optionalCode (ih (part_of_one h))))
  | throwStatement e ih => exact even_keywordStatement (by decide) (ih (part_of_one h))
  | switchStatement d cs ihd ihcs =>
    obtain ⟨hd, hcs⟩ := parts_of_two h
    exact even_switch (ihd hd) (ihcs hcs)
  | switchWithDefault d before fallback after ihd ihb ihdef iha =>
    obtain ⟨hd, hb, hdef, ha⟩ := parts_of_four h
    refine even_switch (ihd hd) (List.forall_mem_append.mpr ⟨ihb hb, ?_⟩)
    exact List.forall_mem_cons.mpr ⟨ihdef hdef, iha ha⟩
  | tryCatch b cl ihb ihcl =>
    obtain ⟨hb, hcl⟩ := parts_of_two h
    exact even_tryCatch (ihb hb) (ihcl hcl)
  | tryFinally b cl f ihb ihcl ihf =>
    obtain ⟨hb, hcl, hf⟩ := parts_of_three h
    exact even_tryFinally (ihb hb) (ihcl hcl) (ihf hf)
  | variableStatement d ih =>
    exact even_sequence (List.forall_mem_cons.mpr
      ⟨ih (part_of_one h), List.forall_mem_singleton.mpr even_statementEnd⟩)
  | whileLoop t b iht ihb | withStatement t b iht ihb =>
    obtain ⟨ht, hb⟩ := parts_of_two h
    exact even_headed (by decide) (iht ht) (ihb hb)
  | block ss ih => exact even_block (ih (part_of_one h))
  | switchCase t ss iht ihss =>
    obtain ⟨ht, hss⟩ := parts_of_two h
    exact even_switchCase (iht ht) (ihss hss)
  | switchDefault ss ih => exact even_switchDefault (ih (part_of_one h))
  | catchClause b s ihb ihs =>
    obtain ⟨hb, hss⟩ := parts_of_two h
    exact even_catchClause (ihb hb) (ihs hss)
  | declaration kind ds ih => exact even_declaration kind (ih (part_of_one h))
  | declarator b v ihb ihv =>
    obtain ⟨hb, hv⟩ := parts_of_two h
    exact even_codeDeclarator (ihb hb) (even_optionalCode (ihv hv))
  -- expressions
  | newTarget => exact even_sequence (by simp [even_token, bracketTexts])
  | template t ps iht ihps =>
    obtain ⟨ht, hps⟩ := parts_of_two h
    exact even_template (iht ht) (ihps hps)
  | call f as ihf ihas =>
    obtain ⟨hf, has⟩ := parts_of_two h
    exact even_call (ihf hf) (ihas has)
  | construct f as ihf ihas =>
    obtain ⟨hf, has⟩ := parts_of_two h
    exact even_construct (ihf hf) (ihas has)
  | unary op e ih => exact even_unary (by cases op <;> decide) (ih (part_of_one h))
  | await e ih => exact even_unary (by decide) (ih (part_of_one h))
  | update before op t ih => exact even_update before op (ih (part_of_one h))
  | binary l op r ihl ihr =>
    obtain ⟨hl, hr⟩ := parts_of_two h
    exact even_binary _ op (ihl hl) (ihr hr)
  | conditional t s a iht ihs iha =>
    obtain ⟨ht, hss, ha⟩ := parts_of_three h
    exact even_conditional (iht ht) (ihs hss) (iha ha)
  | assign t v iht ihv =>
    obtain ⟨ht, hv⟩ := parts_of_two h
    exact even_assignment (iht ht) (by decide) (ihv hv)
  | compoundAssign t op v iht ihv =>
    obtain ⟨ht, hv⟩ := parts_of_two h
    exact even_assignment (iht ht) (by cases op <;> decide) (ihv hv)
  | arrow isAsync ps b ihps ihb =>
    obtain ⟨hps, hb⟩ := parts_of_two h
    exact even_arrow isAsync _ (ihps hps) (ihb hb)
  | yield e ih => exact even_yieldCode (ih (part_of_one h))
  | yieldFrom e ih => exact even_yieldFrom (ih (part_of_one h))

end EcmaPrinter
