import EcmaPrinter.Proofs.Lexical.Flow

/-!
Every form of code fits where it is put.

There is one rule for each function that makes code from the codes of parts.  Expressions stand
behind any edge of `starts` and lead to an edge of `ended`; statements lead to an edge of
`between`, where the next statement may start.
-/

namespace EcmaPrinter.Lexical

open EcmaPrinter
open EcmaPrinter.Generate
open EcmaPrinter.Number
open EcmaPrinter.Text

/-- The edges behind which expressions and statements may start. -/
def starts : List Edge := [.operator, .closed, .word, .brace]

variable {rule : Rule} {spell : String → String} {f g h : Fragment} {fs gs : List Fragment}
  {e e' e'' : Operand}

/-! ### Literals and statement ends -/

theorem fits_raw {S : List Edge} (hS : S ⊆ inside) {raw : String}
    (hraw : raw ≠ "" → ∀ e ∈ S, rule e (.raw raw)) : Fits rule S (.chunk :: S) (.raw raw) := by
  intro noIn e he
  by_cases hne : raw = ""
  · subst hne
    exact ⟨e, List.mem_cons_of_mem _ he, .empty (hS he) (.nil e)⟩
  · exact ⟨.chunk, List.mem_cons_self, .single (hraw hne e he)⟩

theorem Fits.stringStatement (hf : Fits rule starts ended f) :
    Fits rule starts between (.stringStatement f) := by
  intro noIn e he
  obtain ⟨m, hm, hpath⟩ := hf noIn e he
  exact ⟨.operator, by decide, hpath.append (.ending hm (.nil _))⟩

theorem fits_directive {raw : String} (hraw : rule.AdmitsString (spell (quoteDirective raw))) :
    Fits rule starts between (Generate.directive spell raw) := by
  unfold Generate.directive
  exact (fits_quoted hraw (by decide)).andThen (fits_end (by decide) (by decide))

/-- The specifier of a module and the end of the statement. -/
theorem fits_source [rule.Quotes spell] (specifier : String) :
    Fits rule [.word] between (.sequence [stringLiteral spell specifier, .statementEnd]) :=
  (fits_stringLiteral specifier (by decide)).andThen (fits_end (by decide) (by decide))

variable [rule.Lawful]

/-! ### Operands -/

theorem Fits.grouped (hf : Fits rule starts ended f) : Fits rule starts ended (.paren f) :=
  (hf.paren (by decide) (by decide) (by decide)).widen (by decide)

theorem Fits.within (he : Fits rule starts ended e.code) (p : Precedence) :
    Fits rule starts ended (e.within p) := by
  unfold Operand.within
  split
  · exact he.grouped
  · exact he

theorem Fits.single (he : Fits rule starts ended e.code) : Fits rule starts ended e.single :=
  he.within .assignment

/-! ### Lists in brackets -/

/-- Items between commas inside of brackets. -/
theorem fits_items (hfs : ∀ f ∈ fs, Fits rule [.closed] ended f) :
    Fits rule [.closed] ended (.separated fs) :=
  (fits_separated hfs (by decide) (by decide)).mono (by decide) (by decide)

theorem fits_rest (hf : Fits rule starts ended f) : Fits rule [.closed] ended (rest f) :=
  .token (by decide) (hf.cons (by decide) (fits_nil (by decide)))

theorem fits_arrayElements {items : List (Option Fragment)} {rest? : Option Fragment}
    (hitems : ∀ item ∈ items, ∀ f ∈ item, Fits rule [.closed] ended f)
    (hrest : ∀ f ∈ rest?, Fits rule starts ended f) :
    Fits rule starts [.closed] (arrayElements items rest?) := by
  have hempty : Fits rule [.closed] ended .empty := fits_empty (by decide)
  refine (fits_items fun f hf => ?_).bracket (by decide) (by decide) (by decide)
  rcases List.mem_append.mp hf with hf | hf
  · obtain ⟨item, hitem, rfl⟩ := List.mem_map.mp hf
    refine fits_orEmpty (fun g hg => ?_) (by decide)
    exact hitems item hitem g hg
  · cases rest? with
    | some r =>
      obtain rfl := List.mem_singleton.mp hf
      exact fits_rest (hrest r rfl)
    | none =>
      simp only at hf
      split at hf
      · obtain rfl := List.mem_singleton.mp hf
        exact hempty
      · cases hf

theorem fits_properties (hfs : ∀ f ∈ fs, Fits rule [.closed] ended f) :
    Fits rule starts [.brace] (properties fs) :=
  (fits_items hfs).brace (by decide) (by decide) (by decide)

theorem fits_arguments (hfs : ∀ f ∈ fs, Fits rule [.closed] ended f) :
    Fits rule ended [.closed] (arguments fs) :=
  (fits_items hfs).paren (by decide) (by decide) (by decide)

/-! ### Literals, members and calls -/

theorem fits_boolean (value : Bool) : Fits rule starts [.word] (Generate.boolean value) := by
  cases value <;> exact fits_token (by decide) (by decide)

theorem fits_newTarget : Fits rule starts [.word] newTarget := by
  unfold newTarget
  exact .token (by decide) (.token (by decide) (.token (by decide) (fits_nil (by decide))))

theorem fits_staticMember (he : Fits rule starts ended e.code) {property : String}
    (hname : rule.AdmitsName (spell property)) :
    Fits rule starts [.word] (staticMember spell e property) := by
  unfold staticMember
  refine Fits.withMarks ?_ _
  exact (he.within _).cons (by decide)
    (.token (by decide) ((fits_name hname (by decide)).andThen (fits_nil (by decide))))

theorem fits_computedMember (isLet : Bool) (he : Fits rule starts ended e.code)
    (hf : Fits rule starts ended f) : Fits rule starts [.closed] (computedMember isLet e f) := by
  unfold computedMember
  refine Fits.withMarks ?_ _
  exact (he.within _).cons (by decide)
    ((hf.bracket (by decide) (by decide) (by decide)).andThen (fits_nil (by decide)))

theorem fits_call (he : Fits rule starts ended e.code)
    (hfs : ∀ f ∈ fs, Fits rule [.closed] ended f) :
    Fits rule starts [.closed] (call e fs) := by
  unfold call
  refine Fits.withMarks ?_ _
  exact (he.within _).cons (by decide)
    ((fits_arguments hfs).cons (by decide) (fits_nil (by decide)))

theorem fits_construct (he : Fits rule starts ended e.code)
    (hfs : ∀ f ∈ fs, Fits rule [.closed] ended f) : Fits rule starts ended (construct e fs) := by
  have hcallee : Fits rule starts ended (constructCallee e fs.isEmpty) := by
    unfold constructCallee
    split
    · exact he.grouped
    · exact he.within _
  have hargs : Fits rule ended ended (if fs.isEmpty then .empty else arguments fs) := by
    split
    · exact fits_empty (by decide)
    · exact (fits_arguments hfs).mono (by decide) (by decide)
  unfold construct
  exact .token (by decide)
    (hcallee.cons (by decide) (hargs.cons (by decide) (fits_nil (by decide))))

/-! ### Templates -/

/-- A hole of a template has an expression in it.  For the texts see `Rule.AdmitsParts`. -/
def LaidPart (rule : Rule) : Chunk → Prop
  | .text _ => True
  | .hole f => Fits rule starts ended f

/-- The rule allows the texts among the parts of a template, in the given spelling.  A text stands
behind the mark or the hole before it, or behind another text. -/
def Rule.AdmitsParts (rule : Rule) (texts : String → String) : List Edge → List Chunk → Prop
  | _, [] => True
  | _, .hole _ :: parts => rule.AdmitsParts texts [.brace] parts
  | S, .text raw :: parts =>
    (texts raw ≠ "" → ∀ e ∈ S, rule e (.raw (texts raw))) ∧
      rule.AdmitsParts texts (.chunk :: S) parts

/-- Behind each part of a template the next one may stand. -/
theorem fits_parts {tagged : Bool} {S : List Edge} (hS : S ⊆ inside) {parts : List Chunk}
    (hparts : ∀ part ∈ parts, LaidPart rule part)
    (htexts : rule.AdmitsParts (fun raw => if tagged then raw else spell raw) S parts) :
    Fits rule S inside (.sequence (parts.flatMap (·.code spell tagged))) := by
  induction parts generalizing S with
  | nil => exact fits_nil hS
  | cons part parts ih =>
    have hpart := hparts part List.mem_cons_self
    have hrest := fun q hq => hparts q (List.mem_cons_of_mem part hq)
    rw [List.flatMap_cons]
    cases part with
    | text raw =>
      have hchunk : .chunk :: S ⊆ inside := List.cons_subset.mpr ⟨by decide, hS⟩
      exact (fits_raw hS htexts.1).andThen (ih hchunk hrest htexts.2)
    | hole f =>
      have hhole : Fits rule inside [.brace] (.sequence [.token "$\x7b", f, .token "\x7d"]) :=
        .token (by decide) (Fits.cons hpart (by decide)
          (.token (by decide) (fits_nil (by decide))))
      exact (hhole.mono hS (List.Subset.refl _)).append (ih (by decide) hrest htexts)

theorem fits_template {tag? : Option Operand} {parts : List Chunk}
    (htag : ∀ tag ∈ tag?, Fits rule starts ended tag.code)
    (hparts : ∀ part ∈ parts, LaidPart rule part)
    (htexts : rule.AdmitsParts (fun raw => if tag?.isSome then raw else spell raw) [.tick] parts) :
    Fits rule starts [.tick] (template spell tag? parts) := by
  have hbody : ∀ {S : List Edge}, passes S (.token "\x60") →
      Fits rule S [.tick] (.sequence (.token "\x60" ::
        (parts.flatMap (·.code spell tag?.isSome) ++ [.token "\x60"]))) := by
    intro S hS
    have hclose : Fits rule inside [.tick] (.sequence [.token "\x60"]) :=
      .token (by decide) (fits_nil (by decide))
    exact .token hS ((fits_parts (by decide) hparts htexts).append hclose)
  unfold template
  cases tag? with
  | none => exact hbody (by decide)
  | some tag =>
    exact Fits.withMarks (((htag tag rfl).within _).andThen (hbody (by decide))) _

/-! ### Operators -/

theorem fits_unary {op : String} (hop : passes starts (.token op))
    (hedge : edgeOf (.token op) ∈ starts) (he : Fits rule starts ended e.code) :
    Fits rule starts ended (Generate.unary op e) :=
  .token hop ((he.within _).cons (by simpa using hedge) (fits_nil (by decide)))

theorem passes_unaryOperator (op : UnaryOperator) :
    passes starts (.token op.text) ∧ edgeOf (.token op.text) ∈ starts := by
  cases op <;> decide

theorem fits_update (before : Bool) (op : UpdateOperator) (hf : Fits rule starts ended f) :
    Fits rule starts ended (update before op f) := by
  have hop : passes starts (.token op.text) ∧ passes ended (.token op.text) ∧
      edgeOf (.token op.text) = .closed := by
    cases op <;> decide
  obtain ⟨hbefore, hafter, hedge⟩ := hop
  unfold update
  split
  · exact .token hbefore (hf.cons (by rw [hedge]; decide) (fits_nil (by decide)))
  · exact Fits.withMarks (hf.andThen (.token hafter (fits_nil (by rw [hedge]; decide)))) _

theorem fits_leftOperand (op : BinaryOperator) (isPrefixed : Bool)
    (he : Fits rule starts ended e.code) :
    Fits rule starts ended (leftOperand op isPrefixed e) := by
  unfold leftOperand
  split
  · split
    · exact he.grouped
    · exact he
  · exact he.within _

theorem fits_rightOperand (op : BinaryOperator) (he : Fits rule starts ended e.code) :
    Fits rule starts ended (rightOperand op e) := by
  unfold rightOperand
  split
  · exact he.within _
  · split
    · exact he.grouped
    · exact he

theorem passes_binaryOperator (op : BinaryOperator) (hop : op ≠ .sequence) :
    passes ended (.operator op.text) ∧ edgeOf (.operator op.text) ∈ starts := by
  cases op with
  | sequence => exact absurd rfl hop
  | _ => decide

theorem fits_binary (isPrefixed : Bool) (op : BinaryOperator) (he : Fits rule starts ended e.code)
    (he' : Fits rule starts ended e'.code) :
    Fits rule starts ended (binary isPrefixed e op e') := by
  have hl := fits_leftOperand op isPrefixed he
  have hr := fits_rightOperand op he'
  refine Fits.withMarks ?_ _
  by_cases hop : op = .sequence
  · rw [if_pos (by simp [hop])]
    exact hl.separated_cons (fun g hg => List.mem_singleton.mp hg ▸ hr) (by decide) (by decide)
  · obtain ⟨hpass, hedge⟩ := passes_binaryOperator op hop
    rw [if_neg (by simpa using hop)]
    exact hl.andThen (.operator hpass (hr.cons (by simpa using hedge) (fits_nil (by decide))))

theorem fits_conditional (he : Fits rule starts ended e.code) (he' : Fits rule starts ended e'.code)
    (he'' : Fits rule starts ended e''.code) : Fits rule starts ended (conditional e e' e'') := by
  unfold conditional
  refine Fits.withMarks ?_ _
  exact (he.within _).andThen (.operator (by decide) (he'.single.cons (by decide)
    (.operator (by decide) (he''.single.cons (by decide) (fits_nil (by decide))))))

/-- The edges behind what can be assigned to. -/
def targetEnds : List Edge := [.word, .closed, .brace]

theorem fits_assignment {op : String} (hf : Fits rule starts targetEnds f)
    (hop : passes targetEnds (.operator op)) (hedge : edgeOf (.operator op) ∈ starts)
    (he : Fits rule starts ended e.code) : Fits rule starts ended (assignment f op e) := by
  unfold assignment
  refine Fits.withMarks ?_ _
  exact hf.andThen (.operator hop (he.single.cons (by simpa using hedge) (fits_nil (by decide))))

theorem passes_assignmentOperator (op : AssignmentOperator) :
    passes targetEnds (.operator op.text) ∧ edgeOf (.operator op.text) ∈ starts := by
  cases op <;> decide

theorem fits_yieldCode {e? : Option Operand} (he : ∀ e ∈ e?, Fits rule starts ended e.code) :
    Fits rule starts ended (yieldCode e?) := by
  unfold yieldCode
  cases e? with
  | none => exact fits_token (by decide) (by decide)
  | some e =>
    refine Fits.withMarks ?_ _
    exact .token (by decide) ((he e rfl).single.cons (by decide) (fits_nil (by decide)))

theorem fits_yieldFrom (he : Fits rule starts ended e.code) :
    Fits rule starts ended (Generate.yieldFrom e) := by
  unfold Generate.yieldFrom
  refine Fits.withMarks ?_ _
  exact .token (by decide) (.token (by decide) (he.single.cons (by decide) (fits_nil (by decide))))

/-! ### Names and properties -/

/-- The edges behind property names. -/
def nameEnds : List Edge := [.word, .number, .closed]

theorem fits_computedName (he : Fits rule starts ended e.code) :
    Fits rule starts nameEnds (Generate.computedName e) := by
  unfold Generate.computedName
  exact (he.single.bracket (by decide) (by decide) (by decide)).widen (by decide)

theorem fits_staticName [rule.Quotes spell] {value : String}
    (hname : isIdentifierName value → rule.AdmitsName (spell value)) :
    Fits rule starts nameEnds (Generate.staticName spell value) := by
  unfold Generate.staticName
  split
  · next hvalue => exact (fits_name (hname hvalue) (by decide)).widen (by decide)
  · split
    · next x hx =>
      obtain ⟨-, hx⟩ := Option.filter_eq_some_iff.mp hx
      simp only [Bool.and_eq_true, Bool.or_eq_true, Bool.not_eq_true'] at hx
      obtain ⟨⟨hfin, hsign⟩, -⟩ := hx
      have hx : rule.Admits (.number x) :=
        Rule.Lawful.number x (Double.isNaN_of_isFinite hfin) hsign
      exact (fits_number hx (by decide)).widen (by decide)
    · exact (fits_stringLiteral value (by decide)).widen (by decide)

theorem fits_dataProperty (hf : Fits rule starts nameEnds f) (he : Fits rule starts ended e.code) :
    Fits rule starts ended (Generate.dataProperty f e) := by
  unfold Generate.dataProperty
  exact hf.andThen (.token (by decide) (he.single.cons (by decide) (fits_nil (by decide))))

theorem fits_withDefault (hf : Fits rule starts targetEnds f) (he : Fits rule starts ended e.code) :
    Fits rule starts ended (withDefault f e) := by
  have hvalue : ∀ g ∈ some e.single, Fits rule starts ended g := by
    intro g hg
    obtain rfl := Option.some.inj hg
    exact he.single
  exact hf.declarator (by decide) hvalue (by decide) (by decide)

theorem fits_withDefault? {e? : Option Operand} (hf : Fits rule starts targetEnds f)
    (he : ∀ e ∈ e?, Fits rule starts ended e.code) :
    Fits rule starts ended (withDefault? f e?) := by
  cases e? with
  | none => exact hf.widen (by decide)
  | some e => exact fits_withDefault hf (he e rfl)

theorem fits_renamed (hf : Fits rule starts nameEnds f) (hg : Fits rule starts ended g) :
    Fits rule starts ended (renamed f g) := by
  unfold renamed
  exact hf.andThen (.token (by decide) (hg.cons (by decide) (fits_nil (by decide))))

theorem fits_asName {other? : Option String} (hf : Fits rule starts [.word] f)
    (hother : ∀ other ∈ other?, rule.AdmitsName (spell other)) :
    Fits rule starts [.word] (asName spell f other?) := by
  cases other? with
  | none => exact hf
  | some other =>
    exact hf.andThen (.token (by decide)
      ((fits_name (hother other rfl) (by decide)).andThen (fits_nil (by decide))))

/-! ### Directives and statements in lines -/

/-- A statement that is kept from being read as a directive still fits. -/
theorem fits_directiveSafe (hf : Fits rule starts between f) :
    Fits rule starts between (directiveSafe f) := by
  unfold directiveSafe
  split
  · next m inner =>
    have hinner : Fits rule starts ended inner := by
      intro noIn e he
      obtain ⟨e', -, hpath⟩ := hf noIn e he
      exact hpath.of_append_statementEnd Rule.Lawful.solid
    exact hinner.grouped.andThen (fits_end (by decide) (by decide))
  · exact hf

theorem fits_prologue (hfs : ∀ f ∈ fs, Fits rule starts between f)
    (hgs : ∀ g ∈ gs, Fits rule starts between g) : Fits rule between between (prologue fs gs) := by
  cases gs with
  | nil => exact fits_lines hfs (by decide) (by decide)
  | cons g gs =>
    have hall : ∀ f ∈ fs ++ directiveSafe g :: gs, Fits rule starts between f := by
      intro f hf
      rcases List.mem_append.mp hf with hf | hf
      · exact hfs f hf
      · rcases List.mem_cons.mp hf with rfl | hf
        · exact fits_directiveSafe (hgs g List.mem_cons_self)
        · exact hgs f (List.mem_cons_of_mem g hf)
    exact fits_lines hall (by decide) (by decide)

theorem fits_block (hfs : ∀ f ∈ fs, Fits rule starts between f) :
    Fits rule starts [.brace] (Generate.block fs) :=
  ((fits_lines hfs (by decide) (by decide)).indent (by decide)).brace (by decide) (by decide)
    (by decide)

/-! ### Functions and classes -/

theorem fits_parameters {rest? : Option Fragment} (hfs : ∀ f ∈ fs, Fits rule starts ended f)
    (hrest : ∀ f ∈ rest?, Fits rule starts ended f) :
    Fits rule [.closed] ended (Generate.parameters fs rest?) := by
  refine fits_items fun f hf => ?_
  rcases List.mem_append.mp hf with hf | hf
  · exact (hfs f hf).mono (by decide) (by decide)
  · cases rest? with
    | none => cases hf
    | some r =>
      obtain rfl := List.mem_singleton.mp hf
      exact fits_rest (hrest r rfl)

/-- A parameter list in parentheses and a body in braces. -/
theorem fits_function_tail (hf : Fits rule [.closed] ended f) (hg : Fits rule between between g)
    {S : List Edge} (hS : passes S (.token "(")) :
    Fits rule S [.brace] (.sequence [.paren f, .brace g]) :=
  (hf.paren (by decide) hS (by decide)).andThen
    ((hg.brace (by decide) (by decide) (by decide)).andThen (fits_nil (by decide)))

theorem fits_function (isAsync isGenerator : Bool) {name? : Option Fragment}
    (hname : ∀ n ∈ name?, Fits rule starts [.word] n) (hf : Fits rule [.closed] ended f)
    (hg : Fits rule between between g) :
    Fits rule starts [.brace] (Generate.function isAsync isGenerator name? f g) := by
  have hname : Fits rule [.operator, .word] [.operator, .word] (.sequence name?.toList) :=
    fits_option (fun n hn => (hname n hn).mono (by decide) (by decide)) (by decide)
  have hhead : Fits rule starts [.operator, .word] (.sequence
      [keywordIf isAsync "async", .token "function", keywordIf isGenerator "*"]) :=
    (fits_keywordIf (by decide) isAsync).andThen (.token (by decide)
      ((fits_keywordIf (by decide) isGenerator).andThen (fits_nil (by decide))))
  exact (hhead.append hname).append (fits_function_tail hf hg (by decide))

theorem fits_classCode {name? : Option Fragment} {parent? : Option Operand}
    (hname : ∀ n ∈ name?, Fits rule starts [.word] n)
    (hparent : ∀ p ∈ parent?, Fits rule starts ended p.code)
    (hfs : ∀ f ∈ fs, Fits rule [.closed, .brace] [.brace] f) :
    Fits rule starts [.brace] (classCode name? parent? fs) := by
  have hclass : Fits rule starts [.word] (.sequence [.token "class"]) :=
    .token (by decide) (fits_nil (by decide))
  have hname : Fits rule [.word] [.word] (.sequence name?.toList) :=
    fits_option (fun n hn => (hname n hn).mono (by decide) (by decide)) (by decide)
  have hbody : Fits rule ended [.brace] (.sequence [Generate.block fs]) := by
    have hall : ∀ f ∈ fs, Fits rule [.closed, .brace] [.closed, .brace] f :=
      fun f hf => (hfs f hf).widen (by decide)
    have hlines := fits_lines hall (by decide) (by decide)
    have hbrace :=
      (hlines.indent (by decide)).brace (S := ended) (by decide) (by decide) (by decide)
    exact hbrace.andThen (fits_nil (by decide))
  refine ((hclass.append hname).append ?_).append hbody
  cases parent? with
  | none => exact fits_nil (by decide)
  | some p =>
    exact .token (by decide) (((hparent p rfl).within _).cons (by decide) (fits_nil (by decide)))

/-- The edges behind which methods may start. -/
def methodStarts : List Edge := [.closed, .word, .brace]

theorem fits_classElement (isStatic : Bool) (hf : Fits rule methodStarts [.brace] f) :
    Fits rule [.closed, .brace] [.brace] (Generate.classElement isStatic f) := by
  unfold Generate.classElement
  split
  · exact .token (by decide) (hf.cons (by decide) (fits_nil (by decide)))
  · exact hf.mono (by decide) (by decide)

theorem fits_method (isAsync isGenerator : Bool) (hf : Fits rule starts nameEnds f)
    (hg : Fits rule [.closed] ended g) (hh : Fits rule between between h) :
    Fits rule methodStarts [.brace] (Generate.method isAsync isGenerator f g h) := by
  unfold Generate.method
  exact (fits_keywordIf (by decide) isAsync).andThen
    ((fits_keywordIf (by decide) isGenerator).andThen
      (hf.cons (by decide) (fits_function_tail hg hh (by decide))))

theorem fits_getter (hf : Fits rule starts nameEnds f) (hg : Fits rule between between g) :
    Fits rule methodStarts [.brace] (Generate.getter f g) := by
  have hempty : Fits rule [.closed] ended .empty := fits_empty (by decide)
  unfold Generate.getter
  exact .token (by decide) (hf.cons (by decide) (fits_function_tail hempty hg (by decide)))

theorem fits_setter (hf : Fits rule starts nameEnds f) (hg : Fits rule starts ended g)
    (hh : Fits rule between between h) :
    Fits rule methodStarts [.brace] (Generate.setter f g h) := by
  have hparameter : Fits rule [.closed] ended g := hg.mono (by decide) (by decide)
  unfold Generate.setter
  exact .token (by decide) (hf.cons (by decide) (fits_function_tail hparameter hh (by decide)))

theorem fits_expressionBody (he : Fits rule starts ended e.code) :
    Fits rule starts ended (expressionBody e) := by
  unfold expressionBody
  simp only
  split
  · exact he.single.grouped
  · exact he.single

theorem fits_arrow (isAsync isSingleName : Bool) (hf : Fits rule [.closed] ended f)
    (hname : isSingleName → Fits rule starts [.word] f) (hg : Fits rule starts ended g) :
    Fits rule starts ended (Generate.arrow isAsync isSingleName f g) := by
  have hhead : Fits rule starts [.word, .closed] (if isSingleName then f else .paren f) := by
    split
    · next hsingle => exact (hname hsingle).widen (by decide)
    · exact (hf.paren (by decide) (by decide) (by decide)).widen (by decide)
  unfold Generate.arrow
  refine Fits.withMarks ?_ _
  exact (fits_keywordIf (by decide) isAsync).andThen (hhead.cons (by decide)
    (.operator (by decide) (hg.cons (by decide) (fits_nil (by decide)))))

/-! ### Statements -/

theorem fits_jump {keyword : String} {label? : Option String}
    (hkeyword : passes starts (.token keyword)) (hedge : edgeOf (.token keyword) = .word)
    (hlabel : ∀ label ∈ label?, rule.AdmitsName (spell label)) :
    Fits rule starts between (jump spell keyword label?) := by
  have hname : Fits rule [.word] [.word] (orEmpty (label?.map fun l => .token (spell l))) := by
    refine fits_orEmpty (fun f hf => ?_) (by decide)
    obtain ⟨label, hmem, rfl⟩ := Option.map_eq_some_iff.mp hf
    exact fits_name (hlabel label hmem) (by decide)
  unfold jump
  exact .token hkeyword (hname.cons (by rw [hedge]; decide) (fits_end (by decide) (by decide)))

theorem fits_keywordStatement {keyword : String} (hkeyword : passes starts (.token keyword))
    (hedge : edgeOf (.token keyword) = .word) (hf : Fits rule [.word] ended f) :
    Fits rule starts between (keywordStatement keyword f) := by
  unfold keywordStatement
  exact .token hkeyword (hf.cons (by rw [hedge]; decide) (fits_end (by decide) (by decide)))

theorem fits_expressionStatement (isString : Bool) (hf : Fits rule starts ended f) :
    Fits rule starts between (Generate.expressionStatement isString f) := by
  unfold Generate.expressionStatement
  split
  · exact hf.stringStatement
  · have hgroup : Fits rule starts ended (if isHazardousStart f.marks then .paren f else f) := by
      split
      · exact hf.grouped
      · exact hf
    exact hgroup.andThen (fits_end (by decide) (by decide))

/-- A keyword, a head in parentheses and a body. -/
theorem fits_headed {keyword : String} (hkeyword : passes starts (.token keyword))
    (hedge : edgeOf (.token keyword) = .word) (hf : Fits rule [.closed] ended f)
    (hg : Fits rule starts between g) : Fits rule starts between (headed keyword f g) := by
  unfold headed endingIn
  refine Fits.withMarks (.token hkeyword ?_) _
  rw [hedge]
  exact (hf.paren (by decide) (by decide) (by decide)).andThen
    (hg.cons (by decide) (fits_nil (by decide)))

theorem fits_doWhile (hf : Fits rule starts between f) (hg : Fits rule starts ended g) :
    Fits rule starts between (Generate.doWhile f g) := by
  unfold Generate.doWhile
  exact .token (by decide) (hf.cons (by decide) (.token (by decide)
    ((hg.paren (by decide) (by decide) (by decide)).andThen (fits_end (by decide) (by decide)))))

theorem fits_loopTarget (hf : Fits rule starts ended f) :
    Fits rule starts ended (loopTarget f) := by
  unfold loopTarget
  split
  · exact hf.grouped
  · exact hf

/-- An expression or declaration that is kept from a misread `in`. -/
theorem Fits.guarded (hf : Fits rule starts ended f) : Fits rule starts ended (.guardIn f) :=
  hf.guardIn (by decide) (by decide) (by decide) (by decide)

theorem fits_forIn (isDeclaration : Bool) (hf : Fits rule starts ended f)
    (hg : Fits rule starts ended g) (hh : Fits rule starts between h) :
    Fits rule starts between (Generate.forIn isDeclaration f g h) := by
  have hleft : Fits rule starts ended
      (if isDeclaration then .noIn (.guardIn f) else loopTarget f) := by
    split
    · exact hf.guarded.noIn
    · exact fits_loopTarget hf
  refine fits_headed (by decide) (by decide) ?_ hh
  exact hleft.cons (by decide) (.token (by decide) (hg.cons (by decide) (fits_nil (by decide))))

theorem fits_forOf (isDeclaration : Bool) (hf : Fits rule starts ended f)
    (he : Fits rule starts ended e.code) (hh : Fits rule starts between h) :
    Fits rule starts between (Generate.forOf isDeclaration f e h) := by
  have hleft : Fits rule starts ended (if isDeclaration then f else loopTarget f) := by
    split
    · exact hf
    · exact fits_loopTarget hf
  refine fits_headed (by decide) (by decide) ?_ hh
  exact hleft.cons (by decide)
    (.token (by decide) (he.single.cons (by decide) (fits_nil (by decide))))

theorem fits_loopStart (hf : Fits rule starts ended f) : Fits rule starts ended (loopStart f) := by
  unfold loopStart
  refine Fits.noIn (Fits.guarded ?_)
  split
  · exact hf.grouped
  · exact hf

theorem fits_forLoop {start? test? update? : Option Fragment}
    (hstart : ∀ f ∈ start?, Fits rule starts ended f)
    (htest : ∀ f ∈ test?, Fits rule starts ended f)
    (hupdate : ∀ f ∈ update?, Fits rule starts ended f) (hh : Fits rule starts between h) :
    Fits rule starts between (Generate.forLoop start? test? update? h) := by
  have hpart : ∀ {f? : Option Fragment}, (∀ f ∈ f?, Fits rule starts ended f) →
      Fits rule [.closed] ended (orEmpty f?) :=
    fun hf => fits_orEmpty (fun f hmem => (hf f hmem).mono (by decide) (by decide)) (by decide)
  have hstart : ∀ f ∈ start?.map loopStart, Fits rule starts ended f := by
    intro f hf
    obtain ⟨g, hg, rfl⟩ := Option.map_eq_some_iff.mp hf
    exact fits_loopStart (hstart g hg)
  refine fits_headed (by decide) (by decide) ?_ hh
  exact (hpart hstart).andThen (.semicolon (by decide) ((hpart htest).cons (by decide)
    (.semicolon (by decide) ((hpart hupdate).cons (by decide) (fits_nil (by decide))))))

theorem fits_ifStatement {alternate? : Option Fragment} (hf : Fits rule starts ended f)
    (hg : Fits rule starts between g) (halternate : ∀ a ∈ alternate?, Fits rule starts between a) :
    Fits rule starts between (Generate.ifStatement f g alternate?) := by
  have hhead : Fits rule [.word] [.closed] (.paren f) :=
    hf.paren (by decide) (by decide) (by decide)
  unfold Generate.ifStatement
  cases alternate? with
  | none =>
    refine Fits.withMarks ?_ _
    exact .token (by decide) (hhead.cons (by decide) (hg.cons (by decide) (fits_nil (by decide))))
  | some a =>
    have hblock : Fits rule starts between
        (if g.marks.endsWithMissingElse then Generate.block [g] else g) := by
      split
      · exact (fits_block fun f hf => List.mem_singleton.mp hf ▸ hg).widen (by decide)
      · exact hg
    refine Fits.withMarks ?_ _
    exact .token (by decide) (hhead.cons (by decide) (hblock.cons (by decide)
      (.token (by decide) ((halternate a rfl).cons (by decide) (fits_nil (by decide))))))

theorem fits_labeled {label : String} (hlabel : rule.AdmitsName (spell label))
    (hf : Fits rule starts between f) :
    Fits rule starts between (Generate.labeled spell label f) := by
  unfold Generate.labeled endingIn
  refine Fits.withMarks ?_ _
  exact (fits_name hlabel (by decide)).andThen
    (.token (by decide) (hf.cons (by decide) (fits_nil (by decide))))

theorem fits_switch (hf : Fits rule starts ended f) (hfs : ∀ f ∈ fs, Fits rule starts between f) :
    Fits rule starts between (switch f fs) := by
  unfold switch
  exact .token (by decide) ((hf.paren (by decide) (by decide) (by decide)).andThen
    ((fits_block hfs).cons (by decide) (fits_nil (by decide))))

theorem fits_switchCase (hf : Fits rule starts ended f)
    (hfs : ∀ f ∈ fs, Fits rule starts between f) :
    Fits rule starts between (Generate.switchCase f fs) := by
  unfold Generate.switchCase
  exact .token (by decide) (hf.cons (by decide) (.token (by decide)
    (((fits_lines hfs (by decide) (by decide)).indent (by decide)).cons (by decide)
      (fits_nil (by decide)))))

theorem fits_switchDefault (hfs : ∀ f ∈ fs, Fits rule starts between f) :
    Fits rule starts between (Generate.switchDefault fs) := by
  unfold Generate.switchDefault
  exact .token (by decide) (.token (by decide)
    (((fits_lines hfs (by decide) (by decide)).indent (by decide)).cons (by decide)
      (fits_nil (by decide))))

theorem fits_tryCatch (hf : Fits rule starts [.brace] f) (hg : Fits rule starts [.brace] g) :
    Fits rule starts between (Generate.tryCatch f g) := by
  unfold Generate.tryCatch
  exact .token (by decide) (hf.cons (by decide) (hg.cons (by decide) (fits_nil (by decide))))

theorem fits_tryFinally {clause? : Option Fragment} (hf : Fits rule starts [.brace] f)
    (hclause : ∀ c ∈ clause?, Fits rule starts [.brace] c) (hg : Fits rule starts [.brace] g) :
    Fits rule starts between (Generate.tryFinally f clause? g) := by
  have hclause : Fits rule [.brace] [.brace] (orEmpty clause?) :=
    fits_orEmpty (fun c hc => (hclause c hc).mono (by decide) (by decide)) (by decide)
  unfold Generate.tryFinally
  exact .token (by decide) (hf.cons (by decide) (hclause.cons (by decide)
    (.token (by decide) (hg.cons (by decide) (fits_nil (by decide))))))

theorem fits_catchClause (hf : Fits rule starts targetEnds f) (hg : Fits rule starts [.brace] g) :
    Fits rule starts [.brace] (Generate.catchClause f g) := by
  unfold Generate.catchClause
  exact .token (by decide) ((hf.paren (by decide) (by decide) (by decide)).andThen
    (hg.cons (by decide) (fits_nil (by decide))))

/-! ### Declarations -/

theorem fits_declaration (kind : DeclarationKind) (hfs : ∀ f ∈ fs, Fits rule starts ended f) :
    Fits rule starts ended (Generate.declaration kind fs) := by
  have hkind : passes starts (.token kind.text) ∧ edgeOf (.token kind.text) = .word := by
    cases kind <;> decide
  have hall : ∀ f ∈ fs, Fits rule [.word, .closed] ended f :=
    fun f hf => (hfs f hf).mono (by decide) (by decide)
  unfold Generate.declaration
  have hlist := fits_separated hall (by decide) (by decide)
  refine .token hkind.1 (hlist.cons ?_ (fits_nil (by decide)))
  rw [hkind.2]
  decide

theorem fits_declaredValue (hf : Fits rule starts ended f) :
    Fits rule starts ended (declaredValue f) := by
  unfold declaredValue
  split
  · exact hf.grouped
  · exact hf.guarded

theorem fits_declarator {value? : Option Fragment} (hf : Fits rule starts targetEnds f)
    (hvalue : ∀ g ∈ value?, Fits rule starts ended g) :
    Fits rule starts ended (Generate.declarator f value?) := by
  have hvalue : ∀ g ∈ value?.map declaredValue, Fits rule starts ended g := by
    intro g hg
    obtain ⟨v, hv, rfl⟩ := Option.map_eq_some_iff.mp hg
    exact fits_declaredValue (hvalue v hv)
  exact hf.declarator (by decide) hvalue (by decide) (by decide)

/-! ### Imports and exports -/

theorem fits_importBindings [rule.Quotes spell]
    (hfs : ∀ f ∈ fs, Fits rule [.word, .closed] targetEnds f)
    (specifier : String) : Fits rule starts between (importBindings spell fs specifier) := by
  unfold importBindings
  exact .token (by decide) ((fits_separated hfs (by decide) (by decide)).cons (by decide)
    (.token (by decide) (fits_source specifier)))

theorem fits_importNamed [rule.Quotes spell] {default? : Option Fragment}
    (hdefault : ∀ f ∈ default?, Fits rule starts [.word] f)
    (hfs : ∀ f ∈ fs, Fits rule starts [.word] f)
    (specifier : String) :
    Fits rule starts between (Generate.importNamed spell default? fs specifier) := by
  unfold Generate.importNamed
  split
  · exact .token (by decide) (fits_source specifier)
  · refine fits_importBindings (fun f hf => ?_) specifier
    rcases List.mem_append.mp hf with hf | hf
    · exact (hdefault f (Option.mem_toList.mp hf)).mono (by decide) (by decide)
    · split at hf
      · cases hf
      · obtain rfl := List.mem_singleton.mp hf
        have hall : ∀ f ∈ fs, Fits rule [.closed] ended f :=
          fun f hf => (hfs f hf).mono (by decide) (by decide)
        exact (fits_properties hall).mono (by decide) (by decide)

theorem fits_importNamespace [rule.Quotes spell] {default? : Option Fragment}
    (hdefault : ∀ f ∈ default?, Fits rule starts [.word] f) (hf : Fits rule starts [.word] f)
    (specifier : String) :
    Fits rule starts between (Generate.importNamespace spell default? f specifier) := by
  have hstar : Fits rule [.word, .closed] targetEnds (.sequence [.token "*", .token "as", f]) :=
    .token (by decide) (.token (by decide) (hf.cons (by decide) (fits_nil (by decide))))
  refine fits_importBindings (fun g hg => ?_) specifier
  rcases List.mem_append.mp hg with hg | hg
  · exact (hdefault g (Option.mem_toList.mp hg)).mono (by decide) (by decide)
  · exact List.mem_singleton.mp hg ▸ hstar

theorem fits_importSpecifier {name? : Option String}
    (hname : ∀ name ∈ name?, rule.AdmitsName (spell name)) (hf : Fits rule starts [.word] f) :
    Fits rule starts [.word] (Generate.importSpecifier spell name? f) := by
  unfold Generate.importSpecifier
  cases name? with
  | none => exact hf
  | some name =>
    exact (fits_name (hname name rfl) (by decide)).andThen
      (.token (by decide) (hf.cons (by decide) (fits_nil (by decide))))

theorem fits_exportAll [rule.Quotes spell] (specifier : String) :
    Fits rule starts between (Generate.exportAll spell specifier) := by
  unfold Generate.exportAll
  exact .token (by decide) (.token (by decide) (.token (by decide) (fits_source specifier)))

/-- Exported names in braces. -/
theorem fits_exportedNames (hfs : ∀ f ∈ fs, Fits rule starts [.word] f) :
    Fits rule starts [.brace] (properties fs) :=
  fits_properties fun f hf => (hfs f hf).mono (by decide) (by decide)

theorem fits_exportFrom [rule.Quotes spell] (hfs : ∀ f ∈ fs, Fits rule starts [.word] f)
    (specifier : String) :
    Fits rule starts between (Generate.exportFrom spell fs specifier) := by
  unfold Generate.exportFrom
  exact .token (by decide) ((fits_exportedNames hfs).cons (by decide)
    (.token (by decide) (fits_source specifier)))

theorem fits_exportLocals (hfs : ∀ f ∈ fs, Fits rule starts [.word] f) :
    Fits rule starts between (Generate.exportLocals fs) := by
  unfold Generate.exportLocals
  exact .token (by decide) ((fits_exportedNames hfs).cons (by decide)
    (fits_end (by decide) (by decide)))

theorem fits_defaultExpression (he : Fits rule starts ended e.code) :
    Fits rule [.word] between (.sequence (defaultExpression e)) := by
  have hgroup : Fits rule starts ended
      (if e.single.marks.startsWithFunctionOrClass then .paren e.single else e.single) := by
    split
    · exact he.single.grouped
    · exact he.single
  exact hgroup.cons (by decide) (fits_end (by decide) (by decide))

end EcmaPrinter.Lexical
