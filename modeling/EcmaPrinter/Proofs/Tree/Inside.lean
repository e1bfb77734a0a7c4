import EcmaPrinter.Generate.Code
import EcmaPrinter.Proofs.Fragment.Parts
import EcmaPrinter.Proofs.Tree.Nodes

/-!
The code of a tree has the code of every tree inside of it.

Each function that makes code from the code of parts keeps those as parts of its fragment.  So, from
the top down, a program writes every one of its nodes (`Tree.writes_nodes`), and the pieces of a
node are among the pieces of the program.
-/

namespace EcmaPrinter

open EcmaPrinter.Generate
open Fragment

/-! ### Operands, lists and defaults -/

section

variable {e e' e'' : Operand} {f g : Fragment} {fs gs : List Fragment}

@[simp] theorem within_holds (p : Precedence) : (e.within p).Holds e.code := by
  simp [Operand.within]

@[simp] theorem single_holds : e.single.Holds e.code := within_holds _

theorem paren_if_holds (b : Bool) (h : f.Holds g) : (if b then paren f else f).Holds g := by
  simp [h]

theorem orEmpty_holds {f? : Option Fragment} (h : f ∈ f?) : (orEmpty f?).Holds f := by
  obtain rfl := h
  exact .refl f

theorem lines_holds (h : f ∈ fs) : (lines fs).Holds f :=
  sequence_holds.mpr (.inr ⟨line f, List.mem_map_of_mem h, by simp⟩)

theorem block_holds (h : f ∈ fs) : (Generate.block fs).Holds f := by
  simp [Generate.block, lines_holds h]

theorem properties_holds (h : f ∈ fs) : (properties fs).Holds f := by
  simp only [properties, brace_holds, separated_holds]
  exact .inr (.inr ⟨f, h, .refl f⟩)

theorem rest_holds : (rest f).Holds f := by
  simp [rest]

theorem arrayElements_holds {elements : List (Option Fragment)} {f? : Option Fragment}
    (h : f? ∈ elements) (hf : f ∈ f?) (rest? : Option Fragment) :
    (arrayElements elements rest?).Holds f := by
  simp only [arrayElements, bracket_holds, separated_holds]
  exact .inr (.inr ⟨orEmpty f?, List.mem_append_left _ (List.mem_map_of_mem h), orEmpty_holds hf⟩)

theorem arrayElements_holds_rest (elements : List (Option Fragment)) {rest? : Option Fragment}
    (h : f ∈ rest?) : (arrayElements elements rest?).Holds f := by
  obtain rfl := h
  simp only [arrayElements, bracket_holds, separated_holds]
  exact .inr (.inr ⟨rest f, List.mem_append_right _ (List.mem_singleton_self _), rest_holds⟩)

theorem directives_hold (h : f ∈ fs) : (prologue fs gs).Holds f := by
  cases gs with
  | nil => exact lines_holds h
  | cons g gs => exact lines_holds (List.mem_append_left _ h)

/-- The first statement of a prologue is written in a safe form, the others as they are. -/
theorem prologue_writes (h : f ∈ gs) : (prologue fs gs).Writes f := by
  cases gs with
  | nil => cases h
  | cons g gs =>
    rcases List.mem_cons.mp h with rfl | h
    · exact .inr (lines_holds (List.mem_append_right _ List.mem_cons_self))
    · exact .inl (lines_holds (List.mem_append_right _ (List.mem_cons_of_mem _ h)))

theorem withDefault_holds : (withDefault f e).Holds f ∧ (withDefault f e).Holds e.code :=
  ⟨declarator_holds_left _, declarator_holds_right _ single_holds⟩

theorem withDefault?_holds {e? : Option Operand} :
    (withDefault? f e?).Holds f ∧ ∀ e ∈ e?, (withDefault? f e?).Holds e.code := by
  cases e? with
  | none => simp [withDefault?]
  | some e =>
    refine ⟨withDefault_holds.1, ?_⟩
    rintro _ ⟨⟩
    exact withDefault_holds.2

theorem renamed_holds : (renamed f g).Holds f ∧ (renamed f g).Holds g := by
  simp [renamed]

theorem asName_holds (spell : String → String) (other? : Option String) :
    (asName spell f other?).Holds f := by
  cases other? <;> simp [asName]

/-! ### Modules -/

theorem importNamed_holds (spell : String → String) {d? : Option Fragment} (specifier : String) :
    (∀ d ∈ d?, (Generate.importNamed spell d? fs specifier).Holds d) ∧
      ∀ f ∈ fs, (Generate.importNamed spell d? fs specifier).Holds f := by
  unfold Generate.importNamed
  split
  · next h =>
    simp only [Bool.and_eq_true, Option.isNone_iff_eq_none, List.isEmpty_iff] at h
    obtain ⟨rfl, rfl⟩ := h
    simp
  · refine ⟨?_, fun f hf => ?_⟩
    · rintro d ⟨⟩
      simp [importBindings]
    · have hnames : fs.isEmpty = false := by cases fs <;> simp_all
      simp [importBindings, hnames, properties_holds hf, or_and_right, exists_or]

theorem importNamespace_holds (spell : String → String) {d? : Option Fragment}
    (specifier : String) :
    (∀ d ∈ d?, (Generate.importNamespace spell d? f specifier).Holds d) ∧
      (Generate.importNamespace spell d? f specifier).Holds f := by
  refine ⟨?_, ?_⟩
  · rintro d ⟨⟩
    simp [Generate.importNamespace, importBindings]
  · simp [Generate.importNamespace, importBindings, or_and_right, exists_or]

theorem importSpecifier_holds (spell : String → String) (name? : Option String) :
    (Generate.importSpecifier spell name? f).Holds f := by
  cases name? <;> simp [Generate.importSpecifier]

theorem exportFrom_holds (spell : String → String) (specifier : String) (h : f ∈ fs) :
    (Generate.exportFrom spell fs specifier).Holds f := by
  simp [Generate.exportFrom, properties_holds h]

theorem exportLocals_holds (h : f ∈ fs) : (Generate.exportLocals fs).Holds f := by
  simp [Generate.exportLocals, properties_holds h]

theorem exportDeclared_holds (h : f ∈ fs) : (Generate.exportDeclared fs).Holds f :=
  sequence_holds.mpr (.inr ⟨f, List.mem_cons_of_mem _ h, .refl f⟩)

theorem exportDefault_holds (h : f ∈ fs) : (Generate.exportDefault fs).Holds f :=
  sequence_holds.mpr (.inr ⟨f, List.mem_cons_of_mem _ (List.mem_cons_of_mem _ h), .refl f⟩)

/-! ### Functions and classes -/

theorem parameters_hold {r? : Option Fragment} :
    (∀ f ∈ fs, (Generate.parameters fs r?).Holds f) ∧
      ∀ r ∈ r?, (Generate.parameters fs r?).Holds r := by
  refine ⟨fun f hf => ?_, ?_⟩
  · exact separated_holds.mpr (.inr ⟨f, List.mem_append_left _ hf, .refl f⟩)
  · rintro r ⟨⟩
    exact separated_holds.mpr (.inr ⟨rest r, List.mem_append_right _ (List.mem_singleton_self _),
      rest_holds⟩)

theorem function_holds (isAsync isGenerator : Bool) {name? : Option Fragment} :
    (∀ n ∈ name?, (Generate.function isAsync isGenerator name? f g).Holds n) ∧
      (Generate.function isAsync isGenerator name? f g).Holds f ∧
      (Generate.function isAsync isGenerator name? f g).Holds g := by
  refine ⟨?_, ?_, ?_⟩
  · rintro n ⟨⟩
    simp [Generate.function]
  · simp [Generate.function, or_and_right, exists_or]
  · simp [Generate.function, or_and_right, exists_or]

theorem classCode_holds {name? : Option Fragment} {parent? : Option Operand} :
    (∀ n ∈ name?, (classCode name? parent? fs).Holds n) ∧
      (∀ p ∈ parent?, (classCode name? parent? fs).Holds p.code) ∧
      ∀ f ∈ fs, (classCode name? parent? fs).Holds f := by
  refine ⟨?_, ?_, fun f hf => ?_⟩
  · rintro n ⟨⟩
    simp [classCode]
  · rintro p ⟨⟩
    simp [classCode, or_and_right, exists_or]
  · simp [classCode, or_and_right, exists_or, block_holds hf]

theorem classElement_holds (isStatic : Bool) : (Generate.classElement isStatic f).Holds f := by
  cases isStatic <;> simp [Generate.classElement]

theorem method_holds (isAsync isGenerator : Bool) {b : Fragment} :
    (Generate.method isAsync isGenerator f g b).Holds f ∧
      (Generate.method isAsync isGenerator f g b).Holds g ∧
      (Generate.method isAsync isGenerator f g b).Holds b := by
  simp [Generate.method]

theorem getter_holds : (Generate.getter f g).Holds f ∧ (Generate.getter f g).Holds g := by
  simp [Generate.getter]

theorem setter_holds {b : Fragment} :
    (Generate.setter f g b).Holds f ∧ (Generate.setter f g b).Holds g ∧
      (Generate.setter f g b).Holds b := by
  simp [Generate.setter]

theorem expressionBody_holds : (expressionBody e).Holds e.code := by
  simp [expressionBody]

theorem arrow_holds (isAsync isSingleName : Bool) :
    (Generate.arrow isAsync isSingleName f g).Holds f ∧
      (Generate.arrow isAsync isSingleName f g).Holds g := by
  simp [Generate.arrow]

/-! ### Expressions -/

theorem staticMember_holds (spell : String → String) (property : String) :
    (Generate.staticMember spell e property).Holds e.code := by
  simp [Generate.staticMember, memberObject]

theorem computedMember_holds (isLet : Bool) :
    (Generate.computedMember isLet e f).Holds e.code ∧
      (Generate.computedMember isLet e f).Holds f := by
  simp [Generate.computedMember, memberObject]

theorem arguments_hold (h : f ∈ fs) : (arguments fs).Holds f := by
  simp only [arguments, paren_holds, separated_holds]
  exact .inr (.inr ⟨f, h, .refl f⟩)

theorem call_holds :
    (Generate.call e fs).Holds e.code ∧ ∀ f ∈ fs, (Generate.call e fs).Holds f := by
  refine ⟨by simp [Generate.call], fun f hf => ?_⟩
  simp [Generate.call, arguments_hold hf]

theorem construct_holds :
    (Generate.construct e fs).Holds e.code ∧ ∀ f ∈ fs, (Generate.construct e fs).Holds f := by
  refine ⟨by simp [Generate.construct, constructCallee], fun f hf => ?_⟩
  have harguments : fs.isEmpty = false := by cases fs <;> simp_all
  simp [Generate.construct, harguments, arguments_hold hf]

theorem template_holds_tag (spell : String → String) (parts : List Chunk) {tag? : Option Operand}
    (h : e ∈ tag?) : (Generate.template spell tag? parts).Holds e.code := by
  obtain rfl := h
  simp [Generate.template, memberObject]

theorem template_holds (spell : String → String) {parts : List Chunk} (tag? : Option Operand)
    (h : .hole f ∈ parts) : (Generate.template spell tag? parts).Holds f := by
  have hmem : ∀ tagged, f ∈ token "\x60" ::
      (parts.flatMap (·.code spell tagged) ++ [token "\x60"]) := fun tagged =>
    List.mem_cons_of_mem _ (List.mem_append_left _
      (List.mem_flatMap.mpr ⟨.hole f, h, by simp [Chunk.code]⟩))
  cases tag? with
  | none => exact sequence_holds.mpr (.inr ⟨f, hmem _, .refl f⟩)
  | some tag =>
    refine (withMarks_holds _).mpr (sequence_holds.mpr (.inr ⟨f, ?_, .refl f⟩))
    exact List.mem_cons_of_mem _ (hmem _)

theorem unary_holds (op : String) : (Generate.unary op e).Holds e.code := by
  simp [Generate.unary]

theorem update_holds (before : Bool) (op : UpdateOperator) :
    (Generate.update before op f).Holds f := by
  cases before <;> simp [Generate.update]

theorem binary_holds (isPrefixed : Bool) (op : BinaryOperator) :
    (Generate.binary isPrefixed e op e').Holds e.code ∧
      (Generate.binary isPrefixed e op e').Holds e'.code := by
  simp [Generate.binary, leftOperand, rightOperand]

theorem conditional_holds :
    (Generate.conditional e e' e'').Holds e.code ∧ (Generate.conditional e e' e'').Holds e'.code ∧
      (Generate.conditional e e' e'').Holds e''.code := by
  simp [Generate.conditional]

theorem assignment_holds (op : String) :
    (assignment f op e).Holds f ∧ (assignment f op e).Holds e.code := by
  simp [assignment]

theorem yieldCode_holds {e? : Option Operand} (h : e ∈ e?) : (yieldCode e?).Holds e.code := by
  obtain rfl := h
  simp [yieldCode]

theorem yieldFrom_holds : (Generate.yieldFrom e).Holds e.code := by
  simp [Generate.yieldFrom]

/-! ### Statements -/

theorem keywordStatement_holds (keyword : String) : (keywordStatement keyword f).Holds f := by
  simp [keywordStatement]

theorem expressionStatement_holds (isString : Bool) :
    (Generate.expressionStatement isString f).Holds f := by
  cases isString <;> simp [Generate.expressionStatement]

theorem headed_holds (keyword : String) :
    (headed keyword f g).Holds f ∧ (headed keyword f g).Holds g := by
  simp [headed, endingIn]

theorem doWhile_holds : (Generate.doWhile f g).Holds f ∧ (Generate.doWhile f g).Holds g := by
  simp [Generate.doWhile]

theorem loopTarget_holds : (loopTarget f).Holds f := by
  simp [loopTarget]

theorem forIn_holds (isDeclaration : Bool) {b : Fragment} :
    (Generate.forIn isDeclaration f g b).Holds f ∧ (Generate.forIn isDeclaration f g b).Holds g ∧
      (Generate.forIn isDeclaration f g b).Holds b := by
  cases isDeclaration <;>
    simp [Generate.forIn, headed, endingIn, loopTarget_holds, guardIn_holds]

theorem forOf_holds (isDeclaration : Bool) {b : Fragment} :
    (Generate.forOf isDeclaration f e b).Holds f ∧
      (Generate.forOf isDeclaration f e b).Holds e.code ∧
      (Generate.forOf isDeclaration f e b).Holds b := by
  cases isDeclaration <;> simp [Generate.forOf, headed, endingIn, loopTarget_holds]

theorem loopStart_holds : (loopStart f).Holds f := by
  refine noIn_holds.mpr (.inr (guardIn_holds ?_))
  simp

theorem forLoop_holds {start? test? update? : Option Fragment} :
    (∀ f ∈ start?, (Generate.forLoop start? test? update? g).Holds f) ∧
      (∀ f ∈ test?, (Generate.forLoop start? test? update? g).Holds f) ∧
      (∀ f ∈ update?, (Generate.forLoop start? test? update? g).Holds f) ∧
      (Generate.forLoop start? test? update? g).Holds g := by
  refine ⟨?_, ?_, ?_, by simp [Generate.forLoop, headed, endingIn]⟩ <;> rintro f ⟨⟩ <;>
    simp [Generate.forLoop, headed, endingIn, orEmpty, loopStart_holds]

theorem ifStatement_holds {alternate? : Option Fragment} :
    (Generate.ifStatement f g alternate?).Holds f ∧
      (Generate.ifStatement f g alternate?).Holds g ∧
      ∀ a ∈ alternate?, (Generate.ifStatement f g alternate?).Holds a := by
  cases alternate? with
  | none => simp [Generate.ifStatement]
  | some a =>
    have hblock : (Generate.block [g]).Holds g := block_holds (List.mem_singleton_self g)
    refine ⟨by simp [Generate.ifStatement, endingIn], ?_, ?_⟩
    · simp [Generate.ifStatement, endingIn, hblock]
    · rintro _ ⟨⟩
      simp [Generate.ifStatement, endingIn]

theorem labeled_holds (spell : String → String) (label : String) :
    (Generate.labeled spell label f).Holds f := by
  simp [Generate.labeled, endingIn]

theorem switch_holds : (switch f fs).Holds f ∧ ∀ g ∈ fs, (switch f fs).Holds g := by
  refine ⟨by simp [switch], fun g hg => ?_⟩
  simp [switch, block_holds hg]

theorem switchCase_holds :
    (Generate.switchCase f fs).Holds f ∧ ∀ g ∈ fs, (Generate.switchCase f fs).Holds g := by
  refine ⟨by simp [Generate.switchCase], fun g hg => ?_⟩
  simp [Generate.switchCase, lines_holds hg]

theorem switchDefault_holds (h : f ∈ fs) : (Generate.switchDefault fs).Holds f := by
  simp [Generate.switchDefault, lines_holds h]

theorem tryCatch_holds : (Generate.tryCatch f g).Holds f ∧ (Generate.tryCatch f g).Holds g := by
  simp [Generate.tryCatch]

theorem tryFinally_holds {clause? : Option Fragment} :
    (Generate.tryFinally f clause? g).Holds f ∧
      (∀ c ∈ clause?, (Generate.tryFinally f clause? g).Holds c) ∧
      (Generate.tryFinally f clause? g).Holds g := by
  refine ⟨by simp [Generate.tryFinally], ?_, by simp [Generate.tryFinally]⟩
  rintro c ⟨⟩
  simp [Generate.tryFinally, orEmpty]

theorem catchClause_holds :
    (Generate.catchClause f g).Holds f ∧ (Generate.catchClause f g).Holds g := by
  simp [Generate.catchClause]

theorem declaration_holds (kind : DeclarationKind) (h : f ∈ fs) :
    (Generate.declaration kind fs).Holds f := by
  simp only [Generate.declaration, sequence_holds]
  exact .inr ⟨separated fs, by simp, separated_holds.mpr (.inr ⟨f, h, .refl f⟩)⟩

theorem declarator_holds {value? : Option Fragment} :
    (Generate.declarator f value?).Holds f ∧
      ∀ v ∈ value?, (Generate.declarator f value?).Holds v := by
  refine ⟨declarator_holds_left _, ?_⟩
  rintro v ⟨⟩
  refine declarator_holds_right _ ?_
  unfold declaredValue
  split
  · simp
  · exact guardIn_holds (.refl v)

theorem dataProperty_holds :
    (Generate.dataProperty f e).Holds f ∧ (Generate.dataProperty f e).Holds e.code := by
  simp [Generate.dataProperty]

end

/-! ### From the top down -/

/-- Every fragment of the code of a tree has the property. -/
def Code.All (P : Fragment → Prop) : (c : Category) → Code c → Prop
  | .list c, codes => ∀ code ∈ codes, Code.All P c code
  | .option c, code? => ∀ code ∈ code?, Code.All P c code
  | .expression, e | .callee, e => P e.code
  | .templatePart, part => ∀ f, part = .hole f → P f
  | .exportable, fs | .defaultExport, fs => ∀ f ∈ fs, P f
  | .program, f | .directive, f | .moduleItem, f | .importDeclaration, f | .importSpecifier, f
  | .exportDeclaration, f | .exportFromSpecifier, f | .exportLocalSpecifier, f | .function, f
  | .parameters, f | .parameter, f | .functionBody, f | .classDeclaration, f | .classElement, f
  | .method, f | .propertyName, f | .objectProperty, f | .binding, f | .bindingName, f
  | .bindingProperty, f | .target, f | .simpleTarget, f | .targetName, f | .targetElement, f
  | .targetProperty, f | .statement, f | .block, f | .switchCase, f | .switchDefault, f
  | .catchClause, f | .declaration, f | .declarator, f | .loopTarget, f | .loopStart, f
  | .identifier, f | .argument, f | .arrowBody, f => P f

/-- Code that writes a tree. -/
def Fragment.WritesTree (F : Fragment) (spell : String → String) {c : Category} (t : Tree c) :
    Prop :=
  Code.All F.Writes c (t.code spell)

section

variable {F : Fragment} {spell : String → String}

/-- The name of a declaration is written, unless it stands for a missing one. -/
theorem forall_mem_declaredName {P : Node → Prop} {n : Tree .bindingName} {code : Fragment}
    (hcode : ∀ f ∈ Tree.declaredName n code, F.Writes f)
    (h : F.Writes code → ∀ m ∈ n.nodes, P m) :
    ∀ m ∈ (if n.isDefaultName then [] else n.nodes), P m := by
  unfold Tree.declaredName at hcode
  split
  · exact List.forall_mem_nil _
  · next hname =>
    refine h (hcode code ?_)
    rw [if_neg hname]
    rfl

/-- Code that writes a tree writes every tree inside of it. -/
theorem Tree.writes_nodes {c : Category} (t : Tree c) (h : F.WritesTree spell t) :
    ∀ n ∈ t.nodes, F.WritesTree spell n.2 := by
  induction t with
  | nil | absent | directive | exportAll | exportFromSpecifier | staticName | bindingName
  | targetName | breakStatement | continueStatement | debuggerStatement | emptyStatement | boolean
  | infinity | null | number | regExp | string | this | newTarget | identifier | super
  | templateText => exact List.forall_mem_singleton.mpr h
  | cons t ts iht ihts =>
    obtain ⟨ht, hts⟩ := List.forall_mem_cons.mp h
    exact forall_mem_two h (iht ht) (ihts hts)
  | present t ih => exact forall_mem_one h (ih (h _ rfl))
  -- trees that stand for another
  | ofImport t ih | ofExport t ih | ofStatement t ih | ofBinding t ih | ofMethod t ih
  | ofBindingName t ih | ofSimpleTarget t ih | ofTargetName t ih | ofTarget t ih
  | blockStatement t ih | ofFunction t ih | ofClass t ih | ofLoopTarget t ih
  | ofLoopDeclaration t ih | ofStartExpression t ih | ofStartDeclaration t ih | ofIdentifier t ih
  | ofCallee t ih => exact forall_mem_one h (ih h)
  | ofExportedFunction t ih | ofExportedClass t ih | ofDefaultFunction t ih
  | ofDefaultClass t ih => exact forall_mem_one h (ih (h _ List.mem_cons_self))
  | ofExportedVariables t ih => exact forall_mem_one h (ih (h _ List.mem_cons_self))
  | ofDefaultExpression e ih =>
    refine forall_mem_one h (ih ?_)
    exact Writes.trans_holds (h _ List.mem_cons_self) (paren_if_holds _ single_holds)
  | ofSubstitution e ih => exact forall_mem_one h (ih (h _ rfl))
  | ofArgument e ih => exact forall_mem_one h (ih (Writes.trans_holds h single_holds))
  | spread e ih =>
    exact forall_mem_one h
      (ih ((Writes.trans_holds h rest_holds).trans_holds single_holds))
  | ofExpressionBody e ih => exact forall_mem_one h (ih (Writes.trans_holds h expressionBody_holds))
  | ofFunctionBody b ih =>
    exact forall_mem_one h (ih (Writes.trans_holds h (brace_holds.mpr (.inr (.refl _)))))
  | shorthandProperty n ih =>
    exact forall_mem_one h (ih (Writes.trans_holds h ((withMarks_holds _).mpr (.refl _))))
  -- programs and modules
  | script ds ss ihd ihs | moduleBody ds ss ihd ihs =>
    exact forall_mem_two h (ihd fun f hf => Writes.trans_holds h (directives_hold hf))
      (ihs fun f hf => Writes.trans h (prologue_writes hf))
  | importNamed d ns specifier ihd ihn =>
    obtain ⟨hd, hn⟩ := importNamed_holds spell specifier
    exact forall_mem_two h (ihd fun f hf => Writes.trans_holds h (hd f hf))
      (ihn fun f hf => Writes.trans_holds h (hn f hf))
  | importNamespace d n specifier ihd ihn =>
    obtain ⟨hd, hn⟩ := importNamespace_holds spell specifier
    exact forall_mem_two h (ihd fun f hf => Writes.trans_holds h (hd f hf))
      (ihn (Writes.trans_holds h hn))
  | importSpecifier name? b ih =>
    exact forall_mem_one h (ih (Writes.trans_holds h (importSpecifier_holds spell name?)))
  | exportFrom ns specifier ih =>
    exact forall_mem_one h (ih fun f hf =>
      Writes.trans_holds h (exportFrom_holds spell specifier hf))
  | exportLocals ns ih =>
    exact forall_mem_one h (ih fun f hf => Writes.trans_holds h (exportLocals_holds hf))
  | exportLocalSpecifier name exported? ih =>
    exact forall_mem_one h (ih (Writes.trans_holds h (asName_holds spell exported?)))
  | exportDeclared d ih =>
    exact forall_mem_one h (ih fun f hf => Writes.trans_holds h (exportDeclared_holds hf))
  | exportDefault b ih =>
    exact forall_mem_one h (ih fun f hf => Writes.trans_holds h (exportDefault_holds hf))
  -- functions and classes
  | function isAsync isGenerator n ps b ihn ihps ihb =>
    obtain ⟨hn, hps, hb⟩ := function_holds isAsync isGenerator
    exact forall_mem_three h
      (forall_mem_declaredName (fun f hf => Writes.trans_holds h (hn f hf)) ihn)
      (ihps (Writes.trans_holds h hps)) (ihb (Writes.trans_holds h hb))
  | functionExpression isAsync isGenerator n ps b ihn ihps ihb =>
    obtain ⟨hn, hps, hb⟩ := function_holds isAsync isGenerator
    exact forall_mem_three h
      (ihn fun f hf => Writes.trans_holds h ((withMarks_holds _).mpr (hn f hf)))
      (ihps (Writes.trans_holds h ((withMarks_holds _).mpr hps)))
      (ihb (Writes.trans_holds h ((withMarks_holds _).mpr hb)))
  | classDeclaration n p es ihn ihp ihes =>
    obtain ⟨hn, hp, hes⟩ := classCode_holds
    exact forall_mem_three h
      (forall_mem_declaredName (fun f hf => Writes.trans_holds h (hn f hf)) ihn)
      (ihp fun e he => Writes.trans_holds h (hp e he))
      (ihes fun f hf => Writes.trans_holds h (hes f hf))
  | classExpression n p es ihn ihp ihes =>
    obtain ⟨hn, hp, hes⟩ := classCode_holds
    exact forall_mem_three h
      (ihn fun f hf => Writes.trans_holds h ((withMarks_holds _).mpr (hn f hf)))
      (ihp fun e he => Writes.trans_holds h ((withMarks_holds _).mpr (hp e he)))
      (ihes fun f hf => Writes.trans_holds h ((withMarks_holds _).mpr (hes f hf)))
  | parameters is r ihi ihr =>
    obtain ⟨hi, hr⟩ := parameters_hold
    exact forall_mem_two h (ihi fun f hf => Writes.trans_holds h (hi f hf))
      (ihr fun f hf => Writes.trans_holds h (hr f hf))
  | functionBody ds ss ihd ihs =>
    have hbody := Writes.trans_holds h (indent_holds.mpr (.inr (.refl _)))
    exact forall_mem_two h (ihd fun f hf => hbody.trans_holds (directives_hold hf))
      (ihs fun f hf => hbody.trans (prologue_writes hf))
  | classElement isStatic m ih =>
    exact forall_mem_one h (ih (Writes.trans_holds h (classElement_holds isStatic)))
  | method isAsync isGenerator n ps b ihn ihps ihb =>
    obtain ⟨hn, hps, hb⟩ := method_holds isAsync isGenerator
    exact forall_mem_three h (ihn (Writes.trans_holds h hn)) (ihps (Writes.trans_holds h hps))
      (ihb (Writes.trans_holds h hb))
  | getter n b ihn ihb =>
    obtain ⟨hn, hb⟩ := getter_holds
    exact forall_mem_two h (ihn (Writes.trans_holds h hn)) (ihb (Writes.trans_holds h hb))
  | setter n p b ihn ihp ihb =>
    obtain ⟨hn, hp, hb⟩ := setter_holds
    exact forall_mem_three h (ihn (Writes.trans_holds h hn)) (ihp (Writes.trans_holds h hp))
      (ihb (Writes.trans_holds h hb))
  -- properties, bindings and targets
  | computedName e ih =>
    exact forall_mem_one h
      (ih (Writes.trans_holds h (bracket_holds.mpr (.inr single_holds))))
  | dataProperty n v ihn ihv =>
    obtain ⟨hn, hv⟩ := dataProperty_holds
    exact forall_mem_two h (ihn (Writes.trans_holds h hn)) (ihv (Writes.trans_holds h hv))
  | bindingWithDefault b v ihb ihv | targetWithDefault b v ihb ihv =>
    obtain ⟨hb, hv⟩ := withDefault_holds
    exact forall_mem_two h (ihb (Writes.trans_holds h hb)) (ihv (Writes.trans_holds h hv))
  | bindingShorthand n v ihn ihv | targetShorthand n v ihn ihv =>
    obtain ⟨hn, hv⟩ := withDefault?_holds
    exact forall_mem_two h (ihn (Writes.trans_holds h hn))
      (ihv fun e he => Writes.trans_holds h (hv e he))
  | bindingProperty n b ihn ihb | targetProperty n b ihn ihb =>
    obtain ⟨hn, hb⟩ := renamed_holds
    exact forall_mem_two h (ihn (Writes.trans_holds h hn)) (ihb (Writes.trans_holds h hb))
  | arrayBinding es r ihes ihr | arrayTarget es r ihes ihr =>
    exact forall_mem_two h
      (ihes fun f? hf? f hf => Writes.trans_holds h (arrayElements_holds hf? hf _))
      (ihr fun f hf => Writes.trans_holds h (arrayElements_holds_rest _ hf))
  | array es ih =>
    exact forall_mem_one h
      (ih fun f? hf? f hf => Writes.trans_holds h (arrayElements_holds hf? hf none))
  | objectBinding ps ih =>
    exact forall_mem_one h (ih fun f hf => Writes.trans_holds h (properties_holds hf))
  | objectTarget ps ih | object ps ih =>
    exact forall_mem_one h (ih fun f hf =>
      Writes.trans_holds h ((withMarks_holds _).mpr (properties_holds hf)))
  | staticMemberTarget o property ih | staticMember o property ih =>
    exact forall_mem_one h (ih (Writes.trans_holds h (staticMember_holds spell property)))
  | computedMemberTarget o e iho ihe | computedMember o e iho ihe =>
    obtain ⟨ho, he⟩ := computedMember_holds o.isLet
    exact forall_mem_two h (iho (Writes.trans_holds h ho)) (ihe (Writes.trans_holds h he))
  -- statements
  | doWhile b t ihb iht =>
    obtain ⟨hb, ht⟩ := doWhile_holds
    exact forall_mem_two h (ihb (Writes.trans_holds h hb)) (iht (Writes.trans_holds h ht))
  | expressionStatement e ih =>
    exact forall_mem_one h (ih (Writes.trans_holds h (expressionStatement_holds e.isString)))
  | forIn l o b ihl iho ihb =>
    obtain ⟨hl, ho, hb⟩ := forIn_holds l.isDeclaration
    exact forall_mem_three h (ihl (Writes.trans_holds h hl)) (iho (Writes.trans_holds h ho))
      (ihb (Writes.trans_holds h hb))
  | forOf l is b ihl ihi ihb =>
    obtain ⟨hl, hi, hb⟩ := forOf_holds l.isDeclaration
    exact forall_mem_three h (ihl (Writes.trans_holds h hl)) (ihi (Writes.trans_holds h hi))
      (ihb (Writes.trans_holds h hb))
  | forLoop s t u b ihs iht ihu ihb =>
    obtain ⟨hs, ht, hu, hb⟩ := forLoop_holds
    exact forall_mem_four h (ihs fun f hf => Writes.trans_holds h (hs f hf))
      (iht fun e he => Writes.trans_holds h (ht _ (Option.mem_map_of_mem _ he)))
      (ihu fun e he => Writes.trans_holds h (hu _ (Option.mem_map_of_mem _ he)))
      (ihb (Writes.trans_holds h hb))
  | ifStatement t s a iht ihs iha =>
    obtain ⟨ht, hs, ha⟩ := ifStatement_holds
    exact forall_mem_three h (iht (Writes.trans_holds h ht)) (ihs (Writes.trans_holds h hs))
      (iha fun f hf => Writes.trans_holds h (ha f hf))
  | labeled label b ih =>
    exact forall_mem_one h (ih (Writes.trans_holds h (labeled_holds spell label)))
  | returnStatement e ih =>
    refine forall_mem_one h (ih fun v hv => ?_)
    exact Writes.trans_holds (Writes.trans_holds h (keywordStatement_holds "return"))
      (orEmpty_holds (Option.mem_map_of_mem _ hv))
  | throwStatement e ih =>
    exact forall_mem_one h (ih (Writes.trans_holds h (keywordStatement_holds "throw")))
  | switchStatement d cs ihd ihcs =>
    obtain ⟨hd, hcs⟩ := switch_holds
    exact forall_mem_two h (ihd (Writes.trans_holds h hd))
      (ihcs fun f hf => Writes.trans_holds h (hcs f hf))
  | switchWithDefault d before fallback after ihd ihb ihdef iha =>
    obtain ⟨hd, hcs⟩ := switch_holds
    exact forall_mem_four h (ihd (Writes.trans_holds h hd))
      (ihb fun f hf => Writes.trans_holds h (hcs f (List.mem_append_left _ hf)))
      (ihdef (Writes.trans_holds h (hcs _ (List.mem_append_right _ List.mem_cons_self))))
      (iha fun f hf => Writes.trans_holds h
        (hcs f (List.mem_append_right _ (List.mem_cons_of_mem _ hf))))
  | tryCatch b cl ihb ihcl =>
    obtain ⟨hb, hcl⟩ := tryCatch_holds
    exact forall_mem_two h (ihb (Writes.trans_holds h hb)) (ihcl (Writes.trans_holds h hcl))
  | tryFinally b cl f ihb ihcl ihf =>
    obtain ⟨hb, hcl, hf⟩ := tryFinally_holds
    exact forall_mem_three h (ihb (Writes.trans_holds h hb))
      (ihcl fun g hg => Writes.trans_holds h (hcl g hg)) (ihf (Writes.trans_holds h hf))
  | variableStatement d ih =>
    exact forall_mem_one h
      (ih (Writes.trans_holds h (sequence_holds.mpr (.inr ⟨_, List.mem_cons_self, .refl _⟩))))
  | whileLoop t b iht ihb | withStatement t b iht ihb =>
    obtain ⟨ht, hb⟩ := headed_holds _
    exact forall_mem_two h (iht (Writes.trans_holds h ht)) (ihb (Writes.trans_holds h hb))
  | block ss ih => exact forall_mem_one h (ih fun f hf => Writes.trans_holds h (block_holds hf))
  | switchCase t ss iht ihss =>
    obtain ⟨ht, hss⟩ := switchCase_holds
    exact forall_mem_two h (iht (Writes.trans_holds h ht))
      (ihss fun f hf => Writes.trans_holds h (hss f hf))
  | switchDefault ss ih =>
    exact forall_mem_one h (ih fun f hf => Writes.trans_holds h (switchDefault_holds hf))
  | catchClause b s ihb ihs =>
    obtain ⟨hb, hs⟩ := catchClause_holds
    exact forall_mem_two h (ihb (Writes.trans_holds h hb)) (ihs (Writes.trans_holds h hs))
  | declaration kind ds ih =>
    exact forall_mem_one h (ih fun f hf => Writes.trans_holds h (declaration_holds kind hf))
  | declarator b v ihb ihv =>
    obtain ⟨hb, hv⟩ := declarator_holds
    exact forall_mem_two h (ihb (Writes.trans_holds h hb))
      (ihv fun e he => Writes.trans_holds h (hv _ (Option.mem_map_of_mem _ he)))
  -- expressions
  | template t ps iht ihps =>
    refine forall_mem_two h (iht fun e he => Writes.trans_holds h (template_holds_tag spell _ he))
      (ihps fun part hpart f hf => ?_)
    exact Writes.trans_holds h (template_holds spell _ (hf ▸ hpart))
  | call f as ihf ihas =>
    obtain ⟨hf, has⟩ := call_holds
    exact forall_mem_two h (ihf (Writes.trans_holds h hf))
      (ihas fun a ha => Writes.trans_holds h (has a ha))
  | construct f as ihf ihas =>
    obtain ⟨hf, has⟩ := construct_holds
    exact forall_mem_two h (ihf (Writes.trans_holds h hf))
      (ihas fun a ha => Writes.trans_holds h (has a ha))
  | unary op e ih => exact forall_mem_one h (ih (Writes.trans_holds h (unary_holds op.text)))
  | await e ih => exact forall_mem_one h (ih (Writes.trans_holds h (unary_holds _)))
  | update before op t ih =>
    exact forall_mem_one h (ih (Writes.trans_holds h (update_holds before op)))
  | binary l op r ihl ihr =>
    obtain ⟨hl, hr⟩ := binary_holds l.isPrefixed op
    exact forall_mem_two h (ihl (Writes.trans_holds h hl)) (ihr (Writes.trans_holds h hr))
  | conditional t s a iht ihs iha =>
    obtain ⟨ht, hs, ha⟩ := conditional_holds
    exact forall_mem_three h (iht (Writes.trans_holds h ht)) (ihs (Writes.trans_holds h hs))
      (iha (Writes.trans_holds h ha))
  | assign t v iht ihv =>
    obtain ⟨ht, hv⟩ := assignment_holds "="
    exact forall_mem_two h (iht (Writes.trans_holds h ht)) (ihv (Writes.trans_holds h hv))
  | compoundAssign t op v iht ihv =>
    obtain ⟨ht, hv⟩ := assignment_holds op.text
    exact forall_mem_two h (iht (Writes.trans_holds h ht)) (ihv (Writes.trans_holds h hv))
  | arrow isAsync ps b ihps ihb =>
    obtain ⟨hps, hb⟩ := arrow_holds isAsync ps.isSingleName
    exact forall_mem_two h (ihps (Writes.trans_holds h hps)) (ihb (Writes.trans_holds h hb))
  | yield e ih => exact forall_mem_one h (ih fun v hv => Writes.trans_holds h (yieldCode_holds hv))
  | yieldFrom e ih => exact forall_mem_one h (ih (Writes.trans_holds h yieldFrom_holds))

end

/-- The pieces of a program have the code of each of its nodes among them. -/
theorem Program.writes_nodes (spell : String → String) (p : Program) :
    ∀ n ∈ p.nodes, Fragment.WritesTree (p.code spell) spell n.2 :=
  Tree.writes_nodes p (.inl (.refl _))

end EcmaPrinter
