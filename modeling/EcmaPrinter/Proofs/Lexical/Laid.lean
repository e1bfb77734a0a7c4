import EcmaPrinter.Proofs.Lexical.Emission
import EcmaPrinter.Proofs.Tree.Nodes
import EcmaPrinter.Tree.Visit

/-!
The code of a tree fits in the place of its category.

A rule says which names and literals it lets stand behind which edges.  If it admits everything that
the nodes of a tree write (`Tree.IsAdmitted`), then by induction over the tree its code fits in its
place (`Tree.laid`), so that the events of a program are a path by that rule.
-/

namespace EcmaPrinter

open EcmaPrinter.Generate
open EcmaPrinter.Lexical
open EcmaPrinter.Number
open EcmaPrinter.Text

/-! ### The places of categories -/

/-- The code of a tree fits in the place of its category. -/
def Laid (rule : Rule) : (c : Category) → Code c → Prop
  | .list c, codes => ∀ code ∈ codes, Laid rule c code
  | .option c, code? => ∀ code ∈ code?, Laid rule c code
  | .program, f | .functionBody, f => Fits rule between between f
  | .directive, f | .moduleItem, f | .importDeclaration, f | .exportDeclaration, f
  | .statement, f | .switchCase, f | .switchDefault, f => Fits rule starts between f
  | .exportable, fs | .defaultExport, fs => Fits rule [.word] between (.sequence fs)
  | .importSpecifier, f | .exportFromSpecifier, f | .exportLocalSpecifier, f | .bindingName, f
  | .targetName, f | .identifier, f => Fits rule starts [.word] f
  | .function, f | .classDeclaration, f | .block, f | .catchClause, f => Fits rule starts [.brace] f
  | .classElement, f => Fits rule [.closed, .brace] [.brace] f
  | .method, f => Fits rule methodStarts [.brace] f
  | .propertyName, f => Fits rule starts nameEnds f
  | .binding, f | .target, f | .simpleTarget, f => Fits rule starts targetEnds f
  | .parameters, f | .objectProperty, f | .argument, f => Fits rule [.closed] ended f
  | .parameter, f | .bindingProperty, f | .targetElement, f | .targetProperty, f
  | .declaration, f | .declarator, f | .loopTarget, f | .loopStart, f | .arrowBody, f =>
    Fits rule starts ended f
  | .expression, e | .callee, e => Fits rule starts ended e.code
  | .templatePart, part => LaidPart rule part

/-! ### What a rule admits -/

/-- The rule admits what the tree writes besides the codes of its parts.  The texts of a template
are looked at with the template. -/
def Tree.IsAdmitted (rule : Rule) (spell : String → String) {c : Category} : Tree c → Prop
  | directive raw => rule.AdmitsString (spell (quoteDirective raw))
  | staticName value => isIdentifierName value → rule.AdmitsName (spell value)
  | number value => rule.Admits (.number value)
  | regExp pattern flags => rule.Admits (regExpToken pattern flags)
  | template tag parts =>
    rule.AdmitsParts (fun raw => if tag.isPresent then raw else spell raw) [.tick]
      (parts.code spell)
  | t => ∀ name ∈ t.ownNames, rule.AdmitsName (spell name)

theorem Tree.isSome_code {c : Category} (t : Tree (.option c)) (spell : String → String) :
    (t.code spell).isSome = t.isPresent := by
  cases t <;> rfl

section

variable {rule : Rule} {spell : String → String}

/-- What is admitted in all nodes of a tree is admitted in the tree itself. -/
theorem isAdmitted_self {c : Category} {t : Tree c} (h : ∀ n ∈ t.nodes, n.2.IsAdmitted rule spell) :
    t.IsAdmitted rule spell :=
  h ⟨c, t⟩ t.self_mem_nodes

theorem admits_single {name : String} (h : ∀ n ∈ [name], rule.AdmitsName (spell n)) :
    rule.AdmitsName (spell name) :=
  h name (List.mem_singleton_self name)

theorem admits_option {name? : Option String}
    (h : ∀ n ∈ name?.toList, rule.AdmitsName (spell n)) :
    ∀ n ∈ name?, rule.AdmitsName (spell n) :=
  fun n hn => h n (Option.mem_toList.mpr hn)

/-! ### Code fits in its place -/

theorem fits_codeName {name : String} (h : rule.AdmitsName (spell name)) :
    Fits rule starts [.word] (Generate.name spell name) :=
  Fits.withMarks (fits_name h (by decide)) _

/-- The operands of optional expressions. -/
theorem fits_optionalCode {e? : Option Operand} (h : ∀ e ∈ e?, Fits rule starts ended e.code) :
    ∀ f ∈ e?.map (·.code), Fits rule starts ended f := by
  intro f hf
  obtain ⟨e, he, rfl⟩ := Option.map_eq_some_iff.mp hf
  exact h e he

/-- The name of a declaration, if it has one. -/
theorem fits_declaredName {n : Tree .bindingName}
    (ih : (∀ m ∈ n.nodes, m.2.IsAdmitted rule spell) → Laid rule .bindingName (n.code spell))
    (h : ∀ m ∈ (if n.isDefaultName then [] else n.nodes), m.2.IsAdmitted rule spell) :
    ∀ f ∈ Tree.declaredName n (n.code spell), Fits rule starts [.word] f := by
  intro f hf
  unfold Tree.declaredName at hf
  split at hf
  · cases hf
  · next hname =>
    obtain rfl := Option.some.inj hf
    rw [if_neg hname] at h
    exact ih h

variable [rule.Lawful]

theorem fits_singleName {ps : Tree .parameters}
    (h : ∀ n ∈ ps.nodes, n.2.IsAdmitted rule spell) (hname : ps.isSingleName) :
    Fits rule starts [.word] (ps.code spell) := by
  obtain ⟨name, rfl⟩ := Tree.exists_of_isSingleName hname
  have hadmits : rule.AdmitsName (spell name) :=
    admits_single (h ⟨_, .bindingName name⟩ (.tail _ (.tail _ (.tail _ (.tail _ (.head _))))))
  have hnil : ∀ f ∈ ([] : List Fragment), Fits rule [.closed] [.word] f := nofun
  exact (fits_codeName hadmits).separated_cons hnil (by decide) (by decide)

/-- If a rule admits everything in a tree, the code of the tree fits in the place of its
category. -/
theorem Tree.laid [rule.Quotes spell] {c : Category} (t : Tree c) :
    (∀ n ∈ t.nodes, n.2.IsAdmitted rule spell) → Laid rule c (t.code spell) := by
  induction t with
  | nil => exact fun _ => nofun
  | cons t ts iht ihts =>
    intro h code hcode
    rcases List.mem_cons.mp hcode with rfl | hcode
    · exact iht (parts_of_two h).1
    · exact ihts (parts_of_two h).2 code hcode
  | absent => exact fun _ => nofun
  | present t ih =>
    intro h code hcode
    obtain rfl := Option.some.inj hcode
    exact ih (part_of_one h)
  -- programs and modules
  | script ds ss ihds ihss =>
    exact fun h => fits_prologue (ihds (parts_of_two h).1) (ihss (parts_of_two h).2)
  | moduleBody ds is ihds ihis =>
    exact fun h => fits_prologue (ihds (parts_of_two h).1) (ihis (parts_of_two h).2)
  | directive raw => exact fun h => fits_directive (isAdmitted_self h)
  | ofImport d ih => exact fun h => ih (part_of_one h)
  | ofExport d ih => exact fun h => ih (part_of_one h)
  | ofStatement s ih => exact fun h => ih (part_of_one h)
  | importNamed d ns specifier ihd ihns =>
    exact fun h => fits_importNamed (ihd (parts_of_two h).1) (ihns (parts_of_two h).2) specifier
  | importNamespace d n specifier ihd ihn =>
    exact fun h => fits_importNamespace (ihd (parts_of_two h).1) (ihn (parts_of_two h).2) specifier
  | importSpecifier name? n ih =>
    exact fun h => fits_importSpecifier (admits_option (isAdmitted_self h)) (ih (part_of_one h))
  | exportAll specifier => exact fun _ => fits_exportAll specifier
  | exportFrom ns specifier ih => exact fun h => fits_exportFrom (ih (part_of_one h)) specifier
  | exportFromSpecifier name exported? =>
    intro h
    obtain ⟨hname, hexported⟩ := List.forall_mem_cons.mp (isAdmitted_self h)
    exact fits_asName (fits_name hname (by decide)) (admits_option hexported)
  | exportLocals ns ih => exact fun h => fits_exportLocals (ih (part_of_one h))
  | exportLocalSpecifier n exported? ih =>
    exact fun h => fits_asName (ih (part_of_one h)) (admits_option (isAdmitted_self h))
  | exportDeclared d ih => exact fun h => .token (by decide) (ih (part_of_one h))
  | exportDefault b ih =>
    exact fun h => .token (by decide) (.token (by decide) (ih (part_of_one h)))
  | ofExportedFunction f ih =>
    exact fun h => Fits.cons (ih (part_of_one h)) (by decide) (fits_nil (by decide))
  | ofExportedClass d ih =>
    exact fun h => Fits.cons (ih (part_of_one h)) (by decide) (fits_nil (by decide))
  | ofExportedVariables d ih =>
    exact fun h => Fits.cons (ih (part_of_one h)) (by decide) (fits_end (by decide) (by decide))
  | ofDefaultExpression e ih => exact fun h => fits_defaultExpression (ih (part_of_one h))
  | ofDefaultFunction f ih =>
    exact fun h => Fits.cons (ih (part_of_one h)) (by decide) (fits_nil (by decide))
  | ofDefaultClass d ih =>
    exact fun h => Fits.cons (ih (part_of_one h)) (by decide) (fits_nil (by decide))
  -- functions and classes
  | function isAsync isGenerator n ps b ihn ihps ihb =>
    exact fun h => fits_function isAsync isGenerator
      (fits_declaredName ihn (parts_of_three h).1) (ihps (parts_of_three h).2.1)
      (ihb (parts_of_three h).2.2)
  | parameters is r ihis ihr =>
    exact fun h => fits_parameters (ihis (parts_of_two h).1)
      fun f hf => (ihr (parts_of_two h).2 f hf).widen (by decide)
  | ofBinding b ih => exact fun h => (ih (part_of_one h)).widen (by decide)
  | bindingWithDefault b v ihb ihv =>
    exact fun h => fits_withDefault (ihb (parts_of_two h).1) (ihv (parts_of_two h).2)
  | functionBody ds ss ihds ihss =>
    exact fun h => ((fits_prologue (ihds (parts_of_two h).1) (ihss (parts_of_two h).2)).indent
      (by decide)).widen (by decide)
  | classDeclaration n p es ihn ihp ihes =>
    exact fun h => fits_classCode (fits_declaredName ihn (parts_of_three h).1)
      (ihp (parts_of_three h).2.1) (ihes (parts_of_three h).2.2)
  | classElement isStatic m ih => exact fun h => fits_classElement isStatic (ih (part_of_one h))
  | method isAsync isGenerator n ps b ihn ihps ihb =>
    exact fun h => fits_method isAsync isGenerator (ihn (parts_of_three h).1)
      (ihps (parts_of_three h).2.1) (ihb (parts_of_three h).2.2)
  | getter n b ihn ihb =>
    exact fun h => fits_getter (ihn (parts_of_two h).1) (ihb (parts_of_two h).2)
  | setter n p b ihn ihp ihb =>
    exact fun h => fits_setter (ihn (parts_of_three h).1)
      (ihp (parts_of_three h).2.1) (ihb (parts_of_three h).2.2)
  -- properties
  | computedName e ih => exact fun h => fits_computedName (ih (part_of_one h))
  | staticName value => exact fun h => fits_staticName (isAdmitted_self h)
  | dataProperty n v ihn ihv =>
    exact fun h => (fits_dataProperty (ihn (parts_of_two h).1) (ihv (parts_of_two h).2)).mono
      (by decide) (by decide)
  | shorthandProperty n ih =>
    exact fun h => Fits.withMarks ((ih (part_of_one h)).mono (by decide) (by decide)) _
  | ofMethod m ih => exact fun h => (ih (part_of_one h)).mono (by decide) (by decide)
  -- bindings
  | bindingName n => exact fun h => fits_codeName (admits_single (isAdmitted_self h))
  | ofBindingName n ih => exact fun h => (ih (part_of_one h)).widen (by decide)
  | arrayBinding es r ihes ihr =>
    exact fun h => (fits_arrayElements
      (fun item hitem f hf =>
        (ihes (parts_of_two h).1 item hitem f hf).mono (by decide) (by decide))
      fun f hf => (ihr (parts_of_two h).2 f hf).widen (by decide)).widen (by decide)
  | objectBinding ps ih =>
    exact fun h => (fits_properties
      fun f hf => (ih (part_of_one h) f hf).mono (by decide) (by decide)).widen (by decide)
  | bindingShorthand n v ihn ihv =>
    exact fun h => fits_withDefault? ((ihn (parts_of_two h).1).widen (by decide))
      (ihv (parts_of_two h).2)
  | bindingProperty n b ihn ihb =>
    exact fun h => fits_renamed (ihn (parts_of_two h).1) (ihb (parts_of_two h).2)
  -- assignment targets
  | ofSimpleTarget t ih => exact fun h => ih (part_of_one h)
  | arrayTarget es r ihes ihr =>
    exact fun h => (fits_arrayElements
      (fun item hitem f hf =>
        (ihes (parts_of_two h).1 item hitem f hf).mono (by decide) (by decide))
      fun f hf => (ihr (parts_of_two h).2 f hf).widen (by decide)).widen (by decide)
  | objectTarget ps ih =>
    exact fun h => Fits.withMarks ((fits_properties
      fun f hf => (ih (part_of_one h) f hf).mono (by decide) (by decide)).widen (by decide)) _
  | ofTargetName n ih => exact fun h => (ih (part_of_one h)).widen (by decide)
  | staticMemberTarget o property ih =>
    exact fun h => (fits_staticMember (ih (part_of_one h))
      (admits_single (isAdmitted_self h))).widen (by decide)
  | computedMemberTarget o e iho ihe =>
    exact fun h => (fits_computedMember _ (iho (parts_of_two h).1) (ihe (parts_of_two h).2)).widen
      (by decide)
  | targetName n => exact fun h => fits_codeName (admits_single (isAdmitted_self h))
  | ofTarget t ih => exact fun h => (ih (part_of_one h)).widen (by decide)
  | targetWithDefault t v iht ihv =>
    exact fun h => fits_withDefault (iht (parts_of_two h).1) (ihv (parts_of_two h).2)
  | targetShorthand n v ihn ihv =>
    exact fun h => fits_withDefault? ((ihn (parts_of_two h).1).widen (by decide))
      (ihv (parts_of_two h).2)
  | targetProperty n t ihn iht =>
    exact fun h => fits_renamed (ihn (parts_of_two h).1) (iht (parts_of_two h).2)
  -- statements
  | blockStatement b ih => exact fun h => (ih (part_of_one h)).widen (by decide)
  | breakStatement label? =>
    exact fun h => fits_jump (by decide) (by decide) (admits_option (isAdmitted_self h))
  | continueStatement label? =>
    exact fun h => fits_jump (by decide) (by decide) (admits_option (isAdmitted_self h))
  | debuggerStatement =>
    exact fun _ => .token (by decide) (fits_end (by decide) (by decide))
  | doWhile b t ihb iht =>
    exact fun h => fits_doWhile (ihb (parts_of_two h).1) (iht (parts_of_two h).2)
  | emptyStatement => exact fun _ => (fits_fixed (by decide) fun _ => rfl).widen (by decide)
  | expressionStatement e ih => exact fun h => fits_expressionStatement _ (ih (part_of_one h))
  | forIn l o b ihl iho ihb =>
    exact fun h => fits_forIn _ (ihl (parts_of_three h).1)
      (iho (parts_of_three h).2.1) (ihb (parts_of_three h).2.2)
  | forOf l is b ihl ihis ihb =>
    exact fun h => fits_forOf _ (ihl (parts_of_three h).1)
      (ihis (parts_of_three h).2.1) (ihb (parts_of_three h).2.2)
  | forLoop s t u b ihs iht ihu ihb =>
    exact fun h => fits_forLoop (ihs (parts_of_four h).1)
      (fits_optionalCode (iht (parts_of_four h).2.1))
      (fits_optionalCode (ihu (parts_of_four h).2.2.1)) (ihb (parts_of_four h).2.2.2)
  | ifStatement t s a iht ihs iha =>
    exact fun h => fits_ifStatement (iht (parts_of_three h).1)
      (ihs (parts_of_three h).2.1) (iha (parts_of_three h).2.2)
  | labeled label b ih =>
    exact fun h => fits_labeled (admits_single (isAdmitted_self h)) (ih (part_of_one h))
  | returnStatement e ih =>
    exact fun h => fits_keywordStatement (by decide) (by decide) (fits_orEmpty
      (fun f hf => (fits_optionalCode (ih (part_of_one h)) f hf).mono (by decide) (by decide))
      (by decide))
  | switchStatement d cs ihd ihcs =>
    exact fun h => fits_switch (ihd (parts_of_two h).1) (ihcs (parts_of_two h).2)
  | switchWithDefault d before default after ihd ihbefore ihdefault ihafter =>
    intro h
    refine fits_switch (ihd (parts_of_four h).1) fun f hf => ?_
    rcases List.mem_append.mp hf with hf | hf
    · exact ihbefore (parts_of_four h).2.1 f hf
    · rcases List.mem_cons.mp hf with rfl | hf
      · exact ihdefault (parts_of_four h).2.2.1
      · exact ihafter (parts_of_four h).2.2.2 f hf
  | throwStatement e ih =>
    exact fun h => fits_keywordStatement (by decide) (by decide)
      ((ih (part_of_one h)).mono (by decide) (by decide))
  | tryCatch b cl ihb ihcl =>
    exact fun h => fits_tryCatch (ihb (parts_of_two h).1) (ihcl (parts_of_two h).2)
  | tryFinally b cl f ihb ihcl ihf =>
    exact fun h => fits_tryFinally (ihb (parts_of_three h).1)
      (ihcl (parts_of_three h).2.1) (ihf (parts_of_three h).2.2)
  | variableStatement d ih =>
    exact fun h => Fits.andThen (ih (part_of_one h)) (fits_end (by decide) (by decide))
  | whileLoop t b iht ihb =>
    exact fun h => fits_headed (by decide) (by decide)
      ((iht (parts_of_two h).1).mono (by decide) (by decide)) (ihb (parts_of_two h).2)
  | withStatement o b iho ihb =>
    exact fun h => fits_headed (by decide) (by decide)
      ((iho (parts_of_two h).1).mono (by decide) (by decide)) (ihb (parts_of_two h).2)
  | ofFunction f ih => exact fun h => (ih (part_of_one h)).widen (by decide)
  | ofClass d ih => exact fun h => (ih (part_of_one h)).widen (by decide)
  | block ss ih => exact fun h => fits_block (ih (part_of_one h))
  | switchCase t ss iht ihss =>
    exact fun h => fits_switchCase (iht (parts_of_two h).1) (ihss (parts_of_two h).2)
  | switchDefault ss ih => exact fun h => fits_switchDefault (ih (part_of_one h))
  | catchClause b s ihb ihs =>
    exact fun h => fits_catchClause (ihb (parts_of_two h).1) (ihs (parts_of_two h).2)
  | declaration kind ds ih => exact fun h => fits_declaration kind (ih (part_of_one h))
  | declarator b v ihb ihv =>
    exact fun h => fits_declarator (ihb (parts_of_two h).1)
      (fits_optionalCode (ihv (parts_of_two h).2))
  | ofLoopTarget t ih => exact fun h => (ih (part_of_one h)).widen (by decide)
  | ofLoopDeclaration d ih => exact fun h => ih (part_of_one h)
  | ofStartExpression e ih => exact fun h => ih (part_of_one h)
  | ofStartDeclaration d ih => exact fun h => ih (part_of_one h)
  -- expressions
  | boolean value => exact fun _ => (fits_boolean value).widen (by decide)
  | infinity =>
    exact fun _ => (fits_number (Rule.Lawful.number _ rfl (.inl rfl)) (by decide)).widen (by decide)
  | null => exact fun _ => fits_token (by decide) (by decide)
  | number value =>
    exact fun h => (fits_number (isAdmitted_self h) (by decide)).widen (by decide)
  | regExp pattern flags =>
    exact fun h => (fits_regExp (isAdmitted_self h) (by decide)).widen (by decide)
  | string value => exact fun _ => (fits_stringLiteral value (by decide)).widen (by decide)
  | array es ih =>
    have hnone : ∀ f ∈ (none : Option Fragment), Fits rule starts ended f := nofun
    exact fun h => (fits_arrayElements (ih (part_of_one h)) hnone).widen (by decide)
  | object ps ih =>
    exact fun h => Fits.withMarks ((fits_properties (ih (part_of_one h))).widen (by decide)) _
  | functionExpression isAsync isGenerator n ps b ihn ihps ihb =>
    exact fun h => Fits.withMarks ((fits_function isAsync isGenerator
      (ihn (parts_of_three h).1) (ihps (parts_of_three h).2.1)
      (ihb (parts_of_three h).2.2)).widen (by decide)) _
  | classExpression n p es ihn ihp ihes =>
    exact fun h => Fits.withMarks ((fits_classCode (ihn (parts_of_three h).1)
      (ihp (parts_of_three h).2.1) (ihes (parts_of_three h).2.2)).widen (by decide)) _
  | ofIdentifier n ih => exact fun h => (ih (part_of_one h)).widen (by decide)
  | this => exact fun _ => fits_token (by decide) (by decide)
  | template t ps iht ihps =>
    exact fun h => (fits_template (iht (parts_of_two h).1) (ihps (parts_of_two h).2)
      (isSome_code t spell ▸ isAdmitted_self h)).widen (by decide)
  | newTarget => exact fun _ => fits_newTarget.widen (by decide)
  | staticMember o property ih =>
    exact fun h => (fits_staticMember (ih (part_of_one h))
      (admits_single (isAdmitted_self h))).widen (by decide)
  | computedMember o e iho ihe =>
    exact fun h => (fits_computedMember _ (iho (parts_of_two h).1) (ihe (parts_of_two h).2)).widen
      (by decide)
  | call f as ihf ihas =>
    exact fun h => (fits_call (ihf (parts_of_two h).1) (ihas (parts_of_two h).2)).widen (by decide)
  | construct f as ihf ihas =>
    exact fun h => fits_construct (ihf (parts_of_two h).1) (ihas (parts_of_two h).2)
  | unary op e ih =>
    exact fun h => fits_unary (passes_unaryOperator op).1 (passes_unaryOperator op).2
      (ih (part_of_one h))
  | update before op t ih =>
    exact fun h => fits_update before op ((ih (part_of_one h)).widen (by decide))
  | binary l op r ihl ihr =>
    exact fun h => fits_binary _ op (ihl (parts_of_two h).1) (ihr (parts_of_two h).2)
  | conditional t s a iht ihs iha =>
    exact fun h => fits_conditional (iht (parts_of_three h).1)
      (ihs (parts_of_three h).2.1) (iha (parts_of_three h).2.2)
  | assign t v iht ihv =>
    exact fun h => fits_assignment (iht (parts_of_two h).1) (by decide) (by decide)
      (ihv (parts_of_two h).2)
  | compoundAssign t op v iht ihv =>
    exact fun h => fits_assignment (iht (parts_of_two h).1) (passes_assignmentOperator op).1
      (passes_assignmentOperator op).2 (ihv (parts_of_two h).2)
  | arrow isAsync ps b ihps ihb =>
    exact fun h => fits_arrow isAsync _ (ihps (parts_of_two h).1)
      (fits_singleName (parts_of_two h).1) (ihb (parts_of_two h).2)
  | await e ih => exact fun h => fits_unary (by decide) (by decide) (ih (part_of_one h))
  | yield e ih => exact fun h => fits_yieldCode (ih (part_of_one h))
  | yieldFrom e ih => exact fun h => fits_yieldFrom (ih (part_of_one h))
  | identifier n => exact fun h => fits_codeName (admits_single (isAdmitted_self h))
  | ofCallee e ih => exact fun h => ih (part_of_one h)
  | super => exact fun _ => fits_token (by decide) (by decide)
  | ofArgument e ih =>
    exact fun h => (Fits.single (ih (part_of_one h))).mono (by decide) (by decide)
  | spread e ih => exact fun h => fits_rest (Fits.single (ih (part_of_one h)))
  | ofSubstitution e ih => exact fun h => ih (part_of_one h)
  | templateText raw => exact fun _ => trivial
  | ofExpressionBody e ih => exact fun h => fits_expressionBody (ih (part_of_one h))
  | ofFunctionBody b ih =>
    exact fun h => ((ih (part_of_one h)).brace (by decide) (by decide) (by decide)).widen
      (by decide)

end

end EcmaPrinter
