import EcmaPrinter.Proofs.Fragment.Events
import EcmaPrinter.Proofs.Text.Spelled
import EcmaPrinter.Proofs.Tree.Carried
import EcmaPrinter.Proofs.Tree.Visits
import EcmaPrinter.Render

/-!
Code has the leaves of its tree, in order.

Each leaf is written as one piece.  The code of a tree is what its nodes are written as, padded with
other tokens (`Tree.padded_written`).  So the leaves are a sublist of the pieces, in the order in
which a visit of the tree collects them, and since template texts and numbers come from leaves only,
those of the pieces are exactly those of the tree.
-/

namespace EcmaPrinter

open EcmaPrinter.Generate
open EcmaPrinter.Number
open EcmaPrinter.Text

/-! ### What is written for a node -/

/-- What a literal property name is written as. -/
def namePiece (value : String) : Piece :=
  if isIdentifierName value then .token value
  else match numberNamed? value with
    | some n => .number n
    | none => .token (quote value)

/-- What a leaf is written as.  An infinity is a number, though it is no leaf. -/
def Head.written? : Head → Option Piece
  | directive raw => some (.token (quoteDirective raw))
  | exportAll specifier => some (.token (quote specifier))
  | exportFromSpecifier name _ => some (.token name)
  | staticName value => some (namePiece value)
  | bindingName name | targetName name | identifier name => some (.token name)
  | boolean value => some (.token (if value then "true" else "false"))
  | infinity => some (.number (Double.infinity false))
  | number value => some (.number value)
  | regExp pattern flags =>
    some (.token (String.ofList ('/' :: (pattern.toList ++ '/' :: flags.text.toList))))
  | string value => some (.token (quote value))
  | this => some (.token "this")
  | super => some (.token "super")
  | templateText raw => some (.raw raw)
  | _ => none

theorem Head.written?_of_isLeaf (h : Head) (hleaf : h.isLeaf) : h.written?.isSome := by
  cases h <;> first | rfl | cases hleaf

/-- What the nodes in a tree are written as, from left to right. -/
def Tree.written {c : Category} (t : Tree c) : List Piece :=
  t.nodes.filterMap (·.2.head?.bind Head.written?)

/-- The pieces of the code of a tree. -/
def Code.toPieces : (c : Category) → Code c → List Piece
  | .list c, codes => codes.flatMap (Code.toPieces c)
  | .option c, code? => code?.elim [] (Code.toPieces c)
  | .expression, e | .callee, e => e.code.pieces false
  | .templatePart, part => Chunk.pieces part
  | .exportable, fs | .defaultExport, fs => fs.flatMap (·.pieces false)
  | .program, f | .directive, f | .moduleItem, f | .importDeclaration, f | .importSpecifier, f
  | .exportDeclaration, f | .exportFromSpecifier, f | .exportLocalSpecifier, f | .function, f
  | .parameters, f | .parameter, f | .functionBody, f | .classDeclaration, f | .classElement, f
  | .method, f | .propertyName, f | .objectProperty, f | .binding, f | .bindingName, f
  | .bindingProperty, f | .target, f | .simpleTarget, f | .targetName, f | .targetElement, f
  | .targetProperty, f | .statement, f | .block, f | .switchCase, f | .switchDefault, f
  | .catchClause, f | .declaration, f | .declarator, f | .loopTarget, f | .loopStart, f
  | .identifier, f | .argument, f | .arrowBody, f => Fragment.pieces f false

namespace Tree

theorem written_eq {c : Category} (t : Tree c) :
    t.written = (t.head?.bind Head.written?).toList ++ t.namedParts.flatMap (·.2.written) := by
  unfold written
  rw [nodes_eq, List.filterMap_cons, List.filterMap_flatMap]
  cases t.head?.bind Head.written? <;> rfl

section

variable {c c₁ c₂ c₃ c₄ : Category} {t : Tree c} {u : Tree c₁} {v : Tree c₂} {w : Tree c₃}
  {x : Tree c₄} {ps : List Piece}

theorem padded_leaf {l : List Piece} (hhead : (t.head?.bind Head.written?).toList = l)
    (hparts : t.namedParts = []) (h : Padded l ps) : Padded t.written ps := by
  rw [written_eq, hhead, hparts, List.flatMap_nil, List.append_nil]
  exact h

theorem padded_one (hhead : t.head?.bind Head.written? = none) (hparts : t.namedParts = [⟨_, u⟩])
    (h : Padded u.written ps) : Padded t.written ps := by
  rw [written_eq, hhead, hparts]
  simpa using h

theorem padded_two (hhead : t.head?.bind Head.written? = none)
    (hparts : t.namedParts = [⟨_, u⟩, ⟨_, v⟩]) (h : Padded (u.written ++ v.written) ps) :
    Padded t.written ps := by
  rw [written_eq, hhead, hparts]
  simpa using h

theorem padded_three (hhead : t.head?.bind Head.written? = none)
    (hparts : t.namedParts = [⟨_, u⟩, ⟨_, v⟩, ⟨_, w⟩])
    (h : Padded (u.written ++ (v.written ++ w.written)) ps) : Padded t.written ps := by
  rw [written_eq, hhead, hparts]
  simpa using h

theorem padded_four (hhead : t.head?.bind Head.written? = none)
    (hparts : t.namedParts = [⟨_, u⟩, ⟨_, v⟩, ⟨_, w⟩, ⟨_, x⟩])
    (h : Padded (u.written ++ (v.written ++ (w.written ++ x.written))) ps) :
    Padded t.written ps := by
  rw [written_eq, hhead, hparts]
  simpa using h

theorem padded_named {n : Tree .bindingName} (hhead : t.head?.bind Head.written? = none)
    (hparts : t.namedParts =
      if n.isDefaultName then [⟨_, u⟩, ⟨_, v⟩] else [⟨_, n⟩, ⟨_, u⟩, ⟨_, v⟩])
    (h : Padded ((if n.isDefaultName then [] else n.written) ++ (u.written ++ v.written)) ps) :
    Padded t.written ps := by
  rw [written_eq, hhead, hparts]
  split <;> simp_all

end

theorem declaredName_carries {n : Tree .bindingName} {f : Fragment} (hf : f.Carries n.written) :
    CarriesOption (declaredName n f) (if n.isDefaultName then [] else n.written) := by
  unfold declaredName
  split
  · exact .refl []
  · exact hf

theorem staticName_pieces (value : String) :
    (Generate.staticName id value).pieces false = [namePiece value] := by
  unfold Generate.staticName namePiece
  split
  · rfl
  · cases numberNamed? value <;> rfl

/-- The code of a tree carries what its nodes are written as. -/
theorem padded_written {c : Category} (t : Tree c) :
    Padded t.written (Code.toPieces c (t.code id)) := by
  induction t with
  | nil => exact padded_leaf rfl rfl (.refl [])
  | cons t ts iht ihts => exact padded_two rfl rfl (iht.append ihts)
  | absent => exact padded_leaf rfl rfl (.refl [])
  | present t ih => exact padded_one rfl rfl ih
  -- trees that stand for another
  | ofImport t ih | ofExport t ih | ofStatement t ih | ofBinding t ih | ofMethod t ih
  | ofBindingName t ih | ofSimpleTarget t ih | ofTargetName t ih | ofTarget t ih
  | blockStatement t ih | ofFunction t ih | ofClass t ih | ofLoopTarget t ih
  | ofLoopDeclaration t ih | ofStartExpression t ih | ofStartDeclaration t ih | ofIdentifier t ih
  | ofCallee t ih | ofSubstitution t ih => exact padded_one rfl rfl ih
  | ofExportedFunction t ih | ofExportedClass t ih | ofDefaultFunction t ih
  | ofDefaultClass t ih => exact padded_one rfl rfl (CarriesAll.singleton ih)
  | ofExportedVariables t ih =>
    exact padded_one rfl rfl (CarriesAll.last ih (.skip .statementEnd .nil))
  | ofDefaultExpression e ih => exact padded_one rfl rfl (defaultExpression_carries ih)
  | ofArgument e ih => exact padded_one rfl rfl (single_carries ih)
  | spread e ih => exact padded_one rfl rfl (rest_carries (single_carries ih))
  | ofExpressionBody e ih => exact padded_one rfl rfl (expressionBody_carries ih)
  | ofFunctionBody b ih => exact padded_one rfl rfl (Fragment.Carries.brace ih)
  | shorthandProperty n ih => exact padded_one rfl rfl (Fragment.Carries.withMarks _ ih)
  -- programs and modules
  | script ds ss ihds ihss | moduleBody ds ss ihds ihss | functionBody ds ss ihds ihss =>
    exact padded_two rfl rfl (prologue_carries ihds ihss)
  | directive raw => exact padded_leaf rfl rfl (.skip_last rfl (.refl [_]))
  | importNamed d ns specifier ihd ihns =>
    exact padded_two rfl rfl (importNamed_carries id ihd ihns specifier)
  | importNamespace d n specifier ihd ihn =>
    exact padded_two rfl rfl (importNamespace_carries id ihd ihn specifier)
  | importSpecifier name? b ih => exact padded_one rfl rfl (importSpecifier_carries id name? ih)
  | exportAll specifier =>
    refine padded_leaf rfl rfl ?_
    exact .skip rfl (.skip rfl (.skip rfl (.skip_last rfl (.refl [_]))))
  | exportFrom ns specifier ih => exact padded_one rfl rfl (exportFrom_carries id ih specifier)
  | exportFromSpecifier name exported? =>
    have hname : (Fragment.token name).Carries [.token name] := Padded.refl _
    exact padded_leaf rfl rfl (asName_carries id hname exported?)
  | exportLocals ns ih => exact padded_one rfl rfl (exportLocals_carries ih)
  | exportLocalSpecifier name exported? ih =>
    exact padded_one rfl rfl (asName_carries id ih exported?)
  | exportDeclared d ih => exact padded_one rfl rfl (exportDeclared_carries ih)
  | exportDefault b ih => exact padded_one rfl rfl (exportDefault_carries ih)
  -- functions and classes
  | function isAsync isGenerator n ps b ihn ihps ihb =>
    exact padded_named rfl rfl
      (function_carries isAsync isGenerator (declaredName_carries ihn) ihps ihb)
  | classDeclaration n p es ihn ihp ihes =>
    exact padded_named rfl rfl (classCode_carries (declaredName_carries ihn) ihp ihes)
  | functionExpression isAsync isGenerator n ps b ihn ihps ihb =>
    exact padded_three rfl rfl
      (Fragment.Carries.withMarks _ (function_carries isAsync isGenerator ihn ihps ihb))
  | classExpression n p es ihn ihp ihes =>
    exact padded_three rfl rfl (Fragment.Carries.withMarks _ (classCode_carries ihn ihp ihes))
  | parameters is r ihi ihr => exact padded_two rfl rfl (parameters_carries ihi ihr)
  | bindingWithDefault b v ihb ihv | targetWithDefault b v ihb ihv =>
    exact padded_two rfl rfl (withDefault_carries ihb ihv)
  | classElement isStatic m ih => exact padded_one rfl rfl (classElement_carries isStatic ih)
  | method isAsync isGenerator n ps b ihn ihps ihb =>
    exact padded_three rfl rfl (method_carries isAsync isGenerator ihn ihps ihb)
  | getter n b ihn ihb => exact padded_two rfl rfl (getter_carries ihn ihb)
  | setter n p b ihn ihp ihb => exact padded_three rfl rfl (setter_carries ihn ihp ihb)
  -- properties, bindings and assignment targets
  | computedName e ih => exact padded_one rfl rfl (single_carries ih).bracket
  | staticName value =>
    refine padded_leaf rfl rfl ?_
    show Padded [namePiece value] ((Generate.staticName id value).pieces false)
    rw [staticName_pieces]
    exact .refl _
  | dataProperty n v ihn ihv => exact padded_two rfl rfl (dataProperty_carries ihn ihv)
  | bindingName n | targetName n | identifier n => exact padded_leaf rfl rfl (.refl [.token n])
  | arrayBinding es r ihes ihr | arrayTarget es r ihes ihr =>
    exact padded_two rfl rfl (arrayElements_carries ihes ihr)
  | objectBinding ps ih => exact padded_one rfl rfl (properties_carries ih)
  | objectTarget ps ih => exact padded_one rfl rfl (object_carries ih)
  | bindingShorthand n v ihn ihv | targetShorthand n v ihn ihv =>
    exact padded_two rfl rfl (withDefault?_carries ihn ihv)
  | bindingProperty n b ihn ihb | targetProperty n b ihn ihb =>
    exact padded_two rfl rfl (renamed_carries ihn ihb)
  | staticMemberTarget o property ih | staticMember o property ih =>
    exact padded_one rfl rfl (staticMember_carries id ih property)
  | computedMemberTarget o e iho ihe | computedMember o e iho ihe =>
    exact padded_two rfl rfl (computedMember_carries o.isLet iho ihe)
  -- statements
  | breakStatement label? => exact padded_leaf rfl rfl (jump_carries id "break" label?)
  | continueStatement label? => exact padded_leaf rfl rfl (jump_carries id "continue" label?)
  | debuggerStatement => exact padded_leaf rfl rfl (.skip rfl (.skip rfl (.refl [])))
  | emptyStatement => exact padded_leaf rfl rfl (.skip rfl (.refl []))
  | doWhile b t ihb iht => exact padded_two rfl rfl (doWhile_carries ihb iht)
  | expressionStatement e ih =>
    exact padded_one rfl rfl (expressionStatement_carries e.isString ih)
  | forIn l o b ihl iho ihb =>
    exact padded_three rfl rfl (forIn_carries l.isDeclaration ihl iho ihb)
  | forOf l is b ihl ihis ihb =>
    exact padded_three rfl rfl (forOf_carries l.isDeclaration ihl ihis ihb)
  | forLoop s t u b ihs iht ihu ihb =>
    exact padded_four rfl rfl
      (forLoop_carries ihs (CarriesOperand.code iht) (CarriesOperand.code ihu) ihb)
  | ifStatement t s a iht ihs iha => exact padded_three rfl rfl (ifStatement_carries iht ihs iha)
  | labeled label b ih => exact padded_one rfl rfl (labeled_carries id label ih)
  | returnStatement e ih =>
    exact padded_one rfl rfl
      (keywordStatement_carries "return" (orEmpty_carries (CarriesOperand.code ih)))
  | throwStatement e ih => exact padded_one rfl rfl (keywordStatement_carries "throw" ih)
  | switchStatement d cs ihd ihcs => exact padded_two rfl rfl (switch_carries ihd ihcs)
  | switchWithDefault d before d₂ after ihd ihb ihd₂ iha =>
    exact padded_four rfl rfl (switch_carries ihd (.append ihb (.cons ihd₂ iha)))
  | tryCatch b cl ihb ihcl => exact padded_two rfl rfl (tryCatch_carries ihb ihcl)
  | tryFinally b cl f ihb ihcl ihf => exact padded_three rfl rfl (tryFinally_carries ihb ihcl ihf)
  | variableStatement d ih =>
    exact padded_one rfl rfl (Fragment.Carries.sequence (.last ih (.skip .statementEnd .nil)))
  | whileLoop t b iht ihb => exact padded_two rfl rfl (headed_carries "while" iht ihb)
  | withStatement o b iho ihb => exact padded_two rfl rfl (headed_carries "with" iho ihb)
  | block ss ih => exact padded_one rfl rfl (block_carries ih)
  | switchCase t ss iht ihss => exact padded_two rfl rfl (switchCase_carries iht ihss)
  | switchDefault ss ih => exact padded_one rfl rfl (switchDefault_carries ih)
  | catchClause b s ihb ihs => exact padded_two rfl rfl (catchClause_carries ihb ihs)
  | declaration kind ds ih => exact padded_one rfl rfl (declaration_carries kind ih)
  | declarator b v ihb ihv =>
    exact padded_two rfl rfl (declarator_carries ihb (CarriesOperand.code ihv))
  -- expressions
  | boolean value => exact padded_leaf rfl rfl (.refl [_])
  | infinity => exact padded_leaf rfl rfl (.refl [_])
  | null => exact padded_leaf rfl rfl (.skip rfl (.refl []))
  | number value => exact padded_leaf rfl rfl (.refl [_])
  | regExp pattern flags => exact padded_leaf rfl rfl (.refl [_])
  | string value => exact padded_leaf rfl rfl (.refl [_])
  | array es ih =>
    have hrest : CarriesOption none [] := Padded.refl []
    have h := arrayElements_carries ih hrest
    rw [List.append_nil] at h
    exact padded_one rfl rfl h
  | object ps ih => exact padded_one rfl rfl (object_carries ih)
  | this => exact padded_leaf rfl rfl (.refl [_])
  | super => exact padded_leaf rfl rfl (.refl [_])
  | template t ps iht ihps => exact padded_two rfl rfl (template_carries iht ihps)
  | newTarget => exact padded_leaf rfl rfl (.skip rfl (.skip rfl (.skip rfl (.refl []))))
  | call f as ihf ihas => exact padded_two rfl rfl (call_carries ihf ihas)
  | construct f as ihf ihas => exact padded_two rfl rfl (construct_carries ihf ihas)
  | unary op e ih => exact padded_one rfl rfl (unary_carries op.text ih)
  | update before op t ih => exact padded_one rfl rfl (update_carries before op ih)
  | binary l op r ihl ihr => exact padded_two rfl rfl (binary_carries op l.isPrefixed ihl ihr)
  | conditional t s a iht ihs iha => exact padded_three rfl rfl (conditional_carries iht ihs iha)
  | assign t v iht ihv => exact padded_two rfl rfl (assignment_carries "=" iht ihv)
  | compoundAssign t op v iht ihv => exact padded_two rfl rfl (assignment_carries op.text iht ihv)
  | arrow isAsync ps b ihps ihb =>
    exact padded_two rfl rfl (arrow_carries isAsync ps.isSingleName ihps ihb)
  | await e ih => exact padded_one rfl rfl (unary_carries "await" ih)
  | yield e ih => exact padded_one rfl rfl (yieldCode_carries ih)
  | yieldFrom e ih => exact padded_one rfl rfl (yieldFrom_carries ih)
  | templateText raw => exact padded_leaf rfl rfl (.refl [_])

/-! ### Leaves in order -/

/-- Only a tree without parts is written as a piece of its own. -/
theorem parts_eq_nil {c : Category} (t : Tree c) :
    (t.head?.bind Head.written?).isSome → t.parts = [] := by
  cases t with
  | directive | exportAll | exportFromSpecifier | staticName | bindingName | targetName | boolean
  | infinity | number | regExp | string | this | identifier | super | templateText =>
    exact fun _ => rfl
  | _ => exact fun h => Bool.noConfusion h

/-- A name that stands for a missing one is left out among the parts. -/
theorem flatMap_namedParts {c : Category} {α : Type} (t : Tree c) {g : Node → List α}
    (hg : g ⟨_, bindingName defaultName⟩ = []) : t.namedParts.flatMap g = t.parts.flatMap g := by
  cases t with
  | function _ _ u v w | classDeclaration u v w =>
    cases u with | bindingName name =>
    by_cases hname : name = defaultName
    · subst hname
      show List.flatMap g [⟨_, v⟩, ⟨_, w⟩] = g ⟨_, bindingName defaultName⟩ ++ _
      rw [hg]
      rfl
    · rw [namedParts, if_neg]
      exact fun h => hname (beq_iff_eq.mp h)
  | _ => rfl

/-- What is collected from the heads of leaves comes in the order of the nodes. -/
theorem filterMap_heads {α : Type} {f : Piece → Option α}
    (hname : f (.token defaultName) = none) {c : Category} (t : Tree c) :
    t.heads.filterMap (fun h => h.written?.bind f) = t.written.filterMap f := by
  refine parts_induction (P := fun n => n.2.heads.filterMap (fun h => h.written?.bind f) =
    n.2.written.filterMap f) ?_ t
  intro c t ih
  have hdefault : (bindingName defaultName).written.filterMap f = [] := by
    show List.filterMap f [.token defaultName] = []
    rw [List.filterMap_cons_none hname, List.filterMap_nil]
  have hparts : t.namedParts.flatMap (·.2.written.filterMap f) =
      t.parts.flatMap fun n => n.2.heads.filterMap fun h => h.written?.bind f := by
    rw [flatMap_namedParts t hdefault]
    exact (List.flatMap_congr ih).symm
  rw [heads_eq, written_eq, List.filterMap_append, List.filterMap_append, List.filterMap_flatMap,
    List.filterMap_flatMap, hparts]
  rcases hhead : t.head? with - | h
  · simp
  · rcases hwritten : h.written? with - | p
    · simp [hwritten]
    · have hnil := t.parts_eq_nil (by rw [hhead, Option.bind_some, hwritten]; rfl)
      rw [hnil]
      simp [List.filterMap_cons, hwritten]

end Tree

/-! ### Leaves that are kept -/

/-- The head of a declaration that has its name as the first child. -/
def Head.isDeclaration : Head → Bool
  | function _ _ | classDeclaration => true
  | _ => false

/-- The head, if it is a leaf. -/
def Head.leaf? (h : Head) : Option Head :=
  if h.isLeaf then some h else none

namespace Tree

/-- The leaves of children, without a first one that stands for a missing name. -/
def withoutDefaultName : List (List Head) → List (List Head)
  | [.bindingName name] :: children =>
    if name = defaultName then children else [.bindingName name] :: children
  | children => children

/-- A leaf gives itself, and any other node the leaves of its children.  A function or a class
leaves out a name that stands for a missing one. -/
def keptStep (h : Head) (children : List (List Head)) : List Head :=
  productStep [] (· ++ ·) (fun h => h.leaf?.map ([·])) h
    (if h.isDeclaration then withoutDefaultName children else children)

/-- The leaves of a tree from left to right, without names that stand for missing ones. -/
def keptLeaves {c : Category} (t : Tree c) : List Head :=
  (t.visit keptStep).flatten

theorem foldl_append_eq (xss : List (List Head)) (xs : List Head) :
    xss.foldl (· ++ ·) xs = xs ++ xss.flatten := by
  induction xss generalizing xs with
  | nil => simp
  | cons ys xss ih => simp [ih]

theorem visit_namedParts {c : Category} (t : Tree c) :
    (if t.head?.any Head.isDeclaration then
      withoutDefaultName (t.parts.flatMap (·.2.visit keptStep))
    else t.parts.flatMap (·.2.visit keptStep)) = t.namedParts.flatMap (·.2.visit keptStep) := by
  cases t with
  | function _ _ u v w | classDeclaration u v w =>
    cases u with | bindingName name =>
    show (if name = defaultName then _ else _) =
      List.flatMap _ (if name == defaultName then _ else _)
    by_cases hname : name = defaultName
    · rw [if_pos hname, if_pos (beq_iff_eq.mpr hname)]
      rfl
    · rw [if_neg hname, if_neg (fun h => hname (beq_iff_eq.mp h))]
      rfl
  | _ => rfl

theorem flatten_visit (ns : List Node) :
    (ns.flatMap (·.2.visit keptStep)).flatten = ns.flatMap (·.2.keptLeaves) := by
  induction ns with
  | nil => rfl
  | cons n ns ih => rw [List.flatMap_cons, List.flatten_append, ih, List.flatMap_cons, keptLeaves]

/-- The leaves that are kept are those among the nodes. -/
theorem keptLeaves_eq {c : Category} (t : Tree c) :
    t.keptLeaves = t.nodes.filterMap (·.2.head?.bind Head.leaf?) := by
  refine parts_induction (P := fun n => n.2.keptLeaves =
    n.2.nodes.filterMap (·.2.head?.bind Head.leaf?)) ?_ t
  intro c t ih
  have hparts : (t.namedParts.flatMap (·.2.visit keptStep)).flatten =
      t.namedParts.flatMap (·.2.nodes.filterMap (·.2.head?.bind Head.leaf?)) := by
    rw [flatten_visit]
    exact List.flatMap_congr fun n hn => ih n (t.namedParts_subset hn)
  have hvisit := t.visit_namedParts
  rw [keptLeaves, visit_eq, nodes_eq, List.filterMap_cons, List.filterMap_flatMap, ← hparts,
    ← hvisit]
  rcases hhead : t.head? with - | h
  · rfl
  · rw [hhead] at hvisit
    by_cases hleaf : h.isLeaf
    · have hwritten : h.written?.isSome := h.written?_of_isLeaf hleaf
      have hnil := t.parts_eq_nil (by rwa [hhead])
      simp [passed, keptStep, productStep, Head.leaf?, hleaf, hnil, withoutDefaultName]
    · simp [passed, keptStep, productStep, Head.leaf?, hleaf, foldl_append_eq]

/-- Every leaf that is kept is written, in order. -/
theorem keptLeaves_sublist {c : Category} (t : Tree c) :
    (t.keptLeaves.map Head.written?).Sublist (t.written.map some) := by
  rw [keptLeaves_eq, written]
  induction t.nodes with
  | nil => exact .slnil
  | cons n ns ih =>
    rw [List.filterMap_cons, List.filterMap_cons]
    rcases hhead : n.2.head? with - | h
    · exact ih
    · by_cases hleaf : h.isLeaf
      · obtain ⟨p, hp⟩ := Option.isSome_iff_exists.mp (h.written?_of_isLeaf hleaf)
        simpa [Head.leaf?, hleaf, hp] using ih
      · simp only [Head.leaf?, hleaf, Option.bind_some]
        cases h.written? with
        | none => exact ih
        | some p => exact ih.cons _

end Tree

/-! ### Programs -/

/-- The template text of a piece. -/
def Piece.rawText? : Piece → Option String
  | .raw text => some text
  | _ => none

/-- The number of a piece. -/
def Piece.number? : Piece → Option Double
  | .number value => some value
  | _ => none

/-- The text of a template text. -/
def Head.rawText? : Head → Option String
  | templateText raw => some raw
  | _ => none

/-- The number that a node is written as: that of a numeric literal or an infinity, or that of a
property name which has the text of a number. -/
def Head.number? : Head → Option Double
  | number value => some value
  | infinity => some (Double.infinity false)
  | staticName value => if isIdentifierName value then none else numberNamed? value
  | _ => none

theorem Head.rawText?_eq (h : Head) : h.rawText? = h.written?.bind Piece.rawText? := by
  cases h with
  | staticName value =>
    show none = (namePiece value).rawText?
    unfold namePiece
    split
    · rfl
    · cases numberNamed? value <;> rfl
  | _ => rfl

theorem Head.number?_eq (h : Head) : h.number? = h.written?.bind Piece.number? := by
  cases h with
  | staticName value =>
    show (if isIdentifierName value then none else numberNamed? value) = (namePiece value).number?
    unfold namePiece
    split
    · rfl
    · cases numberNamed? value <;> rfl
  | _ => rfl

/-- What is read off values only is the same for pieces that are padded. -/
theorem Padded.filterMap_eq {α : Type} {f : Piece → Option α} {ls ps : List Piece}
    (hf : ∀ p, p.isValue = false → f p = none) (h : Padded ls ps) :
    ls.filterMap f = ps.filterMap f := by
  have hvalues (qs : List Piece) : (qs.filter (·.isValue)).filterMap f = qs.filterMap f := by
    rw [List.filterMap_filter]
    refine List.filterMap_congr fun p _ => ?_
    cases hp : p.isValue with
    | true => rfl
    | false => exact (hf p hp).symm
  rw [← hvalues ls, h.values, hvalues]

/-- The leaves of a program, but for names that stand for missing ones, are written in order.  The
template texts among the pieces that writing hands over are those of the tree, and the numbers are
those of numeric literals, infinities and property names, all in order. -/
theorem leaves_sublist_pieces (o : Options) (p : Program) (ho : o.webSafe = false) :
    (p.keptLeaves.map Head.written?).Sublist (((Program.fragment o p).pieces false).map some) ∧
      ((Program.fragment o p).pieces false).filterMap Piece.rawText? =
        p.heads.filterMap Head.rawText? ∧
      ((Program.fragment o p).pieces false).filterMap Piece.number? =
        p.heads.filterMap Head.number? ∧
      (Program.fragment o p).HandsOver := by
  have hpadded : Padded p.written ((Program.fragment o p).pieces false) := by
    have h := p.padded_written
    rw [← Options.spell_eq_id ho] at h
    exact h
  refine ⟨p.keptLeaves_sublist.trans (hpadded.sublist.map some), ?_, ?_, Fragment.handsOver _⟩
  · have hraw : ∀ q : Piece, q.isValue = false → q.rawText? = none := by
      rintro (_ | _ | _ | _ | _ | _ | _) hq <;> first | rfl | cases hq
    rw [← hpadded.filterMap_eq hraw, ← Tree.filterMap_heads rfl]
    exact List.filterMap_congr fun h _ => (h.rawText?_eq).symm
  · have hnumber : ∀ q : Piece, q.isValue = false → q.number? = none := by
      rintro (_ | _ | _ | _ | _ | _ | _) hq <;> first | rfl | cases hq
    rw [← hpadded.filterMap_eq hnumber, ← Tree.filterMap_heads rfl]
    exact List.filterMap_congr fun h _ => (h.number?_eq).symm

/-- A default export of a function without a name, which returns a template with an object in it. -/
theorem leaves_sublist_pieces_default :
    let object : Expression := .object (.cons (.dataProperty (.staticName "2") .infinity) .nil)
    let parts : Tree (.list .templatePart) :=
      .cons (.templateText "x") (.cons (.ofSubstitution object) .nil)
    let body : Tree .functionBody :=
      .functionBody .nil (.cons (.returnStatement (.present (.template .absent parts))) .nil)
    let p : Program := .moduleBody .nil (.cons (.ofExport (.exportDefault (.ofDefaultFunction
      (.function false false (.bindingName "*default*") (.parameters .nil .absent) body)))) .nil)
    p.keptLeaves = [.templateText "x", .staticName "2"] ∧
      (p.keptLeaves.map Head.written?).Sublist (((Program.fragment {} p).pieces false).map some) ∧
      ((Program.fragment {} p).pieces false).filterMap Piece.rawText? = ["x"] ∧
      (((Program.fragment {} p).pieces false).filterMap Piece.number?).length = 2 := by
  intro object parts body p
  obtain ⟨hleaves, hraws, hnumbers, -⟩ := leaves_sublist_pieces {} p rfl
  refine ⟨by decide, hleaves, hraws.trans (by decide), ?_⟩
  rw [hnumbers]
  decide

end EcmaPrinter
