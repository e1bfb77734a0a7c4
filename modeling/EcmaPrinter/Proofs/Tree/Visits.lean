import EcmaPrinter.Proofs.Tree.Nodes
import EcmaPrinter.Tree.Summary
import Mathlib.Data.List.Basic

/-!
Visits, node by node.

A tree has parts, and it is a node of its own or it only passes its parts on.  So a visit of a tree
is known from the visits of its parts (`Tree.visit_eq`), and what is true of every tree whose parts
have it is true of all trees (`Tree.parts_induction`).  In the order of a visit, a node stands right
behind everything inside of it (`Tree.heads_eq`, `Tree.heads_infix`).
-/

namespace EcmaPrinter

namespace Tree

/-! ### Parts -/

/-- The trees that a tree is made of, from left to right. -/
def parts {c : Category} : Tree c → List Node
  | nil | absent | directive _ | exportAll _ | exportFromSpecifier _ _ | staticName _
  | bindingName _ | targetName _ | breakStatement _ | continueStatement _ | debuggerStatement
  | emptyStatement | boolean _ | infinity | null | number _ | regExp _ _ | string _ | this
  | newTarget | identifier _ | super | templateText _ => []
  | present u | ofImport u | ofExport u | ofStatement u | importSpecifier _ u | exportFrom u _
  | exportLocals u | exportLocalSpecifier u _ | exportDeclared u | exportDefault u
  | ofExportedFunction u | ofExportedClass u | ofExportedVariables u | ofDefaultExpression u
  | ofDefaultFunction u | ofDefaultClass u | ofBinding u | classElement _ u | computedName u
  | shorthandProperty u | ofMethod u | ofBindingName u | objectBinding u | ofSimpleTarget u
  | objectTarget u | ofTargetName u | staticMemberTarget u _ | ofTarget u | blockStatement u
  | expressionStatement u | labeled _ u | returnStatement u | throwStatement u
  | variableStatement u | ofFunction u | ofClass u | block u | switchDefault u | declaration _ u
  | ofLoopTarget u | ofLoopDeclaration u | ofStartExpression u | ofStartDeclaration u | array u
  | object u | ofIdentifier u | staticMember u _ | unary _ u | update _ _ u | await u | yield u
  | yieldFrom u | ofCallee u | ofArgument u | spread u | ofSubstitution u | ofExpressionBody u
  | ofFunctionBody u => [⟨_, u⟩]
  | cons u v | script u v | moduleBody u v | importNamed u v _ | importNamespace u v _
  | parameters u v | bindingWithDefault u v | functionBody u v | getter u v | dataProperty u v
  | arrayBinding u v | bindingShorthand u v | bindingProperty u v | arrayTarget u v
  | computedMemberTarget u v | targetWithDefault u v | targetShorthand u v | targetProperty u v
  | doWhile u v | switchStatement u v | tryCatch u v | whileLoop u v | withStatement u v
  | switchCase u v | catchClause u v | declarator u v | template u v | computedMember u v
  | call u v | construct u v | binary u _ v | assign u v | compoundAssign u _ v | arrow _ u v =>
    [⟨_, u⟩, ⟨_, v⟩]
  | function _ _ u v w | classDeclaration u v w | method _ _ u v w | setter u v w | forIn u v w
  | forOf u v w | ifStatement u v w | tryFinally u v w | functionExpression _ _ u v w
  | classExpression u v w | conditional u v w => [⟨_, u⟩, ⟨_, v⟩, ⟨_, w⟩]
  | forLoop u v w x | switchWithDefault u v w x => [⟨_, u⟩, ⟨_, v⟩, ⟨_, w⟩, ⟨_, x⟩]

/-- Is the tree a node?  Lists, optional parts and trees that stand for another are none. -/
def isNode {c : Category} : Tree c → Bool
  | nil | cons _ _ | absent | present _ | ofImport _ | ofExport _ | ofStatement _
  | ofExportedFunction _ | ofExportedClass _ | ofExportedVariables _ | ofDefaultExpression _
  | ofDefaultFunction _ | ofDefaultClass _ | ofBinding _ | ofMethod _ | ofBindingName _
  | ofSimpleTarget _ | ofTargetName _ | ofTarget _ | ofFunction _ | ofClass _ | ofLoopTarget _
  | ofLoopDeclaration _ | ofStartExpression _ | ofStartDeclaration _ | ofIdentifier _
  | ofCallee _ | ofArgument _ | ofSubstitution _ | ofExpressionBody _ | ofFunctionBody _ =>
    false
  | _ => true

/-- Is the tree a declaration whose name stands for a missing one? -/
def isUnnamed {c : Category} : Tree c → Bool
  | function _ _ n _ _ | classDeclaration n _ _ => n.isDefaultName
  | _ => false

/-- The parts of a tree, without a name that stands for a missing one. -/
def namedParts {c : Category} (t : Tree c) : List Node :=
  if t.isUnnamed then t.parts.tail else t.parts

/-- The head of a node. -/
def head? {c : Category} (t : Tree c) : Option Head :=
  if t.isNode then (t.visit fun h _ => h).head? else none

variable {c : Category}

/-- What a tree has if its parts have it, all trees have. -/
theorem parts_induction {P : Node → Prop}
    (step : ∀ {c : Category} (t : Tree c), (∀ n ∈ t.parts, P n) → P ⟨c, t⟩) (t : Tree c) :
    P ⟨c, t⟩ := by
  induction t with
  | nil | absent | directive | exportAll | exportFromSpecifier | staticName | bindingName
  | targetName | breakStatement | continueStatement | debuggerStatement | emptyStatement
  | boolean | infinity | null | number | regExp | string | this | newTarget | identifier | super
  | templateText => exact step _ (List.forall_mem_nil _)
  | present _ ihu | ofImport _ ihu | ofExport _ ihu | ofStatement _ ihu | importSpecifier _ _ ihu
  | exportFrom _ _ ihu | exportLocals _ ihu | exportLocalSpecifier _ _ ihu | exportDeclared _ ihu
  | exportDefault _ ihu | ofExportedFunction _ ihu | ofExportedClass _ ihu
  | ofExportedVariables _ ihu | ofDefaultExpression _ ihu | ofDefaultFunction _ ihu
  | ofDefaultClass _ ihu | ofBinding _ ihu | classElement _ _ ihu | computedName _ ihu
  | shorthandProperty _ ihu | ofMethod _ ihu | ofBindingName _ ihu | objectBinding _ ihu
  | ofSimpleTarget _ ihu | objectTarget _ ihu | ofTargetName _ ihu | staticMemberTarget _ _ ihu
  | ofTarget _ ihu | blockStatement _ ihu | expressionStatement _ ihu | labeled _ _ ihu
  | returnStatement _ ihu | throwStatement _ ihu | variableStatement _ ihu | ofFunction _ ihu
  | ofClass _ ihu | block _ ihu | switchDefault _ ihu | declaration _ _ ihu | ofLoopTarget _ ihu
  | ofLoopDeclaration _ ihu | ofStartExpression _ ihu | ofStartDeclaration _ ihu | array _ ihu
  | object _ ihu | ofIdentifier _ ihu | staticMember _ _ ihu | unary _ _ ihu | update _ _ _ ihu
  | await _ ihu | yield _ ihu | yieldFrom _ ihu | ofCallee _ ihu | ofArgument _ ihu
  | spread _ ihu | ofSubstitution _ ihu | ofExpressionBody _ ihu | ofFunctionBody _ ihu =>
    exact step _ (List.forall_mem_singleton.mpr ihu)
  | cons _ _ ihu ihv | script _ _ ihu ihv | moduleBody _ _ ihu ihv | importNamed _ _ _ ihu ihv
  | importNamespace _ _ _ ihu ihv | parameters _ _ ihu ihv | bindingWithDefault _ _ ihu ihv
  | functionBody _ _ ihu ihv | getter _ _ ihu ihv | dataProperty _ _ ihu ihv
  | arrayBinding _ _ ihu ihv | bindingShorthand _ _ ihu ihv | bindingProperty _ _ ihu ihv
  | arrayTarget _ _ ihu ihv | computedMemberTarget _ _ ihu ihv | targetWithDefault _ _ ihu ihv
  | targetShorthand _ _ ihu ihv | targetProperty _ _ ihu ihv | doWhile _ _ ihu ihv
  | switchStatement _ _ ihu ihv | tryCatch _ _ ihu ihv | whileLoop _ _ ihu ihv
  | withStatement _ _ ihu ihv | switchCase _ _ ihu ihv | catchClause _ _ ihu ihv
  | declarator _ _ ihu ihv | template _ _ ihu ihv | computedMember _ _ ihu ihv | call _ _ ihu ihv
  | construct _ _ ihu ihv | binary _ _ _ ihu ihv | assign _ _ ihu ihv
  | compoundAssign _ _ _ ihu ihv | arrow _ _ _ ihu ihv =>
    exact step _ (List.forall_mem_cons.mpr ⟨ihu, List.forall_mem_singleton.mpr ihv⟩)
  | function _ _ _ _ _ ihu ihv ihw | classDeclaration _ _ _ ihu ihv ihw
  | method _ _ _ _ _ ihu ihv ihw | setter _ _ _ ihu ihv ihw | forIn _ _ _ ihu ihv ihw
  | forOf _ _ _ ihu ihv ihw | ifStatement _ _ _ ihu ihv ihw | tryFinally _ _ _ ihu ihv ihw
  | functionExpression _ _ _ _ _ ihu ihv ihw | classExpression _ _ _ ihu ihv ihw
  | conditional _ _ _ ihu ihv ihw =>
    exact step _ (List.forall_mem_cons.mpr
      ⟨ihu, List.forall_mem_cons.mpr ⟨ihv, List.forall_mem_singleton.mpr ihw⟩⟩)
  | forLoop _ _ _ _ ihu ihv ihw ihx | switchWithDefault _ _ _ _ ihu ihv ihw ihx =>
    exact step _ (List.forall_mem_cons.mpr ⟨ihu, List.forall_mem_cons.mpr
      ⟨ihv, List.forall_mem_cons.mpr ⟨ihw, List.forall_mem_singleton.mpr ihx⟩⟩⟩)

/-- The results of the children of a node, as the steps of a visit. -/
def passed {α : Type} (step : Head → List α → α) (h? : Option Head) (xs : List α) : List α :=
  match h? with
  | some h => [step h xs]
  | none => xs

/-- A visit of a tree goes through its parts and then, if the tree is a node, to the tree. -/
theorem visit_eq {α : Type} (step : Head → List α → α) (t : Tree c) :
    t.visit step = passed step t.head? (t.parts.flatMap (·.2.visit step)) := by
  have hone (n : Node) : [n].flatMap (·.2.visit step) = n.2.visit step := by simp
  have htwo (m n : Node) : [m, n].flatMap (·.2.visit step) = m.2.visit step ++ n.2.visit step := by
    simp
  have hthree (l m n : Node) : [l, m, n].flatMap (·.2.visit step) =
      l.2.visit step ++ m.2.visit step ++ n.2.visit step := by
    simp
  have hfour (k l m n : Node) : [k, l, m, n].flatMap (·.2.visit step) =
      k.2.visit step ++ l.2.visit step ++ m.2.visit step ++ n.2.visit step := by
    simp
  have of_parts {xs : List α} (hparts : t.parts.flatMap (·.2.visit step) = xs)
      (h : t.visit step = passed step t.head? xs) :
      t.visit step = passed step t.head? (t.parts.flatMap (·.2.visit step)) := hparts ▸ h
  cases t with
  | nil | absent | directive | exportAll | exportFromSpecifier | staticName | bindingName
  | targetName | breakStatement | continueStatement | debuggerStatement | emptyStatement
  | boolean | infinity | null | number | regExp | string | this | newTarget | identifier | super
  | templateText => exact rfl
  | present | ofImport | ofExport | ofStatement | importSpecifier | exportFrom | exportLocals
  | exportLocalSpecifier | exportDeclared | exportDefault | ofExportedFunction | ofExportedClass
  | ofExportedVariables | ofDefaultExpression | ofDefaultFunction | ofDefaultClass | ofBinding
  | classElement | computedName | shorthandProperty | ofMethod | ofBindingName | objectBinding
  | ofSimpleTarget | objectTarget | ofTargetName | staticMemberTarget | ofTarget | blockStatement
  | expressionStatement | labeled | returnStatement | throwStatement | variableStatement
  | ofFunction | ofClass | block | switchDefault | declaration | ofLoopTarget | ofLoopDeclaration
  | ofStartExpression | ofStartDeclaration | array | object | ofIdentifier | staticMember | unary
  | update | await | yield | yieldFrom | ofCallee | ofArgument | spread | ofSubstitution
  | ofExpressionBody | ofFunctionBody => exact of_parts (hone _) rfl
  | cons | script | moduleBody | importNamed | importNamespace | parameters | bindingWithDefault
  | functionBody | getter | dataProperty | arrayBinding | bindingShorthand | bindingProperty
  | arrayTarget | computedMemberTarget | targetWithDefault | targetShorthand | targetProperty
  | doWhile | switchStatement | tryCatch | whileLoop | withStatement | switchCase | catchClause
  | declarator | template | computedMember | call | construct | binary | assign | compoundAssign
  | arrow => exact of_parts (htwo _ _) rfl
  | function | classDeclaration | method | setter | forIn | forOf | ifStatement | tryFinally
  | functionExpression | classExpression | conditional => exact of_parts (hthree _ _ _) rfl
  | forLoop | switchWithDefault => exact of_parts (hfour _ _ _ _) rfl

/-- The nodes of a tree are those of its parts, but for a name that stands for a missing one. -/
theorem nodes_eq (t : Tree c) : t.nodes = ⟨c, t⟩ :: t.namedParts.flatMap (·.2.nodes) := by
  have hone (n : Node) : [n].flatMap (·.2.nodes) = n.2.nodes := by simp
  have htwo (m n : Node) : [m, n].flatMap (·.2.nodes) = m.2.nodes ++ n.2.nodes := by simp
  have hthree (l m n : Node) :
      [l, m, n].flatMap (·.2.nodes) = l.2.nodes ++ m.2.nodes ++ n.2.nodes := by simp
  have hfour (k l m n : Node) :
      [k, l, m, n].flatMap (·.2.nodes) = k.2.nodes ++ l.2.nodes ++ m.2.nodes ++ n.2.nodes := by
    simp
  have of_parts {ns : List Node} (hparts : t.namedParts.flatMap (·.2.nodes) = ns)
      (h : t.nodes = ⟨c, t⟩ :: ns) : t.nodes = ⟨c, t⟩ :: t.namedParts.flatMap (·.2.nodes) :=
    hparts ▸ h
  cases t with
  | function _ _ u v w | classDeclaration u v w =>
    show _ :: ((if u.isDefaultName then [] else u.nodes) ++ _ ++ _) =
      _ :: List.flatMap (fun n : Node => n.2.nodes)
        (if u.isDefaultName then [⟨_, v⟩, ⟨_, w⟩] else [⟨_, u⟩, ⟨_, v⟩, ⟨_, w⟩])
    cases u.isDefaultName with
    | true => exact congrArg _ (htwo ⟨_, v⟩ ⟨_, w⟩).symm
    | false => exact congrArg _ (hthree ⟨_, u⟩ ⟨_, v⟩ ⟨_, w⟩).symm
  | nil | absent | directive | exportAll | exportFromSpecifier | staticName | bindingName
  | targetName | breakStatement | continueStatement | debuggerStatement | emptyStatement
  | boolean | infinity | null | number | regExp | string | this | newTarget | identifier | super
  | templateText => exact rfl
  | present | ofImport | ofExport | ofStatement | importSpecifier | exportFrom | exportLocals
  | exportLocalSpecifier | exportDeclared | exportDefault | ofExportedFunction | ofExportedClass
  | ofExportedVariables | ofDefaultExpression | ofDefaultFunction | ofDefaultClass | ofBinding
  | classElement | computedName | shorthandProperty | ofMethod | ofBindingName | objectBinding
  | ofSimpleTarget | objectTarget | ofTargetName | staticMemberTarget | ofTarget | blockStatement
  | expressionStatement | labeled | returnStatement | throwStatement | variableStatement
  | ofFunction | ofClass | block | switchDefault | declaration | ofLoopTarget | ofLoopDeclaration
  | ofStartExpression | ofStartDeclaration | array | object | ofIdentifier | staticMember | unary
  | update | await | yield | yieldFrom | ofCallee | ofArgument | spread | ofSubstitution
  | ofExpressionBody | ofFunctionBody => exact of_parts (hone _) rfl
  | cons | script | moduleBody | importNamed | importNamespace | parameters | bindingWithDefault
  | functionBody | getter | dataProperty | arrayBinding | bindingShorthand | bindingProperty
  | arrayTarget | computedMemberTarget | targetWithDefault | targetShorthand | targetProperty
  | doWhile | switchStatement | tryCatch | whileLoop | withStatement | switchCase | catchClause
  | declarator | template | computedMember | call | construct | binary | assign | compoundAssign
  | arrow => exact of_parts (htwo _ _) rfl
  | method | setter | forIn | forOf | ifStatement | tryFinally | functionExpression
  | classExpression | conditional => exact of_parts (hthree _ _ _) rfl
  | forLoop | switchWithDefault => exact of_parts (hfour _ _ _ _) rfl

theorem infix_flatMap {α β : Type} (f : α → List β) {x : α} {xs : List α} (h : x ∈ xs) :
    f x <:+: xs.flatMap f :=
  List.infix_of_mem_flatten (List.mem_map_of_mem h)

theorem namedParts_subset (t : Tree c) : t.namedParts ⊆ t.parts := by
  unfold namedParts
  split
  · exact (List.tail_sublist _).subset
  · exact List.Subset.refl _

theorem mem_namedParts {t : Tree c} {m : Node} (hm : m ∈ t.parts) :
    m ∈ t.namedParts ∨ m = ⟨_, bindingName defaultName⟩ := by
  cases t with
  | function _ _ u v w | classDeclaration u v w =>
    cases u with | bindingName name =>
    by_cases hname : name = defaultName
    · rcases List.mem_cons.mp hm with rfl | hm
      · exact .inr (hname ▸ rfl)
      · left
        unfold namedParts
        split
        · exact hm
        · exact List.mem_cons_of_mem _ hm
    · left
      rwa [namedParts, if_neg]
      exact fun h => hname (beq_iff_eq.mp h)
  | _ => exact .inl hm

/-- What is inside of a tree is the tree itself or inside of a part. -/
theorem mem_nodes {t : Tree c} {n : Node} (h : n ∈ t.nodes) :
    n = ⟨c, t⟩ ∨ ∃ m ∈ t.parts, n ∈ m.2.nodes := by
  rw [nodes_eq, List.mem_cons, List.mem_flatMap] at h
  exact h.imp id fun ⟨m, hm, hn⟩ => ⟨m, t.namedParts_subset hm, hn⟩

theorem nodes_of_mem_parts {t : Tree c} {m : Node} (hm : m ∈ t.parts) :
    m.2.nodes ⊆ t.nodes ∨ m = ⟨_, bindingName defaultName⟩ := by
  refine (mem_namedParts hm).imp (fun hm => ?_) id
  rw [nodes_eq t]
  exact List.subset_cons_of_subset _ (infix_flatMap (·.2.nodes) hm).subset

/-! ### The order of a visit -/

theorem heads_eq_flatMap (t : Tree c) : t.heads = (t.visit traceStep).flatMap (·.map (·.1)) := by
  simp [heads, trace, List.map_flatten, List.flatMap_def]

/-- In the order of a visit, a node stands behind everything inside of it. -/
theorem heads_eq (t : Tree c) : t.heads = t.parts.flatMap (·.2.heads) ++ t.head?.toList := by
  have hparts : (t.parts.flatMap (·.2.visit traceStep)).flatMap (·.map (·.1)) =
      t.parts.flatMap (·.2.heads) := by
    simp only [List.flatMap_assoc, heads_eq_flatMap]
  rw [heads_eq_flatMap, visit_eq, ← hparts]
  cases t.head? with
  | none => simp [passed]
  | some h => simp [passed, traceStep, List.map_flatten, List.flatMap_def]

/-- What is inside of a tree is visited in one go. -/
theorem heads_infix (t : Tree c) : ∀ n ∈ t.nodes, n.2.heads <:+: t.heads := by
  refine parts_induction (P := fun m => ∀ n ∈ m.2.nodes, n.2.heads <:+: m.2.heads) ?_ t
  intro c t ih n hn
  rcases mem_nodes hn with rfl | ⟨m, hm, hn⟩
  · exact List.infix_rfl
  · have hpart : m.2.heads <:+: t.parts.flatMap (·.2.heads) :=
      infix_flatMap (·.2.heads) hm
    rw [heads_eq t]
    exact (ih m hm n hn).trans (hpart.trans (List.prefix_append _ _).isInfix)

end Tree

end EcmaPrinter
