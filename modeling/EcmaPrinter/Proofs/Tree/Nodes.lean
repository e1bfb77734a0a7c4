import EcmaPrinter.Tree.Precedence

/-!
The trees inside of a tree.

`nodes` lists a tree and everything below it, lists and optional parts included.  A statement about
all statements, names or templates of a program is a statement about its nodes.
-/

namespace EcmaPrinter

/-- A tree with its category. -/
abbrev Node := (c : Category) × Tree c

namespace Tree

/-- A tree and all trees inside of it.  A name that stands for a missing one is not in the code, so
it is not listed. -/
def nodes {c : Category} : Tree c → List Node
  -- no parts
  | t@nil | t@absent | t@(directive _) | t@(exportAll _) | t@(exportFromSpecifier _ _)
  | t@(staticName _) | t@(bindingName _) | t@(targetName _) | t@(breakStatement _)
  | t@(continueStatement _) | t@debuggerStatement | t@emptyStatement | t@(boolean _) | t@infinity
  | t@null | t@(number _) | t@(regExp _ _) | t@(string _) | t@this | t@newTarget
  | t@(identifier _) | t@super | t@(templateText _) => [⟨_, t⟩]
  -- one part
  | t@(present u) | t@(ofImport u) | t@(ofExport u) | t@(ofStatement u) | t@(importSpecifier _ u)
  | t@(exportFrom u _) | t@(exportLocals u) | t@(exportLocalSpecifier u _) | t@(exportDeclared u)
  | t@(exportDefault u) | t@(ofExportedFunction u) | t@(ofExportedClass u)
  | t@(ofExportedVariables u) | t@(ofDefaultExpression u) | t@(ofDefaultFunction u)
  | t@(ofDefaultClass u) | t@(ofBinding u) | t@(classElement _ u) | t@(computedName u)
  | t@(shorthandProperty u) | t@(ofMethod u) | t@(ofBindingName u) | t@(objectBinding u)
  | t@(ofSimpleTarget u) | t@(objectTarget u) | t@(ofTargetName u) | t@(staticMemberTarget u _)
  | t@(ofTarget u) | t@(blockStatement u) | t@(expressionStatement u) | t@(labeled _ u)
  | t@(returnStatement u) | t@(throwStatement u) | t@(variableStatement u) | t@(ofFunction u)
  | t@(ofClass u) | t@(block u) | t@(switchDefault u) | t@(declaration _ u) | t@(ofLoopTarget u)
  | t@(ofLoopDeclaration u) | t@(ofStartExpression u) | t@(ofStartDeclaration u) | t@(array u)
  | t@(object u) | t@(ofIdentifier u) | t@(staticMember u _) | t@(unary _ u) | t@(update _ _ u)
  | t@(await u) | t@(yield u) | t@(yieldFrom u) | t@(ofCallee u) | t@(ofArgument u)
  | t@(spread u) | t@(ofSubstitution u) | t@(ofExpressionBody u) | t@(ofFunctionBody u) =>
    ⟨_, t⟩ :: u.nodes
  -- two parts
  | t@(cons u v) | t@(script u v) | t@(moduleBody u v) | t@(importNamed u v _)
  | t@(importNamespace u v _) | t@(parameters u v) | t@(bindingWithDefault u v)
  | t@(functionBody u v) | t@(getter u v) | t@(dataProperty u v) | t@(arrayBinding u v)
  | t@(bindingShorthand u v) | t@(bindingProperty u v) | t@(arrayTarget u v)
  | t@(computedMemberTarget u v) | t@(targetWithDefault u v) | t@(targetShorthand u v)
  | t@(targetProperty u v) | t@(doWhile u v) | t@(switchStatement u v) | t@(tryCatch u v)
  | t@(whileLoop u v) | t@(withStatement u v) | t@(switchCase u v) | t@(catchClause u v)
  | t@(declarator u v) | t@(template u v) | t@(computedMember u v) | t@(call u v)
  | t@(construct u v) | t@(binary u _ v) | t@(assign u v) | t@(compoundAssign u _ v)
  | t@(arrow _ u v) => ⟨_, t⟩ :: (u.nodes ++ v.nodes)
  -- three and four parts
  | t@(function _ _ u v w) | t@(classDeclaration u v w) =>
    ⟨_, t⟩ :: ((if u.isDefaultName then [] else u.nodes) ++ v.nodes ++ w.nodes)
  | t@(method _ _ u v w) | t@(setter u v w) | t@(forIn u v w) | t@(forOf u v w)
  | t@(ifStatement u v w) | t@(tryFinally u v w) | t@(functionExpression _ _ u v w)
  | t@(classExpression u v w) | t@(conditional u v w) =>
    ⟨_, t⟩ :: (u.nodes ++ v.nodes ++ w.nodes)
  | t@(forLoop u v w x) | t@(switchWithDefault u v w x) =>
    ⟨_, t⟩ :: (u.nodes ++ v.nodes ++ w.nodes ++ x.nodes)

theorem self_mem_nodes {c : Category} (t : Tree c) : ⟨c, t⟩ ∈ t.nodes := by
  cases t <;> exact List.mem_cons_self

/-! ### Names -/

/-- The names that a tree has besides those of its parts.  They are written as they are; the literal
names of properties are not among them, for those are quoted where they have to be. -/
def ownNames {c : Category} : Tree c → List String
  | bindingName name | targetName name | identifier name | staticMember _ name
  | staticMemberTarget _ name | labeled name _ => [name]
  | breakStatement name? | continueStatement name? | importSpecifier name? _
  | exportLocalSpecifier _ name? => name?.toList
  | exportFromSpecifier name exported? => name :: exported?.toList
  | _ => []

/-- All names in a tree have the property. -/
def AllNames (P : String → Prop) {c : Category} (t : Tree c) : Prop :=
  ∀ n ∈ t.nodes, ∀ name ∈ n.2.ownNames, P name

instance {P : String → Prop} [DecidablePred P] {c : Category} (t : Tree c) :
    Decidable (t.AllNames P) :=
  inferInstanceAs (Decidable (∀ n ∈ t.nodes, ∀ name ∈ n.2.ownNames, P name))

/-! ### Nodes of nodes -/

/-- A list of nodes that has everything below its members. -/
def IsClosed (ns : List Node) : Prop :=
  ∀ n ∈ ns, n.2.nodes ⊆ ns

theorem isClosed_nil : IsClosed [] := List.forall_mem_nil _

theorem IsClosed.append {ms ns : List Node} (hm : IsClosed ms) (hn : IsClosed ns) :
    IsClosed (ms ++ ns) := by
  intro n h
  rcases List.mem_append.mp h with h | h
  · exact List.subset_append_of_subset_left ns (hm n h)
  · exact List.subset_append_of_subset_right ms (hn n h)

theorem IsClosed.ite {ns : List Node} (h : IsClosed ns) (b : Bool) :
    IsClosed (if b then [] else ns) := by
  cases b
  · exact h
  · exact isClosed_nil

theorem IsClosed.cons {c : Category} {t : Tree c} {ns : List Node} (h : IsClosed ns)
    (ht : t.nodes = ⟨c, t⟩ :: ns) : IsClosed t.nodes := by
  intro n hn
  rw [ht] at hn ⊢
  rcases List.mem_cons.mp hn with rfl | hn
  · exact fun m hm => ht ▸ hm
  · exact List.subset_cons_of_subset _ (h n hn)

/-- What is inside of a part is inside of the whole. -/
theorem isClosed_nodes {c : Category} (t : Tree c) : IsClosed t.nodes := by
  induction t <;> refine IsClosed.cons ?_ rfl <;> first
    | exact isClosed_nil
    | assumption
    | exact .append (by assumption) (by assumption)
    | exact .append (.append (by assumption) (by assumption)) (by assumption)
    | exact .append (.append (.ite (by assumption) _) (by assumption)) (by assumption)
    | exact .append (.append (.append (by assumption) (by assumption)) (by assumption))
        (by assumption)

/-! ### Parameter lists of one name -/

theorem exists_of_isSingleName {ps : Tree .parameters} (h : ps.isSingleName) :
    ∃ name, ps = parameters (cons (ofBinding (ofBindingName (bindingName name))) nil) absent := by
  cases ps with | parameters is r =>
  cases is with
  | nil => cases h
  | cons b bs =>
    cases b with
    | bindingWithDefault => cases h
    | ofBinding b =>
      cases b with
      | arrayBinding | objectBinding => cases h
      | ofBindingName n =>
        cases bs with
        | cons => cases h
        | nil =>
          cases r with
          | present => cases h
          | absent => cases n with | bindingName name => exact ⟨name, rfl⟩

end Tree

/-! ### Properties of all nodes -/

section

variable {P : Node → Prop} {n : Node} {us vs ws xs : List Node}

/-- A property of a node and of everything in its parts. -/
theorem forall_mem_one (hn : P n)
    (hu : ∀ m ∈ us, P m) : ∀ m ∈ n :: us, P m :=
  List.forall_mem_cons.mpr ⟨hn, hu⟩

theorem forall_mem_two (hn : P n)
    (hu : ∀ m ∈ us, P m) (hv : ∀ m ∈ vs, P m) : ∀ m ∈ n :: (us ++ vs), P m :=
  forall_mem_one hn (List.forall_mem_append.mpr ⟨hu, hv⟩)

theorem forall_mem_three (hn : P n)
    (hu : ∀ m ∈ us, P m) (hv : ∀ m ∈ vs, P m) (hw : ∀ m ∈ ws, P m) :
    ∀ m ∈ n :: (us ++ vs ++ ws), P m :=
  forall_mem_two hn (List.forall_mem_append.mpr ⟨hu, hv⟩) hw

theorem forall_mem_four (hn : P n)
    (hu : ∀ m ∈ us, P m) (hv : ∀ m ∈ vs, P m) (hw : ∀ m ∈ ws, P m) (hx : ∀ m ∈ xs, P m) :
    ∀ m ∈ n :: (us ++ vs ++ ws ++ xs), P m :=
  forall_mem_three hn (List.forall_mem_append.mpr ⟨hu, hv⟩) hw hx

/-- What is true of a node and its parts is true of the parts. -/
theorem part_of_one (h : ∀ m ∈ n :: us, P m) : ∀ m ∈ us, P m :=
  (List.forall_mem_cons.mp h).2

theorem parts_of_two (h : ∀ m ∈ n :: (us ++ vs), P m) : (∀ m ∈ us, P m) ∧ ∀ m ∈ vs, P m :=
  List.forall_mem_append.mp (part_of_one h)

theorem parts_of_three (h : ∀ m ∈ n :: (us ++ vs ++ ws), P m) :
    (∀ m ∈ us, P m) ∧ (∀ m ∈ vs, P m) ∧ ∀ m ∈ ws, P m := by
  obtain ⟨huv, hw⟩ := List.forall_mem_append.mp (part_of_one h)
  obtain ⟨hu, hv⟩ := List.forall_mem_append.mp huv
  exact ⟨hu, hv, hw⟩

theorem parts_of_four (h : ∀ m ∈ n :: (us ++ vs ++ ws ++ xs), P m) :
    (∀ m ∈ us, P m) ∧ (∀ m ∈ vs, P m) ∧ (∀ m ∈ ws, P m) ∧ ∀ m ∈ xs, P m := by
  obtain ⟨huvw, hx⟩ := List.forall_mem_append.mp (part_of_one h)
  obtain ⟨huv, hw⟩ := List.forall_mem_append.mp huvw
  obtain ⟨hu, hv⟩ := List.forall_mem_append.mp huv
  exact ⟨hu, hv, hw, hx⟩

end

end EcmaPrinter
