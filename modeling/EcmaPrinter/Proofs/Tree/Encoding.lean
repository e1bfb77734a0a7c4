import EcmaPrinter.Tree.Basic
import EcmaPrinter.Json.Basic

/-!
Trees as JSON: the scheme.

A node is an object with its name as the member `type` and with its fields as further members.  The
order of the members does not matter, and there may be others.  Operators and kinds stand by the
names below.  What is missing is `null`, or no member at all where it would be a field.

`Tree.Encodes` says which JSON values stand for a tree.  It is the description of the scheme, node
by node, and knows nothing of how values are read.
-/

namespace EcmaPrinter

open EcmaPrinter.Number

/-! ### Names of operators and kinds -/

/-- The name of a binary operator. -/
def BinaryOperator.jsonName : BinaryOperator → String
  | equal => "=="
  | notEqual => "!="
  | strictEqual => "==="
  | strictNotEqual => "!=="
  | less => "<"
  | lessEqual => "<="
  | greater => ">"
  | greaterEqual => ">="
  | isIn => "in"
  | instanceOf => "instanceof"
  | shiftLeft => "<<"
  | shiftRight => ">>"
  | shiftRightUnsigned => ">>>"
  | add => "+"
  | subtract => "-"
  | multiply => "*"
  | divide => "/"
  | remainder => "%"
  | power => "**"
  | sequence => ","
  | logicalOr => "||"
  | logicalAnd => "&&"
  | bitOr => "|"
  | bitXor => "^"
  | bitAnd => "&"

/-- The name of an operator that computes and assigns. -/
def AssignmentOperator.jsonName : AssignmentOperator → String
  | add => "+="
  | subtract => "-="
  | multiply => "*="
  | divide => "/="
  | remainder => "%="
  | power => "**="
  | shiftLeft => "<<="
  | shiftRight => ">>="
  | shiftRightUnsigned => ">>>="
  | bitOr => "|="
  | bitXor => "^="
  | bitAnd => "&="

/-- The name of a unary operator. -/
def UnaryOperator.jsonName : UnaryOperator → String
  | plus => "+"
  | minus => "-"
  | logicalNot => "!"
  | bitNot => "~"
  | typeof => "typeof"
  | void => "void"
  | delete => "delete"

/-- The name of an update operator. -/
def UpdateOperator.jsonName : UpdateOperator → String
  | increment => "++"
  | decrement => "--"

/-- The name of a kind of declarations. -/
def DeclarationKind.jsonName : DeclarationKind → String
  | functionScope => "var"
  | blockScope => "let"
  | constant => "const"

/-! ### Members -/

/-- A member of a node: its key, what stands there, and when it may be left out. -/
structure Slot where
  key : String
  holds : Json → Prop
  optional : Prop

namespace Slot

/-- A text. -/
def text (key value : String) : Slot :=
  ⟨key, (· = .string value), False⟩

/-- A text that may be missing. -/
def text? (key : String) (value? : Option String) : Slot :=
  ⟨key, (· = value?.elim .null .string), value? = none⟩

/-- A flag. -/
def flag (key : String) (value : Bool) : Slot :=
  ⟨key, (· = .bool value), False⟩

/-- A finite number, with whatever digits that mean it. -/
def number (key : String) (value : Double) : Slot :=
  ⟨key, fun j => value.isFinite ∧ ∃ d whole, j = .number d whole ∧ d.toDouble = value, False⟩

/-- A tree or a list of trees. -/
def tree (key : String) (holds : Json → Prop) : Slot :=
  ⟨key, holds, False⟩

/-- A tree that may be missing. -/
def tree? (key : String) (holds : Json → Prop) (absent : Prop) : Slot :=
  ⟨key, holds, absent⟩

end Slot

/-- The values of all members with a key. -/
def Json.valuesOf (key : String) (members : List (String × Json)) : List Json :=
  (members.filter (·.1 == key)).map (·.2)

/-- There is one such member, or none where it may be left out. -/
def Slot.Filled (members : List (String × Json)) (s : Slot) : Prop :=
  (∃ j, Json.valuesOf s.key members = [j] ∧ s.holds j) ∨
    (s.optional ∧ Json.valuesOf s.key members = [])

/-- An object with this name and with these members among others. -/
def Json.IsNode (name : String) (slots : List Slot) (j : Json) : Prop :=
  ∃ members, j = .object members ∧ (Slot.text "type" name).Filled members ∧
    ∀ s ∈ slots, s.Filled members

/-! ### Trees -/

namespace Tree

open Json Slot

/-- The JSON values that stand for a tree. -/
def Encodes {c : Category} : Tree c → Json → Prop
  | nil => (· = .array [])
  | cons t ts => fun j => ∃ x xs, j = .array (x :: xs) ∧ t.Encodes x ∧ ts.Encodes (.array xs)
  | absent => (· = .null)
  -- `null` stands for what is missing and for nothing else
  | present t => fun j => j ≠ .null ∧ t.Encodes j
  -- programs and modules
  | script ds ss =>
    IsNode "Script" [tree "directives" ds.Encodes, tree "statements" ss.Encodes]
  | moduleBody ds is =>
    IsNode "Module" [tree "directives" ds.Encodes, tree "items" is.Encodes]
  | directive raw => IsNode "Directive" [text "rawValue" raw]
  | ofImport t => t.Encodes
  | ofExport t => t.Encodes
  | ofStatement t => t.Encodes
  | importNamed d ns m =>
    IsNode "Import" [tree? "defaultBinding" d.Encodes (d = absent),
      tree "namedImports" ns.Encodes, text "moduleSpecifier" m]
  | importNamespace d n m =>
    IsNode "ImportNamespace" [tree? "defaultBinding" d.Encodes (d = absent),
      tree "namespaceBinding" n.Encodes, text "moduleSpecifier" m]
  | importSpecifier n b =>
    IsNode "ImportSpecifier" [text? "name" n, tree "binding" b.Encodes]
  | exportAll m => IsNode "ExportAllFrom" [text "moduleSpecifier" m]
  | exportFrom ns m =>
    IsNode "ExportFrom" [tree "namedExports" ns.Encodes, text "moduleSpecifier" m]
  | exportFromSpecifier n e =>
    IsNode "ExportFromSpecifier" [text "name" n, text? "exportedName" e]
  | exportLocals ns => IsNode "ExportLocals" [tree "namedExports" ns.Encodes]
  | exportLocalSpecifier n e =>
    IsNode "ExportLocalSpecifier" [tree "name" n.Encodes, text? "exportedName" e]
  | exportDeclared d => IsNode "Export" [tree "declaration" d.Encodes]
  | exportDefault b => IsNode "ExportDefault" [tree "body" b.Encodes]
  | ofExportedFunction t => t.Encodes
  | ofExportedClass t => t.Encodes
  | ofExportedVariables t => t.Encodes
  | ofDefaultExpression t => t.Encodes
  | ofDefaultFunction t => t.Encodes
  | ofDefaultClass t => t.Encodes
  -- functions and classes
  | function a g n ps b =>
    IsNode "FunctionDeclaration" [flag "isAsync" a, flag "isGenerator" g, tree "name" n.Encodes,
      tree "params" ps.Encodes, tree "body" b.Encodes]
  | parameters is r =>
    IsNode "FormalParameters" [tree "items" is.Encodes, tree? "rest" r.Encodes (r = absent)]
  | ofBinding t => t.Encodes
  | bindingWithDefault b v =>
    IsNode "BindingWithDefault" [tree "binding" b.Encodes, tree "init" v.Encodes]
  | functionBody ds ss =>
    IsNode "FunctionBody" [tree "directives" ds.Encodes, tree "statements" ss.Encodes]
  | classDeclaration n p es =>
    IsNode "ClassDeclaration" [tree "name" n.Encodes, tree? "super" p.Encodes (p = absent),
      tree "elements" es.Encodes]
  | classElement s m => IsNode "ClassElement" [flag "isStatic" s, tree "method" m.Encodes]
  | method a g n ps b =>
    IsNode "Method" [flag "isAsync" a, flag "isGenerator" g, tree "name" n.Encodes,
      tree "params" ps.Encodes, tree "body" b.Encodes]
  | getter n b => IsNode "Getter" [tree "name" n.Encodes, tree "body" b.Encodes]
  | setter n p b =>
    IsNode "Setter" [tree "name" n.Encodes, tree "param" p.Encodes, tree "body" b.Encodes]
  -- properties
  | computedName e => IsNode "ComputedPropertyName" [tree "expression" e.Encodes]
  | staticName v => IsNode "StaticPropertyName" [text "value" v]
  | dataProperty n v =>
    IsNode "DataProperty" [tree "name" n.Encodes, tree "expression" v.Encodes]
  | shorthandProperty n => IsNode "ShorthandProperty" [tree "name" n.Encodes]
  | ofMethod t => t.Encodes
  -- bindings
  | bindingName n => IsNode "BindingIdentifier" [text "name" n]
  | ofBindingName t => t.Encodes
  | arrayBinding es r =>
    IsNode "ArrayBinding" [tree "elements" es.Encodes, tree? "rest" r.Encodes (r = absent)]
  | objectBinding ps => IsNode "ObjectBinding" [tree "properties" ps.Encodes]
  | bindingShorthand n v =>
    IsNode "BindingPropertyIdentifier" [tree "binding" n.Encodes,
      tree? "init" v.Encodes (v = absent)]
  | bindingProperty n b =>
    IsNode "BindingPropertyProperty" [tree "name" n.Encodes, tree "binding" b.Encodes]
  -- assignment targets
  | ofSimpleTarget t => t.Encodes
  | arrayTarget es r =>
    IsNode "ArrayAssignmentTarget" [tree "elements" es.Encodes,
      tree? "rest" r.Encodes (r = absent)]
  | objectTarget ps => IsNode "ObjectAssignmentTarget" [tree "properties" ps.Encodes]
  | ofTargetName t => t.Encodes
  | staticMemberTarget o p =>
    IsNode "StaticMemberAssignmentTarget" [tree "object" o.Encodes, text "property" p]
  | computedMemberTarget o e =>
    IsNode "ComputedMemberAssignmentTarget" [tree "object" o.Encodes,
      tree "expression" e.Encodes]
  | targetName n => IsNode "AssignmentTargetIdentifier" [text "name" n]
  | ofTarget t => t.Encodes
  | targetWithDefault t v =>
    IsNode "AssignmentTargetWithDefault" [tree "binding" t.Encodes, tree "init" v.Encodes]
  | targetShorthand n v =>
    IsNode "AssignmentTargetPropertyIdentifier" [tree "binding" n.Encodes,
      tree? "init" v.Encodes (v = absent)]
  | targetProperty n t =>
    IsNode "AssignmentTargetPropertyProperty" [tree "name" n.Encodes, tree "binding" t.Encodes]
  -- statements
  | blockStatement b => IsNode "BlockStatement" [tree "block" b.Encodes]
  | breakStatement l => IsNode "BreakStatement" [text? "label" l]
  | continueStatement l => IsNode "ContinueStatement" [text? "label" l]
  | debuggerStatement => IsNode "DebuggerStatement" []
  | doWhile b t => IsNode "DoWhileStatement" [tree "body" b.Encodes, tree "test" t.Encodes]
  | emptyStatement => IsNode "EmptyStatement" []
  | expressionStatement e => IsNode "ExpressionStatement" [tree "expression" e.Encodes]
  | forIn l r b =>
    IsNode "ForInStatement" [tree "left" l.Encodes, tree "right" r.Encodes,
      tree "body" b.Encodes]
  | forOf l r b =>
    IsNode "ForOfStatement" [tree "left" l.Encodes, tree "right" r.Encodes,
      tree "body" b.Encodes]
  | forLoop s t u b =>
    IsNode "ForStatement" [tree? "init" s.Encodes (s = absent),
      tree? "test" t.Encodes (t = absent), tree? "update" u.Encodes (u = absent),
      tree "body" b.Encodes]
  | ifStatement t s a =>
    IsNode "IfStatement" [tree "test" t.Encodes, tree "consequent" s.Encodes,
      tree? "alternate" a.Encodes (a = absent)]
  | labeled l b => IsNode "LabeledStatement" [text "label" l, tree "body" b.Encodes]
  | returnStatement e =>
    IsNode "ReturnStatement" [tree? "expression" e.Encodes (e = absent)]
  | switchStatement d cs =>
    IsNode "SwitchStatement" [tree "discriminant" d.Encodes, tree "cases" cs.Encodes]
  | switchWithDefault d before s after =>
    IsNode "SwitchStatementWithDefault" [tree "discriminant" d.Encodes,
      tree "preDefaultCases" before.Encodes, tree "defaultCase" s.Encodes,
      tree "postDefaultCases" after.Encodes]
  | throwStatement e => IsNode "ThrowStatement" [tree "expression" e.Encodes]
  | tryCatch b s =>
    IsNode "TryCatchStatement" [tree "body" b.Encodes, tree "catchClause" s.Encodes]
  | tryFinally b s f =>
    IsNode "TryFinallyStatement" [tree "body" b.Encodes,
      tree? "catchClause" s.Encodes (s = absent), tree "finalizer" f.Encodes]
  | variableStatement d =>
    IsNode "VariableDeclarationStatement" [tree "declaration" d.Encodes]
  | whileLoop t b => IsNode "WhileStatement" [tree "test" t.Encodes, tree "body" b.Encodes]
  | withStatement o b => IsNode "WithStatement" [tree "object" o.Encodes, tree "body" b.Encodes]
  | ofFunction t => t.Encodes
  | ofClass t => t.Encodes
  | block ss => IsNode "Block" [tree "statements" ss.Encodes]
  | switchCase t ss =>
    IsNode "SwitchCase" [tree "test" t.Encodes, tree "consequent" ss.Encodes]
  | switchDefault ss => IsNode "SwitchDefault" [tree "consequent" ss.Encodes]
  | catchClause b s => IsNode "CatchClause" [tree "binding" b.Encodes, tree "body" s.Encodes]
  | declaration k ds =>
    IsNode "VariableDeclaration" [text "kind" k.jsonName, tree "declarators" ds.Encodes]
  | declarator b v =>
    IsNode "VariableDeclarator" [tree "binding" b.Encodes, tree? "init" v.Encodes (v = absent)]
  | ofLoopTarget t => t.Encodes
  | ofLoopDeclaration t => t.Encodes
  | ofStartExpression t => t.Encodes
  | ofStartDeclaration t => t.Encodes
  -- expressions
  | boolean v => IsNode "LiteralBooleanExpression" [flag "value" v]
  | infinity => IsNode "LiteralInfinityExpression" []
  | null => IsNode "LiteralNullExpression" []
  | number v => IsNode "LiteralNumericExpression" [Slot.number "value" v]
  | regExp p f =>
    IsNode "LiteralRegExpExpression" [text "pattern" p, flag "global" f.global,
      flag "ignoreCase" f.ignoreCase, flag "multiLine" f.multiLine, flag "sticky" f.sticky,
      flag "unicode" f.unicode]
  | string v => IsNode "LiteralStringExpression" [text "value" v]
  | array es => IsNode "ArrayExpression" [tree "elements" es.Encodes]
  | object ps => IsNode "ObjectExpression" [tree "properties" ps.Encodes]
  | functionExpression a g n ps b =>
    IsNode "FunctionExpression" [flag "isAsync" a, flag "isGenerator" g,
      tree? "name" n.Encodes (n = absent), tree "params" ps.Encodes, tree "body" b.Encodes]
  | classExpression n p es =>
    IsNode "ClassExpression" [tree? "name" n.Encodes (n = absent),
      tree? "super" p.Encodes (p = absent), tree "elements" es.Encodes]
  | ofIdentifier t => t.Encodes
  | this => IsNode "ThisExpression" []
  | template t ps =>
    IsNode "TemplateExpression" [tree? "tag" t.Encodes (t = absent), tree "elements" ps.Encodes]
  | newTarget => IsNode "NewTargetExpression" []
  | staticMember o p =>
    IsNode "StaticMemberExpression" [tree "object" o.Encodes, text "property" p]
  | computedMember o e =>
    IsNode "ComputedMemberExpression" [tree "object" o.Encodes, tree "expression" e.Encodes]
  | call f as => IsNode "CallExpression" [tree "callee" f.Encodes, tree "arguments" as.Encodes]
  | construct f as =>
    IsNode "NewExpression" [tree "callee" f.Encodes, tree "arguments" as.Encodes]
  | unary op e => IsNode "UnaryExpression" [text "operator" op.jsonName, tree "operand" e.Encodes]
  | update before op t =>
    IsNode "UpdateExpression" [flag "isPrefix" before, text "operator" op.jsonName,
      tree "operand" t.Encodes]
  | binary l op r =>
    IsNode "BinaryExpression" [tree "left" l.Encodes, text "operator" op.jsonName,
      tree "right" r.Encodes]
  | conditional t a b =>
    IsNode "ConditionalExpression" [tree "test" t.Encodes, tree "consequent" a.Encodes,
      tree "alternate" b.Encodes]
  | assign t v =>
    IsNode "AssignmentExpression" [tree "binding" t.Encodes, tree "expression" v.Encodes]
  | compoundAssign t op v =>
    IsNode "CompoundAssignmentExpression" [tree "binding" t.Encodes, text "operator" op.jsonName,
      tree "expression" v.Encodes]
  | arrow a ps b =>
    IsNode "ArrowExpression" [flag "isAsync" a, tree "params" ps.Encodes,
      tree "body" b.Encodes]
  | await e => IsNode "AwaitExpression" [tree "expression" e.Encodes]
  | yield e => IsNode "YieldExpression" [tree? "expression" e.Encodes (e = absent)]
  | yieldFrom e => IsNode "YieldGeneratorExpression" [tree "expression" e.Encodes]
  | identifier n => IsNode "IdentifierExpression" [text "name" n]
  | ofCallee t => t.Encodes
  | super => IsNode "Super" []
  | ofArgument t => t.Encodes
  | spread e => IsNode "SpreadElement" [tree "expression" e.Encodes]
  | ofSubstitution t => t.Encodes
  | templateText raw => IsNode "TemplateElement" [text "rawValue" raw]
  | ofExpressionBody t => t.Encodes
  | ofFunctionBody t => t.Encodes

end Tree

end EcmaPrinter
