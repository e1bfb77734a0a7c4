import EcmaPrinter.Tree.Basic

/-!
Shapes: the nodes of each category with their names and fields, as they are written in JSON.

A shape is a name, a list of named fields and a function that builds the tree from the values of
the fields.  `form` gives the shapes that can stand in the place of each category.
-/

namespace EcmaPrinter

open EcmaPrinter.Number

/-! ### Fields -/

/-- What a field can hold. -/
inductive Kind where
  | text
  | optionalText
  | flag
  | number
  | binaryOperator
  | assignmentOperator
  | unaryOperator
  | updateOperator
  | declarationKind
  | tree (c : Category)
  deriving DecidableEq, Repr

/-- The values of a field. -/
@[reducible]
def Kind.Value : Kind → Type
  | .text => String
  | .optionalText => Option String
  | .flag => Bool
  | .number => Double
  | .binaryOperator => BinaryOperator
  | .assignmentOperator => AssignmentOperator
  | .unaryOperator => UnaryOperator
  | .updateOperator => UpdateOperator
  | .declarationKind => DeclarationKind
  | .tree c => Tree c

/-- A field: its name and what it holds. -/
abbrev Field := String × Kind

/-- The values of a list of fields. -/
@[reducible]
def Values : List Field → Type
  | [] => Unit
  | (_, kind) :: fields => kind.Value × Values fields

/-! ### Shapes and forms -/

/-- A node of a category: its name, its fields in order, and the tree it stands for. -/
structure Shape (c : Category) where
  name : String
  fields : List Field
  build : Values fields → Tree c

/-- The same node where another category is wanted. -/
def Shape.map {c d : Category} (f : Tree c → Tree d) (s : Shape c) : Shape d :=
  ⟨s.name, s.fields, fun vs => f (s.build vs)⟩

/-- A category all of whose trees can stand for trees of another one. -/
structure Whole (c : Category) where
  {category : Category}
  embed : Tree category → Tree c

/-- What can stand in the place of a category. -/
inductive Form (c : Category) where
  /-- One of several nodes, told apart by their names. -/
  | tagged (shapes : List (Shape c))
  /-- One node, whatever name is given. -/
  | plain (shape : Shape c)
  /-- A tree of one of several other categories, or else one of some further nodes, which are
  given with their names. -/
  | union (wholes : List (Whole c)) (arms : List (Shape c))
  /-- Lists and optional trees are no nodes. -/
  | noNode

namespace Shape

/-! ### Modules -/

/-- A script: directives, then statements. -/
def script : Shape .program :=
  ⟨"Script", [("directives", .tree (.list .directive)), ("statements", .tree (.list .statement))],
    fun (ds, ss, ()) => .script ds ss⟩

/-- A module: directives, then imports, exports and statements. -/
def moduleBody : Shape .program :=
  ⟨"Module", [("directives", .tree (.list .directive)), ("items", .tree (.list .moduleItem))],
    fun (ds, is, ()) => .moduleBody ds is⟩

/-- A directive such as `"use strict"`, with the text between the quotes. -/
def directive : Shape .directive :=
  ⟨"Directive", [("rawValue", .text)], fun (raw, ()) => .directive raw⟩

/-- Shape of `import a, {b} from "m"`. -/
def importNamed : Shape .importDeclaration :=
  ⟨"Import",
    [("defaultBinding", .tree (.option .bindingName)),
     ("namedImports", .tree (.list .importSpecifier)), ("moduleSpecifier", .text)],
    fun (d, ns, m, ()) => .importNamed d ns m⟩

/-- Shape of `import a, * as b from "m"`. -/
def importNamespace : Shape .importDeclaration :=
  ⟨"ImportNamespace",
    [("defaultBinding", .tree (.option .bindingName)), ("namespaceBinding", .tree .bindingName),
     ("moduleSpecifier", .text)],
    fun (d, n, m, ()) => .importNamespace d n m⟩

/-- The `a as b` of an import; without a name, `b` alone. -/
def importSpecifier : Shape .importSpecifier :=
  ⟨"ImportSpecifier", [("name", .optionalText), ("binding", .tree .bindingName)],
    fun (n, b, ()) => .importSpecifier n b⟩

/-- Shape of `export * from "m"`. -/
def exportAll : Shape .exportDeclaration :=
  ⟨"ExportAllFrom", [("moduleSpecifier", .text)], fun (m, ()) => .exportAll m⟩

/-- Shape of `export {a} from "m"`. -/
def exportFrom : Shape .exportDeclaration :=
  ⟨"ExportFrom",
    [("namedExports", .tree (.list .exportFromSpecifier)), ("moduleSpecifier", .text)],
    fun (ns, m, ()) => .exportFrom ns m⟩

/-- The `a as b` of an export from another module. -/
def exportFromSpecifier : Shape .exportFromSpecifier :=
  ⟨"ExportFromSpecifier", [("name", .text), ("exportedName", .optionalText)],
    fun (n, e, ()) => .exportFromSpecifier n e⟩

/-- Shape of `export {a}`. -/
def exportLocals : Shape .exportDeclaration :=
  ⟨"ExportLocals", [("namedExports", .tree (.list .exportLocalSpecifier))],
    fun (ns, ()) => .exportLocals ns⟩

/-- The `a as b` of an export of local names. -/
def exportLocalSpecifier : Shape .exportLocalSpecifier :=
  ⟨"ExportLocalSpecifier", [("name", .tree .identifier), ("exportedName", .optionalText)],
    fun (n, e, ()) => .exportLocalSpecifier n e⟩

/-- Shape of `export` before a declaration. -/
def exportDeclared : Shape .exportDeclaration :=
  ⟨"Export", [("declaration", .tree .exportable)], fun (d, ()) => .exportDeclared d⟩

/-- Shape of `export default` before a function, a class or an expression. -/
def exportDefault : Shape .exportDeclaration :=
  ⟨"ExportDefault", [("body", .tree .defaultExport)], fun (b, ()) => .exportDefault b⟩

/-! ### Functions and classes -/

/-- Shape of `function f() {}` as a declaration. -/
def function : Shape .function :=
  ⟨"FunctionDeclaration",
    [("isAsync", .flag), ("isGenerator", .flag), ("name", .tree .bindingName),
     ("params", .tree .parameters), ("body", .tree .functionBody)],
    fun (a, g, n, ps, b, ()) => .function a g n ps b⟩

/-- The parameters of a function, with an optional rest. -/
def parameters : Shape .parameters :=
  ⟨"FormalParameters",
    [("items", .tree (.list .parameter)), ("rest", .tree (.option .binding))],
    fun (is, r, ()) => .parameters is r⟩

/-- The parameter or element `a = v`. -/
def bindingWithDefault : Shape .parameter :=
  ⟨"BindingWithDefault", [("binding", .tree .binding), ("init", .tree .expression)],
    fun (b, v, ()) => .bindingWithDefault b v⟩

/-- The body of a function between braces. -/
def functionBody : Shape .functionBody :=
  ⟨"FunctionBody",
    [("directives", .tree (.list .directive)), ("statements", .tree (.list .statement))],
    fun (ds, ss, ()) => .functionBody ds ss⟩

/-- Shape of `class A extends B {}` as a declaration. -/
def classDeclaration : Shape .classDeclaration :=
  ⟨"ClassDeclaration",
    [("name", .tree .bindingName), ("super", .tree (.option .expression)),
     ("elements", .tree (.list .classElement))],
    fun (n, p, es, ()) => .classDeclaration n p es⟩

/-- A method of a class, `static` or not. -/
def classElement : Shape .classElement :=
  ⟨"ClassElement", [("isStatic", .flag), ("method", .tree .method)],
    fun (s, m, ()) => .classElement s m⟩

/-- Shape of `f() {}` in a class or an object. -/
def method : Shape .method :=
  ⟨"Method",
    [("isAsync", .flag), ("isGenerator", .flag), ("name", .tree .propertyName),
     ("params", .tree .parameters), ("body", .tree .functionBody)],
    fun (a, g, n, ps, b, ()) => .method a g n ps b⟩

/-- Shape of `get a() {}`. -/
def getter : Shape .method :=
  ⟨"Getter", [("name", .tree .propertyName), ("body", .tree .functionBody)],
    fun (n, b, ()) => .getter n b⟩

/-- Shape of `set a(v) {}`. -/
def setter : Shape .method :=
  ⟨"Setter",
    [("name", .tree .propertyName), ("param", .tree .parameter), ("body", .tree .functionBody)],
    fun (n, p, b, ()) => .setter n p b⟩

/-! ### Properties -/

/-- The property name `[e]`. -/
def computedName : Shape .propertyName :=
  ⟨"ComputedPropertyName", [("expression", .tree .expression)],
    fun (e, ()) => .computedName e⟩

/-- A property name that is a word, a number or a string. -/
def staticName : Shape .propertyName :=
  ⟨"StaticPropertyName", [("value", .text)], fun (v, ()) => .staticName v⟩

/-- The property `a: v`. -/
def dataProperty : Shape .objectProperty :=
  ⟨"DataProperty", [("name", .tree .propertyName), ("expression", .tree .expression)],
    fun (n, v, ()) => .dataProperty n v⟩

/-- The property `a`, whose value is the variable `a`. -/
def shorthandProperty : Shape .objectProperty :=
  ⟨"ShorthandProperty", [("name", .tree .identifier)], fun (n, ()) => .shorthandProperty n⟩

/-! ### Bindings -/

/-- A name that is bound. -/
def bindingName : Shape .bindingName :=
  ⟨"BindingIdentifier", [("name", .text)], fun (n, ()) => .bindingName n⟩

/-- The pattern `[a, ...b]`. -/
def arrayBinding : Shape .binding :=
  ⟨"ArrayBinding",
    [("elements", .tree (.list (.option .parameter))), ("rest", .tree (.option .binding))],
    fun (es, r, ()) => .arrayBinding es r⟩

/-- The pattern of an object, a list of properties. -/
def objectBinding : Shape .binding :=
  ⟨"ObjectBinding", [("properties", .tree (.list .bindingProperty))],
    fun (ps, ()) => .objectBinding ps⟩

/-- The property `a = v` of a pattern. -/
def bindingShorthand : Shape .bindingProperty :=
  ⟨"BindingPropertyIdentifier",
    [("binding", .tree .bindingName), ("init", .tree (.option .expression))],
    fun (n, v, ()) => .bindingShorthand n v⟩

/-- The property `a: b` of a pattern. -/
def bindingProperty : Shape .bindingProperty :=
  ⟨"BindingPropertyProperty", [("name", .tree .propertyName), ("binding", .tree .parameter)],
    fun (n, b, ()) => .bindingProperty n b⟩

/-! ### Assignment targets -/

/-- Shape of `[a, ...b]` on the left of an assignment. -/
def arrayTarget : Shape .target :=
  ⟨"ArrayAssignmentTarget",
    [("elements", .tree (.list (.option .targetElement))), ("rest", .tree (.option .target))],
    fun (es, r, ()) => .arrayTarget es r⟩

/-- An object on the left of an assignment. -/
def objectTarget : Shape .target :=
  ⟨"ObjectAssignmentTarget", [("properties", .tree (.list .targetProperty))],
    fun (ps, ()) => .objectTarget ps⟩

/-- A name that is assigned to. -/
def targetName : Shape .targetName :=
  ⟨"AssignmentTargetIdentifier", [("name", .text)], fun (n, ()) => .targetName n⟩

/-- Shape of `a.b` on the left of an assignment. -/
def staticMemberTarget : Shape .simpleTarget :=
  ⟨"StaticMemberAssignmentTarget", [("object", .tree .callee), ("property", .text)],
    fun (o, p, ()) => .staticMemberTarget o p⟩

/-- Shape of `a[b]` on the left of an assignment. -/
def computedMemberTarget : Shape .simpleTarget :=
  ⟨"ComputedMemberAssignmentTarget",
    [("object", .tree .callee), ("expression", .tree .expression)],
    fun (o, e, ()) => .computedMemberTarget o e⟩

/-- The element `a = v` of a target. -/
def targetWithDefault : Shape .targetElement :=
  ⟨"AssignmentTargetWithDefault", [("binding", .tree .target), ("init", .tree .expression)],
    fun (t, v, ()) => .targetWithDefault t v⟩

/-- The property `a = v` of a target. -/
def targetShorthand : Shape .targetProperty :=
  ⟨"AssignmentTargetPropertyIdentifier",
    [("binding", .tree .targetName), ("init", .tree (.option .expression))],
    fun (n, v, ()) => .targetShorthand n v⟩

/-- The property `a: b` of a target. -/
def targetProperty : Shape .targetProperty :=
  ⟨"AssignmentTargetPropertyProperty",
    [("name", .tree .propertyName), ("binding", .tree .targetElement)],
    fun (n, t, ()) => .targetProperty n t⟩

/-! ### Statements -/

/-- A block where a statement is wanted. -/
def blockStatement : Shape .statement :=
  ⟨"BlockStatement", [("block", .tree .block)], fun (b, ()) => .blockStatement b⟩

/-- Shape of `break`, with an optional label. -/
def breakStatement : Shape .statement :=
  ⟨"BreakStatement", [("label", .optionalText)], fun (l, ()) => .breakStatement l⟩

/-- Shape of `continue`, with an optional label. -/
def continueStatement : Shape .statement :=
  ⟨"ContinueStatement", [("label", .optionalText)], fun (l, ()) => .continueStatement l⟩

/-- Shape of `debugger`. -/
def debuggerStatement : Shape .statement :=
  ⟨"DebuggerStatement", [], fun () => .debuggerStatement⟩

/-- Shape of `do s while (e)`. -/
def doWhile : Shape .statement :=
  ⟨"DoWhileStatement", [("body", .tree .statement), ("test", .tree .expression)],
    fun (b, t, ()) => .doWhile b t⟩

/-- The statement `;`. -/
def emptyStatement : Shape .statement :=
  ⟨"EmptyStatement", [], fun () => .emptyStatement⟩

/-- An expression as a statement. -/
def expressionStatement : Shape .statement :=
  ⟨"ExpressionStatement", [("expression", .tree .expression)],
    fun (e, ()) => .expressionStatement e⟩

/-- Shape of `for (a in e) s`. -/
def forIn : Shape .statement :=
  ⟨"ForInStatement",
    [("left", .tree .loopTarget), ("right", .tree .expression), ("body", .tree .statement)],
    fun (l, r, b, ()) => .forIn l r b⟩

/-- Shape of `for (a of e) s`. -/
def forOf : Shape .statement :=
  ⟨"ForOfStatement",
    [("left", .tree .loopTarget), ("right", .tree .expression), ("body", .tree .statement)],
    fun (l, r, b, ()) => .forOf l r b⟩

/-- Shape of `for (a; b; c) s`, each part optional. -/
def forLoop : Shape .statement :=
  ⟨"ForStatement",
    [("init", .tree (.option .loopStart)), ("test", .tree (.option .expression)),
     ("update", .tree (.option .expression)), ("body", .tree .statement)],
    fun (s, t, u, b, ()) => .forLoop s t u b⟩

/-- Shape of `if (e) s`, with an optional `else`. -/
def ifStatement : Shape .statement :=
  ⟨"IfStatement",
    [("test", .tree .expression), ("consequent", .tree .statement),
     ("alternate", .tree (.option .statement))],
    fun (t, c, a, ()) => .ifStatement t c a⟩

/-- Shape of `l: s`. -/
def labeled : Shape .statement :=
  ⟨"LabeledStatement", [("label", .text), ("body", .tree .statement)],
    fun (l, b, ()) => .labeled l b⟩

/-- Shape of `return`, with an optional value. -/
def returnStatement : Shape .statement :=
  ⟨"ReturnStatement", [("expression", .tree (.option .expression))],
    fun (e, ()) => .returnStatement e⟩

/-- Shape of `switch (e)` with cases only. -/
def switchStatement : Shape .statement :=
  ⟨"SwitchStatement",
    [("discriminant", .tree .expression), ("cases", .tree (.list .switchCase))],
    fun (d, cs, ()) => .switchStatement d cs⟩

/-- Shape of `switch (e)` with a default among its cases. -/
def switchWithDefault : Shape .statement :=
  ⟨"SwitchStatementWithDefault",
    [("discriminant", .tree .expression), ("preDefaultCases", .tree (.list .switchCase)),
     ("defaultCase", .tree .switchDefault), ("postDefaultCases", .tree (.list .switchCase))],
    fun (d, before, c, after, ()) => .switchWithDefault d before c after⟩

/-- Shape of `throw e`. -/
def throwStatement : Shape .statement :=
  ⟨"ThrowStatement", [("expression", .tree .expression)], fun (e, ()) => .throwStatement e⟩

/-- Shape of `try` with a `catch`. -/
def tryCatch : Shape .statement :=
  ⟨"TryCatchStatement", [("body", .tree .block), ("catchClause", .tree .catchClause)],
    fun (b, c, ()) => .tryCatch b c⟩

/-- Shape of `try` with a `finally`, and perhaps a `catch` before it. -/
def tryFinally : Shape .statement :=
  ⟨"TryFinallyStatement",
    [("body", .tree .block), ("catchClause", .tree (.option .catchClause)),
     ("finalizer", .tree .block)],
    fun (b, c, f, ()) => .tryFinally b c f⟩

/-- A declaration of variables as a statement. -/
def variableStatement : Shape .statement :=
  ⟨"VariableDeclarationStatement", [("declaration", .tree .declaration)],
    fun (d, ()) => .variableStatement d⟩

/-- Shape of `while (e) s`. -/
def whileLoop : Shape .statement :=
  ⟨"WhileStatement", [("test", .tree .expression), ("body", .tree .statement)],
    fun (t, b, ()) => .whileLoop t b⟩

/-- Shape of `with (e) s`. -/
def withStatement : Shape .statement :=
  ⟨"WithStatement", [("object", .tree .expression), ("body", .tree .statement)],
    fun (o, b, ()) => .withStatement o b⟩

/-- Statements between braces. -/
def block : Shape .block :=
  ⟨"Block", [("statements", .tree (.list .statement))], fun (ss, ()) => .block ss⟩

/-- Shape of `case e:` and the statements after it. -/
def switchCase : Shape .switchCase :=
  ⟨"SwitchCase", [("test", .tree .expression), ("consequent", .tree (.list .statement))],
    fun (t, ss, ()) => .switchCase t ss⟩

/-- Shape of `default:` and the statements after it. -/
def switchDefault : Shape .switchDefault :=
  ⟨"SwitchDefault", [("consequent", .tree (.list .statement))],
    fun (ss, ()) => .switchDefault ss⟩

/-- Shape of `catch (a)` and its block. -/
def catchClause : Shape .catchClause :=
  ⟨"CatchClause", [("binding", .tree .binding), ("body", .tree .block)],
    fun (b, s, ()) => .catchClause b s⟩

/-- Shape of `var`, `let` or `const` with the declared variables. -/
def declaration : Shape .declaration :=
  ⟨"VariableDeclaration",
    [("kind", .declarationKind), ("declarators", .tree (.list .declarator))],
    fun (k, ds, ()) => .declaration k ds⟩

/-- One declared variable `a = v`, the value optional. -/
def declarator : Shape .declarator :=
  ⟨"VariableDeclarator", [("binding", .tree .binding), ("init", .tree (.option .expression))],
    fun (b, v, ()) => .declarator b v⟩

/-! ### Expressions -/

/-- Shape of `true` or `false`. -/
def boolean : Shape .expression :=
  ⟨"LiteralBooleanExpression", [("value", .flag)], fun (v, ()) => .boolean v⟩

/-- The literal for infinity. -/
def infinity : Shape .expression :=
  ⟨"LiteralInfinityExpression", [], fun () => .infinity⟩

/-- Shape of `null`. -/
def null : Shape .expression :=
  ⟨"LiteralNullExpression", [], fun () => .null⟩

/-- A number literal. -/
def number : Shape .expression :=
  ⟨"LiteralNumericExpression", [("value", .number)], fun (v, ()) => .number v⟩

/-- The literal `/p/gimuy`, a pattern and its flags. -/
def regExp : Shape .expression :=
  ⟨"LiteralRegExpExpression",
    [("pattern", .text), ("global", .flag), ("ignoreCase", .flag), ("multiLine", .flag),
     ("sticky", .flag), ("unicode", .flag)],
    fun (p, g, i, m, y, u, ()) => .regExp p ⟨g, i, m, y, u⟩⟩

/-- A string literal. -/
def string : Shape .expression :=
  ⟨"LiteralStringExpression", [("value", .text)], fun (v, ()) => .string v⟩

/-- Shape of `[a, , ...b]`, with holes. -/
def array : Shape .expression :=
  ⟨"ArrayExpression", [("elements", .tree (.list (.option .argument)))],
    fun (es, ()) => .array es⟩

/-- An object literal, a list of properties. -/
def object : Shape .expression :=
  ⟨"ObjectExpression", [("properties", .tree (.list .objectProperty))],
    fun (ps, ()) => .object ps⟩

/-- A function as an expression, with or without a name. -/
def functionExpression : Shape .expression :=
  ⟨"FunctionExpression",
    [("isAsync", .flag), ("isGenerator", .flag), ("name", .tree (.option .bindingName)),
     ("params", .tree .parameters), ("body", .tree .functionBody)],
    fun (a, g, n, ps, b, ()) => .functionExpression a g n ps b⟩

/-- A class as an expression, with or without a name. -/
def classExpression : Shape .expression :=
  ⟨"ClassExpression",
    [("name", .tree (.option .bindingName)), ("super", .tree (.option .expression)),
     ("elements", .tree (.list .classElement))],
    fun (n, p, es, ()) => .classExpression n p es⟩

/-- A variable that is used. -/
def identifier : Shape .identifier :=
  ⟨"IdentifierExpression", [("name", .text)], fun (n, ()) => .identifier n⟩

/-- Shape of `this`. -/
def this : Shape .expression :=
  ⟨"ThisExpression", [], fun () => .this⟩

/-- A template literal, with an optional tag. -/
def template : Shape .expression :=
  ⟨"TemplateExpression",
    [("tag", .tree (.option .expression)), ("elements", .tree (.list .templatePart))],
    fun (t, ps, ()) => .template t ps⟩

/-- Shape of `new.target`. -/
def newTarget : Shape .expression :=
  ⟨"NewTargetExpression", [], fun () => .newTarget⟩

/-- Shape of `a.b`. -/
def staticMember : Shape .expression :=
  ⟨"StaticMemberExpression", [("object", .tree .callee), ("property", .text)],
    fun (o, p, ()) => .staticMember o p⟩

/-- Shape of `a[b]`. -/
def computedMember : Shape .expression :=
  ⟨"ComputedMemberExpression", [("object", .tree .callee), ("expression", .tree .expression)],
    fun (o, e, ()) => .computedMember o e⟩

/-- Shape of `f(a, ...b)`. -/
def call : Shape .expression :=
  ⟨"CallExpression", [("callee", .tree .callee), ("arguments", .tree (.list .argument))],
    fun (f, as, ()) => .call f as⟩

/-- Shape of `new F(a, ...b)`. -/
def construct : Shape .expression :=
  ⟨"NewExpression", [("callee", .tree .expression), ("arguments", .tree (.list .argument))],
    fun (f, as, ()) => .construct f as⟩

/-- An operator before its operand. -/
def unary : Shape .expression :=
  ⟨"UnaryExpression", [("operator", .unaryOperator), ("operand", .tree .expression)],
    fun (op, e, ()) => .unary op e⟩

/-- Shape of `++` or `--`, before or after its operand. -/
def update : Shape .expression :=
  ⟨"UpdateExpression",
    [("isPrefix", .flag), ("operator", .updateOperator), ("operand", .tree .simpleTarget)],
    fun (before, op, t, ()) => .update before op t⟩

/-- Two operands with an operator between them. -/
def binary : Shape .expression :=
  ⟨"BinaryExpression",
    [("left", .tree .expression), ("operator", .binaryOperator), ("right", .tree .expression)],
    fun (l, op, r, ()) => .binary l op r⟩

/-- Shape of `a ? b : c`. -/
def conditional : Shape .expression :=
  ⟨"ConditionalExpression",
    [("test", .tree .expression), ("consequent", .tree .expression),
     ("alternate", .tree .expression)],
    fun (t, c, a, ()) => .conditional t c a⟩

/-- Shape of `a = v`. -/
def assign : Shape .expression :=
  ⟨"AssignmentExpression", [("binding", .tree .target), ("expression", .tree .expression)],
    fun (t, v, ()) => .assign t v⟩

/-- Shape of `a += v` and the like. -/
def compoundAssign : Shape .expression :=
  ⟨"CompoundAssignmentExpression",
    [("binding", .tree .simpleTarget), ("operator", .assignmentOperator),
     ("expression", .tree .expression)],
    fun (t, op, v, ()) => .compoundAssign t op v⟩

/-- Shape of `(a) => v`. -/
def arrow : Shape .expression :=
  ⟨"ArrowExpression",
    [("isAsync", .flag), ("params", .tree .parameters), ("body", .tree .arrowBody)],
    fun (a, ps, b, ()) => .arrow a ps b⟩

/-- Shape of `await v`. -/
def await : Shape .expression :=
  ⟨"AwaitExpression", [("expression", .tree .expression)], fun (e, ()) => .await e⟩

/-- Shape of `yield`, with an optional value. -/
def yield : Shape .expression :=
  ⟨"YieldExpression", [("expression", .tree (.option .expression))], fun (e, ()) => .yield e⟩

/-- Shape of `yield* v`. -/
def yieldFrom : Shape .expression :=
  ⟨"YieldGeneratorExpression", [("expression", .tree .expression)],
    fun (e, ()) => .yieldFrom e⟩

/-- Shape of `super`, where a callee or an object is wanted. -/
def super : Shape .callee :=
  ⟨"Super", [], fun () => .super⟩

/-- Shape of `...a` in a call or an array. -/
def spread : Shape .argument :=
  ⟨"SpreadElement", [("expression", .tree .expression)], fun (e, ()) => .spread e⟩

/-- The text between two substitutions, as it is written. -/
def templateText : Shape .templatePart :=
  ⟨"TemplateElement", [("rawValue", .text)], fun (raw, ()) => .templateText raw⟩

end Shape

/-! ### The form of each category -/

namespace Form

open Shape

/-- The nodes that are statements. -/
def statements : List (Shape .statement) :=
  [blockStatement, breakStatement, continueStatement, debuggerStatement, doWhile, emptyStatement,
   expressionStatement, forIn, forOf, forLoop, ifStatement, labeled, returnStatement,
   switchStatement, switchWithDefault, throwStatement, tryCatch, tryFinally, variableStatement,
   whileLoop, withStatement, function.map .ofFunction, classDeclaration.map .ofClass]

/-- The nodes that are expressions. -/
def expressions : List (Shape .expression) :=
  [boolean, infinity, null, number, regExp, string, array, object, functionExpression,
   classExpression, identifier.map .ofIdentifier, this, template, newTarget, staticMember,
   computedMember, call, construct, unary, update, binary, conditional, assign, compoundAssign,
   arrow, await, yield, yieldFrom]

/-- The nodes that are simple assignment targets. -/
def simpleTargets : List (Shape .simpleTarget) :=
  [targetName.map .ofTargetName, staticMemberTarget, computedMemberTarget]

/-- The nodes that are methods. -/
def methods : List (Shape .method) :=
  [method, getter, setter]

end Form

open Shape in
/-- What can stand in the place of each category. -/
def form : (c : Category) → Form c
  | .program => .tagged [script, moduleBody]
  | .directive => .plain directive
  | .moduleItem => .union [⟨.ofImport⟩, ⟨.ofExport⟩, ⟨.ofStatement⟩] []
  | .importDeclaration => .tagged [importNamed, importNamespace]
  | .importSpecifier => .plain importSpecifier
  | .exportDeclaration =>
    .tagged [exportAll, exportFrom, exportLocals, exportDeclared, exportDefault]
  | .exportFromSpecifier => .plain exportFromSpecifier
  | .exportLocalSpecifier => .plain exportLocalSpecifier
  | .exportable =>
    .tagged
      [function.map .ofExportedFunction, classDeclaration.map .ofExportedClass,
       declaration.map .ofExportedVariables]
  | .defaultExport =>
    .union [⟨.ofDefaultExpression⟩]
      [function.map .ofDefaultFunction, classDeclaration.map .ofDefaultClass]
  | .function => .plain function
  | .parameters => .plain parameters
  | .parameter => .union [⟨.ofBinding⟩] [bindingWithDefault]
  | .functionBody => .plain functionBody
  | .classDeclaration => .plain classDeclaration
  | .classElement => .plain classElement
  | .method => .tagged Form.methods
  | .propertyName => .tagged [computedName, staticName]
  | .objectProperty =>
    .tagged ([dataProperty, shorthandProperty] ++ Form.methods.map (Shape.map .ofMethod))
  | .binding => .tagged [bindingName.map .ofBindingName, arrayBinding, objectBinding]
  | .bindingName => .plain bindingName
  | .bindingProperty => .tagged [bindingShorthand, bindingProperty]
  | .target =>
    .tagged (Form.simpleTargets.map (Shape.map .ofSimpleTarget) ++ [arrayTarget, objectTarget])
  | .simpleTarget => .tagged Form.simpleTargets
  | .targetName => .plain targetName
  | .targetElement => .union [⟨.ofTarget⟩] [targetWithDefault]
  | .targetProperty => .tagged [targetShorthand, targetProperty]
  | .statement => .tagged Form.statements
  | .block => .plain block
  | .switchCase => .plain switchCase
  | .switchDefault => .plain switchDefault
  | .catchClause => .plain catchClause
  | .declaration => .plain declaration
  | .declarator => .plain declarator
  | .loopTarget => .union [⟨.ofLoopTarget⟩] [declaration.map .ofLoopDeclaration]
  | .loopStart => .union [⟨.ofStartExpression⟩] [declaration.map .ofStartDeclaration]
  | .expression => .tagged Form.expressions
  | .identifier => .plain identifier
  | .callee => .union [⟨.ofCallee⟩] [super]
  | .argument => .union [⟨.ofArgument⟩] [spread]
  | .templatePart => .union [⟨.ofSubstitution⟩] [templateText]
  | .arrowBody => .union [⟨.ofExpressionBody⟩] [functionBody.map .ofFunctionBody]
  | .list _ => .noNode
  | .option _ => .noNode

end EcmaPrinter
