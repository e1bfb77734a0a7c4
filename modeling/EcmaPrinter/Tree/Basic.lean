import EcmaPrinter.Number.Double
import EcmaPrinter.Operator

/-!
Syntax trees of ECMAScript 2017 programs.

All trees form one family over categories: a program, a statement, an expression and so on are
trees of different categories.  Lists and optional parts belong to the family too, as the
categories `list c` and `option c`.  So a statement about all trees is proved by one induction,
and a function on trees is one recursion.

Some constructors only say that a tree of one category may stand in the place of another: an
expression is a callee, a statement is a module item.  They are the `of...` constructors, and
they are no nodes of their own.
-/

namespace EcmaPrinter

open EcmaPrinter.Number

/-! ### Categories and data -/

/-- The places that a tree can stand in. -/
inductive Category where
  | program | directive | moduleItem
  | importDeclaration | importSpecifier
  | exportDeclaration | exportFromSpecifier | exportLocalSpecifier | exportable | defaultExport
  | function | parameters | parameter | functionBody
  | classDeclaration | classElement | method
  | propertyName | objectProperty
  | binding | bindingName | bindingProperty
  | target | simpleTarget | targetName | targetElement | targetProperty
  | statement | block | switchCase | switchDefault | catchClause
  | declaration | declarator | loopTarget | loopStart
  | expression | identifier | callee | argument | templatePart | arrowBody
  | list (c : Category)
  | option (c : Category)
  deriving DecidableEq, Repr

/-- The scopes and rules of a variable declaration. -/
inductive DeclarationKind where
  | functionScope
  | blockScope
  | constant
  deriving DecidableEq, Repr

namespace DeclarationKind

/-- All kinds of declarations. -/
def all : List DeclarationKind :=
  [functionScope, blockScope, constant]

/-- The keyword of a declaration. -/
def text : DeclarationKind → String
  | functionScope => "var"
  | blockScope => "let"
  | constant => "const"

/-- The kind with the given keyword. -/
def ofText? (s : String) : Option DeclarationKind :=
  all.find? (·.text == s)

end DeclarationKind

/-- The flags of a regular expression. -/
structure RegExpFlags where
  global : Bool
  ignoreCase : Bool
  multiLine : Bool
  sticky : Bool
  unicode : Bool
  deriving DecidableEq, Repr

/-- The letters of the flags that are set, in alphabetic order. -/
def RegExpFlags.text (f : RegExpFlags) : String :=
  String.ofList <|
    (if f.global then ['g'] else []) ++ (if f.ignoreCase then ['i'] else []) ++
    (if f.multiLine then ['m'] else []) ++ (if f.unicode then ['u'] else []) ++
    (if f.sticky then ['y'] else [])

/-! ### Trees -/

/-- The syntax trees of each category. -/
inductive Tree : Category → Type where
  -- lists and optional parts
  | nil {c : Category} : Tree (.list c)
  | cons {c : Category} (head : Tree c) (tail : Tree (.list c)) : Tree (.list c)
  | absent {c : Category} : Tree (.option c)
  | present {c : Category} (tree : Tree c) : Tree (.option c)
  -- programs and modules
  | script (directives : Tree (.list .directive)) (statements : Tree (.list .statement)) :
      Tree .program
  | moduleBody (directives : Tree (.list .directive)) (items : Tree (.list .moduleItem)) :
      Tree .program
  | directive (raw : String) : Tree .directive
  | ofImport (declaration : Tree .importDeclaration) : Tree .moduleItem
  | ofExport (declaration : Tree .exportDeclaration) : Tree .moduleItem
  | ofStatement (statement : Tree .statement) : Tree .moduleItem
  | importNamed (defaultBinding : Tree (.option .bindingName))
      (names : Tree (.list .importSpecifier)) (specifier : String) : Tree .importDeclaration
  | importNamespace (defaultBinding : Tree (.option .bindingName))
      (namespaceBinding : Tree .bindingName) (specifier : String) : Tree .importDeclaration
  | importSpecifier (name : Option String) (binding : Tree .bindingName) : Tree .importSpecifier
  | exportAll (specifier : String) : Tree .exportDeclaration
  | exportFrom (names : Tree (.list .exportFromSpecifier)) (specifier : String) :
      Tree .exportDeclaration
  | exportFromSpecifier (name : String) (exported : Option String) : Tree .exportFromSpecifier
  | exportLocals (names : Tree (.list .exportLocalSpecifier)) : Tree .exportDeclaration
  | exportLocalSpecifier (name : Tree .identifier) (exported : Option String) :
      Tree .exportLocalSpecifier
  | exportDeclared (declaration : Tree .exportable) : Tree .exportDeclaration
  | exportDefault (body : Tree .defaultExport) : Tree .exportDeclaration
  | ofExportedFunction (function : Tree .function) : Tree .exportable
  | ofExportedClass (classTree : Tree .classDeclaration) : Tree .exportable
  | ofExportedVariables (declaration : Tree .declaration) : Tree .exportable
  | ofDefaultExpression (expression : Tree .expression) : Tree .defaultExport
  | ofDefaultFunction (function : Tree .function) : Tree .defaultExport
  | ofDefaultClass (classTree : Tree .classDeclaration) : Tree .defaultExport
  -- functions and classes
  | function (isAsync isGenerator : Bool) (name : Tree .bindingName)
      (parameters : Tree .parameters) (body : Tree .functionBody) : Tree .function
  | parameters (items : Tree (.list .parameter)) (rest : Tree (.option .binding)) :
      Tree .parameters
  | ofBinding (binding : Tree .binding) : Tree .parameter
  | bindingWithDefault (binding : Tree .binding) (value : Tree .expression) : Tree .parameter
  | functionBody (directives : Tree (.list .directive)) (statements : Tree (.list .statement)) :
      Tree .functionBody
  | classDeclaration (name : Tree .bindingName) (parent : Tree (.option .expression))
      (elements : Tree (.list .classElement)) : Tree .classDeclaration
  | classElement (isStatic : Bool) (method : Tree .method) : Tree .classElement
  | method (isAsync isGenerator : Bool) (name : Tree .propertyName)
      (parameters : Tree .parameters) (body : Tree .functionBody) : Tree .method
  | getter (name : Tree .propertyName) (body : Tree .functionBody) : Tree .method
  | setter (name : Tree .propertyName) (parameter : Tree .parameter)
      (body : Tree .functionBody) : Tree .method
  -- properties
  | computedName (expression : Tree .expression) : Tree .propertyName
  | staticName (value : String) : Tree .propertyName
  | dataProperty (name : Tree .propertyName) (value : Tree .expression) : Tree .objectProperty
  | shorthandProperty (name : Tree .identifier) : Tree .objectProperty
  | ofMethod (method : Tree .method) : Tree .objectProperty
  -- bindings
  | bindingName (name : String) : Tree .bindingName
  | ofBindingName (name : Tree .bindingName) : Tree .binding
  | arrayBinding (elements : Tree (.list (.option .parameter)))
      (rest : Tree (.option .binding)) : Tree .binding
  | objectBinding (properties : Tree (.list .bindingProperty)) : Tree .binding
  | bindingShorthand (name : Tree .bindingName) (value : Tree (.option .expression)) :
      Tree .bindingProperty
  | bindingProperty (name : Tree .propertyName) (binding : Tree .parameter) :
      Tree .bindingProperty
  -- assignment targets
  | ofSimpleTarget (target : Tree .simpleTarget) : Tree .target
  | arrayTarget (elements : Tree (.list (.option .targetElement)))
      (rest : Tree (.option .target)) : Tree .target
  | objectTarget (properties : Tree (.list .targetProperty)) : Tree .target
  | ofTargetName (name : Tree .targetName) : Tree .simpleTarget
  | staticMemberTarget (object : Tree .callee) (property : String) : Tree .simpleTarget
  | computedMemberTarget (object : Tree .callee) (expression : Tree .expression) :
      Tree .simpleTarget
  | targetName (name : String) : Tree .targetName
  | ofTarget (target : Tree .target) : Tree .targetElement
  | targetWithDefault (target : Tree .target) (value : Tree .expression) : Tree .targetElement
  | targetShorthand (name : Tree .targetName) (value : Tree (.option .expression)) :
      Tree .targetProperty
  | targetProperty (name : Tree .propertyName) (target : Tree .targetElement) :
      Tree .targetProperty
  -- statements
  | blockStatement (block : Tree .block) : Tree .statement
  | breakStatement (label : Option String) : Tree .statement
  | continueStatement (label : Option String) : Tree .statement
  | debuggerStatement : Tree .statement
  | doWhile (body : Tree .statement) (test : Tree .expression) : Tree .statement
  | emptyStatement : Tree .statement
  | expressionStatement (expression : Tree .expression) : Tree .statement
  | forIn (target : Tree .loopTarget) (object : Tree .expression) (body : Tree .statement) :
      Tree .statement
  | forOf (target : Tree .loopTarget) (items : Tree .expression) (body : Tree .statement) :
      Tree .statement
  | forLoop (start : Tree (.option .loopStart)) (test update : Tree (.option .expression))
      (body : Tree .statement) : Tree .statement
  | ifStatement (test : Tree .expression) (consequent : Tree .statement)
      (alternate : Tree (.option .statement)) : Tree .statement
  | labeled (label : String) (body : Tree .statement) : Tree .statement
  | returnStatement (expression : Tree (.option .expression)) : Tree .statement
  | switchStatement (discriminant : Tree .expression) (cases : Tree (.list .switchCase)) :
      Tree .statement
  | switchWithDefault (discriminant : Tree .expression) (before : Tree (.list .switchCase))
      (default : Tree .switchDefault) (after : Tree (.list .switchCase)) : Tree .statement
  | throwStatement (expression : Tree .expression) : Tree .statement
  | tryCatch (body : Tree .block) (clause : Tree .catchClause) : Tree .statement
  | tryFinally (body : Tree .block) (clause : Tree (.option .catchClause))
      (finalizer : Tree .block) : Tree .statement
  | variableStatement (declaration : Tree .declaration) : Tree .statement
  | whileLoop (test : Tree .expression) (body : Tree .statement) : Tree .statement
  | withStatement (object : Tree .expression) (body : Tree .statement) : Tree .statement
  | ofFunction (function : Tree .function) : Tree .statement
  | ofClass (classTree : Tree .classDeclaration) : Tree .statement
  | block (statements : Tree (.list .statement)) : Tree .block
  | switchCase (test : Tree .expression) (consequent : Tree (.list .statement)) :
      Tree .switchCase
  | switchDefault (consequent : Tree (.list .statement)) : Tree .switchDefault
  | catchClause (binding : Tree .binding) (body : Tree .block) : Tree .catchClause
  | declaration (kind : DeclarationKind) (declarators : Tree (.list .declarator)) :
      Tree .declaration
  | declarator (binding : Tree .binding) (value : Tree (.option .expression)) : Tree .declarator
  | ofLoopTarget (target : Tree .target) : Tree .loopTarget
  | ofLoopDeclaration (declaration : Tree .declaration) : Tree .loopTarget
  | ofStartExpression (expression : Tree .expression) : Tree .loopStart
  | ofStartDeclaration (declaration : Tree .declaration) : Tree .loopStart
  -- expressions
  | boolean (value : Bool) : Tree .expression
  | infinity : Tree .expression
  | null : Tree .expression
  | number (value : Double) : Tree .expression
  | regExp (pattern : String) (flags : RegExpFlags) : Tree .expression
  | string (value : String) : Tree .expression
  | array (elements : Tree (.list (.option .argument))) : Tree .expression
  | object (properties : Tree (.list .objectProperty)) : Tree .expression
  | functionExpression (isAsync isGenerator : Bool) (name : Tree (.option .bindingName))
      (parameters : Tree .parameters) (body : Tree .functionBody) : Tree .expression
  | classExpression (name : Tree (.option .bindingName)) (parent : Tree (.option .expression))
      (elements : Tree (.list .classElement)) : Tree .expression
  | ofIdentifier (name : Tree .identifier) : Tree .expression
  | this : Tree .expression
  | template (tag : Tree (.option .expression)) (parts : Tree (.list .templatePart)) :
      Tree .expression
  | newTarget : Tree .expression
  | staticMember (object : Tree .callee) (property : String) : Tree .expression
  | computedMember (object : Tree .callee) (expression : Tree .expression) : Tree .expression
  | call (callee : Tree .callee) (arguments : Tree (.list .argument)) : Tree .expression
  | construct (callee : Tree .expression) (arguments : Tree (.list .argument)) :
      Tree .expression
  | unary (operator : UnaryOperator) (operand : Tree .expression) : Tree .expression
  | update (before : Bool) (operator : UpdateOperator) (operand : Tree .simpleTarget) :
      Tree .expression
  | binary (left : Tree .expression) (operator : BinaryOperator) (right : Tree .expression) :
      Tree .expression
  | conditional (test consequent alternate : Tree .expression) : Tree .expression
  | assign (target : Tree .target) (value : Tree .expression) : Tree .expression
  | compoundAssign (target : Tree .simpleTarget) (operator : AssignmentOperator)
      (value : Tree .expression) : Tree .expression
  | arrow (isAsync : Bool) (parameters : Tree .parameters) (body : Tree .arrowBody) :
      Tree .expression
  | await (expression : Tree .expression) : Tree .expression
  | yield (expression : Tree (.option .expression)) : Tree .expression
  | yieldFrom (expression : Tree .expression) : Tree .expression
  | identifier (name : String) : Tree .identifier
  | ofCallee (expression : Tree .expression) : Tree .callee
  | super : Tree .callee
  | ofArgument (expression : Tree .expression) : Tree .argument
  | spread (expression : Tree .expression) : Tree .argument
  | ofSubstitution (expression : Tree .expression) : Tree .templatePart
  | templateText (raw : String) : Tree .templatePart
  | ofExpressionBody (expression : Tree .expression) : Tree .arrowBody
  | ofFunctionBody (body : Tree .functionBody) : Tree .arrowBody

/-- A script or a module. -/
abbrev Program := Tree .program

/-- An expression. -/
abbrev Expression := Tree .expression

namespace Tree

/-! ### Lists -/

/-- The list with the given members. -/
def ofList {c : Category} : List (Tree c) → Tree (.list c)
  | [] => nil
  | t :: ts => cons t (ofList ts)

/-- The number of members of a list.  Trees of other categories have none. -/
def length {c : Category} : Tree c → Nat
  | cons _ tail => tail.length + 1
  | _ => 0

/-- The optional tree. -/
def ofOption {c : Category} : Option (Tree c) → Tree (.option c)
  | none => absent
  | some t => present t

end Tree

/-- The number of statements or items of a program, at top level. -/
def Program.topLevelCount : Program → Nat
  | .script _ statements => statements.length
  | .moduleBody _ items => items.length

end EcmaPrinter
