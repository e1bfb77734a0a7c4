import EcmaPrinter.Tree.Shape

/-!
Visiting trees.

A visit goes through all nodes of a tree, children before their parent and siblings from left to
right.  At each node it is given the node's head, that is the node without its parts, and the
results of the children.  Lists, optional parts and the `of...` constructors are no nodes, so they
are passed through.

Sizes, traces, leaves and every other summary of a tree are visits.
-/

namespace EcmaPrinter

open EcmaPrinter.Number

/-! ### Heads -/

/-- A node without its parts.  The head of a template tells whether there is a tag, and the texts
of the template. -/
inductive Head where
  | script | moduleBody | directive (raw : String) | importNamed (specifier : String)
  | importNamespace (specifier : String) | importSpecifier (name : Option String)
  | exportAll (specifier : String) | exportFrom (specifier : String)
  | exportFromSpecifier (name : String) (exported : Option String) | exportLocals
  | exportLocalSpecifier (exported : Option String) | exportDeclared | exportDefault
  | function (isAsync isGenerator : Bool) | parameters | bindingWithDefault | functionBody
  | classDeclaration | classElement (isStatic : Bool) | method (isAsync isGenerator : Bool)
  | getter | setter | computedName | staticName (value : String) | dataProperty
  | shorthandProperty | bindingName (name : String) | arrayBinding | objectBinding
  | bindingShorthand | bindingProperty | arrayTarget | objectTarget
  | staticMemberTarget (property : String) | computedMemberTarget | targetName (name : String)
  | targetWithDefault | targetShorthand | targetProperty | blockStatement
  | breakStatement (label : Option String) | continueStatement (label : Option String)
  | debuggerStatement | doWhile | emptyStatement | expressionStatement | forIn | forOf | forLoop
  | ifStatement | labeled (label : String) | returnStatement | switchStatement | switchWithDefault
  | throwStatement | tryCatch | tryFinally | variableStatement | whileLoop | withStatement | block
  | switchCase | switchDefault | catchClause | declaration (kind : DeclarationKind) | declarator
  | boolean (value : Bool) | infinity | null | number (value : Double)
  | regExp (pattern : String) (flags : RegExpFlags) | string (value : String) | array | object
  | functionExpression (isAsync isGenerator : Bool) | classExpression | this
  | template (tagged : Bool) (texts : List String) | newTarget | staticMember (property : String)
  | computedMember | call | construct | unary (operator : UnaryOperator)
  | update (before : Bool) (operator : UpdateOperator) | binary (operator : BinaryOperator)
  | conditional | assign | compoundAssign (operator : AssignmentOperator) | arrow (isAsync : Bool)
  | await | yield | yieldFrom | identifier (name : String) | super | spread
  | templateText (raw : String)
  deriving DecidableEq, Repr

namespace Head

/-- The name of a node. -/
def name : Head → String
  | script => Shape.script.name
  | moduleBody => Shape.moduleBody.name
  | directive _ => Shape.directive.name
  | importNamed _ => Shape.importNamed.name
  | importNamespace _ => Shape.importNamespace.name
  | importSpecifier _ => Shape.importSpecifier.name
  | exportAll _ => Shape.exportAll.name
  | exportFrom _ => Shape.exportFrom.name
  | exportFromSpecifier _ _ => Shape.exportFromSpecifier.name
  | exportLocals => Shape.exportLocals.name
  | exportLocalSpecifier _ => Shape.exportLocalSpecifier.name
  | exportDeclared => Shape.exportDeclared.name
  | exportDefault => Shape.exportDefault.name
  | function _ _ => Shape.function.name
  | parameters => Shape.parameters.name
  | bindingWithDefault => Shape.bindingWithDefault.name
  | functionBody => Shape.functionBody.name
  | classDeclaration => Shape.classDeclaration.name
  | classElement _ => Shape.classElement.name
  | method _ _ => Shape.method.name
  | getter => Shape.getter.name
  | setter => Shape.setter.name
  | computedName => Shape.computedName.name
  | staticName _ => Shape.staticName.name
  | dataProperty => Shape.dataProperty.name
  | shorthandProperty => Shape.shorthandProperty.name
  | bindingName _ => Shape.bindingName.name
  | arrayBinding => Shape.arrayBinding.name
  | objectBinding => Shape.objectBinding.name
  | bindingShorthand => Shape.bindingShorthand.name
  | bindingProperty => Shape.bindingProperty.name
  | arrayTarget => Shape.arrayTarget.name
  | objectTarget => Shape.objectTarget.name
  | staticMemberTarget _ => Shape.staticMemberTarget.name
  | computedMemberTarget => Shape.computedMemberTarget.name
  | targetName _ => Shape.targetName.name
  | targetWithDefault => Shape.targetWithDefault.name
  | targetShorthand => Shape.targetShorthand.name
  | targetProperty => Shape.targetProperty.name
  | blockStatement => Shape.blockStatement.name
  | breakStatement _ => Shape.breakStatement.name
  | continueStatement _ => Shape.continueStatement.name
  | debuggerStatement => Shape.debuggerStatement.name
  | doWhile => Shape.doWhile.name
  | emptyStatement => Shape.emptyStatement.name
  | expressionStatement => Shape.expressionStatement.name
  | forIn => Shape.forIn.name
  | forOf => Shape.forOf.name
  | forLoop => Shape.forLoop.name
  | ifStatement => Shape.ifStatement.name
  | labeled _ => Shape.labeled.name
  | returnStatement => Shape.returnStatement.name
  | switchStatement => Shape.switchStatement.name
  | switchWithDefault => Shape.switchWithDefault.name
  | throwStatement => Shape.throwStatement.name
  | tryCatch => Shape.tryCatch.name
  | tryFinally => Shape.tryFinally.name
  | variableStatement => Shape.variableStatement.name
  | whileLoop => Shape.whileLoop.name
  | withStatement => Shape.withStatement.name
  | block => Shape.block.name
  | switchCase => Shape.switchCase.name
  | switchDefault => Shape.switchDefault.name
  | catchClause => Shape.catchClause.name
  | declaration _ => Shape.declaration.name
  | declarator => Shape.declarator.name
  | boolean _ => Shape.boolean.name
  | infinity => Shape.infinity.name
  | null => Shape.null.name
  | number _ => Shape.number.name
  | regExp _ _ => Shape.regExp.name
  | string _ => Shape.string.name
  | array => Shape.array.name
  | object => Shape.object.name
  | functionExpression _ _ => Shape.functionExpression.name
  | classExpression => Shape.classExpression.name
  | this => Shape.this.name
  | template _ _ => Shape.template.name
  | newTarget => Shape.newTarget.name
  | staticMember _ => Shape.staticMember.name
  | computedMember => Shape.computedMember.name
  | call => Shape.call.name
  | construct => Shape.construct.name
  | unary _ => Shape.unary.name
  | update _ _ => Shape.update.name
  | binary _ => Shape.binary.name
  | conditional => Shape.conditional.name
  | assign => Shape.assign.name
  | compoundAssign _ => Shape.compoundAssign.name
  | arrow _ => Shape.arrow.name
  | await => Shape.await.name
  | yield => Shape.yield.name
  | yieldFrom => Shape.yieldFrom.name
  | identifier _ => Shape.identifier.name
  | super => Shape.super.name
  | spread => Shape.spread.name
  | templateText _ => Shape.templateText.name

end Head

namespace Tree

/-! ### Visits -/

/-- Is an optional tree there? -/
def isPresent {c : Category} : Tree (.option c) → Bool
  | present _ => true
  | absent => false

/-- The texts among the parts of a template.  Trees of other categories have none. -/
def texts {c : Category} : Tree c → List String
  | cons (templateText raw) ps => raw :: ps.texts
  | cons _ ps => ps.texts
  | _ => []

/-- Visit a tree.  The result has one member for each outermost node: one for a node itself, and
one for each node of a list. -/
def visit {α : Type} (step : Head → List α → α) {c : Category} : Tree c → List α
  | nil => []
  | cons t ts => t.visit step ++ ts.visit step
  | absent => []
  | present t => t.visit step
  | script ds ss => [step .script (ds.visit step ++ ss.visit step)]
  | moduleBody ds is => [step .moduleBody (ds.visit step ++ is.visit step)]
  | directive raw => [step (.directive raw) []]
  | ofImport d => d.visit step
  | ofExport d => d.visit step
  | ofStatement s => s.visit step
  | importNamed d ns m => [step (.importNamed m) (d.visit step ++ ns.visit step)]
  | importNamespace d n m => [step (.importNamespace m) (d.visit step ++ n.visit step)]
  | importSpecifier n b => [step (.importSpecifier n) (b.visit step)]
  | exportAll m => [step (.exportAll m) []]
  | exportFrom ns m => [step (.exportFrom m) (ns.visit step)]
  | exportFromSpecifier n x => [step (.exportFromSpecifier n x) []]
  | exportLocals ns => [step .exportLocals (ns.visit step)]
  | exportLocalSpecifier n x => [step (.exportLocalSpecifier x) (n.visit step)]
  | exportDeclared d => [step .exportDeclared (d.visit step)]
  | exportDefault b => [step .exportDefault (b.visit step)]
  | ofExportedFunction h => h.visit step
  | ofExportedClass d => d.visit step
  | ofExportedVariables d => d.visit step
  | ofDefaultExpression e => e.visit step
  | ofDefaultFunction h => h.visit step
  | ofDefaultClass d => d.visit step
  | function a g n ps b => [step (.function a g) (n.visit step ++ ps.visit step ++ b.visit step)]
  | parameters is r => [step .parameters (is.visit step ++ r.visit step)]
  | ofBinding b => b.visit step
  | bindingWithDefault b v => [step .bindingWithDefault (b.visit step ++ v.visit step)]
  | functionBody ds ss => [step .functionBody (ds.visit step ++ ss.visit step)]
  | classDeclaration n p es =>
    [step .classDeclaration (n.visit step ++ p.visit step ++ es.visit step)]
  | classElement s m => [step (.classElement s) (m.visit step)]
  | method a g n ps b => [step (.method a g) (n.visit step ++ ps.visit step ++ b.visit step)]
  | getter n b => [step .getter (n.visit step ++ b.visit step)]
  | setter n p b => [step .setter (n.visit step ++ p.visit step ++ b.visit step)]
  | computedName e => [step .computedName (e.visit step)]
  | staticName v => [step (.staticName v) []]
  | dataProperty n v => [step .dataProperty (n.visit step ++ v.visit step)]
  | shorthandProperty n => [step .shorthandProperty (n.visit step)]
  | ofMethod m => m.visit step
  | bindingName n => [step (.bindingName n) []]
  | ofBindingName n => n.visit step
  | arrayBinding es r => [step .arrayBinding (es.visit step ++ r.visit step)]
  | objectBinding ps => [step .objectBinding (ps.visit step)]
  | bindingShorthand n v => [step .bindingShorthand (n.visit step ++ v.visit step)]
  | bindingProperty n b => [step .bindingProperty (n.visit step ++ b.visit step)]
  | ofSimpleTarget t => t.visit step
  | arrayTarget es r => [step .arrayTarget (es.visit step ++ r.visit step)]
  | objectTarget ps => [step .objectTarget (ps.visit step)]
  | ofTargetName n => n.visit step
  | staticMemberTarget o p => [step (.staticMemberTarget p) (o.visit step)]
  | computedMemberTarget o e => [step .computedMemberTarget (o.visit step ++ e.visit step)]
  | targetName n => [step (.targetName n) []]
  | ofTarget t => t.visit step
  | targetWithDefault t v => [step .targetWithDefault (t.visit step ++ v.visit step)]
  | targetShorthand n v => [step .targetShorthand (n.visit step ++ v.visit step)]
  | targetProperty n t => [step .targetProperty (n.visit step ++ t.visit step)]
  | blockStatement b => [step .blockStatement (b.visit step)]
  | breakStatement l => [step (.breakStatement l) []]
  | continueStatement l => [step (.continueStatement l) []]
  | debuggerStatement => [step .debuggerStatement []]
  | doWhile b t => [step .doWhile (b.visit step ++ t.visit step)]
  | emptyStatement => [step .emptyStatement []]
  | expressionStatement e => [step .expressionStatement (e.visit step)]
  | forIn t o b => [step .forIn (t.visit step ++ o.visit step ++ b.visit step)]
  | forOf t is b => [step .forOf (t.visit step ++ is.visit step ++ b.visit step)]
  | forLoop i t u b =>
    [step .forLoop (i.visit step ++ t.visit step ++ u.visit step ++ b.visit step)]
  | ifStatement t s a => [step .ifStatement (t.visit step ++ s.visit step ++ a.visit step)]
  | labeled l b => [step (.labeled l) (b.visit step)]
  | returnStatement e => [step .returnStatement (e.visit step)]
  | switchStatement d cs => [step .switchStatement (d.visit step ++ cs.visit step)]
  | switchWithDefault d before d₂ after =>
    [step .switchWithDefault
      (d.visit step ++ before.visit step ++ d₂.visit step ++ after.visit step)]
  | throwStatement e => [step .throwStatement (e.visit step)]
  | tryCatch b c => [step .tryCatch (b.visit step ++ c.visit step)]
  | tryFinally b c h => [step .tryFinally (b.visit step ++ c.visit step ++ h.visit step)]
  | variableStatement d => [step .variableStatement (d.visit step)]
  | whileLoop t b => [step .whileLoop (t.visit step ++ b.visit step)]
  | withStatement o b => [step .withStatement (o.visit step ++ b.visit step)]
  | ofFunction h => h.visit step
  | ofClass d => d.visit step
  | block ss => [step .block (ss.visit step)]
  | switchCase t s => [step .switchCase (t.visit step ++ s.visit step)]
  | switchDefault s => [step .switchDefault (s.visit step)]
  | catchClause b s => [step .catchClause (b.visit step ++ s.visit step)]
  | declaration k ds => [step (.declaration k) (ds.visit step)]
  | declarator b v => [step .declarator (b.visit step ++ v.visit step)]
  | ofLoopTarget t => t.visit step
  | ofLoopDeclaration d => d.visit step
  | ofStartExpression e => e.visit step
  | ofStartDeclaration d => d.visit step
  | boolean v => [step (.boolean v) []]
  | infinity => [step .infinity []]
  | null => [step .null []]
  | number v => [step (.number v) []]
  | regExp p fs => [step (.regExp p fs) []]
  | string v => [step (.string v) []]
  | array es => [step .array (es.visit step)]
  | object ps => [step .object (ps.visit step)]
  | functionExpression a g n ps b =>
    [step (.functionExpression a g) (n.visit step ++ ps.visit step ++ b.visit step)]
  | classExpression n p es =>
    [step .classExpression (n.visit step ++ p.visit step ++ es.visit step)]
  | ofIdentifier n => n.visit step
  | this => [step .this []]
  | template t ps => [step (.template t.isPresent ps.texts) (t.visit step ++ ps.visit step)]
  | newTarget => [step .newTarget []]
  | staticMember o p => [step (.staticMember p) (o.visit step)]
  | computedMember o e => [step .computedMember (o.visit step ++ e.visit step)]
  | call h as => [step .call (h.visit step ++ as.visit step)]
  | construct h as => [step .construct (h.visit step ++ as.visit step)]
  | unary op e => [step (.unary op) (e.visit step)]
  | update before op e => [step (.update before op) (e.visit step)]
  | binary l op r => [step (.binary op) (l.visit step ++ r.visit step)]
  | conditional t s a => [step .conditional (t.visit step ++ s.visit step ++ a.visit step)]
  | assign t v => [step .assign (t.visit step ++ v.visit step)]
  | compoundAssign t op v => [step (.compoundAssign op) (t.visit step ++ v.visit step)]
  | arrow a ps b => [step (.arrow a) (ps.visit step ++ b.visit step)]
  | await e => [step .await (e.visit step)]
  | yield e => [step .yield (e.visit step)]
  | yieldFrom e => [step .yieldFrom (e.visit step)]
  | identifier n => [step (.identifier n) []]
  | ofCallee e => e.visit step
  | super => [step .super []]
  | ofArgument e => e.visit step
  | spread e => [step .spread (e.visit step)]
  | ofSubstitution e => e.visit step
  | templateText raw => [step (.templateText raw) []]
  | ofExpressionBody e => e.visit step
  | ofFunctionBody b => b.visit step

end Tree

end EcmaPrinter
