import EcmaPrinter.Generate.Expression
import EcmaPrinter.Generate.Function
import EcmaPrinter.Generate.Modules
import EcmaPrinter.Generate.Property
import EcmaPrinter.Generate.Statement

/-!
The code of a tree.

What the code of a tree is depends on its category: a list of trees gives a list of codes, an
expression an operand, and most other trees a fragment.  The recursion only hands the codes of
the parts to the function for the shape at hand.
-/

namespace EcmaPrinter

open EcmaPrinter.Generate
open EcmaPrinter.Number

/-- What the trees of a category become. -/
@[reducible]
def Code : Category → Type
  | .list c => List (Code c)
  | .option c => Option (Code c)
  | .expression => Operand
  | .callee => Operand
  | .templatePart => Chunk
  -- an exported declaration or expression comes with its end
  | .exportable => List Fragment
  | .defaultExport => List Fragment
  | _ => Fragment

namespace Tree

/-- The operand that an expression becomes. -/
def operand (e : Expression) (code : Fragment) : Operand :=
  ⟨code, e.precedence⟩

/-- The name of a declaration, unless it stands for a missing one. -/
def declaredName (name : Tree .bindingName) (code : Fragment) : Option Fragment :=
  if name.isDefaultName then none else some code

/-- The code of a tree. -/
def code (spell : String → String) {c : Category} : Tree c → Code c
  | nil => []
  | cons t ts => t.code spell :: ts.code spell
  | absent => none
  | present t => some (t.code spell)
  -- programs and modules
  | script ds ss => prologue (ds.code spell) (ss.code spell)
  | moduleBody ds is => prologue (ds.code spell) (is.code spell)
  | directive raw => Generate.directive spell raw
  | ofImport d => d.code spell
  | ofExport d => d.code spell
  | ofStatement s => s.code spell
  | importNamed d ns specifier =>
    Generate.importNamed spell (d.code spell) (ns.code spell) specifier
  | importNamespace d n specifier =>
    Generate.importNamespace spell (d.code spell) (n.code spell) specifier
  | importSpecifier name? b => Generate.importSpecifier spell name? (b.code spell)
  | exportAll specifier => Generate.exportAll spell specifier
  | exportFrom ns specifier => Generate.exportFrom spell (ns.code spell) specifier
  | exportFromSpecifier name exported? => asName spell (.token (spell name)) exported?
  | exportLocals ns => Generate.exportLocals (ns.code spell)
  | exportLocalSpecifier name exported? => asName spell (name.code spell) exported?
  | exportDeclared d => Generate.exportDeclared (d.code spell)
  | exportDefault b => Generate.exportDefault (b.code spell)
  | ofExportedFunction f => [f.code spell]
  | ofExportedClass d => [d.code spell]
  | ofExportedVariables d => [d.code spell, .statementEnd]
  | ofDefaultExpression e => defaultExpression (e.code spell)
  | ofDefaultFunction f => [f.code spell]
  | ofDefaultClass d => [d.code spell]
  -- functions and classes
  | function isAsync isGenerator n ps b =>
    Generate.function isAsync isGenerator (declaredName n (n.code spell)) (ps.code spell)
      (b.code spell)
  | parameters is r => Generate.parameters (is.code spell) (r.code spell)
  | ofBinding b => b.code spell
  | bindingWithDefault b v => withDefault (b.code spell) (v.code spell)
  | functionBody ds ss => Generate.functionBody (ds.code spell) (ss.code spell)
  | classDeclaration n p es =>
    classCode (declaredName n (n.code spell)) (p.code spell) (es.code spell)
  | classElement isStatic m => Generate.classElement isStatic (m.code spell)
  | method isAsync isGenerator n ps b =>
    Generate.method isAsync isGenerator (n.code spell) (ps.code spell) (b.code spell)
  | getter n b => Generate.getter (n.code spell) (b.code spell)
  | setter n p b => Generate.setter (n.code spell) (p.code spell) (b.code spell)
  -- properties
  | computedName e => Generate.computedName (e.code spell)
  | staticName value => Generate.staticName spell value
  | dataProperty n v => Generate.dataProperty (n.code spell) (v.code spell)
  | shorthandProperty n => Fragment.withMarks {} (n.code spell)
  | ofMethod m => m.code spell
  -- bindings
  | bindingName n => name spell n
  | ofBindingName n => n.code spell
  | arrayBinding es r => arrayElements (es.code spell) (r.code spell)
  | objectBinding ps => properties (ps.code spell)
  | bindingShorthand n v => withDefault? (n.code spell) (v.code spell)
  | bindingProperty n b => renamed (n.code spell) (b.code spell)
  -- assignment targets
  | ofSimpleTarget t => t.code spell
  | arrayTarget es r => arrayElements (es.code spell) (r.code spell)
  | objectTarget ps => Generate.object (ps.code spell)
  | ofTargetName n => n.code spell
  | staticMemberTarget o property => Generate.staticMember spell (o.code spell) property
  | computedMemberTarget o e => Generate.computedMember o.isLet (o.code spell) (e.code spell).code
  | targetName n => name spell n
  | ofTarget t => t.code spell
  | targetWithDefault t v => withDefault (t.code spell) (v.code spell)
  | targetShorthand n v => withDefault? (n.code spell) (v.code spell)
  | targetProperty n t => renamed (n.code spell) (t.code spell)
  -- statements
  | blockStatement b => b.code spell
  | breakStatement label? => jump spell "break" label?
  | continueStatement label? => jump spell "continue" label?
  | debuggerStatement => .sequence [.token "debugger", .statementEnd]
  | doWhile b t => Generate.doWhile (b.code spell) (t.code spell).code
  | emptyStatement => .semicolon
  | expressionStatement e => Generate.expressionStatement e.isString (e.code spell).code
  | forIn l o b =>
    Generate.forIn l.isDeclaration (l.code spell) (o.code spell).code (b.code spell)
  | forOf l is b => Generate.forOf l.isDeclaration (l.code spell) (is.code spell) (b.code spell)
  | forLoop s t u b =>
    Generate.forLoop (s.code spell) ((t.code spell).map (·.code)) ((u.code spell).map (·.code))
      (b.code spell)
  | ifStatement t s a => Generate.ifStatement (t.code spell).code (s.code spell) (a.code spell)
  | labeled label b => Generate.labeled spell label (b.code spell)
  | returnStatement e =>
    keywordStatement "return" (orEmpty ((e.code spell).map (·.code)))
  | switchStatement d cs => switch (d.code spell).code (cs.code spell)
  | switchWithDefault d before fallback after =>
    switch (d.code spell).code (before.code spell ++ fallback.code spell :: after.code spell)
  | throwStatement e => keywordStatement "throw" (e.code spell).code
  | tryCatch b cl => Generate.tryCatch (b.code spell) (cl.code spell)
  | tryFinally b cl f => Generate.tryFinally (b.code spell) (cl.code spell) (f.code spell)
  | variableStatement d => .sequence [d.code spell, .statementEnd]
  | whileLoop t b => headed "while" (t.code spell).code (b.code spell)
  | withStatement o b => headed "with" (o.code spell).code (b.code spell)
  | ofFunction f => f.code spell
  | ofClass d => d.code spell
  | block ss => Generate.block (ss.code spell)
  | switchCase t ss => Generate.switchCase (t.code spell).code (ss.code spell)
  | switchDefault ss => Generate.switchDefault (ss.code spell)
  | catchClause b s => Generate.catchClause (b.code spell) (s.code spell)
  | declaration kind ds => Generate.declaration kind (ds.code spell)
  | declarator b v => Generate.declarator (b.code spell) ((v.code spell).map (·.code))
  | ofLoopTarget t => t.code spell
  | ofLoopDeclaration d => d.code spell
  | ofStartExpression e => (e.code spell).code
  | ofStartDeclaration d => d.code spell
  -- expressions
  | boolean value => operand (boolean value) (Generate.boolean value)
  | infinity => operand infinity (.number (Double.infinity false))
  | null => operand null (.token "null")
  | number value => operand (number value) (.number value)
  | regExp pattern flags => operand (regExp pattern flags) (Generate.regExp pattern flags)
  | string value => operand (string value) (stringLiteral spell value)
  | array es => operand (array es) (arrayElements (es.code spell) none)
  | object ps => operand (object ps) (Generate.object (ps.code spell))
  | functionExpression isAsync isGenerator n ps b =>
    operand (functionExpression isAsync isGenerator n ps b)
      ((Generate.function isAsync isGenerator (n.code spell) (ps.code spell)
        (b.code spell)).withMarks functionMarks)
  | classExpression n p es =>
    operand (classExpression n p es)
      ((classCode (n.code spell) (p.code spell) (es.code spell)).withMarks functionMarks)
  | ofIdentifier n => operand (ofIdentifier n) (n.code spell)
  | this => operand this (.token "this")
  | template t ps =>
    operand (template t ps) (Generate.template spell (t.code spell) (ps.code spell))
  | newTarget => operand newTarget Generate.newTarget
  | staticMember o property =>
    operand (staticMember o property) (Generate.staticMember spell (o.code spell) property)
  | computedMember o e =>
    operand (computedMember o e)
      (Generate.computedMember o.isLet (o.code spell) (e.code spell).code)
  | call f as => operand (call f as) (Generate.call (f.code spell) (as.code spell))
  | construct f as =>
    operand (construct f as) (Generate.construct (f.code spell) (as.code spell))
  | unary op e => operand (unary op e) (Generate.unary op.text (e.code spell))
  | update before op t => operand (update before op t) (Generate.update before op (t.code spell))
  | binary l op r =>
    operand (binary l op r)
      (Generate.binary l.isPrefixed (l.code spell) op (r.code spell))
  | conditional t s a =>
    operand (conditional t s a)
      (Generate.conditional (t.code spell) (s.code spell) (a.code spell))
  | assign t v => operand (assign t v) (assignment (t.code spell) "=" (v.code spell))
  | compoundAssign t op v =>
    operand (compoundAssign t op v) (assignment (t.code spell) op.text (v.code spell))
  | arrow isAsync ps b =>
    operand (arrow isAsync ps b)
      (Generate.arrow isAsync ps.isSingleName (ps.code spell) (b.code spell))
  | await e => operand (await e) (Generate.unary "await" (e.code spell))
  | yield e => operand (yield e) (yieldCode (e.code spell))
  | yieldFrom e => operand (yieldFrom e) (Generate.yieldFrom (e.code spell))
  | identifier n => name spell n
  | ofCallee e => e.code spell
  | super => ⟨.token "super", .primary⟩
  | ofArgument e => (e.code spell).single
  | spread e => rest (e.code spell).single
  | ofSubstitution e => .hole (e.code spell).code
  | templateText raw => .text raw
  | ofExpressionBody e => expressionBody (e.code spell)
  | ofFunctionBody b => .brace (b.code spell)

end Tree

end EcmaPrinter
