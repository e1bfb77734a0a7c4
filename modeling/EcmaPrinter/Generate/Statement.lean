import EcmaPrinter.Generate.Basic
import EcmaPrinter.Tree.Basic

/-!
Code of statements.

The mark of a missing `else` travels outwards through everything that a statement can end with;
where an `else` would follow it, the statement goes into a block.
-/

namespace EcmaPrinter.Generate

open EcmaPrinter

/-- A `break` or `continue`, with or without a label. -/
def jump (spell : String → String) (keyword : String) (label? : Option String) : Fragment :=
  .sequence [.token keyword, orEmpty (label?.map fun l => .token (spell l)), .statementEnd]

/-- A statement of a keyword and an expression. -/
def keywordStatement (keyword : String) (e : Fragment) : Fragment :=
  .sequence [.token keyword, e, .statementEnd]

/-- Would the start of the expression make it something else than an expression statement? -/
def isHazardousStart (m : Marks) : Bool :=
  m.startsWithCurly || m.startsWithLetBracket || m.startsWithFunctionOrClass

/-- An expression as a statement; `isString` tells that it is a string literal. -/
def expressionStatement (isString : Bool) (e : Fragment) : Fragment :=
  if isString then .stringStatement e
  else .sequence [if isHazardousStart e.marks then .paren e else e, .statementEnd]

/-- Code that ends in a statement passes its missing `else` on. -/
def endingIn (body : Fragment) (parts : List Fragment) : Fragment :=
  (Fragment.sequence (parts ++ [body])).withMarks body.marks.onlyMissingElse

/-- A statement of a keyword, a head in parentheses and a body. -/
def headed (keyword : String) (head body : Fragment) : Fragment :=
  endingIn body [.token keyword, .paren head]

/-- A `do` loop. -/
def doWhile (body test : Fragment) : Fragment :=
  .sequence [.token "do", body, .token "while", .paren test, .statementEnd]

/-- An assignment target as the left side of a loop. -/
def loopTarget (left : Fragment) : Fragment :=
  if left.marks.startsWithLet then .paren left else left

/-- A loop over the keys of an object. -/
def forIn (isDeclaration : Bool) (left object body : Fragment) : Fragment :=
  let l := if isDeclaration then .noIn (.guardIn left) else loopTarget left
  headed "for" (.sequence [l, .token "in", object]) body

/-- A loop over the values of an iterable. -/
def forOf (isDeclaration : Bool) (left : Fragment) (items : Operand) (body : Fragment) :
    Fragment :=
  let l := if isDeclaration then left else loopTarget left
  headed "for" (.sequence [l, .token "of", items.single]) body

/-- What a `for` loop starts with.  It may not be read as a declaration of a pattern. -/
def loopStart (start : Fragment) : Fragment :=
  .noIn (.guardIn (if start.marks.startsWithLetBracket then .paren start else start))

/-- A `for` loop. -/
def forLoop (start? test? update? : Option Fragment) (body : Fragment) : Fragment :=
  headed "for"
    (.sequence
      [orEmpty (start?.map loopStart), .semicolon, orEmpty test?, .semicolon, orEmpty update?])
    body

/-- A conditional statement.  A consequent that lacks an `else` must not take this one. -/
def ifStatement (test consequent : Fragment) : (alternate? : Option Fragment) → Fragment
  | some alternate =>
    let c := if consequent.marks.endsWithMissingElse then block [consequent] else consequent
    endingIn alternate [.token "if", .paren test, c, .token "else"]
  | none =>
    (Fragment.sequence [.token "if", .paren test, consequent]).withMarks
      { endsWithMissingElse := true }

/-- A labeled statement. -/
def labeled (spell : String → String) (label : String) (body : Fragment) : Fragment :=
  endingIn body [.token (spell label), .token ":"]

/-- A `switch` with all its cases. -/
def switch (discriminant : Fragment) (cases : List Fragment) : Fragment :=
  .sequence [.token "switch", .paren discriminant, block cases]

/-- A case of a `switch`. -/
def switchCase (test : Fragment) (consequent : List Fragment) : Fragment :=
  .sequence [.token "case", test, .token ":", .indent (lines consequent)]

/-- The default case of a `switch`. -/
def switchDefault (consequent : List Fragment) : Fragment :=
  .sequence [.token "default", .token ":", .indent (lines consequent)]

/-- A `try` with a `catch` clause. -/
def tryCatch (body clause : Fragment) : Fragment :=
  .sequence [.token "try", body, clause]

/-- A `try` with a `finally` clause. -/
def tryFinally (body : Fragment) (clause? : Option Fragment) (finalizer : Fragment) : Fragment :=
  .sequence [.token "try", body, orEmpty clause?, .token "finally", finalizer]

/-- A `catch` clause. -/
def catchClause (binding body : Fragment) : Fragment :=
  .sequence [.token "catch", .paren binding, body]

/-! ### Declarations -/

/-- A declaration without its end. -/
def declaration (kind : DeclarationKind) (declarators : List Fragment) : Fragment :=
  .sequence [.token kind.text, .separated declarators]

/-- The value of a declared variable: no bare comma, and guarded against a misread `in`. -/
def declaredValue (value : Fragment) : Fragment :=
  if value.marks.containsGroup then .paren value else .guardIn value

/-- A declared variable. -/
def declarator (binding : Fragment) (value? : Option Fragment) : Fragment :=
  .declarator binding (value?.map declaredValue)

end EcmaPrinter.Generate
