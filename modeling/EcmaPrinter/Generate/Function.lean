import EcmaPrinter.Generate.Basic

/-!
Code of functions, classes and methods.
-/

namespace EcmaPrinter.Generate

open EcmaPrinter

/-- A parameter list without its parentheses. -/
def parameters (items : List Fragment) (rest? : Option Fragment) : Fragment :=
  .separated (items ++ (rest?.map rest).toList)

/-- The body of a function without its braces. -/
def functionBody (directives statements : List Fragment) : Fragment :=
  .indent (prologue directives statements)

/-- A function with or without a name. -/
def function (isAsync isGenerator : Bool) (name? : Option Fragment) (parameters body : Fragment) :
    Fragment :=
  .sequence <|
    [keywordIf isAsync "async", .token "function", keywordIf isGenerator "*"] ++
      name?.toList ++ [.paren parameters, .brace body]

/-- A class with or without a name and a parent. -/
def classCode (name? : Option Fragment) (parent? : Option Operand) (elements : List Fragment) :
    Fragment :=
  let parent := match parent? with
    | some p => [.token "extends", p.within .construction]
    | none => []
  .sequence ([.token "class"] ++ name?.toList ++ parent ++ [block elements])

/-- The marks of functions and classes as expressions. -/
def functionMarks : Marks :=
  { startsWithFunctionOrClass := true }

/-- A member of a class. -/
def classElement (isStatic : Bool) (method : Fragment) : Fragment :=
  if isStatic then .sequence [.token "static", method] else method

/-- A method. -/
def method (isAsync isGenerator : Bool) (name parameters body : Fragment) : Fragment :=
  .sequence
    [keywordIf isAsync "async", keywordIf isGenerator "*", name, .paren parameters, .brace body]

/-- A getter. -/
def getter (name body : Fragment) : Fragment :=
  .sequence [.token "get", name, .paren .empty, .brace body]

/-- A setter. -/
def setter (name parameter body : Fragment) : Fragment :=
  .sequence [.token "set", name, .paren parameter, .brace body]

/-! ### Arrows -/

/-- The expression that an arrow returns.  An object is kept from being read as a block. -/
def expressionBody (e : Operand) : Fragment :=
  let body := e.single
  if body.marks.startsWithCurly then .paren body else body

/-- An arrow; one plain name needs no parentheses. -/
def arrow (isAsync isSingleName : Bool) (parameters body : Fragment) : Fragment :=
  let head := if isSingleName then parameters else .paren parameters
  (Fragment.sequence [keywordIf isAsync "async", head, .operator "=>", body]).withMarks
    body.marks.onlyIn

end EcmaPrinter.Generate
