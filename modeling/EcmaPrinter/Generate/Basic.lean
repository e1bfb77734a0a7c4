import EcmaPrinter.Fragment.Basic
import EcmaPrinter.Operator
import EcmaPrinter.Text.Quoted

/-!
Pieces of code that many shapes of trees share.

Names, string literals and template texts pass through a function `spell`, which leaves them
alone or makes them safe for the web.
-/

namespace EcmaPrinter.Generate

open EcmaPrinter
open EcmaPrinter.Text

/-! ### Operands -/

/-- The code of an expression with its precedence. -/
structure Operand where
  code : Fragment
  precedence : Precedence

/-- The operand in a place that demands a precedence: in parentheses if its own is less. -/
def Operand.within (least : Precedence) (e : Operand) : Fragment :=
  if e.precedence < least then .paren e.code else e.code

/-- The operand where a bare comma expression cannot stand. -/
def Operand.single (e : Operand) : Fragment :=
  e.within .assignment

/-! ### Names and literals -/

/-- A name.  The name `let` is marked, because a statement may not start with it freely. -/
def name (spell : String → String) (name : String) : Fragment :=
  (Fragment.token (spell name)).withMarks { startsWithLet := name == "let" }

/-- A string literal. -/
def stringLiteral (spell : String → String) (value : String) : Fragment :=
  .token (spell (quote value))

/-- A keyword that is there or not. -/
def keywordIf (present : Bool) (keyword : String) : Fragment :=
  if present then .token keyword else .empty

/-- A fragment that may be missing. -/
def orEmpty (f? : Option Fragment) : Fragment :=
  f?.getD .empty

/-! ### Lists -/

/-- Fragments on a line each. -/
def lines (items : List Fragment) : Fragment :=
  .sequence (items.map .line)

/-- Fragments on a line each, in braces. -/
def block (items : List Fragment) : Fragment :=
  .brace (.indent (lines items))

/-- The rest of a list behind its dots. -/
def rest (f : Fragment) : Fragment :=
  .sequence [.token "...", f]

/-- Is the last element of an array a hole? -/
def endsInHole (elements : List (Option Fragment)) : Bool :=
  match elements.getLast? with
  | some none => true
  | _ => false

/-- The elements of an array literal or pattern.  A hole at the end takes one more comma. -/
def arrayElements (elements : List (Option Fragment)) (rest? : Option Fragment) : Fragment :=
  let items := elements.map orEmpty
  let ending := match rest? with
    | some r => [rest r]
    | none => if endsInHole elements then [.empty] else []
  .bracket (.separated (items ++ ending))

/-- Properties in braces. -/
def properties (items : List Fragment) : Fragment :=
  .brace (.separated items)

/-! ### Prologues -/

/-- A string literal as the first statement would be read as a directive: put it in parentheses. -/
def directiveSafe : Fragment → Fragment
  | .wrap _ .stringStatement e => .sequence [.paren e, .statementEnd]
  | f => f

/-- Directives and statements, on a line each.  The first statement is kept from being read as a
directive. -/
def prologue (directives : List Fragment) : (statements : List Fragment) → Fragment
  | [] => lines directives
  | first :: others => lines (directives ++ directiveSafe first :: others)

/-! ### Defaults -/

/-- A binding or target with a default value. -/
def withDefault (binding : Fragment) (value : Operand) : Fragment :=
  .declarator binding (some value.single)

/-- A binding or target that may have a default value. -/
def withDefault? (binding : Fragment) : (value? : Option Operand) → Fragment
  | some value => withDefault binding value
  | none => binding

/-- A name and a colon before a binding or target. -/
def renamed (name binding : Fragment) : Fragment :=
  .sequence [name, .token ":", binding]

/-- A name, and the name it goes by. -/
def asName (spell : String → String) (name : Fragment) : (other? : Option String) → Fragment
  | some other => .sequence [name, .token "as", .token (spell other)]
  | none => name

end EcmaPrinter.Generate
