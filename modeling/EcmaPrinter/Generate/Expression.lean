import EcmaPrinter.Generate.Basic
import EcmaPrinter.Number.Double
import EcmaPrinter.Tree.Precedence

/-!
Code of expressions, and of the assignment targets that look like them.
-/

namespace EcmaPrinter.Generate

open EcmaPrinter
open EcmaPrinter.Number

/-! ### Literals -/

/-- A Boolean. -/
def boolean (value : Bool) : Fragment :=
  .token (if value then "true" else "false")

/-- A regular expression. -/
def regExp (pattern : String) (flags : RegExpFlags) : Fragment :=
  .token (String.ofList ('/' :: (pattern.toList ++ '/' :: flags.text.toList)))

/-- An object literal or pattern that starts with its brace. -/
def object (items : List Fragment) : Fragment :=
  (properties items).withMarks { startsWithCurly := true }

/-- The pseudo property `new.target`. -/
def newTarget : Fragment :=
  .sequence [.token "new", .token ".", .token "target"]

/-! ### Members, calls and templates -/

/-- An object in front of a member access. -/
def memberObject (o : Operand) : Fragment :=
  o.within (.ofMember o.precedence)

/-- A member with a fixed name. -/
def staticMember (spell : String → String) (o : Operand) (property : String) : Fragment :=
  let base := memberObject o
  (Fragment.sequence [base, .token ".", .token (spell property)]).withMarks base.marks.leading

/-- A member with a computed name; `isLet` tells that the object is the name `let`. -/
def computedMember (isLet : Bool) (o : Operand) (e : Fragment) : Fragment :=
  let base := memberObject o
  let marks := base.marks.leading
  (Fragment.sequence [base, .bracket e]).withMarks
    { marks with startsWithLetBracket := isLet || marks.startsWithLetBracket }

/-- Arguments in parentheses. -/
def arguments (items : List Fragment) : Fragment :=
  .paren (.separated items)

/-- A call. -/
def call (callee : Operand) (items : List Fragment) : Fragment :=
  let base := callee.within .call
  (Fragment.sequence [base, arguments items]).withMarks base.marks.leading

/-- The callee of a `new` expression.  A call in it would end the callee, so it takes
parentheses. -/
def constructCallee (callee : Operand) (bare : Bool) : Fragment :=
  if callee.precedence = .call then .paren callee.code
  else callee.within (if bare then .construction else .member)

/-- A `new` expression; without arguments it has no parentheses. -/
def construct (callee : Operand) (items : List Fragment) : Fragment :=
  .sequence
    [.token "new", constructCallee callee items.isEmpty,
     if items.isEmpty then .empty else arguments items]

/-- A part of a template. -/
inductive Chunk where
  | text (raw : String)
  | hole (code : Fragment)

/-- The code of a part of a template.  Texts of tagged templates are kept as they are. -/
def Chunk.code (spell : String → String) (tagged : Bool) : Chunk → List Fragment
  | .text raw => [.raw (if tagged then raw else spell raw)]
  | .hole e => [.token "$\x7b", e, .token "\x7d"]

/-- A template, which may have a tag. -/
def template (spell : String → String) (tag? : Option Operand) (parts : List Chunk) : Fragment :=
  let body := .token "\x60" :: (parts.flatMap (·.code spell tag?.isSome) ++ [.token "\x60"])
  match tag? with
  | some tag =>
    let base := memberObject tag
    (Fragment.sequence (base :: body)).withMarks base.marks.leading
  | none => .sequence body

/-! ### Operators -/

/-- An operator before its operand. -/
def unary (op : String) (operand : Operand) : Fragment :=
  .sequence [.token op, operand.within .unary]

/-- Counting up or down, before or after the operand. -/
def update (before : Bool) (op : UpdateOperator) (operand : Fragment) : Fragment :=
  if before then .sequence [.token op.text, operand]
  else (Fragment.sequence [operand, .token op.text]).withMarks operand.marks.leading

/-- The left operand of a binary operator.  A power groups to the right and takes no bare unary
expression on its left. -/
def leftOperand (op : BinaryOperator) (isPrefixed : Bool) (e : Operand) : Fragment :=
  if op.isRightAssociative then
    if e.precedence ≤ op.precedence || isPrefixed then .paren e.code else e.code
  else e.within op.precedence

/-- The right operand of a binary operator. -/
def rightOperand (op : BinaryOperator) (e : Operand) : Fragment :=
  if op.isRightAssociative then e.within op.precedence
  else if e.precedence ≤ op.precedence then .paren e.code else e.code

/-- The marks of a binary expression with the given operands. -/
def binaryMarks (op : BinaryOperator) (left right : Marks) : Marks :=
  { left.leading with
    containsIn := left.containsIn || right.containsIn || op == .isIn
    containsGroup := op == .sequence }

/-- A binary expression; `isPrefixed` tells that the left operand is a unary expression. -/
def binary (isPrefixed : Bool) (left : Operand) (op : BinaryOperator) (right : Operand) :
    Fragment :=
  let l := leftOperand op isPrefixed left
  let r := rightOperand op right
  let code :=
    if op == .sequence then Fragment.separated [l, r] else .sequence [l, .operator op.text, r]
  code.withMarks (binaryMarks op l.marks r.marks)

/-- A conditional expression.  An `in` is never misread in its middle part. -/
def conditional (test consequent alternate : Operand) : Fragment :=
  let t := test.within .logicalOr
  let c := consequent.single
  let a := alternate.single
  (Fragment.sequence [t, .operator "?", c, .operator ":", a]).withMarks
    { t.marks.leading with containsIn := t.marks.containsIn || a.marks.containsIn }

/-- An assignment with the given operator. -/
def assignment (target : Fragment) (op : String) (value : Operand) : Fragment :=
  let v := value.single
  (Fragment.sequence [target, .operator op, v]).withMarks
    { target.marks.leading with containsIn := v.marks.containsIn }

/-- A `yield` with or without a value. -/
def yieldCode : (value? : Option Operand) → Fragment
  | some value =>
    let v := value.single
    (Fragment.sequence [.token "yield", v]).withMarks v.marks.onlyIn
  | none => .token "yield"

/-- A `yield` of all values of another generator. -/
def yieldFrom (value : Operand) : Fragment :=
  let v := value.single
  (Fragment.sequence [.token "yield", .token "*", v]).withMarks v.marks.onlyIn

end EcmaPrinter.Generate
