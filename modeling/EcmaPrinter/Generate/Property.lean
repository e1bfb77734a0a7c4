import EcmaPrinter.Generate.Basic
import EcmaPrinter.Number.Format
import EcmaPrinter.Text.Identifier

/-!
Code of property names and of the properties of objects.
-/

namespace EcmaPrinter.Generate

open EcmaPrinter
open EcmaPrinter.Number
open EcmaPrinter.Text

/-- A property name that is computed. -/
def computedName (e : Operand) : Fragment :=
  .bracket e.single

/-- The number that has exactly the given text, if there is one and it is not negative. -/
def numberNamed? (value : String) : Option Double :=
  (readDouble? value).filter fun n =>
    n.isFinite && (!n.negative || n.isZero) && n.canonical == value

/-- A literal property name: bare if it is an identifier name, a number if that number has this
text, and otherwise quoted. -/
def staticName (spell : String → String) (value : String) : Fragment :=
  if isIdentifierName value then .token (spell value)
  else match numberNamed? value with
    | some n => .number n
    | none => stringLiteral spell value

/-- A property with a value. -/
def dataProperty (name : Fragment) (value : Operand) : Fragment :=
  .sequence [name, .token ":", value.single]

end EcmaPrinter.Generate
