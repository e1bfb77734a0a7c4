import EcmaPrinter.Number.Shortest
import EcmaPrinter.Text.Hex

/-!
Number texts.

* `Double.canonical` is the text a program sees when it turns the number into a string.
* `Double.literal` is a numeric literal made from it that is never longer: trailing zeros become
  an exponent, large integers may be hexadecimal, `0.` loses its zero and `e+` its plus.
* `Double.positional` writes all digits and never an exponent.
-/

namespace EcmaPrinter.Number

open EcmaPrinter.Text

/-! ### Laying out digits -/

/-- A list without the zeros at its end. -/
def trimZeros (digits : List Char) : List Char :=
  (digits.reverse.dropWhile (· == '0')).reverse

/-- The number of zeros at the end of a list. -/
def countZeros (digits : List Char) : Nat :=
  (digits.reverse.takeWhile (· == '0')).length

/-- `d.ddd` with the point after the first digit and no zeros at the end. -/
def pointAfterFirst : List Char → List Char
  | [] => []
  | head :: tail =>
    match trimZeros tail with
    | [] => [head]
    | part => head :: '.' :: part

/-- Digits and the power of ten of the first one in scientific form: `d.ddde+x`. -/
def scientific (digits : List Char) (exponent : Int) : List Char :=
  pointAfterFirst digits ++
    match exponent with
    | .ofNat e => 'e' :: '+' :: decimalDigits e
    | .negSucc e => 'e' :: '-' :: decimalDigits (e + 1)

/-- Digits and the power of ten of the first one with a point and no exponent. -/
def withPoint (digits : List Char) : (exponent : Int) → List Char
  | .ofNat e =>
    let padded := digits ++ List.replicate (e + 1 - digits.length) '0'
    match trimZeros (padded.drop (e + 1)) with
    | [] => padded.take (e + 1)
    | part => padded.take (e + 1) ++ '.' :: part
  | .negSucc e => '0' :: '.' :: (List.replicate e '0' ++ trimZeros digits)

namespace Decimal

/-- The digits of the coefficient. -/
def digits (d : Decimal) : List Char :=
  decimalDigits d.coefficient

/-- The power of ten of the first digit. -/
def order (d : Decimal) : Int :=
  d.exponent - 1 + d.digits.length

/-- Positional between `10 ^ -6` and `10 ^ 21`, scientific outside. -/
def canonical (d : Decimal) : List Char :=
  if d.order ≥ 21 || d.order ≤ -7 then scientific d.digits d.order
  else withPoint d.digits d.order

end Decimal

namespace Double

/-- Integers below this bound are written with all their digits. -/
def exactBound : Nat := 9223372036854775808

/-- The canonical text of a positive finite double. -/
def canonicalPositive (v : Double) : List Char :=
  match v.toNat? with
  | some n => if n < exactBound then decimalDigits n else v.shortest.canonical
  | none => v.shortest.canonical

/-- The canonical text, on lists of characters.  Zero has no sign. -/
def canonicalChars (v : Double) : List Char :=
  if v.isNaN then "NaN".toList
  else if v.isZero then ['0']
  else
    let body := if v.isInfinite then "Infinity".toList else v.abs.canonicalPositive
    if v.negative then '-' :: body else body

/-- The canonical text of a double. -/
def canonical (v : Double) : String :=
  String.ofList v.canonicalChars

/-! ### Literals -/

/-- Write `e` for every `e+`. -/
def dropPlus : List Char → List Char
  | 'e' :: '+' :: rest => 'e' :: dropPlus rest
  | c :: rest => c :: dropPlus rest
  | [] => []

/-- Write three or more zeros at the end as an exponent. -/
def foldZeros (text : List Char) : List Char :=
  let zeros := countZeros text
  if zeros > 2 then text.take (text.length - zeros) ++ 'e' :: decimalDigits zeros else text

/-- The integers that may be written in hexadecimal lie strictly between these bounds. -/
def inHexRange (n : Nat) : Bool :=
  decide (1000000000000000 < n) && decide (n < 100000000000000000000)

/-- A literal for an integer with the given canonical text. -/
def integerLiteral (negative : Bool) (n : Nat) (text : List Char) (hex : Bool) : List Char :=
  if !negative && decide (1000 ≤ n) && n % 10 == 0 then
    if text.contains 'e' then dropPlus text else foldZeros text
  else if hex && !negative && inHexRange n then '0' :: 'x' :: hexDigits n
  else dropPlus text

/-- A literal for a number with a fraction, from its canonical text. -/
def fractionLiteral (text : List Char) : List Char :=
  match text with
  | '0' :: '.' :: rest => '.' :: dropPlus rest
  | _ => dropPlus text

/-- The literal, on lists of characters. -/
def literalChars (v : Double) (hex : Bool) : List Char :=
  match v.toNat? with
  | some n => integerLiteral v.negative n v.canonicalChars hex
  | none => fractionLiteral v.canonicalChars

/-- The short literal of a double; `hex` allows hexadecimal for large integers. -/
def literal (v : Double) (hex : Bool) : String :=
  String.ofList (v.literalChars hex)

/-! ### All digits -/

/-- All digits of a double, never with an exponent.  Zero keeps its sign. -/
def positional (v : Double) : String :=
  if v.isNaN then "NaN"
  else
    let body :=
      if v.isInfinite then "inf".toList
      else if v.isZero then ['0']
      else withPoint v.abs.shortest.digits v.abs.shortest.order
    String.ofList (if v.negative then '-' :: body else body)

end Double

end EcmaPrinter.Number
