import EcmaPrinter.Number.Rounding

/-!
Decimals: a sign, a natural coefficient and a power of ten.  Every decimal has a nearest double,
and `readDouble?` reads one from text.
-/

namespace EcmaPrinter.Number

/-- The decimal `coefficient * 10 ^ exponent` with a sign. -/
structure Decimal where
  negative : Bool := false
  coefficient : Nat
  exponent : Int := 0
  deriving DecidableEq, Repr

/-- The decimal digits of a natural. -/
def decimalDigits (n : Nat) : List Char :=
  Nat.toDigits 10 n

/-- The natural that a list of decimal digits denotes. -/
def digitsValue (digits : List Char) : Nat :=
  digits.foldl (fun n c => 10 * n + (c.toNat - '0'.toNat)) 0

namespace Decimal

/-- The nearest double, a half to the even mantissa.  Decimals far outside the range of doubles
are decided by their order of magnitude, without computing the power of ten. -/
def toDouble (d : Decimal) : Double :=
  let order := (decimalDigits d.coefficient).length + d.exponent
  if d.coefficient = 0 then Double.ofMagnitude d.negative 0
  else if order > 310 then Double.infinity d.negative
  else if order < -330 then Double.ofMagnitude d.negative 0
  else match d.exponent with
    | .ofNat e => roundRatio d.negative (d.coefficient * Nat.pow 10 e) 1
    | .negSucc e => roundRatio d.negative d.coefficient (Nat.pow 10 (e + 1))

/-- The decimal with the given digits before and after the point and a further power of ten. -/
def ofDigits (negative : Bool) (whole part : List Char) (exponent : Int) : Decimal where
  negative := negative
  coefficient := digitsValue (whole ++ part)
  exponent := exponent - part.length

end Decimal

/-! ### Reading doubles -/

/-- Split off the longest run of decimal digits. -/
def spanDigits (text : List Char) : List Char × List Char :=
  text.span Char.isDigit

/-- Split off a sign; the first component says whether it was a minus. -/
def readSign : List Char → Bool × List Char
  | '-' :: rest => (true, rest)
  | '+' :: rest => (false, rest)
  | text => (false, text)

/-- An exponent: nothing, or `e` of either case, a sign and digits up to the end. -/
def readExponent? : List Char → Option Int
  | [] => some 0
  | c :: rest =>
    if c == 'e' || c == 'E' then
      let (negative, digits) := readSign rest
      if !digits.isEmpty && digits.all Char.isDigit then
        some (if negative then -(digitsValue digits : Int) else digitsValue digits)
      else none
    else none

/-- An unsigned decimal: digits with at most one point, at least one digit, then an exponent. -/
def readUnsigned? (negative : Bool) (text : List Char) : Option Decimal :=
  let (whole, rest) := spanDigits text
  let (part, rest) := match rest with
    | '.' :: more => spanDigits more
    | _ => ([], rest)
  if whole.isEmpty && part.isEmpty then none
  else (readExponent? rest).map (Decimal.ofDigits negative whole part)

/-- A double from its text: a sign, then a decimal or one of the words `inf`, `infinity` and
`nan` in any case.  Blanks are not allowed. -/
def readDouble? (text : String) : Option Double :=
  let (negative, rest) := readSign text.toList
  let word := String.ofList (rest.map Char.toLower)
  if word == "inf" || word == "infinity" then some (Double.infinity negative)
  else if word == "nan" then some { Double.nan with negative := negative }
  else (readUnsigned? negative rest).map Decimal.toDouble

end EcmaPrinter.Number
