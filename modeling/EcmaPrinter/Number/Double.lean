/-!
Doubles: the 64-bit floating-point numbers, as sign, biased exponent and fraction.

A finite double is a natural mantissa times a power of two.  Everything that is decided about a
double (is it an integer, how does it compare with a bound) is decided on these two numbers, in
exact arithmetic.
-/

namespace EcmaPrinter.Number

/-- A double: its sign, its biased exponent and its fraction. -/
structure Double where
  negative : Bool
  biased : Fin 2048
  fraction : Fin 4503599627370496
  deriving DecidableEq, Repr

namespace Double

/-- The number of fractions for one exponent, `2 ^ 52`. -/
def fractions : Nat := 4503599627370496

/-! ### Bits -/

/-- The bits without the sign, as a number.  They grow with the absolute value. -/
def magnitude (v : Double) : Nat :=
  v.biased.val * fractions + v.fraction.val

/-- All 64 bits, as a number. -/
def toBits (v : Double) : Nat :=
  (if v.negative then 9223372036854775808 else 0) + v.magnitude

/-- The double with the given sign and bits below it. -/
def ofMagnitude (negative : Bool) (n : Nat) : Double where
  negative := negative
  biased := Fin.ofNat 2048 (n / fractions)
  fraction := Fin.ofNat 4503599627370496 n

/-- The double with the given 64 bits. -/
def ofBits (bits : Nat) : Double :=
  ofMagnitude (bits / 9223372036854775808 % 2 == 1) bits

/-! ### Kinds -/

/-- Not a number: the last exponent with a fraction. -/
def isNaN (v : Double) : Bool :=
  v.biased.val == 2047 && v.fraction.val != 0

/-- Infinity of either sign: the last exponent without a fraction. -/
def isInfinite (v : Double) : Bool :=
  v.biased.val == 2047 && v.fraction.val == 0

/-- Neither infinite nor NaN. -/
def isFinite (v : Double) : Bool :=
  v.biased.val != 2047

/-- Zero of either sign. -/
def isZero (v : Double) : Bool :=
  v.magnitude == 0

/-- Infinity with the given sign. -/
def infinity (negative : Bool) : Double :=
  ⟨negative, 2047, 0⟩

/-- The one NaN that readers produce. -/
def nan : Double :=
  ⟨false, 2047, 2251799813685248⟩

/-- The same double with a positive sign. -/
def abs (v : Double) : Double :=
  { v with negative := false }

/-! ### Exact values -/

/-- The mantissa; normal doubles have a leading one above the fraction. -/
def mantissa (v : Double) : Nat :=
  if v.biased.val = 0 then v.fraction.val else v.fraction.val + fractions

/-- The power of two beside the mantissa.  Subnormal doubles share the least one. -/
def exponent (v : Double) : Int :=
  (max v.biased.val 1 : Nat) - 1075

/-- The absolute value where it is an integer. -/
def toNat? (v : Double) : Option Nat :=
  if !v.isFinite then none
  else match v.exponent with
    | .ofNat e => some (v.mantissa * Nat.pow 2 e)
    | .negSucc e =>
      let d := Nat.pow 2 (e + 1)
      if v.mantissa % d = 0 then some (v.mantissa / d) else none

end Double

end EcmaPrinter.Number
