import EcmaPrinter.Number.Double

/-!
Rounding a positive ratio of naturals to the nearest double, a half to the even mantissa.

The exponent is the one that leaves 53 bits, or the least one there is; then one division gives
the mantissa and what is left of it decides the rounding.  A mantissa that rounds up to the next
power of two carries into the exponent by itself, because the bits of neighbouring doubles are
neighbouring numbers.
-/

namespace EcmaPrinter.Number

/-- Divide and round to the nearest natural, a half to the even one. -/
def roundDiv (num den : Nat) : Nat :=
  let quotient := num / den
  let twice := 2 * (num % den)
  if twice > den || (twice == den && quotient % 2 == 1) then quotient + 1 else quotient

/-- `num / den` scaled by a power of two, as a ratio again. -/
def scaleRatio (num den : Nat) : Int → Nat × Nat
  | .ofNat e => (num * Nat.pow 2 e, den)
  | .negSucc e => (num, den * Nat.pow 2 (e + 1))

/-- The exponent of the greatest power of two that is at most `num / den`. -/
def log2Ratio (num den : Nat) : Int :=
  let guess : Int := (Nat.log2 num : Int) - Nat.log2 den
  let (n, d) := scaleRatio num den (-guess)
  if d ≤ n then guess else guess - 1

/-- The power of two beside the mantissa of the nearest double. -/
def ratioExponent (num den : Nat) : Int :=
  max (log2Ratio num den - 52) (-1074)

/-- The bits, without sign, of the double nearest to a ratio if exponents had no upper end. -/
def ratioMagnitude (num den : Nat) : Nat :=
  let e := ratioExponent num den
  let (n, d) := scaleRatio num den (-e)
  (e + 1074).toNat * Double.fractions + roundDiv n d

/-- The double nearest to `num / den` with the given sign; infinite beyond the greatest one. -/
def roundRatio (negative : Bool) (num den : Nat) : Double :=
  if num = 0 then Double.ofMagnitude negative 0
  else
    let bits := ratioMagnitude num den
    if bits < 2047 * Double.fractions then Double.ofMagnitude negative bits
    else Double.infinity negative

end EcmaPrinter.Number
