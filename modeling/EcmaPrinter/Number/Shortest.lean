import EcmaPrinter.Number.Decimal

/-!
Shortest decimals: of all decimals that round to a double, one on the coarsest grid of powers of
ten, and on that grid the nearest.

The double and the half gaps around it are scaled to integers.  Grids are tried from coarse to
fine, beginning above the value; on each the multiple nearest to the value is a candidate and, where
that lies below and outside, the next multiple above.
-/

namespace EcmaPrinter.Number

/-- The rounding interval of a double, scaled so that the value and the gap to the next double
are integers. -/
structure Interval where
  value : Nat
  gap : Nat
  /-- Just above a power of two the gap below is half as wide. -/
  narrowBelow : Bool
  /-- The ends round to the even mantissa, so they belong to the interval of an even one. -/
  closed : Bool
  deriving DecidableEq, Repr

namespace Interval

/-- Does the candidate round to the value? -/
def contains (i : Interval) (candidate : Nat) : Bool :=
  let twice :=
    if i.value ≤ candidate then 2 * (candidate - i.value)
    else if i.narrowBelow then 4 * (i.value - candidate)
    else 2 * (i.value - candidate)
  twice < i.gap || (i.closed && twice == i.gap)

/-- The multiple of `unit` nearest to the value, a half upwards. -/
def nearest (i : Interval) (unit : Nat) : Nat :=
  (i.value + unit / 2) / unit * unit

/-- A multiple of `unit` in the interval: the nearest, or else the one above it. -/
def onGrid? (i : Interval) (unit : Nat) : Option Nat :=
  let near := i.nearest unit
  if i.contains near then some near
  else if near < i.value && i.contains (near + unit) then some (near + unit)
  else none

/-- The number of bits of a number. -/
def bitCount (n : Nat) : Nat :=
  if n == 0 then 0 else n.log2 + 1

/-- An estimate of the decimal places that so many bits take, rounded up.  The factor is the double
nearest to the decimal logarithm of two. -/
def placesOfBits (bits : Nat) : Nat :=
  (bits * 5422874305198591 + (Nat.pow 2 54 - 1)) / Nat.pow 2 54

/-- The first hit on the grids `10 ^ places`, ..., `10`; the value itself if there is none. -/
def coarsest (i : Interval) : (places : Nat) → Nat
  | 0 => i.value
  | places + 1 => (i.onGrid? (Nat.pow 10 (places + 1))).getD (i.coarsest places)

end Interval

namespace Double

/-- The rounding interval, scaled by the power of ten that makes it integral.  A negative power
of two is a power of five over a power of ten. -/
def interval (v : Double) : Interval :=
  let gap := match v.exponent with
    | .ofNat e => Nat.pow 2 e
    | .negSucc e => Nat.pow 5 (e + 1)
  { value := v.mantissa * gap
    gap := gap
    narrowBelow := v.fraction.val == 0 && decide (v.biased.val > 1)
    closed := v.mantissa % 2 == 0 }

/-- The shortest decimal that rounds to a finite double other than zero. -/
def shortest (v : Double) : Decimal :=
  let i := v.interval
  { negative := v.negative
    coefficient := i.coarsest (Interval.placesOfBits (Interval.bitCount i.value))
    exponent := min v.exponent 0 }

end Double

end EcmaPrinter.Number
