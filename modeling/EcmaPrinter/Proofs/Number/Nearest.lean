import EcmaPrinter.Number.Shortest
import Mathlib.Algebra.Order.Field.Power
import Mathlib.Algebra.Order.Ring.Rat
import Mathlib.Tactic.FieldSimp
import Mathlib.Tactic.Linarith
import Mathlib.Tactic.NormNum
import Mathlib.Tactic.Positivity
import Mathlib.Tactic.Ring

/-!
The double nearest to a rational.

`Double.value` is the exact absolute value of a double, with infinity standing at the next power
of two behind the greatest finite one.  `Rounds q v` says that `v` is the double that a literal
of value `q` denotes: no double is nearer, and of two that are equally near it is the even one.

Doubles are ordered by their bits.  The next one above lies a whole gap away, and the next one
below too, except that it lies half a gap away just above a power of two.  So what is `Near` to the
double, not beyond the half of these gaps, rounds to it (`Near.rounds`).  The rounding interval
contains just the decimals that are near (`contains_iff_near`), and the shortest decimal is chosen
from them (`rounds_shortest`).
-/

namespace EcmaPrinter.Number

namespace Double

/-! ### Values -/

/-- The absolute value. -/
def value (v : Double) : ℚ :=
  v.mantissa * 2 ^ v.exponent

/-- The distance to the next double above. -/
def gap (v : Double) : ℚ :=
  2 ^ v.exponent

/-- Is the next double below half a gap away? -/
def isNarrow (v : Double) : Bool :=
  v.fraction.val == 0 && decide (v.biased.val > 1)

theorem gap_pos (v : Double) : 0 < v.gap :=
  zpow_pos (by norm_num) _

/-- The distance to the next double below. -/
def gapBelow (v : Double) : ℚ :=
  if v.isNarrow then v.gap / 2 else v.gap

theorem gapBelow_pos (v : Double) : 0 < v.gapBelow := by
  have hpos := gap_pos v
  unfold gapBelow
  split
  · exact half_pos hpos
  · exact hpos

theorem gapBelow_le_gap (v : Double) : v.gapBelow ≤ v.gap := by
  unfold gapBelow
  split
  · exact (half_lt_self (gap_pos v)).le
  · exact le_rfl

/-- The literal of value `q` denotes the double `v`: it is nearest, and even if another one is as
near. -/
def Rounds (q : ℚ) (v : Double) : Prop :=
  ∀ w : Double, w.isNaN = false →
    |q - v.value| ≤ |q - w.value| ∧
    (w.value ≠ v.value → |q - v.value| = |q - w.value| → v.mantissa % 2 = 0)

/-! ### Neighbours -/

theorem exponent_eq (v : Double) : v.exponent = (max v.biased.val 1 : ℕ) - 1075 := rfl

theorem mantissa_lt (v : Double) : v.mantissa < 2 ^ 53 := by
  have := v.fraction.isLt
  unfold mantissa fractions
  split <;> omega

/-- The exponents of the bits are ordered as the doubles are. -/
theorem biased_le_of_magnitude_lt {v w : Double} (h : v.magnitude < w.magnitude) :
    v.biased.val < w.biased.val ∨
      v.biased.val = w.biased.val ∧ v.fraction.val < w.fraction.val := by
  have hv := v.fraction.isLt
  have hw := w.fraction.isLt
  unfold magnitude fractions at h
  omega

/-- A double with a greater exponent lies above everything with the lesser one. -/
theorem add_one_mul_le {m n : ℕ} {e f : ℤ} (hef : e + 1 ≤ f) (hm : m + 1 ≤ 2 * n) :
    ((m : ℚ) + 1) * 2 ^ e ≤ n * 2 ^ f := by
  have hpow : (2 : ℚ) ^ (e + 1) ≤ 2 ^ f := zpow_le_zpow_right₀ (by norm_num) hef
  have hstep : (2 : ℚ) ^ (e + 1) = 2 * 2 ^ e := by
    rw [zpow_add₀ (by norm_num), zpow_one, mul_comm]
  have hcast : ((m : ℚ) + 1) ≤ 2 * n := by exact_mod_cast hm
  calc ((m : ℚ) + 1) * 2 ^ e ≤ 2 * n * 2 ^ e := by gcongr
    _ = n * 2 ^ (e + 1) := by rw [hstep]; ring
    _ ≤ n * 2 ^ f := by gcongr

/-- Doubles above lie at least a gap away. -/
theorem value_add_gap_le {v w : Double} (h : v.magnitude < w.magnitude) :
    v.value + v.gap ≤ w.value := by
  have hsum : v.value + v.gap = ((v.mantissa : ℚ) + 1) * 2 ^ v.exponent := by
    unfold value gap
    ring
  have hv := v.fraction.isLt
  rw [hsum]
  rcases biased_le_of_magnitude_lt h with hlt | ⟨heq, hfrac⟩
  · by_cases hsame : v.biased.val = 0 ∧ w.biased.val = 1
    · -- the least normal exponent is that of the subnormal doubles
      have hexp : w.exponent = v.exponent := by
        simp only [exponent_eq, hsame.1, hsame.2]
        rfl
      have hm : (v.mantissa : ℚ) + 1 ≤ w.mantissa := by
        have : v.mantissa + 1 ≤ w.mantissa := by
          simp only [mantissa, hsame.1, hsame.2, fractions]
          simp
          omega
        exact_mod_cast this
      unfold value
      rw [hexp]
      gcongr
    · refine add_one_mul_le ?_ ?_
      · simp only [exponent_eq]
        omega
      · have hm := mantissa_lt v
        have hw : w.mantissa = w.fraction.val + fractions := if_neg (by omega)
        rw [hw]
        unfold fractions
        omega
  · have hexp : w.exponent = v.exponent := by
      simp only [exponent_eq, heq]
    have hm : (v.mantissa : ℚ) + 1 ≤ w.mantissa := by
      have : v.mantissa + 1 ≤ w.mantissa := by
        simp only [mantissa, heq]
        split <;> omega
      exact_mod_cast this
    unfold value
    rw [hexp]
    gcongr

/-- A double with a lesser exponent has a value of half gaps, less than `2 ^ 53` of them. -/
theorem value_le_of_biased_lt {v w : Double} (h : w.biased.val < v.biased.val)
    (hv : 1 < v.biased.val) : w.value ≤ (2 ^ 53 - 1) * (v.gap / 2) := by
  have hhalf : v.gap / 2 = 2 ^ (v.exponent - 1) := by
    rw [gap, zpow_sub₀ (by norm_num), zpow_one]
  have hexp : w.exponent ≤ v.exponent - 1 := by
    simp only [exponent_eq]
    omega
  have hpow : (2 : ℚ) ^ w.exponent ≤ 2 ^ (v.exponent - 1) :=
    zpow_le_zpow_right₀ (by norm_num) hexp
  have hm : (w.mantissa : ℚ) ≤ 2 ^ 53 - 1 := by
    have hlt : (w.mantissa : ℚ) + 1 ≤ 2 ^ 53 := by exact_mod_cast mantissa_lt w
    linarith
  rw [hhalf]
  unfold value
  gcongr

/-- Doubles below lie at least a gap away, or half a gap just above a power of two. -/
theorem value_le_sub_gap {v w : Double} (h : w.magnitude < v.magnitude) :
    w.value ≤ v.value - v.gapBelow := by
  have hpos := gap_pos v
  have habove := value_add_gap_le h
  have hsub := v.gapBelow_le_gap
  by_cases hbiased : w.biased.val < v.biased.val ∧ 1 < v.biased.val
  · obtain ⟨hlt, hone⟩ := hbiased
    have hw := value_le_of_biased_lt hlt hone
    have hm : v.mantissa = v.fraction.val + 2 ^ 52 := if_neg (by omega)
    have hv : v.value = (v.fraction.val + 2 ^ 52) * v.gap := by
      rw [value, hm, gap]
      push_cast
      rfl
    by_cases hnarrow : v.isNarrow
    · rw [gapBelow, if_pos hnarrow, hv]
      have : (0 : ℚ) ≤ v.fraction.val * v.gap := by positivity
      linarith
    · rw [gapBelow, if_neg hnarrow, hv]
      have hfrac : (1 : ℚ) ≤ v.fraction.val := by
        have : 1 ≤ v.fraction.val := by
          simp [isNarrow] at hnarrow
          omega
        exact_mod_cast this
      have : v.gap ≤ v.fraction.val * v.gap := le_mul_of_one_le_left hpos.le hfrac
      linarith
  · -- the two share their exponent, and so their gap
    have hgap : w.gap = v.gap := by
      have hle := biased_le_of_magnitude_lt h
      simp only [gap, exponent_eq]
      congr 2
      omega
    linarith

theorem value_eq_of_magnitude_eq {v w : Double} (h : v.magnitude = w.magnitude) :
    v.value = w.value := by
  have hv := v.fraction.isLt
  have hw := w.fraction.isLt
  have hb : v.biased.val = w.biased.val := by
    unfold magnitude fractions at h
    omega
  have hf : v.fraction.val = w.fraction.val := by
    unfold magnitude fractions at h
    omega
  simp only [value, mantissa, exponent_eq, hb, hf]

/-! ### Rationals around a double -/

/-- The rational is at most half the way to the next double on its side, and all of this half only
if the double is even. -/
structure Near (q : ℚ) (v : Double) : Prop where
  above : 2 * (q - v.value) ≤ v.gap
  below : 2 * (v.value - q) ≤ v.gapBelow
  even : 2 * (q - v.value) = v.gap ∨ 2 * (v.value - q) = v.gapBelow → v.mantissa % 2 = 0

variable {q : ℚ} {v : Double}

/-- Above the double, only the next one above counts. -/
theorem near_iff_of_le (h : v.value ≤ q) :
    Near q v ↔
      2 * (q - v.value) < v.gap ∨ v.mantissa % 2 = 0 ∧ 2 * (q - v.value) = v.gap := by
  have hpos := gapBelow_pos v
  constructor
  · intro hnear
    rcases lt_or_eq_of_le hnear.above with hlt | heq
    · exact .inl hlt
    · exact .inr ⟨hnear.even (.inl heq), heq⟩
  · rintro (hlt | ⟨heven, heq⟩)
    · refine ⟨hlt.le, by linarith, ?_⟩
      rintro (heq | heq) <;> linarith
    · exact ⟨heq.le, by linarith, fun _ => heven⟩

/-- Below the double, only the next one below counts. -/
theorem near_iff_of_ge (h : q ≤ v.value) :
    Near q v ↔
      2 * (v.value - q) < v.gapBelow ∨ v.mantissa % 2 = 0 ∧ 2 * (v.value - q) = v.gapBelow := by
  have hpos := gap_pos v
  constructor
  · intro hnear
    rcases lt_or_eq_of_le hnear.below with hlt | heq
    · exact .inl hlt
    · exact .inr ⟨hnear.even (.inr heq), heq⟩
  · rintro (hlt | ⟨heven, heq⟩)
    · refine ⟨by linarith, hlt.le, ?_⟩
      rintro (heq | heq) <;> linarith
    · exact ⟨by linarith, heq.le, fun _ => heven⟩

/-- What is near to a double rounds to it: the other doubles are at least a gap away. -/
theorem Near.rounds (h : Near q v) : Rounds q v := by
  obtain ⟨habove, hbelow, heven⟩ := h
  intro w _
  have hpos := gap_pos v
  have hposBelow := gapBelow_pos v
  rcases Nat.lt_trichotomy v.magnitude w.magnitude with hlt | heq | hgt
  · have hw := value_add_gap_le hlt
    have habs : |q - w.value| = w.value - q := by
      rw [abs_sub_comm]
      exact abs_of_nonneg (by linarith)
    rw [habs]
    refine ⟨abs_le.mpr ⟨by linarith, by linarith⟩, fun _ htie => heven (.inl ?_)⟩
    rcases abs_cases (q - v.value) with ⟨h, -⟩ | ⟨h, -⟩
    · linarith
    · linarith
  · rw [value_eq_of_magnitude_eq heq]
    exact ⟨le_refl _, fun hne => absurd rfl hne⟩
  · have hw := value_le_sub_gap hgt
    have habs : |q - w.value| = q - w.value := abs_of_nonneg (by linarith)
    rw [habs]
    refine ⟨abs_le.mpr ⟨by linarith, by linarith⟩, fun _ htie => heven (.inr ?_)⟩
    rcases abs_cases (q - v.value) with ⟨h, -⟩ | ⟨h, -⟩
    · linarith
    · linarith

/-- A double rounds to itself. -/
theorem rounds_value (v : Double) : Rounds v.value v := by
  refine Near.rounds ((near_iff_of_le le_rfl).mpr (.inl ?_))
  rw [sub_self, mul_zero]
  exact gap_pos v

end Double

/-! ### Rounding intervals -/

namespace Interval

variable {i : Interval}

/-- The candidate is not too far away, given the distance that counts. -/
def reaches (i : Interval) (distance : ℕ) : Prop :=
  distance < i.gap ∨ i.closed ∧ distance = i.gap

/-- How often a distance below the value counts. -/
def belowFactor (i : Interval) : ℕ :=
  if i.narrowBelow then 4 else 2

theorem two_le_belowFactor (i : Interval) : 2 ≤ i.belowFactor := by
  unfold belowFactor
  split <;> omega

theorem contains_iff_of_le {c : ℕ} (h : i.value ≤ c) :
    i.contains c ↔ i.reaches (2 * (c - i.value)) := by
  simp [contains, reaches, h]

theorem contains_iff_of_lt {c : ℕ} (h : c < i.value) :
    i.contains c ↔ i.reaches (i.belowFactor * (i.value - c)) := by
  have hle : ¬ i.value ≤ c := by omega
  unfold contains reaches belowFactor
  split <;> simp_all

end Interval

namespace Double

/-- The unit of the interval of a double. -/
def intervalUnit (v : Double) : ℚ :=
  10 ^ min v.exponent 0

theorem intervalUnit_pos (v : Double) : 0 < v.intervalUnit :=
  zpow_pos (by norm_num) _

theorem interval_gap (v : Double) : (v.interval.gap : ℚ) * v.intervalUnit = v.gap := by
  unfold intervalUnit gap
  rcases h : v.exponent with e | e
  · have hgap : v.interval.gap = 2 ^ e := by simp only [interval, h]; rfl
    have hmin : min (Int.ofNat e) 0 = 0 := min_eq_right (Int.natCast_nonneg e)
    rw [hgap, hmin]
    simp
  · have hgap : v.interval.gap = 5 ^ (e + 1) := by simp only [interval, h]; rfl
    have hmin : min (Int.negSucc e) 0 = Int.negSucc e := min_eq_left (Int.negSucc_lt_zero e).le
    rw [hgap, hmin, zpow_negSucc, zpow_negSucc]
    have hten : (10 : ℚ) ^ (e + 1) = 5 ^ (e + 1) * 2 ^ (e + 1) := by
      rw [← mul_pow]
      norm_num
    rw [hten]
    push_cast
    field_simp

theorem interval_value (v : Double) : (v.interval.value : ℚ) * v.intervalUnit = v.value := by
  have hvalue : v.interval.value = v.mantissa * v.interval.gap := rfl
  rw [hvalue, Nat.cast_mul, mul_assoc, interval_gap]
  rfl

theorem belowFactor_mul_gapBelow (v : Double) :
    (v.interval.belowFactor : ℚ) * v.gapBelow = 2 * v.gap := by
  have hnarrow : v.interval.narrowBelow = v.isNarrow := rfl
  unfold Interval.belowFactor gapBelow
  rw [hnarrow]
  split
  · push_cast
    ring
  · push_cast
    ring

theorem reaches_iff {v : Double} (n : ℕ) :
    v.interval.reaches n ↔
      n * v.intervalUnit < v.gap ∨ v.mantissa % 2 = 0 ∧ n * v.intervalUnit = v.gap := by
  have hunit := intervalUnit_pos v
  have hclosed : v.interval.closed ↔ v.mantissa % 2 = 0 := beq_iff_eq
  rw [← interval_gap, mul_lt_mul_iff_left₀ hunit, mul_left_inj' hunit.ne', Nat.cast_lt,
    Nat.cast_inj, ← hclosed]
  rfl

/-- The rounding interval contains what is near to the double. -/
theorem contains_iff_near {v : Double} {c : ℕ} :
    v.interval.contains c ↔ Near (c * v.intervalUnit) v := by
  have hunit := intervalUnit_pos v
  have hvalue := interval_value v
  rcases Nat.lt_or_ge c v.interval.value with hlt | hge
  · have hbelow : c * v.intervalUnit ≤ v.value := by
      rw [← hvalue]
      gcongr
    have hpos : (0 : ℚ) < v.interval.belowFactor := by
      exact_mod_cast (Nat.zero_lt_two.trans_le v.interval.two_le_belowFactor)
    have hdistance : ((v.interval.belowFactor * (v.interval.value - c) : ℕ) : ℚ) * v.intervalUnit =
        v.interval.belowFactor * (v.value - c * v.intervalUnit) := by
      rw [← hvalue]
      push_cast [Nat.cast_sub hlt.le]
      ring
    -- the comparison with the gap below is scaled by the factor
    rw [near_iff_of_ge hbelow, ← mul_lt_mul_iff_right₀ hpos, ← mul_right_inj' hpos.ne',
      belowFactor_mul_gapBelow, mul_left_comm, mul_lt_mul_iff_right₀ two_pos,
      mul_right_inj' two_ne_zero, Interval.contains_iff_of_lt hlt, reaches_iff, hdistance]
  · have habove : v.value ≤ c * v.intervalUnit := by
      rw [← hvalue]
      gcongr
    have hdistance : ((2 * (c - v.interval.value) : ℕ) : ℚ) * v.intervalUnit =
        2 * (c * v.intervalUnit - v.value) := by
      rw [← hvalue]
      push_cast [Nat.cast_sub hge]
      ring
    rw [Interval.contains_iff_of_le hge, reaches_iff, hdistance, near_iff_of_le habove]

end Double

/-! ### The shortest decimal -/

theorem Interval.contains_value {i : Interval} (h : 0 < i.gap) : i.contains i.value := by
  simp [contains, h]

theorem Interval.contains_onGrid? {i : Interval} {unit c : ℕ} (h : i.onGrid? unit = some c) :
    i.contains c := by
  unfold onGrid? at h
  simp only at h
  split at h
  · next hnear =>
    obtain rfl := Option.some.inj h
    exact hnear
  · split at h
    · next hnext =>
      obtain rfl := Option.some.inj h
      exact (Bool.and_eq_true_iff.mp hnext).2
    · cases h

/-- Whatever grid is hit first, the hit rounds to the value. -/
theorem Interval.contains_coarsest {i : Interval} (h : 0 < i.gap) (places : ℕ) :
    i.contains (i.coarsest places) := by
  induction places with
  | zero => exact contains_value h
  | succ places ih =>
    rw [coarsest]
    rcases hgrid : i.onGrid? (Nat.pow 10 (places + 1)) with - | c
    · exact ih
    · exact contains_onGrid? hgrid

/-- The value of a decimal, without its sign. -/
def Decimal.value (d : Decimal) : ℚ :=
  d.coefficient * 10 ^ d.exponent

theorem Double.interval_gap_pos (v : Double) : 0 < v.interval.gap := by
  unfold interval
  rcases v.exponent with e | e
  · exact Nat.pow_pos (by decide)
  · exact Nat.pow_pos (by decide)

theorem Double.contains_shortest (v : Double) : v.interval.contains v.shortest.coefficient :=
  Interval.contains_coarsest v.interval_gap_pos _

/-- The shortest decimal rounds to its double. -/
theorem Double.rounds_shortest (v : Double) : Rounds v.shortest.value v :=
  (contains_iff_near.mp v.contains_shortest).rounds

end EcmaPrinter.Number
