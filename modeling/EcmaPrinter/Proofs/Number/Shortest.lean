import EcmaPrinter.Proofs.Number.Literal
import Mathlib.Tactic.LinearCombination

/-!
No decimal is shorter than the shortest one, and none as short is nearer.

The decimals that round to a double are those near to it (`Rounds.near`, `Near.rounds`); these lie
in one piece, without gaps.  So it is enough to look at the multiples of a power of ten next to the
double: if the piece has a multiple, then it has one of these (`Interval.onGrid?_eq_none`).  The
search goes through the powers of ten from the top, and what it finds is a hit on the coarsest grid
that has one (`Interval.isCoarsest_coarsest`).  It may start anywhere above the value, for no grid
higher up has a hit; the estimate that it starts from is above (`Double.value_lt_tenPow_places`).

A decimal with fewer digits, or with as many and a lower power of ten, has a power of ten between
itself and the hit.  That would be a hit on a coarser grid, unless the hit has only one digit.  Then
the decimal is nearer only if it is less than ten gaps away from zero, which leaves nine subnormal
doubles, and none of these is near to a power of ten in this way (`Double.not_near_below_tenPow`).
-/

namespace EcmaPrinter.Number

namespace Double

/-! ### The next doubles -/

variable {q : ℚ} {v w : Double}

theorem value_of_mantissa_succ (hexponent : w.exponent = v.exponent)
    (hmantissa : w.mantissa = v.mantissa + 1) : w.value = v.value + v.gap := by
  unfold value gap
  rw [hexponent, hmantissa]
  push_cast
  ring

/-- A mantissa that becomes too great is halved, and the exponent grows instead. -/
theorem value_of_carry (hexponent : w.exponent = v.exponent + 1)
    (hmantissa : 2 * w.mantissa = v.mantissa + 1) : w.value = v.value + v.gap := by
  have hcast : 2 * (w.mantissa : ℚ) = v.mantissa + 1 := by exact_mod_cast hmantissa
  unfold value gap
  rw [hexponent, zpow_add₀ (by norm_num), zpow_one]
  linear_combination (2 : ℚ) ^ v.exponent * hcast

/-- The next double has the next fraction, or the next exponent and no fraction. -/
theorem cases_of_magnitude_succ (h : w.magnitude = v.magnitude + 1) :
    w.biased.val = v.biased.val ∧ w.fraction.val = v.fraction.val + 1 ∨
      w.biased.val = v.biased.val + 1 ∧ w.fraction.val = 0 ∧ v.fraction.val + 1 = fractions := by
  have hv := v.fraction.isLt
  have hw := w.fraction.isLt
  unfold magnitude fractions at h
  unfold fractions
  omega

theorem value_of_magnitude_succ (h : w.magnitude = v.magnitude + 1) :
    w.value = v.value + v.gap := by
  rcases cases_of_magnitude_succ h with ⟨hbiased, hfraction⟩ | ⟨hbiased, hfraction, hfull⟩
  · refine value_of_mantissa_succ ?_ ?_
    · rw [exponent_eq, exponent_eq, hbiased]
    · unfold mantissa
      rw [hbiased, hfraction]
      split <;> omega
  · by_cases hzero : v.biased.val = 0
    · -- the least normal exponent is that of the subnormal doubles
      refine value_of_mantissa_succ ?_ ?_
      · rw [exponent_eq, exponent_eq, hbiased, hzero]
        rfl
      · rw [mantissa, mantissa, if_neg (by omega), if_pos hzero]
        omega
    · refine value_of_carry ?_ ?_
      · rw [exponent_eq, exponent_eq]
        omega
      · rw [mantissa, mantissa, if_neg (by omega), if_neg hzero]
        omega

/-- The gap below a double is the gap above the one before. -/
theorem gapBelow_of_magnitude_succ (h : w.magnitude = v.magnitude + 1) : w.gapBelow = v.gap := by
  rcases cases_of_magnitude_succ h with ⟨hbiased, hfraction⟩ | ⟨hbiased, hfraction, -⟩
  · have hnarrow : ¬ w.isNarrow := by simp [isNarrow, hfraction]
    rw [gapBelow, if_neg hnarrow, gap, gap, exponent_eq, exponent_eq, hbiased]
  · by_cases hzero : v.biased.val = 0
    · have hnarrow : ¬ w.isNarrow := by simp [isNarrow, hbiased, hzero]
      rw [gapBelow, if_neg hnarrow, gap, gap, exponent_eq, exponent_eq, hbiased, hzero]
      rfl
    · have hnarrow : w.isNarrow := by
        simp only [isNarrow, hbiased, hfraction, beq_self_eq_true, Bool.true_and, decide_eq_true_eq]
        omega
      have hexponent : w.exponent = v.exponent + 1 := by
        rw [exponent_eq, exponent_eq]
        omega
      rw [gapBelow, if_pos hnarrow, gap, gap, hexponent, zpow_add₀ (by norm_num), zpow_one]
      ring

/-- Every number of bits up to those of infinity is the magnitude of a double. -/
theorem exists_magnitude_eq {n : ℕ} (hn : n ≤ 2047 * fractions) :
    ∃ w : Double, w.isNaN = false ∧ w.magnitude = n := by
  have hdiv : n / fractions < 2048 := by
    unfold fractions at *
    omega
  have hmod : n % fractions < 4503599627370496 := Nat.mod_lt _ (by decide)
  refine ⟨⟨false, ⟨n / fractions, hdiv⟩, ⟨n % fractions, hmod⟩⟩, ?_, ?_⟩
  · have hinfinite : n / fractions = 2047 → n % fractions = 0 := by
      unfold fractions at *
      omega
    simpa [isNaN] using hinfinite
  · exact Nat.div_add_mod' n fractions

theorem magnitude_lt (hfinite : v.isFinite) : v.magnitude < 2047 * fractions := by
  have hbiased : v.biased.val ≠ 2047 := by simpa [isFinite] using hfinite
  have hlt := v.biased.isLt
  have hfraction := v.fraction.isLt
  unfold magnitude fractions
  omega

/-- Above every finite double there is one a gap away; above the greatest, that is infinity. -/
theorem exists_value_eq_add (hfinite : v.isFinite) :
    ∃ w : Double, w.isNaN = false ∧ w.value = v.value + v.gap := by
  have hlt := magnitude_lt hfinite
  obtain ⟨w, hnan, hw⟩ := exists_magnitude_eq (n := v.magnitude + 1) hlt
  exact ⟨w, hnan, value_of_magnitude_succ hw⟩

/-- Below every double but zero there is one a gap away. -/
theorem exists_value_eq_sub (hfinite : v.isFinite) (hzero : v.isZero = false) :
    ∃ w : Double, w.isNaN = false ∧ w.value = v.value - v.gapBelow := by
  have hlt := magnitude_lt hfinite
  have hpos : v.magnitude ≠ 0 := by simpa [isZero] using hzero
  obtain ⟨w, hnan, hw⟩ := exists_magnitude_eq (n := v.magnitude - 1) (by omega)
  have hsucc : v.magnitude = w.magnitude + 1 := by omega
  refine ⟨w, hnan, ?_⟩
  rw [gapBelow_of_magnitude_succ hsucc, value_of_magnitude_succ hsucc]
  ring

/-! ### Rationals near to a double -/

/-- What rounds to a double is near to it: beyond the half, the next double would be nearer. -/
theorem Rounds.near (h : Rounds q v) (hfinite : v.isFinite) (hzero : v.isZero = false) :
    Near q v := by
  obtain ⟨w, hw, hvalue⟩ := exists_value_eq_add hfinite
  obtain ⟨u, hu, hvalue'⟩ := exists_value_eq_sub hfinite hzero
  obtain ⟨hle, htie⟩ := h w hw
  obtain ⟨hle', htie'⟩ := h u hu
  have hgap := gap_pos v
  have hgap' := gapBelow_pos v
  rw [hvalue] at hle htie
  rw [hvalue'] at hle' htie'
  refine ⟨?_, ?_, ?_⟩
  · rcases abs_cases (q - v.value) with ⟨h₁, _⟩ | ⟨h₁, _⟩ <;>
      rcases abs_cases (q - (v.value + v.gap)) with ⟨h₂, _⟩ | ⟨h₂, _⟩ <;> linarith
  · rcases abs_cases (q - v.value) with ⟨h₁, _⟩ | ⟨h₁, _⟩ <;>
      rcases abs_cases (q - (v.value - v.gapBelow)) with ⟨h₂, _⟩ | ⟨h₂, _⟩ <;> linarith
  · rintro (heq | heq)
    · refine htie (by linarith) ?_
      rw [abs_of_nonneg (by linarith), abs_of_nonpos (by linarith)]
      linarith
    · refine htie' (by linarith) ?_
      rw [abs_of_nonpos (by linarith), abs_of_nonneg (by linarith)]
      linarith

/-- What lies between two rationals near to a double is near to it. -/
theorem Near.between {r x : ℚ} (hq : Near q v) (hr : Near r v) (hqx : q ≤ x) (hxr : x ≤ r) :
    Near x v := by
  have habove := hr.above
  have hbelow := hq.below
  refine ⟨by linarith, by linarith, ?_⟩
  rintro (heq | heq)
  · exact hr.even (.inl (by linarith))
  · exact hq.even (.inr (by linarith))

end Double

/-! ### Multiples in an interval -/

namespace Interval

variable {i : Interval}

theorem reaches_of_le {m n : ℕ} (h : i.reaches n) (hle : m ≤ n) : i.reaches m := by
  rcases h with h | ⟨hclosed, h⟩
  · exact .inl (by omega)
  · rcases Nat.lt_or_eq_of_le hle with hlt | heq
    · exact .inl (by omega)
    · exact .inr ⟨hclosed, heq.trans h⟩

/-- What lies between the value and a candidate of the interval is in the interval. -/
theorem contains_of_above {c d : ℕ} (hd : i.contains d) (hle : i.value ≤ c) (hcd : c ≤ d) :
    i.contains c := by
  rw [contains_iff_of_le (hle.trans hcd)] at hd
  rw [contains_iff_of_le hle]
  exact reaches_of_le hd (by omega)

theorem contains_of_below {c d : ℕ} (hd : i.contains d) (hlt : c < i.value) (hdc : d ≤ c) :
    i.contains c := by
  rw [contains_iff_of_lt (Nat.lt_of_le_of_lt hdc hlt)] at hd
  rw [contains_iff_of_lt hlt]
  exact reaches_of_le hd (Nat.mul_le_mul_left _ (by omega))

/-- An interval reaches above its value at least as far as below. -/
theorem contains_of_nearer {c d : ℕ} (hd : i.contains d) (hlt : d < i.value) (hle : i.value ≤ c)
    (hnear : c - i.value ≤ i.value - d) : i.contains c := by
  rw [contains_iff_of_lt hlt] at hd
  rw [contains_iff_of_le hle]
  refine reaches_of_le hd ?_
  calc 2 * (c - i.value) ≤ 2 * (i.value - d) := Nat.mul_le_mul_left _ hnear
    _ ≤ i.belowFactor * (i.value - d) := Nat.mul_le_mul_right _ i.two_le_belowFactor

/-- The nearest multiple of an even unit is at most half of it away. -/
theorem nearest_spec (i : Interval) {half : ℕ} (hpos : 0 < half) :
    i.nearest (2 * half) ≤ i.value + half ∧ i.value < i.nearest (2 * half) + half := by
  have hhalf : 2 * half / 2 = half := by omega
  have hmod := Nat.mod_lt (i.value + half) (show 0 < 2 * half by omega)
  have hdiv := Nat.div_add_mod' (i.value + half) (2 * half)
  unfold nearest
  rw [hhalf]
  omega

/-- Another multiple is at least a unit away. -/
theorem multiple_cases (i : Interval) (unit k : ℕ) :
    k * unit = i.nearest unit ∨ k * unit + unit ≤ i.nearest unit ∨
      i.nearest unit + unit ≤ k * unit := by
  unfold nearest
  generalize (i.value + unit / 2) / unit = j
  rcases Nat.lt_trichotomy k j with hlt | rfl | hgt
  · have := Nat.mul_le_mul_right unit hlt
    rw [Nat.succ_mul] at this
    exact .inr (.inl this)
  · exact .inl rfl
  · have := Nat.mul_le_mul_right unit hgt
    rw [Nat.succ_mul] at this
    exact .inr (.inr this)

/-- If neither candidate is in the interval, then no multiple is. -/
theorem onGrid?_eq_none {half : ℕ} (hpos : 0 < half) (h : i.onGrid? (2 * half) = none) (k : ℕ) :
    ¬ i.contains (k * (2 * half)) := by
  intro hk
  obtain ⟨hupper, hlower⟩ := i.nearest_spec hpos
  have hcases := i.multiple_cases (2 * half) k
  have hmiss : ¬ i.contains (i.nearest (2 * half)) := by
    intro hnear
    simp [onGrid?, hnear] at h
  have hnext : i.nearest (2 * half) < i.value →
      ¬ i.contains (i.nearest (2 * half) + 2 * half) := by
    intro hlt hnext
    simp [onGrid?, hmiss, hlt, hnext] at h
  rcases Nat.lt_or_ge (i.nearest (2 * half)) i.value with hlt | hge
  · -- the candidates are the next multiples on both sides
    rcases Nat.lt_or_ge (i.nearest (2 * half)) (k * (2 * half)) with hk' | hk'
    · exact hnext hlt (contains_of_above hk (by omega) (by omega))
    · exact hmiss (contains_of_below hk hlt hk')
  · -- the multiple below is not nearer, and the interval reaches less far there
    rcases Nat.lt_or_ge (k * (2 * half)) (i.nearest (2 * half)) with hk' | hk'
    · exact hmiss (contains_of_nearer hk (by omega) hge (by omega))
    · exact hmiss (contains_of_above hk hge hk')

/-- The distance of a candidate from the value. -/
def distance (i : Interval) (c : ℕ) : ℕ :=
  ((c : ℤ) - i.value).natAbs

/-- A hit is a multiple, and no multiple in the interval is nearer. -/
theorem onGrid?_eq_some {half c : ℕ} (hpos : 0 < half) (h : i.onGrid? (2 * half) = some c) :
    2 * half ∣ c ∧
      ∀ k, i.contains (k * (2 * half)) → i.distance c ≤ i.distance (k * (2 * half)) := by
  obtain ⟨hupper, hlower⟩ := i.nearest_spec hpos
  have hdvd : 2 * half ∣ i.nearest (2 * half) := Nat.dvd_mul_left _ _
  unfold onGrid? at h
  simp only at h
  split at h
  · obtain rfl := Option.some.inj h
    refine ⟨hdvd, fun k _ => ?_⟩
    have hcases := i.multiple_cases (2 * half) k
    unfold distance
    omega
  · next hmiss =>
    split at h
    · next hnext =>
      obtain rfl := Option.some.inj h
      have hlt : i.nearest (2 * half) < i.value := by
        simpa using (Bool.and_eq_true_iff.mp hnext).1
      refine ⟨Nat.dvd_add hdvd (Nat.dvd_refl _), fun k hk => ?_⟩
      have hcases := i.multiple_cases (2 * half) k
      rcases Nat.lt_or_ge (i.nearest (2 * half)) (k * (2 * half)) with hk' | hk'
      · unfold distance
        omega
      · exact absurd (contains_of_below hk hlt hk') hmiss
    · cases h

/-- The candidate is in the interval and a multiple of a power of ten; no such multiple in the
interval is nearer, and there are none of a higher power. -/
structure IsCoarsest (i : Interval) (c places : ℕ) : Prop where
  mem : i.contains c
  multiple : 10 ^ places ∣ c
  nearest : ∀ k, i.contains (k * 10 ^ places) → i.distance c ≤ i.distance (k * 10 ^ places)
  highest : ∀ r, places < r → ∀ k, ¬ i.contains (k * 10 ^ r)

/-- The search finds a hit on the highest grid up to the one where it starts. -/
theorem exists_grid_coarsest (i : Interval) (places : ℕ) :
    ∃ p, 10 ^ p ∣ i.coarsest places ∧
      (∀ k, i.contains (k * 10 ^ p) → i.distance (i.coarsest places) ≤ i.distance (k * 10 ^ p)) ∧
      ∀ r, p < r → r ≤ places → ∀ k, ¬ i.contains (k * 10 ^ r) := by
  induction places with
  | zero =>
    refine ⟨0, one_dvd _, fun k _ => ?_, fun r hlt hle => absurd (hlt.trans_le hle) (lt_irrefl _)⟩
    simp [coarsest, distance]
  | succ places ih =>
    have hunit : Nat.pow 10 (places + 1) = 2 * (5 * 10 ^ places) := by
      show 10 ^ (places + 1) = _
      rw [pow_succ]
      ring
    have hpos : 0 < 5 * 10 ^ places := by positivity
    rw [coarsest, hunit]
    rcases hgrid : i.onGrid? (2 * (5 * 10 ^ places)) with - | c
    · obtain ⟨p, hdvd, hnear, hnone⟩ := ih
      refine ⟨p, hdvd, hnear, fun r hlt hle k => ?_⟩
      rcases Nat.lt_or_eq_of_le hle with hle | rfl
      · exact hnone r hlt (Nat.le_of_lt_succ hle) k
      · have hmiss := onGrid?_eq_none hpos hgrid k
        rwa [← hunit] at hmiss
    · obtain ⟨hdvd, hnear⟩ := onGrid?_eq_some hpos hgrid
      rw [← hunit] at hdvd hnear
      exact ⟨places + 1, hdvd, hnear, fun r hlt hle => absurd (hlt.trans_le hle) (lt_irrefl _)⟩

/-- No grid above the value has a hit, if the gap is not wider than the value. -/
theorem not_contains_of_lt_pow (hgap : 0 < i.gap) (hle : i.gap ≤ i.value) {places r : ℕ}
    (hvalue : i.value < 10 ^ places) (hr : places < r) (k : ℕ) : ¬ i.contains (k * 10 ^ r) := by
  intro hk
  have hpositive : 0 < i.value := hgap.trans_le hle
  rcases Nat.eq_zero_or_pos k with rfl | hpos
  · rw [Nat.zero_mul, contains_iff_of_lt hpositive] at hk
    have hfactor := Nat.mul_le_mul_right (i.value - 0) i.two_le_belowFactor
    rcases hk with hk | ⟨-, hk⟩ <;> omega
  · have hten : 10 * 10 ^ places ≤ k * 10 ^ r := by
      calc 10 * 10 ^ places = 10 ^ (places + 1) := by rw [pow_succ, mul_comm]
        _ ≤ 10 ^ r := Nat.pow_le_pow_right (by decide) hr
        _ ≤ k * 10 ^ r := Nat.le_mul_of_pos_left _ hpos
    rw [contains_iff_of_le (by omega)] at hk
    rcases hk with hk | ⟨-, hk⟩ <;> omega

/-- The search finds a hit on the highest grid of all, wherever above the value it starts. -/
theorem isCoarsest_coarsest (hgap : 0 < i.gap) (hle : i.gap ≤ i.value) {places : ℕ}
    (hvalue : i.value < 10 ^ places) : ∃ p, i.IsCoarsest (i.coarsest places) p := by
  obtain ⟨p, hdvd, hnear, hnone⟩ := i.exists_grid_coarsest places
  refine ⟨p, contains_coarsest hgap places, hdvd, hnear, fun r hlt k => ?_⟩
  rcases Nat.lt_or_ge places r with hr | hr
  · exact not_contains_of_lt_pow hgap hle hvalue hr k
  · exact hnone r hlt hr k

/-! ### Where the search starts -/

theorem lt_twoPow_bitCount (n : ℕ) : n < 2 ^ bitCount n := by
  unfold bitCount
  split
  · next hzero => simp [beq_iff_eq.mp hzero]
  · exact Nat.lt_log2_self

theorem bitCount_le {n b : ℕ} (h : n < 2 ^ b) : bitCount n ≤ b := by
  unfold bitCount
  split
  · exact Nat.zero_le b
  · next hzero => exact (Nat.log2_lt (by simpa using hzero)).mpr h

/-- The estimate is never too low, for as many bits as are needed. -/
theorem twoPow_le_tenPow_places {b : ℕ} (hb : b < 2600) : 2 ^ b ≤ 10 ^ placesOfBits b := by
  have hall : ∀ q < 52, ∀ r < 50, 2 ^ (50 * q + r) ≤ 10 ^ placesOfBits (50 * q + r) := by
    decide +kernel
  have hle := hall (b / 50) (by omega) (b % 50) (Nat.mod_lt b (by decide))
  rwa [Nat.div_add_mod] at hle

end Interval

/-! ### The hit as a decimal -/

namespace Double

variable {q : ℚ} {v : Double}

/-- Distances in the interval are distances from the double. -/
theorem distance_mul_unit (c : ℕ) :
    (v.interval.distance c : ℚ) * v.intervalUnit = |v.value - c * v.intervalUnit| := by
  have hunit := intervalUnit_pos v
  have hcast : (v.interval.distance c : ℚ) = |(c : ℚ) - v.interval.value| := by
    unfold Interval.distance
    rw [Nat.cast_natAbs]
    push_cast
    rfl
  rw [hcast, ← interval_value, ← sub_mul, abs_mul, abs_of_pos hunit, abs_sub_comm]

/-- The decimal is near to the double; no other with the same power of ten is nearer, and there is
none with a higher power. -/
structure IsHit (v : Double) (n : ℕ) (e : ℤ) : Prop where
  near : Near (n * 10 ^ e) v
  nearest : ∀ m : ℕ, Near (m * 10 ^ e) v → |v.value - n * 10 ^ e| ≤ |v.value - m * 10 ^ e|
  highest : ∀ m : ℕ, ∀ f > e, ¬ Near (m * 10 ^ f) v

theorem mantissa_pos (hzero : v.isZero = false) : 0 < v.mantissa :=
  Nat.pos_of_ne_zero (mantissa_ne_zero hzero)

theorem gap_le_value (hzero : v.isZero = false) : v.gap ≤ v.value := by
  have hone : (1 : ℚ) ≤ v.mantissa := by exact_mod_cast mantissa_pos hzero
  exact le_mul_of_one_le_left (gap_pos v).le hone

/-- What is near to a double is at least half of it. -/
theorem Near.below_value (h : Near q v) (hzero : v.isZero = false) : v.value ≤ 2 * q := by
  have hgap := gap_pos v
  have hvalue := gap_le_value hzero
  have hbelow := h.below.trans v.gapBelow_le_gap
  linarith

/-- It is at most one and a half of it. -/
theorem Near.above_value (h : Near q v) (hzero : v.isZero = false) : 2 * q ≤ 3 * v.value := by
  have hvalue := gap_le_value hzero
  have habove := h.above
  linarith

theorem gap_le_value_interval (hzero : v.isZero = false) : v.interval.gap ≤ v.interval.value :=
  Nat.le_mul_of_pos_left _ (mantissa_pos hzero)

/-- A multiple in the interval, as a decimal. -/
theorem multiple_mul_unit (k p : ℕ) :
    ((k * 10 ^ p : ℕ) : ℚ) * v.intervalUnit = k * 10 ^ (min v.exponent 0 + p) := by
  rw [zpow_add₀ (by norm_num), zpow_natCast, intervalUnit]
  push_cast
  ring

/-- The gap of a double, as an integer, takes at most seven bits for three factors of five. -/
theorem interval_gap_le {b : ℕ} (hb : 7 * 358 ≤ b) : v.interval.gap ≤ 2 ^ b := by
  have hbiased := v.biased.isLt
  have hmax := exponent_eq v
  rcases hexponent : v.exponent with e | e
  · have hgap : v.interval.gap = 2 ^ e := by simp only [interval, hexponent]; rfl
    have he : (max v.biased.val 1 : ℕ) - 1075 = (e : ℤ) := hmax.symm.trans hexponent
    rw [hgap]
    exact Nat.pow_le_pow_right (by decide) (by omega)
  · have hgap : v.interval.gap = 5 ^ (e + 1) := by simp only [interval, hexponent]; rfl
    have he : (max v.biased.val 1 : ℕ) - 1075 = -((e : ℤ) + 1) := hmax.symm.trans hexponent
    obtain ⟨k, hk, hk'⟩ : ∃ k, e + 1 ≤ 3 * k ∧ k ≤ 358 := ⟨(e + 3) / 3, by omega, by omega⟩
    calc v.interval.gap = 5 ^ (e + 1) := hgap
      _ ≤ 5 ^ (3 * k) := Nat.pow_le_pow_right (by decide) hk
      _ = (5 ^ 3) ^ k := pow_mul 5 3 k
      _ ≤ (2 ^ 7) ^ k := Nat.pow_le_pow_left (by decide) k
      _ = 2 ^ (7 * k) := (pow_mul 2 7 k).symm
      _ ≤ 2 ^ b := Nat.pow_le_pow_right (by decide) (by omega)

theorem interval_value_lt {b : ℕ} (hb : 7 * 358 ≤ b) : v.interval.value < 2 ^ (53 + b) := by
  calc v.interval.value = v.mantissa * v.interval.gap := rfl
    _ < 2 ^ 53 * 2 ^ b :=
      Nat.mul_lt_mul_of_lt_of_le v.mantissa_lt (interval_gap_le hb) (by positivity)
    _ = 2 ^ (53 + b) := (pow_add 2 53 b).symm

/-- The estimate from which the search starts is above the double. -/
theorem value_lt_tenPow_places (v : Double) :
    v.interval.value < 10 ^ Interval.placesOfBits (Interval.bitCount v.interval.value) := by
  have hle := Interval.bitCount_le (interval_value_lt (v := v) le_rfl)
  have hlt : Interval.bitCount v.interval.value < 2600 := by omega
  exact (Interval.lt_twoPow_bitCount _).trans_le (Interval.twoPow_le_tenPow_places hlt)

/-- The shortest decimal is a hit. -/
theorem exists_isHit_shortest (hzero : v.isZero = false) :
    ∃ n p : ℕ, v.shortest.coefficient = n * 10 ^ p ∧ v.IsHit n (v.shortest.exponent + p) := by
  obtain ⟨p, hmem, ⟨n, hn⟩, hnearest, hhighest⟩ :=
    Interval.isCoarsest_coarsest v.interval_gap_pos (gap_le_value_interval hzero)
      v.value_lt_tenPow_places
  have hcoefficient : v.shortest.coefficient = n * 10 ^ p := hn.trans (mul_comm _ _)
  have hexponent : v.shortest.exponent = min v.exponent 0 := rfl
  rw [show v.interval.coarsest _ = v.shortest.coefficient from rfl, hcoefficient] at hmem hnearest
  refine ⟨n, p, hcoefficient, ?_, fun m hm => ?_, fun m f hf hm => ?_⟩
  · rw [hexponent, ← multiple_mul_unit]
    exact contains_iff_near.mp hmem
  · rw [hexponent, ← multiple_mul_unit] at hm ⊢
    rw [← multiple_mul_unit, ← distance_mul_unit, ← distance_mul_unit]
    have hle := hnearest m (contains_iff_near.mpr hm)
    have hunit := intervalUnit_pos v
    gcongr
  · obtain ⟨r, rfl⟩ : ∃ r : ℕ, f = min v.exponent 0 + r :=
      ⟨(f - min v.exponent 0).toNat, by omega⟩
    rw [← multiple_mul_unit] at hm
    exact hhighest r (by omega) m (contains_iff_near.mpr hm)

/-! ### Other decimals -/

/-- Less than ten gaps away from zero, doubles are subnormal. -/
theorem exponent_of_mantissa_lt (h : v.mantissa < 10) : v.exponent = -1074 := by
  have hbiased : v.biased.val = 0 := by
    unfold mantissa fractions at h
    split at h
    · assumption
    · omega
  rw [exponent_eq, hbiased]
  rfl

/-- The least positive double lies between `4.75e-324` and `2/3 * 1e-323`. -/
theorem two_zpow_bounds :
    (475 : ℚ) * 10 ^ (-323 : ℤ) < 1000 * 2 ^ (-1074 : ℤ) ∧
      (3 : ℚ) * 2 ^ (-1074 : ℤ) < 2 * 10 ^ (-323 : ℤ) := by
  have hlower : (475 : ℚ) * 2 ^ 1074 < 1000 * 10 ^ 323 := by
    exact_mod_cast (show 475 * 2 ^ 1074 < 1000 * 10 ^ 323 by decide +kernel)
  have hupper : (3 : ℚ) * 10 ^ 323 < 2 * 2 ^ 1074 := by
    exact_mod_cast (show 3 * 10 ^ 323 < 2 * 2 ^ 1074 by decide +kernel)
  have htwo : (0 : ℚ) < 2 ^ 1074 := by positivity
  have hten : (0 : ℚ) < 10 ^ 323 := by positivity
  rw [zpow_neg, zpow_neg, show (1074 : ℤ) = (1074 : ℕ) from rfl,
    show (323 : ℤ) = (323 : ℕ) from rfl, zpow_natCast, zpow_natCast]
  simp only [← div_eq_mul_inv]
  rw [div_lt_div_iff₀ hten htwo, div_lt_div_iff₀ htwo hten]
  exact ⟨hlower, hupper⟩

/-- No double is near to a power of ten and yet nearer to nine tenths of it. -/
theorem not_near_below_tenPow {e : ℤ} (hzero : v.isZero = false) (hnear : Near (10 ^ e) v)
    (hlow : 20 * v.value < 19 * 10 ^ e) : False := by
  have hgap := gap_pos v
  have habove := hnear.above
  -- the double is less than ten gaps away from zero, so its gap is the least one
  have hmantissa : v.mantissa < 10 := by
    have hlt : v.value < 10 * v.gap := by linarith
    unfold value gap at hlt
    exact_mod_cast lt_of_mul_lt_mul_right hlt (zpow_nonneg (by norm_num) _)
  obtain ⟨hlower, hupper⟩ := two_zpow_bounds
  have hvalue : v.value = v.mantissa * 2 ^ (-1074 : ℤ) := by
    rw [value, exponent_of_mantissa_lt hmantissa]
  rw [gap, exponent_of_mantissa_lt hmantissa, hvalue] at habove
  rw [hvalue] at hlow
  have hmono : ∀ {a b : ℤ}, a ≤ b → (10 : ℚ) ^ a ≤ 10 ^ b := zpow_le_zpow_right₀ (by norm_num)
  have hstep : (10 : ℚ) ^ (-322 : ℤ) = 10 * 10 ^ (-323 : ℤ) := by
    rw [show (-322 : ℤ) = -323 + 1 from rfl, zpow_add₀ (by norm_num), zpow_one, mul_comm]
  have hstep' : (10 : ℚ) ^ (-323 : ℤ) = 10 * 10 ^ (-324 : ℤ) := by
    rw [show (-323 : ℤ) = -324 + 1 from rfl, zpow_add₀ (by norm_num), zpow_one, mul_comm]
  have hmantissa' : (v.mantissa : ℚ) ≤ 9 := by exact_mod_cast Nat.le_of_lt_succ hmantissa
  have hpos : (0 : ℚ) < 2 ^ (-1074 : ℤ) := by positivity
  have hbound : v.mantissa * (2 : ℚ) ^ (-1074 : ℤ) ≤ 9 * 2 ^ (-1074 : ℤ) :=
    mul_le_mul_of_nonneg_right hmantissa' hpos.le
  rcases lt_trichotomy e (-323) with he | rfl | he
  · -- the power of ten is too small for the double to lie below it
    have hle := hmono (show e ≤ -324 by omega)
    have hone : (1 : ℚ) ≤ v.mantissa := by exact_mod_cast mantissa_pos hzero
    have := mul_le_mul_of_nonneg_right hone hpos.le
    linarith
  · have hcases : v.mantissa ≤ 1 ∨ 2 ≤ v.mantissa := by omega
    rcases hcases with hone | htwo
    · have hone' : (v.mantissa : ℚ) ≤ 1 := by exact_mod_cast hone
      have := mul_le_mul_of_nonneg_right hone' hpos.le
      linarith
    · have htwo' : (2 : ℚ) ≤ v.mantissa := by exact_mod_cast htwo
      have := mul_le_mul_of_nonneg_right htwo' hpos.le
      linarith
  · have hle := hmono (show -322 ≤ e by omega)
    linarith

variable {n f N F : ℕ} {e b : ℤ}

theorem natCast_mul_zpow_lt (hf : f < 10 ^ F) : (f : ℚ) * 10 ^ b < 10 ^ (b + F) := by
  have hcast : (f : ℚ) < 10 ^ F := by exact_mod_cast hf
  rw [zpow_add₀ (by norm_num), zpow_natCast, mul_comm]
  gcongr

theorem zpow_le_natCast_mul (hn : 10 ^ N ≤ n) : (10 : ℚ) ^ (e + N) ≤ n * 10 ^ e := by
  have hcast : (10 : ℚ) ^ N ≤ n := by exact_mod_cast hn
  rw [zpow_add₀ (by norm_num), zpow_natCast, mul_comm]
  gcongr

namespace IsHit

/-- A power of ten between a hit and something near is no higher than the hit's. -/
theorem le_of_between (h : v.IsHit n e) (hnear : Near q v) {j : ℤ} (hle : q ≤ 10 ^ j)
    (hle' : 10 ^ j ≤ (n : ℚ) * 10 ^ e) : j ≤ e := by
  have hmid : Near ((1 : ℕ) * 10 ^ j) v := by
    rw [Nat.cast_one, one_mul]
    exact hnear.between h.near hle hle'
  by_contra hlt
  exact h.highest 1 j (not_le.mp hlt) hmid

/-- A decimal that is near has at least as many digits as the hit. -/
theorem digits_le (h : v.IsHit n e) (hn : 10 ^ N ≤ n) (hf : f < 10 ^ (F + 1))
    (hnear : Near (f * 10 ^ b) v) : N ≤ F := by
  by_contra hlt
  have hb : b ≤ e := not_lt.mp fun hlt => h.highest f b hlt hnear
  have hmono : (10 : ℚ) ^ (b + (F + 1 : ℕ)) ≤ 10 ^ (e + N) :=
    zpow_le_zpow_right₀ (by norm_num) (by omega)
  have hpower := h.le_of_between hnear ((natCast_mul_zpow_lt hf).le.trans hmono)
    (zpow_le_natCast_mul hn)
  omega

/-- A decimal of one digit below the power of ten of a hit is not nearer than the hit. -/
theorem nearest_of_digit (h : v.IsHit n e) (hzero : v.isZero = false) (hn : 1 ≤ n) (hf : f < 10)
    (hb : b < e) (hnear : Near (f * 10 ^ b) v) :
    |v.value - n * 10 ^ e| ≤ |v.value - f * 10 ^ b| := by
  have hten : (10 : ℚ) ^ e = 10 * 10 ^ (e - 1) := by
    rw [zpow_sub₀ (by norm_num), zpow_one]
    ring
  have hpos : (0 : ℚ) < 10 ^ (e - 1) := by positivity
  have hpow : (10 : ℚ) ^ b ≤ 10 ^ (e - 1) := zpow_le_zpow_right₀ (by norm_num) (by omega)
  have hnine : (f : ℚ) ≤ 9 := by exact_mod_cast Nat.le_of_lt_succ hf
  have hdigit : (f : ℚ) * 10 ^ b ≤ 9 * 10 ^ (e - 1) := by gcongr
  have hone : (10 : ℚ) ^ e ≤ n * 10 ^ e := by
    have hcast : (1 : ℚ) ≤ n := by exact_mod_cast hn
    exact le_mul_of_one_le_left (by positivity) hcast
  have hmid : Near (10 ^ e) v := hnear.between h.near (by linarith) hone
  have hhit := h.nearest 1 (by simpa using hmid)
  rw [Nat.cast_one, one_mul] at hhit
  refine hhit.trans ?_
  rcases le_or_gt ((10 : ℚ) ^ e) v.value with hle | hlt
  · rw [abs_of_nonneg (by linarith), abs_of_nonneg (by linarith)]
    linarith
  · have hlow := not_lt.mp fun hlow => not_near_below_tenPow hzero hmid hlow
    rw [abs_of_nonpos (by linarith), abs_of_nonneg (by linarith)]
    linarith

/-- A decimal that is near and has as many digits as the hit is not nearer. -/
theorem nearest_of_digits_eq (h : v.IsHit n e) (hzero : v.isZero = false) (hn : 10 ^ N ≤ n)
    (hf : f < 10 ^ (N + 1)) (hnear : Near (f * 10 ^ b) v) :
    |v.value - n * 10 ^ e| ≤ |v.value - f * 10 ^ b| := by
  have hb : b ≤ e := not_lt.mp fun hlt => h.highest f b hlt hnear
  rcases eq_or_lt_of_le hb with rfl | hlt
  · exact h.nearest f hnear
  · have hmono : (10 : ℚ) ^ (b + (N + 1 : ℕ)) ≤ 10 ^ (e + N) :=
      zpow_le_zpow_right₀ (by norm_num) (by omega)
    have hpower := h.le_of_between hnear ((natCast_mul_zpow_lt hf).le.trans hmono)
      (zpow_le_natCast_mul hn)
    obtain rfl : N = 0 := by omega
    exact h.nearest_of_digit hzero hn hf hlt hnear

end IsHit

end Double

/-! ### Significant digits -/

namespace Decimal

/-- The number of significant digits, without zeros at the end. -/
def significant (d : Decimal) : ℕ :=
  (trimZeros d.digits).length

/-- What the digits of a decimal denote, the first of them standing before a point and multiplied by
its power of ten. -/
def scientificValue (d : Decimal) : ℚ :=
  digitsValue d.digits / 10 ^ (d.digits.length - 1) * 10 ^ d.order

theorem scientificValue_eq (d : Decimal) : d.scientificValue = d.value := by
  have hlength : 0 < d.digits.length := Nat.length_toDigits_pos
  have hdigits : digitsValue d.digits = d.coefficient := digitsValue_decimalDigits _
  have horder : d.order = d.exponent + (d.digits.length - 1 : ℕ) := by
    unfold order
    omega
  rw [scientificValue, value, hdigits, horder, zpow_add₀ (by norm_num), zpow_natCast]
  field_simp

theorem value_of_coefficient {d : Decimal} {f z : ℕ} (h : d.coefficient = f * 10 ^ z) :
    d.value = f * 10 ^ (d.exponent + z) := by
  rw [value, h, zpow_add₀ (by norm_num), zpow_natCast]
  push_cast
  ring

/-- The last digit that is kept is not a zero. -/
theorem not_ten_dvd_digitsValue_trimZeros {ds : List Char} (hdigits : ds.all Char.isDigit)
    (hne : trimZeros ds ≠ []) : ¬ 10 ∣ digitsValue (trimZeros ds) := by
  have hall := all_isDigit_trimZeros hdigits
  obtain ⟨xs, c, hxs⟩ : ∃ xs c, trimZeros ds = xs ++ [c] :=
    ⟨_, _, (List.dropLast_append_getLast hne).symm⟩
  have hc : c ≠ '0' := by
    have hlast : ds.reverse.dropWhile (· == '0') = c :: xs.reverse := by
      have := congrArg List.reverse hxs
      simpa [trimZeros] using this
    rintro rfl
    have hhead := List.head_dropWhile_not (· == '0') (l := ds.reverse) (by simp [hlast])
    simp [hlast] at hhead
  have hdigit : c.isDigit := List.all_eq_true.mp hall c (by simp [hxs])
  have hvalue : digitsValue (trimZeros ds) = digitsValue xs * 10 + (c.toNat - 48) := by
    rw [hxs, digitsValue_append]
    simp [digitsValue]
  have hrange : 48 < c.toNat ∧ c.toNat ≤ 57 := by
    have hne : c.toNat ≠ 48 := fun h => hc (Char.toNat_inj.mp h)
    have hle := toNat_of_isDigit hdigit
    omega
  omega

/-- A decimal other than zero, by its significant digits. -/
theorem exists_significant {d : Decimal} (hne : d.coefficient ≠ 0) :
    ∃ f N z : ℕ, d.coefficient = f * 10 ^ z ∧ d.significant = N + 1 ∧ ¬ 10 ∣ f ∧ 10 ^ N ≤ f ∧
      f < 10 ^ (N + 1) := by
  have hdigits := all_isDigit_decimalDigits d.coefficient
  have hleading : Leading d.digits := ⟨hdigits, decimalDigits_ne_nil _, head?_decimalDigits hne⟩
  have hlength : d.significant + countZeros d.digits = d.digits.length := length_trimZeros d.digits
  have hvalue : digitsValue (trimZeros d.digits) * 10 ^ countZeros d.digits = d.coefficient :=
    (digitsValue_trimZeros d.digits).trans (digitsValue_decimalDigits _)
  have hpos : 0 < d.significant := List.length_pos_of_ne_nil hleading.trimZeros_ne_nil
  have hten : 0 < 10 ^ countZeros d.digits := by positivity
  have hbound (k : ℕ) (hk : 0 < k) : d.digits.length ≤ k ↔ d.coefficient < 10 ^ k :=
    Nat.length_toDigits_le_iff (by decide) hk
  obtain ⟨N, hN⟩ : ∃ N, d.significant = N + 1 := ⟨d.significant - 1, by omega⟩
  refine ⟨digitsValue (trimZeros d.digits), N, countZeros d.digits, hvalue.symm, hN,
    not_ten_dvd_digitsValue_trimZeros hdigits hleading.trimZeros_ne_nil, ?_, ?_⟩
  · -- the coefficient has more than `N` digits before its zeros
    refine Nat.le_of_mul_le_mul_right ?_ hten
    rw [hvalue, ← pow_add]
    rcases Nat.eq_zero_or_pos (N + countZeros d.digits) with hzero | hpos
    · rw [hzero]
      exact Nat.one_le_iff_ne_zero.mpr hne
    · exact not_lt.mp fun hlt => absurd ((hbound _ hpos).mpr hlt) (by omega)
  · refine Nat.lt_of_mul_lt_mul_right (a := 10 ^ countZeros d.digits) ?_
    rw [hvalue, ← pow_add]
    exact (hbound _ (by omega)).mp (by omega)

end Decimal

namespace Double

variable {v : Double}

/-- A factor of ten that a coefficient does not have is in the power of ten. -/
theorem le_of_mul_tenPow_eq {n f p z : ℕ} (h : n * 10 ^ p = f * 10 ^ z) (hn : ¬ 10 ∣ n) :
    z ≤ p := by
  by_contra hlt
  obtain ⟨k, rfl⟩ : ∃ k, z = k + 1 + p := ⟨z - p - 1, by omega⟩
  rw [pow_add, ← mul_assoc] at h
  have hcancel : n = f * 10 ^ (k + 1) := Nat.eq_of_mul_eq_mul_right (by positivity) h
  exact hn ⟨f * 10 ^ k, by rw [hcancel, pow_succ]; ring⟩

theorem not_near_zero (hzero : v.isZero = false) : ¬ Near 0 v := by
  intro h
  have hgap := gap_pos v
  have hle := gap_le_value hzero
  have hbelow := h.below_value hzero
  linarith

/-- The significant digits of the shortest decimal are those of a hit. -/
theorem exists_isHit_significant (hzero : v.isZero = false) :
    ∃ (n N : ℕ) (e : ℤ), v.shortest.value = n * 10 ^ e ∧ v.IsHit n e ∧
      v.shortest.significant = N + 1 ∧ 10 ^ N ≤ n := by
  obtain ⟨n, p, hcoefficient, hhit⟩ := exists_isHit_shortest hzero
  have hvalue := Decimal.value_of_coefficient hcoefficient
  have hne : v.shortest.coefficient ≠ 0 := by
    intro hnil
    refine not_near_zero hzero ?_
    have hnear := hhit.near
    rwa [← hvalue, Decimal.value, hnil, Nat.cast_zero, zero_mul] at hnear
  obtain ⟨f, N, z, hf, hN, hten, hle, -⟩ := Decimal.exists_significant hne
  have hn : ¬ 10 ∣ n := by
    rintro ⟨m, rfl⟩
    refine hhit.highest m (v.shortest.exponent + p + 1) (by omega) ?_
    have hnear := hhit.near
    rw [zpow_add_one₀ (by norm_num)]
    push_cast at hnear
    convert hnear using 1
    ring
  -- neither coefficient has a factor of ten left, so they are the same
  have hsplit : n * 10 ^ p = f * 10 ^ z := hcoefficient.symm.trans hf
  obtain rfl : p = z :=
    Nat.le_antisymm (le_of_mul_tenPow_eq hsplit.symm hten) (le_of_mul_tenPow_eq hsplit hn)
  obtain rfl : n = f := Nat.eq_of_mul_eq_mul_right (by positivity) hsplit
  exact ⟨n, N, _, hvalue, hhit, hN, hle⟩

/-- The shortest decimal of a finite double other than zero rounds to the double.  No decimal with
fewer significant digits does, and none with as many that does is nearer.  Signs play no part. -/
theorem shortest_fewest_digits (v : Double) (hfinite : v.isFinite) (hzero : v.isZero = false) :
    Rounds v.shortest.scientificValue v ∧
    ∀ d : Decimal, Rounds d.value v →
      v.shortest.significant ≤ d.significant ∧
      (d.significant = v.shortest.significant →
        |v.value - v.shortest.scientificValue| ≤ |v.value - d.value|) := by
  rw [Decimal.scientificValue_eq]
  refine ⟨rounds_shortest v, fun d hd => ?_⟩
  obtain ⟨n, N, e, hvalue, hhit, hN, hle⟩ := exists_isHit_significant hzero
  have hnear := hd.near hfinite hzero
  have hne : d.coefficient ≠ 0 := by
    intro hnil
    rw [Decimal.value, hnil, Nat.cast_zero, zero_mul] at hnear
    exact not_near_zero hzero hnear
  obtain ⟨f, F, z, hf, hF, -, -, hlt⟩ := Decimal.exists_significant hne
  have hvalue' := Decimal.value_of_coefficient hf
  rw [hvalue'] at hnear
  rw [hvalue, hvalue', hN, hF]
  refine ⟨Nat.succ_le_succ (hhit.digits_le hle hlt hnear), fun heq => ?_⟩
  obtain rfl := Nat.succ.inj heq
  exact hhit.nearest_of_digits_eq hzero hle hlt hnear

/-- The double `2 ^ 70`, where the gap below is half as wide as the one above. -/
theorem shortest_fewest_digits_narrow :
    let v := Double.ofBits 0x4450000000000000
    v.isFinite ∧ v.isZero = false ∧ v.isNarrow ∧
    v.shortest.digits = "1180591620717411300000".toList ∧ v.shortest.order = 21 ∧
    Rounds v.shortest.scientificValue v ∧
    ∀ d : Decimal, Rounds d.value v →
      17 ≤ d.significant ∧
      (d.significant = 17 → |v.value - v.shortest.scientificValue| ≤ |v.value - d.value|) := by
  intro v
  have hfinite : v.isFinite := by decide
  have hzero : v.isZero = false := by decide
  have hdigits : v.shortest.digits = "1180591620717411300000".toList := by decide
  have hsignificant : v.shortest.significant = 17 := by
    rw [Decimal.significant, hdigits]
    decide
  obtain ⟨hrounds, hfewest⟩ := shortest_fewest_digits v hfinite hzero
  rw [hsignificant] at hfewest
  exact ⟨hfinite, hzero, by decide, hdigits, by decide, hrounds, hfewest⟩

end Double

end EcmaPrinter.Number
