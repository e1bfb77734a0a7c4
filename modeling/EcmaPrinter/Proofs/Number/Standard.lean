import EcmaPrinter.Proofs.Number.Denoted

/-!
The text that the language gives a number.

Of all decimals that round to the number it takes one with the fewest digits, and the closest of
these (`IsFewest`).  Where the point goes depends on how many digits there are and on their power of
ten (`layout`).  `IsStandardText v text` says that this is how the text comes about.  Signs play no
part, and of two decimals that are equally close either will do.

The shortest decimal is such a decimal, and its canonical text has this layout.  But integers below
`2 ^ 63` are written with all their digits, and from `2 ^ 54` on fewer digits can be enough for the
number.  So the canonical text is the standard one if and only if there are no spare digits
(`isStandardText_canonicalChars_iff`).
-/

namespace EcmaPrinter.Number

open EcmaPrinter.Text
open Double

/-! ### Layout -/

/-- The digits with a point behind the given number of them.  Zeros fill the room up to the point;
if it is too far away, it stands behind the first digit and an exponent follows. -/
def layout (digits : List Char) (point : ℤ) : List Char :=
  if digits.length ≤ point ∧ point ≤ 21 then
    digits ++ List.replicate (point - digits.length).toNat '0'
  else if 0 < point ∧ point ≤ 21 then
    digits.take point.toNat ++ '.' :: digits.drop point.toNat
  else if -6 < point ∧ point ≤ 0 then
    '0' :: '.' :: (List.replicate (-point).toNat '0' ++ digits)
  else
    digits.take 1 ++ (if digits.length = 1 then [] else '.' :: digits.drop 1) ++
      'e' :: (if 0 < point then '+' else '-') :: decimalDigits (point - 1).natAbs

variable {ds : List Char}

theorem trimZeros_of_append (xs ys : List Char) :
    trimZeros (xs ++ ys) = if trimZeros ys = [] then trimZeros xs else xs ++ trimZeros ys := by
  unfold trimZeros
  rw [List.reverse_append, List.dropWhile_append]
  by_cases h : ys.reverse.dropWhile (· == '0') = [] <;> simp [h]

theorem trimZeros_zeros (k : ℕ) : trimZeros (List.replicate k '0') = [] := by
  simp [trimZeros]

theorem trimZeros_cons {head : Char} (h : head ≠ '0') (tail : List Char) :
    trimZeros (head :: tail) = head :: trimZeros tail := by
  have hhead : trimZeros [head] = [head] := by simp [trimZeros, h]
  rw [← List.singleton_append, trimZeros_of_append, hhead]
  split
  · next hnil => rw [hnil]
  · rfl

/-- Digits that end before the point are filled up with the zeros they had. -/
theorem layout_digits (h : ds.length ≤ 21) : layout (trimZeros ds) ds.length = ds := by
  have hlength := length_trimZeros ds
  have hcount : ((ds.length : ℤ) - (trimZeros ds).length).toNat = countZeros ds := by omega
  rw [layout, if_pos (by omega), hcount, trimZeros_append]

theorem layout_scientific (h : Leading ds) {order : ℤ} (horder : 21 ≤ order ∨ order ≤ -7) :
    layout (trimZeros ds) (order + 1) = scientific ds order := by
  obtain ⟨head, tail, rfl⟩ := List.exists_cons_of_ne_nil h.nonempty
  have hhead : head ≠ '0' := by simpa using h.head
  rw [trimZeros_cons hhead, layout, if_neg (by simp; omega), if_neg (by omega), if_neg (by omega),
    add_sub_cancel_right]
  unfold scientific
  rw [pointAfterFirst_eq head tail none, partText_pointed]
  rcases order with e | e
  · simp
  · have hsign : ¬ 0 < Int.negSucc e + 1 := by rw [Int.negSucc_eq]; omega
    simp [hsign]

/-- Behind the digits before the point come the others, if one is not zero. -/
theorem layout_withPoint_ofNat (ds : List Char) {e : ℕ} (he : e < 21) :
    layout (trimZeros ds) (e + 1) = withPoint ds (.ofNat e) := by
  have hlength : e + 1 ≤ (padded ds e).length := by
    simp [padded]
    omega
  have htrim : trimZeros ds = trimZeros (wholeDigits ds e ++ (padded ds e).drop (e + 1)) := by
    rw [wholeDigits, List.take_append_drop, padded, trimZeros_of_append, if_pos (trimZeros_zeros _)]
  have hwhole : (wholeDigits ds e).length = e + 1 := by
    rw [wholeDigits, List.length_take]
    omega
  rw [withPoint_ofNat, text_pointed rfl, htrim, trimZeros_of_append]
  -- either all digits behind the point are zeros, or the digits go on behind it
  change layout (if partDigits ds e = [] then _ else _ ++ partDigits ds e) _ = _
  split
  · have hlayout : layout (trimZeros (wholeDigits ds e)) (wholeDigits ds e).length =
        wholeDigits ds e := layout_digits (by omega)
    rw [hwhole] at hlayout
    rw [List.append_nil]
    exact_mod_cast hlayout
  · next hpart =>
    have hpos := List.length_pos_of_ne_nil hpart
    have hpoint : ((e : ℤ) + 1).toNat = e + 1 := by omega
    rw [layout, if_neg (by rw [List.length_append]; omega), if_pos (by omega), hpoint,
      ← hwhole, List.take_left, List.drop_left]

theorem layout_withPoint_negSucc (h : Leading ds) {e : ℕ} (he : e < 6) :
    layout (trimZeros ds) (Int.negSucc e + 1) = withPoint ds (.negSucc e) := by
  have hpos := List.length_pos_of_ne_nil h.trimZeros_ne_nil
  have hpoint : Int.negSucc e + 1 = -(e : ℤ) := by
    rw [Int.negSucc_eq]
    omega
  rw [hpoint, layout, if_neg (by omega), if_neg (by omega), if_pos (by omega), neg_neg,
    Int.toNat_natCast]
  rfl

/-- The canonical text of a decimal is laid out by the standard. -/
theorem Decimal.layout_canonical {d : Decimal} (h : d.coefficient ≠ 0) :
    layout (trimZeros d.digits) (d.order + 1) = d.canonical := by
  have hds : Leading d.digits := leading_decimalDigits h
  unfold Decimal.canonical
  split
  · next horder => exact layout_scientific hds (by simpa using horder)
  · next horder =>
    have horder : ¬ 21 ≤ d.order ∧ ¬ d.order ≤ -7 := by simpa using horder
    rcases heq : d.order with e | e
    · rw [heq] at horder
      exact layout_withPoint_ofNat d.digits (by simp at horder; omega)
    · rw [heq, Int.negSucc_eq] at horder
      exact layout_withPoint_negSucc hds (by omega)

/-- Nothing but digits is written only if the point is behind them, and then by filling up with
zeros. -/
theorem length_trimZeros_layout {point : ℤ} (h : (layout ds point).all Char.isDigit) :
    (trimZeros (layout ds point)).length ≤ ds.length := by
  have hpoint : ('.').isDigit = false := rfl
  have he : ('e').isDigit = false := rfl
  unfold layout at *
  split_ifs at *
  · have hlength := length_trimZeros ds
    rw [trimZeros_of_append, if_pos (trimZeros_zeros _)]
    omega
  all_goals simp [hpoint, he] at h

/-! ### Fewest digits -/

theorem digitsValue_lt (h : ds.all Char.isDigit) : digitsValue ds < 10 ^ ds.length := by
  induction ds using List.reverseRecOn with
  | nil => decide
  | append_singleton xs c ih =>
    obtain ⟨hxs, hc⟩ : xs.all Char.isDigit ∧ c.isDigit := by simpa using h
    have hlt := ih hxs
    have hdigit : digitsValue [c] < 10 := by
      have hc := toNat_of_isDigit hc
      show 10 * 0 + (c.toNat - 48) < 10
      omega
    rw [digitsValue_append, List.length_append, List.length_singleton, pow_succ]
    omega

namespace Double

variable {q : ℚ} {v w : Double} {n : ℕ}

/-- The digits times the power of ten round to the number.  There are as few of them as can be, and
no other decimal with as many digits is closer. -/
structure IsFewest (v : Double) (ds : List Char) (e : ℤ) : Prop where
  leading : Leading ds
  rounds : Rounds (digitsValue ds * 10 ^ e) v
  fewest : ∀ (ds' : List Char) (e' : ℤ), Leading ds' → Rounds (digitsValue ds' * 10 ^ e') v →
    ds.length ≤ ds'.length
  closest : ∀ (ds' : List Char) (e' : ℤ), Leading ds' → Rounds (digitsValue ds' * 10 ^ e') v →
    ds'.length = ds.length →
    |v.value - digitsValue ds * 10 ^ e| ≤ |v.value - digitsValue ds' * 10 ^ e'|

/-- The text that the language gives a number, without a sign. -/
inductive IsStandardText (v : Double) : List Char → Prop
  | zero (h : v.isZero) : IsStandardText v ['0']
  | infinity (h : v.isInfinite) : IsStandardText v "Infinity".toList
  | finite {ds : List Char} {e : ℤ} (hfin : v.isFinite) (hzero : v.isZero = false)
      (h : IsFewest v ds e) : IsStandardText v (layout ds (ds.length + e))

theorem value_significant (d : Decimal) :
    (digitsValue (trimZeros d.digits) : ℚ) * 10 ^ (d.exponent + countZeros d.digits) = d.value := by
  rw [← digitsValue_zeros_mul, trimZeros_append, Decimal.digits, digitsValue_decimalDigits]
  rfl

/-- The shortest decimal has the fewest digits. -/
theorem isFewest_shortest (hfin : v.isFinite) (hzero : v.isZero = false) :
    IsFewest v (trimZeros v.shortest.digits)
      (v.shortest.exponent + countZeros v.shortest.digits) := by
  obtain ⟨n, N, e, hvalue, hhit, hN, hle⟩ := exists_isHit_significant hzero
  have hlength : (trimZeros v.shortest.digits).length = N + 1 := hN
  have hsize {ds : List Char} (h : Leading ds) : ∃ F, ds.length = F + 1 :=
    Nat.exists_eq_succ_of_ne_zero (by simpa using h.nonempty)
  refine ⟨(leading_decimalDigits (coefficient_shortest_ne_zero hzero)).trimmed, ?_, ?_, ?_⟩
  · rw [value_significant]
    exact v.rounds_shortest
  · intro ds e' hds hrounds
    obtain ⟨F, hF⟩ := hsize hds
    have hlt := digitsValue_lt hds.digits
    rw [hF] at hlt ⊢
    rw [hlength]
    exact Nat.succ_le_succ (hhit.digits_le hle hlt (hrounds.near hfin hzero))
  · intro ds e' hds hrounds heq
    have hlt := digitsValue_lt hds.digits
    rw [heq, hlength] at hlt
    rw [value_significant, hvalue]
    exact hhit.nearest_of_digits_eq hzero hle hlt (hrounds.near hfin hzero)

theorem isStandardText_shortest (hfin : v.isFinite) (hzero : v.isZero = false) :
    IsStandardText v v.shortest.canonical := by
  have htext := IsStandardText.finite hfin hzero (isFewest_shortest hfin hzero)
  have hlength := length_trimZeros v.shortest.digits
  have hpoint : ((trimZeros v.shortest.digits).length : ℤ) +
      (v.shortest.exponent + countZeros v.shortest.digits) = v.shortest.order + 1 := by
    unfold Decimal.order
    omega
  rwa [hpoint, Decimal.layout_canonical (coefficient_shortest_ne_zero hzero)] at htext

/-! ### Integers -/

/-- The canonical text has all digits of an integer, though fewer are enough for the number. -/
def hasSpareDigits (v : Double) : Bool :=
  match v.toNat? with
  | some n =>
    decide (n < exactBound) &&
      decide (v.shortest.significant < (trimZeros (decimalDigits n)).length)
  | none => false

/-- If no decimal has fewer digits, those of the integer are as good as any. -/
theorem isFewest_of_toNat? (hzero : v.isZero = false) (hn : v.toNat? = some n)
    (hle : (trimZeros (decimalDigits n)).length ≤ v.shortest.significant) :
    IsFewest v (trimZeros (decimalDigits n)) (countZeros (decimalDigits n)) := by
  have hshortest := isFewest_shortest (isFinite_of_toNat? hn) hzero
  have hvalue : (digitsValue (trimZeros (decimalDigits n)) : ℚ) *
      10 ^ (countZeros (decimalDigits n) : ℤ) = v.value := by
    rw [value_of_toNat? hn, zpow_natCast]
    exact_mod_cast (digitsValue_trimZeros _).trans (digitsValue_decimalDigits n)
  refine ⟨(leading_decimalDigits (ne_zero_of_toNat? hzero hn)).trimmed, ?_, ?_, ?_⟩
  · rw [hvalue]
    exact v.rounds_value
  · exact fun ds e hds hrounds => hle.trans (hshortest.fewest ds e hds hrounds)
  · intro ds e hds hrounds heq
    rw [hvalue, sub_self, abs_zero]
    exact abs_nonneg _

theorem length_decimalDigits_le (hn : n < exactBound) : (decimalDigits n).length ≤ 21 :=
  (Nat.length_toDigits_le_iff (by decide) (by decide)).mpr (hn.trans (by decide))

theorem isStandardText_decimalDigits_iff (hzero : v.isZero = false) (hn : v.toNat? = some n)
    (hlt : n < exactBound) :
    IsStandardText v (decimalDigits n) ↔
      (trimZeros (decimalDigits n)).length ≤ v.shortest.significant := by
  have hfin := isFinite_of_toNat? hn
  constructor
  · -- a standard text of digits alone has no more of them, up to zeros, than the fewest
    intro htext
    generalize htext' : decimalDigits n = text at htext
    have hdigits := all_isDigit_decimalDigits n
    rw [htext'] at hdigits
    cases htext with
    | zero h => rw [hzero] at h; cases h
    | infinity h => exact absurd hdigits (by decide)
    | @finite ds e _ _ h =>
      have hshortest := isFewest_shortest hfin hzero
      exact (length_trimZeros_layout hdigits).trans
        (h.fewest _ _ hshortest.leading hshortest.rounds)
  · intro hle
    have htext := IsStandardText.finite hfin hzero (isFewest_of_toNat? hzero hn hle)
    have hlength := length_trimZeros (decimalDigits n)
    have hpoint : ((trimZeros (decimalDigits n)).length : ℤ) + countZeros (decimalDigits n) =
        (decimalDigits n).length := by omega
    rwa [hpoint, layout_digits (length_decimalDigits_le hlt)] at htext

theorem hasSpareDigits_of_isZero (hfin : v.isFinite) (hzero : v.isZero) :
    v.hasSpareDigits = false := by
  have hdigits : (trimZeros (decimalDigits 0)).length = 0 := by decide
  rw [hasSpareDigits, toNat?_of_mantissa_eq_zero hfin (mantissa_of_isZero hzero)]
  simp only [hdigits, Nat.not_lt_zero, decide_false, Bool.and_false]

theorem canonicalChars_of_isZero (hzero : v.isZero) : v.canonicalChars = ['0'] := by
  have hnan : v.isNaN = false := by
    have hmagnitude : v.magnitude = 0 := by simpa [isZero] using hzero
    unfold magnitude fractions at hmagnitude
    have hbiased : v.biased.val ≠ 2047 := by omega
    simp [isNaN, hbiased]
  simp [canonicalChars, hnan, hzero]

/-- The canonical text of a number is the standard one, unless it has spare digits. -/
theorem isStandardText_canonicalChars_iff (hfin : v.isFinite)
    (hsign : v.negative = false ∨ v.isZero) :
    IsStandardText v v.canonicalChars ↔ v.hasSpareDigits = false := by
  rcases hzero : v.isZero with - | -
  · have hsign : v.negative = false := hsign.resolve_right (by simp [hzero])
    rw [canonicalChars_eq hfin hsign hzero, canonicalPositive, hasSpareDigits]
    rcases hn : v.toNat? with - | n
    · simpa using isStandardText_shortest hfin hzero
    · by_cases hlt : n < exactBound
      · simpa [hlt] using isStandardText_decimalDigits_iff hzero hn hlt
      · simpa [hlt] using isStandardText_shortest hfin hzero
  · rw [canonicalChars_of_isZero hzero]
    simpa [hasSpareDigits_of_isZero hfin hzero] using IsStandardText.zero hzero

/-! ### Where digits are spare -/

theorem mantissa_mul_of_toNat? {e : ℕ} (hn : v.toNat? = some n) (he : v.exponent = e) :
    v.mantissa * 2 ^ e = n := by
  have hvalue := value_of_toNat? hn
  rw [value, he, zpow_natCast] at hvalue
  exact_mod_cast hvalue

theorem exponent_le_of_toNat? (hn : v.toNat? = some n) (hlt : n < 2 ^ 54) : v.exponent ≤ 1 := by
  by_contra hexponent
  obtain ⟨e, he⟩ : ∃ e : ℕ, v.exponent = (e + 2 : ℕ) := ⟨(v.exponent - 2).toNat, by omega⟩
  -- the double is not subnormal, so its mantissa has the leading one
  have hmantissa : 2 ^ 52 ≤ v.mantissa := by
    have hbiased : v.biased.val ≠ 0 := by
      rw [exponent_eq] at hexponent
      omega
    rw [mantissa, if_neg hbiased, fractions]
    omega
  have hpow : 2 ^ 2 ≤ 2 ^ (e + 2) := Nat.pow_le_pow_right (by decide) (by omega)
  have hle : 2 ^ 52 * 2 ^ 2 ≤ n := mantissa_mul_of_toNat? hn he ▸ Nat.mul_le_mul hmantissa hpow
  omega

/-- Below `2 ^ 54`, no other even number is near to an integer. -/
theorem eq_of_near_natCast {m : ℕ} (hn : v.toNat? = some n) (hlt : n < 2 ^ 54)
    (hnear : Near (m : ℚ) v) (heven : 2 ∣ m) : m = n := by
  have habove := hnear.above
  have hbelow := hnear.below.trans v.gapBelow_le_gap
  rw [value_of_toNat? hn] at habove hbelow
  rcases (exponent_le_of_toNat? hn hlt).lt_or_eq with hexponent | hexponent
  · have hgap : v.gap ≤ 1 := zpow_le_one_of_nonpos₀ (by norm_num) (by omega)
    have hm : 2 * (m : ℚ) ≤ 2 * n + 1 := by linarith
    have hm' : 2 * (n : ℚ) ≤ 2 * m + 1 := by linarith
    norm_cast at hm hm'
    omega
  · -- the integer is even too, so they are not one apart
    have hgap : v.gap = 2 := by rw [gap, hexponent, zpow_one]
    have hm : (m : ℚ) ≤ n + 1 := by linarith
    have hm' : (n : ℚ) ≤ m + 1 := by linarith
    have hdouble := mantissa_mul_of_toNat? (e := 1) hn hexponent
    norm_cast at hm hm'
    omega

/-- Without its zeros at the end, such an integer is a hit. -/
theorem isHit_of_toNat? {f z : ℕ} (hzero : v.isZero = false) (hn : v.toNat? = some n)
    (hlt : n < 2 ^ 54) (hf : n = f * 10 ^ z) (hten : ¬ 10 ∣ f) : v.IsHit f z := by
  have hvalue : (f : ℚ) * 10 ^ (z : ℤ) = v.value := by
    rw [value_of_toNat? hn, hf, zpow_natCast]
    push_cast
    rfl
  refine ⟨?_, fun m _ => ?_, fun m e he hnear => ?_⟩
  · rw [hvalue]
    exact v.rounds_value.near (isFinite_of_toNat? hn) hzero
  · rw [hvalue, sub_self, abs_zero]
    exact abs_nonneg _
  · -- with a higher power of ten it would be an even integer, so this one, which ten does not
    -- divide
    obtain ⟨k, rfl⟩ : ∃ k : ℕ, e = (z + (k + 1) : ℕ) := ⟨(e - z - 1).toNat, by omega⟩
    have hcast : (m : ℚ) * 10 ^ ((z + (k + 1) : ℕ) : ℤ) = (m * 10 ^ (z + (k + 1)) : ℕ) := by
      rw [zpow_natCast]
      push_cast
      rfl
    rw [hcast] at hnear
    have heven : 2 ∣ m * 10 ^ (z + (k + 1)) := ⟨m * 10 ^ (z + k) * 5, by ring⟩
    have heq := eq_of_near_natCast hn hlt hnear heven
    have hle := le_of_mul_tenPow_eq (hf.symm.trans heq.symm) hten
    omega

/-- Digits are spare only where the gaps between doubles are more than two. -/
theorem hasSpareDigits_bounds (hfin : v.isFinite) (h : v.hasSpareDigits) :
    ∃ n, v.toNat? = some n ∧ 2 ^ 54 ≤ n ∧ n < exactBound := by
  have hzero : v.isZero = false := by
    by_contra hzero
    rw [hasSpareDigits_of_isZero hfin (by simpa using hzero)] at h
    cases h
  unfold hasSpareDigits at h
  rcases hn : v.toNat? with - | n
  · simp [hn] at h
  · obtain ⟨hlt, hspare⟩ : n < exactBound ∧
        v.shortest.significant < (trimZeros (decimalDigits n)).length := by simpa [hn] using h
    refine ⟨n, rfl, not_lt.mp fun hsmall => ?_, hlt⟩
    obtain ⟨f, N, z, hf, hN, hten, hle, -⟩ :=
      Decimal.exists_significant (d := ⟨false, n, 0⟩) (ne_zero_of_toNat? hzero hn)
    obtain ⟨f', N', z', hf', hN', -, -, hlt'⟩ :=
      Decimal.exists_significant (coefficient_shortest_ne_zero hzero)
    -- the digits of the integer are a hit themselves, so the shortest decimal has no fewer
    have hnear := v.rounds_shortest.near hfin hzero
    rw [Decimal.value_of_coefficient hf'] at hnear
    have hdigits := (isHit_of_toNat? hzero hn hsmall hf hten).digits_le hle hlt' hnear
    have hlength : (trimZeros (decimalDigits n)).length = N + 1 := hN
    omega

/-! ### The number of a literal -/

theorem mantissa_mod_two (v : Double) : v.mantissa % 2 = v.magnitude % 2 := by
  unfold mantissa magnitude fractions
  split <;> omega

theorem Rounds.not_magnitude_lt (hv : Rounds q v) (hw : Rounds q w) (hvnan : v.isNaN = false)
    (hwnan : w.isNaN = false) : ¬ v.magnitude < w.magnitude := by
  intro hlt
  obtain ⟨hle, htie⟩ := hv w hwnan
  obtain ⟨hle', htie'⟩ := hw v hvnan
  have hgap := gap_pos v
  have habove := value_add_gap_le hlt
  have hne : v.value ≠ w.value := by linarith
  have heq : |q - v.value| = |q - w.value| := le_antisymm hle hle'
  have heven := htie hne.symm heq
  have heven' := htie' hne heq.symm
  rw [mantissa_mod_two] at heven heven'
  -- both are even, so there is a double between them, and it is nearer
  obtain ⟨u, hunan, hu⟩ := exists_magnitude_eq (n := v.magnitude + 1)
    (hlt.trans_le (magnitude_le hwnan))
  have hgap' := gap_pos u
  have habove' : u.value + u.gap ≤ w.value := value_add_gap_le (by omega)
  have hbetween : u.value = v.value + v.gap := value_of_magnitude_succ hu
  have hnearest := (hv u hunan).1
  rcases abs_eq_abs.mp heq with hsame | hmiddle
  · linarith
  · rw [abs_of_nonneg (by linarith)] at hnearest
    rcases abs_cases (q - u.value) with ⟨habs, -⟩ | ⟨habs, -⟩ <;> linarith

/-- A number rounds to one double at most, up to its sign. -/
theorem Rounds.magnitude_eq (hv : Rounds q v) (hw : Rounds q w) (hvnan : v.isNaN = false)
    (hwnan : w.isNaN = false) : v.magnitude = w.magnitude :=
  le_antisymm (not_lt.mp (hw.not_magnitude_lt hv hwnan hvnan))
    (not_lt.mp (hv.not_magnitude_lt hw hvnan hwnan))

/-- Signs play no part in standard texts. -/
theorem IsStandardText.of_magnitude_eq {text : List Char} (h : v.magnitude = w.magnitude)
    (htext : IsStandardText v text) : IsStandardText w text := by
  obtain ⟨negative, biased, fraction⟩ := v
  obtain ⟨negative', biased', fraction'⟩ := w
  simp only [magnitude, fractions] at h
  obtain rfl : biased = biased' := Fin.ext (by omega)
  obtain rfl : fraction = fraction' := Fin.ext (by omega)
  cases htext with
  | zero h => exact .zero h
  | infinity h => exact .infinity h
  | finite hfin hzero h =>
    exact .finite hfin hzero ⟨h.leading, h.rounds, h.fewest, h.closest⟩

end Double

end EcmaPrinter.Number
