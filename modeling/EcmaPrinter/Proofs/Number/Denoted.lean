import EcmaPrinter.Proofs.Number.Shortest

/-!
What the texts of a number denote.

Signs count here: `RoundsTo q v` says that of all doubles, negative ones too, `v` is the nearest to
`q`, and the even one if there are two.  It follows from what is known about absolute values
(`Rounds.roundsTo`), since a double on the other side of zero is never nearer.

A canonical text is a sign and a numeral in which an exponent has its sign (`Numeral.fullText`), and
a reader of decimals gives back the digits around its point (`readUnsigned?_fullText`).  A literal
is no longer than the canonical text it is made from: zeros are folded only where that takes less
room, and integers are written in hexadecimal only where they have enough decimal digits
(`length_hexDigits_le`).
-/

namespace EcmaPrinter.Number

open EcmaPrinter.Lexical
open EcmaPrinter.Text
open Double

/-! ### Rounding with signs -/

/-- The value with its sign. -/
def Decimal.signedValue (d : Decimal) : ℚ :=
  if d.negative then -d.value else d.value

namespace Double

variable {q : ℚ} {v w : Double}

/-- The value with its sign.  Both zeros have the same. -/
def signedValue (v : Double) : ℚ :=
  if v.negative then -v.value else v.value

/-- The double is nearest to the number, and even if another one is as near. -/
def RoundsTo (q : ℚ) (v : Double) : Prop :=
  ∀ w : Double, w.isNaN = false →
    |q - v.signedValue| ≤ |q - w.signedValue| ∧
    (w.signedValue ≠ v.signedValue → |q - v.signedValue| = |q - w.signedValue| →
      v.mantissa % 2 = 0)

theorem value_nonneg (v : Double) : 0 ≤ v.value :=
  mul_nonneg (Nat.cast_nonneg _) (zpow_nonneg (by norm_num) _)

theorem mantissa_of_isZero (h : v.isZero) : v.mantissa = 0 := by
  have hmagnitude : v.magnitude = 0 := by simpa [isZero] using h
  unfold magnitude fractions at hmagnitude
  unfold mantissa
  split <;> omega

theorem value_of_isZero (h : v.isZero) : v.value = 0 := by
  rw [value, mantissa_of_isZero h, Nat.cast_zero, zero_mul]

theorem signedValue_eq (h : v.negative = false ∨ v.isZero) : v.signedValue = v.value := by
  unfold signedValue
  split
  · next hneg =>
    have hzero : v.isZero := h.resolve_left (by simp [hneg])
    rw [value_of_isZero hzero, neg_zero]
  · rfl

/-- On the side of a number, doubles are nearer to it than on the other. -/
theorem Rounds.roundsTo (h : Rounds q v) (hq : 0 ≤ q) (hsign : v.negative = false ∨ v.isZero) :
    RoundsTo q v := by
  intro w hw
  obtain ⟨hle, htie⟩ := h w hw
  have hv := value_nonneg v
  have hw' := value_nonneg w
  rw [signedValue_eq hsign]
  rcases hneg : w.negative with - | -
  · rw [signedValue_eq (.inl hneg)]
    exact ⟨hle, htie⟩
  · have hsigned : w.signedValue = -w.value := by simp [signedValue, hneg]
    have hfar : |q - w.signedValue| = q + w.value := by
      rw [hsigned, sub_neg_eq_add, abs_of_nonneg (by linarith)]
    have hnear : |q - w.value| ≤ q + w.value := by
      rw [abs_le]
      constructor <;> linarith
    rw [hfar]
    refine ⟨hle.trans hnear, fun hne heq => ?_⟩
    by_cases hsame : w.value = v.value
    · -- then the double is not zero, but the number is, and zero would be nearer to it
      have hzero : (⟨false, 0, 0⟩ : Double).value = 0 := by simp [value, mantissa]
      have hle := (h ⟨false, 0, 0⟩ (by decide)).1
      rw [hsame] at heq
      rw [hsigned, hsame] at hne
      rw [hzero] at hle
      rcases abs_cases (q - v.value) with ⟨habs, -⟩ | ⟨habs, -⟩
      · exact absurd (by linarith) hne
      · obtain rfl : q = 0 := by linarith
        rw [habs, sub_zero, abs_zero] at hle
        exact absurd (by linarith) hne
    · exact htie hsame (le_antisymm hle (heq ▸ hnear))

/-- The double with the other sign. -/
def negate (v : Double) : Double :=
  { v with negative := !v.negative }

theorem signedValue_negate (v : Double) : v.negate.signedValue = -v.signedValue := by
  have hvalue : v.negate.value = v.value := rfl
  unfold signedValue
  rw [hvalue]
  cases hneg : v.negative <;> simp [negate, hneg]

theorem RoundsTo.negate (h : RoundsTo q v) : RoundsTo (-q) v.negate := by
  intro w hw
  obtain ⟨hle, htie⟩ := h w.negate hw
  have hmirror (x y : ℚ) : |-x - -y| = |x - y| := by rw [← neg_sub', abs_neg]
  have hwback : w.signedValue = -w.negate.signedValue := by rw [signedValue_negate, neg_neg]
  rw [signedValue_negate, hwback, hmirror, hmirror, Ne, neg_inj]
  exact ⟨hle, htie⟩

end Double

end EcmaPrinter.Number

/-! ### Reading numerals -/

namespace EcmaPrinter.Lexical

open EcmaPrinter.Number

namespace Numeral

variable {n : Numeral}

/-- The exponent with its sign. -/
def fullExponent (n : Numeral) : List Char :=
  match n.exponent? with
  | some (negative, digits) => 'e' :: (if negative then '-' else '+') :: digits
  | none => []

/-- The numeral as text, with the sign of its exponent. -/
def fullText (n : Numeral) : List Char :=
  n.whole ++ (n.partText ++ n.fullExponent)

theorem readExponent?_fullExponent (hn : n.Valid) :
    readExponent? n.fullExponent = some n.exponent := by
  unfold fullExponent Numeral.exponent
  rcases he : n.exponent? with - | ⟨negative, digits⟩
  · rfl
  · obtain ⟨hne, hdigits⟩ := hn.exponent _ he
    have hgiven : (!digits.isEmpty && digits.all Char.isDigit) = true := by simp_all
    cases negative <;> simp [readExponent?, readSign, hgiven]

theorem endsDigits_fullExponent (n : Numeral) : endsDigits n.fullExponent := by
  unfold fullExponent
  rcases n.exponent? with - | ⟨negative, digits⟩ <;> rfl

theorem endsDigits_part (n : Numeral) : endsDigits (n.partText ++ n.fullExponent) := by
  unfold partText
  rcases n.part? with - | part
  · exact n.endsDigits_fullExponent
  · rfl

/-- A reader of decimals gives back the digits around the point. -/
theorem readUnsigned?_fullText (hn : n.Valid) (negative : Bool) :
    readUnsigned? negative n.fullText =
      some (.ofDigits negative n.whole n.part n.exponent) := by
  have hpart := hn.part
  have hread := readExponent?_fullExponent hn
  have hends := n.endsDigits_fullExponent
  have hfirst : n.fullExponent = [] ∨ ∃ rest, n.fullExponent = 'e' :: rest := by
    unfold fullExponent
    rcases n.exponent? with - | ⟨negative, digits⟩
    · exact .inl rfl
    · exact .inr ⟨_, rfl⟩
  have hguard : (n.whole.isEmpty && n.part.isEmpty) = false := by
    rcases hn.nonempty with h | h <;> simp [h]
  rw [readUnsigned?, fullText, spanDigits_append hn.whole n.endsDigits_part]
  -- behind the whole digits comes a point with the others, or else the exponent, which is no point
  unfold partText part at *
  rcases hp : n.part? with - | part
  · rw [hp] at hguard
    rcases hfirst with h | ⟨rest, h⟩ <;> simp_all
  · rw [hp] at hguard hpart
    have hspan := spanDigits_append hpart hends
    simp only [Option.getD_some] at hspan hguard
    simp only [List.cons_append, hspan, hguard, hread]
    rfl

end Numeral

theorem Spells.nonneg {q : ℚ} {cs : List Char} (h : Spells q cs) : 0 ≤ q := by
  cases h with
  | decimal hn hpart hq =>
    rw [← hq, Numeral.value, tenPow_eq]
    positivity
  | hexadecimal hne hdigits hq =>
    rw [← hq]
    positivity

end EcmaPrinter.Lexical

/-! ### Canonical texts -/

namespace EcmaPrinter.Number

open EcmaPrinter.Lexical
open EcmaPrinter.Text
open Double

/-- The text starts without a sign and is read as a decimal of the given value. -/
structure ReadsAs (q : ℚ) (text : List Char) : Prop where
  unsigned : readSign text = (false, text)
  read : ∀ negative, ∃ d, readUnsigned? negative text = some d ∧ d.negative = negative ∧ d.value = q

section

variable {whole part : List Char} {exponent? : Option (Bool × List Char)}

theorem readsAs_pointed (hwhole : whole.all Char.isDigit) (hpart : part.all Char.isDigit)
    (hne : whole ≠ []) (hzero : whole.head? = some '0' → whole.length = 1)
    (hexponent : ∀ e ∈ exponent?, e.2 ≠ [] ∧ e.2.all Char.isDigit) {q : ℚ}
    (hq : (digitsValue (whole ++ part) : ℚ) *
      10 ^ ((pointed whole part exponent?).exponent - part.length) = q) :
    ReadsAs q (pointed whole part exponent?).fullText := by
  refine ⟨readSign_digits hne hwhole _, fun negative => ?_⟩
  have hvalid := valid_pointed hwhole hpart (.inl hne) hzero hexponent
  refine ⟨_, Numeral.readUnsigned?_fullText hvalid negative, rfl, ?_⟩
  rw [part_pointed]
  exact hq

end

variable {ds : List Char}

theorem scientific_eq_fullText (head : Char) (tail : List Char) (e : ℤ) :
    scientific (head :: tail) e =
      (pointed [head] (trimZeros tail) (some (exponentOf e))).fullText := by
  unfold scientific
  rw [pointAfterFirst_eq head tail (some (exponentOf e))]
  cases e <;> rfl

theorem Leading.readsAs (h : Leading ds) : ReadsAs (digitsValue ds) ds := by
  have htext : (pointed ds [] none).fullText = ds := by
    simp [Numeral.fullText, Numeral.partText, Numeral.fullExponent, pointed]
  have hreads : ReadsAs (digitsValue ds) (pointed ds [] none).fullText :=
    readsAs_pointed h.digits rfl h.nonempty (fun h0 => absurd h0 h.head) (by simp)
      (by simp [pointed, Numeral.exponent])
  rwa [htext] at hreads

/-- The canonical text of a decimal is read as this decimal. -/
theorem Decimal.readsAs_canonical {d : Decimal} (h : d.coefficient ≠ 0) :
    ReadsAs d.value d.canonical := by
  have hds : Leading d.digits := leading_decimalDigits h
  rw [d.value_eq]
  unfold Decimal.canonical
  split
  · obtain ⟨head, tail, hcons⟩ := List.exists_cons_of_ne_nil hds.nonempty
    rw [hcons] at hds ⊢
    obtain ⟨hhead, htail⟩ : head.isDigit ∧ tail.all Char.isDigit := by simpa using hds.digits
    rw [scientific_eq_fullText]
    refine readsAs_pointed (by simpa using hhead) (all_isDigit_trimZeros htail)
      (List.cons_ne_nil _ _) (fun _ => rfl) (by simpa using exponentOf_valid d.order) ?_
    rw [exponent_pointed]
    exact value_pointAfterFirst head tail d.order
  · rcases d.order with e | e
    · have hwhole := hds.wholeDigits e
      rw [withPoint_ofNat]
      exact readsAs_pointed hwhole.digits (all_isDigit_parts hds.digits e).2 hwhole.nonempty
        (fun h0 => absurd h0 hwhole.head) (by simp) (value_wholeDigits d.digits e)
    · rw [withPoint_negSucc hds,
        show Int.negSucc e + 1 - (d.digits.length : ℤ) = -(e : ℤ) - d.digits.length by
          rw [Int.negSucc_eq]; omega]
      exact readsAs_pointed rfl (all_isDigit_belowPoint hds.digits e) (List.cons_ne_nil _ _)
        (fun _ => rfl) (by simp) (value_belowPoint d.digits e 1)

theorem Decimal.value_nonneg (d : Decimal) : 0 ≤ d.value :=
  mul_nonneg (Nat.cast_nonneg _) (zpow_nonneg (by norm_num) _)

theorem ReadsAs.nonneg {q : ℚ} (h : ReadsAs q ds) : 0 ≤ q := by
  obtain ⟨d, -, -, rfl⟩ := h.read false
  exact d.value_nonneg

/-- Read a decimal with its sign, to the end of the text. -/
def readDecimal? (text : String) : Option Decimal :=
  let (negative, rest) := readSign text.toList
  readUnsigned? negative rest

namespace Double

variable {v : Double} {n : ℕ}

theorem exists_readsAs_canonicalPositive (hzero : v.isZero = false) :
    ∃ q, Rounds q v ∧ ReadsAs q v.canonicalPositive := by
  have hshortest : Rounds v.shortest.value v ∧ ReadsAs v.shortest.value v.shortest.canonical :=
    ⟨v.rounds_shortest, Decimal.readsAs_canonical (coefficient_shortest_ne_zero hzero)⟩
  unfold canonicalPositive
  split
  · next n hn =>
    split
    · have hreads := (leading_decimalDigits (ne_zero_of_toNat? hzero hn)).readsAs
      rw [digitsValue_decimalDigits] at hreads
      exact ⟨n, value_of_toNat? hn ▸ v.rounds_value, hreads⟩
    · exact ⟨_, hshortest⟩
  · exact ⟨_, hshortest⟩

theorem negate_abs (hsign : v.negative = true) : v.abs.negate = v := by
  obtain ⟨negative, biased, fraction⟩ := v
  obtain rfl : negative = true := hsign
  rfl

/-- The canonical text of a finite double is read as a decimal that rounds to it. -/
theorem exists_readDecimal?_canonical (hfin : v.isFinite) :
    ∃ d, readDecimal? v.canonical = some d ∧ RoundsTo d.signedValue v := by
  have hbiased : v.biased.val ≠ 2047 := by simpa [isFinite] using hfin
  have hinfinite : v.isInfinite = false := by simp [isInfinite, hbiased]
  unfold readDecimal?
  rw [canonical, String.toList_ofList, canonicalChars, isNaN_of_isFinite hfin, hinfinite]
  rcases hzero : v.isZero with - | -
  · obtain ⟨q, hrounds, hreads⟩ := exists_readsAs_canonicalPositive (v := v.abs) hzero
    have hround : RoundsTo q v.abs := hrounds.roundsTo hreads.nonneg (.inl rfl)
    -- the sign is read off first, and the rest is the text of the absolute value
    rcases hneg : v.negative with - | -
    · obtain ⟨d, hd, hsign, rfl⟩ := hreads.read false
      rw [abs_eq_self hneg] at hround
      refine ⟨d, ?_, by simpa [Decimal.signedValue, hsign] using hround⟩
      simpa [hreads.unsigned] using hd
    · obtain ⟨d, hd, hsign, rfl⟩ := hreads.read true
      have hround := hround.negate
      rw [negate_abs hneg] at hround
      exact ⟨d, hd, by simpa [Decimal.signedValue, hsign] using hround⟩
  · have hround := v.rounds_value.roundsTo v.value_nonneg (.inr hzero)
    rw [value_of_isZero hzero] at hround
    exact ⟨⟨false, 0, 0⟩, rfl, by simpa [Decimal.signedValue, Decimal.value] using hround⟩

/-! ### Lengths -/

theorem length_fractionLiteral_le (text : List Char) :
    (fractionLiteral text).length ≤ text.length := by
  unfold fractionLiteral
  split
  · next rest =>
    have hrest := length_dropPlus_le rest
    simp only [List.length_cons]
    omega
  · exact length_dropPlus_le text

/-- A count of two or more zeros takes less room than the zeros. -/
theorem length_decimalDigits_lt {z : ℕ} (hz : 1 < z) : (decimalDigits z).length < z := by
  have hpow : z < 10 ^ (z - 1) :=
    calc z = z - 1 + 1 := by omega
      _ ≤ 2 ^ (z - 1) := Nat.lt_two_pow_self
      _ < 10 ^ (z - 1) := Nat.pow_lt_pow_left (by decide) (by omega)
  have hle : (decimalDigits z).length ≤ z - 1 :=
    (Nat.length_toDigits_le_iff (by decide) (by omega)).mpr hpow
  omega

theorem length_foldZeros_le (text : List Char) : (foldZeros text).length ≤ text.length := by
  rw [foldZeros_eq]
  split
  · next hmany =>
    have hcount := length_decimalDigits_lt (z := countZeros text) (by omega)
    have hlength := length_trimZeros text
    simp only [List.length_append, List.length_cons]
    omega
  · exact le_rfl

/-- Sixteen decimal digits leave room for hexadecimal ones, even of a number twice as great. -/
theorem length_hexDigits_le {c : ℕ} (hc : 10 ^ 15 ≤ c) (hle : n ≤ 2 * c) (hn : n < 10 ^ 20) :
    (hexDigits n).length + 2 ≤ (decimalDigits c).length := by
  -- where one more hexadecimal digit is needed, there is one more decimal digit too
  obtain ⟨k, hk, hlt, hge⟩ : ∃ k, 0 < k ∧ n < 16 ^ k ∧ 10 ^ (k + 1) ≤ c := by
    by_cases h₁₄ : n < 16 ^ 14
    · exact ⟨14, by decide, h₁₄, hc⟩
    by_cases h₁₅ : n < 16 ^ 15
    · exact ⟨15, by decide, h₁₅, by omega⟩
    by_cases h₁₆ : n < 16 ^ 16
    · exact ⟨16, by decide, h₁₆, by omega⟩
    · exact ⟨17, by decide, by omega, by omega⟩
  have hhex : (hexDigits n).length ≤ k := by
    rw [hexDigits, List.length_map]
    exact (Nat.length_toDigits_le_iff (by decide) hk).mpr hlt
  have hdecimal : k + 1 < (decimalDigits c).length := by
    by_contra hshort
    have hsmall := (Nat.length_toDigits_le_iff (by decide) (by omega)).mp (not_lt.mp hshort)
    omega
  omega

theorem isZero_of_toNat? (h : v.toNat? = some n) (hn : n ≠ 0) : v.isZero = false := by
  by_contra hzero
  have hvalue := value_of_toNat? h
  rw [value_of_isZero (by simpa using hzero)] at hvalue
  exact hn (by exact_mod_cast hvalue.symm)

theorem isFinite_of_toNat? (h : v.toNat? = some n) : v.isFinite := by
  unfold toNat? at h
  split at h
  · cases h
  · next hfin => simpa using hfin

/-- Integers below `10 ^ 20` are written without an exponent, as a number at least half as great. -/
theorem exists_canonicalPositive_eq (hzero : v.isZero = false) (hn : v.toNat? = some n)
    (hlow : 10 ^ 15 < n) (hhigh : n < 10 ^ 20) :
    ∃ c, v.canonicalPositive = decimalDigits c ∧ 10 ^ 15 ≤ c ∧ n ≤ 2 * c := by
  unfold canonicalPositive
  rw [hn]
  dsimp only
  split
  · exact ⟨n, rfl, hlow.le, by omega⟩
  · next hlarge =>
    have hexponent : v.shortest.exponent = 0 :=
      min_eq_right (exponent_nonneg_of_toNat? hn (by omega))
    -- the shortest decimal is an integer too, and not so great that it would need an exponent
    have hnear := v.rounds_shortest.near (isFinite_of_toNat? hn) hzero
    have hbelow := hnear.below_value hzero
    have habove := hnear.above_value hzero
    rw [Decimal.value, hexponent, zpow_zero, mul_one, value_of_toNat? hn] at hbelow habove
    have hbelow : n ≤ 2 * v.shortest.coefficient := by exact_mod_cast hbelow
    have habove : 2 * v.shortest.coefficient ≤ 3 * n := by exact_mod_cast habove
    have hlength : v.shortest.digits.length ≤ 21 :=
      (Nat.length_toDigits_le_iff (by decide) (by decide)).mpr (by omega)
    refine ⟨v.shortest.coefficient, ?_, ?_, hbelow⟩
    · have horder : (decide (v.shortest.order ≥ 21) || decide (v.shortest.order ≤ -7)) = false := by
        have hne := List.length_pos_of_ne_nil v.shortest.digits_ne_nil
        rw [Decimal.order, hexponent]
        simp
        omega
      rw [Decimal.canonical, horder]
      exact Decimal.withPoint_digits hexponent
    · unfold exactBound at hlarge
      omega

/-- A literal is never longer than the canonical text. -/
theorem length_literalChars_le (v : Double) (hex : Bool) :
    (v.literalChars hex).length ≤ v.canonicalChars.length := by
  unfold literalChars
  split
  · next n hn =>
    -- all forms but the hexadecimal one only cut characters off the text
    refine integerLiteral_cases (P := fun text => text.length ≤ _)
      (fun _ => length_foldZeros_le _) (fun hsign hrange => ?_) (length_dropPlus_le _)
    obtain ⟨hlow, hhigh⟩ : 1000000000000000 < n ∧ n < 100000000000000000000 := by
      simpa [inHexRange] using hrange
    have hzero := isZero_of_toNat? hn (by omega)
    obtain ⟨c, htext, hc, hle⟩ := exists_canonicalPositive_eq hzero hn hlow hhigh
    rw [canonicalChars_eq (isFinite_of_toNat? hn) hsign hzero, htext]
    exact length_hexDigits_le hc hle hhigh
  · exact length_fractionLiteral_le _

/-! ### Both texts -/

/-- The canonical text of a finite double is a decimal that rounds to it.  If the double is not
negative, its literal is a numeric literal, read to its end, of a number that rounds to the double,
and no longer than the canonical text. -/
theorem texts_denote (v : Double) (hfin : v.isFinite) :
    (∃ d, readDecimal? v.canonical = some d ∧ RoundsTo d.signedValue v) ∧
    (v.negative = false ∨ v.isZero → ∀ hex,
      (∃ q, Spells q (v.literal hex).toList ∧ scanNumber (v.literal hex).toList = some (q, []) ∧
        RoundsTo q v) ∧
      (v.literal hex).length ≤ v.canonical.length) := by
  refine ⟨exists_readDecimal?_canonical hfin, fun hsign hex => ⟨?_, ?_⟩⟩
  · obtain ⟨q, hrounds, hspells⟩ := isSpelled_literalChars hfin hsign hex
    rw [literal, String.toList_ofList]
    have hscan : scanNumber (v.literalChars hex ++ []) = some (q, []) :=
      hspells.scanNumber_append rfl (by simp)
    rw [List.append_nil] at hscan
    exact ⟨q, hspells, hscan, hrounds.roundsTo hspells.nonneg hsign⟩
  · rw [literal, canonical, String.length_ofList, String.length_ofList]
    exact v.length_literalChars_le hex

/-- The integer `2 ^ 63`, the first that is not written with all its digits. -/
theorem texts_denote_hexadecimal :
    let v := Double.ofBits 0x43E0000000000000
    v.isFinite ∧ v.negative = false ∧ v.canonical = "9223372036854776000" ∧
    v.literal true = "0x8000000000000000" ∧
    (∃ d, readDecimal? "9223372036854776000" = some d ∧ RoundsTo d.signedValue v) ∧
    ∃ q, scanNumber "0x8000000000000000".toList = some (q, []) ∧ RoundsTo q v := by
  intro v
  have hfin : v.isFinite := by decide
  have hcanonical : v.canonical = "9223372036854776000" := by decide
  have hliteral : v.literal true = "0x8000000000000000" := by decide
  obtain ⟨hread, hliterals⟩ := texts_denote v hfin
  obtain ⟨⟨q, -, hscan, hround⟩, -⟩ := hliterals (.inl rfl) true
  rw [hcanonical] at hread
  rw [hliteral] at hscan
  exact ⟨hfin, rfl, hcanonical, hliteral, hread, q, hscan, hround⟩

end Double

end EcmaPrinter.Number
