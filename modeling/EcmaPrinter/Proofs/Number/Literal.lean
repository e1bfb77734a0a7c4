import EcmaPrinter.Proofs.Lexical.Numeral
import EcmaPrinter.Proofs.Number.Nearest
import EcmaPrinter.Stream
import Mathlib.Data.List.TakeWhile

/-!
The literal of a double is a number that rounds to it.

A literal comes from the digits of an integer or of the shortest decimal.  Whatever is done to
them (zeros at the end are cut off or counted, a point is set, a zero before it is left out)
the value of the text is that of the decimal, or else the integer is written in hexadecimal.
So what is read back rounds to the double (`Double.spells_literalChars`).
-/

namespace EcmaPrinter.Number

open EcmaPrinter.Lexical
open EcmaPrinter.Text
open Double

/-! ### Values of digits -/

theorem digitsValue_decimalDigits (n : ℕ) : digitsValue (decimalDigits n) = n :=
  Nat.ofDigitChars_ten_toDigits

theorem digitsValue_append (xs ys : List Char) :
    digitsValue (xs ++ ys) = digitsValue xs * 10 ^ ys.length + digitsValue ys := by
  show Nat.ofDigitChars 10 (xs ++ ys) 0 = _
  rw [Nat.ofDigitChars_append, Nat.ofDigitChars_eq_ofDigitChars_zero, mul_comm]
  rfl

theorem digitsValue_zeros (k : ℕ) : digitsValue (List.replicate k '0') = 0 := by
  show Nat.ofDigitChars 10 _ 0 = 0
  rw [Nat.ofDigitChars_replicate_zero, mul_zero]

/-- Zeros at the end are a power of ten. -/
theorem digitsValue_append_zeros (xs : List Char) (k : ℕ) :
    digitsValue (xs ++ List.replicate k '0') = digitsValue xs * 10 ^ k := by
  rw [digitsValue_append, digitsValue_zeros, List.length_replicate, add_zero]

/-- Zeros in front do not count. -/
theorem digitsValue_zeros_append (k : ℕ) (xs : List Char) :
    digitsValue (List.replicate k '0' ++ xs) = digitsValue xs := by
  rw [digitsValue_append, digitsValue_zeros, zero_mul, zero_add]

theorem toNat_of_isDigit {c : Char} (h : c.isDigit) : 48 ≤ c.toNat ∧ c.toNat ≤ 57 := by
  simpa [Char.isDigit, UInt32.le_iff_toNat_le] using h

theorem all_isDigit_decimalDigits (n : ℕ) : (decimalDigits n).all Char.isDigit :=
  List.all_eq_true.mpr fun _ hc => Nat.isDigit_of_mem_toDigits (by decide) (by decide) hc

theorem decimalDigits_ne_nil (n : ℕ) : decimalDigits n ≠ [] :=
  Nat.toDigits_ne_nil

/-- Nothing but zero itself starts with a zero. -/
theorem head?_decimalDigits {n : ℕ} (hn : n ≠ 0) : (decimalDigits n).head? ≠ some '0' := by
  induction n using Nat.strongRecOn with
  | ind n ih =>
    unfold decimalDigits
    rw [Nat.toDigits_eq_if (by decide)]
    split
    · next hlt =>
      have hall : ∀ m < 10, m ≠ 0 → [m.digitChar].head? ≠ some '0' := by decide
      exact hall n hlt hn
    · next hge =>
      have hhead := ih (n / 10) (by omega) (by omega)
      unfold decimalDigits at hhead
      rw [List.head?_append_of_ne_nil _ Nat.toDigits_ne_nil]
      exact hhead

/-! ### Zeros at the end -/

theorem trimZeros_append (ds : List Char) :
    trimZeros ds ++ List.replicate (countZeros ds) '0' = ds := by
  have hzeros : ds.reverse.takeWhile (· == '0') = List.replicate (countZeros ds) '0' := by
    refine List.eq_replicate_iff.mpr ⟨rfl, fun c hc => ?_⟩
    simpa using List.mem_takeWhile_imp hc
  have hsplit := congrArg List.reverse
    (List.takeWhile_append_dropWhile (p := (· == '0')) (l := ds.reverse))
  rw [List.reverse_append, hzeros, List.reverse_replicate, List.reverse_reverse] at hsplit
  exact hsplit

theorem length_trimZeros (ds : List Char) : (trimZeros ds).length + countZeros ds = ds.length := by
  have h := congrArg List.length (trimZeros_append ds)
  rwa [List.length_append, List.length_replicate] at h

theorem digitsValue_trimZeros (ds : List Char) :
    digitsValue (trimZeros ds) * 10 ^ countZeros ds = digitsValue ds := by
  rw [← digitsValue_append_zeros, trimZeros_append]

theorem all_isDigit_trimZeros {ds : List Char} (h : ds.all Char.isDigit) :
    (trimZeros ds).all Char.isDigit := by
  rw [← trimZeros_append ds, List.all_append, Bool.and_eq_true] at h
  exact h.1

/-! ### Hexadecimal digits -/

theorem digitValue?_toUpper {d : ℕ} (h : d < 16) :
    digitValue? 16 (Char.toUpper d.digitChar) = some d := by
  have hall : ∀ d < 16, digitValue? 16 (Char.toUpper d.digitChar) = some d := by decide
  exact hall d h

/-- The hexadecimal digits of a natural stand for it. -/
theorem baseValue_hexDigits (n : ℕ) :
    baseValue 16 (hexDigits n) = n ∧ ∀ c ∈ hexDigits n, (digitValue? 16 c).isSome := by
  induction n using Nat.strongRecOn with
  | ind n ih =>
    unfold hexDigits
    rw [Nat.toDigits_eq_if (by decide)]
    split
    · next hlt =>
      have hd := digitValue?_toUpper hlt
      simp [baseValue, hd]
    · next hge =>
      obtain ⟨hvalue, hdigits⟩ := ih (n / 16) (by omega)
      have hd := digitValue?_toUpper (Nat.mod_lt n (by decide : 16 > 0))
      unfold hexDigits baseValue at *
      constructor
      · rw [List.map_append, List.foldl_append, hvalue]
        simp only [List.map_cons, List.map_nil, List.foldl_cons, List.foldl_nil, hd,
          Option.getD_some]
        omega
      · intro c hc
        rw [List.map_append, List.mem_append] at hc
        rcases hc with hc | hc
        · exact hdigits c hc
        · obtain rfl : c = Char.toUpper (n % 16).digitChar := by simpa using hc
          rw [hd]
          rfl

theorem spells_hexDigits (n : ℕ) : Spells n ('0' :: 'x' :: hexDigits n) := by
  obtain ⟨hvalue, hdigits⟩ := baseValue_hexDigits n
  refine .hexadecimal ?_ hdigits (by rw [hvalue])
  unfold hexDigits
  simp

/-! ### Numerals made of digits -/

theorem tenPow_eq (e : ℤ) : tenPow e = (10 : ℚ) ^ e := by
  cases e with
  | ofNat e => rfl
  | negSucc e =>
    rw [zpow_negSucc, tenPow, one_div]

/-- Zeros at the end can be taken for a power of ten. -/
theorem digitsValue_zeros_mul (xs : List Char) (k : ℕ) (e : ℤ) :
    (digitsValue (xs ++ List.replicate k '0') : ℚ) * 10 ^ e = digitsValue xs * 10 ^ (e + k) := by
  rw [digitsValue_append_zeros, zpow_add₀ (by norm_num), zpow_natCast]
  push_cast
  ring

/-- The numeral with the given digits around its point, which is left out before nothing. -/
def pointed (whole part : List Char) (exponent? : Option (Bool × List Char)) : Numeral where
  whole := whole
  part? := if part = [] then none else some part
  exponent? := exponent?

variable {whole part : List Char} {exponent? : Option (Bool × List Char)}

theorem part_pointed : (pointed whole part exponent?).part = part := by
  unfold Numeral.part pointed
  split
  · next h => exact h.symm
  · rfl

theorem partText_pointed :
    (pointed whole part exponent?).partText = if part = [] then [] else '.' :: part := by
  by_cases h : part = [] <;> simp [Numeral.partText, pointed, h]

theorem text_pointed (hexponent : exponent? = none) :
    (pointed whole part exponent?).text = whole ++ if part = [] then [] else '.' :: part := by
  subst hexponent
  rw [Numeral.text, partText_pointed]
  simp [Numeral.exponentText, pointed]

theorem valid_pointed (hwhole : whole.all Char.isDigit) (hpart : part.all Char.isDigit)
    (hne : whole ≠ [] ∨ part ≠ []) (hzero : whole.head? = some '0' → whole.length = 1)
    (hexponent : ∀ e ∈ exponent?, e.2 ≠ [] ∧ e.2.all Char.isDigit) :
    (pointed whole part exponent?).Valid :=
  ⟨hwhole, part_pointed.symm ▸ hpart, part_pointed.symm ▸ hne, hzero, hexponent⟩

theorem spells_pointed (hwhole : whole.all Char.isDigit) (hpart : part.all Char.isDigit)
    (hne : whole ≠ [] ∨ part ≠ []) (hzero : whole.head? = some '0' → whole.length = 1)
    (hexponent : ∀ e ∈ exponent?, e.2 ≠ [] ∧ e.2.all Char.isDigit) {q : ℚ}
    (hq : (digitsValue (whole ++ part) : ℚ) *
      10 ^ ((pointed whole part exponent?).exponent - part.length) = q) :
    Spells q (pointed whole part exponent?).text := by
  refine .decimal (valid_pointed hwhole hpart hne hzero hexponent) ?_ ?_
  · unfold pointed
    split <;> simp_all
  · rw [Numeral.value, part_pointed, tenPow_eq]
    exact hq

/-! ### Scientific and positional texts -/

theorem not_mem_of_all_isDigit {ds : List Char} (h : ds.all Char.isDigit) {c : Char}
    (hc : c.isDigit = false) : c ∉ ds := by
  intro hmem
  rw [List.all_eq_true.mp h c hmem] at hc
  cases hc

theorem length_dropPlus_le (text : List Char) : (dropPlus text).length ≤ text.length := by
  fun_induction dropPlus text with
  | case1 rest ih =>
    simp only [List.length_cons]
    omega
  | case2 c rest _ ih => exact Nat.succ_le_succ ih
  | case3 => rfl

/-- Before the first `e` nothing is dropped. -/
theorem dropPlus_append {xs : List Char} (h : 'e' ∉ xs) (ys : List Char) :
    dropPlus (xs ++ ys) = xs ++ dropPlus ys := by
  induction xs with
  | nil => rfl
  | cons c xs ih =>
    obtain ⟨hc, hxs⟩ : 'e' ≠ c ∧ 'e' ∉ xs := by simpa using h
    rw [List.cons_append, dropPlus.eq_2 _ _ (fun rest heq => absurd heq.symm hc), ih hxs]
    rfl

theorem dropPlus_eq_self {xs : List Char} (h : 'e' ∉ xs) : dropPlus xs = xs := by
  have := dropPlus_append h []
  rwa [List.append_nil, dropPlus, List.append_nil] at this

theorem dropPlus_digits {ds : List Char} (h : ds.all Char.isDigit) : dropPlus ds = ds :=
  dropPlus_eq_self (not_mem_of_all_isDigit h rfl)

theorem fractionLiteral_eq_dropPlus {text : List Char} (h : text.head? ≠ some '0') :
    fractionLiteral text = dropPlus text := by
  unfold fractionLiteral
  split
  · exact absurd rfl h
  · rfl

/-- The digits of a positive number: none in front is a zero. -/
structure Leading (ds : List Char) : Prop where
  digits : ds.all Char.isDigit
  nonempty : ds ≠ []
  head : ds.head? ≠ some '0'

variable {ds : List Char}

theorem Leading.trimZeros_ne_nil (h : Leading ds) : trimZeros ds ≠ [] := by
  intro hnil
  have hzeros := trimZeros_append ds
  rw [hnil, List.nil_append] at hzeros
  cases hcount : countZeros ds with
  | zero => exact h.nonempty (by rw [← hzeros, hcount]; rfl)
  | succ k => exact h.head (by rw [← hzeros, hcount]; rfl)

theorem Leading.trimmed (h : Leading ds) : Leading (trimZeros ds) := by
  refine ⟨all_isDigit_trimZeros h.digits, h.trimZeros_ne_nil, ?_⟩
  have hhead := h.head
  rwa [← trimZeros_append ds, List.head?_append_of_ne_nil _ h.trimZeros_ne_nil] at hhead

/-- The exponent of a scientific text. -/
def exponentOf : ℤ → Bool × List Char
  | .ofNat e => (false, decimalDigits e)
  | .negSucc e => (true, decimalDigits (e + 1))

theorem exponentOf_valid (e : ℤ) : (exponentOf e).2 ≠ [] ∧ (exponentOf e).2.all Char.isDigit := by
  cases e with
  | ofNat e => exact ⟨decimalDigits_ne_nil e, all_isDigit_decimalDigits e⟩
  | negSucc e => exact ⟨decimalDigits_ne_nil _, all_isDigit_decimalDigits _⟩

theorem exponent_pointed (whole part : List Char) (e : ℤ) :
    (pointed whole part (some (exponentOf e))).exponent = e := by
  cases e with
  | ofNat e => simp [pointed, exponentOf, Numeral.exponent, digitsValue_decimalDigits]
  | negSucc e =>
    simp [pointed, exponentOf, Numeral.exponent, digitsValue_decimalDigits, Int.negSucc_eq]

theorem dropPlus_pointed (hwhole : whole.all Char.isDigit) (hpart : part.all Char.isDigit)
    (more : List Char) :
    dropPlus (whole ++ ((pointed whole part exponent?).partText ++ more)) =
      whole ++ ((pointed whole part exponent?).partText ++ dropPlus more) := by
  have he : 'e' ∉ (pointed whole part exponent?).partText := by
    have := not_mem_of_all_isDigit hpart (c := 'e') rfl
    rw [partText_pointed]
    split <;> simp_all
  rw [dropPlus_append (not_mem_of_all_isDigit hwhole rfl), dropPlus_append he]

theorem pointAfterFirst_eq (head : Char) (tail : List Char)
    (exponent? : Option (Bool × List Char)) :
    pointAfterFirst (head :: tail) =
      head :: (pointed [head] (trimZeros tail) exponent?).partText := by
  rw [partText_pointed, pointAfterFirst]
  split <;> simp_all

theorem dropPlus_scientific (head : Char) {tail : List Char} (h : (head :: tail).all Char.isDigit)
    (e : ℤ) :
    dropPlus (scientific (head :: tail) e) =
      (pointed [head] (trimZeros tail) (some (exponentOf e))).text := by
  obtain ⟨hhead, htail⟩ : head.isDigit ∧ tail.all Char.isDigit := by simpa using h
  have hwhole : [head].all Char.isDigit := by simpa using hhead
  unfold scientific
  rw [pointAfterFirst_eq head tail (some (exponentOf e))]
  refine (dropPlus_pointed hwhole (all_isDigit_trimZeros htail) _).trans ?_
  have hexponent : ∀ e, dropPlus (decimalDigits e) = decimalDigits e :=
    fun e => dropPlus_digits (all_isDigit_decimalDigits e)
  cases e with
  | ofNat e =>
    simp only [dropPlus, hexponent]
    rfl
  | negSucc e =>
    have hminus : dropPlus ('e' :: '-' :: decimalDigits (e + 1)) =
        'e' :: '-' :: dropPlus (decimalDigits (e + 1)) := rfl
    simp only [hminus, hexponent]
    rfl

/-- Behind the first of the digits, the point has the given power of ten. -/
theorem value_pointAfterFirst (head : Char) (tail : List Char) (e : ℤ) :
    (digitsValue ([head] ++ trimZeros tail) : ℚ) * 10 ^ (e - (trimZeros tail).length) =
      digitsValue (head :: tail) * 10 ^ (e + 1 - (head :: tail).length) := by
  have hsplit : head :: tail =
      ([head] ++ trimZeros tail) ++ List.replicate (countZeros tail) '0' := by
    rw [List.append_assoc, trimZeros_append]
    rfl
  have hlen := length_trimZeros tail
  rw [hsplit, digitsValue_zeros_mul, List.length_append, List.length_append]
  congr 2
  simp only [List.length_cons, List.length_nil, List.length_replicate]
  omega

/-- A scientific text has the value of its digits, the first of which has the given power of
ten. -/
theorem spells_scientific (h : Leading ds) (e : ℤ) :
    Spells (digitsValue ds * 10 ^ (e + 1 - ds.length)) (dropPlus (scientific ds e)) := by
  obtain ⟨hdigits, hne, hzero⟩ := h
  obtain ⟨head, tail, rfl⟩ := List.exists_cons_of_ne_nil hne
  obtain ⟨hhead, htail⟩ : head.isDigit ∧ tail.all Char.isDigit := by simpa using hdigits
  rw [dropPlus_scientific head hdigits]
  refine spells_pointed (by simpa using hhead) (all_isDigit_trimZeros htail)
    (.inl (List.cons_ne_nil _ _)) (fun _ => rfl) (by simpa using exponentOf_valid e) ?_
  rw [exponent_pointed]
  exact value_pointAfterFirst head tail e

theorem head?_scientific (h : Leading ds) (e : ℤ) : (scientific ds e).head? ≠ some '0' := by
  obtain ⟨head, tail, rfl⟩ := List.exists_cons_of_ne_nil h.nonempty
  unfold scientific
  rw [pointAfterFirst_eq head tail none]
  exact h.head

/-- Digits with as many zeros behind them as reach up to the point. -/
def padded (ds : List Char) (e : ℕ) : List Char :=
  ds ++ List.replicate (e + 1 - ds.length) '0'

/-- The digits before the point. -/
def wholeDigits (ds : List Char) (e : ℕ) : List Char :=
  (padded ds e).take (e + 1)

/-- The digits behind the point, without the zeros at their end. -/
def partDigits (ds : List Char) (e : ℕ) : List Char :=
  trimZeros ((padded ds e).drop (e + 1))

theorem withPoint_ofNat (ds : List Char) (e : ℕ) :
    withPoint ds (.ofNat e) = (pointed (wholeDigits ds e) (partDigits ds e) none).text := by
  rw [text_pointed rfl, withPoint, wholeDigits, partDigits, padded]
  split <;> simp_all

theorem all_isDigit_parts (h : ds.all Char.isDigit) (e : ℕ) :
    (wholeDigits ds e).all Char.isDigit ∧ (partDigits ds e).all Char.isDigit := by
  have hall : (padded ds e).all Char.isDigit := by simp [padded, h]
  rw [← List.take_append_drop (e + 1) (padded ds e), List.all_append, Bool.and_eq_true] at hall
  exact ⟨hall.1, all_isDigit_trimZeros hall.2⟩

theorem Leading.wholeDigits (h : Leading ds) (e : ℕ) : Leading (wholeDigits ds e) := by
  refine ⟨(all_isDigit_parts h.digits e).1, ?_, ?_⟩
  · simp [Number.wholeDigits, padded, h.nonempty]
  · rw [Number.wholeDigits, List.head?_take, if_neg (by omega), padded,
      List.head?_append_of_ne_nil _ h.nonempty]
    exact h.head

/-- The point stands behind the digit of power zero. -/
theorem value_wholeDigits (ds : List Char) (e : ℕ) :
    (digitsValue (wholeDigits ds e ++ partDigits ds e) : ℚ) *
        10 ^ ((0 : ℤ) - (partDigits ds e).length) =
      digitsValue ds * 10 ^ ((e : ℤ) + 1 - ds.length) := by
  have hlen : (padded ds e).length = max ds.length (e + 1) := by
    simp [padded]
    omega
  have hsplit : padded ds e = (wholeDigits ds e ++ partDigits ds e) ++
      List.replicate (countZeros ((padded ds e).drop (e + 1))) '0' := by
    rw [wholeDigits, partDigits, List.append_assoc, trimZeros_append, List.take_append_drop]
  have hcount : (partDigits ds e).length + _ = _ := length_trimZeros ((padded ds e).drop (e + 1))
  rw [List.length_drop] at hcount
  have hboth := digitsValue_zeros_mul ds (e + 1 - ds.length) ((e : ℤ) + 1 - (padded ds e).length)
  rw [← padded, hsplit, digitsValue_zeros_mul, ← hsplit] at hboth
  convert hboth using 3 <;> omega

/-- A text with a point has the value of its digits, the first of which has the given power of
ten. -/
theorem spells_withPoint_ofNat (h : Leading ds) (e : ℕ) :
    (withPoint ds (.ofNat e)).head? ≠ some '0' ∧
    Spells (digitsValue ds * 10 ^ ((e : ℤ) + 1 - ds.length)) (withPoint ds (.ofNat e)) := by
  have hwhole := h.wholeDigits e
  rw [withPoint_ofNat]
  constructor
  · rw [text_pointed rfl, List.head?_append_of_ne_nil _ hwhole.nonempty]
    exact hwhole.head
  · exact spells_pointed hwhole.digits (all_isDigit_parts h.digits e).2 (.inl hwhole.nonempty)
      (fun h0 => absurd h0 hwhole.head) (by simp) (value_wholeDigits ds e)

/-- Below one, the digits stand behind a point and further zeros. -/
def belowPoint (ds : List Char) (e : ℕ) : List Char :=
  List.replicate e '0' ++ trimZeros ds

theorem all_isDigit_belowPoint (h : ds.all Char.isDigit) (e : ℕ) :
    (belowPoint ds e).all Char.isDigit := by
  simp [belowPoint, all_isDigit_trimZeros h]

theorem Leading.belowPoint_ne_nil (h : Leading ds) (e : ℕ) : belowPoint ds e ≠ [] := by
  simp [belowPoint, h.trimZeros_ne_nil]

/-- Zeros before the point do not count. -/
theorem value_belowPoint (ds : List Char) (e k : ℕ) :
    (digitsValue (List.replicate k '0' ++ belowPoint ds e) : ℚ) *
        10 ^ ((0 : ℤ) - (belowPoint ds e).length) =
      digitsValue ds * 10 ^ (-(e : ℤ) - ds.length) := by
  have hlen := length_trimZeros ds
  have hzeros := digitsValue_zeros_mul (trimZeros ds) (countZeros ds) (-(e : ℤ) - ds.length)
  rw [trimZeros_append] at hzeros
  rw [hzeros, belowPoint, digitsValue_zeros_append, digitsValue_zeros_append, List.length_append,
    List.length_replicate]
  congr 2
  omega

theorem withPoint_negSucc (h : Leading ds) (e : ℕ) :
    withPoint ds (.negSucc e) = (pointed ['0'] (belowPoint ds e) none).text := by
  rw [text_pointed rfl, if_neg (h.belowPoint_ne_nil e)]
  rfl

/-- Below one, the zero before the point can be left out. -/
theorem spells_withPoint_negSucc (h : Leading ds) (e : ℕ) :
    Spells (digitsValue ds * 10 ^ (-(e : ℤ) - ds.length)) (withPoint ds (.negSucc e)) ∧
    Spells (digitsValue ds * 10 ^ (-(e : ℤ) - ds.length)) ('.' :: belowPoint ds e) := by
  have hpart := all_isDigit_belowPoint h.digits e
  have hne := h.belowPoint_ne_nil e
  have hpoint : '.' :: belowPoint ds e = (pointed [] (belowPoint ds e) none).text := by
    rw [text_pointed rfl, if_neg hne]
    rfl
  rw [withPoint_negSucc h, hpoint]
  exact ⟨spells_pointed rfl hpart (.inr hne) (fun _ => rfl) (by simp) (value_belowPoint ds e 1),
    spells_pointed rfl hpart (.inr hne) (by simp) (by simp) (value_belowPoint ds e 0)⟩

/-! ### Decimals -/

theorem dropPlus_withPoint (h : ds.all Char.isDigit) (e : ℤ) :
    dropPlus (withPoint ds e) = withPoint ds e := by
  cases e with
  | ofNat e =>
    obtain ⟨hwhole, hpart⟩ := all_isDigit_parts h e
    rw [withPoint_ofNat]
    exact dropPlus_pointed hwhole hpart []
  | negSucc e =>
    show dropPlus (['0', '.'] ++ belowPoint ds e) = _
    rw [dropPlus_append (by decide), dropPlus_digits (all_isDigit_belowPoint h e)]
    rfl

theorem fractionLiteral_withPoint_negSucc (h : ds.all Char.isDigit) (e : ℕ) :
    fractionLiteral (withPoint ds (.negSucc e)) = '.' :: belowPoint ds e := by
  show '.' :: dropPlus (belowPoint ds e) = _
  rw [dropPlus_digits (all_isDigit_belowPoint h e)]

theorem leading_decimalDigits {n : ℕ} (h : n ≠ 0) : Leading (decimalDigits n) :=
  ⟨all_isDigit_decimalDigits n, decimalDigits_ne_nil n, head?_decimalDigits h⟩

theorem Decimal.value_eq (d : Decimal) :
    d.value = digitsValue d.digits * 10 ^ (d.order + 1 - d.digits.length) := by
  rw [Decimal.value, Decimal.digits, digitsValue_decimalDigits]
  congr 2
  unfold Decimal.order Decimal.digits
  omega

/-- The canonical text of a decimal spells it, without the plus of an exponent and also without a
zero before the point. -/
theorem Decimal.spells_canonical {d : Decimal} (h : d.coefficient ≠ 0) :
    Spells d.value (dropPlus d.canonical) ∧ Spells d.value (fractionLiteral d.canonical) := by
  have hds : Leading d.digits := leading_decimalDigits h
  rw [d.value_eq]
  unfold Decimal.canonical
  split
  · have hspells := spells_scientific hds d.order
    rw [fractionLiteral_eq_dropPlus (head?_scientific hds d.order)]
    exact ⟨hspells, hspells⟩
  · rcases d.order with e | e
    · obtain ⟨hhead, hspells⟩ := spells_withPoint_ofNat hds e
      rw [fractionLiteral_eq_dropPlus hhead, dropPlus_withPoint hds.digits]
      exact ⟨hspells, hspells⟩
    · rw [fractionLiteral_withPoint_negSucc hds.digits, dropPlus_withPoint hds.digits,
        show Int.negSucc e + 1 - (d.digits.length : ℤ) = -(e : ℤ) - d.digits.length by
          rw [Int.negSucc_eq]; omega]
      exact spells_withPoint_negSucc hds e

theorem Decimal.digits_ne_nil (d : Decimal) : d.digits ≠ [] :=
  decimalDigits_ne_nil _

/-- A decimal without an exponent of its own has no digits behind the point. -/
theorem Decimal.withPoint_digits {d : Decimal} (he : d.exponent = 0) :
    withPoint d.digits d.order = d.digits := by
  obtain ⟨e, hlen⟩ : ∃ e, d.digits.length = e + 1 :=
    Nat.exists_eq_succ_of_ne_zero (by simpa using d.digits_ne_nil)
  have horder : d.order = .ofNat e := by
    rw [Decimal.order, he, hlen]
    simp
  rw [horder, withPoint_ofNat, text_pointed rfl, wholeDigits, partDigits, padded, hlen]
  simp [← hlen, trimZeros]

/-- It is written as its digits, or else in scientific form. -/
theorem Decimal.canonical_eq_digits {d : Decimal} (he : d.exponent = 0)
    (hno : 'e' ∉ d.canonical) : d.canonical = d.digits := by
  unfold Decimal.canonical at hno ⊢
  split
  · next hscientific =>
    rw [if_pos hscientific] at hno
    refine absurd ?_ hno
    unfold scientific
    rcases d.order <;> simp
  · exact Decimal.withPoint_digits he

/-! ### Integers -/

theorem foldZeros_eq (ds : List Char) :
    foldZeros ds = if countZeros ds > 2 then trimZeros ds ++ 'e' :: decimalDigits (countZeros ds)
      else ds := by
  have htake : ds.take (ds.length - countZeros ds) = trimZeros ds := by
    have hlen : ds.length - countZeros ds = (trimZeros ds).length := by
      have := length_trimZeros ds
      omega
    calc ds.take (ds.length - countZeros ds)
        = (trimZeros ds ++ List.replicate (countZeros ds) '0').take (trimZeros ds).length := by
          rw [trimZeros_append, hlen]
      _ = trimZeros ds := List.take_left
  simp only [foldZeros, htake]

theorem spells_digits (hdigits : ds.all Char.isDigit) (hne : ds ≠ [])
    (hzero : ds.head? = some '0' → ds.length = 1) : Spells (digitsValue ds) ds := by
  have htext : (pointed ds [] none).text = ds := by
    rw [text_pointed rfl]
    simp
  rw [← htext]
  refine spells_pointed hdigits rfl (.inl hne) hzero (by simp) ?_
  rw [htext]
  simp [pointed, Numeral.exponent]

theorem Leading.spells (h : Leading ds) : Spells (digitsValue ds) ds :=
  spells_digits h.digits h.nonempty fun h0 => absurd h0 h.head

/-- Zeros at the end of an integer can be counted in an exponent. -/
theorem Leading.spells_foldZeros (h : Leading ds) : Spells (digitsValue ds) (foldZeros ds) := by
  rw [foldZeros_eq]
  split
  · have htrim := h.trimmed
    have htext : (pointed (trimZeros ds) [] (some (exponentOf (countZeros ds)))).text =
        trimZeros ds ++ 'e' :: decimalDigits (countZeros ds) := by
      rw [Numeral.text, partText_pointed]
      rfl
    rw [← htext]
    refine spells_pointed htrim.digits rfl (.inl htrim.nonempty)
      (fun h0 => absurd h0 htrim.head) (by simpa using exponentOf_valid (countZeros ds)) ?_
    have hvalue := digitsValue_zeros_mul (trimZeros ds) (countZeros ds) 0
    rw [trimZeros_append, zpow_zero, mul_one] at hvalue
    rw [exponent_pointed, hvalue]
    simp
  · exact h.spells

namespace Double

variable {v : Double} {n : ℕ}

theorem isNaN_of_isFinite (h : v.isFinite) : v.isNaN = false := by
  have hbiased : v.biased.val ≠ 2047 := by simpa [isFinite] using h
  simp [isNaN, hbiased]

/-- An integer is the value of its double. -/
theorem value_of_toNat? (h : v.toNat? = some n) : v.value = n := by
  unfold toNat? at h
  split at h
  · cases h
  unfold value
  rcases he : v.exponent with e | e
  · simp only [he, Option.some.injEq] at h
    rw [← h]
    simp
  · simp only [he] at h
    split at h
    · next hmod =>
      obtain ⟨k, hk⟩ := Nat.dvd_of_mod_eq_zero hmod
      have hpos : 0 < Nat.pow 2 (e + 1) := Nat.pow_pos (by decide)
      rw [hk, Nat.mul_div_cancel_left _ hpos, Option.some.injEq] at h
      rw [hk, h, zpow_negSucc, show Nat.pow 2 (e + 1) = 2 ^ (e + 1) from rfl]
      push_cast
      field_simp
    · cases h

theorem mantissa_ne_zero (h : v.isZero = false) : v.mantissa ≠ 0 := by
  have hmagnitude : v.magnitude ≠ 0 := by simpa [isZero] using h
  unfold magnitude fractions at hmagnitude
  unfold mantissa fractions
  split <;> omega

theorem toNat?_of_mantissa_eq_zero (hfin : v.isFinite) (hm : v.mantissa = 0) :
    v.toNat? = some 0 := by
  unfold toNat?
  rcases v.exponent with e | e <;> simp [hfin, hm]

theorem value_ne_zero (h : v.isZero = false) : v.value ≠ 0 :=
  mul_ne_zero (Nat.cast_ne_zero.mpr (mantissa_ne_zero h)) (zpow_ne_zero _ (by norm_num))

theorem ne_zero_of_toNat? (hzero : v.isZero = false) (h : v.toNat? = some n) : n ≠ 0 := by
  rintro rfl
  exact value_ne_zero hzero (by simpa using value_of_toNat? h)

/-- Beyond the greatest mantissa all doubles are integers. -/
theorem exponent_nonneg_of_toNat? (h : v.toNat? = some n) (hn : exactBound ≤ n) :
    0 ≤ v.exponent := by
  unfold toNat? at h
  split at h
  · cases h
  rcases he : v.exponent with e | e
  · exact Int.natCast_nonneg e
  · simp only [he] at h
    split at h
    · have hle : n ≤ v.mantissa := by
        rw [← Option.some.inj h]
        exact Nat.div_le_self _ _
      have hlt := v.mantissa_lt
      unfold exactBound at hn
      omega
    · cases h

theorem coefficient_shortest_ne_zero (h : v.isZero = false) : v.shortest.coefficient ≠ 0 := by
  intro hzero
  have hcontains := v.contains_shortest
  have hgap := v.interval_gap_pos
  have hvalue : v.interval.gap ≤ v.interval.value :=
    Nat.le_mul_of_pos_left _ (Nat.pos_of_ne_zero (mantissa_ne_zero h))
  rw [hzero] at hcontains
  simp only [Interval.contains, Bool.or_eq_true, decide_eq_true_eq, Bool.and_eq_true,
    beq_iff_eq] at hcontains
  split at hcontains <;> [skip; split at hcontains] <;> omega

/-- The text spells a number that rounds to the double. -/
def IsSpelled (v : Double) (text : List Char) : Prop :=
  ∃ q, Rounds q v ∧ Spells q text

theorem isSpelled_literalChars_zero (h : v.isZero) (hex : Bool) :
    v.IsSpelled (v.literalChars hex) := by
  have hmagnitude : v.magnitude = 0 := by simpa [isZero] using h
  obtain ⟨negative, biased, fraction⟩ := v
  obtain ⟨rfl, rfl⟩ : biased = 0 ∧ fraction = 0 := by
    unfold magnitude fractions at hmagnitude
    constructor <;> apply Fin.ext <;> simp at hmagnitude ⊢ <;> omega
  have hvalue : value ⟨negative, 0, 0⟩ = 0 := by simp [value, mantissa]
  have htext : literalChars ⟨negative, 0, 0⟩ hex = ['0'] := by
    have hnat : toNat? ⟨negative, 0, 0⟩ = some 0 := toNat?_of_mantissa_eq_zero rfl rfl
    rw [literalChars, hnat]
    cases negative <;> cases hex <;> rfl
  rw [htext]
  refine ⟨_, rounds_value _, ?_⟩
  rw [hvalue]
  have hspells : Spells (digitsValue ['0']) ['0'] :=
    spells_digits rfl (List.cons_ne_nil _ _) fun _ => rfl
  exact hspells

theorem abs_eq_self (hsign : v.negative = false) : v.abs = v := by
  obtain ⟨negative, biased, fraction⟩ := v
  obtain rfl : negative = false := hsign
  rfl

/-- The digits or the canonical text of the shortest decimal. -/
theorem canonicalChars_eq (hfin : v.isFinite) (hsign : v.negative = false)
    (hzero : v.isZero = false) : v.canonicalChars = v.canonicalPositive := by
  have hbiased : v.biased.val ≠ 2047 := by simpa [isFinite] using hfin
  simp [canonicalChars, isNaN_of_isFinite hfin, isInfinite, hbiased, hzero, hsign,
    abs_eq_self hsign]

theorem integerLiteral_cases {P : List Char → Prop} {negative hex : Bool} {text : List Char}
    (hfold : 'e' ∉ text → P (foldZeros text))
    (hhex : negative = false → inHexRange n → P ('0' :: 'x' :: hexDigits n))
    (hdrop : P (dropPlus text)) :
    P (integerLiteral negative n text hex) := by
  unfold integerLiteral
  split
  · split
    · exact hdrop
    · next he => exact hfold (by simpa using he)
  · split
    · next hrange => exact hhex (by simp_all) (by simp_all)
    · exact hdrop

/-- The literal of a finite double that is not negative rounds to it when it is read. -/
theorem isSpelled_literalChars (hfin : v.isFinite) (hsign : v.negative = false ∨ v.isZero)
    (hex : Bool) : v.IsSpelled (v.literalChars hex) := by
  by_cases hzero : v.isZero
  · exact isSpelled_literalChars_zero hzero hex
  have hzero : v.isZero = false := by simpa using hzero
  have hpositive : v.negative = false := by simpa [hzero] using hsign
  obtain ⟨hdrop, hfraction⟩ := Decimal.spells_canonical (coefficient_shortest_ne_zero hzero)
  have hrounds := v.rounds_shortest
  unfold literalChars
  rw [canonicalChars_eq hfin hpositive hzero, canonicalPositive]
  cases hn : v.toNat? with
  | none => exact ⟨_, hrounds, hfraction⟩
  | some n =>
    have hexact : Rounds n v := value_of_toNat? hn ▸ v.rounds_value
    have hhex : v.negative = false → inHexRange n → v.IsSpelled ('0' :: 'x' :: hexDigits n) :=
      fun _ _ => ⟨n, hexact, spells_hexDigits n⟩
    simp only
    split
    · have hleading := leading_decimalDigits (ne_zero_of_toNat? hzero hn)
      have hrounds : Rounds (digitsValue (decimalDigits n)) v := by
        rw [digitsValue_decimalDigits]
        exact hexact
      refine integerLiteral_cases (fun _ => ⟨_, hrounds, hleading.spells_foldZeros⟩) hhex ?_
      rw [dropPlus_digits hleading.digits]
      exact ⟨_, hrounds, hleading.spells⟩
    · next hlarge =>
      refine integerLiteral_cases (fun he => ?_) hhex ⟨_, hrounds, hdrop⟩
      have hexponent : v.shortest.exponent = 0 :=
        min_eq_right (exponent_nonneg_of_toNat? hn (by omega))
      have hleading := leading_decimalDigits (coefficient_shortest_ne_zero hzero)
      rw [Decimal.canonical_eq_digits hexponent he]
      refine ⟨_, ?_, hleading.spells_foldZeros⟩
      rw [digitsValue_decimalDigits]
      rw [Decimal.value, hexponent, zpow_zero, mul_one] at hrounds
      exact hrounds

/-! ### Infinity -/

theorem magnitude_le {w : Double} (h : w.isNaN = false) : w.magnitude ≤ 2047 * fractions := by
  have hnan : w.biased.val = 2047 → w.fraction.val = 0 := by simpa [isNaN] using h
  have hbiased := w.biased.isLt
  have hfraction := w.fraction.isLt
  unfold magnitude fractions
  omega

theorem value_le_infinity {w : Double} (h : w.isNaN = false) (negative : Bool) :
    w.value ≤ (infinity negative).value := by
  have hinfinity : (infinity negative).magnitude = 2047 * fractions := by simp [magnitude, infinity]
  have hmagnitude := magnitude_le h
  rw [← hinfinity] at hmagnitude
  rcases hmagnitude.lt_or_eq with hlt | heq
  · have hgap := gap_pos w
    have habove := value_add_gap_le hlt
    linarith
  · exact (value_eq_of_magnitude_eq heq).le

theorem value_infinity (negative : Bool) : (infinity negative).value = 2 ^ 1024 := by
  have hm : (infinity negative).mantissa = 2 ^ 52 := by norm_num [mantissa, infinity, fractions]
  have he : (infinity negative).exponent = (972 : ℕ) := by norm_num [exponent, infinity]
  rw [value, hm, he, zpow_natCast, Nat.cast_pow, Nat.cast_ofNat, ← pow_add]

/-- Numbers beyond the greatest double round to infinity. -/
theorem rounds_infinity {q : ℚ} {negative : Bool} (hq : (infinity negative).value ≤ q) :
    Rounds q (infinity negative) := by
  intro w hw
  have hle := value_le_infinity hw negative
  have hdist : |q - (infinity negative).value| = q - (infinity negative).value :=
    abs_of_nonneg (by linarith)
  have hdist' : |q - w.value| = q - w.value := abs_of_nonneg (by linarith)
  rw [hdist, hdist']
  constructor
  · linarith
  · intro hne heq
    exact absurd (by linarith) hne

theorem isSpelled_infinityText (negative : Bool) :
    (infinity negative).IsSpelled Stream.infinityText.toList := by
  have htext : Stream.infinityText.toList =
      (pointed ['2'] [] (some (exponentOf 308))).text := rfl
  have hlarge : 2 ^ 1024 ≤ 2 * 10 ^ 308 := by decide +kernel
  refine ⟨2 * 10 ^ 308, rounds_infinity ?_, ?_⟩
  · rw [value_infinity]
    exact_mod_cast hlarge
  · rw [htext]
    refine spells_pointed rfl rfl (.inl (List.cons_ne_nil _ _)) (fun _ => rfl)
      (by simpa using exponentOf_valid 308) ?_
    rw [exponent_pointed]
    show ((2 : ℕ) : ℚ) * 10 ^ (((308 : ℕ) : ℤ) - ((0 : ℕ) : ℤ)) = 2 * 10 ^ 308
    rw [Nat.cast_zero, sub_zero, zpow_natCast, Nat.cast_ofNat]

/-- The text of a number that is not negative rounds to it when it is read. -/
theorem isSpelled_numberText (style : Style) (hnan : v.isNaN = false)
    (hsign : v.negative = false ∨ v.isZero) : v.IsSpelled (Stream.numberText style v).toList := by
  unfold Stream.numberText
  split
  · next hfin =>
    rw [literal, String.toList_ofList]
    exact isSpelled_literalChars hfin hsign style.hex
  · next hfin =>
    have hv : v = infinity v.negative := by
      obtain ⟨negative, biased, fraction⟩ := v
      have hbiased : biased = 2047 := Fin.ext (by simpa [isFinite] using hfin)
      have hfraction : fraction = 0 := Fin.ext (by simpa [isNaN, hbiased] using hnan)
      rw [hbiased, hfraction]
      rfl
    rw [hv]
    exact isSpelled_infinityText _

end Double

end EcmaPrinter.Number
