import EcmaPrinter.Proofs.Lexical.Lexer
import Mathlib.Data.List.TakeDrop

/-!
Decimal numerals and how they are read.

A numeral is digits, a point with further digits, and an exponent, most of which may be missing.
The reader takes all of it off a text if what follows cannot belong to it: no digit or letter,
and no point unless the numeral has a point or an exponent of its own (`Numeral.scan_text`).
-/

namespace EcmaPrinter.Lexical

open EcmaPrinter
open EcmaPrinter.Number
open EcmaPrinter.Text

/-! ### Digits -/

/-- The text does not go on with a digit. -/
def endsDigits (cs : List Char) : Bool :=
  !cs.head?.any Char.isDigit

theorem spanDigits_append {digits rest : List Char} (h : digits.all Char.isDigit)
    (hrest : endsDigits rest) : spanDigits (digits ++ rest) = (digits, rest) := by
  unfold spanDigits
  rw [List.span_eq_takeWhile_dropWhile]
  have hall : ∀ c ∈ digits, c.isDigit := List.all_eq_true.mp h
  rw [List.takeWhile_append_of_pos hall, List.dropWhile_append_of_pos hall]
  cases rest with
  | nil => simp
  | cons c rest =>
    have hc : c.isDigit = false := by simpa [endsDigits] using hrest
    simp [hc]

/-- What holds of the first 128 characters, checked one by one. -/
theorem forall_ascii {P : Char → Prop} (h : ∀ n < 128, P (Char.ofNat n)) {c : Char}
    (hc : isAscii c) : P c := by
  have hlt : c.toNat < 128 := by simpa [isAscii] using hc
  simpa using h c.toNat hlt

theorem isAscii_of_isDigit {c : Char} (h : c.isDigit) : isAscii c := by
  have : c.val.toNat ≤ 57 := by
    simp only [Char.isDigit, Bool.and_eq_true, decide_eq_true_eq] at h
    exact h.2
  have hlt : c.toNat < 128 := by
    show c.val.toNat < 128
    omega
  simpa [isAscii] using hlt

/-- No name starts with a digit, but digits may follow in one. -/
theorem isIdentifierStart_of_isDigit {c : Char} (h : c.isDigit) :
    isIdentifierStart c = false ∧ isIdentifierPart c := by
  exact forall_ascii (P := fun c => c.isDigit → isIdentifierStart c = false ∧ isIdentifierPart c)
    (by decide) (isAscii_of_isDigit h) h

/-- Digits have no sign in front. -/
theorem readSign_digits {digits : List Char} (hne : digits ≠ []) (h : digits.all Char.isDigit)
    (rest : List Char) : readSign (digits ++ rest) = (false, digits ++ rest) := by
  cases digits with
  | nil => exact absurd rfl hne
  | cons c digits =>
    have hc : c.isDigit := by
      simp only [List.all_cons, Bool.and_eq_true] at h
      exact h.1
    rw [List.cons_append]
    unfold readSign
    split
    · next heq =>
      cases heq
      cases hc
    · next heq =>
      cases heq
      cases hc
    · rfl

/-! ### Numerals -/

/-- A decimal numeral in its parts.  The flag of the exponent tells that it is negative. -/
structure Numeral where
  whole : List Char
  part? : Option (List Char) := none
  exponent? : Option (Bool × List Char) := none

namespace Numeral

/-- The point with its digits. -/
def partText (n : Numeral) : List Char :=
  match n.part? with
  | some part => '.' :: part
  | none => []

/-- The exponent. -/
def exponentText (n : Numeral) : List Char :=
  match n.exponent? with
  | some (true, digits) => 'e' :: '-' :: digits
  | some (false, digits) => 'e' :: digits
  | none => []

/-- The numeral as text. -/
def text (n : Numeral) : List Char :=
  n.whole ++ (n.partText ++ n.exponentText)

/-- The digits behind the point. -/
def part (n : Numeral) : List Char :=
  n.part?.getD []

/-- The value of the exponent. -/
def exponent (n : Numeral) : Int :=
  match n.exponent? with
  | some (true, digits) => -(digitsValue digits : Int)
  | some (false, digits) => digitsValue digits
  | none => 0

/-- The value. -/
def value (n : Numeral) : Rat :=
  digitsValue (n.whole ++ n.part) * tenPow (n.exponent - n.part.length)

/-- The numeral is made of digits, some before the exponent, and without a zero in front. -/
structure Valid (n : Numeral) : Prop where
  whole : n.whole.all Char.isDigit
  part : n.part.all Char.isDigit
  nonempty : n.whole ≠ [] ∨ n.part ≠ []
  zero : n.whole.head? = some '0' → n.whole.length = 1
  exponent : ∀ e ∈ n.exponent?, e.2 ≠ [] ∧ e.2.all Char.isDigit

/-- The text behind the numeral does not belong to it. -/
structure Ends (n : Numeral) (rest : List Char) : Prop where
  spoils : rest.head?.any spoilsNumber = false
  point : n.part? = none → n.exponent? = none → rest.head? ≠ some '.'

variable {n : Numeral} {rest : List Char}

theorem Ends.endsDigits (h : n.Ends rest) : endsDigits rest := by
  have hs := h.spoils
  unfold Lexical.endsDigits
  cases rest with
  | nil => rfl
  | cons c rest =>
    simp [spoilsNumber] at hs ⊢
    exact hs.1.2

/-- The letter of an exponent would spoil the numeral. -/
theorem Ends.noExponent (h : n.Ends rest) :
    ∀ c ∈ rest.head?, (c == 'e' || c == 'E') = false := by
  intro c hc
  by_contra htrue
  have hspoils : spoilsNumber c := by
    simp only [Bool.not_eq_false, Bool.or_eq_true, beq_iff_eq] at htrue
    rcases htrue with rfl | rfl <;> decide
  have hs := h.spoils
  rw [Option.mem_def.mp hc] at hs
  simp [hspoils] at hs

theorem scanExponent_text (hn : n.Valid) (hrest : n.Ends rest) :
    scanExponent (n.exponentText ++ rest) = some (n.exponent, rest) := by
  unfold exponentText exponent
  rcases he : n.exponent? with - | ⟨negative, digits⟩
  · cases rest with
    | nil => rfl
    | cons c rest =>
      have hc := hrest.noExponent c rfl
      simp only [List.nil_append, scanExponent, hc]
      rfl
  · obtain ⟨hne, hdigits⟩ := hn.exponent _ he
    have hspan := spanDigits_append hdigits hrest.endsDigits
    cases negative with
    | true => simp [scanExponent, readSign, hspan, hne]
    | false => simp [scanExponent, readSign_digits hne hdigits, hspan, hne]

theorem endsDigits_exponentText (hrest : n.Ends rest) :
    Lexical.endsDigits (n.exponentText ++ rest) := by
  unfold exponentText
  rcases n.exponent? with - | ⟨_ | _, digits⟩
  · exact hrest.endsDigits
  · rfl
  · rfl

theorem endsDigits_partText (hrest : n.Ends rest) :
    Lexical.endsDigits (n.partText ++ (n.exponentText ++ rest)) := by
  unfold partText
  rcases n.part? with - | part
  · exact endsDigits_exponentText hrest
  · rfl

/-- A numeral without a point is not followed by one. -/
theorem head?_exponentText_ne (hrest : n.Ends rest) (hp : n.part? = none) :
    (n.exponentText ++ rest).head? ≠ some '.' := by
  unfold exponentText
  rcases he : n.exponent? with - | ⟨_ | _, digits⟩
  · exact hrest.point hp he
  · simp
  · simp

theorem scanPart_text (hn : n.Valid) (hrest : n.Ends rest) :
    scanPart (n.partText ++ (n.exponentText ++ rest)) = (n.part, n.exponentText ++ rest) := by
  have hpart := hn.part
  unfold partText part at *
  rcases hp : n.part? with - | part
  · have hhead := head?_exponentText_ne hrest hp
    unfold scanPart
    split
    · next heq => exact absurd (congrArg List.head? heq) hhead
    · rfl
  · rw [hp] at hpart
    exact spanDigits_append hpart (endsDigits_exponentText hrest)

/-- The whole numeral is taken off as a decimal. -/
theorem scanDecimal_text (hn : n.Valid) (hrest : n.Ends rest) :
    scanDecimal (n.text ++ rest) = some (n.value, rest) := by
  have hguard : ((n.whole.isEmpty && n.part.isEmpty) ||
      (n.whole.head? == some '0' && n.whole.length != 1)) = false := by
    have hz := hn.zero
    rcases hn.nonempty with h | h <;> grind
  unfold scanDecimal text
  rw [List.append_assoc, List.append_assoc,
    spanDigits_append hn.whole (endsDigits_partText hrest)]
  simp only [scanPart_text hn hrest, scanExponent_text hn hrest, hguard]
  rfl

/-- What stands behind a leading zero. -/
theorem head?_afterZero {c : Char} (hrest : n.Ends rest)
    (h : (n.partText ++ (n.exponentText ++ rest)).head? = some c) :
    c = '.' ∨ c = 'e' ∨ spoilsNumber c = false := by
  obtain ⟨whole, part?, exponent?⟩ := n
  rcases part? with - | part
  · rcases exponent? with - | ⟨_ | _, digits⟩
    · have hs := hrest.spoils
      rw [show rest.head? = some c from h] at hs
      exact .inr (.inr (by simpa using hs))
    · exact .inr (.inl (Option.some.inj h).symm)
    · exact .inr (.inl (Option.some.inj h).symm)
  · exact .inl (Option.some.inj h).symm

/-- The letter of a base does not stand behind a leading zero. -/
theorem not_isBase_afterZero {c : Char} {cs : List Char} (hn : n.Valid) (hrest : n.Ends rest)
    (h : n.text ++ rest = '0' :: c :: cs) : c ∉ ['x', 'X', 'o', 'O', 'b', 'B'] := by
  have hc : c = '.' ∨ c = 'e' ∨ spoilsNumber c = false := by
    refine head?_afterZero hrest ?_
    unfold text at h
    rw [List.append_assoc, List.append_assoc] at h
    cases hw : n.whole with
    | nil =>
      -- the text would start with the point
      obtain ⟨whole, - | part, exponent?⟩ := n
      · exact absurd hn.nonempty (by simp_all [part])
      · rw [hw] at h
        cases h
    | cons d whole =>
      rw [hw, List.cons_append] at h
      obtain ⟨rfl, htail⟩ := List.cons.inj h
      have hlen := hn.zero (by rw [hw]; rfl)
      have : whole = [] := by simpa [hw] using hlen
      rw [this, List.nil_append] at htail
      rw [htail]
      rfl
  intro hmem
  rcases hc with rfl | rfl | hc
  · simp at hmem
  · simp at hmem
  · simp only [List.mem_cons, List.not_mem_nil, or_false] at hmem
    rcases hmem with rfl | rfl | rfl | rfl | rfl | rfl <;> cases hc

theorem scanUnsigned_text (hn : n.Valid) (hrest : n.Ends rest) :
    scanUnsigned (n.text ++ rest) = scanDecimal (n.text ++ rest) := by
  have hbase : ∀ c cs, n.text ++ rest = '0' :: c :: cs → c ∉ ['x', 'X', 'o', 'O', 'b', 'B'] :=
    fun c cs => not_isBase_afterZero hn hrest
  generalize n.text ++ rest = text at hbase ⊢
  unfold scanUnsigned
  split
  case h_7 => rfl
  all_goals exact absurd (by decide) (hbase _ _ rfl)

/-- A numeral is read, up to what does not belong to it. -/
theorem scanNumber_text (hn : n.Valid) (hrest : n.Ends rest) :
    scanNumber (n.text ++ rest) = some (n.value, rest) := by
  unfold scanNumber
  rw [scanUnsigned_text hn hrest, scanDecimal_text hn hrest]
  simp [Option.filter, hrest.spoils]

end Numeral

/-! ### Spellings of numbers -/

/-- The text spells a number: a numeral that does not end in a point, or hexadecimal digits. -/
inductive Spells (q : Rat) : List Char → Prop
  | decimal {n : Numeral} (hn : n.Valid) (hpart : n.part? ≠ some []) (hq : n.value = q) :
      Spells q n.text
  | hexadecimal {digits : List Char} (hne : digits ≠ [])
      (hdigits : ∀ c ∈ digits, (digitValue? 16 c).isSome) (hq : (baseValue 16 digits : Rat) = q) :
      Spells q ('0' :: 'x' :: digits)

theorem isAscii_of_digitValue? {c : Char} (h : (digitValue? 16 c).isSome) : isAscii c := by
  by_contra hc
  have hc : 128 ≤ c.toNat := by simpa [isAscii] using hc
  have hgt : ∀ d : Char, d.toNat < 128 → ¬ c ≤ d := by
    intro d hd hle
    have : c.toNat ≤ d.toNat := hle
    omega
  have hnone : hexValue? c = none := by simp [hexValue?, hgt]
  simp [digitValue?, hnone] at h

/-- A hexadecimal digit may be part of a name, and no number may stand before it. -/
theorem isIdentifierPart_of_digitValue? {c : Char} (h : (digitValue? 16 c).isSome) :
    isIdentifierPart c ∧ spoilsNumber c :=
  forall_ascii (P := fun c => (digitValue? 16 c).isSome → isIdentifierPart c ∧ spoilsNumber c)
    (by decide) (isAscii_of_digitValue? h) h

theorem startsNumber_of_isDigit {c : Char} (h : c.isDigit) (cs : List Char) :
    startsNumber (c :: cs) := by
  have hc : c ≠ '.' := by
    rintro rfl
    cases h
  unfold startsNumber
  split
  · next heq => exact absurd (List.cons.inj heq).1 hc
  · next heq =>
    obtain ⟨rfl, -⟩ := List.cons.inj heq
    exact h
  · next heq => cases heq

theorem Numeral.text_of_digits {n : Numeral} (h : n.text.all Char.isDigit) :
    n.part? = none ∧ n.exponent? = none := by
  obtain ⟨whole, - | part, - | ⟨_ | _, digits⟩⟩ := n
  · exact ⟨rfl, rfl⟩
  all_goals simp [text, partText, exponentText] at h

namespace Spells

variable {q : Rat} {cs rest : List Char}

/-- A number is read, up to what does not belong to it. -/
theorem scanNumber_append (h : Spells q cs) (hrest : rest.head?.any spoilsNumber = false)
    (hpoint : cs.all Char.isDigit → rest.head? ≠ some '.') :
    scanNumber (cs ++ rest) = some (q, rest) := by
  cases h with
  | @decimal n hn hpart hq =>
    rw [← hq]
    refine Numeral.scanNumber_text hn ⟨hrest, fun hp he => hpoint ?_⟩
    simpa [Numeral.text, Numeral.partText, Numeral.exponentText, hp, he] using hn.whole
  | @hexadecimal digits hne hdigits hq =>
    have htake : (digits ++ rest).takeWhile (fun c => (digitValue? 16 c).isSome) = digits := by
      rw [List.takeWhile_append_of_pos hdigits]
      cases rest with
      | nil => simp
      | cons c rest =>
        have hc : (digitValue? 16 c).isSome = false := by
          by_contra hsome
          have := (isIdentifierPart_of_digitValue? (Bool.not_eq_false _ ▸ hsome)).2
          simp [this] at hrest
        simp [hc]
    have hscan : scanBased 16 (digits ++ rest) = some (q, rest) := by
      simp [scanBased, htake, hne, hq]
    simp only [List.cons_append, scanNumber, scanUnsigned, hscan]
    simp [Option.filter, hrest]

/-- Behind digits alone a point belongs to the number. -/
theorem scanNumber_point (h : Spells q cs) (hdigits : cs.all Char.isDigit)
    (hrest : rest.head?.any spoilsNumber = false) :
    scanNumber (cs ++ '.' :: rest) = some (q, rest) := by
  cases h with
  | @decimal n hn hpart hq =>
    obtain ⟨hp, he⟩ := Numeral.text_of_digits hdigits
    -- the same numeral with a point and no digits behind it
    let m : Numeral := { n with part? := some [] }
    have hm : m.Valid := by
      refine ⟨hn.whole, rfl, ?_, hn.zero, hn.exponent⟩
      rcases hn.nonempty with h | h
      · exact .inl h
      · exact absurd (by rw [Numeral.part, hp]; rfl) h
    have htext : n.text ++ '.' :: rest = m.text ++ rest := by
      simp [m, Numeral.text, Numeral.partText, Numeral.exponentText, hp, he]
    have hvalue : m.value = q := by
      rw [← hq]
      simp [m, Numeral.value, Numeral.part, Numeral.exponent, hp, he]
    rw [htext, ← hvalue]
    exact Numeral.scanNumber_text hm ⟨hrest, nofun⟩
  | hexadecimal => simp at hdigits

theorem startsNumber_append (h : Spells q cs) : startsNumber (cs ++ rest) := by
  cases h with
  | @decimal n hn hpart hq =>
    obtain ⟨_ | ⟨d, whole⟩, part?, exponent?⟩ := n
    · rcases part? with - | _ | ⟨d, part⟩
      · exact absurd hn.nonempty (by simp [Numeral.part])
      · exact absurd rfl hpart
      · have hd := hn.part
        simp only [Numeral.part, Option.getD_some, List.all_cons, Bool.and_eq_true] at hd
        exact hd.1
    · have hd := hn.whole
      simp only [List.all_cons, Bool.and_eq_true] at hd
      exact startsNumber_of_isDigit hd.1 _
  | hexadecimal => rfl

/-- A number ends in a character that may be part of a name. -/
theorem isIdentifierPart_getLast (h : Spells q cs) : ∀ c ∈ cs.getLast?, isIdentifierPart c := by
  have hlast : ∀ (xs : List Char) {ys : List Char}, ys ≠ [] → (∀ c ∈ ys, isIdentifierPart c) →
      ∀ c ∈ (xs ++ ys).getLast?, isIdentifierPart c := by
    intro xs ys hne hys c hc
    rw [List.getLast?_append, List.getLast?_eq_some_getLast hne] at hc
    obtain rfl := Option.some.inj hc
    exact hys _ (List.getLast_mem hne)
  have hdigit : ∀ {ys : List Char}, ys.all Char.isDigit → ∀ c ∈ ys, isIdentifierPart c :=
    fun hys c hc => (isIdentifierStart_of_isDigit (List.all_eq_true.mp hys c hc)).2
  cases h with
  | @decimal n hn hpart hq =>
    obtain ⟨whole, part?, - | ⟨negative, digits⟩⟩ := n
    · rcases part? with - | _ | ⟨d, part⟩
      · have hne : whole ≠ [] := by simpa [Numeral.part] using hn.nonempty
        simpa [Numeral.text, Numeral.partText, Numeral.exponentText] using
          hlast [] hne (hdigit hn.whole)
      · exact absurd rfl hpart
      · simpa [Numeral.text, Numeral.partText, Numeral.exponentText] using
          hlast (whole ++ ['.']) (List.cons_ne_nil d part) (hdigit hn.part)
    · obtain ⟨hne, hdigits⟩ := hn.exponent _ rfl
      cases negative with
      | true =>
        simpa [Numeral.text, Numeral.exponentText] using
          hlast (whole ++ Numeral.partText ⟨whole, part?, none⟩ ++ ['e', '-']) hne
            (hdigit hdigits)
      | false =>
        simpa [Numeral.text, Numeral.exponentText] using
          hlast (whole ++ Numeral.partText ⟨whole, part?, none⟩ ++ ['e']) hne (hdigit hdigits)
  | @hexadecimal digits hne hdigits hq =>
    exact hlast ['0', 'x'] hne fun c hc => (isIdentifierPart_of_digitValue? (hdigits c hc)).1

end Spells

end EcmaPrinter.Lexical
