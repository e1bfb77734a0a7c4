import EcmaPrinter.Proofs.Number.Literal

/-!
The characters of number texts.

Whatever its sign, a number is written with digits, the letters of exponents and of hexadecimal
numbers, points and signs.  A literal is never empty and never a point alone.
-/

namespace EcmaPrinter.Number

open EcmaPrinter.Lexical
open EcmaPrinter.Text

/-- The characters besides digits that number texts are made of. -/
def numericLetters : List Char :=
  ['A', 'B', 'C', 'D', 'E', 'F', 'a', 'b', 'c', 'd', 'e', 'f', 'x', '.', '+', '-']

/-- A character of a number text. -/
def isNumeric (c : Char) : Bool :=
  c.isDigit || numericLetters.contains c

/-- All characters are those of number texts. -/
def IsNumeric (cs : List Char) : Prop :=
  ∀ c ∈ cs, isNumeric c

namespace IsNumeric

variable {xs ys : List Char} {c : Char}

theorem nil : IsNumeric [] := nofun

theorem cons (hc : isNumeric c) (h : IsNumeric xs) : IsNumeric (c :: xs) :=
  List.forall_mem_cons.mpr ⟨hc, h⟩

theorem append (h : IsNumeric xs) (h' : IsNumeric ys) : IsNumeric (xs ++ ys) :=
  List.forall_mem_append.mpr ⟨h, h'⟩

theorem of_subset (hsub : xs ⊆ ys) (h : IsNumeric ys) : IsNumeric xs :=
  fun c hc => h c (hsub hc)

theorem of_digits (h : xs.all Char.isDigit) : IsNumeric xs := by
  intro c hc
  simp [isNumeric, List.all_eq_true.mp h c hc]

theorem decimalDigits (n : ℕ) : IsNumeric (decimalDigits n) :=
  of_digits (all_isDigit_decimalDigits n)

theorem zeros (k : ℕ) : IsNumeric (List.replicate k '0') := by
  intro c hc
  obtain rfl := (List.mem_replicate.mp hc).2
  rfl

theorem trimZeros (h : IsNumeric xs) : IsNumeric (trimZeros xs) := by
  refine of_subset (fun c hc => ?_) h
  rw [← trimZeros_append xs]
  exact List.mem_append_left _ hc

theorem hexDigits (n : ℕ) : IsNumeric (hexDigits n) := by
  intro c hc
  have hdigit := (baseValue_hexDigits n).2 c hc
  exact forall_ascii (P := fun c => (digitValue? 16 c).isSome → isNumeric c) (by decide)
    (isAscii_of_digitValue? hdigit) hdigit

theorem pointAfterFirst (h : IsNumeric xs) : IsNumeric (pointAfterFirst xs) := by
  cases xs with
  | nil => exact nil
  | cons c xs =>
    obtain ⟨hc, hxs⟩ := List.forall_mem_cons.mp h
    have htail := trimZeros hxs
    simp only [Number.pointAfterFirst]
    split
    · exact cons hc nil
    · exact cons hc (cons rfl htail)

theorem scientific (h : IsNumeric xs) (e : ℤ) : IsNumeric (scientific xs e) := by
  refine append (pointAfterFirst h) ?_
  cases e with
  | ofNat e => exact cons rfl (cons rfl (decimalDigits e))
  | negSucc e => exact cons rfl (cons rfl (decimalDigits _))

theorem withPoint (h : IsNumeric xs) (e : ℤ) : IsNumeric (withPoint xs e) := by
  cases e with
  | ofNat e =>
    have hpadded : IsNumeric (xs ++ List.replicate (e + 1 - xs.length) '0') := append h (zeros _)
    have htake := of_subset (List.take_subset (e + 1) _) hpadded
    have hdrop := trimZeros (of_subset (List.drop_subset (e + 1) _) hpadded)
    simp only [Number.withPoint]
    split
    · exact htake
    · exact append htake (cons rfl hdrop)
  | negSucc e => exact cons rfl (cons rfl (append (zeros e) (trimZeros h)))

theorem dropPlus (h : IsNumeric xs) : IsNumeric (Double.dropPlus xs) := by
  fun_induction Double.dropPlus xs with
  | case1 rest ih => exact cons rfl (ih (of_subset (by simp) h))
  | case2 c rest _ ih =>
    obtain ⟨hc, hrest⟩ := List.forall_mem_cons.mp h
    exact cons hc (ih hrest)
  | case3 => exact nil

theorem foldZeros (h : IsNumeric xs) : IsNumeric (Double.foldZeros xs) := by
  simp only [Double.foldZeros]
  split
  · exact append (of_subset (List.take_subset _ _) h) (cons rfl (decimalDigits _))
  · exact h

end IsNumeric

namespace Double

variable {v : Double}

theorem isNumeric_canonical (d : Decimal) : IsNumeric d.canonical := by
  unfold Decimal.canonical
  split
  · exact .scientific (.decimalDigits _) _
  · exact .withPoint (.decimalDigits _) _

theorem isNumeric_canonicalPositive (v : Double) : IsNumeric v.canonicalPositive := by
  unfold canonicalPositive
  split
  · split
    · exact .decimalDigits _
    · exact isNumeric_canonical _
  · exact isNumeric_canonical _

theorem isNumeric_canonicalChars (hfin : v.isFinite) : IsNumeric v.canonicalChars := by
  have hbiased : v.biased.val ≠ 2047 := by simpa [isFinite] using hfin
  have hnan : v.isNaN = false := by simp [isNaN, hbiased]
  have hinfinite : v.isInfinite = false := by simp [isInfinite, hbiased]
  simp only [canonicalChars, hnan, hinfinite, Bool.false_eq_true, if_false]
  have hbody := isNumeric_canonicalPositive v.abs
  split
  · exact .cons rfl .nil
  · split
    · exact .cons rfl hbody
    · exact hbody

theorem isNumeric_fractionLiteral {text : List Char} (h : IsNumeric text) :
    IsNumeric (fractionLiteral text) := by
  unfold fractionLiteral
  split
  · exact .cons rfl (.dropPlus (.of_subset (by simp) h))
  · exact .dropPlus h

theorem isNumeric_literalChars (hfin : v.isFinite) (hex : Bool) :
    IsNumeric (v.literalChars hex) := by
  have hcanonical := isNumeric_canonicalChars hfin
  unfold literalChars
  split
  · exact integerLiteral_cases (fun _ => .foldZeros hcanonical)
      (fun _ _ => .cons rfl (.cons rfl (.hexDigits _))) (.dropPlus hcanonical)
  · exact isNumeric_fractionLiteral hcanonical

/-- A negative literal starts with its sign. -/
theorem head?_literalChars (hfin : v.isFinite) (hneg : v.negative) (hzero : v.isZero = false)
    (hex : Bool) : (v.literalChars hex).head? = some '-' := by
  have hbiased : v.biased.val ≠ 2047 := by simpa [isFinite] using hfin
  have hnan : v.isNaN = false := by simp [isNaN, hbiased]
  obtain ⟨cs, hcs⟩ : ∃ cs, v.canonicalChars = '-' :: cs := by
    simp only [canonicalChars, hnan, hzero, hneg, Bool.false_eq_true, if_false, if_true]
    exact ⟨_, rfl⟩
  have hdrop : (dropPlus ('-' :: cs)).head? = some '-' := rfl
  unfold literalChars
  rw [hcs]
  split
  · simpa [integerLiteral, hneg] using hdrop
  · simpa [fractionLiteral] using hdrop

end Double

/-- The text of a number has only characters of numbers. -/
theorem isNumeric_numberText (style : Style) (v : Double) :
    IsNumeric (Stream.numberText style v).toList := by
  unfold Stream.numberText
  split
  · next hfin =>
    rw [Double.literal, String.toList_ofList]
    exact Double.isNumeric_literalChars hfin style.hex
  · exact List.all_eq_true.mp (by decide : Stream.infinityText.toList.all isNumeric)

/-- The text of a number is not empty, and not a point. -/
theorem numberText_ne (style : Style) {v : Double} (hnan : v.isNaN = false) :
    (Stream.numberText style v).toList ≠ [] ∧ (Stream.numberText style v).toList ≠ ['.'] := by
  by_cases hsign : v.negative = false ∨ v.isZero
  · obtain ⟨q, -, hspells⟩ := Double.isSpelled_numberText style hnan hsign
    have hstarts : Lexical.startsNumber ((Stream.numberText style v).toList ++ []) :=
      hspells.startsNumber_append
    have hlast := hspells.isIdentifierPart_getLast
    constructor
    · intro hnil
      rw [hnil] at hstarts
      cases hstarts
    · intro hpoint
      rw [hpoint] at hlast
      cases hlast '.' rfl
  · obtain ⟨hneg, hzero⟩ : v.negative = true ∧ v.isZero = false := by simpa using hsign
    unfold Stream.numberText
    split
    · next hfin =>
      have hhead := Double.head?_literalChars hfin hneg hzero style.hex
      rw [Double.literal, String.toList_ofList]
      constructor <;> intro heq <;> rw [heq] at hhead <;> cases hhead
    · decide

end EcmaPrinter.Number
