import EcmaPrinter.Generate.Code
import EcmaPrinter.Proofs.Lexical.Sound
import EcmaPrinter.Proofs.Number.Standard
import EcmaPrinter.Proofs.Stream.Standing
import EcmaPrinter.Proofs.Text.Quotation

/-!
The keys of literal property names.

A property name is a token: an identifier name stands for itself, a string literal for the text it
denotes, and a number for the standard text of the double that it rounds to (`HasKey`).  A literal
name is written as a number only if this number has the name as its canonical text, so it keeps its
key if and only if this is a standard text (`hasKey_literal_iff`).  Names with spare digits lose
theirs.  They are decimal integers from `2 ^ 54` up to `2 ^ 63`.
-/

namespace EcmaPrinter.Lexical

open EcmaPrinter.Number
open EcmaPrinter.Text
open Double

/-! ### Keys of tokens -/

/-- A token stands for the property key where it is a property name. -/
inductive IsKey (key : String) : Value → Prop
  | name : IsKey key (.name key.toList)
  | text : IsKey key (.text (textUnits key.toList))
  | number {q : ℚ} {v : Double} (hnan : v.isNaN = false) (hrounds : Rounds q v)
      (htext : IsStandardText v key.toList) : IsKey key (.number q)

/-- The text is one token, and it stands for the property key. -/
def HasKey (text key : String) : Prop :=
  ∃ value, readValue .div text.toList = some (value, []) ∧ IsKey key value

variable {key : String} {v : Double}

theorem readValue_of_spelling {kind : Kind} {cs : List Char} {value : Value}
    (h : Spelling kind cs value) (hgoal : kind.goal ≠ .template) :
    readValue kind.goal cs = some (value, []) := by
  have hstops : Stops kind cs [] := by
    refine ⟨nofun, fun _ _ => rfl, ?_⟩
    rintro rfl
    exact absurd rfl hgoal
  have hread : readValue kind.goal (cs ++ []) = some (value, []) := readValue_append h hgoal hstops
  rwa [List.append_nil] at hread

theorem hasKey_name (h : isIdentifierName key) : HasKey key key := by
  have hname : isName key.toList := by rwa [isIdentifierName_eq] at h
  exact ⟨_, readValue_of_spelling (.word (scanName_of_isName hname)) (by decide), .name⟩

theorem hasKey_quote (key : String) : HasKey (quote key) key := by
  have hread := readValue_quoteWith (isQuote_cheaperQuote key.toList) key []
  rw [List.append_nil] at hread
  exact ⟨_, hread, .text⟩

/-- The literal of a number has the standard texts of the number as keys, and no others. -/
theorem hasKey_literal_iff (hfin : v.isFinite) (hsign : v.negative = false ∨ v.isZero)
    (hex : Bool) : HasKey (v.literal hex) key ↔ IsStandardText v key.toList := by
  obtain ⟨q, hrounds, hspells⟩ := isSpelled_literalChars hfin hsign hex
  have hnan := isNaN_of_isFinite hfin
  have hread : readValue .div (v.literal hex).toList = some (.number q, []) := by
    rw [literal, String.toList_ofList]
    exact readValue_of_spelling (.number hspells) (by decide)
  constructor
  · rintro ⟨value, hvalue, hkey⟩
    obtain rfl : Value.number q = value := by simpa [hread] using hvalue
    cases hkey with
    | number hnan' hrounds' htext =>
      -- what is read rounds to no other number
      exact htext.of_magnitude_eq (hrounds'.magnitude_eq hrounds hnan' hnan)
  · intro htext
    exact ⟨_, hread, .number hnan hrounds htext⟩

end EcmaPrinter.Lexical

namespace EcmaPrinter

open EcmaPrinter.Generate
open EcmaPrinter.Lexical
open EcmaPrinter.Number
open EcmaPrinter.Text
open Double

/-! ### Tokens on their own -/

variable {key : String} {v : Double}

/-- The first token of a stream has nothing before it. -/
theorem text_put_start (style : Style) (text : String) :
    (Stream.put { style := style } text).text = text.toList.reverse := by
  rw [Stream.put]
  rcases hcs : text.toList with - | ⟨c, cs⟩
  · rfl
  · obtain ⟨last, hlast⟩ : ∃ last, (c :: cs).getLast? = some last :=
      ⟨_, List.getLast?_eq_some_getLast (List.cons_ne_nil c cs)⟩
    rw [Stream.putChars_eq_leadIn _ hlast, Stream.leadIn_of_not_pending rfl,
      leadChars_eq_space (.inl rfl), needsSpace_start rfl rfl]
    simp

theorem render_token (style : Style) (text : String) :
    (Fragment.token text).render style = text := by
  show String.ofList (Stream.put { style := style } text).text.reverse = text
  rw [text_put_start, List.reverse_reverse, String.ofList_toList]

theorem render_number (style : Style) (hfin : v.isFinite) :
    (Fragment.number v).render style = v.literal style.hex := by
  show String.ofList (Stream.putNumber { style := style } v).text.reverse = _
  rw [Stream.putNumber, isNaN_of_isFinite hfin, Stream.numberText, if_pos hfin]
  show String.ofList (Stream.put { style := style } _).text.reverse = _
  rw [text_put_start, List.reverse_reverse, String.ofList_toList]

/-! ### Keys of names -/

/-- The text of a literal property name. -/
def nameText (style : Style) (key : String) : String :=
  Fragment.render style (Tree.code id (.staticName key))

/-- The name is the text of a number that has spare digits. -/
def losesKey (key : String) : Bool :=
  (numberNamed? key).any hasSpareDigits

theorem numberNamed?_spec (h : numberNamed? key = some v) :
    v.isFinite ∧ (v.negative = false ∨ v.isZero) ∧ v.canonical = key := by
  obtain ⟨-, hv⟩ := Option.filter_eq_some_iff.mp h
  simpa [and_assoc] using hv

theorem exists_number_of_losesKey (h : losesKey key) :
    ∃ v, numberNamed? key = some v ∧ v.hasSpareDigits := by
  simpa [losesKey, Option.any_eq_true] using h

/-- Only decimal integers from `2 ^ 54` up to `2 ^ 63` lose their keys. -/
theorem exists_decimalDigits_of_losesKey (h : losesKey key) :
    ∃ n, key.toList = decimalDigits n ∧ 2 ^ 54 ≤ n ∧ n < 2 ^ 63 := by
  obtain ⟨v, hv, hspare⟩ := exists_number_of_losesKey h
  obtain ⟨hfin, hsign, rfl⟩ := numberNamed?_spec hv
  obtain ⟨n, hn, hle, hlt⟩ := hasSpareDigits_bounds hfin hspare
  have hzero : v.isZero = false := isZero_of_toNat? hn (by omega)
  have hsign : v.negative = false := hsign.resolve_right (by simp [hzero])
  refine ⟨n, ?_, hle, hlt⟩
  rw [canonical, String.toList_ofList, canonicalChars_eq hfin hsign hzero, canonicalPositive, hn]
  simp [hlt]

theorem not_isIdentifierName_of_losesKey (h : losesKey key) : isIdentifierName key = false := by
  obtain ⟨n, hkey, -, -⟩ := exists_decimalDigits_of_losesKey h
  obtain ⟨c, cs, hcons⟩ := List.exists_cons_of_ne_nil (decimalDigits_ne_nil n)
  have hdigit : c.isDigit := List.all_eq_true.mp (all_isDigit_decimalDigits n) c (by simp [hcons])
  simp [isIdentifierName, hkey, hcons, (isIdentifierStart_of_isDigit hdigit).1]

/-- A name that is written as a number keeps its key if the canonical text is a standard text. -/
theorem hasKey_number_iff (style : Style) (hname : isIdentifierName key = false)
    (hv : numberNamed? key = some v) :
    HasKey (nameText style key) key ↔ v.hasSpareDigits = false := by
  obtain ⟨hfin, hsign, hcanonical⟩ := numberNamed?_spec hv
  have hchars : key.toList = v.canonicalChars := by
    rw [← hcanonical, canonical, String.toList_ofList]
  have hcode : Tree.code id (.staticName key) = Fragment.number v := by
    show staticName id key = _
    simp [staticName, hname, hv]
  rw [nameText, hcode, render_number style hfin, hasKey_literal_iff hfin hsign, hchars,
    isStandardText_canonicalChars_iff hfin hsign]

theorem not_hasKey_of_losesKey (style : Style) (h : losesKey key) :
    ¬ HasKey (nameText style key) key := by
  obtain ⟨v, hv, hspare⟩ := exists_number_of_losesKey h
  rw [hasKey_number_iff style (not_isIdentifierName_of_losesKey h) hv, hspare]
  decide

/-- All names but those with spare digits keep their keys. -/
theorem hasKey_of_losesKey_eq_false (style : Style) (h : losesKey key = false) :
    HasKey (nameText style key) key := by
  rcases hname : isIdentifierName key with - | -
  · rcases hv : numberNamed? key with - | v
    · have hcode : Tree.code id (.staticName key) = Fragment.token (quote key) := by
        show staticName id key = _
        simp [staticName, stringLiteral, hname, hv]
      rw [nameText, hcode, render_token]
      exact hasKey_quote key
    · rw [hasKey_number_iff style hname hv]
      simpa [losesKey, hv] using h
  · have hcode : Tree.code id (.staticName key) = Fragment.token key := by
      show staticName id key = _
      simp [staticName, hname]
    rw [nameText, hcode, render_token]
    exact hasKey_name hname

/-- A literal name is written as one token that stands for the name as a property key, unless the
name is the text of a number with spare digits.  Only integers from `2 ^ 54` up to `2 ^ 63` have
such texts. -/
theorem staticName_keeps_key_iff (style : Style) (key : String) :
    (HasKey (nameText style key) key ↔ losesKey key = false) ∧
    (losesKey key → ∃ n, key.toList = decimalDigits n ∧ 2 ^ 54 ≤ n ∧ n < 2 ^ 63) := by
  refine ⟨⟨fun hkey => ?_, hasKey_of_losesKey_eq_false style⟩, exists_decimalDigits_of_losesKey⟩
  by_contra hloses
  exact not_hasKey_of_losesKey style (by simpa using hloses) hkey

/-- The text of `2 ^ 54` is kept, in hexadecimal, but not that of the second double after it. -/
theorem staticName_keeps_key_iff_bound :
    nameText {} "18014398509481984" = "0x40000000000000" ∧
    HasKey "0x40000000000000" "18014398509481984" ∧
    losesKey "18014398509481992" ∧
    ∃ n, "18014398509481992".toList = decimalDigits n ∧ 2 ^ 54 ≤ n ∧ n < 2 ^ 63 := by
  have htext : nameText {} "18014398509481984" = "0x40000000000000" := by decide
  have hloses : losesKey "18014398509481992" := by decide
  have hkey := (staticName_keeps_key_iff {} "18014398509481984").1.mpr (by decide)
  rw [htext] at hkey
  exact ⟨htext, hkey, hloses, (staticName_keeps_key_iff {} "18014398509481992").2 hloses⟩

/-- The name `144115188075855872`, which is `2 ^ 57`, stands for another key when it is read: the
standard text of this number ends in a zero. -/
theorem not_hasKey_two_pow_57 :
    nameText {} "144115188075855872" = "0x200000000000000" ∧
    HasKey "0x200000000000000" "144115188075855870" ∧
    ¬ HasKey "0x200000000000000" "144115188075855872" := by
  have htext : nameText {} "144115188075855872" = "0x200000000000000" := by decide
  have hlost : ¬ HasKey (nameText {} "144115188075855872") "144115188075855872" :=
    not_hasKey_of_losesKey {} (by decide)
  rw [htext] at hlost
  refine ⟨htext, ?_, hlost⟩
  let v := Double.ofBits 0x4380000000000000
  have hliteral : v.literal true = "0x200000000000000" := by decide
  have hshortest : v.shortest.canonical = "144115188075855870".toList := by decide
  rw [← hliteral, hasKey_literal_iff (by decide) (.inl rfl), ← hshortest]
  exact isStandardText_shortest (by decide) (by decide)

end EcmaPrinter
