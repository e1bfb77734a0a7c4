import EcmaPrinter.Proofs.Render.Layout
import EcmaPrinter.Proofs.Text.Decoded
import EcmaPrinter.Proofs.Tree.Respelled

/-!
Tokens with safe texts.

Names, string literals and the texts of templates are respelled for the web.  Such a token keeps its
kind and its edge, and both spellings are read as the same value (`Escapable.exists_reads`).  Names
are the exception: an escape stands for one unit, and a character beyond the first plane has two.
-/

namespace EcmaPrinter

open EcmaPrinter.Lexical
open EcmaPrinter.Number
open EcmaPrinter.Text

/-! ### Names -/

/-- An escape in a name is read as its character. -/
theorem scanName_unitEscape {first : Bool} {c : Char} (hfits : fitsName first c)
    (hplane : c.toNat < 0x10000) (rest : List Char) :
    scanName (.part first) (unitEscape c.toNat ++ rest) =
      (scanName (.part false) rest).map fun r => (c :: r.1, r.2) := by
  have hdigit (n : Nat) := hexValue?_hexDigit (Nat.mod_lt n (by decide : 0 < 16))
  have hne (n : Nat) : hexDigit (n % 16) ≠ '{' := by
    intro heq
    have hsome := hdigit n
    rw [heq] at hsome
    cases hsome
  have hvalue : 16 * (16 * (16 * (c.toNat / 16 / 16 / 16 % 16) + c.toNat / 16 / 16 % 16) +
      c.toNat / 16 % 16) + c.toNat % 16 = c.toNat := by omega
  have hstep : escapedStep first c.toNat = some (.part false, [c]) := by
    have hvalid : c.toNat.isValidChar := c.valid
    simp [escapedStep, hvalid, hfits]
  simp [unitEscape, hexPlaces, scanName, nameStep, nameHexStep, hdigit, hne, hvalue, hstep,
    Function.comp_def]

theorem plainEscape_eq_unitEscape {c : Char} (hpart : isIdentifierPart c)
    (hplane : c.toNat < 0x10000) : plainEscape c = unitEscape c.toNat := by
  simp [plainEscape, (ne_of_isIdentifierPart hpart).2.2, utf16Units, hplane]

/-- The spelling of a character of a name is read as the character. -/
theorem scanName_plainSpelling {first : Bool} {c : Char} (hpart : isIdentifierPart c)
    (hfits : fitsName first c) (hplane : c.toNat < 0x10000) (rest : List Char) :
    scanName (.part first) (plainSpelling c ++ rest) =
      (scanName (.part false) rest).map fun r => (c :: r.1, r.2) := by
  have hback := (ne_of_isIdentifierPart hpart).1
  unfold plainSpelling
  split
  · simp [scanName, nameStep, hback, hfits]
  · rw [plainEscape_eq_unitEscape hpart hplane]
    exact scanName_unitEscape hfits hplane rest

/-- A name whose characters are all in the first plane is read from its spelling. -/
theorem scanName_webSafeChars {cs : List Char} (h : isName cs)
    (hplane : ∀ c ∈ cs, c.toNat < 0x10000) :
    scanName (.part true) (webSafeChars cs) = some (cs, []) := by
  have hparts := all_isIdentifierPart_of_isName h
  have htail : ∀ cs : List Char, (∀ c ∈ cs, isIdentifierPart c) → (∀ c ∈ cs, c.toNat < 0x10000) →
      scanName (.part false) (cs.flatMap plainSpelling) = some (cs, []) := by
    intro cs hparts hplane
    induction cs with
    | nil => rfl
    | cons c cs ih =>
      obtain ⟨hc, hcs⟩ := List.forall_mem_cons.mp hparts
      obtain ⟨hlt, hplane⟩ := List.forall_mem_cons.mp hplane
      have hfits : fitsName false c := hc
      rw [List.flatMap_cons, scanName_plainSpelling hc hfits hlt, ih hcs hplane]
      rfl
  rw [webSafeChars_name hparts]
  cases cs with
  | nil => cases h
  | cons c cs =>
    have hstart : fitsName true c := (Bool.and_eq_true_iff.mp h).1
    obtain ⟨hc, hcs⟩ := List.forall_mem_cons.mp hparts
    obtain ⟨hlt, hplane⟩ := List.forall_mem_cons.mp hplane
    rw [List.flatMap_cons, scanName_plainSpelling hc hstart hlt, htail cs hcs hplane]
    rfl

/-- The spelling of a name ends with a character of names. -/
theorem isIdentifierPart_getLast?_webSafeChars {cs : List Char} (h : isName cs)
    (hplane : ∀ c ∈ cs, c.toNat < 0x10000) :
    ∀ d ∈ (webSafeChars cs).getLast?, isIdentifierPart d := by
  have hparts := all_isIdentifierPart_of_isName h
  have hdigits : ∀ n < 16, isIdentifierPart (hexDigit n) := by decide
  rw [webSafeChars_name hparts]
  rcases List.eq_nil_or_concat' cs with rfl | ⟨init, c, rfl⟩
  · cases h
  · have hc : isIdentifierPart c := hparts c (by simp)
    have hlt : c.toNat < 0x10000 := hplane c (by simp)
    intro d hd
    rw [List.flatMap_append, List.flatMap_singleton] at hd
    unfold plainSpelling at hd
    split at hd
    · obtain rfl : c = d := by simpa using hd
      exact hc
    · rw [plainEscape_eq_unitEscape hc hlt, unitEscape, hexPlaces] at hd
      obtain rfl : hexDigit (c.toNat % 16) = d := by simpa [List.getLast?_cons] using hd
      exact hdigits _ (Nat.mod_lt _ (by decide))

/-! ### Tokens that can be spelled for the web -/

/-- Compact streams for the web have this style. -/
def webStyle : Style := { webSafe := true }

/-- A token that can be spelled with a safe text: a name, a string literal, the text of a template,
or any token whose text is safe already. -/
inductive Escapable : Piece → Prop
  | same {p : Piece} (hp : Sound {} p) (hsafe : p.safe = p) : Escapable p
  | name {name : String} (h : isIdentifierName name) : Escapable (.token name)
  | string {mark : Char} {body : List Char} (hmark : isQuote mark)
      (h : (cooked? (.string mark) body).isSome) :
      Escapable (.token (String.ofList (mark :: (body ++ [mark]))))
  | text {raw : String} (h : (cooked? .template raw.toList).isSome) (hne : raw ≠ "") :
      Escapable (.raw raw)

/-- Does the name of a token, if it has one, have all of its characters in the first plane? -/
def Piece.isInPlane (p : Piece) : Bool :=
  kindOf p != .word || (charsOf {} p).all (·.toNat < 0x10000)

/-- Both styles write the same numbers. -/
theorem charsOf_webStyle (p : Piece) : charsOf webStyle p = charsOf {} p := by
  cases p <;> rfl

theorem reads_webStyle {p : Piece} {v : Value} (h : Reads {} p v) : Reads webStyle p v :=
  ⟨h.solid, h.number, charsOf_webStyle p ▸ h.spelling⟩

/-- Names may have escapes for the web, but need not. -/
theorem sound_webStyle {p : Piece} (h : Sound {} p) : Sound webStyle p := by
  obtain ⟨v, hreads, hstands⟩ := h.reads
  refine ⟨⟨v, reads_webStyle hreads, hstands⟩, ?_, ?_, by simp [webStyle]⟩
  all_goals rw [charsOf_webStyle]
  · exact h.word
  · exact h.brace

theorem isSome_cooked?_webSafeChars {l : Literal} {cs : List Char} (h : (cooked? l cs).isSome) :
    (cooked? l (webSafeChars cs)).isSome := by
  obtain ⟨us, hus⟩ := Option.isSome_iff_exists.mp h
  rw [cooked?_webSafeChars hus]
  rfl

/-- The safe spelling of a string literal is between the same marks. -/
theorem safe_quoted {mark : Char} (hmark : isQuote mark) {body : List Char}
    (h : (cooked? (.string mark) body).isSome) :
    Piece.safe (.token (String.ofList (mark :: (body ++ [mark])))) =
      .token (String.ofList (mark :: (webSafeChars body ++ [mark]))) := by
  obtain ⟨us, hus⟩ := Option.isSome_iff_exists.mp h
  rw [Piece.safe, webSafe, String.toList_ofList, webSafeChars_quoted hmark hus]

/-- A token has the characters of its text, made safe. -/
theorem charsOf_safe {p : Piece} (h : kindOf p ≠ .number) (style : Style) :
    charsOf style p.safe = webSafeChars (charsOf {} p) := by
  cases p with
  | number => exact absurd rfl h
  | token | raw | operator => simp [Piece.safe, charsOf, webSafe]
  | comma | semicolon | statementEnd => rfl

namespace Escapable

variable {p q : Piece} {e : Edge}

theorem sound (h : Escapable p) : Sound {} p := by
  cases h with
  | same hp => exact hp
  | name h => exact sound_of_isFixed (isFixed_name h).1
  | string hmark h => exact sound_quoted hmark h
  | text h hne => exact sound_raw h hne

theorem kindOf_safe (h : Escapable p) : kindOf p.safe = kindOf p := by
  cases h with
  | same _ hsafe => rw [hsafe]
  | name h => exact (kindOf_spell { webSafe := true } h).trans (isFixed_name h).2.symm
  | string hmark h => rw [safe_quoted hmark h, kindOf_quoted hmark, kindOf_quoted hmark]
  | text => rfl

/-- A token with another spelling is a name, a string or the text of a template. -/
theorem kindOf_of_safe_ne (h : Escapable p) (hne : p.safe ≠ p) :
    kindOf p = .word ∨ kindOf p = .string ∨ kindOf p = .chunk := by
  cases h with
  | same _ hsafe => exact absurd hsafe hne
  | name h => exact .inl (isFixed_name h).2
  | string hmark h => exact .inr (.inl (kindOf_quoted hmark _))
  | text => exact .inr (.inr rfl)

theorem edgeOf_safe (h : Escapable p) : edgeOf p.safe = edgeOf p := by
  by_cases hsafe : p.safe = p
  · rw [hsafe]
  · have hkind := h.kindOf_safe
    rcases h.kindOf_of_safe_ne hsafe with heq | heq | heq
    all_goals rw [heq] at hkind; simp only [edgeOf, heq, hkind]

/-- The safe spelling of a token may stand where the token may. -/
theorem allows_safe (h : Escapable p) (hallows : allows e p) : allows e p.safe := by
  have hkind := h.kindOf_safe
  cases h with
  | same _ hsafe => rwa [hsafe]
  | @name name h =>
    have hword := (isFixed_name h).2
    rw [hword] at hkind
    simp only [allows, hword, Bool.and_eq_true, Bool.or_eq_true, beq_iff_eq] at hallows
    simp only [allows, hkind, Bool.and_eq_true, Bool.or_eq_true, beq_iff_eq]
    -- behind the slash of a regular expression: words that start with an `i`, and `of`
    refine ⟨hallows.1, hallows.2.imp (Or.imp_right fun hhead => ?_) fun hof => ?_⟩
    · have hhead : name.toList.head? = some 'i' := hhead
      obtain ⟨cs, hcs⟩ := List.head?_eq_some_iff.mp hhead
      show (webSafe name).toList.head? = some 'i'
      rw [webSafe, String.toList_ofList, hcs, webSafeChars_cons (by decide) (by decide) (by decide)]
      rfl
    · rw [hof]
      decide
  | string hmark h =>
    rw [kindOf_quoted hmark] at hkind
    simpa only [allows, hkind, kindOf_quoted hmark] using hallows
  | text => simpa only [allows, kindOf, Piece.safe] using hallows

/-- Both spellings of a token are read as the same value. -/
theorem exists_reads (h : Escapable p) (hplane : p.isInPlane) :
    ∃ v, Reads {} p v ∧ Reads webStyle p.safe v ∧ Stands p v := by
  have hkind := h.kindOf_safe
  cases h with
  | same hp hsafe =>
    obtain ⟨v, hreads, hstands⟩ := hp.reads
    rw [hsafe]
    exact ⟨v, hreads, reads_webStyle hreads, hstands⟩
  | @name name h =>
    have hword := (isFixed_name h).2
    have hname : isName name.toList := by rwa [isIdentifierName_eq] at h
    have hlt : ∀ c ∈ name.toList, c.toNat < 0x10000 := by
      simpa [Piece.isInPlane, hword, charsOf] using hplane
    refine ⟨.name name.toList, ⟨by simp, by simp, ?_⟩,
      ⟨by simp [Piece.safe], by simp [Piece.safe], ?_⟩, by simp [Stands]⟩
    · rw [hword]
      exact .word (scanName_of_isName hname)
    · rw [hkind, hword, charsOf_safe (by simp [hword])]
      exact .word (scanName_webSafeChars hname hlt)
  | @string mark body hmark h =>
    obtain ⟨us, hus⟩ := Option.isSome_iff_exists.mp h
    refine ⟨.text us, ⟨by simp, by simp, ?_⟩,
      ⟨by simp [Piece.safe], by simp [Piece.safe], ?_⟩, by simp [Stands]⟩
    · rw [kindOf_quoted hmark, charsOf, String.toList_ofList]
      exact .string hmark hus
    · rw [safe_quoted hmark h, kindOf_quoted hmark, charsOf, String.toList_ofList]
      exact .string hmark (cooked?_webSafeChars hus)
  | @text raw h hne =>
    obtain ⟨us, hus⟩ := Option.isSome_iff_exists.mp h
    refine ⟨.text us, ⟨by simp, by simp, .chunk (by simpa [charsOf] using hne) hus⟩,
      ⟨by simp [Piece.safe], by simp [Piece.safe], ?_⟩, by simp [Stands]⟩
    rw [charsOf_safe (by simp [kindOf])]
    exact .chunk (webSafeChars_ne_nil (by simpa [charsOf] using hne)) (cooked?_webSafeChars hus)

/-- The safe spelling of a token is sound for the web. -/
theorem sound_safe (h : Escapable p) (hplane : p.isInPlane) : Sound webStyle p.safe := by
  obtain ⟨v, -, hreads, -⟩ := h.exists_reads hplane
  cases h with
  | same hp hsafe => exact hsafe.symm ▸ sound_webStyle hp
  | @name name h =>
    have hname : isName name.toList := by rwa [isIdentifierName_eq] at h
    have hlt : ∀ c ∈ name.toList, c.toNat < 0x10000 := by
      simpa [Piece.isInPlane, (isFixed_name h).2, charsOf] using hplane
    have hlast := isIdentifierPart_getLast?_webSafeChars hname hlt
    have hchars := charsOf_safe (p := .token name) (by simp [(isFixed_name h).2]) webStyle
    refine ⟨⟨v, hreads, by simp [Stands, Piece.safe]⟩, fun _ => ?_, fun _ hbrace => ?_, ?_⟩
    · rw [hchars]
      exact hlast
    · -- a brace is no character of a name, and the spelling ends with one
      rw [hchars] at hbrace
      have hbrace : webSafeChars name.toList = ['}'] := hbrace
      cases hlast '}' (by rw [hbrace]; rfl)
    · simp [webStyle]
  | string hmark h =>
    rw [safe_quoted hmark h]
    exact sound_webStyle (sound_quoted hmark (isSome_cooked?_webSafeChars h))
  | text h hne =>
    refine sound_webStyle (sound_raw ?_ ?_)
    · rw [webSafe, String.toList_ofList]
      exact isSome_cooked?_webSafeChars h
    · simpa [webSafe] using webSafeChars_ne_nil (by simpa using hne)

/-- A token that is spelled like a mark or a word of the language is this mark or word. -/
theorem eq_of_safe_eq (h : Escapable p) {text : String} (hback : backslash ∉ text.toList)
    (hhead : text.toList.head?.all (!isQuote ·)) (heq : p.safe = .token text) :
    p = .token text := by
  cases h with
  | same _ hsafe => exact hsafe.symm.trans heq
  | name h => exact congrArg Piece.token (eq_of_webSafe_eq h hback (Piece.token.inj heq))
  | string hmark h =>
    rw [safe_quoted hmark h] at heq
    obtain rfl := Piece.token.inj heq
    simp [hmark] at hhead
  | text => cases heq

/-- A name starts with an escape for the web only if its first character is not plain. -/
theorem head?_safe_ne (h : Escapable p) (hword : kindOf p = .word)
    (hhead : (charsOf {} p).head?.any (!isPlain ·) = false) :
    (charsOf {} p.safe).head? ≠ some backslash := by
  have hback := h.sound.plain hword rfl
  have hne : (charsOf {} p).head? ≠ some backslash := fun hc => hback (List.mem_of_mem_head? hc)
  cases h with
  | same _ hsafe => rwa [hsafe]
  | @name name h =>
    have hparts := all_isIdentifierPart_of_isName (isIdentifierName_eq name ▸ h)
    rw [charsOf_safe (by simp [hword]), charsOf]
    rw [charsOf] at hhead hne
    rw [webSafeChars_name hparts]
    cases hchars : name.toList with
    | nil => simp
    | cons c cs =>
      rw [hchars] at hhead hne
      have hplain : isPlain c := by simpa using hhead
      rw [List.flatMap_cons, plainSpelling_of_isPlain hplain]
      exact hne
  | string hmark => cases (kindOf_quoted hmark _).symm.trans hword
  | text => cases hword

end Escapable

end EcmaPrinter
