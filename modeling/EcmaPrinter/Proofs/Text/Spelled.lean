import EcmaPrinter.Options
import EcmaPrinter.Proofs.Text.Cooked
import EcmaPrinter.Text.Identifier
import EcmaPrinter.Text.WebSafe

/-!
Web-safe spellings, character by character.

A spelling goes through escapes and script tags.  In a text without backslashes and without `<`
there are neither, so such a text is spelled one character at a time.  Names are of this kind, and
so is the mark that opens a literal.
-/

namespace EcmaPrinter.Text

/-! ### Texts without escapes and tags -/

theorem plainText_cons {c : Char} (h : c ≠ backslash) (cs : List Char) :
    plainText (c :: cs) = plainSpelling c ++ plainText cs := by
  cases cs with
  | nil => simp [plainText]
  | cons d cs => simp [plainText, h]

theorem plainText_eq_flatMap {cs : List Char} (h : backslash ∉ cs) :
    plainText cs = cs.flatMap plainSpelling := by
  induction cs with
  | nil => rfl
  | cons c cs ih =>
    have hc : c ≠ backslash := fun heq => h (heq ▸ List.mem_cons_self)
    rw [plainText_cons hc, ih fun hmem => h (List.mem_cons_of_mem c hmem), List.flatMap_cons]

/-- A tag starts with `<`. -/
theorem startsTag_cons_of_ne {c : Char} (h : c ≠ '<') (cs : List Char) :
    startsTag (c :: cs) = false := by
  unfold startsTag
  split <;> simp_all

theorem escapeTags_cons_of_ne {c : Char} (h : c ≠ '<') (cs : List Char) :
    escapeTags (c :: cs) = c :: escapeTags cs := by
  simp [escapeTags, startsTag_cons_of_ne h]

theorem escapeTags_eq_self {cs : List Char} (h : '<' ∉ cs) : escapeTags cs = cs := by
  induction cs with
  | nil => rfl
  | cons c cs ih =>
    have hc : c ≠ '<' := fun heq => h (heq ▸ List.mem_cons_self)
    rw [escapeTags_cons_of_ne hc, ih fun hmem => h (List.mem_cons_of_mem c hmem)]

theorem plainSpelling_of_isPlain {c : Char} (h : isPlain c) : plainSpelling c = [c] := by
  simp [plainSpelling, h]

/-- A plain character that opens neither an escape nor a tag stands for itself. -/
theorem webSafeChars_cons {c : Char} (hplain : isPlain c) (hback : c ≠ backslash) (htag : c ≠ '<')
    (cs : List Char) : webSafeChars (c :: cs) = c :: webSafeChars cs := by
  rw [webSafeChars, plainText_cons hback, plainSpelling_of_isPlain hplain, List.singleton_append,
    escapeTags_cons_of_ne htag, webSafeChars]

/-! ### Escapes -/

/-- The characters that escapes are made of. -/
def escapeAlphabet : List Char :=
  backslash :: 'x' :: 'u' :: (List.range 16).map hexDigit

theorem mem_hexPlaces {places n : Nat} {d : Char} (h : d ∈ hexPlaces places n) :
    d ∈ (List.range 16).map hexDigit := by
  induction places generalizing n with
  | zero => cases h
  | succ places ih =>
    rcases List.mem_append.mp h with h | h
    · exact ih h
    · obtain rfl := List.mem_singleton.mp h
      exact List.mem_map.mpr ⟨n % 16, List.mem_range.mpr (Nat.mod_lt _ (by decide)), rfl⟩

theorem mem_byteEscape {c d : Char} (h : d ∈ byteEscape c) : d ∈ escapeAlphabet := by
  simp only [byteEscape, List.mem_cons] at h
  rcases h with rfl | rfl | h
  · simp [escapeAlphabet]
  · simp [escapeAlphabet]
  · simp only [escapeAlphabet, List.mem_cons]
    exact .inr (.inr (.inr (mem_hexPlaces h)))

theorem mem_unitEscape {unit : Nat} {d : Char} (h : d ∈ unitEscape unit) :
    d ∈ escapeAlphabet := by
  simp only [unitEscape, List.mem_cons] at h
  rcases h with rfl | rfl | h
  · simp [escapeAlphabet]
  · simp [escapeAlphabet]
  · simp only [escapeAlphabet, List.mem_cons]
    exact .inr (.inr (.inr (mem_hexPlaces h)))

theorem mem_plainEscape {c d : Char} (h : d ∈ plainEscape c) : d ∈ escapeAlphabet := by
  unfold plainEscape at h
  split at h
  · exact mem_byteEscape h
  · obtain ⟨unit, -, h⟩ := List.mem_flatMap.mp h
    exact mem_unitEscape h

/-- An escape starts with its backslash. -/
theorem exists_plainEscape_eq_cons (c : Char) : ∃ ds, plainEscape c = backslash :: ds := by
  unfold plainEscape
  split
  · exact ⟨_, rfl⟩
  · unfold utf16Units
    split <;> exact ⟨_, rfl⟩

/-! ### Names -/

/-- The characters of an identifier name. -/
def isName : List Char → Bool
  | [] => false
  | c :: cs => isIdentifierStart c && cs.all isIdentifierPart

theorem isIdentifierName_eq (name : String) : isIdentifierName name = isName name.toList := by
  unfold isIdentifierName isName
  split <;> simp_all

theorem isIdentifierPart_of_isIdentifierStart {c : Char} (h : isIdentifierStart c) :
    isIdentifierPart c := by
  unfold isIdentifierStart at h
  unfold isIdentifierPart
  split at h
  · next hascii =>
    rw [if_pos hascii]
    simp only [Bool.or_eq_true] at h ⊢
    rcases h with (h | h) | h
    · exact .inl (.inl (by simp [Char.isAlphanum, h]))
    · exact .inl (.inr h)
    · exact .inr h
  · next hascii =>
    rw [if_neg hascii]
    simp [h]

theorem all_isIdentifierPart_of_isName {cs : List Char} (h : isName cs) :
    ∀ c ∈ cs, isIdentifierPart c := by
  cases cs with
  | nil => cases h
  | cons c cs =>
    obtain ⟨hc, hcs⟩ : isIdentifierStart c ∧ ∀ d ∈ cs, isIdentifierPart d := by
      simpa [isName] using h
    intro d hd
    rcases List.mem_cons.mp hd with rfl | hd
    · exact isIdentifierPart_of_isIdentifierStart hc
    · exact hcs d hd

theorem backslash_not_mem_of_isName {cs : List Char} (h : isName cs) : backslash ∉ cs := by
  intro hmem
  cases all_isIdentifierPart_of_isName h _ hmem

theorem ne_of_isIdentifierPart {c : Char} (h : isIdentifierPart c) :
    c ≠ backslash ∧ c ≠ '<' ∧ c ≠ '\x00' := by
  refine ⟨?_, ?_, ?_⟩ <;> rintro rfl <;> cases h

/-- The characters of a name are spelled one by one. -/
theorem webSafeChars_name {cs : List Char} (h : ∀ c ∈ cs, isIdentifierPart c) :
    webSafeChars cs = cs.flatMap plainSpelling := by
  have hback : backslash ∉ cs := fun hmem => (ne_of_isIdentifierPart (h _ hmem)).1 rfl
  have htag : '<' ∉ cs.flatMap plainSpelling := by
    intro hmem
    obtain ⟨c, hc, hmem⟩ := List.mem_flatMap.mp hmem
    unfold plainSpelling at hmem
    split at hmem
    · exact (ne_of_isIdentifierPart (h c hc)).2.1 (List.mem_singleton.mp hmem).symm
    · exact absurd (mem_plainEscape hmem) (by decide)
  rw [webSafeChars, plainText_eq_flatMap hback, escapeTags_eq_self htag]

/-- A spelling without escapes is the text itself. -/
theorem flatMap_plainSpelling_eq_self {cs : List Char}
    (h : backslash ∉ cs.flatMap plainSpelling) : cs.flatMap plainSpelling = cs := by
  induction cs with
  | nil => rfl
  | cons c cs ih =>
    rw [List.flatMap_cons] at h ⊢
    have hc : plainSpelling c = [c] := by
      unfold plainSpelling at h ⊢
      split
      · rfl
      · next hplain =>
        obtain ⟨ds, hds⟩ := exists_plainEscape_eq_cons c
        simp [hplain, hds] at h
    rw [hc, ih fun hmem => h (List.mem_append_right _ hmem), List.singleton_append]

/-- A name is spelled like a word without escapes only if it is that word. -/
theorem eq_of_webSafe_eq {name word : String} (hname : isIdentifierName name)
    (hword : backslash ∉ word.toList) (h : webSafe name = word) : name = word := by
  have hall := all_isIdentifierPart_of_isName (isIdentifierName_eq name ▸ hname)
  subst h
  rw [webSafe, String.toList_ofList, webSafeChars_name hall] at hword
  rw [webSafe, webSafeChars_name hall, flatMap_plainSpelling_eq_self hword, String.ofList_toList]

/-- A spelling keeps the quotation mark that a text starts with. -/
theorem exists_webSafe_eq {text : String} {mark : Char} {cs : List Char} (hmark : isQuote mark)
    (h : text.toList = mark :: cs) : ∃ ds, (webSafe text).toList = mark :: ds := by
  have hplain : isPlain mark ∧ mark ≠ backslash ∧ mark ≠ '<' := by
    rcases isQuote_iff.mp hmark with rfl | rfl <;> decide
  rw [webSafe, String.toList_ofList, h, webSafeChars_cons hplain.1 hplain.2.1 hplain.2.2]
  exact ⟨_, rfl⟩

theorem isQuote_directiveQuote (raw : String) : isQuote (directiveQuote raw) := by
  unfold directiveQuote
  split <;> decide

end EcmaPrinter.Text

namespace EcmaPrinter.Options

open EcmaPrinter.Text

theorem spell_eq_id {o : Options} (h : o.webSafe = false) : o.spell = id := by
  funext text
  simp [spell, h]

theorem eq_of_spell_eq (o : Options) {name word : String} (hname : isIdentifierName name)
    (hword : backslash ∉ word.toList) (h : o.spell name = word) : name = word := by
  unfold spell at h
  split at h
  · exact eq_of_webSafe_eq hname hword h
  · exact h

theorem exists_spell_eq (o : Options) {text : String} {mark : Char} {cs : List Char}
    (hmark : isQuote mark) (h : text.toList = mark :: cs) :
    ∃ ds, (o.spell text).toList = mark :: ds := by
  unfold spell
  split
  · exact exists_webSafe_eq hmark h
  · exact ⟨cs, h⟩

/-- The spelling of a literal starts with a quotation mark. -/
theorem exists_spell_quote (o : Options) (value : String) :
    ∃ mark cs, isQuote mark ∧ (o.spell (quote value)).toList = mark :: cs := by
  have hmark := isQuote_cheaperQuote value.toList
  obtain ⟨cs, hcs⟩ : ∃ cs, (o.spell (quote value)).toList = _ :: cs :=
    o.exists_spell_eq hmark String.toList_ofList
  exact ⟨_, cs, hmark, hcs⟩

theorem exists_spell_quoteDirective (o : Options) (raw : String) :
    ∃ mark cs, isQuote mark ∧ (o.spell (quoteDirective raw)).toList = mark :: cs := by
  have hmark := isQuote_directiveQuote raw
  obtain ⟨cs, hcs⟩ : ∃ cs, (o.spell (quoteDirective raw)).toList = _ :: cs :=
    o.exists_spell_eq hmark String.toList_ofList
  exact ⟨_, cs, hmark, hcs⟩

end EcmaPrinter.Options
