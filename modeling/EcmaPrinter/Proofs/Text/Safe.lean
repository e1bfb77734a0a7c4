import EcmaPrinter.Proofs.Text.Spelled
import EcmaPrinter.Tree.Basic

/-!
Which texts are safe for the web.

A text is safe if all of its characters are plain and no script tag is in it.  A web-safe spelling
is always safe, and safe texts are spelled as they are (`webSafe_eq_self_iff`).
-/

namespace EcmaPrinter.Text

/-! ### Plain texts -/

/-- Does the text consist of plain characters? -/
def isPlainText (cs : List Char) : Bool :=
  cs.all isPlain

theorem plainText_eq_self {cs : List Char} (h : isPlainText cs) : plainText cs = cs := by
  have hplain : ∀ c ∈ cs, isPlain c := List.all_eq_true.mp h
  clear h
  induction cs using plainText.induct with
  | case1 => rfl
  | case2 c => exact plainSpelling_of_isPlain (hplain c (List.mem_singleton_self c))
  | case3 c d rest hc ih =>
    have hd : isPlain d := hplain d (by simp)
    have hline : isSeparatorLine d = false := by
      rw [Bool.eq_false_iff]
      intro hline
      simp only [isSeparatorLine, Bool.or_eq_true, beq_iff_eq] at hline
      rcases hline with rfl | rfl <;> exact absurd hd (by decide)
    obtain rfl := beq_iff_eq.mp hc
    simp [plainText, escapedSpelling, hline, hd, ih fun c hc => hplain c (by simp [hc])]
  | case4 c d rest hc ih =>
    have hrest := ih fun c hc => hplain c (List.mem_cons_of_mem _ hc)
    simp only [plainText, hc, hrest]
    simp [plainSpelling_of_isPlain (hplain c List.mem_cons_self)]

theorem isPlain_of_mem_escapeAlphabet {c : Char} (h : c ∈ escapeAlphabet) : isPlain c :=
  have hall : escapeAlphabet.all isPlain := by decide
  List.all_eq_true.mp hall c h

theorem isPlain_of_mem_plainSpelling {c d : Char} (h : d ∈ plainSpelling c) : isPlain d := by
  unfold plainSpelling at h
  split at h
  · next hc => rwa [List.mem_singleton.mp h]
  · exact isPlain_of_mem_escapeAlphabet (mem_plainEscape h)

theorem isPlain_of_mem_escapedSpelling {c d : Char} (h : d ∈ escapedSpelling c) : isPlain d := by
  unfold escapedSpelling at h
  split at h
  · simp only [List.mem_cons, List.not_mem_nil, or_false] at h
    rcases h with rfl | rfl <;> decide
  · split at h
    · next hc =>
      simp only [List.mem_cons, List.not_mem_nil, or_false] at h
      rcases h with rfl | rfl
      · decide
      · exact hc
    · exact isPlain_of_mem_escapeAlphabet (mem_plainEscape h)

theorem isPlainText_plainText (cs : List Char) : isPlainText (plainText cs) := by
  refine List.all_eq_true.mpr ?_
  induction cs using plainText.induct with
  | case1 => exact List.forall_mem_nil _
  | case2 c => exact fun d hd => isPlain_of_mem_plainSpelling hd
  | case3 c d rest hc ih =>
    simp only [plainText, hc]
    exact List.forall_mem_append.mpr ⟨fun e he => isPlain_of_mem_escapedSpelling he, ih⟩
  | case4 c d rest hc ih =>
    simp only [plainText, hc]
    exact List.forall_mem_append.mpr ⟨fun e he => isPlain_of_mem_plainSpelling he, ih⟩

/-! ### Texts without tags -/

/-- Is there a script tag in the text? -/
def hasTag : List Char → Bool
  | [] => false
  | c :: cs => startsTag (c :: cs) || hasTag cs

theorem hasTag_cons_of_ne {c : Char} (h : c ≠ '<') (cs : List Char) :
    hasTag (c :: cs) = hasTag cs := by
  simp [hasTag, startsTag_cons_of_ne h]

theorem hasTag_append_of_not_mem {cs : List Char} (h : '<' ∉ cs) (ds : List Char) :
    hasTag (cs ++ ds) = hasTag ds := by
  induction cs with
  | nil => rfl
  | cons c cs ih =>
    simp only [List.mem_cons, not_or] at h
    rw [List.cons_append, hasTag_cons_of_ne (Ne.symm h.1), ih h.2]

theorem hasTag_eq_false_of_not_mem {cs : List Char} (h : '<' ∉ cs) : hasTag cs = false := by
  simpa [hasTag] using hasTag_append_of_not_mem h []

/-- A text has a tag exactly if a tag starts somewhere in it. -/
theorem hasTag_iff {cs : List Char} : hasTag cs ↔ ∃ rest, rest <:+ cs ∧ startsTag rest := by
  induction cs with
  | nil => simp [hasTag, startsTag]
  | cons c cs ih =>
    simp only [hasTag, Bool.or_eq_true, ih, List.suffix_cons_iff]
    constructor
    · rintro (h | ⟨rest, hrest, h⟩)
      · exact ⟨c :: cs, .inl rfl, h⟩
      · exact ⟨rest, .inr hrest, h⟩
    · rintro ⟨rest, rfl | hrest, h⟩
      · exact .inl h
      · exact .inr ⟨rest, hrest, h⟩

/-- Without a tag there is nothing to escape. -/
theorem escapeTags_eq_self_of_hasTag {cs : List Char} (h : hasTag cs = false) :
    escapeTags cs = cs := by
  induction cs with
  | nil => rfl
  | cons c cs ih =>
    simp only [hasTag, Bool.or_eq_false_iff] at h
    simp [escapeTags, h.1, ih h.2]

/-! ### The shape of tags -/

/-- Do the first characters of a text have the given properties, one each? -/
def matchesAll : List (Char → Bool) → List Char → Bool
  | [], _ => true
  | _ :: _, [] => false
  | p :: ps, c :: cs => p c && matchesAll ps cs

/-- The characters of the name of a tag, with the one behind it. -/
def tagName : List (Char → Bool) :=
  [(·.toLower == 's'), (·.toLower == 'c'), (·.toLower == 'r'), (·.toLower == 'i'),
   (·.toLower == 'p'), (·.toLower == 't'), endsTagName]

theorem startsTagName_eq (cs : List Char) : startsTagName cs = matchesAll tagName cs := by
  rcases cs with - | ⟨a, - | ⟨b, - | ⟨c, - | ⟨d, - | ⟨e, - | ⟨f, - | ⟨g, rest⟩⟩⟩⟩⟩⟩⟩ <;>
    simp [startsTagName, tagName, matchesAll, Bool.and_assoc]

/-- A tag is `<` with a name, or with a slash and a name. -/
theorem startsTag_cons (cs : List Char) :
    startsTag ('<' :: cs) = (matchesAll tagName cs || matchesAll ((· == '/') :: tagName) cs) := by
  unfold startsTag
  split
  · next rest heq =>
    obtain rfl := (List.cons.inj heq).2
    simp [startsTagName_eq, tagName, matchesAll]
  · next rest hslash heq =>
    obtain rfl := (List.cons.inj heq).2
    have hno : matchesAll ((· == '/') :: tagName) cs = false := by
      cases cs with
      | nil => rfl
      | cons c cs =>
        have hc : c ≠ '/' := fun hc => hslash cs (by rw [hc])
        simp [matchesAll, hc]
    rw [startsTagName_eq, hno, Bool.or_false]
  · next h => exact absurd rfl (h cs)

/-- Escaping tags leaves everything before the next `<` as it is. -/
theorem matchesAll_escapeTags {ps : List (Char → Bool)} (h : ∀ p ∈ ps, p '<' = false)
    (cs : List Char) : matchesAll ps (escapeTags cs) = matchesAll ps cs := by
  induction ps generalizing cs with
  | nil => rfl
  | cons p ps ih =>
    obtain ⟨hp, hps⟩ := List.forall_mem_cons.mp h
    cases cs with
    | nil => rfl
    | cons c cs =>
      by_cases hc : c = '<'
      · subst hc
        simp only [escapeTags]
        split <;> simp [matchesAll, hp]
      · rw [escapeTags_cons_of_ne hc]
        simp [matchesAll, ih hps]

/-- Escaping the tags behind a character makes no tag out of it. -/
theorem startsTag_cons_escapeTags (c : Char) (cs : List Char) :
    startsTag (c :: escapeTags cs) = startsTag (c :: cs) := by
  by_cases hc : c = '<'
  · subst hc
    have hname : ∀ p ∈ tagName, p '<' = false := by decide
    simp only [startsTag_cons]
    rw [matchesAll_escapeTags hname,
      matchesAll_escapeTags (List.forall_mem_cons.mpr ⟨by decide, hname⟩)]
  · rw [startsTag_cons_of_ne hc, startsTag_cons_of_ne hc]

theorem lt_not_mem_byteEscape (c : Char) : '<' ∉ byteEscape c :=
  fun h => absurd (mem_byteEscape h) (by decide)

theorem hasTag_byteEscape_append (c : Char) (cs : List Char) :
    hasTag (byteEscape c ++ cs) = hasTag cs :=
  hasTag_append_of_not_mem (lt_not_mem_byteEscape c) cs

/-- An escape is no name of a tag. -/
theorem startsTag_byteEscape (c d : Char) (cs : List Char) :
    startsTag (c :: (byteEscape d ++ cs)) = false ∧
      startsTag (c :: '/' :: (byteEscape d ++ cs)) = false := by
  by_cases hc : c = '<'
  · subst hc
    have hback : (backslash.toLower == 's') = false ∧ (backslash == '/') = false := by decide
    simp [startsTag_cons, tagName, matchesAll, byteEscape, hback]
  · exact ⟨startsTag_cons_of_ne hc _, startsTag_cons_of_ne hc _⟩

theorem hasTag_cons_escapeTagName (c : Char) {cs : List Char} (h : hasTag cs = false) :
    hasTag (c :: escapeTagName cs) = false := by
  unfold escapeTagName
  split
  · next d rest =>
    simp only [hasTag, Bool.or_eq_false_iff] at h
    have hslash : '/' ≠ '<' := by decide
    rw [hasTag, (startsTag_byteEscape c d rest).2, hasTag_cons_of_ne hslash,
      hasTag_byteEscape_append, h.2.2]
    rfl
  · next d rest _ =>
    simp only [hasTag, Bool.or_eq_false_iff] at h
    rw [hasTag, (startsTag_byteEscape c d rest).1, hasTag_byteEscape_append, h.2]
    rfl
  · by_cases hc : c = '<'
    · subst hc
      rfl
    · rw [hasTag_cons_of_ne hc, h]

/-- No tag is left. -/
theorem hasTag_escapeTags (cs : List Char) : hasTag (escapeTags cs) = false := by
  induction cs with
  | nil => rfl
  | cons c cs ih =>
    rw [escapeTags]
    split
    · exact hasTag_cons_escapeTagName c ih
    · next h => rw [hasTag, startsTag_cons_escapeTags, ih, Bool.or_false, Bool.eq_false_iff.mpr h]

theorem mem_escapeTagName {c : Char} {cs : List Char} (h : c ∈ escapeTagName cs) :
    c ∈ cs ∨ c ∈ escapeAlphabet := by
  unfold escapeTagName at h
  split at h
  · rcases List.mem_cons.mp h with rfl | h
    · exact .inl List.mem_cons_self
    · rcases List.mem_append.mp h with h | h
      · exact .inr (mem_byteEscape h)
      · exact .inl (List.mem_cons_of_mem _ (List.mem_cons_of_mem _ h))
  · rcases List.mem_append.mp h with h | h
    · exact .inr (mem_byteEscape h)
    · exact .inl (List.mem_cons_of_mem _ h)
  · cases h

/-- Escaping tags adds nothing but escapes. -/
theorem mem_escapeTags {c : Char} {cs : List Char} (h : c ∈ escapeTags cs) :
    c ∈ cs ∨ c ∈ escapeAlphabet := by
  induction cs with
  | nil => cases h
  | cons d cs ih =>
    have hrest (hmem : c ∈ escapeTags cs) : c ∈ d :: cs ∨ c ∈ escapeAlphabet :=
      (ih hmem).imp_left (List.mem_cons_of_mem d)
    rw [escapeTags] at h
    split at h
    · rcases List.mem_cons.mp h with rfl | h
      · exact .inl List.mem_cons_self
      · exact (mem_escapeTagName h).elim hrest .inr
    · rcases List.mem_cons.mp h with rfl | h
      · exact .inl List.mem_cons_self
      · exact hrest h

theorem isPlainText_escapeTags {cs : List Char} (h : isPlainText cs) :
    isPlainText (escapeTags cs) := by
  refine List.all_eq_true.mpr fun d hd => ?_
  rcases mem_escapeTags hd with hd | hd
  · exact List.all_eq_true.mp h d hd
  · exact isPlain_of_mem_escapeAlphabet hd

/-! ### Safe texts -/

/-- Is the text safe, that is plain and without a tag? -/
def isSafe (cs : List Char) : Bool :=
  isPlainText cs && !hasTag cs

/-- A web-safe spelling is safe. -/
theorem isSafe_webSafeChars (cs : List Char) : isSafe (webSafeChars cs) := by
  simp [isSafe, webSafeChars, hasTag_escapeTags, isPlainText_escapeTags (isPlainText_plainText cs)]

theorem webSafeChars_eq_self {cs : List Char} (h : isSafe cs) : webSafeChars cs = cs := by
  simp only [isSafe, Bool.and_eq_true, Bool.not_eq_true'] at h
  rw [webSafeChars, plainText_eq_self h.1, escapeTags_eq_self_of_hasTag h.2]

/-- The texts that are spelled as they are. -/
theorem webSafe_eq_self_iff {text : String} : webSafe text = text ↔ isSafe text.toList := by
  constructor
  · intro h
    have hchars : webSafeChars text.toList = text.toList := by
      simpa [webSafe] using congrArg String.toList h
    rw [← hchars]
    exact isSafe_webSafeChars _
  · intro h
    rw [webSafe, webSafeChars_eq_self h, String.ofList_toList]

theorem isSafe_webSafe (text : String) : isSafe (webSafe text).toList := by
  simpa [webSafe] using isSafe_webSafeChars text.toList

theorem isSafe_of_not_mem {cs : List Char} (hplain : isPlainText cs) (h : '<' ∉ cs) :
    isSafe cs := by
  simp [isSafe, hplain, hasTag_eq_false_of_not_mem h]

/-! ### Regular expressions -/

theorem matchesAll_length {ps : List (Char → Bool)} {cs : List Char} (h : matchesAll ps cs) :
    ps.length ≤ cs.length := by
  induction ps generalizing cs with
  | nil => exact Nat.zero_le _
  | cons p ps ih =>
    cases cs with
    | nil => cases h
    | cons c cs =>
      simp only [matchesAll, Bool.and_eq_true] at h
      simpa using ih h.2

/-- What does not match is not made to match by something behind a character that has no property
of the shape but the last. -/
theorem matchesAll_append {ps : List (Char → Bool)} {cs ds : List Char} {c : Char}
    (h : matchesAll ps (cs ++ c :: ds)) (hc : ∀ p ∈ ps.dropLast, p c = false) :
    matchesAll ps (cs ++ [c]) := by
  induction ps generalizing cs with
  | nil => rfl
  | cons p ps ih =>
    cases cs with
    | nil =>
      simp only [List.nil_append, matchesAll, Bool.and_eq_true] at h
      cases ps with
      | nil => simp [matchesAll, h.1]
      | cons q ps =>
        have hfalse := hc p (by simp)
        rw [h.1] at hfalse
        cases hfalse
    | cons d cs =>
      simp only [List.cons_append, matchesAll, Bool.and_eq_true] at h ⊢
      refine ⟨h.1, ih h.2 fun q hq => hc q ?_⟩
      cases ps with
      | nil => cases hq
      | cons r ps => exact List.mem_cons_of_mem _ hq

/-- Behind a slash, a text that does not start with the name of a tag makes no tag. -/
theorem hasTag_append_slash {cs ds : List Char} (h : hasTag (cs ++ ['/']) = false)
    (hstart : matchesAll tagName ds = false) (hds : hasTag ds = false) :
    hasTag (cs ++ '/' :: ds) = false := by
  induction cs with
  | nil =>
    have hslash : '/' ≠ '<' := by decide
    rw [List.nil_append, hasTag_cons_of_ne hslash, hds]
  | cons c cs ih =>
    simp only [List.cons_append, hasTag, Bool.or_eq_false_iff] at h ⊢
    refine ⟨?_, ih h.2⟩
    by_cases hc : c = '<'
    · subst hc
      have hname : ∀ p ∈ tagName.dropLast, p '/' = false := by decide
      rw [startsTag_cons, Bool.or_eq_false_iff] at h ⊢
      refine ⟨?_, ?_⟩
      · rw [Bool.eq_false_iff]
        intro hmatch
        exact absurd (matchesAll_append hmatch hname) (by simp [h.1.1])
      · rw [Bool.eq_false_iff]
        intro hmatch
        cases cs with
        | nil =>
          simp only [List.nil_append, matchesAll, Bool.and_eq_true] at hmatch
          exact absurd hmatch.2 (by simp [hstart])
        | cons d cs =>
          simp only [List.cons_append, matchesAll, Bool.and_eq_true] at hmatch
          have hfalse := h.1.2
          simp only [List.cons_append, matchesAll, hmatch.1, Bool.true_and] at hfalse
          exact absurd (matchesAll_append hmatch.2 hname) (by simp [hfalse])
    · exact startsTag_cons_of_ne hc _

theorem flags_text_spec (flags : RegExpFlags) :
    isPlainText flags.text.toList ∧ '<' ∉ flags.text.toList ∧
      flags.text.toList.all (·.toLower != 's') := by
  obtain ⟨global, ignoreCase, multiLine, sticky, unicode⟩ := flags
  cases global <;> cases ignoreCase <;> cases multiLine <;> cases sticky <;> cases unicode <;>
    decide

/-- Flags make no tag of the text before them, and neither does what comes behind them. -/
theorem hasTag_append_flags {cs : List Char} (h : hasTag (cs ++ ['/']) = false)
    (flags : RegExpFlags) {ds : List Char} (hds : hasTag ds = false)
    (hstart : flags.text.toList = [] → matchesAll tagName ds = false) :
    hasTag (cs ++ '/' :: (flags.text.toList ++ ds)) = false := by
  obtain ⟨-, htag, hletters⟩ := flags_text_spec flags
  refine hasTag_append_slash h ?_ (by rw [hasTag_append_of_not_mem htag, hds])
  rcases hflags : flags.text.toList with - | ⟨c, cs⟩
  · exact hstart hflags
  · have hc : c.toLower ≠ 's' := by
      simp only [hflags, List.all_cons, Bool.and_eq_true, bne_iff_ne] at hletters
      exact hletters.1
    simp [tagName, matchesAll, hc]

/-- A regular expression whose pattern is safe before the slash is safe as a whole. -/
theorem isSafe_regExp {pattern : List Char} (h : isSafe (pattern ++ ['/'])) (flags : RegExpFlags) :
    isSafe ('/' :: (pattern ++ '/' :: flags.text.toList)) := by
  obtain ⟨hplain, -, -⟩ := flags_text_spec flags
  simp only [isSafe, isPlainText, List.all_append, List.all_cons, Bool.and_eq_true,
    Bool.not_eq_true'] at h hplain ⊢
  obtain ⟨⟨hpattern, hslash, -⟩, hnone⟩ := h
  have hne : '/' ≠ '<' := by decide
  have htag : hasTag (pattern ++ '/' :: (flags.text.toList ++ [])) = false :=
    hasTag_append_flags hnone flags rfl fun _ => rfl
  rw [List.append_nil] at htag
  exact ⟨⟨hslash, hpattern, hslash, hplain⟩, by rw [hasTag_cons_of_ne hne, htag]⟩

end EcmaPrinter.Text
