import EcmaPrinter.Proofs.Text.Safe

/-!
Tags where two texts meet.

Two texts without tags can make one together: `<` with a name, or a name with the space behind it.
`Seals barred cs` says that this does not happen to a text, as long as it is not followed by one of
the barred characters.  A text without `<` seals whatever follows, and so does one that ends with a
character that is in no tag, like the quotation mark of a string.
-/

namespace EcmaPrinter.Text

/-! ### Characters that are in no tag -/

/-- Is the character in no tag, not even behind its name? -/
def stopsTag (c : Char) : Bool :=
  ((· == '<') :: (· == '/') :: tagName).all fun p => !p c

/-- What matches a shape goes on matching it. -/
theorem matchesAll_append_right {ps : List (Char → Bool)} {cs : List Char} (h : matchesAll ps cs)
    (ds : List Char) : matchesAll ps (cs ++ ds) := by
  induction ps generalizing cs with
  | nil => rfl
  | cons p ps ih =>
    cases cs with
    | nil => cases h
    | cons c cs =>
      simp only [matchesAll, List.cons_append, Bool.and_eq_true] at h ⊢
      exact ⟨h.1, ih h.2⟩

/-- A match ends before a character that has no property of the shape. -/
theorem matchesAll_of_append_cons {ps : List (Char → Bool)} {cs ds : List Char} {c : Char}
    (hc : ∀ p ∈ ps, p c = false) (h : matchesAll ps (cs ++ c :: ds)) : matchesAll ps cs := by
  induction ps generalizing cs with
  | nil => rfl
  | cons p ps ih =>
    obtain ⟨hp, hps⟩ := List.forall_mem_cons.mp hc
    cases cs with
    | nil => simp [matchesAll, hp] at h
    | cons d cs =>
      simp only [matchesAll, List.cons_append, Bool.and_eq_true] at h ⊢
      exact ⟨h.1, ih hps h.2⟩

theorem startsTag_append_right {cs : List Char} (h : startsTag cs) (ds : List Char) :
    startsTag (cs ++ ds) := by
  cases cs with
  | nil => cases h
  | cons c cs =>
    by_cases hc : c = '<'
    · subst hc
      rw [List.cons_append, startsTag_cons, Bool.or_eq_true] at *
      exact h.imp (matchesAll_append_right · ds) (matchesAll_append_right · ds)
    · rw [startsTag_cons_of_ne hc] at h
      cases h

/-- A tag that starts before a character in no tag ends before it. -/
theorem startsTag_of_append_cons {cs ds : List Char} {c d : Char} (hd : stopsTag d)
    (h : startsTag (c :: (cs ++ d :: ds))) : startsTag (c :: cs) := by
  by_cases hc : c = '<'
  · subst hc
    have hall : ∀ p ∈ (· == '<') :: (· == '/') :: tagName, p d = false := by
      simpa [stopsTag] using hd
    have hname := (List.forall_mem_cons.mp hall).2
    rw [startsTag_cons, Bool.or_eq_true] at *
    exact h.imp (matchesAll_of_append_cons (List.forall_mem_cons.mp hname).2)
      (matchesAll_of_append_cons hname)
  · rw [startsTag_cons_of_ne hc] at h
    cases h

theorem hasTag_of_append_right {cs ds : List Char} (h : hasTag (cs ++ ds) = false) :
    hasTag cs = false := by
  rw [Bool.eq_false_iff] at h ⊢
  intro htag
  obtain ⟨rest, hrest, hstarts⟩ := hasTag_iff.mp htag
  obtain ⟨before, rfl⟩ := hrest
  refine h (hasTag_iff.mpr ⟨rest ++ ds, ⟨before, ?_⟩, startsTag_append_right hstarts ds⟩)
  rw [List.append_assoc]

/-- No tag goes over a character in no tag. -/
theorem hasTag_append_of_stopsTag {cs ds : List Char} {c : Char} (hc : stopsTag c)
    (hcs : hasTag cs = false) (hds : hasTag ds = false) : hasTag (cs ++ c :: ds) = false := by
  induction cs with
  | nil =>
    have hne : c ≠ '<' := by
      rintro rfl
      cases hc
    rw [List.nil_append, hasTag_cons_of_ne hne, hds]
  | cons d cs ih =>
    simp only [hasTag, Bool.or_eq_false_iff] at hcs
    rw [List.cons_append, hasTag, ih hcs.2, Bool.or_false, Bool.eq_false_iff]
    intro hstarts
    rw [startsTag_of_append_cons hc hstarts] at hcs
    cases hcs.1

/-! ### Texts before others -/

/-- A text without tags makes none together with the text before it, unless it starts with a barred
character. -/
def Seals (barred : Char → Bool) (cs : List Char) : Prop :=
  ∀ rest, hasTag rest = false → (∀ c ∈ rest.head?, barred c = false) → hasTag (cs ++ rest) = false

section

variable {barred : Char → Bool} {cs : List Char}

theorem seals_of_not_mem (h : '<' ∉ cs) : Seals barred cs :=
  fun rest hrest _ => (hasTag_append_of_not_mem h rest).trans hrest

/-- A text may end with a character in no tag. -/
theorem seals_of_getLast? {c : Char} (hlast : cs.getLast? = some c) (hc : stopsTag c)
    (h : hasTag cs = false) : Seals barred cs := by
  intro rest hrest _
  obtain ⟨ds, rfl⟩ := List.getLast?_eq_some_iff.mp hlast
  rw [List.append_assoc, List.singleton_append]
  exact hasTag_append_of_stopsTag hc (hasTag_of_append_right h) hrest

/-- Or a character in no tag may have to follow it. -/
theorem seals_of_barred (hbarred : ∀ c, barred c = false → stopsTag c) (h : hasTag cs = false) :
    Seals barred cs := by
  intro rest hrest hhead
  cases rest with
  | nil => rwa [List.append_nil]
  | cons c rest =>
    have hc := hbarred c (hhead c rfl)
    have hne : c ≠ '<' := by
      rintro rfl
      cases hc
    rw [hasTag_cons_of_ne hne] at hrest
    exact hasTag_append_of_stopsTag hc h hrest

theorem toLower_ne_s {c : Char} (hlower : c ≠ 's') (hupper : c ≠ 'S') : c.toLower ≠ 's' := by
  unfold Char.toLower
  split
  · intro heq
    have hval : c.val + ('a'.val - 'A'.val) = 's'.val := congrArg Char.val heq
    exact hupper (Char.ext (UInt32.eq_sub_iff_add_eq.mpr hval))
  · exact hlower

/-- Behind a `<`, neither a slash nor the first letter of a name may follow. -/
theorem Seals.lt_cons (hbarred : ∀ c, barred c = false → c ≠ '/' ∧ c.toLower ≠ 's')
    (hcs : cs.head?.all fun c => c == '<') (h : Seals barred cs) : Seals barred ('<' :: cs) := by
  intro rest hrest hhead
  have htag := h rest hrest hhead
  have hnext : ∀ c ∈ (cs ++ rest).head?, c ≠ '/' ∧ c.toLower ≠ 's' := by
    cases cs with
    | nil => exact fun c hc => hbarred c (hhead c hc)
    | cons d cs =>
      obtain rfl : d = '<' := by simpa using hcs
      intro c hc
      obtain rfl : '<' = c := by simpa using hc
      decide
  rw [List.cons_append, hasTag, htag, Bool.or_false, startsTag_cons]
  rcases hjoined : cs ++ rest with - | ⟨c, ds⟩
  · rfl
  · obtain ⟨hslash, hs⟩ := hnext c (by rw [hjoined]; rfl)
    simp [matchesAll, tagName, hslash, hs]

/-- A regular expression without flags must not be followed by the first letter of a name. -/
theorem seals_regExp {pattern : List Char} (h : isSafe (pattern ++ ['/'])) {flags : RegExpFlags}
    (hbarred : flags.text.toList = [] → ∀ c, barred c = false → c.toLower ≠ 's') :
    Seals barred ('/' :: (pattern ++ '/' :: flags.text.toList)) := by
  intro rest hrest hhead
  have hne : '/' ≠ '<' := by decide
  have htag : hasTag (pattern ++ ['/']) = false := by
    simp only [isSafe, Bool.and_eq_true, Bool.not_eq_true'] at h
    exact h.2
  have hjoined : hasTag (pattern ++ '/' :: (flags.text.toList ++ rest)) = false := by
    refine hasTag_append_flags htag flags hrest fun hflags => ?_
    cases rest with
    | nil => rfl
    | cons c rest => simp [matchesAll, tagName, hbarred hflags c (hhead c rfl)]
  simpa [hasTag_cons_of_ne hne] using hjoined

end

/-! ### The last character of a spelling -/

theorem getLast?_plainText {cs : List Char} {c : Char} (hlast : cs.getLast? = some c)
    (hc : isPlain c) : (plainText cs).getLast? = some c := by
  have hline : isSeparatorLine c = false := by
    rw [Bool.eq_false_iff]
    intro hline
    simp only [isSeparatorLine, Bool.or_eq_true, beq_iff_eq] at hline
    rcases hline with rfl | rfl <;> cases hc
  induction cs using plainText.induct with
  | case1 => cases hlast
  | case2 d =>
    obtain rfl : d = c := by simpa using hlast
    simp [plainText, plainSpelling_of_isPlain hc]
  | case3 b d rest hb ih =>
    simp only [plainText, hb]
    cases rest with
    | nil =>
      obtain rfl : d = c := by simpa using hlast
      simp [plainText, escapedSpelling, hline, hc]
    | cons e rest =>
      have hrest := ih (by simpa using hlast)
      simp [List.getLast?_append, hrest]
  | case4 b d rest hb ih =>
    have hrest := ih (by simpa using hlast)
    simp only [plainText, hb]
    simp [List.getLast?_append, hrest]

/-- The first letter of a name is not its last character. -/
theorem getLast?_escapeTagName {cs : List Char} (h : 2 < cs.length) :
    (escapeTagName cs).getLast? = cs.getLast? := by
  unfold escapeTagName
  split
  · next c rest =>
    cases rest with
    | nil => simp at h
    | cons d rest => simp [List.getLast?_cons, List.getLast?_append]
  · next c rest _ =>
    cases rest with
    | nil => simp at h
    | cons d rest => simp [List.getLast?_cons, List.getLast?_append]
  · rfl

theorem length_of_startsTag {c : Char} {cs : List Char} (h : startsTag (c :: cs)) :
    2 < (escapeTags cs).length := by
  rw [← startsTag_cons_escapeTags] at h
  by_cases hc : c = '<'
  · subst hc
    rw [startsTag_cons, Bool.or_eq_true] at h
    rcases h with h | h
    · exact Nat.lt_of_lt_of_le (by decide) (matchesAll_length h)
    · exact Nat.lt_of_lt_of_le (by decide) (matchesAll_length h)
  · rw [startsTag_cons_of_ne hc] at h
    cases h

/-- Escaping tags keeps the last character. -/
theorem getLast?_escapeTags (cs : List Char) : (escapeTags cs).getLast? = cs.getLast? := by
  induction cs with
  | nil => rfl
  | cons c cs ih =>
    rw [escapeTags]
    split
    · next h =>
      rw [List.getLast?_cons, getLast?_escapeTagName (length_of_startsTag h), ih,
        List.getLast?_cons]
    · rw [List.getLast?_cons, ih, List.getLast?_cons]

/-- A spelling ends with the plain character that the text ends with. -/
theorem getLast?_webSafe {text : String} {c : Char} (hlast : text.toList.getLast? = some c)
    (hc : isPlain c) : (webSafe text).toList.getLast? = some c := by
  rw [webSafe, String.toList_ofList, webSafeChars, getLast?_escapeTags,
    getLast?_plainText hlast hc]

/-- A spelling that ends with a quotation mark may stand before any text. -/
theorem seals_webSafe {barred : Char → Bool} {text : String} {mark : Char} (hmark : isQuote mark)
    (hlast : text.toList.getLast? = some mark) : Seals barred (webSafe text).toList := by
  have hstop : isPlain mark ∧ stopsTag mark := by
    rcases isQuote_iff.mp hmark with rfl | rfl <;> decide
  have hsafe := isSafe_webSafe text
  simp only [isSafe, Bool.and_eq_true, Bool.not_eq_true'] at hsafe
  exact seals_of_getLast? (getLast?_webSafe hlast hstop.1) hstop.2 hsafe.2

end EcmaPrinter.Text
