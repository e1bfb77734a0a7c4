import EcmaPrinter.Proofs.Text.Seam

/-!
Web-safe spellings keep what a literal stands for.

A spelling replaces characters by escapes that stand for them, and it leaves the escapes of the text
alone.  So a reader that goes through a text and through its spelling is at the same place behind
each of them, with the same units (`cook_plainText`, `cook_escapeTags`).
-/

namespace EcmaPrinter.Text

variable {l : Literal} {place : Place}

/-! ### Reading escapes back -/

theorem hexValue?_hexDigit {n : Nat} (h : n < 16) : hexValue? (hexDigit n) = some n := by
  have hall : ∀ n < 16, hexValue? (hexDigit n) = some n := by decide
  exact hall n h

/-- An escape with two digits stands for its character. -/
theorem cook_byteEscape (hplace : place.isRest) {c : Char} (hc : c.toNat < 256) :
    cook l place (byteEscape c) = some (.plain, [c.toNat]) := by
  have hhigh := hexValue?_hexDigit (Nat.mod_lt (c.toNat / 16) (by decide : 0 < 16))
  have hlow := hexValue?_hexDigit (Nat.mod_lt c.toNat (by decide : 0 < 16))
  have hvalue : 16 * (c.toNat / 16 % 16) + c.toNat % 16 = c.toNat := by omega
  rw [byteEscape, cook_cons (step_backslash_of_isRest hplace l)]
  simp [hexPlaces, cook, step, escapeStep, hexStep, isLineEnd, isSeparatorLine, hhigh, hlow, hvalue]

/-- An escape with four digits stands for its unit. -/
theorem cook_unitEscape (hplace : place.isRest) {unit : Nat} (hunit : unit < 0x10000) :
    cook l place (unitEscape unit) = some (.plain, [unit]) := by
  have hdigit (n : Nat) := hexValue?_hexDigit (Nat.mod_lt n (by decide : 0 < 16))
  have hne (n : Nat) : hexDigit (n % 16) ≠ '{' := by
    intro heq
    have hsome := hdigit n
    rw [heq] at hsome
    cases hsome
  have hvalue : 16 * (16 * (16 * (unit / 16 / 16 / 16 % 16) + unit / 16 / 16 % 16) +
      unit / 16 % 16) + unit % 16 = unit := by omega
  rw [unitEscape, cook_cons (step_backslash_of_isRest hplace l)]
  simp [hexPlaces, cook, step, escapeStep, hexStep, isLineEnd, isSeparatorLine, hdigit, hne, hvalue]

/-- The escape of a character stands for the character. -/
theorem cook_plainEscape (hplace : place.isRest) (c : Char) :
    cook l place (plainEscape c) = some (.plain, utf16Units c) := by
  unfold plainEscape
  split
  · next hc =>
    obtain rfl := beq_iff_eq.mp hc
    exact cook_byteEscape hplace (by decide)
  · rw [utf16Units_eq, codeUnits]
    split
    · next hlt => simpa using cook_unitEscape hplace hlt
    · have hvalid := toNat_valid c
      have hhigh : 0xD800 + (c.toNat - 0x10000) / 0x400 < 0x10000 := by omega
      have hlow : 0xDC00 + (c.toNat - 0x10000) % 0x400 < 0x10000 := by omega
      rw [List.flatMap_cons, List.flatMap_singleton, cook_append (cook_unitEscape hplace hhigh),
        cook_unitEscape rfl hlow]
      rfl

/-! ### Plain characters -/

theorem cases_of_not_isPlain {c : Char} (hc : isPlain c = false) :
    128 ≤ c.toNat ∨ c = '\x00' := by
  rcases Nat.lt_or_ge c.toNat 128 with hlt | hge
  · exact .inr (by simpa [isPlain, isAscii, hlt] using hc)
  · exact .inl hge

/-- Hexadecimal digits are plain. -/
theorem hexValue?_of_not_isPlain {c : Char} (hc : isPlain c = false) : hexValue? c = none := by
  rcases cases_of_not_isPlain hc with hge | rfl
  · have hle : ∀ d : Char, d.toNat < 128 → ¬c ≤ d := by
      intro d hd hle
      have hle : c.toNat ≤ d.toNat := hle
      omega
    simp [hexValue?, hle '9' (by decide), hle 'f' (by decide), hle 'F' (by decide)]
  · rfl

theorem isDigit_of_not_isPlain {c : Char} (hc : isPlain c = false) : c.isDigit = false := by
  rcases cases_of_not_isPlain hc with hge | rfl
  · rw [Bool.eq_false_iff]
    intro hdigit
    simp only [Char.isDigit, Bool.and_eq_true, decide_eq_true_eq] at hdigit
    have hle : c.toNat ≤ 57 := hdigit.2
    omega
  · rfl

/-- Most characters outside of escapes stand for themselves. -/
theorem plainStep_eq_some {c : Char} {next : Place} {us : List Nat}
    (hstep : plainStep l c = some (next, us)) (hback : c ≠ backslash) (hdollar : c ≠ '$')
    (hreturn : c ≠ '\r') : next = .plain ∧ us = utf16Units c := by
  unfold plainStep at hstep
  rw [if_neg (by simpa using hback)] at hstep
  cases l with
  | string mark =>
    simp only at hstep
    split at hstep
    · cases hstep
    · cases hstep
      exact ⟨rfl, rfl⟩
  | template =>
    simp only [beq_iff_eq, hdollar, hreturn, if_false] at hstep
    split at hstep
    · cases hstep
    · cases hstep
      exact ⟨rfl, rfl⟩

/-- A character that is not plain is in no escape, but directly behind a backslash. -/
theorem step_of_not_isPlain {c : Char} {next : Place} {us : List Nat} (hc : isPlain c = false)
    (hplace : place ≠ .escape) (hstep : step l place c = some (next, us)) :
    place.isRest ∧ next = .plain ∧ us = utf16Units c := by
  have hne : ∀ d, isPlain d → c ≠ d := by
    rintro d hd rfl
    rw [hd] at hc
    cases hc
  have hhex := hexValue?_of_not_isPlain hc
  have hplain : plainStep l c = some (next, us) → next = .plain ∧ us = utf16Units c :=
    fun h => plainStep_eq_some h (hne _ (by decide)) (hne _ (by decide)) (hne _ (by decide))
  cases place with
  | escape => exact absurd rfl hplace
  | plain => exact ⟨rfl, hplain hstep⟩
  | zero =>
    simp only [step] at hstep
    split at hstep
    · cases hstep
    · exact ⟨rfl, hplain hstep⟩
  | dollar =>
    simp only [step] at hstep
    split at hstep
    · cases hstep
    · exact ⟨rfl, hplain hstep⟩
  | carriage =>
    rw [step, if_neg (by simpa using hne '\n' (by decide))] at hstep
    exact ⟨rfl, hplain hstep⟩
  | hex missing value => simp [step, hexStep, hhex] at hstep
  | unit =>
    rw [step, if_neg (by simpa using hne '{' (by decide))] at hstep
    simp [hexStep, hhex] at hstep
  | braced value? =>
    rw [step, bracedStep, if_neg (by simpa using hne '}' (by decide)), hhex] at hstep
    cases hstep

/-- Behind a backslash, it stands for itself, unless it ends a line. -/
theorem escapeStep_of_not_isPlain {c : Char} (hc : isPlain c = false)
    (hline : isSeparatorLine c = false) : escapeStep c = some (.plain, utf16Units c) := by
  have hne : ∀ d, isPlain d → c ≠ d := by
    rintro d hd rfl
    rw [hd] at hc
    cases hc
  simp [escapeStep, letterUnits, isLineEnd, hline, isDigit_of_not_isPlain hc, hne '\r' (by decide),
    hne '\n' (by decide), hne '0' (by decide), hne 'x' (by decide), hne 'u' (by decide),
    hne 'b' (by decide), hne 't' (by decide), hne 'n' (by decide), hne 'v' (by decide),
    hne 'f' (by decide), hne 'r' (by decide)]

/-- A character is spelled by something that stands for it. -/
theorem cook_plainSpelling {c : Char} {next : Place} {us : List Nat} (hplace : place ≠ .escape)
    (hstep : step l place c = some (next, us)) :
    cook l place (plainSpelling c) = some (next, us) := by
  unfold plainSpelling
  split
  · rw [cook_cons hstep]
    simp
  · next hc =>
    obtain ⟨hrest, rfl, rfl⟩ := step_of_not_isPlain (by simpa using hc) hplace hstep
    exact cook_plainEscape hrest c

theorem cook_escapedSpelling (hplace : place.isRest) {c : Char} {next : Place} {us : List Nat}
    (hstep : escapeStep c = some (next, us)) :
    cook l place (escapedSpelling c) = some (next, us) := by
  have hback (d : Char) (hd : escapeStep d = some (next, us)) :
      cook l place [backslash, d] = some (next, us) := by
    have hd : step l .escape d = some (next, us) := hd
    rw [cook_cons (step_backslash_of_isRest hplace l), cook_cons hd]
    simp
  unfold escapedSpelling
  split
  · next hline =>
    refine hback '\n' ?_
    rw [← hstep]
    simp only [isSeparatorLine, Bool.or_eq_true, beq_iff_eq] at hline
    rcases hline with rfl | rfl <;> rfl
  · next hline =>
    split
    · exact hback c hstep
    · next hc =>
      rw [escapeStep_of_not_isPlain (by simpa using hc) (by simpa using hline)] at hstep
      cases hstep
      exact cook_plainEscape hplace c

/-- Escaping characters keeps what they stand for. -/
theorem cook_plainText {cs : List Char} {final : Place} {us : List Nat} (hplace : place ≠ .escape)
    (h : cook l place cs = some (final, us)) : cook l place (plainText cs) = some (final, us) := by
  induction cs using plainText.induct generalizing place us with
  | case1 => exact h
  | case2 c =>
    obtain ⟨next, vs, ws, hstep, hcook, rfl⟩ := cook_cons_eq_some h
    cases hcook
    simpa [plainText] using cook_plainSpelling hplace hstep
  | case3 c d rest hc ih =>
    obtain rfl := beq_iff_eq.mp hc
    obtain ⟨next, vs, ws, hstep, hcook, rfl⟩ := cook_cons_eq_some h
    obtain ⟨hrest, heq⟩ := step_backslash hstep hplace
    cases heq
    obtain ⟨next, vs, ws, hescape, hrestCook, rfl⟩ := cook_cons_eq_some hcook
    have ih := ih (next_ne_escape hescape (.inr rfl)) hrestCook
    simp only [plainText, beq_self_eq_true, if_true]
    rw [cook_append (cook_escapedSpelling hrest hescape), ih]
    rfl
  | case4 c d rest hc ih =>
    have hne : c ≠ backslash := by simpa using hc
    obtain ⟨next, vs, ws, hstep, hcook, rfl⟩ := cook_cons_eq_some h
    have ih := ih (next_ne_escape hstep (.inl hne)) hcook
    rw [plainText_cons hne, cook_append (cook_plainSpelling hplace hstep), ih]
    rfl

/-- A text that does not end inside an escape is spelled by itself. -/
theorem plainText_append {cs : List Char} {final : Place} {us : List Nat} (hplace : place ≠ .escape)
    (h : cook l place cs = some (final, us)) (hfinal : final ≠ .escape) (ds : List Char) :
    plainText (cs ++ ds) = plainText cs ++ plainText ds := by
  induction cs using plainText.induct generalizing place us with
  | case1 => rfl
  | case2 c =>
    obtain ⟨next, vs, ws, hstep, hcook, rfl⟩ := cook_cons_eq_some h
    cases hcook
    have hne : c ≠ backslash := by
      rintro rfl
      cases (step_backslash hstep hplace).2
      exact hfinal rfl
    rw [List.singleton_append, plainText_cons hne]
    simp [plainText]
  | case3 c d rest hc ih =>
    obtain rfl := beq_iff_eq.mp hc
    obtain ⟨next, vs, ws, hstep, hcook, rfl⟩ := cook_cons_eq_some h
    cases (step_backslash hstep hplace).2
    obtain ⟨next, vs, ws, hescape, hrestCook, rfl⟩ := cook_cons_eq_some hcook
    have ih := ih (next_ne_escape hescape (.inr rfl)) hrestCook
    simp [plainText, ih]
  | case4 c d rest hc ih =>
    have hne : c ≠ backslash := by simpa using hc
    obtain ⟨next, vs, ws, hstep, hcook, rfl⟩ := cook_cons_eq_some h
    have ih := ih (next_ne_escape hstep (.inl hne)) hcook
    rw [List.cons_append, plainText_cons hne, ih, plainText_cons hne, List.append_assoc]

/-! ### Tags -/

/-- Behind a `<` no escape goes on. -/
theorem step_lt {next : Place} {us : List Nat} (hstep : step l place '<' = some (next, us)) :
    next = .plain := by
  have hplain : plainStep l '<' = some (next, us) → next = .plain :=
    fun h => (plainStep_eq_some h (by decide) (by decide) (by decide)).1
  cases place with
  | escape =>
    cases hstep
    rfl
  | plain | zero | dollar | carriage => exact hplain hstep
  | hex | unit | braced => cases hstep

/-- The first letter of a name stands for itself, and so does its escape. -/
theorem cook_byteEscape_append {c : Char} (hc : c.toLower = 's') {cs : List Char}
    {r : Place × List Nat} (h : cook l .plain (c :: cs) = some r) :
    cook l .plain (byteEscape c ++ cs) = some r := by
  have hletter : c = 's' ∨ c = 'S' := by
    by_cases hlower : c = 's'
    · exact .inl hlower
    · exact .inr (Decidable.byContradiction fun hupper => toLower_ne_s hlower hupper hc)
  have hbyte : c.toNat < 256 ∧ utf16Units c = [c.toNat] := by
    rcases hletter with rfl | rfl <;> decide
  have hplain : c ≠ backslash ∧ c ≠ '$' ∧ c ≠ '\r' := by
    rcases hletter with rfl | rfl <;> decide
  obtain ⟨final, us⟩ := r
  obtain ⟨next, vs, ws, hstep, hcook, rfl⟩ := cook_cons_eq_some h
  obtain ⟨rfl, rfl⟩ := plainStep_eq_some hstep hplain.1 hplain.2.1 hplain.2.2
  rw [cook_append (cook_byteEscape rfl hbyte.1), hcook, hbyte.2]
  rfl

theorem cook_escapeTagName {cs : List Char} {r : Place × List Nat}
    (htag : matchesAll tagName cs ∨ matchesAll ((· == '/') :: tagName) cs)
    (h : cook l .plain cs = some r) : cook l .plain (escapeTagName cs) = some r := by
  rcases htag with htag | htag
  · cases cs with
    | nil => cases htag
    | cons c cs =>
      simp only [tagName, matchesAll, Bool.and_eq_true, beq_iff_eq] at htag
      have hslash : c ≠ '/' := by
        rintro rfl
        exact absurd htag.1 (by decide)
      have hescape : escapeTagName (c :: cs) = byteEscape c ++ cs := by
        unfold escapeTagName
        split <;> simp_all
      rw [hescape]
      exact cook_byteEscape_append htag.1 h
  · rcases cs with - | ⟨d, - | ⟨c, cs⟩⟩
    · cases htag
    · simp [tagName, matchesAll] at htag
    · simp only [tagName, matchesAll, Bool.and_eq_true, beq_iff_eq] at htag
      obtain ⟨rfl, htag⟩ := htag
      obtain ⟨final, us⟩ := r
      obtain ⟨next, vs, ws, hstep, hcook, rfl⟩ := cook_cons_eq_some h
      obtain ⟨rfl, -⟩ := plainStep_eq_some hstep (by decide) (by decide) (by decide)
      rw [escapeTagName, cook_cons hstep, cook_byteEscape_append htag.1 hcook]
      rfl

/-- Escaping tags keeps what a text stands for. -/
theorem cook_escapeTags {cs : List Char} {final : Place} {us : List Nat}
    (h : cook l place cs = some (final, us)) : cook l place (escapeTags cs) = some (final, us) := by
  induction cs generalizing place us with
  | nil => exact h
  | cons c cs ih =>
    obtain ⟨next, vs, ws, hstep, hcook, rfl⟩ := cook_cons_eq_some h
    have ih := ih hcook
    rw [escapeTags]
    split
    · next htag =>
      have hc : c = '<' := by
        by_cases hc : c = '<'
        · exact hc
        · rw [startsTag_cons_of_ne hc] at htag
          cases htag
      subst hc
      obtain rfl := step_lt hstep
      rw [← startsTag_cons_escapeTags, startsTag_cons, Bool.or_eq_true] at htag
      rw [cook_cons hstep, cook_escapeTagName htag ih]
      rfl
    · rw [cook_cons hstep, ih]
      rfl

/-! ### Spellings -/

/-- A spelling has the cooked value of its text. -/
theorem cooked?_webSafeChars {cs : List Char} {us : List Nat} (h : cooked? l cs = some us) :
    cooked? l (webSafeChars cs) = some us := by
  unfold cooked? at h ⊢
  split at h
  · next final vs hcook =>
    have hplain : Place.plain ≠ .escape := by decide
    rw [webSafeChars, cook_escapeTags (cook_plainText hplain hcook)]
    exact h
  · cases h

theorem escapeTagName_append {cs : List Char} (h : 2 < cs.length) (ds : List Char) :
    escapeTagName (cs ++ ds) = escapeTagName cs ++ ds := by
  rcases cs with - | ⟨c, - | ⟨d, cs⟩⟩
  · simp at h
  · simp at h
  · by_cases hc : c = '/'
    · subst hc
      simp [escapeTagName]
    · have hescape (rest : List Char) : escapeTagName (c :: rest) = byteEscape c ++ rest := by
        unfold escapeTagName
        split <;> simp_all
      simp [hescape]

/-- A character in no tag makes no difference to the tags before it. -/
theorem escapeTags_append_of_stopsTag {c : Char} (hc : stopsTag c) (cs : List Char) :
    escapeTags (cs ++ [c]) = escapeTags cs ++ [c] := by
  induction cs with
  | nil =>
    have hne : c ≠ '<' := by
      rintro rfl
      cases hc
    simp [escapeTags, startsTag_cons_of_ne hne]
  | cons d cs ih =>
    have hiff : startsTag (d :: (cs ++ [c])) = startsTag (d :: cs) := by
      rw [Bool.eq_iff_iff]
      exact ⟨startsTag_of_append_cons hc, fun h => startsTag_append_right h [c]⟩
    rw [List.cons_append, escapeTags, escapeTags, hiff, ih]
    split
    · next htag => rw [escapeTagName_append (length_of_startsTag htag), List.cons_append]
    · rfl

/-- A literal is spelled between its marks. -/
theorem webSafeChars_quoted {mark : Char} (hmark : isQuote mark) {body : List Char}
    {us : List Nat} (h : cooked? (.string mark) body = some us) :
    webSafeChars (mark :: (body ++ [mark])) = mark :: (webSafeChars body ++ [mark]) := by
  have hplain : isPlain mark ∧ mark ≠ backslash ∧ mark ≠ '<' ∧ stopsTag mark := by
    rcases isQuote_iff.mp hmark with rfl | rfl <;> decide
  obtain ⟨hplain, hback, htag, hstop⟩ := hplain
  unfold cooked? at h
  split at h
  · next final vs hcook =>
    have hfinal : final ≠ .escape := by
      rintro rfl
      cases h
    have happend := plainText_append (by decide) hcook hfinal [mark]
    have hsingle : plainText [mark] = [mark] := by
      simp [plainText, plainSpelling_of_isPlain hplain]
    rw [webSafeChars_cons hplain hback htag, webSafeChars, happend, hsingle,
      escapeTags_append_of_stopsTag hstop, webSafeChars]
  · cases h

/-- A text that is not empty has a spelling that is not. -/
theorem webSafeChars_ne_nil {cs : List Char} (h : cs ≠ []) : webSafeChars cs ≠ [] := by
  have hplain (c : Char) : plainSpelling c ≠ [] := by
    obtain ⟨ds, hds⟩ := exists_plainEscape_eq_cons c
    simp only [plainSpelling, hds]
    split <;> simp
  have hescaped (c : Char) : escapedSpelling c ≠ [] := by
    obtain ⟨ds, hds⟩ := exists_plainEscape_eq_cons c
    simp only [escapedSpelling, hds]
    repeat' split
    all_goals simp
  have htext : plainText cs ≠ [] := by
    fun_cases plainText cs with
    | case1 => exact absurd rfl h
    | case2 c => exact hplain c
    | case3 c d rest => exact fun heq => hescaped d (List.append_eq_nil_iff.mp heq).1
    | case4 c d rest => exact fun heq => hplain c (List.append_eq_nil_iff.mp heq).1
  obtain ⟨c, ds, hds⟩ := List.exists_cons_of_ne_nil htext
  rw [webSafeChars, hds, escapeTags]
  split <;> exact List.cons_ne_nil _ _

end EcmaPrinter.Text
