import EcmaPrinter.Proofs.Lexical.Numeral

/-!
How one token is read off a text.

`Spelling kind cs v` says that the characters `cs` are a token of the given kind with the value
`v`, and `Stops kind cs rest` that the token does not go on in what follows it.  Under both the
reader takes exactly the token (`readToken_append`).
-/

namespace EcmaPrinter.Lexical

open EcmaPrinter
open EcmaPrinter.Number
open EcmaPrinter.Text

/-! ### Names -/

/-- The text does not go on with a character of a name. -/
def endsName (rest : List Char) : Prop :=
  ∀ c ∈ rest.head?, isIdentifierPart c = false ∧ c ≠ backslash

/-- A name is taken off, up to what does not belong to it. -/
theorem scanName_append {place : NamePlace} {cs out rest : List Char}
    (h : scanName place cs = some (out, [])) (hrest : endsName rest) :
    scanName place (cs ++ rest) = some (out, rest) := by
  induction cs generalizing place out with
  | nil =>
    rw [scanName] at h
    split at h
    · next hplace =>
      obtain rfl : [] = out := by simpa using h
      subst hplace
      cases rest with
      | nil => rfl
      | cons c rest =>
        obtain ⟨hpart, hslash⟩ := hrest c rfl
        simp [scanName, nameStep, fitsName, hpart, hslash]
    · cases h
  | cons c cs ih =>
    rw [scanName] at h
    rw [List.cons_append, scanName]
    split at h
    · next next o hstep =>
      obtain ⟨⟨out', cs'⟩, hscan, heq⟩ := Option.map_eq_some_iff.mp h
      obtain ⟨rfl, rfl⟩ : o ++ out' = out ∧ cs' = [] := by simpa using heq
      rw [ih hscan]
      rfl
    · split at h
      · cases h
      · cases h

/-! ### Strings and templates -/

/-- At rest a character is read as a plain one, but for a line feed behind a carriage return. -/
theorem plainStep_of_step {l : Literal} {place : Place} {c : Char} {r : Place × List Nat}
    (hplace : place.isRest) (hstep : step l place c = some r) :
    plainStep l c = some r ∨ c = '\n' := by
  cases place with
  | plain => exact .inl hstep
  | zero | dollar =>
    simp only [step] at hstep
    split at hstep
    · cases hstep
    · exact .inl hstep
  | carriage =>
    simp only [step] at hstep
    split at hstep
    · next hc => exact .inr (by simpa using hc)
    · exact .inl hstep
  | escape | hex | unit | braced => cases hplace

/-- What a literal may be: a string between quotation marks, or a template. -/
def isProper : Literal → Bool
  | .string mark => isQuote mark
  | .template => true

/-- The first character of a closing mark cannot be read. -/
theorem not_closes_of_step {l : Literal} (hl : isProper l) {place next : Place} {c : Char}
    {us : List Nat} {more : List Char} (hplace : place.isRest)
    (hstep : step l place c = some (next, us))
    (hmore : next = .dollar → more.head? ≠ some '{') : closes l (c :: more) = false := by
  have hplain := plainStep_of_step hplace hstep
  cases l with
  | string mark =>
    have hne : c ≠ mark := by
      rintro rfl
      rcases isQuote_iff.mp hl with rfl | rfl <;> rcases hplain with h | h <;> cases h
    simpa [closes] using hne
  | template =>
    have hne : c ≠ '\x60' := by
      rintro rfl
      rcases hplain with h | h <;> cases h
    have hdollar : c = '$' → more.head? ≠ some '{' := by
      rintro rfl
      rcases hplain with h | h
      · cases h
        exact hmore rfl
      · cases h
    have hmark : ['$', '{'].isPrefixOf (c :: more) = false := by
      cases more with
      | nil => exact Bool.and_false _
      | cons d more =>
        by_contra htrue
        obtain ⟨rfl, rfl⟩ : '$' = c ∧ '{' = d := by simpa using htrue
        exact hdollar rfl rfl
    simp [closes, hmark, hne]

/-- No closing mark starts with a brace. -/
theorem head?_ne_brace_of_closes {l : Literal} (hl : isProper l) {rest : List Char}
    (h : closes l rest) : rest.head? ≠ some '{' := by
  intro hhead
  cases rest with
  | nil => cases hhead
  | cons c rest =>
    obtain rfl : c = '{' := by simpa using hhead
    cases l with
    | string mark =>
      obtain rfl : '{' = mark := by simpa [closes] using h
      cases hl
    | template => simp [closes] at h

/-- A literal that can be read further is not closed, not even together with what follows it. -/
theorem not_closes_of_cook {l : Literal} (hl : isProper l) {place : Place} {c : Char}
    {body rest : List Char} {r : Place × List Nat} (hplace : place.isRest)
    (h : cook l place (c :: body) = some r) (hclose : closes l rest) :
    closes l (c :: (body ++ rest)) = false := by
  obtain ⟨final, us⟩ := r
  obtain ⟨next, vs, ws, hstep, hcook, -⟩ := cook_cons_eq_some h
  refine not_closes_of_step hl hplace hstep fun hnext => ?_
  subst hnext
  cases body with
  | nil => exact head?_ne_brace_of_closes hl hclose
  | cons d body =>
    intro hd
    obtain rfl : d = '{' := by simpa using hd
    cases hcook

/-- A literal is taken off up to its closing mark. -/
theorem scanLiteral_append {l : Literal} (hl : isProper l) {place final : Place}
    {body rest : List Char} {us : List Nat} (h : cook l place body = some (final, us))
    (hfinal : final.isRest) (hclose : closes l rest) :
    scanLiteral l place (body ++ rest) = some (us, rest) := by
  induction body generalizing place us with
  | nil =>
    obtain ⟨rfl, rfl⟩ : place = final ∧ [] = us := by simpa using h
    cases rest with
    | nil => cases l <;> cases hclose
    | cons c rest => simp [scanLiteral, hfinal, hclose]
  | cons c body ih =>
    have hopen : (place.isRest && closes l (c :: (body ++ rest))) = false := by
      rcases hplace : place.isRest with - | -
      · rfl
      · exact not_closes_of_cook hl hplace h hclose
    obtain ⟨next, vs, ws, hstep, hcook, rfl⟩ := cook_cons_eq_some h
    rw [List.cons_append, scanLiteral, hopen, hstep]
    simp [ih hcook]

/-! ### Regular expressions -/

/-- The characters between the slashes of a regular expression. -/
structure IsPattern (body : List Char) : Prop where
  nonempty : body ≠ []
  star : body.head? ≠ some '*'
  ends : scanPattern {} (body ++ ['/']) = some []

theorem scanPattern_append {place : PatternPlace} {cs : List Char}
    (h : scanPattern place cs = some []) (rest : List Char) :
    scanPattern place (cs ++ rest) = some rest := by
  induction cs generalizing place with
  | nil => cases h
  | cons c cs ih =>
    rw [scanPattern] at h
    rw [List.cons_append, scanPattern]
    split
    · next hend =>
      rw [if_pos hend] at h
      obtain rfl : cs = [] := by simpa using h
      rfl
    · next hgo =>
      rw [if_neg hgo] at h
      obtain ⟨next, hnext, hscan⟩ := Option.bind_eq_some_iff.mp h
      rw [hnext]
      exact ih hscan

/-- A regular expression is taken off with its flags. -/
theorem scanRegExp_append {body flags rest : List Char} (h : IsPattern body)
    (hflags : flags.all isIdentifierPart)
    (hrest : rest.head?.any isIdentifierPart = false) :
    scanRegExp ('/' :: (body ++ '/' :: (flags ++ rest))) = some rest := by
  have hscan := scanPattern_append h.ends (flags ++ rest)
  rw [List.append_assoc, List.singleton_append] at hscan
  rw [scanRegExp, hscan, Option.map_some, List.dropWhile_append_of_pos (List.all_eq_true.mp hflags)]
  cases rest with
  | nil => rfl
  | cons c rest =>
    have hc : isIdentifierPart c = false := by simpa using hrest
    simp [hc]

/-- A regular expression does not start as a comment. -/
theorem IsPattern.head_ne {c : Char} {body : List Char} (h : IsPattern (c :: body)) :
    c ≠ '/' ∧ c ≠ '*' := by
  constructor
  · rintro rfl
    have hends := h.ends
    simp [scanPattern, PatternPlace.isRest] at hends
  · rintro rfl
    exact h.star rfl

/-! ### Punctuators -/

/-- Does the character make a longer token, or something else, of the punctuator before it? -/
def extendsTo (t : List Char) (c : Char) : Bool :=
  punctuators.any ((t ++ [c]).isPrefixOf ·) || (t == ['/'] && (c == '/' || c == '*')) ||
    (t == ['.'] && c.isDigit)

theorem length_le_of_pairwise : punctuators.Pairwise fun u t => t.length ≤ u.length := by
  decide

/-- The longest punctuator is found. -/
theorem longestPunctuator_append {t rest : List Char} (ht : t ∈ punctuators)
    (hrest : ∀ c ∈ rest.head?, extendsTo t c = false) :
    longestPunctuator (t ++ rest) = some t := by
  have hmatch : t.isPrefixOf (t ++ rest) := by simp
  obtain ⟨u, hu⟩ : ∃ u, longestPunctuator (t ++ rest) = some u :=
    Option.isSome_iff_exists.mp (List.find?_isSome.mpr ⟨t, ht, hmatch⟩)
  obtain ⟨hleads, earlier, later, hsplit, hearlier⟩ := List.find?_eq_some_iff_append.mp hu
  have hleads : u <+: t ++ rest := by simpa using hleads
  have hlen : t.length ≤ u.length := by
    -- the table is ordered by length, and nothing before the hit fits
    have hsorted := length_le_of_pairwise
    rw [hsplit] at ht hsorted
    rcases List.mem_append.mp ht with hmem | hmem
    · have hnot := hearlier t hmem
      rw [hmatch] at hnot
      cases hnot
    · rcases List.mem_cons.mp hmem with rfl | hmem
      · exact Nat.le_refl _
      · exact (List.pairwise_cons.mp (List.pairwise_append.mp hsorted).2.1).1 t hmem
  obtain ⟨w, rfl⟩ : t <+: u :=
    List.prefix_of_prefix_length_le (List.prefix_append t rest) hleads hlen
  obtain ⟨more, rfl⟩ : w <+: rest := (List.prefix_append_right_inj t).mp hleads
  cases w with
  | nil => rwa [List.append_nil] at hu
  | cons c w =>
    have hmem : t ++ c :: w ∈ punctuators := List.mem_of_find?_eq_some hu
    have hextends : extendsTo t c := by
      have hany : punctuators.any ((t ++ [c]).isPrefixOf ·) :=
        List.any_eq_true.mpr ⟨_, hmem, by simp⟩
      simp [extendsTo, hany]
    rw [hrest c rfl] at hextends
    cases hextends

/-! ### Blanks and comments before a token -/

/-- Nothing is skipped before a character that is no blank and starts no comment. -/
theorem skip_eq_self {c : Char} {cs : List Char} (hline : isLineEnd c = false)
    (hspace : isSpace c = false) (hslash : c = '/' → ∀ d ∈ cs.head?, d ≠ '/' ∧ d ≠ '*')
    (hmarkup : c = '<' → ['!', '-', '-'].isPrefixOf cs = false) :
    skip (.blank false) (c :: cs) = some (c :: cs) := by
  have hcomment : ∀ d, d = '/' ∨ d = '*' → ['/', d].isPrefixOf (c :: cs) = false := by
    intro d hd
    by_contra htrue
    cases cs with
    | nil => simp [List.isPrefixOf] at htrue
    | cons e cs =>
      obtain ⟨rfl, rfl⟩ : '/' = c ∧ d = e := by simpa using htrue
      obtain ⟨h₁, h₂⟩ := hslash rfl d rfl
      rcases hd with rfl | rfl <;> contradiction
  have hopen : ['<', '!', '-', '-'].isPrefixOf (c :: cs) = false := by
    by_contra htrue
    obtain ⟨rfl, htail⟩ : '<' = c ∧ ['!', '-', '-'].isPrefixOf cs := by
      simpa [List.isPrefixOf] using htrue
    rw [hmarkup rfl] at htail
    cases htail
  have hstart : startsLineComment false (c :: cs) = false := by
    simp only [startsLineComment, hcomment '/' (.inl rfl), hopen]
    rfl
  simp only [skip, hline, hspace, hstart, hcomment '*' (.inr rfl)]
  rfl

theorem skip_blank (cs : List Char) : skip (.blank false) (' ' :: cs) = skip (.blank false) cs :=
  rfl

/-- The blanks and line ends beyond ASCII. -/
def farBlanks : List Nat :=
  [0xa0, 0x1680, 0x2000, 0x2001, 0x2002, 0x2003, 0x2004, 0x2005, 0x2006, 0x2007, 0x2008, 0x2009,
   0x200a, 0x2028, 0x2029, 0x202f, 0x205f, 0x3000, 0xfeff]

theorem mem_farBlanks {c : Char} (hc : isAscii c = false) (h : isLineEnd c ∨ isSpace c) :
    c.toNat ∈ farBlanks := by
  have hlarge : 128 ≤ c.toNat := by simpa [isAscii] using hc
  rcases h with h | h
  · simp only [isLineEnd, isSeparatorLine, Bool.or_eq_true, beq_iff_eq] at h
    rcases h with (rfl | rfl) | (rfl | rfl)
    · simp at hlarge
    · simp at hlarge
    · decide
    · decide
  · simp [isSpace, farBlanks] at h ⊢
    omega

/-- No name starts with a blank. -/
theorem not_blank_of_isIdentifierStart {c : Char} (h : isIdentifierStart c) :
    isLineEnd c = false ∧ isSpace c = false := by
  rcases hc : isAscii c with - | -
  · have hletter : isAlphabetic c := by simpa [isIdentifierStart, hc] using h
    have hfar : ∀ n ∈ farBlanks, inRanges Alphabetic.ranges n = false := by decide +kernel
    have hnot : ¬(isLineEnd c ∨ isSpace c) := by
      intro hblank
      have := hfar _ (mem_farBlanks hc hblank)
      rw [isAlphabetic, this] at hletter
      cases hletter
    simpa using hnot
  · exact forall_ascii
      (P := fun c => isIdentifierStart c → isLineEnd c = false ∧ isSpace c = false)
      (by decide) hc h

/-! ### Tokens -/

/-- The kinds of tokens, told apart by how they are read. -/
inductive Kind where
  | word
  | number
  | string
  | regExp
  | punctuator
  /-- The mark of a substitution in a template. -/
  | substitution
  /-- A stretch of text in a template. -/
  | chunk
  deriving DecidableEq, Repr

/-- The goal under which a token is read. -/
def Kind.goal : Kind → Goal
  | .regExp => .regExp
  | .substitution | .chunk => .template
  | _ => .div

/-- The characters are a token of this kind with this value. -/
inductive Spelling : Kind → List Char → Value → Prop
  | word {cs out : List Char} (h : scanName (.part true) cs = some (out, [])) :
      Spelling .word cs (.name out)
  | number {cs : List Char} {q : Rat} (h : Spells q cs) : Spelling .number cs (.number q)
  | string {mark : Char} {body : List Char} {us : List Nat} (hmark : isQuote mark)
      (h : cooked? (.string mark) body = some us) :
      Spelling .string (mark :: (body ++ [mark])) (.text us)
  | regExp {body flags : List Char} (hbody : IsPattern body)
      (hflags : flags.all isIdentifierPart) :
      Spelling .regExp ('/' :: (body ++ '/' :: flags)) (.regExp ('/' :: (body ++ '/' :: flags)))
  | punctuator {t : List Char} (h : t ∈ punctuators) : Spelling .punctuator t (.punctuator t)
  | substitution : Spelling .substitution ['$', '{'] (.punctuator ['$', '{'])
  | chunk {cs : List Char} {us : List Nat} (hne : cs ≠ [])
      (h : cooked? .template cs = some us) : Spelling .chunk cs (.text us)

/-- Would the character, directly behind the token, be read as part of it? -/
def goesOn (cs : List Char) (c : Char) : Kind → Bool
  | .word => isIdentifierPart c || c == backslash
  | .number => spoilsNumber c || (cs.all Char.isDigit && c == '.')
  | .regExp => isIdentifierPart c
  | .punctuator => extendsTo cs c
  | .string | .substitution | .chunk => false

/-- The token does not go on in the text behind it. -/
structure Stops (kind : Kind) (cs rest : List Char) : Prop where
  next : ∀ c ∈ rest.head?, goesOn cs c kind = false
  markup : kind = .punctuator → cs = ['<'] → ['!', '-', '-'].isPrefixOf rest = false
  closes : kind = .chunk → closes .template rest

theorem taken_append (cs rest : List Char) : taken (cs ++ rest) rest = cs := by
  simp [taken]

/-- The first character of a name. -/
theorem scanName_first {cs out : List Char} (h : scanName (.part true) cs = some (out, [])) :
    ∃ c tail, cs = c :: tail ∧ (isIdentifierStart c ∨ c = backslash) := by
  cases cs with
  | nil => cases h
  | cons c tail =>
    refine ⟨c, tail, rfl, ?_⟩
    by_contra hnot
    push Not at hnot
    simp [scanName, nameStep, fitsName, hnot.1, hnot.2] at h

/-- Can the character start nothing but a punctuator or a comment? -/
def isMark (c : Char) : Bool :=
  !isIdentifierStart c && c != backslash && !c.isDigit && !isQuote c && !isLineEnd c && !isSpace c

/-- Punctuators that start as a comment or a number would are known. -/
theorem punctuator_first {t : List Char} (h : t ∈ punctuators) :
    ∃ c tail, t = c :: tail ∧ isMark c ∧ (c = '/' → tail = [] ∨ tail = ['=']) ∧
      (c = '<' → tail = [] ∨ tail.head? ≠ some '!' ∧ tail ≠ []) ∧
        (c = '.' → tail = [] ∨ tail = ['.', '.']) := by
  have hall : ∀ t ∈ punctuators, t ≠ [] ∧
      isMark (t.headD ' ') ∧ (t.headD ' ' = '/' → t.tail = [] ∨ t.tail = ['=']) ∧
      (t.headD ' ' = '<' → t.tail = [] ∨ t.tail.head? ≠ some '!' ∧ t.tail ≠ []) ∧
        (t.headD ' ' = '.' → t.tail = [] ∨ t.tail = ['.', '.']) := by
    decide
  obtain ⟨hne, hc⟩ := hall t h
  obtain ⟨c, tail, rfl⟩ := List.exists_cons_of_ne_nil hne
  exact ⟨c, tail, rfl, hc⟩

/-- A number starts with a digit or a point. -/
theorem Spells.first {q : Rat} {cs : List Char} (h : Spells q cs) :
    ∃ c tail, cs = c :: tail ∧ (c.isDigit ∨ c = '.') := by
  have hstarts : startsNumber (cs ++ []) := h.startsNumber_append
  rw [List.append_nil] at hstarts
  unfold startsNumber at hstarts
  split at hstarts
  · exact ⟨_, _, rfl, .inr rfl⟩
  · exact ⟨_, _, rfl, .inl hstarts⟩
  · cases hstarts

/-- A character that starts no comment and is no blank. -/
theorem skip_of_isFirst {c : Char} (hline : isLineEnd c = false) (hspace : isSpace c = false)
    (hslash : c ≠ '/') (hmarkup : c ≠ '<') (cs : List Char) :
    skip (.blank false) (c :: cs) = some (c :: cs) :=
  skip_eq_self hline hspace (fun h => absurd h hslash) fun h => absurd h hmarkup

theorem skip_number {c : Char} (hc : c.isDigit ∨ c = '.') (cs : List Char) :
    skip (.blank false) (c :: cs) = some (c :: cs) := by
  rcases hc with hc | rfl
  · have hblank : isLineEnd c = false ∧ isSpace c = false ∧ c ≠ '/' ∧ c ≠ '<' :=
      forall_ascii (P := fun c => c.isDigit →
        isLineEnd c = false ∧ isSpace c = false ∧ c ≠ '/' ∧ c ≠ '<')
        (by decide) (isAscii_of_isDigit hc) hc
    exact skip_of_isFirst hblank.1 hblank.2.1 hblank.2.2.1 hblank.2.2.2 _
  · exact skip_of_isFirst rfl rfl (by decide) (by decide) _

variable {kind : Kind} {cs rest : List Char} {v : Value}

/-- Nothing is skipped before a token. -/
theorem skip_append (h : Spelling kind cs v) (hgoal : kind.goal ≠ .template)
    (hstop : Stops kind cs rest) :
    skip (.blank false) (cs ++ rest) = some (cs ++ rest) := by
  cases h with
  | word h =>
    obtain ⟨c, tail, rfl, hc | rfl⟩ := scanName_first h
    · obtain ⟨hline, hspace⟩ := not_blank_of_isIdentifierStart hc
      refine skip_of_isFirst hline hspace ?_ ?_ _
      · rintro rfl
        cases hc
      · rintro rfl
        cases hc
    · exact skip_of_isFirst rfl rfl (by decide) (by decide) _
  | number h =>
    obtain ⟨c, tail, rfl, hc⟩ := h.first
    exact skip_number hc _
  | string hmark h =>
    rcases isQuote_iff.mp hmark with rfl | rfl
    · exact skip_of_isFirst rfl rfl (by decide) (by decide) _
    · exact skip_of_isFirst rfl rfl (by decide) (by decide) _
  | @regExp body flags hbody hflags =>
    obtain ⟨d, body, rfl⟩ := List.exists_cons_of_ne_nil hbody.nonempty
    refine skip_eq_self rfl rfl (fun _ e he => ?_) fun h => absurd h (by decide)
    obtain rfl : d = e := by simpa using he
    exact hbody.head_ne
  | punctuator h =>
    have hextends := hstop.next
    have hmarkup := hstop.markup rfl
    obtain ⟨c, tail, rfl, hmark, hslash, hless, -⟩ := punctuator_first h
    have hblank : isLineEnd c = false ∧ isSpace c = false := by
      simp only [isMark, Bool.and_eq_true, Bool.not_eq_true'] at hmark
      exact ⟨hmark.1.2, hmark.2⟩
    refine skip_eq_self hblank.1 hblank.2 ?_ ?_
    · rintro rfl d hd
      rcases hslash rfl with rfl | rfl
      · have hd' := hextends d hd
        constructor
        · rintro rfl
          cases hd'
        · rintro rfl
          cases hd'
      · obtain rfl : '=' = d := by simpa using hd
        decide
    · rintro rfl
      rcases hless rfl with rfl | ⟨hhead, hne⟩
      · exact hmarkup rfl
      · obtain ⟨d, tail, rfl⟩ := List.exists_cons_of_ne_nil hne
        by_contra htrue
        obtain rfl : '!' = d := by
          simp [List.isPrefixOf] at htrue
          exact htrue.1
        exact hhead rfl
  | substitution => exact absurd rfl hgoal
  | chunk => exact absurd rfl hgoal

/-- The body of a string is taken off up to the quotation mark. -/
theorem scanLiteral_of_cooked? {l : Literal} (hl : isProper l) {body : List Char} {us : List Nat}
    (h : cooked? l body = some us) (hclose : closes l rest) :
    scanLiteral l .plain (body ++ rest) = some (us, rest) := by
  unfold cooked? at h
  split at h
  · next place vs hcook =>
    split at h
    · next hplace =>
      obtain rfl : vs = us := by simpa using h
      exact scanLiteral_append hl hcook hplace hclose
    · cases h
  · cases h

theorem startsNumber_cons {c : Char} (hc : c ≠ '.') (cs : List Char) :
    startsNumber (c :: cs) = c.isDigit := by
  unfold startsNumber
  split
  · next heq => exact absurd (List.cons.inj heq).1 hc
  · next heq =>
    obtain ⟨rfl, -⟩ := List.cons.inj heq
    rfl
  · next heq => cases heq

/-- A point starts a number only before a digit. -/
theorem startsNumber_point {cs : List Char} (h : cs.head?.any Char.isDigit = false) :
    startsNumber ('.' :: cs) = false := by
  cases cs with
  | nil => rfl
  | cons c cs => simpa [startsNumber] using h

theorem startsNumber_punctuator {t : List Char} (h : t ∈ punctuators)
    (hrest : ∀ c ∈ rest.head?, extendsTo t c = false) : startsNumber (t ++ rest) = false := by
  obtain ⟨c, tail, rfl, hmark, -, -, hpoint⟩ := punctuator_first h
  by_cases hc : c = '.'
  · subst hc
    rcases hpoint rfl with rfl | rfl
    · refine startsNumber_point ?_
      cases rest with
      | nil => rfl
      | cons d rest =>
        have hd := hrest d rfl
        simp only [extendsTo, Bool.or_eq_false_iff] at hd
        simpa using hd.2
    · rfl
  · rw [List.cons_append, startsNumber_cons hc]
    simp only [isMark, Bool.and_eq_true, Bool.not_eq_true'] at hmark
    exact hmark.1.1.1.2

theorem readValue_number {c : Char} {tail : List Char} {q : Rat} (hc : c.isDigit ∨ c = '.')
    (hstarts : startsNumber (c :: tail)) (hscan : scanNumber (c :: tail) = some (q, rest)) :
    readValue .div (c :: tail) = some (.number q, rest) := by
  have hfirst : (isIdentifierStart c || c == backslash) = false := by
    rcases hc with hc | rfl
    · have hslash : c ≠ backslash := by
        rintro rfl
        cases hc
      simp [(isIdentifierStart_of_isDigit hc).1, hslash]
    · rfl
  simp only [readValue, hfirst, hstarts, hscan]
  rfl

/-- The value of a token outside of templates. -/
theorem readValue_append (h : Spelling kind cs v) (hgoal : kind.goal ≠ .template)
    (hstop : Stops kind cs rest) : readValue kind.goal (cs ++ rest) = some (v, rest) := by
  cases h with
  | @word cs out h =>
    have hscan := scanName_append h fun c hc => by simpa [goesOn] using hstop.next c hc
    obtain ⟨c, tail, rfl, hc⟩ := scanName_first h
    have hfirst : (isIdentifierStart c || c == backslash) = true := by simpa using hc
    rw [List.cons_append] at hscan ⊢
    simp only [readValue, hfirst, hscan]
    rfl
  | @number cs q h =>
    have hscan : scanNumber (cs ++ rest) = some (q, rest) := by
      have hnext := hstop.next
      cases rest with
      | nil => exact h.scanNumber_append rfl nofun
      | cons c rest =>
        obtain ⟨hspoils, hpoint⟩ : spoilsNumber c = false ∧ (cs.all Char.isDigit → c ≠ '.') := by
          simpa [goesOn] using hnext c rfl
        exact h.scanNumber_append (by simpa using hspoils) (by simpa using hpoint)
    have hstarts : startsNumber (cs ++ rest) := h.startsNumber_append
    obtain ⟨c, tail, rfl, hc⟩ := h.first
    exact readValue_number hc hstarts hscan
  | @string mark body us hmark h =>
    have hclose : closes (.string mark) (mark :: rest) := by simp [closes]
    have hl : isProper (.string mark) := hmark
    have hscan := scanLiteral_of_cooked? hl h hclose
    have hfirst : (isIdentifierStart mark || mark == backslash) = false ∧ mark ≠ '.' ∧
        mark.isDigit = false := by
      rcases isQuote_iff.mp hmark with rfl | rfl <;> decide
    have hstarts : startsNumber (mark :: (body ++ mark :: rest)) = false := by
      rw [startsNumber_cons hfirst.2.1, hfirst.2.2]
    rw [List.cons_append, List.append_assoc, List.singleton_append]
    simp only [readValue, hfirst.1, hstarts, hmark, hscan]
    rfl
  | @regExp body flags hbody hflags =>
    have hend : rest.head?.any isIdentifierPart = false := by
      have hnext := hstop.next
      cases rest with
      | nil => rfl
      | cons c rest => exact hnext c rfl
    have hscan := scanRegExp_append hbody hflags hend
    have htext :
        '/' :: (body ++ '/' :: flags) ++ rest = '/' :: (body ++ '/' :: (flags ++ rest)) := by
      simp
    have htaken := taken_append ('/' :: (body ++ '/' :: flags)) rest
    have hstarts : startsNumber ('/' :: (body ++ '/' :: (flags ++ rest))) = false := rfl
    have hfirst : (isIdentifierStart '/' || '/' == backslash) = false := by decide
    have hquote : isQuote '/' = false := by decide
    rw [htext] at htaken ⊢
    simp [readValue, Kind.goal, hfirst, hstarts, hquote, hscan, htaken]
  | @punctuator t h =>
    have hlongest := longestPunctuator_append h hstop.next
    have hstarts := startsNumber_punctuator h hstop.next
    obtain ⟨c, tail, rfl, hmark, -⟩ := punctuator_first h
    obtain ⟨hfirst, hquote⟩ : (isIdentifierStart c || c == backslash) = false ∧
        isQuote c = false := by
      simp only [isMark, Bool.and_eq_true, Bool.not_eq_true', bne_iff_ne] at hmark
      simp [hmark]
    rw [List.cons_append] at hlongest hstarts ⊢
    simp [readValue, Kind.goal, hfirst, hstarts, hquote, hlongest]
  | substitution => exact absurd rfl hgoal
  | chunk => exact absurd rfl hgoal

/-- The value of a token inside a template. -/
theorem readChunk_append (h : Spelling kind cs v) (hgoal : kind.goal = .template)
    (hstop : Stops kind cs rest) : readChunk (cs ++ rest) = some (v, rest) := by
  cases h with
  | substitution => rfl
  | word | number | string | regExp | punctuator => cases hgoal
  | @chunk cs us hne h =>
    have hclose := hstop.closes rfl
    have hl : isProper .template := rfl
    have hscan := scanLiteral_of_cooked? hl h hclose
    have hmark : ['$', '{'].isPrefixOf (cs ++ rest) = false := by
      obtain ⟨c, cs, rfl⟩ := List.exists_cons_of_ne_nil hne
      unfold cooked? at h
      rcases hcook : cook .template .plain (c :: cs) with - | r
      · rw [hcook] at h
        cases h
      · have hopen := not_closes_of_cook hl rfl hcook hclose
        simp only [closes, Bool.or_eq_false_iff] at hopen
        exact hopen.2
    simp [readChunk, hmark, hscan]

/-- A token is read off the text that it starts. -/
theorem readToken_append (h : Spelling kind cs v) (hstop : Stops kind cs rest) :
    readToken kind.goal (cs ++ rest) = some (⟨cs, v⟩, rest) := by
  by_cases hgoal : kind.goal = .template
  · simp [readToken, hgoal, readChunk_append h hgoal hstop, taken_append]
  · simp [readToken, hgoal, skip_append h hgoal hstop, readValue_append h hgoal hstop,
      taken_append]

/-- A number of digits alone is read with the point behind it. -/
theorem readToken_point {q : Rat} (h : Spells q cs) (hdigits : cs.all Char.isDigit)
    (hrest : rest.head?.any spoilsNumber = false) :
    readToken .div (cs ++ '.' :: rest) = some (⟨cs ++ ['.'], .number q⟩, rest) := by
  have hscan := h.scanNumber_point hdigits hrest
  have hstarts : startsNumber (cs ++ '.' :: rest) := h.startsNumber_append
  have htaken : taken (cs ++ '.' :: rest) rest = cs ++ ['.'] := by
    have := taken_append (cs ++ ['.']) rest
    rwa [List.append_assoc, List.singleton_append] at this
  obtain ⟨c, tail, rfl, hc⟩ := h.first
  rw [List.cons_append] at hscan hstarts htaken ⊢
  simp [readToken, skip_number hc, readValue_number hc hstarts hscan, htaken]

/-- A blank before a token does not count outside of templates. -/
theorem readToken_blank {goal : Goal} (hgoal : goal ≠ .template) (cs : List Char) :
    readToken goal (' ' :: cs) = readToken goal cs := by
  simp only [readToken, hgoal, if_false, skip_blank]

end EcmaPrinter.Lexical
