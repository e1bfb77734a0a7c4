import EcmaPrinter.Proofs.Lexical.Layout
import EcmaPrinter.Proofs.Number.Nearest
import EcmaPrinter.Proofs.Text.Spelled
import Mathlib.Data.List.Basic

/-!
Which tokens stand side by side in emitted code.

What may follow a token depends on little more than how it ends, its `Edge`.  `allows e q` is a
table of what follows what.  It is wide enough for everything that code is made of, and narrow
enough for the spacing of a compact stream: with few exceptions, tokens that follow each other by
the table are `Apart` (`apart_of_allows`).
-/

namespace EcmaPrinter.Lexical

open EcmaPrinter
open EcmaPrinter.Number
open EcmaPrinter.Text

/-! ### Edges -/

/-- How a token ends. -/
inductive Edge where
  /-- An operator that a further character may extend.  The start of the text counts as one. -/
  | operator
  | point
  /-- A name, or the flags of a regular expression. -/
  | word
  | number
  /-- A regular expression without flags. -/
  | slash
  | chunk
  /-- The mark of a template. -/
  | tick
  | brace
  /-- Any other token, which no character extends. -/
  | closed
  deriving DecidableEq, Repr

/-- Punctuators that no character extends. -/
def closedMarks : List (List Char) :=
  ["(", ")", "[", "]", "\x7b", ",", ";", ":", "?", "~", "...", "++", "--"].map String.toList

/-- The edge of a punctuator. -/
def punctuatorEdge (cs : List Char) : Edge :=
  if cs = ['.'] then .point
  else if cs = ['\x60'] then .tick
  else if cs = ['}'] then .brace
  else if cs ∈ closedMarks then .closed
  else .operator

/-- The edge of a token. -/
def edgeOf (p : Piece) : Edge :=
  match kindOf p with
  | .word => .word
  | .number => .number
  | .string | .substitution => .closed
  | .regExp => if (charsOf {} p).getLast? = some '/' then .slash else .word
  | .chunk => .chunk
  | .punctuator => punctuatorEdge (charsOf {} p)

/-- Does the character start an operator that stands between two operands? -/
def startsInfix (c : Char) : Bool :=
  ['=', '>', '<', '*', '&', '|'].contains c

/-- May a punctuator with these characters follow the edge? -/
def allowsPunctuator (e : Edge) (cs : List Char) : Bool :=
  match e with
  | .point => false
  | .chunk => cs == ['\x60']
  | .operator => !cs.head?.any startsInfix && cs != ['.']
  | .number => cs != ['.', '.', '.']
  | _ => true

/-- May the piece follow the edge in emitted code? -/
def allows (e : Edge) (q : Piece) : Bool :=
  match kindOf q with
  | .chunk | .substitution => [.tick, .brace, .chunk].contains e
  | .word => e != .chunk && (e != .slash || (charsOf {} q).head? == some 'i' || q == .token "of")
  | .number => [.operator, .closed, .word, .tick, .brace].contains e
  | .string | .regExp => e != .point && e != .chunk
  | .punctuator => allowsPunctuator e (charsOf {} q)

/-- Numbers are compared by the doubles that they round to. -/
def Stands (p : Piece) (v : Value) : Prop :=
  ∀ x, p = .number x → ∃ q, v = .number q ∧ Double.Rounds q x

/-- A token that ends as its edge says. -/
structure Sound (style : Style) (p : Piece) : Prop where
  reads : ∃ v, Reads style p v ∧ Stands p v
  word : kindOf p = .word → ∀ c ∈ (charsOf style p).getLast?, isIdentifierPart c
  brace : kindOf p ≠ .chunk → charsOf style p = ['}'] → p = .token "\x7d"
  /-- Names are escaped for the web only. -/
  plain : kindOf p = .word → style.webSafe = false → backslash ∉ charsOf style p

/-- Only numbers are written in more than one style. -/
theorem charsOf_eq {p : Piece} (h : kindOf p ≠ .number) (style : Style) :
    charsOf style p = charsOf {} p := by
  cases p with
  | number x => exact absurd rfl h
  | _ => rfl

/-! ### Characters that extend punctuators -/

theorem extendsTo_eq_false_of_mem {t : List Char} (h : t ∈ closedMarks ∨ t = ['\x60'] ∨ t = ['}'])
    (c : Char) : extendsTo t c = false := by
  have hlast : ∀ t ∈ ['\x60'] :: ['}'] :: closedMarks,
      t ≠ ['/'] ∧ t ≠ ['.'] ∧ ∀ u ∈ punctuators, t.isPrefixOf u → u = t := by decide
  obtain ⟨hslash, hpoint, hlast⟩ := hlast t (by simpa [or_comm, or_left_comm, or_assoc] using h)
  have hany : punctuators.any ((t ++ [c]).isPrefixOf ·) = false := by
    by_contra hany
    obtain ⟨u, hu, hleads⟩ := List.any_eq_true.mp (eq_true_of_ne_false hany)
    have hleads : t ++ [c] <+: u := by simpa using hleads
    obtain rfl := hlast u hu (by simpa using (List.prefix_append t [c]).trans hleads)
    have hlength := hleads.length_le
    rw [List.length_append, List.length_singleton] at hlength
    omega
  simp [extendsTo, hany, hslash, hpoint]

/-- A character that extends an operator starts an infix operator, or doubles a character. -/
theorem extendsTo_cases {t : List Char} (ht : t ∈ punctuators) (hpoint : t ≠ ['.']) {c : Char}
    (h : extendsTo t c) : startsInfix c ∨ c ∈ ['+', '-', '/'] ∧ t = [c] := by
  have hmore : ∀ u ∈ punctuators, ∀ c ∈ u.tail, startsInfix c ∨ c ∈ ['+', '-', '.'] :=
    fun u hu => forall_mem_of_all ((by decide : ∀ u ∈ punctuators, u.tail.all fun c =>
      decide (startsInfix c ∨ c ∈ ['+', '-', '.'])) u hu)
  have hdouble : ∀ c ∈ ['+', '-', '.'], ∀ t ∈ punctuators, extendsTo t c → t = [c] :=
    forall_mem_of_all (by decide)
  have hcases := h
  simp only [extendsTo, Bool.or_eq_true, Bool.and_eq_true, beq_iff_eq] at hcases
  rcases hcases with (hany | ⟨rfl, rfl | rfl⟩) | ⟨heq, -⟩
  · obtain ⟨u, hu, hleads⟩ := List.any_eq_true.mp hany
    obtain ⟨more, rfl⟩ : t ++ [c] <+: u := by simpa using hleads
    obtain ⟨d, tail, rfl, -⟩ := punctuator_first ht
    rcases hmore _ hu c (by simp) with hjoins | hc
    · exact .inl hjoins
    · have heq := hdouble c hc _ ht h
      have hne : c ≠ '.' := fun hc => hpoint (hc ▸ heq)
      rcases List.mem_cons.mp hc with rfl | hc
      · exact .inr ⟨by simp, heq⟩
      · rcases List.mem_cons.mp hc with rfl | hc
        · exact .inr ⟨by simp, heq⟩
        · exact absurd (List.mem_singleton.mp hc) hne
  · exact .inr ⟨by decide, rfl⟩
  · exact .inl rfl
  · exact absurd heq hpoint

/-- Behind a point there are no digits and no further points. -/
theorem extendsTo_point {c : Char} (h : isIdentifierStart c ∨ c = backslash) :
    extendsTo ['.'] c = false := by
  by_contra hextends
  have hextends := eq_true_of_ne_false hextends
  have hall : ∀ u ∈ punctuators, ['.'].isPrefixOf u → u.tail.head?.getD '.' = '.' := by decide
  simp only [extendsTo, Bool.or_eq_true, Bool.and_eq_true, beq_iff_eq] at hextends
  rcases hextends with (hany | ⟨heq, -⟩) | ⟨-, hdigit⟩
  · obtain ⟨u, hu, hleads⟩ := List.any_eq_true.mp hany
    obtain ⟨more, rfl⟩ : ['.', c] <+: u := by simpa using hleads
    obtain rfl : c = '.' := hall _ hu (by simp [List.isPrefixOf])
    rcases h with h | h <;> cases h
  · cases heq
  · rcases h with h | rfl
    · rw [(isIdentifierStart_of_isDigit hdigit).1] at h
      cases h
    · cases hdigit

/-! ### Neighbours by the table are apart -/

variable {style : Style} {p q : Piece} {e : Edge}

/-- The marks of a template are known by their edges. -/
theorem chars_of_punctuatorEdge {cs : List Char} :
    (punctuatorEdge cs = .tick → cs = ['\x60']) ∧ (punctuatorEdge cs = .brace → cs = ['}']) := by
  unfold punctuatorEdge
  repeat' split
  all_goals simp_all

/-- Edges inside a template belong to template text and marks. -/
theorem cases_of_edge (h : [.tick, .brace, .chunk].contains (edgeOf p)) (style : Style) :
    kindOf p = .chunk ∨ charsOf style p = ['\x60'] ∨ charsOf style p = ['}'] := by
  unfold edgeOf at h
  split at h
  all_goals try (exact absurd h (by decide))
  · split at h <;> exact absurd h (by decide)
  · next hkind => exact .inl hkind
  · next hkind =>
    rw [charsOf_eq (by rw [hkind]; decide)]
    have hedge :
        punctuatorEdge (charsOf {} p) = .tick ∨ punctuatorEdge (charsOf {} p) = .brace := by
      revert h
      unfold punctuatorEdge
      repeat' split
      all_goals simp
    rcases hedge with hedge | hedge
    · exact .inr (.inl (chars_of_punctuatorEdge.1 hedge))
    · exact .inr (.inr (chars_of_punctuatorEdge.2 hedge))

/-- How a token starts, by its kind. -/
theorem Spelling.head {kind : Kind} {cs : List Char} {v : Value} (h : Spelling kind cs v) {c : Char}
    (hc : cs.head? = some c) :
    kind = .word ∧ (isIdentifierStart c ∨ c = backslash) ∨
      kind = .number ∧ (c.isDigit ∨ c = '.') ∨ kind = .string ∧ isQuote c ∨
        kind = .regExp ∧ c = '/' ∨ kind = .punctuator ∧ cs ∈ punctuators ∨
          kind.goal = .template := by
  cases h with
  | word h =>
    obtain ⟨d, tail, rfl, hd⟩ := scanName_first h
    obtain rfl : d = c := by simpa using hc
    exact .inl ⟨rfl, hd⟩
  | number h =>
    obtain ⟨d, tail, rfl, hd⟩ := h.first
    obtain rfl : d = c := by simpa using hc
    exact .inr (.inl ⟨rfl, hd⟩)
  | @string mark body us hmark h =>
    obtain rfl : mark = c := by simpa using hc
    exact .inr (.inr (.inl ⟨rfl, hmark⟩))
  | regExp hbody hflags =>
    obtain rfl : '/' = c := by simpa using hc
    exact .inr (.inr (.inr (.inl ⟨rfl, rfl⟩)))
  | punctuator h => exact .inr (.inr (.inr (.inr (.inl ⟨rfl, h⟩))))
  | substitution | chunk => exact .inr (.inr (.inr (.inr (.inr rfl))))

/-- Only names, numbers and what stands in templates start with a character of a name. -/
theorem Spelling.kind_of_part {kind : Kind} {cs : List Char} {v : Value} (h : Spelling kind cs v)
    {c : Char} (hc : cs.head? = some c) (hpart : isIdentifierPart c) :
    kind = .word ∨ kind = .number ∨ kind.goal = .template := by
  have hmarks : ∀ t ∈ punctuators, isIdentifierPart (t.headD ' ') = false := by decide
  rcases h.head hc with ⟨hkind, -⟩ | ⟨hkind, -⟩ | ⟨-, hquote⟩ | ⟨-, rfl⟩ | ⟨-, hmem⟩ | hgoal
  · exact .inl hkind
  · exact .inr (.inl hkind)
  · rcases isQuote_iff.mp hquote with rfl | rfl <;> cases hpart
  · cases hpart
  · have hnot := hmarks cs hmem
    rw [List.headD_eq_head?_getD, hc, Option.getD_some, hpart] at hnot
    cases hnot
  · exact .inr (.inr hgoal)

/-- Only punctuators and template text start as infix operators do. -/
theorem Spelling.kind_of_infix {kind : Kind} {cs : List Char} {v : Value} (h : Spelling kind cs v)
    {c : Char} (hc : cs.head? = some c) (hjoins : startsInfix c) :
    kind = .punctuator ∨ kind.goal = .template := by
  have hall : ∀ c ∈ ['=', '>', '<', '*', '&', '|'], isIdentifierStart c = false ∧
      c ≠ backslash ∧ c.isDigit = false ∧ c ≠ '.' ∧ isQuote c = false ∧ c ≠ '/' :=
    forall_mem_of_all (by decide)
  obtain ⟨hstart, hback, hdigit, hpoint, hquote, hslash⟩ :=
    hall c (by simpa [startsInfix] using hjoins)
  rcases h.head hc with ⟨-, h⟩ | ⟨-, h⟩ | ⟨-, h⟩ | ⟨-, h⟩ | ⟨hkind, -⟩ | hgoal
  · simp [hstart, hback] at h
  · simp [hdigit, hpoint] at h
  · simp [hquote] at h
  · exact absurd h hslash
  · exact .inl hkind
  · exact .inr hgoal

theorem merges_of_isIdentifierPart {c d : Char} (hc : isIdentifierPart c)
    (hd : isIdentifierPart d) : Stream.merges c d := by
  simp [Stream.merges, hc, hd]

/-- Which kinds of pieces the table lets follow a number or a regular expression without flags. -/
theorem allows_number (h : allows .number q) :
    (kindOf q).goal ≠ .template ∧ kindOf q ≠ .number ∧
      (kindOf q = .punctuator → charsOf {} q ≠ ['.', '.', '.']) := by
  cases hkind : kindOf q <;> simp_all [allows, Kind.goal, allowsPunctuator]

theorem allows_slash (h : allows .slash q) :
    (kindOf q).goal ≠ .template ∧ kindOf q ≠ .number ∧
      (kindOf q = .word → (charsOf {} q).head? = some 'i' ∨ q = .token "of") := by
  cases hkind : kindOf q <;> simp_all [allows, Kind.goal]

theorem allows_operator (h : allows .operator q) :
    (kindOf q).goal ≠ .template ∧
      (kindOf q = .punctuator →
        charsOf {} q ≠ ['.'] ∧ ∀ c ∈ (charsOf {} q).head?, startsInfix c = false) := by
  cases hkind : kindOf q <;> simp [allows, hkind, allowsPunctuator, Kind.goal] at h ⊢
  refine ⟨h.2, fun c hc => ?_⟩
  rw [hc] at h
  exact h.1

theorem allows_point (h : allows .point q) : kindOf q = .word := by
  cases hkind : kindOf q <;> simp_all [allows, allowsPunctuator]

theorem allows_chunk (h : allows .chunk q) :
    (kindOf q).goal = .template ∨ kindOf q = .punctuator ∧ charsOf {} q = ['\x60'] := by
  cases hkind : kindOf q <;> simp_all [allows, Kind.goal, allowsPunctuator]

/-! Where the first token would go on, the stream writes a blank.  One lemma for each kind. -/

variable {c : Char}

theorem Sound.merges_word (hp : Sound style p) (hkind : kindOf p = .word)
    (hpart : isIdentifierPart c) : ∀ d ∈ (charsOf style p).getLast?, Stream.merges d c := by
  intro d hd
  exact merges_of_isIdentifierPart (hp.word hkind d hd) hpart

theorem Sound.merges_number (hp : Sound style p) (hkind : kindOf p = .number)
    (hpart : isIdentifierPart c) : ∀ d ∈ (charsOf style p).getLast?, Stream.merges d c := by
  obtain ⟨v, hreads, -⟩ := hp.reads
  have hspelling := hreads.spelling
  rw [hkind] at hspelling
  generalize charsOf style p = cs at hspelling
  cases hspelling with
  | number h =>
    intro d hd
    exact merges_of_isIdentifierPart (h.isIdentifierPart_getLast d hd) hpart

theorem Sound.merges_regExp (hp : Sound style p) (hq : Sound style q) (hkind : kindOf p = .regExp)
    (hallows : allows (edgeOf p) q) (hof : edgeOf p = .slash → q ≠ .token "of")
    (hc : (charsOf style q).head? = some c) (hpart : isIdentifierPart c) :
    ∀ d ∈ (charsOf style p).getLast?, Stream.merges d c := by
  intro d hd
  have hchars := charsOf_eq (p := p) (by rw [hkind]; decide) style
  obtain ⟨v, hreads, -⟩ := hp.reads
  obtain ⟨w, hqreads, -⟩ := hq.reads
  by_cases hslash : edgeOf p = .slash
  · -- only `in`, `instanceof` and `of` follow a closing slash
    rw [hslash] at hallows
    obtain ⟨hgoal, hnumber, hword⟩ := allows_slash hallows
    have hlast : d = '/' := by
      simp only [edgeOf, hkind] at hslash
      split at hslash
      · next hlast =>
        rw [hchars, hlast] at hd
        exact (Option.some.inj hd).symm
      · cases hslash
    rcases hqreads.spelling.kind_of_part hc hpart with hq' | hq' | hq'
    · rcases hword hq' with hi | heq
      · rw [charsOf_eq (by rw [hq']; decide), hi] at hc
        obtain rfl := Option.some.inj hc
        subst hlast
        rfl
      · exact absurd heq (hof hslash)
    · exact absurd hq' hnumber
    · exact absurd hq' hgoal
  · have hne : d ≠ '/' := by
      rintro rfl
      refine hslash ?_
      simp only [edgeOf, hkind, ← hchars]
      exact if_pos hd
    have hspelling := hreads.spelling
    rw [hkind] at hspelling
    generalize charsOf style p = cs at hspelling hd
    cases hspelling with
    | @regExp body flags hbody hflags =>
      -- the last character is a flag
      have hmem : d ∈ flags := by
        rw [Option.mem_def, ← List.cons_append,
          List.getLast?_append_of_ne_nil _ (List.cons_ne_nil '/' flags)] at hd
        rcases List.mem_cons.mp (List.mem_of_getLast? hd) with heq | hmem
        · exact absurd heq hne
        · exact hmem
      exact merges_of_isIdentifierPart (List.all_eq_true.mp hflags d hmem) hpart

theorem Sound.merges_punctuator (hp : Sound style p) (hq : Sound style q)
    (hkind : kindOf p = .punctuator) (hallows : allows (edgeOf p) q)
    (hc : (charsOf style q).head? = some c) (hextends : extendsTo (charsOf style p) c) :
    ∀ d ∈ (charsOf style p).getLast?, Stream.merges d c := by
  obtain ⟨v, hreads, -⟩ := hp.reads
  obtain ⟨w, hqreads, -⟩ := hq.reads
  have hedge : edgeOf p = punctuatorEdge (charsOf style p) := by
    rw [charsOf_eq (by rw [hkind]; decide)]
    simp only [edgeOf, hkind]
  have hmem : charsOf style p ∈ punctuators := by
    have hspelling := hreads.spelling
    rw [hkind] at hspelling
    generalize charsOf style p = cs at hspelling
    cases hspelling with
    | punctuator h => exact h
  rw [hedge] at hallows
  generalize charsOf style p = cs at hallows hextends hmem
  unfold punctuatorEdge at hallows
  split at hallows
  · next hpoint =>
    subst hpoint
    have hword := allows_point hallows
    rcases hqreads.spelling.head hc with ⟨-, h⟩ | ⟨h, -⟩ | ⟨h, -⟩ | ⟨h, -⟩ | ⟨h, -⟩ | h
    · rw [extendsTo_point h] at hextends
      cases hextends
    all_goals rw [hword] at h; cases h
  · next hpoint =>
    split at hallows
    · next hmark =>
      rw [extendsTo_eq_false_of_mem (.inr (.inl hmark))] at hextends
      cases hextends
    · split at hallows
      · next hmark =>
        rw [extendsTo_eq_false_of_mem (.inr (.inr hmark))] at hextends
        cases hextends
      · split at hallows
        · next hmark =>
          rw [extendsTo_eq_false_of_mem (.inl hmark)] at hextends
          cases hextends
        · obtain ⟨hgoal, hjoins⟩ := allows_operator hallows
          rcases extendsTo_cases hmem hpoint hextends with h | ⟨hdouble, rfl⟩
          · rcases hqreads.spelling.kind_of_infix hc h with hq' | hq'
            · rw [charsOf_eq (by rw [hq']; decide)] at hc
              rw [(hjoins hq').2 c hc] at h
              cases h
            · exact absurd hq' hgoal
          · intro d hd
            obtain rfl : c = d := by simpa using hd
            have hall : ∀ c ∈ ['+', '-', '/'], Stream.merges c c :=
              forall_mem_of_all (by decide)
            exact hall c hdouble

/-- The character that would make a number go on is part of a name, or its point. -/
theorem Sound.spoils_number (hq : Sound style q) (hallows : allows .number q)
    (hc : (charsOf style q).head? = some c) (hescape : c ≠ backslash)
    (h : spoilsNumber c ∨ c = '.') : isIdentifierPart c ∨ charsOf style q = ['.'] := by
  obtain ⟨w, hqreads, -⟩ := hq.reads
  obtain ⟨hgoal, hnumber, hdots⟩ := allows_number hallows
  rcases h with h | rfl
  · simp only [spoilsNumber, Bool.or_eq_true, beq_iff_eq] at h
    rcases h with (h | h) | h
    · exact .inl (isIdentifierPart_of_isIdentifierStart h)
    · exact .inl (isIdentifierStart_of_isDigit h).2
    · exact absurd h hescape
  · rcases hqreads.spelling.head hc with ⟨-, h⟩ | ⟨h, -⟩ | ⟨-, h⟩ | ⟨-, h⟩ | ⟨hkind, hmem⟩ | h
    · rcases h with h | h <;> cases h
    · exact absurd h hnumber
    · cases h
    · cases h
    · obtain ⟨d, tail, heq, -, -, -, hpoint⟩ := punctuator_first hmem
      rw [heq] at hc ⊢
      obtain rfl : d = '.' := by simpa using hc
      rcases hpoint rfl with rfl | rfl
      · exact .inr rfl
      · rw [charsOf_eq (by rw [hkind]; decide)] at heq
        exact absurd heq (hdots hkind)
    · exact absurd h hgoal

/-- Behind a name or a number only a name starts with a backslash. -/
theorem Sound.word_of_backslash (hq : Sound style q) (hallows : allows e q)
    (he : e = .word ∨ e = .number) (hc : (charsOf style q).head? = some backslash) :
    kindOf q = .word := by
  obtain ⟨w, hqreads, -⟩ := hq.reads
  have hmarks : ∀ t ∈ punctuators, t.head? ≠ some backslash := by decide
  rcases hqreads.spelling.head hc with ⟨h, -⟩ | ⟨-, h⟩ | ⟨-, h⟩ | ⟨-, h⟩ | ⟨-, h⟩ | h
  · exact h
  · rcases h with h | h <;> cases h
  · cases h
  · cases h
  · exact absurd hc (hmarks _ h)
  · have hgoal : (kindOf q).goal ≠ .template := by
      rcases he with rfl | rfl
      · cases hkind : kindOf q <;> simp_all [allows, Kind.goal]
      · exact (allows_number hallows).1
    exact absurd h hgoal

/-- Tokens that run together although the table lets them follow each other: two stretches of
template text, and a regular expression without flags before `of`. -/
def clashes : Piece → Piece → Bool
  | .raw _, .raw _ => true
  | .token pattern, .token text =>
    text == "of" && pattern.toList.head? == some '/' && pattern.toList.getLast? == some '/'
  | _, _ => false

/-- Does the second token start with an escape that is read as part of the first? -/
def glues (p q : Piece) : Bool :=
  (kindOf p == .word || kindOf p == .number) && kindOf q == .word &&
    (charsOf {} q).head? == some backslash

theorem exists_raw_of_chunk (h : kindOf p = .chunk) : ∃ text, p = .raw text := by
  by_contra hraw
  push Not at hraw
  by_cases hnumber : ∃ x, p = .number x
  · obtain ⟨x, rfl⟩ := hnumber
    cases h
  · exact (kindOf_ne hraw fun x heq => hnumber ⟨x, heq⟩).1 h

theorem exists_token_of_regExp (h : kindOf p = .regExp) :
    ∃ text, p = .token text ∧ text.toList.head? = some '/' := by
  have htext : ∀ cs, textKind cs ≠ .regExp := by
    intro cs heq
    have hgoal := goal_textKind cs
    rw [heq] at hgoal
    cases hgoal
  cases p with
  | token text =>
    simp only [kindOf] at h
    split at h
    · cases h
    · split at h
      · next hslash => exact ⟨text, rfl, hslash⟩
      · exact absurd h (htext _)
  | operator text => exact absurd h (htext _)
  | raw | number | comma | semicolon | statementEnd => cases h

/-- A regular expression without flags starts and ends with a slash. -/
theorem exists_token_of_slash (h : edgeOf p = .slash) :
    ∃ text, p = .token text ∧ text.toList.head? = some '/' ∧ text.toList.getLast? = some '/' := by
  unfold edgeOf at h
  split at h
  · cases h
  · cases h
  · cases h
  · cases h
  · next hkind =>
    obtain ⟨text, rfl, hhead⟩ := exists_token_of_regExp hkind
    split at h
    · next hlast => exact ⟨text, rfl, hhead, hlast⟩
    · cases h
  · cases h
  · revert h
    unfold punctuatorEdge
    repeat' split
    all_goals nofun

/-- What runs together, by kinds and edges. -/
theorem clashes_iff : clashes p q ↔
    kindOf p = .chunk ∧ kindOf q = .chunk ∨ edgeOf p = .slash ∧ q = .token "of" := by
  constructor
  · intro h
    unfold clashes at h
    split at h
    · exact .inl ⟨rfl, rfl⟩
    · next pattern text =>
      simp only [Bool.and_eq_true, beq_iff_eq] at h
      obtain ⟨⟨rfl, hhead⟩, hlast⟩ := h
      have hmark : pattern ≠ "$\x7b" := by
        rintro rfl
        cases hhead
      have hkind : kindOf (.token pattern) = .regExp := by simp [kindOf, hmark, hhead]
      have hedge : edgeOf (.token pattern) = .slash := by
        simp only [edgeOf, hkind]
        exact if_pos hlast
      exact .inr ⟨hedge, rfl⟩
    · cases h
  · rintro (⟨hp, hq⟩ | ⟨hp, rfl⟩)
    · obtain ⟨text, rfl⟩ := exists_raw_of_chunk hp
      obtain ⟨text', rfl⟩ := exists_raw_of_chunk hq
      rfl
    · obtain ⟨pattern, rfl, hhead, hlast⟩ := exists_token_of_slash hp
      simp [clashes, hhead, hlast]
/-- What the table lets follow each other is apart, with these exceptions. -/
theorem apart_of_allows (hp : Sound style p) (hq : Sound style q) (hallows : allows (edgeOf p) q)
    (hclash : clashes p q = false) (hglue : glues p q = false) : Apart style p q := by
  have hescape : kindOf p = .word ∨ kindOf p = .number →
      (charsOf style q).head? ≠ some backslash := by
    intro hkind hc
    have hedge : edgeOf p = .word ∨ edgeOf p = .number :=
      hkind.imp (fun h => by simp only [edgeOf, h]) fun h => by simp only [edgeOf, h]
    have hword := hq.word_of_backslash hallows hedge hc
    rw [charsOf_eq (by rw [hword]; decide)] at hc
    simp [glues, hword, hc] at hglue
    tauto
  have hnone := mt (clashes_iff (p := p) (q := q)).mpr (by simp [hclash])
  have hchunk : kindOf p = .chunk → kindOf q ≠ .chunk := fun hp hq => hnone (.inl ⟨hp, hq⟩)
  have hof : edgeOf p = .slash → q ≠ .token "of" := fun hp hq => hnone (.inr ⟨hp, hq⟩)
  refine ⟨?_, ?_, ?_⟩
  · intro hgoal
    refine cases_of_edge ?_ style
    cases hkind : kindOf q <;> simp_all [allows, Kind.goal]
  · intro hkind
    have hedge : edgeOf p = .chunk := by simp only [edgeOf, hkind]
    rw [hedge] at hallows
    rcases allows_chunk hallows with hgoal | ⟨hkind', hmark⟩
    · have hne := hchunk hkind
      cases hq' : kindOf q <;> simp_all [Kind.goal]
    · exact .inr (by rw [charsOf_eq (by rw [hkind']; decide), hmark])
  · intro c hc hgoes
    cases hkind : kindOf p with
    | word =>
      rw [hkind] at hgoes
      have hgoes : isIdentifierPart c ∨ c = backslash := by simpa [goesOn] using hgoes
      rcases hgoes with hpart | rfl
      · exact .inl (hp.merges_word hkind hpart)
      · exact absurd hc (hescape (.inl hkind))
    | number =>
      have hne : c ≠ backslash := fun h => hescape (.inr hkind) (h ▸ hc)
      have hedge : edgeOf p = .number := by simp only [edgeOf, hkind]
      have hspoils : spoilsNumber c ∨ c = '.' := by
        rw [hkind] at hgoes
        simp only [goesOn, Bool.or_eq_true, Bool.and_eq_true, beq_iff_eq] at hgoes
        exact hgoes.imp id And.right
      rcases hq.spoils_number (hedge ▸ hallows) hc hne hspoils with hpart | hpoint
      · exact .inl (hp.merges_number hkind hpart)
      · exact .inr ⟨rfl, hpoint⟩
    | regExp =>
      rw [hkind] at hgoes
      exact .inl (hp.merges_regExp hq hkind hallows hof hc hgoes)
    | punctuator =>
      rw [hkind] at hgoes
      exact .inl (hp.merges_punctuator hq hkind hallows hc hgoes)
    | string | substitution | chunk =>
      rw [hkind] at hgoes
      cases hgoes

end EcmaPrinter.Lexical
