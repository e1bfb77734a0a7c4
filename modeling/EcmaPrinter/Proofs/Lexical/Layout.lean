import EcmaPrinter.Proofs.Lexical.Token

/-!
How the text of a compact stream is read.

Each token is written behind at most one further character: a blank where the two would otherwise
run together, or the point that belongs to a number of digits alone.  Two tokens are `Apart` if
this is enough to keep the first one from being read on into the second one.  A text whose
neighbours are all apart is read as the tokens that were put (`readAll_added`).
-/

namespace EcmaPrinter.Lexical

open EcmaPrinter
open EcmaPrinter.Number
open EcmaPrinter.Text

/-! ### Kinds and characters of pieces -/

/-- The characters of a piece. -/
def charsOf (style : Style) : Piece → List Char
  | .token text | .raw text | .operator text => text.toList
  | .number v => (Stream.numberText style v).toList
  | .comma => [',']
  | .semicolon | .statementEnd => [';']

/-- The kind of a token that is no regular expression, by its first character. -/
def textKind : List Char → Kind
  | [] => .punctuator
  | c :: _ =>
    if isIdentifierStart c || c == backslash then .word
    else if isQuote c then .string
    else .punctuator

/-- The kind of a piece. -/
def kindOf : Piece → Kind
  | .raw _ => .chunk
  | .number _ => .number
  | .token text =>
    if text = "$\x7b" then .substitution
    else if text.toList.head? = some '/' then .regExp
    else textKind text.toList
  | .operator text => textKind text.toList
  | _ => .punctuator

theorem goal_textKind (cs : List Char) : (textKind cs).goal = .div := by
  unfold textKind
  split
  · rfl
  · split
    · rfl
    · split <;> rfl

/-- Kinds are read under the goals of their tokens. -/
theorem goalOf_eq (p : Piece) : goalOf p = (kindOf p).goal := by
  cases p with
  | token text =>
    simp only [goalOf, kindOf]
    split
    · rfl
    · split
      · rfl
      · exact (goal_textKind _).symm
  | operator text => exact (goal_textKind _).symm
  | _ => rfl

/-- The piece is a token with this value. -/
structure Reads (style : Style) (p : Piece) (v : Value) : Prop where
  solid : p ≠ .statementEnd
  number : ∀ x, p = .number x → x.isNaN = false
  spelling : Spelling (kindOf p) (charsOf style p) v

/-! ### What is written before a token -/

/-- What is written between the text of a stream and a token with these characters. -/
def leadChars (s : Stream) (cs : List Char) : List Char :=
  if s.number?.isSome ∧ cs = ['.'] then
    if s.number?.any (·.all Char.isDigit) then ['.'] else []
  else if s.needsSpace (cs.headD ' ') cs.tail then [' ']
  else []

/-- What is written before a piece. -/
def leadOf (s : Stream) (p : Piece) : List Char :=
  if kindOf p = .chunk then [] else leadChars s (charsOf s.style p)

/-- The text of the last token, if it is a number. -/
def numberOf (style : Style) (p : Piece) : Option (List Char) :=
  if kindOf p = .number then some (charsOf style p) else none

theorem write_eq {s : Stream} {cs : List Char} {c : Char} (h : cs.getLast? = some c) :
    s.write cs = { s with text := cs.reverse ++ s.text, last := c, lineBreak? := none } := by
  simp only [Stream.write, h]
  rfl

theorem putSpaced_eq (s : Stream) {first c : Char} {rest : List Char}
    (h : (first :: rest).getLast? = some c) :
    s.putSpaced first rest =
      { s with
        text := ((if s.needsSpace first rest then [' '] else []) ++ first :: rest).reverse ++ s.text
        last := c
        lineBreak? := none } := by
  unfold Stream.putSpaced
  split
  · rw [write_eq (show [' '].getLast? = some ' ' from rfl), write_eq h]
    simp
  · rw [write_eq h]
    simp

/-- A token is written behind its lead. -/
theorem putChars_eq {s : Stream} (hpending : s.pending = false) {cs : List Char} {c : Char}
    (h : cs.getLast? = some c) :
    s.putChars cs =
      { s with
        text := (leadChars s cs ++ cs).reverse ++ s.text
        last := c
        number? := none
        lineBreak? := none } := by
  cases cs with
  | nil => cases h
  | cons first rest =>
    have hsettle : s.settle (first :: rest) = s := by simp [Stream.settle, hpending]
    simp only [Stream.putChars, hsettle]
    rcases hnumber : s.number? with - | number
    · have hlead : leadChars s (first :: rest) =
          if s.needsSpace first rest then [' '] else [] := by
        simp [leadChars, hnumber]
      simp only [putSpaced_eq s h, hlead, hnumber]
    · have hspace : ({ s with number? := none } : Stream).needsSpace first rest =
          s.needsSpace first rest := rfl
      by_cases hpoint : first :: rest = ['.']
      · obtain ⟨rfl, rfl⟩ := List.cons.inj hpoint
        obtain rfl : '.' = c := by simpa using h
        by_cases hdigits : number.all Char.isDigit
        · have hlead : leadChars s ['.'] = ['.'] := by
            simpa [leadChars, hnumber] using hdigits
          simp [Stream.putPoint, hdigits, hlead,
            write_eq (show ['.', '.'].getLast? = some '.' from rfl)]
        · have hlead : leadChars s ['.'] = [] := by simp [leadChars, hnumber, hdigits]
          simp [Stream.putPoint, hdigits, hlead, write_eq (show ['.'].getLast? = some '.' from rfl)]
      · have hlead : leadChars s (first :: rest) =
            if s.needsSpace first rest then [' '] else [] := by
          simp [leadChars, hpoint]
        have hbeq : (first :: rest == ['.']) = false := by simpa using hpoint
        simp only [hbeq, Bool.false_eq_true, if_false, putSpaced_eq _ h, hlead, hspace]

/-! ### Putting tokens -/

theorem textKind_cases (cs : List Char) :
    textKind cs = .word ∨ textKind cs = .string ∨ textKind cs = .punctuator := by
  unfold textKind
  split
  · exact .inr (.inr rfl)
  · split
    · exact .inl rfl
    · split
      · exact .inr (.inl rfl)
      · exact .inr (.inr rfl)

/-- Only template text and numbers are of these kinds. -/
theorem kindOf_ne {p : Piece} (hraw : ∀ text, p ≠ .raw text) (hnumber : ∀ x, p ≠ .number x) :
    kindOf p ≠ .chunk ∧ kindOf p ≠ .number := by
  cases p with
  | raw text => exact absurd rfl (hraw text)
  | number x => exact absurd rfl (hnumber x)
  | token text =>
    simp only [kindOf]
    split
    · decide
    · split
      · decide
      · rcases textKind_cases text.toList with h | h | h <;> rw [h] <;> decide
  | operator text =>
    simp only [kindOf]
    rcases textKind_cases text.toList with h | h | h <;> rw [h] <;> decide
  | comma | semicolon | statementEnd => decide

theorem Spelling.ne_nil {kind : Kind} {cs : List Char} {v : Value} (h : Spelling kind cs v) :
    cs ≠ [] := by
  cases h with
  | word h =>
    obtain ⟨c, tail, rfl, -⟩ := scanName_first h
    exact List.cons_ne_nil c tail
  | number h =>
    obtain ⟨c, tail, rfl, -⟩ := h.first
    exact List.cons_ne_nil c tail
  | punctuator h =>
    obtain ⟨c, tail, rfl, -⟩ := punctuator_first h
    exact List.cons_ne_nil c tail
  | chunk hne h => exact hne
  | string | regExp | substitution => exact List.cons_ne_nil _ _

variable {s : Stream} {p : Piece} {v : Value}

/-- The last character that counts for spacing behind a piece. -/
def lastOf (s : Stream) (p : Piece) : Char :=
  if kindOf p = .chunk then s.last else (charsOf s.style p).getLastD s.last

/-- Most pieces are put as their characters. -/
theorem putPiece_eq_putChars (hcompact : s.IsCompact) (hraw : ∀ text, p ≠ .raw text)
    (hnumber : ∀ x, p ≠ .number x) (hsolid : p ≠ .statementEnd) :
    s.putPiece p = s.putChars (charsOf s.style p) := by
  cases p with
  | raw text => exact absurd rfl (hraw text)
  | number x => exact absurd rfl (hnumber x)
  | token text => rfl
  | operator text => exact hcompact.putOperator_eq text
  | comma => exact hcompact.putSeparator_eq
  | semicolon => rfl
  | statementEnd => exact absurd rfl hsolid

theorem getLast?_eq_getLastD {cs : List Char} (hne : cs ≠ []) (d : Char) :
    cs.getLast? = some (cs.getLastD d) := by
  rw [List.getLastD_eq_getLast?, List.getLast?_eq_some_getLast hne, Option.getD_some]

/-- A token is put behind its lead. -/
theorem putPiece_eq (hcompact : s.IsCompact) (hpending : s.pending = false)
    (h : Reads s.style p v) :
    s.putPiece p =
      { s with
        text := (leadOf s p ++ charsOf s.style p).reverse ++ s.text
        last := lastOf s p
        number? := numberOf s.style p
        lineBreak? := none } := by
  have hne := h.spelling.ne_nil
  have hlast := getLast?_eq_getLastD hne s.last
  by_cases hraw : ∃ text, p = .raw text
  · obtain ⟨text, rfl⟩ := hraw
    have htext : text.isEmpty = false := by simpa [charsOf] using hne
    simp [Stream.putPiece, Stream.putRaw, htext, Stream.append, leadOf, lastOf, numberOf, kindOf,
      charsOf]
  · have hraw : ∀ text, p ≠ .raw text := fun text heq => hraw ⟨text, heq⟩
    by_cases hnumber : ∃ x, p = .number x
    · obtain ⟨x, rfl⟩ := hnumber
      have hput := putChars_eq hpending hlast
      have hnan := h.number x rfl
      simp only [charsOf] at hput
      simp [Stream.putPiece, Stream.putNumber, hnan, Stream.put, hput, leadOf, lastOf, numberOf,
        kindOf, charsOf]
    · have hnumber : ∀ x, p ≠ .number x := fun x heq => hnumber ⟨x, heq⟩
      obtain ⟨hchunk, hkind⟩ := kindOf_ne hraw hnumber
      rw [putPiece_eq_putChars hcompact hraw hnumber h.solid, putChars_eq hpending hlast]
      simp [leadOf, lastOf, numberOf, hchunk, hkind]

/-! ### Neighbours -/

/-- What is written between the two keeps the second piece from being read as part of the first. -/
structure Apart (style : Style) (p q : Piece) : Prop where
  /-- Inside a template there are no blanks. -/
  inside : (kindOf q).goal = .template →
    kindOf p = .chunk ∨ charsOf style p = ['\x60'] ∨ charsOf style p = ['}']
  /-- Template text ends at a mark. -/
  chunk : kindOf p = .chunk → kindOf q = .substitution ∨ charsOf style q = ['\x60']
  /-- Where the first token would go on there is a blank, or the point of a number. -/
  next : ∀ c ∈ (charsOf style q).head?, goesOn (charsOf style p) c (kindOf p) →
    (∀ d ∈ (charsOf style p).getLast?, Stream.merges d c) ∨
      kindOf p = .number ∧ charsOf style q = ['.']

/-- The stream stands behind a piece. -/
structure After (s : Stream) (p : Piece) : Prop where
  compact : s.IsCompact
  pending : s.pending = false
  number : s.number? = numberOf s.style p
  last : kindOf p ≠ .chunk → (charsOf s.style p).getLast? = some s.last
  chunk : kindOf p = .chunk → s.last = '\x60' ∨ s.last = '}'
  text : ∃ before, s.text = (charsOf s.style p).reverse ++ before

theorem After.putPiece {q : Piece} (h : After s p) (hq : Reads s.style q v)
    (hapart : Apart s.style p q) : After (s.putPiece q) q := by
  have heq := putPiece_eq h.compact h.pending hq
  have hne := hq.spelling.ne_nil
  have hstyle : (s.putPiece q).style = s.style := by rw [heq]
  refine ⟨?_, ?_, ?_, ?_, ?_, ?_⟩
  · exact h.compact.putPiece q
  · rw [heq]
    exact h.pending
  · rw [heq]
  · intro hchunk
    rw [heq]
    simpa [lastOf, hchunk] using getLast?_eq_getLastD hne s.last
  · intro hchunk
    rw [heq]
    simp only [lastOf, hchunk, if_true]
    by_cases hp : kindOf p = .chunk
    · exact h.chunk hp
    · have hlast := h.last hp
      rcases hapart.inside (by rw [hchunk]; rfl) with hp' | hp' | hp'
      · exact absurd hp' hp
      · rw [hp'] at hlast
        exact .inl (Option.some.inj hlast).symm
      · rw [hp'] at hlast
        exact .inr (Option.some.inj hlast).symm
  · rw [heq]
    exact ⟨(leadOf s q).reverse ++ s.text, by simp⟩

/-! ### The text of tokens -/

/-- What is added to the text of a stream by tokens. -/
def added : Stream → List Piece → List Char
  | _, [] => []
  | s, q :: qs => leadOf s q ++ (charsOf s.style q ++ added (s.putPiece q) qs)

/-- What is added to the text and does not belong to the token before it. -/
def behind (s : Stream) : List Piece → List Char
  | [] => []
  | q :: qs =>
    (if leadOf s q = ['.'] then [] else leadOf s q) ++
      (charsOf s.style q ++ added (s.putPiece q) qs)

/-! ### Leads -/

theorem leadOf_cases (s : Stream) (q : Piece) :
    leadOf s q = [] ∨ leadOf s q = [' '] ∨ leadOf s q = ['.'] := by
  unfold leadOf leadChars
  split
  · exact .inl rfl
  · split
    · split
      · exact .inr (.inr rfl)
      · exact .inl rfl
    · split
      · exact .inr (.inl rfl)
      · exact .inl rfl

/-- A point is written before a token only if it belongs to the number before it. -/
theorem After.leadOf_eq_point {q : Piece} (h : After s p) (hlead : leadOf s q = ['.']) :
    kindOf p = .number ∧ (charsOf s.style p).all Char.isDigit ∧ charsOf s.style q = ['.'] := by
  unfold leadOf leadChars at hlead
  split at hlead
  · cases hlead
  · split at hlead
    · next hpoint =>
      split at hlead
      · next hdigits =>
        have hnumber := h.number
        unfold numberOf at hnumber
        split at hnumber
        · next hkind =>
          rw [hnumber] at hdigits
          exact ⟨hkind, by simpa using hdigits, hpoint.2⟩
        · rw [hnumber] at hpoint
          exact absurd hpoint.1 (by decide)
      · cases hlead
    · split at hlead <;> cases hlead

/-- Before a token without a lead no blank is needed. -/
theorem After.needsSpace_eq_false {q : Piece} (h : After s p) (hq : kindOf q ≠ .chunk)
    (hlead : leadOf s q = []) {c : Char} {cs : List Char} (hcs : charsOf s.style q = c :: cs) :
    s.needsSpace c cs = false ∨ kindOf p = .number ∧ charsOf s.style q = ['.'] := by
  unfold leadOf leadChars at hlead
  rw [if_neg hq] at hlead
  split at hlead
  · next hpoint =>
    refine .inr ⟨?_, hpoint.2⟩
    by_contra hkind
    have hnumber := h.number
    rw [numberOf, if_neg hkind] at hnumber
    rw [hnumber] at hpoint
    exact absurd hpoint.1 (by decide)
  · split at hlead
    · cases hlead
    · next hspace =>
      rw [hcs] at hspace
      exact .inl (by simpa using hspace)

/-- Behind the marks of a template nothing is written before a token. -/
theorem leadChars_eq_nil (hlast : s.last = '\x60' ∨ s.last = '}') {c : Char} {cs : List Char}
    (hdash : c ≠ '-') (hpoint : c ≠ '.') : leadChars s (c :: cs) = [] := by
  have hmerges : Stream.merges s.last c = false ∧ Stream.makesTag s.last c = false := by
    rcases hlast with h | h <;> rw [h] <;> exact ⟨rfl, rfl⟩
  have hdashes : ['-', '-'].isPrefixOf (c :: cs) = false := by
    simp [List.isPrefixOf, Ne.symm hdash]
  simp [leadChars, hpoint, Stream.needsSpace, hmerges, hdashes]

theorem Reads.chars_substitution {style : Style} (h : Reads style p v)
    (hkind : kindOf p = .substitution) : charsOf style p = ['$', '{'] := by
  have hspelling := h.spelling
  rw [hkind] at hspelling
  generalize charsOf style p = cs at hspelling
  cases hspelling
  rfl

/-- Inside a template nothing is written before a token. -/
theorem After.leadOf_template {q : Piece} {w : Value} (h : After s p) (hq : Reads s.style q w)
    (hapart : Apart s.style p q) (hgoal : (kindOf q).goal = .template) : leadOf s q = [] := by
  have hlast : s.last = '\x60' ∨ s.last = '}' := by
    by_cases hp : kindOf p = .chunk
    · exact h.chunk hp
    · have hlast := h.last hp
      rcases hapart.inside hgoal with hp' | hp' | hp'
      · exact absurd hp' hp
      · rw [hp'] at hlast
        exact .inl (Option.some.inj hlast).symm
      · rw [hp'] at hlast
        exact .inr (Option.some.inj hlast).symm
  unfold leadOf
  split
  · rfl
  · next hchunk =>
    have hkind : kindOf q = .substitution := by
      revert hgoal hchunk
      cases kindOf q <;> simp [Kind.goal]
    rw [hq.chars_substitution hkind]
    exact leadChars_eq_nil hlast (by decide) (by decide)

/-- A blank ends every token. -/
theorem Spelling.goesOn_blank {kind : Kind} {cs : List Char} (h : Spelling kind cs v) :
    goesOn cs ' ' kind = false := by
  have hall : ∀ t ∈ punctuators, extendsTo t ' ' = false := by decide
  cases h with
  | punctuator h => exact hall cs h
  | word | regExp | string | substitution | chunk => rfl
  | number => simp [goesOn]; decide

/-- The marks of a template are no part of longer tokens. -/
theorem extendsTo_mark {t : List Char} (h : t = ['\x60'] ∨ t = ['}']) (c : Char) :
    extendsTo t c = false := by
  rcases h with rfl | rfl <;> rfl

theorem Spelling.goesOn_mark {kind : Kind} {cs : List Char} (h : Spelling kind cs v)
    (hcs : cs = ['\x60'] ∨ cs = ['}']) (c : Char) : goesOn cs c kind = false := by
  cases h with
  | punctuator => exact extendsTo_mark hcs c
  | word h =>
    obtain ⟨d, tail, rfl, hd⟩ := scanName_first h
    rcases hcs with heq | heq
    · obtain ⟨rfl, rfl⟩ := List.cons.inj heq
      rcases hd with hd | hd <;> cases hd
    · obtain ⟨rfl, rfl⟩ := List.cons.inj heq
      rcases hd with hd | hd <;> cases hd
  | number h =>
    obtain ⟨d, tail, rfl, hd⟩ := h.first
    rcases hcs with heq | heq
    · obtain ⟨rfl, rfl⟩ := List.cons.inj heq
      rcases hd with hd | hd <;> cases hd
    · obtain ⟨rfl, rfl⟩ := List.cons.inj heq
      rcases hd with hd | hd <;> cases hd
  | regExp =>
    rcases hcs with heq | heq <;> cases heq
  | string | substitution | chunk => rfl

theorem merges_point (last : Char) : Stream.merges last '.' = false := by
  have hpart : isIdentifierPart '.' = false := by decide
  by_cases hlast : last = '.'
  · subst hlast
    decide
  · simp [Stream.merges, hlast, hpart]

/-! ### Where tokens end -/

variable {q : Piece} {w : Value} {qs : List Piece}

theorem head?_added (hq : Reads s.style q w) :
    (added s (q :: qs)).head? = (leadOf s q).head?.or (charsOf s.style q).head? := by
  obtain ⟨c, cs, hcs⟩ := List.exists_cons_of_ne_nil hq.spelling.ne_nil
  rw [added, hcs]
  cases leadOf s q <;> rfl

/-- A token before another one does not go on, unless it takes its point. -/
theorem After.goesOn_eq_false (h : After s p) (hp : Reads s.style p v) (hq : Reads s.style q w)
    (hapart : Apart s.style p q) (hlead : leadOf s q ≠ ['.']) :
    ∀ c ∈ (added s (q :: qs)).head?, goesOn (charsOf s.style p) c (kindOf p) = false := by
  intro c hc
  rw [head?_added hq] at hc
  rcases leadOf_cases s q with hnil | hblank | hpoint
  · rw [hnil] at hc
    have hc : (charsOf s.style q).head? = some c := hc
    obtain ⟨d, cs, hcs⟩ := List.exists_cons_of_ne_nil hq.spelling.ne_nil
    obtain rfl : d = c := by rwa [hcs, List.head?_cons, Option.some.injEq] at hc
    by_contra hgoes
    have hgoes : goesOn (charsOf s.style p) d (kindOf p) = true := by simpa using hgoes
    have hchunk : kindOf p ≠ .chunk := by
      intro hkind
      rw [hkind] at hgoes
      cases hgoes
    by_cases hq' : kindOf q = .chunk
    · -- template text stands behind a mark, which nothing extends
      rcases hapart.inside (by rw [hq']; rfl) with hkind | hmark
      · exact hchunk hkind
      · rw [hp.spelling.goesOn_mark hmark] at hgoes
        cases hgoes
    · rcases hapart.next d hc hgoes with hmerges | ⟨hnumber, hdot⟩
      · have hmerges := hmerges s.last (h.last hchunk)
        rcases h.needsSpace_eq_false hq' hnil hcs with hspace | ⟨-, hdot⟩
        · simp [Stream.needsSpace, hmerges] at hspace
        · obtain ⟨rfl, -⟩ : d = '.' ∧ cs = [] := by simpa [hcs] using hdot
          rw [merges_point] at hmerges
          cases hmerges
      · have hdigits : (charsOf s.style p).all Char.isDigit = false := by
          have hsome := h.number
          rw [numberOf, if_pos hnumber] at hsome
          simpa [leadOf, hq', leadChars, hsome, hdot] using hnil
        obtain ⟨rfl, -⟩ : d = '.' ∧ cs = [] := by simpa [hcs] using hdot
        rw [hnumber, goesOn, hdigits] at hgoes
        cases hgoes
  · rw [hblank] at hc
    obtain rfl : ' ' = c := by simpa using hc
    exact hp.spelling.goesOn_blank
  · exact absurd hpoint hlead

/-- Behind an operator there is no template text. -/
theorem Apart.not_template (hapart : Apart s.style p q) (hkind : kindOf p = .punctuator)
    (hmark : charsOf s.style p ≠ ['\x60'] ∧ charsOf s.style p ≠ ['}']) :
    (kindOf q).goal ≠ .template := by
  intro hgoal
  rcases hapart.inside hgoal with h | h | h
  · rw [hkind] at h
    cases h
  · exact hmark.1 h
  · exact hmark.2 h

/-- Behind an operator a token without a blank before it needs none. -/
theorem After.needsSpace_of_punctuator (h : After s p) (hkind : kindOf p = .punctuator)
    (hq : (kindOf q).goal ≠ .template) (hlead : leadOf s q = []) {c : Char} {cs : List Char}
    (hcs : charsOf s.style q = c :: cs) : s.needsSpace c cs = false := by
  have hchunk : kindOf q ≠ .chunk := by
    intro hchunk
    rw [hchunk] at hq
    exact hq rfl
  rcases h.needsSpace_eq_false hchunk hlead hcs with hspace | ⟨hnumber, -⟩
  · exact hspace
  · rw [hkind] at hnumber
    cases hnumber

/-- A minus is not followed by another one. -/
theorem After.head?_ne_minus (h : After s p) (hkind : kindOf p = .punctuator)
    (hp : charsOf s.style p = ['-']) (hq : Reads s.style q w) (hapart : Apart s.style p q) :
    (added s (q :: qs)).head? ≠ some '-' := by
  intro hhead
  rw [head?_added hq] at hhead
  rcases leadOf_cases s q with hlead | hlead | hlead
  · rw [hlead] at hhead
    obtain ⟨c, cs, hcs⟩ := List.exists_cons_of_ne_nil hq.spelling.ne_nil
    obtain rfl : c = '-' := by simpa [hcs] using hhead
    have hgoal := hapart.not_template hkind (by rw [hp]; decide)
    have hspace := h.needsSpace_of_punctuator hkind hgoal hlead hcs
    have hlast := h.last (by rw [hkind]; decide)
    rw [hp] at hlast
    have hlast : '-' = s.last := by simpa using hlast
    simp [Stream.needsSpace, Stream.merges, ← hlast] at hspace
  · rw [hlead] at hhead
    cases hhead
  · rw [hlead] at hhead
    cases hhead

/-- Tokens that can be put one after the other. -/
structure Run (style : Style) (p : Piece) (qs : List Piece) (ws : List Value) : Prop where
  reads : List.Forall₂ (Reads style) qs ws
  apart : List.IsChain (Apart style) (p :: qs)
  ends : ∀ q ∈ (p :: qs).getLast?, kindOf q ≠ .chunk

variable {ws : List Value}

theorem Run.head {style : Style} (h : Run style p (q :: qs) (w :: ws)) :
    Reads style q w ∧ Apart style p q ∧ Run style q qs ws := by
  obtain ⟨hreads, hapart, hends⟩ := h
  cases hreads with
  | cons hq hqs =>
    cases hapart with
    | cons_cons hpq htail => exact ⟨hq, hpq, hqs, htail, by simpa using hends⟩

/-- Putting the first token leaves the stream behind it, before the others. -/
theorem After.step (h : After s p) (hrun : Run s.style p (q :: qs) (w :: ws)) :
    After (s.putPiece q) q ∧ Run (s.putPiece q).style q qs ws := by
  obtain ⟨hq, hapart, hrun⟩ := hrun.head
  have hstyle : (s.putPiece q).style = s.style := by rw [putPiece_eq h.compact h.pending hq]
  rw [hstyle]
  exact ⟨h.putPiece hq hapart, hrun⟩

/-- A token that starts as a punctuator is one. -/
theorem Spelling.kind_eq_punctuator {kind : Kind} {c : Char} {cs : List Char}
    (h : Spelling kind (c :: cs) v) (hc : isMark c) (hslash : c ≠ '/') (hpoint : c ≠ '.')
    (hgoal : kind.goal ≠ .template) : kind = .punctuator := by
  simp only [isMark, Bool.and_eq_true, Bool.not_eq_true', bne_iff_ne] at hc
  obtain ⟨⟨⟨⟨⟨hstart, hback⟩, hdigit⟩, hquote⟩, -⟩, -⟩ := hc
  cases h with
  | punctuator => rfl
  | word h =>
    obtain ⟨d, tail, heq, hd⟩ := scanName_first h
    obtain ⟨rfl, rfl⟩ := List.cons.inj heq
    simp [hstart, hback] at hd
  | number h =>
    obtain ⟨d, tail, heq, hd⟩ := h.first
    obtain ⟨rfl, rfl⟩ := List.cons.inj heq
    simp [hdigit, hpoint] at hd
  | string hmark => simp [hmark] at hquote
  | regExp => exact absurd rfl hslash
  | substitution | chunk => exact absurd rfl hgoal

theorem head?_of_isPrefixOf {c : Char} {cs text : List Char} (h : (c :: cs).isPrefixOf text) :
    text.head? = some c := by
  cases text with
  | nil => cases h
  | cons d text =>
    obtain ⟨rfl, -⟩ : c = d ∧ cs.isPrefixOf text := by simpa [List.isPrefixOf] using h
    rfl

/-- Behind `<!` no text starts with two minus signs. -/
theorem After.not_dashes (h : After s p) (hkind : kindOf p = .punctuator)
    (hp : charsOf s.style p = ['!']) (hmarkup : s.endsInMarkup) (hrun : Run s.style p qs ws) :
    ['-', '-'].isPrefixOf (added s qs) = false := by
  cases qs with
  | nil => rfl
  | cons q qs =>
    rcases ws with - | ⟨w, ws⟩
    · cases hrun.reads
    obtain ⟨hafter, htail⟩ := h.step hrun
    obtain ⟨hq, hapart, -⟩ := hrun.head
    have hgoal := hapart.not_template hkind (by rw [hp]; decide)
    rcases leadOf_cases s q with hlead | hlead | hlead
    · obtain ⟨c, cs, hcs⟩ := List.exists_cons_of_ne_nil hq.spelling.ne_nil
      have hspace := h.needsSpace_of_punctuator hkind hgoal hlead hcs
      by_contra htrue
      rw [added, hlead, hcs, List.nil_append, List.cons_append] at htrue
      obtain ⟨rfl, hmore⟩ : '-' = c ∧ ['-'].isPrefixOf (cs ++ added (s.putPiece q) qs) := by
        simpa [List.isPrefixOf] using htrue
      cases cs with
      | nil =>
        -- a single minus, which the next token does not make two
        have hkind' : kindOf q = .punctuator := by
          have hspelling := hq.spelling
          rw [hcs] at hspelling
          exact hspelling.kind_eq_punctuator (by decide) (by decide) (by decide) hgoal
        have hstyle : (s.putPiece q).style = s.style := by
          rw [putPiece_eq h.compact h.pending hq]
        rcases qs with - | ⟨r, rs⟩
        · cases hmore
        · rcases ws with - | ⟨x, xs⟩
          · cases htail.reads
          · obtain ⟨hr, hapart', -⟩ := htail.head
            have hne : (added (s.putPiece q) (r :: rs)).head? ≠ some '-' :=
              hafter.head?_ne_minus hkind' (by rw [hstyle, hcs]) hr hapart'
            exact hne (head?_of_isPrefixOf hmore)
      | cons d cs =>
        obtain rfl : '-' = d := by
          simp [List.isPrefixOf] at hmore
          exact hmore
        simp [Stream.needsSpace, hmarkup, List.isPrefixOf] at hspace
    · rw [added, hlead]
      rfl
    · rw [added, hlead]
      rfl

/-- Behind `<` no comment opens. -/
theorem After.not_markup (h : After s p) (hkind : kindOf p = .punctuator)
    (hp : charsOf s.style p = ['<']) (hrun : Run s.style p qs ws) :
    ['!', '-', '-'].isPrefixOf (added s qs) = false := by
  cases qs with
  | nil => rfl
  | cons q qs =>
    rcases ws with - | ⟨w, ws⟩
    · cases hrun.reads
    obtain ⟨hafter, htail⟩ := h.step hrun
    obtain ⟨hq, hapart, -⟩ := hrun.head
    have hgoal := hapart.not_template hkind (by rw [hp]; decide)
    have heq := putPiece_eq h.compact h.pending hq
    rcases leadOf_cases s q with hlead | hlead | hlead
    · obtain ⟨c, cs, hcs⟩ := List.exists_cons_of_ne_nil hq.spelling.ne_nil
      by_contra htrue
      rw [added, hlead, hcs, List.nil_append, List.cons_append] at htrue
      obtain ⟨rfl, hmore⟩ : '!' = c ∧ ['-', '-'].isPrefixOf (cs ++ added (s.putPiece q) qs) := by
        simpa [List.isPrefixOf] using htrue
      have hspelling := hq.spelling
      rw [hcs] at hspelling
      have hkind' := hspelling.kind_eq_punctuator (by decide) (by decide) (by decide) hgoal
      cases cs with
      | nil =>
        obtain ⟨before, htext⟩ := h.text
        have hmarkup : (s.putPiece q).endsInMarkup := by
          rw [Stream.endsInMarkup, heq]
          simp [hlead, hcs, htext, hp, List.isPrefixOf]
        have hchars : charsOf (s.putPiece q).style q = ['!'] := by rw [heq, hcs]
        rw [List.nil_append, hafter.not_dashes hkind' hchars hmarkup htail] at hmore
        cases hmore
      | cons d cs =>
        -- the longer punctuators that start so go on with an equals sign
        have hall : ∀ t ∈ punctuators, t.head? = some '!' → t.tail.head? ≠ some '-' := by decide
        obtain rfl : d = '-' := by simpa using head?_of_isPrefixOf hmore
        rw [hkind'] at hspelling
        cases hspelling with
        | punctuator hmem => exact hall _ hmem rfl rfl
    · rw [added, hlead]
      rfl
    · rw [added, hlead]
      rfl

/-- A token ends where the next one starts, unless it takes its point. -/
theorem After.stops (h : After s p) (hp : Reads s.style p v) (hrun : Run s.style p qs ws)
    (hlead : ∀ q ∈ qs.head?, leadOf s q ≠ ['.']) :
    Stops (kindOf p) (charsOf s.style p) (added s qs) := by
  cases qs with
  | nil =>
    refine ⟨by simp [added], fun _ _ => rfl, fun hchunk => ?_⟩
    exact absurd hchunk (hrun.ends p rfl)
  | cons q qs =>
    rcases ws with - | ⟨w, ws⟩
    · cases hrun.reads
    obtain ⟨hq, hapart, -⟩ := hrun.head
    refine ⟨?_, ?_, ?_⟩
    · exact h.goesOn_eq_false hp hq hapart (hlead q rfl)
    · intro hkind hchars
      exact h.not_markup hkind hchars hrun
    · intro hchunk
      rcases hapart.chunk hchunk with hkind | hchars
      · have hnil := h.leadOf_template hq hapart (by rw [hkind]; rfl)
        rw [added, hnil, hq.chars_substitution hkind]
        rfl
      · have hnil : leadOf s q = [] := by
          unfold leadOf
          split
          · rfl
          · rw [hchars]
            exact leadChars_eq_nil (h.chunk hchunk) (by decide) (by decide)
        rw [added, hnil, hchars]
        rfl

/-! ### Reading tokens back -/

/-- What was read stands for the token.  A number may have been read with its point. -/
def Matches (style : Style) (l : Lexeme) (p : Piece) : Prop :=
  kindOf p ≠ .number → l.chars = charsOf style p

theorem behind_eq_added (hlead : ∀ q ∈ qs.head?, leadOf s q ≠ ['.']) :
    behind s qs = added s qs := by
  cases qs with
  | nil => rfl
  | cons q qs => rw [behind, if_neg (hlead q rfl), added]

/-- A blank before a token is skipped. -/
theorem After.readToken_lead (h : After s p) (hq : Reads s.style q w)
    (hapart : Apart s.style p q) (text : List Char) :
    readToken (goalOf q) ((if leadOf s q = ['.'] then [] else leadOf s q) ++ text) =
      readToken (goalOf q) text := by
  rcases leadOf_cases s q with hlead | hlead | hlead
  · rw [hlead]
    rfl
  · have hgoal : goalOf q ≠ .template := by
      intro hgoal
      rw [goalOf_eq] at hgoal
      rw [h.leadOf_template hq hapart hgoal] at hlead
      cases hlead
    rw [hlead]
    exact readToken_blank hgoal text
  · rw [if_pos hlead]
    rfl

/-- A token is read off the text that it starts. -/
theorem After.readToken_self (h : After s p) (hp : Reads s.style p v) (hrun : Run s.style p qs ws) :
    ∃ l, readToken (goalOf p) (charsOf s.style p ++ added s qs) = some (l, behind s qs) ∧
      l.value = v ∧ Matches s.style l p := by
  rw [goalOf_eq]
  by_cases hpoint : ∃ q ∈ qs.head?, leadOf s q = ['.']
  · -- a number of digits alone is read with the point before the next token
    obtain ⟨q, hq, hlead⟩ := hpoint
    obtain ⟨hkind, hdigits, hchars⟩ := h.leadOf_eq_point hlead
    obtain ⟨rest, rfl⟩ : ∃ rest, qs = q :: rest := by
      cases qs with
      | nil => cases hq
      | cons q' rest => exact ⟨rest, by rw [Option.some.inj hq]⟩
    obtain ⟨x, rfl, hx⟩ : ∃ x, v = .number x ∧ Spells x (charsOf s.style p) := by
      have hspelling := hp.spelling
      rw [hkind] at hspelling
      generalize charsOf s.style p = cs at hspelling
      cases hspelling with
      | number h => exact ⟨_, rfl, h⟩
    have hadded : added s (q :: rest) = '.' :: behind s (q :: rest) := by
      rw [added, behind, if_pos hlead, hlead]
      rfl
    have hhead : (behind s (q :: rest)).head?.any spoilsNumber = false := by
      rw [behind, if_pos hlead, hchars]
      show spoilsNumber '.' = false
      decide
    rw [hkind, hadded]
    exact ⟨_, readToken_point hx hdigits hhead, rfl, fun hne => absurd hkind hne⟩
  · have hlead : ∀ q ∈ qs.head?, leadOf s q ≠ ['.'] := fun q hq heq => hpoint ⟨q, hq, heq⟩
    rw [behind_eq_added hlead]
    exact ⟨_, readToken_append hp.spelling (h.stops hp hrun hlead), rfl, fun _ => rfl⟩

/-- Behind a token, the others are read as what they are. -/
theorem After.readAll_behind (h : After s p) (hrun : Run s.style p qs ws) :
    ∃ ls, readAll (qs.map goalOf) (behind s qs) = some ls ∧ ls.map (·.value) = ws ∧
      List.Forall₂ (Matches s.style) ls qs := by
  induction qs generalizing s p ws with
  | nil =>
    cases hrun.reads
    exact ⟨[], rfl, rfl, .nil⟩
  | cons q qs ih =>
    rcases ws with - | ⟨w, ws⟩
    · cases hrun.reads
    obtain ⟨hafter, htail⟩ := h.step hrun
    obtain ⟨hq, hapart, -⟩ := hrun.head
    have hstyle : (s.putPiece q).style = s.style := by rw [putPiece_eq h.compact h.pending hq]
    obtain ⟨l, htoken, hvalue, hmatch⟩ := hafter.readToken_self (hstyle ▸ hq) htail
    obtain ⟨ls, hread, hvalues, hmatches⟩ := ih hafter htail
    rw [hstyle] at htoken hmatch hmatches
    refine ⟨l :: ls, ?_, ?_, .cons hmatch hmatches⟩
    · rw [List.map_cons, readAll, behind, h.readToken_lead hq hapart, htoken]
      simp [hread]
    · rw [List.map_cons, hvalue, hvalues]

/-- What tokens add to the text of a stream. -/
theorem After.text_putAll (h : After s p) (hrun : Run s.style p qs ws) :
    (s.putAll qs).text = (added s qs).reverse ++ s.text := by
  induction qs generalizing s p ws with
  | nil => rfl
  | cons q qs ih =>
    rcases ws with - | ⟨w, ws⟩
    · cases hrun.reads
    obtain ⟨hafter, htail⟩ := h.step hrun
    obtain ⟨hq, -, -⟩ := hrun.head
    rw [Stream.putAll_cons, ih hafter htail, added]
    rw [putPiece_eq h.compact h.pending hq]
    simp

/-! ### A text from its start -/

/-- The first token stands at the start of the text. -/
theorem after_first {style : Style} (hcompact : style.indent? = none) (hp : Reads style p v)
    (hgoal : (kindOf p).goal ≠ .template) :
    After (({ style := style } : Stream).putPiece p) p ∧
      (({ style := style } : Stream).putPiece p).text = (charsOf style p).reverse ∧
      (({ style := style } : Stream).putPiece p).style = style := by
  have hchunk : kindOf p ≠ .chunk := by
    intro hchunk
    rw [hchunk] at hgoal
    exact hgoal rfl
  have heq := putPiece_eq (s := { style := style }) hcompact rfl hp
  have hlead : leadOf { style := style } p = [] := by
    have hmerges : ∀ c, Stream.merges '\x00' c = false := fun _ => rfl
    have htag : ∀ c, Stream.makesTag '\x00' c = false := fun _ => rfl
    have hmarkup : Stream.endsInMarkup { style := style } = false := rfl
    simp [leadOf, hchunk, leadChars, Stream.needsSpace, hmerges, htag, hmarkup]
  have hlast := getLast?_eq_getLastD hp.spelling.ne_nil '\x00'
  rw [heq, hlead]
  refine ⟨⟨hcompact, rfl, rfl, fun _ => ?_, fun h => absurd h hchunk, ⟨[], ?_⟩⟩, ?_, rfl⟩
  · simpa [lastOf, hchunk] using hlast
  · simp
  · simp

/-- The text of tokens that are apart is read as the tokens. -/
theorem readAll_putAll {style : Style} (hcompact : style.indent? = none) (hp : Reads style p v)
    (hgoal : (kindOf p).goal ≠ .template) (hrun : Run style p qs ws) :
    ∃ ls, readAll ((p :: qs).map goalOf)
        (({ style := style } : Stream).putAll (p :: qs)).text.reverse = some ls ∧
      ls.map (·.value) = v :: ws ∧ List.Forall₂ (Matches style) ls (p :: qs) := by
  obtain ⟨hafter, htext, hstyle⟩ := after_first hcompact hp hgoal
  generalize hs : ({ style := style } : Stream).putPiece p = s at hafter htext hstyle
  subst hstyle
  obtain ⟨l, htoken, hvalue, hmatch⟩ := hafter.readToken_self hp hrun
  obtain ⟨ls, hread, hvalues, hmatches⟩ := hafter.readAll_behind hrun
  refine ⟨l :: ls, ?_, ?_, .cons hmatch hmatches⟩
  · rw [Stream.putAll_cons, hs, hafter.text_putAll hrun, htext, List.reverse_append,
      List.reverse_reverse, List.reverse_reverse, List.map_cons, readAll, htoken]
    simp [hread]
  · rw [List.map_cons, hvalue, hvalues]

end EcmaPrinter.Lexical
