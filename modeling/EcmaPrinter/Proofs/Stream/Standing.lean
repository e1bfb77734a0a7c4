import EcmaPrinter.Proofs.Stream.Woven

/-!
Streams write woven text.

While a stream is written to, its text consists of what is woven already and of a gap that is still
open, for a line break may be taken back (`Standing`).  Each piece closes the gap and may open a new
one (`Standing.putPiece`), and so do statement ends and line breaks.  By induction along a path, the
text of its events is woven (`Path.follows`, `Path.woven`), in streams of either style.
-/

namespace EcmaPrinter

open EcmaPrinter.Lexical
open EcmaPrinter.Number
open EcmaPrinter.Text

/-! ### Streams between two pieces -/

/-- The characters of a number that is not NaN. -/
def Piece.numeral? (style : Style) : Piece → Option (List Char)
  | .number x => if x.isNaN then none else some ((Piece.number x).text style)
  | _ => none

/-- The stream stands behind a piece, or at the start.  Its text is what is done and an open gap. -/
structure Standing (style : Style) (p? : Option Piece) (e : Edge) (done gap : List Char)
    (s : Stream) : Prop where
  styled : s.style = style
  text : s.text = (done ++ gap).reverse
  blank : ∀ c ∈ gap, c = ' ' ∨ c = '\n'
  tight : style.isPretty = false ∨ e ∈ Edge.number :: inside → gap = []
  lineBreak : ∀ n ∈ s.lineBreak?, n ≤ gap.length
  pending : s.pending = (!style.isPretty && p? == some .statementEnd)
  number : p? ≠ some .statementEnd → s.number? = p?.bind (·.numeral? style)
  /-- Behind the marks of a template the spacing goes by them, also when a text has followed. -/
  marks : e ∈ inside → s.last = '\x60' ∨ s.last = '}'
  last : ∀ p ∈ p?, p.isRaw = false → p ≠ .statementEnd → gap = [] →
    (p.text style).getLast? = some s.last
  ending : p? = some .statementEnd → e = .operator
  numbered : ∀ x, p? = some (.number x) → e = .number
  raw : ∀ p ∈ p?, p.isRaw → e = .chunk
  start : p? = none → done = [] ∧ gap = [] ∧ s.last = '\x00'

theorem standing_start (style : Style) :
    Standing style none .operator [] [] ({ style := style } : Stream) where
  styled := rfl
  text := rfl
  blank := nofun
  tight _ := rfl
  lineBreak := nofun
  pending := by simp
  number _ := rfl
  marks h := absurd h (by decide)
  last := nofun
  ending := nofun
  numbered := nofun
  raw := nofun
  start _ := ⟨rfl, rfl, rfl⟩

/-- What is known about the gap before a piece. -/
structure Joins (style : Style) (p? : Option Piece) (q : Piece) (gap : List Char) : Prop where
  isGap : ∀ p ∈ p?, IsGap style p q gap
  start : p? = none → gap = []

/-- What is written of the piece before, now that the next one is known. -/
def afterOf (style : Style) (p? : Option Piece) (q : Piece) : List Char :=
  p?.elim [] (·.after style (some q))

variable {style : Style} {p? : Option Piece} {e : Edge} {done gap : List Char} {s : Stream}
  {q : Piece}

theorem leadChars_eq_space {cs : List Char} (h : s.number? = none ∨ cs ≠ ['.']) :
    leadChars s cs = if s.needsSpace (cs.headD ' ') cs.tail then [' '] else [] := by
  rw [leadChars, if_neg]
  rintro ⟨hsome, hpoint⟩
  rcases h with h | h
  · rw [h] at hsome
    cases hsome
  · exact h hpoint

theorem needsSpace_start (htext : s.text = []) (hlast : s.last = '\x00') (c : Char)
    (cs : List Char) : s.needsSpace c cs = false := by
  have hpart : isIdentifierPart '\x00' = false := by decide
  simp [Stream.needsSpace, Stream.merges, Stream.endsInMarkup, Stream.makesTag, htext, hlast, hpart]

theorem Stream.leadIn_of_not_pending (h : s.pending = false) (cs : List Char) :
    s.leadIn cs = leadChars s cs := by
  have hsettle : s.settle cs = s := by simp [Stream.settle, h]
  rw [Stream.leadIn, hsettle, Stream.held, h]
  rfl

namespace Standing

/-- Only behind the end of a statement is there one that is held back. -/
theorem pending_eq_false (h : Standing style p? e done gap s) (hedge : e ≠ .operator) :
    s.pending = false := by
  by_contra hpending
  have heq := h.pending
  rw [eq_true_of_ne_false hpending] at heq
  have hend : style.isPretty = false ∧ p? = some .statementEnd := by simpa using heq.symm
  exact hedge (h.ending hend.2)

/-- A piece behind which the next one makes no difference. -/
theorem afterOf_eq_nil (h : Standing style p? e done gap s) (hpending : s.pending = false)
    (hpoint : s.number? = none ∨ q ≠ .token ".") : afterOf style p? q = [] := by
  cases p? with
  | none => rfl
  | some p =>
    cases p with
    | number x =>
      show (if _ then _ else _) = _
      rw [if_neg]
      rintro ⟨hq, hdigits⟩
      have hnumber : s.number? = if x.isNaN then none else _ := h.number nofun
      split at hnumber
      · next hnan =>
        have htext : (Piece.number x).text style = Stream.nanText.toList := if_pos hnan
        rw [htext] at hdigits
        exact absurd hdigits (by decide)
      · rw [hnumber] at hpoint
        exact absurd (Option.some.inj hq) (hpoint.resolve_left nofun)
    | statementEnd =>
      have hstyle : style.isPretty = true := by
        have heq := h.pending
        rw [hpending] at heq
        simpa using heq.symm
      simp [afterOf, Piece.after, hstyle]
    | token | raw | operator | comma | semicolon => rfl

/-- Behind a template text nothing is written before a token. -/
theorem needsSpace_of_raw (h : Standing style p? e done gap s) (hq : Loose e q)
    (hraw : q.isRaw = false) {p : Piece} (hp : p ∈ p?) (hpraw : p.isRaw) {c : Char}
    {cs : List Char} (hcs : q.text style = c :: cs) : s.needsSpace c cs = false := by
  obtain rfl := h.raw p hp hpraw
  have hnumber : s.number? = none := by
    cases p with
    | raw text =>
      rw [h.number (by rw [hp]; nofun), hp]
      rfl
    | token | number | operator | comma | semicolon | statementEnd => cases hpraw
  obtain ⟨d, ds, hds, hd⟩ := hq.head_of_chunk hraw style
  obtain ⟨rfl, rfl⟩ : d = c ∧ ds = cs := by simpa [hds] using hcs
  have hmark : d ≠ '-' ∧ d ≠ '.' := by rcases hd with rfl | rfl <;> decide
  have hlead : leadChars s (d :: ds) = [] := leadChars_eq_nil (h.marks (by decide)) hmark.1 hmark.2
  rw [leadChars_eq_space (.inl hnumber)] at hlead
  by_contra hspace
  simp [hspace] at hlead

/-- A blank or nothing, behind an open gap. -/
theorem joins_space (h : Standing style p? e done gap s) (hq : Loose e q) (hraw : q.isRaw = false)
    {c : Char} {cs : List Char} (hcs : q.text style = c :: cs) :
    Joins style p? q (gap ++ if s.needsSpace c cs then [' '] else []) where
  isGap p hp := by
    constructor
    · intro d hd
      rcases List.mem_append.mp hd with hd | hd
      · exact h.blank d hd
      · split at hd
        · exact .inl (List.mem_singleton.mp hd)
        · cases hd
    · intro hcompact
      rw [h.tight (.inl hcompact), List.nil_append]
      split
      · exact .inr rfl
      · exact .inl rfl
    · rintro (hpraw | hqraw)
      · have hedge := h.raw p hp hpraw
        rw [h.tight (.inr (by rw [hedge]; decide)), h.needsSpace_of_raw hq hraw hp hpraw hcs]
        rfl
      · rw [hraw] at hqraw
        cases hqraw
    · intro hweb hnil hpraw hpend c' hc' d hd
      obtain ⟨hgap, hspace⟩ := List.append_eq_nil_iff.mp hnil
      have hlast := h.last p hp hpraw hpend hgap
      rw [hlast] at hc'
      obtain rfl := Option.some.inj hc'
      obtain rfl : c = d := by simpa [hcs] using hd
      have hneeds : s.needsSpace c cs = false := by
        by_contra hneeds
        simp [hneeds] at hspace
      simp only [Stream.needsSpace, Bool.or_eq_false_iff, h.styled, hweb, Bool.true_and] at hneeds
      exact hneeds.2
  start hp := by
    obtain ⟨rfl, rfl, hlast⟩ := h.start hp
    rw [needsSpace_start h.text hlast]
    rfl

/-- A number that the stream remembers is the piece before. -/
theorem exists_number (h : Standing style p? e done gap s) (hend : p? ≠ some .statementEnd)
    (hsome : s.number? ≠ none) :
    ∃ x, p? = some (.number x) ∧ s.number? = some ((Piece.number x).text style) := by
  have hnumber := h.number hend
  rcases p? with - | p
  · exact absurd hnumber hsome
  · cases p with
    | number x =>
      have hnumeral : s.number? = if x.isNaN then none else _ := hnumber
      refine ⟨x, rfl, ?_⟩
      split at hnumeral
      · exact absurd hnumeral hsome
      · exact hnumeral
    | token | raw | operator | comma | semicolon | statementEnd => exact absurd hnumber hsome

/-- A blank or nothing behind a statement end. -/
theorem isGap_statementEnd (hraw : q.isRaw = false) {gap : List Char}
    (h : gap = [] ∨ gap = [' ']) : IsGap style .statementEnd q gap where
  blank c hc := by
    rcases h with rfl | rfl
    · cases hc
    · exact .inl (List.mem_singleton.mp hc)
  compact _ := h
  raw hor := by
    rw [hraw] at hor
    rcases hor with hor | hor <;> cases hor
  tag _ _ _ hend := absurd rfl hend

/-- A point behind a number. -/
theorem joins_point (p? : Option Piece) : Joins style p? (.token ".") [] where
  isGap p _ := by
    refine ⟨nofun, fun _ => .inl rfl, fun _ => rfl, fun _ _ _ _ c _ d hd => ?_⟩
    obtain rfl : '.' = d := Option.some.inj hd
    simp [Stream.makesTag]
  start _ := rfl

/-- What is written before a token is the rest of the piece before it, and a gap. -/
theorem joins_leadIn (h : Standing style p? e done gap s) (hq : Loose e q)
    (hraw : q.isRaw = false) :
    ∃ gap', gap ++ s.leadIn (q.text style) = afterOf style p? q ++ gap' ∧
      Joins style p? q gap' := by
  obtain ⟨c, cs, hcs⟩ := List.exists_cons_of_ne_nil (hq.text_ne_nil style)
  cases hpending : s.pending with
  | true =>
    have hpend := h.pending
    rw [hpending] at hpend
    obtain ⟨hcompact, rfl⟩ : style.isPretty = false ∧ p? = some .statementEnd := by
      simpa using hpend.symm
    have hpoint : q.text style ≠ ['.'] := by
      intro htext
      have hallows := hq.allows
      rw [hq.eq_of_text hraw (.inl rfl) htext, h.ending rfl] at hallows
      cases hallows
    have hheld : s.held (q.text style) = afterOf style (some .statementEnd) q := by
      have hbrace : q.text style = ['}'] ↔ q = .token "\x7d" :=
        ⟨hq.eq_of_text hraw (.inr rfl), fun heq => heq ▸ rfl⟩
      simp [Stream.held, hpending, afterOf, Piece.after, hcompact, hbrace]
    refine ⟨leadChars (s.settle (q.text style)) (q.text style), ?_, ⟨fun p hp => ?_, by rintro ⟨⟩⟩⟩
    · rw [h.tight (.inl hcompact), Stream.leadIn, hheld, List.nil_append]
    · obtain rfl := Option.some.inj hp
      rw [leadChars_eq_space (.inr hpoint)]
      refine isGap_statementEnd hraw ?_
      split
      · exact .inr rfl
      · exact .inl rfl
  | false =>
    rw [Stream.leadIn_of_not_pending hpending]
    by_cases hpoint : s.number? = none ∨ q.text style ≠ ['.']
    · refine ⟨_, ?_, h.joins_space hq hraw hcs⟩
      rw [leadChars_eq_space hpoint, hcs, h.afterOf_eq_nil hpending]
      · rfl
      · refine hpoint.imp id ?_
        rintro htext rfl
        exact htext rfl
    · obtain ⟨hsome, htext⟩ : s.number? ≠ none ∧ q.text style = ['.'] := by simpa using hpoint
      obtain rfl := hq.eq_of_text hraw (.inl rfl) htext
      have hend : p? ≠ some .statementEnd := by
        intro hend
        have hallows := hq.allows
        rw [h.ending hend] at hallows
        cases hallows
      obtain ⟨x, rfl, hnumber⟩ := h.exists_number hend hsome
      have hlead : leadChars s ['.'] = afterOf style (some (.number x)) (.token ".") := by
        simp only [leadChars, hnumber, afterOf, Piece.after, Option.isSome_some, Option.any_some,
          Option.elim_some, true_and, and_true, if_true]
      refine ⟨[], ?_, joins_point _⟩
      rw [h.tight (.inr (by rw [h.numbered x rfl]; decide)), htext, hlead, List.nil_append,
        List.append_nil]

/-! ### One piece -/

/-- The stream stands behind the piece, and the text has grown by it.  The gap behind it is open
only if it is padded. -/
def Grows (style : Style) (p? : Option Piece) (q : Piece) (e : Edge) (done : List Char)
    (t : Stream) : Prop :=
  ∃ gap gap', Joins style p? q gap ∧ (q.isPadded = false → gap' = []) ∧
    Standing style (some q) e (done ++ (afterOf style p? q ++ (gap ++ q.own style))) gap' t

theorem own_eq (hq : q ≠ .statementEnd) : q.own style = q.text style := by
  cases q with
  | statementEnd => exact absurd rfl hq
  | token | raw | number | operator | comma | semicolon => rfl

/-- The marks of a template are the last characters before its texts. -/
theorem getLast?_of_inside (hraw : q.isRaw = false) (hedge : edgeOf q ∈ inside) {c : Char}
    (hc : (q.text style).getLast? = some c) : c = '\x60' ∨ c = '}' := by
  have hkind : kindOf q ≠ .number := by
    intro hkind
    simp only [edgeOf, hkind] at hedge
    exact absurd hedge (by decide)
  rw [Piece.text_eq hkind] at hc
  rcases cases_of_edge (by simpa [inside] using hedge) {} with hchunk | hchars | hchars
  · obtain ⟨text, rfl⟩ := exists_raw_of_chunk hchunk
    cases hraw
  · rw [hchars] at hc
    exact .inl (Option.some.inj hc).symm
  · rw [hchars] at hc
    exact .inr (Option.some.inj hc).symm

theorem exists_getLast? (hq : Loose e q) (style : Style) :
    ∃ c, (q.text style).getLast? = some c :=
  ⟨_, List.getLast?_eq_some_getLast (hq.text_ne_nil style)⟩

/-- The stream behind a token. -/
def putText (s : Stream) (q : Piece) : Stream :=
  { s.putChars (q.text s.style) with number? := q.numeral? s.style }

/-- A token that is put stands there with its own edge. -/
theorem standing_putText (lead : List Char) (hstyle : s.style = style) (hq : Loose e q)
    (hraw : q.isRaw = false) (hlead : (s.leadIn (q.text style)).reverse ++ s.text = lead.reverse) :
    Standing style (some q) (edgeOf q) (lead ++ q.text style) [] (putText s q) := by
  subst hstyle
  obtain ⟨c, hc⟩ := exists_getLast? hq s.style
  rw [putText, Stream.putChars_eq_leadIn s hc]
  exact
    { styled := rfl
      text := by simp [← hlead]
      blank := nofun
      tight := fun _ => rfl
      lineBreak := nofun
      pending := by simp [hq.solid]
      number := fun _ => rfl
      marks := fun hedge => getLast?_of_inside hraw hedge hc
      last := by
        rintro p ⟨⟩ - - -
        exact hc
      ending := fun hend => absurd (Option.some.inj hend) hq.solid
      numbered := by
        rintro x ⟨⟩
        rfl
      raw := by
        rintro p ⟨⟩ hpraw
        rw [hraw] at hpraw
        cases hpraw
      start := nofun }

/-- A token is put behind the rest of the piece before it, and a gap. -/
theorem grows_putText (h : Standing style p? e done gap s) (hq : Loose e q)
    (hraw : q.isRaw = false) :
    ∃ gap', Joins style p? q gap' ∧ Standing style (some q) (edgeOf q)
      (done ++ (afterOf style p? q ++ (gap' ++ q.own style))) [] (putText s q) := by
  obtain ⟨gap', hlead, hjoins⟩ := h.joins_leadIn hq hraw
  have hput := standing_putText (done ++ (afterOf style p? q ++ gap')) h.styled hq hraw
    (by simp [h.text, ← hlead])
  refine ⟨gap', hjoins, ?_⟩
  rw [own_eq hq.solid]
  simpa using hput

/-- Only numbers are remembered. -/
theorem putText_eq (s : Stream) (hq : Loose e q) (hnumber : q.numeral? s.style = none) :
    putText s q = s.putChars (q.text s.style) := by
  obtain ⟨c, hc⟩ := exists_getLast? hq s.style
  rw [putText, hnumber, Stream.putChars_eq_leadIn s hc]

/-- The edges of padded pieces. -/
theorem edgeOf_of_isPadded (hq : Loose e q) (hpadded : q.isPadded) :
    edgeOf q ∉ Edge.number :: inside := by
  have hraw : ∀ text, q ≠ .raw text := by
    rintro text rfl
    cases hpadded
  have hnumber : ∀ x, q ≠ .number x := by
    rintro x rfl
    cases hpadded
  obtain ⟨hchunk, hkind⟩ := kindOf_ne hraw hnumber
  intro hedge
  rcases List.mem_cons.mp hedge with hedge | hedge
  · unfold edgeOf punctuatorEdge at hedge
    repeat' split at hedge
    all_goals first | exact absurd ‹kindOf q = .number› hkind | cases hedge
  · have hclose := hq.close
    rcases cases_of_edge (by simpa [inside] using hedge) {} with h | h | h
    · exact hchunk h
    all_goals
      cases q with
      | operator text =>
        have htext : text = _ := String.toList_inj.mp (h.trans (String.toList_ofList ..).symm)
        rw [htext] at hclose
        simp at hclose
      | comma => cases h
      | token | raw | number | semicolon | statementEnd => cases hpadded

/-- A pretty stream writes a blank behind a padded piece. -/
theorem trail (h : Standing style (some q) (edgeOf q) done [] s) (hq : Loose e q)
    (hpretty : style.isPretty) (hpadded : q.isPadded) :
    Standing style (some q) (edgeOf q) done [' '] (s.write [' ']) := by
  have hedge := edgeOf_of_isPadded hq hpadded
  rw [write_eq (show [' '].getLast? = some ' ' from rfl)]
  refine { h with
    text := by simp [h.text]
    blank := fun c hc => .inl (List.mem_singleton.mp hc)
    tight := fun hor => ?_
    lineBreak := nofun
    marks := fun he => absurd (List.mem_cons_of_mem _ he) hedge
    last := fun _ _ _ _ hnil => absurd hnil (List.cons_ne_nil _ _)
    start := nofun }
  rcases hor with hcompact | he
  · rw [hpretty] at hcompact
    cases hcompact
  · exact absurd he hedge

/-- The blank that a pretty stream writes before an operator, if there is none. -/
def padding (s : Stream) : List Char :=
  if s.last == ' ' || s.last == '\n' || s.last == '\x00' then [] else [' ']

theorem text_pad (s : Stream) : s.pad.text = padding s ++ s.text := by
  unfold Stream.pad padding
  split
  · rfl
  · rw [write_eq (show [' '].getLast? = some ' ' from rfl)]
    rfl

theorem pad_eq_self (hlast : s.last = '\x00') : s.pad = s := by
  simp [Stream.pad, hlast]

theorem last_of_padding (h : padding s = []) : s.last ≠ '<' := by
  intro hlast
  simp [padding, hlast] at h

/-- No operator follows a template text. -/
theorem edge_ne_chunk {text : String} (hq : Loose e (.operator text)) : e ≠ .chunk := by
  rintro rfl
  have hclose := hq.close
  rcases allows_chunk hq.allows with hgoal | ⟨-, hchars⟩
  · rw [kindOf, goal_textKind] at hgoal
    cases hgoal
  · obtain rfl : text = "\x60" := String.toList_inj.mp hchars
    simp at hclose

/-- The gap before an operator in a pretty stream. -/
theorem joins_pad {text : String} (h : Standing style p? e done gap s)
    (hq : Loose e (.operator text)) (hpretty : style.isPretty) :
    Joins style p? (.operator text) (gap ++ (padding s ++ leadChars s.pad text.toList)) := by
  have hpoint : text.toList ≠ ['.'] := by
    intro hpoint
    have hclose := hq.close
    obtain rfl : text = "." := String.toList_inj.mp hpoint
    simp at hclose
  rw [leadChars_eq_space (.inr hpoint)]
  refine ⟨fun p hp => ⟨fun c hc => ?_, fun hcompact => ?_, fun hor => ?_, fun hweb hnil => ?_⟩,
    fun hp => ?_⟩
  · rcases List.mem_append.mp hc with hc | hc
    · exact h.blank c hc
    · unfold padding at hc
      repeat' split at hc
      all_goals simp_all
  · rw [hpretty] at hcompact
    cases hcompact
  · rcases hor with hpraw | hqraw
    · exact absurd (h.raw p hp hpraw) (edge_ne_chunk hq)
    · cases hqraw
  · intro hpraw hend c hc d hd
    obtain ⟨hgap, hrest⟩ := List.append_eq_nil_iff.mp hnil
    have hlast := last_of_padding (List.append_eq_nil_iff.mp hrest).1
    rw [h.last p hp hpraw hend hgap] at hc
    obtain rfl := Option.some.inj hc
    simp [Stream.makesTag, hlast]
  · obtain ⟨rfl, rfl, hlast⟩ := h.start hp
    rw [pad_eq_self hlast, needsSpace_start h.text hlast]
    simp [padding, hlast]

/-- A pretty stream writes an operator with blanks around it. -/
theorem putOperator {text : String} (h : Standing style p? e done gap s)
    (hq : Loose e (.operator text)) (hpretty : style.isPretty) :
    Grows style p? (.operator text) (edgeOf (.operator text)) done (s.putOperator text) := by
  have hpending : s.pending = false := by rw [h.pending, hpretty]; rfl
  have hpad : s.pad.pending = false ∧ s.pad.style = style := by
    unfold Stream.pad
    split <;> exact ⟨hpending, h.styled⟩
  have hput := standing_putText (done ++ (gap ++ (padding s ++ leadChars s.pad text.toList)))
    hpad.2 hq rfl ?_
  · refine ⟨_, [' '], h.joins_pad hq hpretty, nofun, ?_⟩
    rw [putText_eq _ hq rfl] at hput
    have hafter : afterOf style p? (.operator text) = [] := h.afterOf_eq_nil hpending (.inr nofun)
    have htrail := hput.trail hq hpretty rfl
    rw [Stream.putOperator_eq, h.styled, if_pos hpretty, hafter]
    simp only [List.append_assoc, List.nil_append] at htrail ⊢
    exact htrail
  · show (s.pad.leadIn text.toList).reverse ++ s.pad.text = _
    have hreverse : (padding s).reverse = padding s := by
      unfold padding
      split <;> rfl
    rw [Stream.leadIn_of_not_pending hpad.1, text_pad, h.text]
    simp [hreverse]

/-- A template text is written as it is. -/
theorem putRaw {text : String} (h : Standing style p? e done gap s) (hq : Loose e (.raw text)) :
    Grows style p? (.raw text) .chunk done (s.putRaw text) := by
  have hinside : e ∈ inside := by simpa [allows, kindOf, inside] using hq.allows
  have hgap := h.tight (.inr (List.mem_cons_of_mem _ hinside))
  have hpending : s.pending = false :=
    h.pending_eq_false (by rintro rfl; exact absurd hinside (by decide))
  have hafter : afterOf style p? (.raw text) = [] := h.afterOf_eq_nil hpending (.inr (by simp))
  have hempty : text.isEmpty = false := hq.nonempty
  refine ⟨[], [], ⟨fun p hp => ?_, fun _ => rfl⟩, fun _ => rfl, ?_⟩
  · refine ⟨List.forall_mem_nil _, fun _ => .inl rfl, fun _ => rfl,
      fun _ _ hpraw hend c hc d _ => ?_⟩
    rw [h.last p hp hpraw hend hgap] at hc
    obtain rfl := Option.some.inj hc
    rcases h.marks hinside with hlast | hlast <;> simp [Stream.makesTag, hlast]
  · rw [hafter, Stream.putRaw, hempty]
    exact
      { styled := h.styled
        text := by simp [Stream.append, h.text, hgap, Piece.own, Piece.text, charsOf]
        blank := List.forall_mem_nil _
        tight := fun _ => rfl
        lineBreak := by rintro _ ⟨⟩
        pending := by
          have hne : (some (Piece.raw text) == some .statementEnd) = false := by simp
          rw [hne, Bool.and_false]
          exact hpending
        number := fun _ => rfl
        marks := fun _ => h.marks hinside
        last := by
          rintro p ⟨⟩ hraw
          cases hraw
        ending := by rintro ⟨⟩
        numbered := by rintro _ ⟨⟩
        raw := fun _ _ _ => rfl
        start := by rintro ⟨⟩ }

/-- Every piece grows the text. -/
theorem putPiece (h : Standing style p? e done gap s) (hq : Loose e q) :
    Grows style p? q (edgeOf q) done (s.putPiece q) := by
  have hput (hraw : q.isRaw = false) (t : Stream) (ht : t = putText s q) :
      Grows style p? q (edgeOf q) done t := by
    obtain ⟨gap', hjoins, hstanding⟩ := h.grows_putText hq hraw
    exact ⟨gap', [], hjoins, fun _ => rfl, ht ▸ hstanding⟩
  have hstyle := h.styled
  cases q with
  | token text => exact hput rfl _ (putText_eq s hq rfl).symm
  | semicolon => exact hput rfl _ (putText_eq s hq rfl).symm
  | raw text => exact h.putRaw hq
  | number x =>
    refine hput rfl _ ?_
    by_cases hnan : x.isNaN
    · rw [putText_eq s hq (if_pos hnan)]
      simp [Stream.putPiece, Stream.putNumber, Piece.text, hnan, Stream.put]
    · simp [Stream.putPiece, Stream.putNumber, putText, Piece.numeral?, Piece.text, hnan,
        Stream.put, charsOf]
  | operator text =>
    cases hpretty : style.isPretty with
    | true => exact h.putOperator hq hpretty
    | false =>
      refine hput rfl _ ?_
      rw [putText_eq s hq rfl, Stream.putPiece, Stream.putOperator_eq, hstyle, hpretty]
      rfl
  | comma =>
    have hchars : s.put "," = putText s .comma := (putText_eq s hq rfl).symm
    rw [Stream.putPiece, Stream.putSeparator, hchars]
    obtain ⟨gap', hjoins, hstanding⟩ := h.grows_putText hq rfl
    cases hpretty : style.isPretty with
    | true =>
      rw [hstanding.styled, if_pos hpretty]
      exact ⟨gap', [' '], hjoins, by rintro ⟨⟩, hstanding.trail hq hpretty rfl⟩
    | false =>
      rw [hstanding.styled, if_neg (by simp [hpretty])]
      exact ⟨gap', [], hjoins, fun _ => rfl, hstanding⟩
  | statementEnd => exact absurd rfl hq.solid

/-- Behind the end of a statement it does not matter how that ended. -/
theorem toStatementEnd (h : Standing style p? e done [] s) {t : Stream} (hstyle : t.style = s.style)
    (htext : t.text = s.text) (hbreak : t.lineBreak? = s.lineBreak?)
    (hpending : t.pending = !style.isPretty) :
    Standing style (some .statementEnd) .operator done [] t where
  styled := hstyle.trans h.styled
  text := htext.trans h.text
  blank := nofun
  tight _ := rfl
  lineBreak := hbreak ▸ h.lineBreak
  pending := by simp [hpending]
  number hne := absurd rfl hne
  marks hedge := absurd hedge (by decide)
  last p hp _ hend := absurd (Option.some.inj hp).symm hend
  ending _ := rfl
  numbered := nofun
  raw := by
    rintro p ⟨⟩ hraw
    cases hraw
  start := nofun

/-- At the end of a statement there is a semicolon, or one that is held back. -/
theorem endStatement (h : Standing style p? e done gap s) (he : e ∈ ended) :
    Grows style p? .statementEnd .operator done s.endStatement := by
  have hpending := h.pending_eq_false (by rintro rfl; exact absurd he (by decide))
  have hend : afterOf style p? .statementEnd = [] := h.afterOf_eq_nil hpending (.inr (by simp))
  cases hpretty : style.isPretty with
  | true =>
    have hsemicolon : Loose e .semicolon := ⟨(allows_of_ended he).1, rfl, by rintro ⟨⟩, by simp⟩
    have hafter : afterOf style p? .semicolon = [] := h.afterOf_eq_nil hpending (.inr (by simp))
    have hstep : s.endStatement = putText s .semicolon := by
      rw [putText_eq s hsemicolon rfl, Stream.endStatement, h.styled, if_pos hpretty]
      rfl
    obtain ⟨gap', ⟨hgap, hstart⟩, hstanding⟩ := h.grows_putText hsemicolon rfl
    refine ⟨gap', [], ⟨fun p hp => ?_, hstart⟩, fun _ => rfl, ?_⟩
    · obtain ⟨hblank, hcompact, hraw, htag⟩ := hgap p hp
      exact ⟨hblank, hcompact, hraw, htag⟩
    · have hheld : (putText s .semicolon).pending = !style.isPretty := by
        rw [hstanding.pending, hpretty]
        rfl
      have hmarked := hstanding.toStatementEnd rfl rfl rfl hheld
      rw [hafter] at hmarked
      rw [hstep, hend, Piece.own, if_pos hpretty]
      exact hmarked
  | false =>
    obtain rfl := h.tight (.inl hpretty)
    have hstep : s.endStatement = { s with pending := true } := by
      simp [Stream.endStatement, h.styled, hpretty]
    refine ⟨[], [], ⟨fun p hp => ?_, fun _ => rfl⟩, fun _ => rfl, ?_⟩
    · refine ⟨List.forall_mem_nil _, fun _ => .inl rfl, fun _ => rfl, fun _ _ _ _ c _ d hd => ?_⟩
      obtain rfl : ';' = d := Option.some.inj hd
      simp [Stream.makesTag]
    · rw [hstep, hend, Piece.own, if_neg (by simp [hpretty])]
      simpa using h.toStatementEnd (t := { s with pending := true }) rfl rfl rfl (by simp [hpretty])

/-- An empty template text leaves the stream alone. -/
theorem putRaw_empty (h : Standing style p? e done gap s) (he : e ∈ inside) :
    s.putPiece (.raw "") = s := by
  refine putPiece_raw_empty ?_
  have hend : p? ≠ some .statementEnd := by
    intro hend
    rw [h.ending hend] at he
    exact absurd he (by decide)
  by_contra hsome
  obtain ⟨x, hx, -⟩ := h.exists_number hend hsome
  rw [h.numbered x hx] at he
  exact absurd he (by decide)

/-! ### Line breaks -/

/-- Where a line may start, the edge counts as that of a line break. -/
theorem turn (h : Standing style p? e done gap s) (he : e ∈ between) :
    Standing style p? (turned e) done gap s := by
  have hturned : ∀ e ∈ between, turned e ∉ Edge.number :: inside := by decide
  refine { h with
    tight := fun hor => h.tight (hor.imp id fun hmem => absurd hmem (hturned e he))
    marks := fun hmem => absurd (List.mem_cons_of_mem _ hmem) (hturned e he)
    ending := fun hend => ?_
    numbered := fun x hx => ?_
    raw := fun p hp hraw => ?_ }
  · rw [h.ending hend]
    rfl
  · rw [h.numbered x hx] at he
    exact absurd he (by decide)
  · rw [h.raw p hp hraw] at he
    exact absurd he (by decide)

/-- A line break that is taken back was part of the gap. -/
theorem joinLine (h : Standing style p? e done gap s) :
    ∃ gap', s.joinLine.text = (done ++ gap').reverse ∧ ∀ c ∈ gap', c = ' ' ∨ c = '\n' := by
  unfold Stream.joinLine
  split
  · next n hn =>
    have hlength := h.lineBreak n hn
    refine ⟨gap.take (gap.length - n), ?_, fun c hc => h.blank c (List.mem_of_mem_take hc)⟩
    show s.text.drop n = _
    rw [h.text, List.reverse_append, List.reverse_append, List.drop_append_of_le_length (by simpa),
      List.drop_reverse]
  · exact ⟨gap, h.text, h.blank⟩

/-- A line break is written into the gap. -/
theorem breakLine (h : Standing style p? e done gap s) (he : e ∈ between) (hpretty : style.isPretty)
    (htext : s.text ≠ []) (width : Nat) :
    ∃ gap', Standing style p? (turned e) done gap' (s.joinLine.breakLine width) := by
  obtain ⟨gap', hjoin, hblank⟩ := h.joinLine
  have hturned : ∀ e ∈ between, turned e ∉ Edge.number :: inside := by decide
  have hkept : s.joinLine.style = s.style ∧ s.joinLine.pending = s.pending := by
    unfold Stream.joinLine
    split <;> exact ⟨rfl, rfl⟩
  have hnumber : p?.bind (·.numeral? style) = none := by
    rcases p? with - | p
    · rfl
    · cases p with
      | number x =>
        rw [h.numbered x rfl] at he
        exact absurd he (by decide)
      | token | raw | operator | comma | semicolon | statementEnd => rfl
  refine ⟨gap' ++ '\n' :: List.replicate width ' ',
    { h.turn he with
      styled := hkept.1.trans h.styled
      text := by simp [Stream.breakLine, hjoin]
      blank := fun c hc => ?_
      tight := fun hor => ?_
      lineBreak := fun n hn => ?_
      pending := hkept.2.trans h.pending
      number := fun _ => hnumber.symm
      marks := fun hmem => absurd (List.mem_cons_of_mem _ hmem) (hturned e he)
      last := fun p _ _ _ hnil => by simp at hnil
      start := fun hp => ?_ }⟩
  · rcases List.mem_append.mp hc with hc | hc
    · exact hblank c hc
    · rcases List.mem_cons.mp hc with rfl | hc
      · exact .inr rfl
      · exact .inl (List.eq_of_mem_replicate hc)
  · rcases hor with hcompact | hmem
    · rw [hpretty] at hcompact
      cases hcompact
    · exact absurd hmem (hturned e he)
  · obtain rfl : width + 1 = n := Option.some.inj hn
    simp
  · obtain ⟨rfl, rfl, -⟩ := h.start hp
    exact absurd h.text htext

theorem newline (h : Standing style p? e done gap s) (he : e ∈ between) (d : Nat) :
    ∃ gap', Standing style p? (turned e) done gap' (s.atDepth d).newline := by
  have hdepth : Standing style p? e done gap (s.atDepth d) := { h with }
  unfold Stream.newline
  split
  · exact ⟨gap, hdepth.turn he⟩
  · next width hwidth =>
    split
    · exact ⟨gap, hdepth.turn he⟩
    · next htext =>
      have hpretty : style.isPretty := by simp [← hdepth.styled, Style.isPretty, hwidth]
      exact hdepth.breakLine he hpretty (by simpa using htext) _

end Standing

/-! ### Whole paths -/

/-- Does the text end with the event? -/
def Event.isFirm : Event → Bool
  | .piece p => !p.isPadded
  | .lineBreak => false

theorem follows_cons {gap rest : List Char} {qs : List Piece} (hjoins : Joins style p? q gap)
    (h : Follows style (some q) qs rest) :
    Follows style p? (q :: qs) (afterOf style p? q ++ (gap ++ (q.own style ++ rest))) := by
  cases p? with
  | none =>
    rw [hjoins.start rfl]
    exact ⟨rest, rfl, h⟩
  | some p => exact ⟨gap, rest, rfl, hjoins.isGap p rfl, h⟩

/-- The text that follows a piece follows the one before it as well, with the piece itself. -/
theorem Standing.Grows.follows {t : Stream} {qs : List Piece} (h : Grows style p? q e done s)
    (hnext : ∀ {done gap}, Standing style (some q) e done gap s → (q.isPadded = false → gap = []) →
      ∃ rest, t.text = (done ++ rest).reverse ∧ Follows style (some q) qs rest) :
    ∃ rest, t.text = (done ++ rest).reverse ∧ Follows style p? (q :: qs) rest := by
  obtain ⟨gap, gap', hjoins, hgap, hstanding⟩ := h
  obtain ⟨rest, htext, hrest⟩ := hnext hstanding hgap
  exact ⟨_, by simpa using htext, follows_cons hjoins hrest⟩

/-- The text of the events on a path follows what stands before them. -/
theorem Lexical.Path.follows {es : List Event} {e' : Edge} {t : Stream} (h : Path Loose e es e')
    (hlays : Lays s es t) (hs : Standing style p? e done gap s)
    (hfirm : ∀ event ∈ es.getLast?, event.isFirm) (hgap : es = [] → gap = []) :
    ∃ rest, t.text = (done ++ rest).reverse ∧ Follows style p? (solid (Event.pieces es)) rest := by
  induction h generalizing s p? done gap with
  | nil e =>
    obtain rfl := hgap rfl
    cases hlays with
    | done s d => exact ⟨[], hs.text, rfl⟩
  | @empty e e' es he h ih =>
    cases hlays with
    | put hlays =>
      rw [hs.putRaw_empty he] at hlays
      exact ih hlays hs (fun event hmem => hfirm event (List.mem_getLast?_cons hmem))
        fun _ => hs.tight (.inr (List.mem_cons_of_mem _ he))
  | @ending e e' es he h ih =>
    cases hlays with
    | put hlays =>
      refine (hs.endStatement he).follows fun hs hgap => ?_
      exact ih hlays hs (fun event hmem => hfirm event (List.mem_getLast?_cons hmem))
        fun _ => hgap rfl
  | @token e e' p es hp h ih =>
    have hsolid : solid (Event.pieces (.piece p :: es)) = p :: solid (Event.pieces es) := by
      simp [solid, hp.nonempty]
    rw [hsolid]
    cases hlays with
    | put hlays =>
      refine (hs.putPiece hp).follows fun hs hgap => ?_
      have hfirm' := fun event hmem => hfirm event (List.mem_getLast?_cons hmem)
      refine ih hlays hs hfirm' fun hnil => ?_
      have hlast := hfirm (.piece p) (by simp [hnil])
      exact hgap (by simpa [Event.isFirm] using hlast)
  | @turn e e' es he h ih =>
    have hnil : es ≠ [] := by
      rintro rfl
      cases hfirm .lineBreak rfl
    have hfirm : ∀ event ∈ es.getLast?, event.isFirm :=
      fun event hmem => hfirm event (List.mem_getLast?_cons hmem)
    cases hlays with
    | turn d hlays =>
      obtain ⟨gap', hs⟩ := hs.newline he d
      exact ih hlays hs hfirm fun heq => absurd heq hnil
    | stay hlays => exact ih hlays (hs.turn he) hfirm fun heq => absurd heq hnil

/-- The text of a whole path is woven from its pieces. -/
theorem Lexical.Path.woven {es : List Event} {e' : Edge} {t : Stream}
    (h : Path Loose .operator es e') (hlays : Lays ({ style := style } : Stream) es t)
    (hfirm : ∀ event ∈ es.getLast?, event.isFirm) :
    Woven style (solid (Event.pieces es)) t.text.reverse := by
  obtain ⟨rest, htext, hfollows⟩ := h.follows hlays (standing_start style) hfirm fun _ => rfl
  rw [htext, List.reverse_reverse]
  exact hfollows.woven

end EcmaPrinter
