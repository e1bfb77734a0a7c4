import EcmaPrinter.Proofs.Fragment.Events
import EcmaPrinter.Proofs.Lexical.Edge

/-!
Paths from edge to edge along the events of code.

Empty pieces, statement ends and line breaks are no tokens: the first leave a stream alone, the
second are written as semicolons or not at all, depending on what comes next, and the third are for
pretty streams.  A path says where each of them may stand.  What may follow an edge is up to a rule.

By the rule of the table, `Table`, the text of the pieces on a path is in a compact stream the text
of their tokens (`Path.text_putAll`), and the tokens follow each other by the table (`Path.linked`).
-/

namespace EcmaPrinter.Lexical

open EcmaPrinter
open EcmaPrinter.Number
open EcmaPrinter.Text

/-! ### Paths -/

/-- The edges behind which a statement may end. -/
def ended : List Edge := [.word, .number, .slash, .closed, .tick, .brace]

/-- The edges inside a template. -/
def inside : List Edge := [.tick, .brace, .chunk]

/-- The edges behind statements, where the next line may start. -/
def between : List Edge := [.operator, .closed, .brace]

/-- The edge behind a line break.  A brace at the end of a line is not that of a substitution. -/
def turned (e : Edge) : Edge :=
  if e = .brace then .closed else e

/-- A rule tells which pieces may follow an edge. -/
abbrev Rule := Edge → Piece → Prop

/-- The events lead from one edge to another.  A statement end counts as an operator, since no
operator may follow it. -/
inductive Path (rule : Rule) : Edge → List Event → Edge → Prop
  | nil (e : Edge) : Path rule e [] e
  | empty {e e' : Edge} {es : List Event} (he : e ∈ inside) (h : Path rule e es e') :
      Path rule e (.piece (.raw "") :: es) e'
  | ending {e e' : Edge} {es : List Event} (he : e ∈ ended) (h : Path rule .operator es e') :
      Path rule e (.piece .statementEnd :: es) e'
  | token {e e' : Edge} {p : Piece} {es : List Event} (hp : rule e p)
      (h : Path rule (edgeOf p) es e') : Path rule e (.piece p :: es) e'
  | turn {e e' : Edge} {es : List Event} (he : e ∈ between) (h : Path rule (turned e) es e') :
      Path rule e (.lineBreak :: es) e'

section

variable {rule rule' : Rule} {e e' e'' : Edge} {p : Piece} {es es' : List Event}

theorem Path.append (h : Path rule e es e') (h' : Path rule e' es' e'') :
    Path rule e (es ++ es') e'' := by
  induction h with
  | nil => exact h'
  | empty he _ ih => exact .empty he (ih h')
  | ending he _ ih => exact .ending he (ih h')
  | token hp _ ih => exact .token hp (ih h')
  | turn he _ ih => exact .turn he (ih h')

theorem Path.single (hp : rule e p) : Path rule e [.piece p] (edgeOf p) :=
  .token hp (.nil _)

theorem Path.mono (hrule : ∀ e p, rule e p → rule' e p) (h : Path rule e es e') :
    Path rule' e es e' := by
  induction h with
  | nil e => exact .nil e
  | empty he _ ih => exact .empty he ih
  | ending he _ ih => exact .ending he ih
  | token hp _ ih => exact .token (hrule _ _ hp) ih
  | turn he _ ih => exact .turn he ih

/-- Before its end a statement leads to an edge where it may end. -/
theorem Path.of_append_statementEnd (hrule : ∀ e p, rule e p → p ≠ .statementEnd)
    (h : Path rule e (es ++ [.piece .statementEnd]) e') : ∃ m ∈ ended, Path rule e es m := by
  induction es generalizing e with
  | nil =>
    cases h with
    | ending he => exact ⟨e, he, .nil e⟩
    | token hp => exact absurd rfl (hrule _ _ hp)
  | cons event es ih =>
    cases h with
    | empty he h =>
      obtain ⟨m, hm, h⟩ := ih h
      exact ⟨m, hm, .empty he h⟩
    | ending he h =>
      obtain ⟨m, hm, h⟩ := ih h
      exact ⟨m, hm, .ending he h⟩
    | token hp h =>
      obtain ⟨m, hm, h⟩ := ih h
      exact ⟨m, hm, .token hp h⟩
    | turn he h =>
      obtain ⟨m, hm, h⟩ := ih h
      exact ⟨m, hm, .turn he h⟩

end

/-- The rule of the table, for sound tokens. -/
def Table (style : Style) : Rule := fun e p => Sound style p ∧ allows e p

variable {style : Style} {e e' : Edge} {p : Piece} {ps qs : List Piece} {es : List Event}

theorem Sound.ne_statementEnd (h : Sound style p) : p ≠ .statementEnd := by
  obtain ⟨v, hreads, -⟩ := h.reads
  exact hreads.solid

theorem Sound.isEmpty_eq_false (h : Sound style p) : p.isEmpty = false := by
  obtain ⟨v, hreads, -⟩ := h.reads
  have hne := hreads.spelling.ne_nil
  cases p with
  | token text | raw text | operator text =>
    by_contra hempty
    exact hne (by simpa [charsOf, Piece.isEmpty] using hempty)
  | number | comma | semicolon | statementEnd => rfl

/-! ### Statement ends that are held back -/

theorem leadChars_semicolon (s : Stream) : leadChars s [';'] = [] := by
  have hpart : isIdentifierPart ';' = false := by decide
  have hmerges : Stream.merges s.last ';' = false := by
    by_cases hlast : s.last = ';'
    · rw [hlast]
      decide
    · simp [Stream.merges, hlast, hpart]
  have htag : Stream.makesTag s.last ';' = false := by simp [Stream.makesTag]
  simp [leadChars, Stream.needsSpace, hmerges, htag, List.isPrefixOf]

variable {s : Stream}

/-- A statement end that is held back is written before the next token, if that is no brace. -/
theorem putChars_pending (hpending : s.pending = false) {cs : List Char} (hne : cs ≠ [])
    (hpoint : cs ≠ ['.']) :
    ({ s with pending := true } : Stream).putChars cs =
      if cs = ['}'] then s.putChars cs else (s.putChars [';']).putChars cs := by
  obtain ⟨style, text, last, number?, pending, depth, lineBreak?⟩ := s
  obtain rfl : pending = false := hpending
  obtain ⟨first, rest, rfl⟩ := List.exists_cons_of_ne_nil hne
  have hpoint : (first :: rest == ['.']) = false := by simpa using hpoint
  split
  · next hbrace =>
    rw [hbrace]
    cases number? <;> rfl
  · next hbrace =>
    have hbrace : (first :: rest == ['}']) = false := by simpa using hbrace
    rw [putChars_eq (s := ⟨style, text, last, number?, false, depth, lineBreak?⟩) rfl
      (show [';'].getLast? = some ';' from rfl), leadChars_semicolon]
    cases number? with
    | none => simp [Stream.putChars, Stream.settle, hbrace, Stream.write, Stream.append]
    | some number =>
      simp [Stream.putChars, Stream.settle, hbrace, hpoint, Stream.write, Stream.append]

/-- No member access follows an operator. -/
theorem Sound.chars_ne_point (hp : Sound style p) (hallows : allows .operator p) :
    charsOf style p ≠ ['.'] := by
  intro hpoint
  obtain ⟨v, hreads, -⟩ := hp.reads
  obtain ⟨hgoal, hmark⟩ := allows_operator hallows
  have hspelling := hreads.spelling
  rw [hpoint] at hspelling
  rcases hspelling.head rfl with ⟨-, h⟩ | ⟨hkind, -⟩ | ⟨-, h⟩ | ⟨-, h⟩ | ⟨hkind, -⟩ | h
  · rcases h with h | h <;> cases h
  · rw [hkind] at hspelling
    cases hspelling with
    | number h => cases h.isIdentifierPart_getLast '.' rfl
  · cases h
  · cases h
  · rw [charsOf_eq (by rw [hkind]; decide)] at hpoint
    exact (hmark hkind).1 hpoint
  · exact hgoal h

theorem putPiece_number (s : Stream) {x : Double} (hnan : x.isNaN = false) :
    s.putPiece (.number x) =
      { s.putChars (charsOf s.style (.number x)) with
        number? := some (charsOf s.style (.number x)) } := by
  simp [Stream.putPiece, Stream.putNumber, hnan, Stream.put, charsOf]

/-- The same for pieces. -/
theorem putPiece_pending (hcompact : s.IsCompact) (hpending : s.pending = false)
    (hp : Sound s.style p) (hallows : allows .operator p) :
    ({ s with pending := true } : Stream).putPiece p =
      if p = .token "\x7d" then s.putPiece p else (s.putPiece .semicolon).putPiece p := by
  obtain ⟨v, hreads, -⟩ := hp.reads
  have hput := putChars_pending hpending hreads.spelling.ne_nil (hp.chars_ne_point hallows)
  have hchunk : kindOf p ≠ .chunk := by
    intro hchunk
    have hgoal := (allows_operator hallows).1
    rw [hchunk] at hgoal
    exact hgoal rfl
  have hbrace : charsOf s.style p = ['}'] ↔ p = .token "\x7d" := by
    refine ⟨hp.brace hchunk, ?_⟩
    rintro rfl
    rfl
  have hstyle : (s.putPiece .semicolon).style = s.style := Stream.style_put s ";"
  by_cases hnumber : ∃ x, p = .number x
  · obtain ⟨x, rfl⟩ := hnumber
    have hnan := hreads.number x rfl
    rw [if_neg (by rw [hbrace]; nofun)] at hput
    rw [if_neg nofun, putPiece_number _ hnan, putPiece_number _ hnan, hstyle]
    show ({ ({ s with pending := true } : Stream).putChars (charsOf s.style (.number x)) with
      number? := some (charsOf s.style (.number x)) } : Stream) = _
    rw [hput]
    rfl
  · have hnumber : ∀ x, p ≠ .number x := fun x heq => hnumber ⟨x, heq⟩
    have hraw : ∀ text, p ≠ .raw text := by
      rintro text rfl
      cases hallows
    have hcompact' : ({ s with pending := true } : Stream).IsCompact := hcompact
    rw [putPiece_eq_putChars hcompact' hraw hnumber hreads.solid]
    rw [putPiece_eq_putChars hcompact hraw hnumber hreads.solid]
    rw [putPiece_eq_putChars (hcompact.putPiece .semicolon) hraw hnumber hreads.solid, hstyle]
    simp only [hbrace] at hput
    exact hput

/-! ### The text of a path -/

/-- The stream stands behind a token with this edge. -/
structure Behind (style : Style) (s : Stream) (e : Edge) : Prop where
  style : s.style = style
  compact : s.IsCompact
  pending : s.pending = false
  number : e ≠ .number → s.number? = none

theorem Behind.putPiece {s : Stream} (hstyle : s.style = style) (hcompact : s.IsCompact)
    (hpending : s.pending = false) (hp : Sound style p) :
    Behind style (s.putPiece p) (edgeOf p) := by
  subst hstyle
  obtain ⟨v, hreads, -⟩ := hp.reads
  have heq := putPiece_eq hcompact hpending hreads
  refine ⟨by rw [heq], hcompact.putPiece p, by rw [heq]; exact hpending, fun hedge => ?_⟩
  have hkind : kindOf p ≠ .number := by
    intro hkind
    simp only [edgeOf, hkind] at hedge
    exact hedge rfl
  rw [heq]
  exact if_neg hkind

theorem sound_semicolon (style : Style) : Sound style .semicolon where
  reads :=
    have hmem : [';'] ∈ punctuators := by decide
    ⟨.punctuator [';'], ⟨nofun, nofun, .punctuator hmem⟩, nofun⟩
  word := nofun
  brace _ h := absurd (show [';'] = ['}'] from h) (by decide)
  plain := nofun

/-- An empty template text leaves the stream alone. -/
theorem putPiece_raw_empty (hnumber : s.number? = none) : s.putPiece (.raw "") = s := by
  obtain ⟨style, text, last, number?, pending, depth, lineBreak?⟩ := s
  obtain rfl : number? = none := hnumber
  rfl

theorem number_not_mem_inside : Edge.number ∉ inside := by decide

/-- Pieces without the empty ones. -/
def solid (ps : List Piece) : List Piece :=
  ps.filter (!·.isEmpty)

theorem solid_raw_empty_cons : solid (.raw "" :: ps) = solid ps := rfl

theorem Sound.solid_cons (hp : Sound style p) : solid (p :: ps) = p :: solid ps := by
  simp [solid, hp.isEmpty_eq_false]

theorem Sound.settle_cons (hp : Sound style p) : settle (p :: ps) = p :: settle ps := by
  rw [settle, if_neg hp.ne_statementEnd]

/-- A statement end is written unless a brace follows it. -/
theorem Sound.settle_statementEnd_cons (hp : Sound style p) :
    settle (.statementEnd :: p :: ps) =
      if p = .token "\x7d" then p :: settle ps else .semicolon :: p :: settle ps := by
  rw [settle, if_pos rfl, hp.settle_cons]
  by_cases hbrace : p = .token "\x7d" <;> simp [endsVisibly, hbrace]

theorem Behind.turned {s : Stream} (h : Behind style s e) (he : e ∈ between) :
    Behind style s (turned e) where
  style := h.style
  compact := h.compact
  pending := h.pending
  number _ := h.number fun heq => absurd (heq ▸ he) (by decide)

/-- The text of pieces is the text of their tokens, also where a statement end was held back
before them. -/
theorem Path.text_settle (h : Path (Table style) e es e') :
    (∀ s : Stream, Behind style s e →
        (s.putAll (Event.pieces es)).text = (s.putAll (settle (solid (Event.pieces es)))).text) ∧
      (e = .operator → ∀ s : Stream, s.style = style → s.IsCompact → s.pending = false →
        (({ s with pending := true } : Stream).putAll (Event.pieces es)).text =
          (s.putAll (settle (.statementEnd :: solid (Event.pieces es)))).text) := by
  induction h with
  | nil e => exact ⟨fun s hs => rfl, fun _ s _ _ _ => rfl⟩
  | @empty e e' es he h ih =>
    rw [Event.pieces_cons_piece, solid_raw_empty_cons]
    constructor
    · intro s hs
      have hput := putPiece_raw_empty (hs.number fun heq => number_not_mem_inside (heq ▸ he))
      rw [Stream.putAll_cons, hput]
      exact ih.1 s hs
    · rintro rfl
      exact absurd he (by decide)
  | @ending e e' es he h ih =>
    constructor
    · intro s hs
      have hput : s.putPiece .statementEnd = { s with pending := true } :=
        hs.compact.endStatement_eq
      rw [Event.pieces_cons_piece, Stream.putAll_cons, hput]
      exact ih.2 rfl s hs.style hs.compact hs.pending
    · rintro rfl
      exact absurd he (by decide)
  | @token e e' p es hp h ih =>
    obtain ⟨hp, hallows⟩ := hp
    rw [Event.pieces_cons_piece, hp.solid_cons]
    constructor
    · intro s hs
      rw [hp.settle_cons, Stream.putAll_cons, Stream.putAll_cons]
      exact ih.1 _ (Behind.putPiece hs.style hs.compact hs.pending hp)
    · rintro rfl s rfl hcompact hpending
      rw [Stream.putAll_cons, putPiece_pending hcompact hpending hp hallows,
        hp.settle_statementEnd_cons]
      split
      · exact ih.1 _ (Behind.putPiece rfl hcompact hpending hp)
      · have hsemicolon := Behind.putPiece rfl hcompact hpending (sound_semicolon s.style)
        exact ih.1 _
          (Behind.putPiece hsemicolon.style hsemicolon.compact hsemicolon.pending hp)
  | turn he h ih =>
    refine ⟨fun s hs => ih.1 s (hs.turned he), ?_⟩
    rintro rfl
    exact ih.2 rfl

/-- In a stream of its own, a path has the text of its tokens. -/
theorem Path.text_putAll (hcompact : style.indent? = none) (h : Path (Table style) e es e') :
    (({ style := style } : Stream).putAll (Event.pieces es)).text =
      (({ style := style } : Stream).putAll (tokens (Event.pieces es))).text :=
  h.text_settle.1 _ ⟨rfl, hcompact, rfl, fun _ => rfl⟩

/-! ### The tokens of a path -/

/-- Tokens that follow an edge and each other by the table, and do not end inside a template. -/
def Linked (style : Style) : Edge → List Piece → Prop
  | e, [] => e ≠ .chunk
  | e, q :: qs => Sound style q ∧ allows e q ∧ Linked style (edgeOf q) qs

/-- What may follow an operator may follow a semicolon. -/
theorem allows_closed {q : Piece} (h : allows .operator q) : allows .closed q := by
  cases hkind : kindOf q <;> simp_all [allows, allowsPunctuator]

/-- A semicolon or a brace may stand where a statement ends. -/
theorem allows_of_ended (he : e ∈ ended) : allows e .semicolon ∧ allows e (.token "\x7d") := by
  have hall : ∀ e ∈ ended, allows e .semicolon ∧ allows e (.token "\x7d") := by decide
  exact hall e he

/-- What may start a line may follow the brace before it. -/
theorem Linked.of_turned (h : Linked style (turned e) ps) : Linked style e ps := by
  unfold turned at h
  split at h
  · next he =>
    subst he
    cases ps with
    | nil => exact nofun
    | cons q qs =>
      obtain ⟨hq, hallows, h⟩ := h
      refine ⟨hq, ?_, h⟩
      cases hkind : kindOf q <;> simp_all [allows, allowsPunctuator]
  · exact h

theorem Path.linked_settle (h : Path (Table style) e es e') (he' : e' ≠ .chunk) :
    Linked style e (settle (solid (Event.pieces es))) ∧
      (e = .operator → ∀ e₀ ∈ ended,
        Linked style e₀ (settle (.statementEnd :: solid (Event.pieces es)))) := by
  induction h with
  | nil e =>
    refine ⟨he', fun _ e₀ he₀ => ?_⟩
    show e₀ ≠ .chunk
    rintro rfl
    exact absurd he₀ (by decide)
  | empty he h ih =>
    rw [Event.pieces_cons_piece, solid_raw_empty_cons]
    exact ih he'
  | @ending e e' es he h ih =>
    refine ⟨(ih he').2 rfl e he, ?_⟩
    rintro rfl
    exact absurd he (by decide)
  | @token e e' p es hp h ih =>
    obtain ⟨hp, hallows⟩ := hp
    rw [Event.pieces_cons_piece, hp.solid_cons]
    constructor
    · rw [hp.settle_cons]
      exact ⟨hp, hallows, (ih he').1⟩
    · rintro rfl e₀ he₀
      obtain ⟨hsemicolon, hbrace⟩ := allows_of_ended he₀
      rw [hp.settle_statementEnd_cons]
      split
      · next heq =>
        exact ⟨hp, heq ▸ hbrace, (ih he').1⟩
      · exact ⟨sound_semicolon style, hsemicolon, hp, allows_closed hallows, (ih he').1⟩
  | turn he h ih =>
    refine ⟨(ih he').1.of_turned, ?_⟩
    rintro rfl
    exact (ih he').2 rfl

theorem Path.linked (h : Path (Table style) e es e') (he' : e' ≠ .chunk) :
    Linked style e (tokens (Event.pieces es)) :=
  (h.linked_settle he').1

/-! ### Reading a path back -/

/-- Neighbours that do not run together. -/
def Clear (p q : Piece) : Prop :=
  clashes p q = false ∧ glues p q = false

/-- Linked tokens that are clear of each other can be put one after the other. -/
theorem Linked.run {vs : List Value} (hp : Sound style p) (h : Linked style (edgeOf p) qs)
    (hvs : List.Forall₂ (Reads style) qs vs) (hclear : List.IsChain Clear (p :: qs)) :
    Run style p qs vs := by
  induction qs generalizing p vs with
  | nil =>
    refine ⟨hvs, .singleton p, fun q hq hkind => ?_⟩
    obtain rfl : p = q := by simpa using hq
    simp only [Linked, edgeOf, hkind] at h
    exact h rfl
  | cons q qs ih =>
    obtain ⟨hq, hallows, h⟩ := h
    cases hvs with
    | cons hv hvs =>
      cases hclear with
      | cons_cons hpq hclear =>
        have hrun := ih hq h hvs hclear
        refine ⟨.cons hv hrun.reads, .cons_cons ?_ hrun.apart, fun r hr => ?_⟩
        · exact apart_of_allows hp hq hallows hpq.1 hpq.2
        · exact hrun.ends r (by simpa using hr)

/-- The text of linked tokens that are clear of each other is read as the tokens. -/
theorem Linked.readAll {vs : List Value} (hcompact : style.indent? = none)
    (h : Linked style .operator ps) (hvs : List.Forall₂ (Reads style) ps vs)
    (hclear : List.IsChain Clear ps) :
    ∃ ls, Lexical.readAll (ps.map goalOf)
        (({ style := style } : Stream).putAll ps).text.reverse = some ls ∧
      ls.map (·.value) = vs ∧ List.Forall₂ (Matches style) ls ps := by
  cases hvs with
  | nil => exact ⟨[], rfl, rfl, .nil⟩
  | cons hv hvs =>
    obtain ⟨hp, hallows, h⟩ := h
    exact readAll_putAll hcompact hv (allows_operator hallows).1 (h.run hp hvs hclear)

/-- Linked tokens have values that they stand for. -/
theorem Linked.exists_values (h : Linked style e ps) :
    ∃ vs, List.Forall₂ (Reads style) ps vs ∧ List.Forall₂ Stands ps vs := by
  induction ps generalizing e with
  | nil => exact ⟨[], .nil, .nil⟩
  | cons p ps ih =>
    obtain ⟨hp, -, h⟩ := h
    obtain ⟨v, hv, hstands⟩ := hp.reads
    obtain ⟨vs, hvs, hall⟩ := ih h
    exact ⟨v :: vs, .cons hv hvs, .cons hstands hall⟩

/-- In a style that is not for the web no token starts with an escape. -/
theorem Linked.not_glues (hstyle : style.webSafe = false) (h : Linked style e ps) :
    ∀ p, ∀ q ∈ ps, glues p q = false := by
  induction ps generalizing e with
  | nil => nofun
  | cons r ps ih =>
    obtain ⟨hr, -, h⟩ := h
    intro p q hq
    rcases List.mem_cons.mp hq with rfl | hq
    · by_cases hword : kindOf q = .word
      · have hplain := hr.plain hword hstyle
        rw [charsOf_eq (by rw [hword]; decide)] at hplain
        have hhead : (charsOf {} q).head? ≠ some backslash :=
          fun hhead => hplain (List.mem_of_mem_head? hhead)
        simp [glues, hhead]
      · simp [glues, hword]
    · exact ih h p q hq

/-- No two neighbours run together by the table. -/
def Separable (ps : List Piece) : Prop :=
  List.IsChain (fun p q => clashes p q = false) ps

theorem Linked.clear (hstyle : style.webSafe = false) (h : Linked style e ps)
    (hsep : Separable ps) : List.IsChain Clear ps := by
  have hglue := h.not_glues hstyle
  clear h
  unfold Separable at hsep
  induction hsep with
  | nil => exact .nil
  | singleton p => exact .singleton p
  | @cons_cons p q ps hpq _ ih =>
    have hq := hglue p q (by simp)
    exact .cons_cons ⟨hpq, hq⟩ (ih fun r t ht => hglue r t (List.mem_cons_of_mem p ht))

/-- The token that was read is the one that was put.  Numbers are compared by the doubles that they
round to. -/
def Denotes (l : Lexeme) : Piece → Prop
  | .number x => ∃ q, l.value = .number q ∧ Double.Rounds q x
  | p => l.chars = charsOf {} p

theorem denotes_of_matches {l : Lexeme} (hmatch : Matches {} l p) (hstands : Stands p l.value) :
    Denotes l p := by
  by_cases hnumber : ∃ x, p = .number x
  · obtain ⟨x, rfl⟩ := hnumber
    exact hstands x rfl
  · have hkind : kindOf p ≠ .number := by
      intro hkind
      by_cases hraw : ∃ text, p = .raw text
      · obtain ⟨text, rfl⟩ := hraw
        cases hkind
      · exact (kindOf_ne (fun text heq => hraw ⟨text, heq⟩)
          fun x heq => hnumber ⟨x, heq⟩).2 hkind
    cases p with
    | number x => exact absurd ⟨x, rfl⟩ hnumber
    | token | raw | operator | comma | semicolon | statementEnd => exact hmatch hkind

/-- What was read stands for the tokens. -/
theorem forall₂_denotes {ls : List Lexeme} (hmatch : List.Forall₂ (Matches {}) ls ps)
    (hstands : List.Forall₂ Stands ps (ls.map (·.value))) : List.Forall₂ Denotes ls ps := by
  induction hmatch with
  | nil => exact .nil
  | cons hl _ ih =>
    rw [List.map_cons] at hstands
    cases hstands with
    | cons hp hps => exact .cons (denotes_of_matches hl hp) (ih hps)

end EcmaPrinter.Lexical
