import EcmaPrinter.Proofs.Render.Layout
import EcmaPrinter.Proofs.Text.Seam
import EcmaPrinter.Proofs.Text.Tag

/-!
Text for the web can be inlined.

Web-safe text is plain, and there is no script tag in it.  Each piece is safe by itself: names and
literals are spelled so, and a regular expression or a tagged template that is not safe is refused.
What remains are tags that pieces would make together.  A stream keeps a `<` apart from what would
make a tag of it, a text of a template is followed by a mark, and no name that starts like a tag
follows a regular expression (`Piece.bars`).
-/

namespace EcmaPrinter

open EcmaPrinter.Lexical
open EcmaPrinter.Number
open EcmaPrinter.Text

/-! ### Pieces that make no tag -/

/-- The characters that would make a tag out of the end of a piece. -/
def Piece.bars (p : Piece) (c : Char) : Bool :=
  match edgeOf p with
  | .chunk => c != '\x60' && c != '$'
  | .slash => c.toLower == 's'
  | .operator => (charsOf {} p).getLast?.any (Stream.makesTag · c)
  | _ => false

/-- A piece of plain characters that may stand behind the edge by the table and makes no tag with
what comes next.  No text of a template stands behind another one. -/
structure Inline (e : Edge) (p : Piece) : Prop extends Loose e p where
  apart : p.isRaw → e ≠ .chunk
  plain : ∀ style next?, isPlainText (p.spelled style next?)
  seals : ∀ style next?, Seals p.bars (p.spelled style next?)

theorem Piece.spelled_eq_charsOf {p : Piece} (hkind : kindOf p ≠ .number)
    (hsolid : p ≠ .statementEnd) (style : Style) (next? : Option Piece) :
    p.spelled style next? = charsOf {} p := by
  cases p with
  | number => exact absurd rfl hkind
  | statementEnd => exact absurd rfl hsolid
  | token | raw | operator | comma | semicolon => rfl

/-- All pieces but numbers are written in one way. -/
theorem Loose.inline {e : Edge} {p : Piece} (h : Loose e p) (hkind : kindOf p ≠ .number)
    (hapart : p.isRaw → e ≠ .chunk) (hplain : isPlainText (charsOf {} p))
    (hseals : Seals p.bars (charsOf {} p)) : Inline e p where
  toLoose := h
  apart := hapart
  plain style next? := by rwa [Piece.spelled_eq_charsOf hkind h.solid]
  seals style next? := by rwa [Piece.spelled_eq_charsOf hkind h.solid]

theorem admits_inline {text : String} (hne : text.toList ≠ []) (hplain : isPlainText text.toList)
    (hseals : Seals (Piece.token text).bars text.toList) : Rule.Admits Inline (.token text) := by
  intro e hallows
  refine (admits_loose hne e hallows).inline ?_ (by rintro ⟨⟩) hplain hseals
  exact (kindOf_ne (by simp) (by simp)).2

/-! ### Keywords, punctuators and numbers -/

/-- Operators with a `<` end with it or with `=`. -/
theorem punctuator_cases : ∀ cs ∈ punctuators, '<' ∉ cs ∨
    hasTag cs = false ∧ cs.getLast? = some '=' ∨
      (cs = ['<'] ∨ cs = ['<', '<']) ∧ punctuatorEdge cs = .operator := by decide

theorem seals_punctuator {p : Piece} (hkind : kindOf p = .punctuator)
    (h : charsOf {} p ∈ punctuators) : Seals p.bars (charsOf {} p) := by
  have hequal : stopsTag '=' := by decide
  rcases punctuator_cases _ h with hmem | ⟨htag, hlast⟩ | ⟨hlt, hedge⟩
  · exact seals_of_not_mem hmem
  · exact seals_of_getLast? hlast hequal htag
  · have hlast : (charsOf {} p).getLast? = some '<' := by
      rcases hlt with hlt | hlt <;> simp [hlt]
    have hnext : ∀ c, p.bars c = false → c ≠ '/' ∧ c.toLower ≠ 's' := by
      intro c hc
      simp only [Piece.bars, edgeOf, hkind, hedge, hlast, Option.any_some, Stream.makesTag,
        beq_self_eq_true, Bool.true_and, Bool.or_eq_false_iff, beq_eq_false_iff_ne] at hc
      exact ⟨hc.1.1, toLower_ne_s hc.1.2 hc.2⟩
    have hnil : Seals p.bars [] := seals_of_not_mem List.not_mem_nil
    rcases hlt with hlt | hlt <;> rw [hlt]
    · exact hnil.lt_cons hnext rfl
    · exact (hnil.lt_cons hnext rfl).lt_cons hnext rfl

theorem seals_of_isFixed {p : Piece} (h : isFixed p) : Seals p.bars (charsOf {} p) := by
  cases hkind : kindOf p with
  | word =>
    have hname := all_isIdentifierPart_of_isName (isName_of_isFixed h hkind)
    exact seals_of_not_mem fun hmem => (ne_of_isIdentifierPart (hname _ hmem)).2.1 rfl
  | punctuator =>
    simp only [isFixed, hkind, Bool.and_eq_true] at h
    exact seals_punctuator hkind (by simpa using h.2)
  | substitution =>
    rw [chars_of_substitution hkind]
    exact seals_of_not_mem (by decide)
  | number | string | regExp | chunk => simp [isFixed, hkind] at h

theorem isPlain_of_isNumeric {c : Char} (h : Number.isNumeric c) : isPlain c ∧ c ≠ '<' := by
  have hascii : isAscii c := by
    rcases Bool.or_eq_true_iff.mp h with hdigit | hletter
    · exact isAscii_of_isDigit hdigit
    · have hall : numericLetters.all isAscii := by decide
      exact List.all_eq_true.mp hall c (by simpa using hletter)
  exact forall_ascii (P := fun c => Number.isNumeric c → isPlain c ∧ c ≠ '<') (by decide) hascii h

/-- Numbers are written without a `<`. -/
theorem spelled_number (style : Style) (x : Double) (next? : Option Piece) :
    ∀ c ∈ (Piece.number x).spelled style next?, isPlain c ∧ c ≠ '<' := by
  have hnan : ∀ c ∈ Stream.nanText.toList, isPlain c ∧ c ≠ '<' := forall_mem_of_all (by decide)
  have htext : ∀ c ∈ (Piece.number x).text style, isPlain c ∧ c ≠ '<' := by
    simp only [Piece.text]
    split
    · exact hnan
    · exact fun c hc => isPlain_of_isNumeric (isNumeric_numberText style x c hc)
  simp only [Piece.spelled]
  split
  · exact List.forall_mem_append.mpr ⟨htext, List.forall_mem_singleton.mpr (by decide)⟩
  · exact htext

theorem admits_inline_number (x : Double) : Rule.Admits Inline (.number x) := by
  intro e hallows
  have hloose : Loose e (.number x) := ⟨hallows, rfl, by simp, by simp⟩
  refine ⟨hloose, by rintro ⟨⟩, fun style next? => ?_, fun style next? => ?_⟩
  · exact List.all_eq_true.mpr fun c hc => (spelled_number style x next? c hc).1
  · exact seals_of_not_mem fun hmem => (spelled_number style x next? _ hmem).2 rfl

instance : Rule.Lawful Inline where
  solid _ _ h := h.solid
  fixed p hfixed hcommon e hallows := by
    have hplain := (Bool.and_eq_true_iff.mp hcommon).1
    have hkind : kindOf p ≠ .number ∧ kindOf p ≠ .chunk := by
      constructor <;> intro hkind <;> simp [isFixed, hkind] at hfixed
    have hraw : p.isRaw → e ≠ .chunk := by
      intro hraw
      cases p with
      | raw => exact absurd rfl hkind.2
      | _ => cases hraw
    exact (Rule.Lawful.fixed p hfixed hcommon e hallows : Loose e p).inline hkind.1 hraw hplain
      (seals_of_isFixed hfixed)
  number x _ _ := admits_inline_number x

/-! ### Names and literals -/

section

variable {o : Options}

theorem admitsString_inline (hweb : o.webSafe) {text : String} {mark : Char} (hmark : isQuote mark)
    (hfirst : ∃ cs, text.toList = mark :: cs) (hlast : text.toList.getLast? = some mark) :
    Rule.AdmitsString Inline (o.spell text) := by
  obtain ⟨cs, hcs⟩ := hfirst
  obtain ⟨ds, hds⟩ := o.exists_spell_eq hmark hcs
  have hspell : o.spell text = webSafe text := if_pos hweb
  have hplain : isPlainText (o.spell text).toList := by
    rw [hspell]
    exact (Bool.and_eq_true_iff.mp (isSafe_webSafe text)).1
  have hseals : Seals (Piece.token (o.spell text)).bars (o.spell text).toList := by
    rw [hspell]
    exact seals_webSafe hmark hlast
  exact ⟨admits_inline (by simp [hds]) hplain hseals, (admitsString_loose hmark hds).kind⟩

theorem quotes_inline (hweb : o.webSafe) : Rule.Quotes Inline o.spell where
  quote value := by
    have hmark := isQuote_cheaperQuote value.toList
    refine admitsString_inline hweb hmark ⟨_, String.toList_ofList⟩ ?_
    simp [quote, quoteWith, quoteChars, List.getLast?_cons]

theorem admitsName_inline (hweb : o.webSafe) {name : String} (h : isIdentifierName name) :
    Rule.AdmitsName Inline (o.spell name) := by
  obtain ⟨c, cs, hcs, -⟩ := exists_spell_name o h
  have hspell : o.spell name = webSafe name := if_pos hweb
  have hplain : isPlainText (o.spell name).toList := by
    rw [hspell]
    exact (Bool.and_eq_true_iff.mp (isSafe_webSafe name)).1
  have hmem : '<' ∉ (o.spell name).toList := by
    intro hmem
    rcases mem_spell o h hmem with hpart | hletter
    · cases hpart
    · exact absurd hletter (by decide)
  exact ⟨admits_inline (by simp [hcs]) hplain (seals_of_not_mem hmem), kindOf_spell o h⟩

theorem admits_inline_regExp {pattern : String} (h : webSafe (pattern ++ "/") = pattern ++ "/")
    (flags : RegExpFlags) : Rule.Admits Inline (regExpToken pattern flags) := by
  have hsafe : isSafe (pattern.toList ++ ['/']) := by
    have hchars : isSafe (pattern ++ "/").toList := webSafe_eq_self_iff.mp h
    simpa using hchars
  refine admits_inline (by simp) ?_ ?_
  · rw [String.toList_ofList]
    exact (Bool.and_eq_true_iff.mp (isSafe_regExp hsafe flags)).1
  · rw [String.toList_ofList]
    refine seals_regExp hsafe fun hflags c hc => ?_
    have hedge : edgeOf (regExpToken pattern flags) = .slash := by
      have hkind : kindOf (regExpToken pattern flags) = .regExp := kindOf_regExp _
      have hlast : (charsOf {} (regExpToken pattern flags)).getLast? = some '/' := by
        simp [regExpToken, charsOf, hflags, List.getLast?_cons]
      simp [edgeOf, hkind, hlast]
    have hbars : (regExpToken pattern flags).bars c = false := hc
    simpa [Piece.bars, hedge] using hbars

end

/-! ### Templates -/

/-- Do two texts stand side by side among the parts of a template? -/
def Tree.hasAdjacentTexts {c : Category} : Tree c → Bool
  | cons (templateText _) (cons (templateText _) _) => true
  | cons _ parts => parts.hasAdjacentTexts
  | _ => false

/-- Is the tree a template with two texts side by side? -/
def Tree.runsTextsTogether {c : Category} : Tree c → Bool
  | template _ parts => parts.hasAdjacentTexts
  | _ => false

theorem inline_raw {e : Edge} (he : e ∈ [.tick, .brace]) {text : String} (hne : text ≠ "")
    (hsafe : isSafe text.toList) : Inline e (.raw text) := by
  simp only [isSafe, Bool.and_eq_true, Bool.not_eq_true'] at hsafe
  have hmarks : ∀ c, (Piece.raw text).bars c = false → stopsTag c := by
    intro c hc
    have hc : c = '\x60' ∨ c = '$' := by
      simpa [Piece.bars, edgeOf, kindOf, or_iff_not_imp_left] using hc
    rcases hc with rfl | rfl <;> decide
  refine Loose.inline ⟨?_, ?_, by simp, by simp⟩ (by simp [kindOf]) ?_ hsafe.1
    (seals_of_barred hmarks hsafe.2)
  · have hinside : e ∈ inside := (by decide : [.tick, .brace] ⊆ inside) he
    simpa [allows, kindOf, inside] using hinside
  · simpa [Piece.isEmpty] using hne
  · rintro - rfl
    exact absurd he (by decide)

/-- The texts of a template are admitted one by one, if there is a hole between any two of them. -/
theorem admitsParts_inline {texts : String → String} (spell : String → String)
    (parts : Tree (.list .templatePart)) (hsafe : ∀ raw ∈ parts.texts, isSafe (texts raw).toList)
    (hadjacent : parts.hasAdjacentTexts = false) {S : List Edge} (hS : S ⊆ [.tick, .brace]) :
    Rule.AdmitsParts Inline texts S (parts.code spell) := by
  cases parts with
  | nil => trivial
  | cons part rest =>
    cases part with
    | ofSubstitution e =>
      have hbrace : [Edge.brace] ⊆ [.tick, .brace] := by decide
      exact admitsParts_inline spell rest hsafe hadjacent hbrace
    | templateText raw =>
      refine ⟨fun hne e he => inline_raw (hS he) hne (hsafe raw List.mem_cons_self), ?_⟩
      -- the next part is a hole, behind which there is a brace again
      cases rest with
      | nil => trivial
      | cons next rest =>
        cases next with
        | templateText => cases hadjacent
        | ofSubstitution e =>
          have hbrace : [Edge.brace] ⊆ [.tick, .brace] := by decide
          have hrest := fun raw hraw => hsafe raw (List.mem_cons_of_mem _ hraw)
          exact admitsParts_inline spell rest hrest hadjacent hbrace

/-! ### Paths of inline pieces -/

/-- What a node of a web-safe program writes is admitted, if it is not unsafe. -/
theorem Tree.isAdmitted_inline {o : Options} (hweb : o.webSafe) {c : Category} {t : Tree c}
    (hnames : ∀ name ∈ t.ownNames, isIdentifierName name) (htexts : t.runsTextsTogether = false)
    (hsafe : ¬IsUnsafe ⟨c, t⟩) : t.IsAdmitted Inline o.spell := by
  have hadmits := fun name hname => admitsName_inline hweb (hnames name hname)
  cases t with
  | directive raw =>
    refine admitsString_inline hweb (isQuote_directiveQuote raw) ⟨_, String.toList_ofList⟩ ?_
    simp [quoteDirective, List.getLast?_cons]
  | staticName => exact admitsName_inline hweb
  | number value => exact admits_inline_number value
  | regExp pattern flags =>
    exact admits_inline_regExp (Decidable.not_not.mp fun hne => hsafe (.regExp hne)) flags
  | template tag parts =>
    refine admitsParts_inline _ parts (fun raw hraw => ?_) htexts (by decide)
    cases tag with
    | absent =>
      have hspell : o.spell raw = webSafe raw := if_pos hweb
      simpa [Tree.isPresent, hspell] using isSafe_webSafe raw
    | present tag =>
      have heq : webSafe raw = raw := Decidable.not_not.mp fun hne => hsafe (.template hraw hne)
      simpa [Tree.isPresent] using webSafe_eq_self_iff.mp heq
  | _ => exact hadmits

/-- The events of a program that can be rendered for the web lead along inline pieces. -/
theorem Program.exists_inline_path {o : Options} (hweb : o.webSafe) {p : Program}
    (hnames : p.AllNames (isIdentifierName ·))
    (htexts : ∀ n ∈ p.nodes, n.2.runsTextsTogether = false)
    (hsafe : ∀ n ∈ p.nodes, ¬IsUnsafe n) :
    ∃ e ∈ between, Path Inline .operator ((Program.fragment o p).events false) e :=
  have := quotes_inline hweb
  have hlaid : Laid Inline .program (p.code o.spell) :=
    p.laid fun n hn => Tree.isAdmitted_inline hweb (hnames n hn) (htexts n hn) (hsafe n hn)
  hlaid false .operator (by decide)

/-- Pieces that follow an edge and each other.  A statement may end where the table lets it. -/
def Inlined : Edge → List Piece → Prop
  | _, [] => True
  | e, q :: qs => (q = .statementEnd ∧ e ∈ ended ∨ Inline e q) ∧ Inlined (edgeOf q) qs

/-- The edge before the pieces may be changed to one with the same pieces behind it. -/
theorem Inlined.of_allows {e e' : Edge} {ps : List Piece} (h : Inlined e ps)
    (hallows : ∀ q, allows e q → allows e' q) (hended : e ∈ ended → e' ∈ ended)
    (hchunk : e' ≠ .chunk) : Inlined e' ps := by
  cases ps with
  | nil => trivial
  | cons q qs =>
    obtain ⟨hq, hqs⟩ := h
    refine ⟨hq.imp (And.imp_right hended) fun hq => ?_, hqs⟩
    exact { hq with allows := hallows q hq.allows, apart := fun _ => hchunk }

/-- What may start a line may follow the brace before it. -/
theorem allows_of_turned {e : Edge} {q : Piece} (h : allows (turned e) q) : allows e q := by
  unfold turned at h
  split at h
  · next he =>
    subst he
    cases hkind : kindOf q <;> simp_all [allows, allowsPunctuator]
  · exact h

/-- The pieces on a path follow each other. -/
theorem Lexical.Path.inlined {e e' : Edge} {es : List Event} (h : Path Inline e es e') :
    Inlined e (solid (Event.pieces es)) := by
  induction h with
  | nil => trivial
  | empty he h ih =>
    rw [Event.pieces_cons_piece, solid_raw_empty_cons]
    exact ih
  | @ending e e' es he h ih =>
    rw [Event.pieces_cons_piece]
    exact ⟨.inl ⟨rfl, he⟩, ih.of_allows (fun _ => allows_closed) (by decide) (by decide)⟩
  | @token e e' p es hp h ih =>
    have hsolid : solid (p :: Event.pieces es) = p :: solid (Event.pieces es) := by
      simp [solid, hp.nonempty]
    rw [Event.pieces_cons_piece, hsolid]
    exact ⟨.inr hp, ih⟩
  | @turn e e' es he h ih =>
    have hall : ∀ e ∈ between, (turned e ∈ ended → e ∈ ended) ∧ e ≠ .chunk := by decide
    exact ih.of_allows (fun _ => allows_of_turned) (hall e he).1 (hall e he).2

/-! ### Inline text -/

theorem isRaw_of_edge {p : Piece} (h : edgeOf p = .chunk) : p.isRaw := by
  cases hkind : kindOf p with
  | chunk =>
    obtain ⟨text, rfl⟩ := exists_raw_of_chunk hkind
    rfl
  | word | number | string | substitution => simp [edgeOf, hkind] at h
  | regExp =>
    simp only [edgeOf, hkind] at h
    split_ifs at h
  | punctuator =>
    simp only [edgeOf, hkind, punctuatorEdge] at h
    split_ifs at h

section

variable {style : Style} {p q : Piece}

/-- Blanks make no tag of the piece before them. -/
theorem Piece.bars_of_blank (hraw : p.isRaw = false) {c : Char} (hc : c = ' ' ∨ c = '\n') :
    p.bars c = false := by
  unfold bars
  split
  · next hedge =>
    rw [isRaw_of_edge hedge] at hraw
    cases hraw
  · rcases hc with rfl | rfl <;> rfl
  · cases (charsOf {} p).getLast? with
    | none => rfl
    | some d => rcases hc with rfl | rfl <;> simp [Stream.makesTag]
  · rfl

/-- Neither does the end of a statement, nor what is behind it if it is not written. -/
theorem Piece.bars_of_ended (he : edgeOf p ∈ ended) {c : Char} (hc : c ∈ [';', ' ', '\n', '}']) :
    p.bars c = false := by
  have hs : ∀ c ∈ [';', ' ', '\n', '}'], (c.toLower == 's') = false := forall_mem_of_all (by decide)
  unfold bars
  split
  · next hedge => exact absurd (hedge ▸ he) (by decide)
  · exact hs c hc
  · next hedge => exact absurd (hedge ▸ he) (by decide)
  · rfl

theorem isIdentifierStart_of_textKind {c : Char} {cs : List Char} (h : textKind (c :: cs) ≠ .word) :
    isIdentifierStart c = false := by
  rw [Bool.eq_false_iff]
  intro hstart
  exact h (if_pos (by simp [hstart]))

/-- Literals and punctuators do not start like names. -/
theorem isIdentifierStart_head
    (hkind : kindOf q = .string ∨ kindOf q = .regExp ∨ kindOf q = .punctuator) {c : Char}
    (hc : (charsOf {} q).head? = some c) : isIdentifierStart c = false := by
  have htext : ∀ text : String, textKind text.toList ≠ .word → text.toList.head? = some c →
      isIdentifierStart c = false := by
    intro text hword hhead
    obtain ⟨cs, hcs⟩ := List.head?_eq_some_iff.mp hhead
    rw [hcs] at hword
    exact isIdentifierStart_of_textKind hword
  cases q with
  | token text =>
    by_cases hslash : text.toList.head? = some '/'
    · obtain rfl : '/' = c := Option.some.inj (hslash.symm.trans hc)
      decide
    · refine htext text (fun hword => ?_) hc
      simp only [kindOf, hslash, hword] at hkind
      split at hkind <;> simp at hkind
  | operator text =>
    refine htext text (fun hword => ?_) hc
    simp [kindOf, hword] at hkind
  | raw | number => simp [kindOf] at hkind
  | comma | semicolon | statementEnd =>
    obtain rfl := Option.some.inj hc
    decide

/-- Names behind a regular expression are `of` or start with an `i`, like `in` and `instanceof`. -/
theorem toLower_head_of_slash (h : allows .slash q) {c : Char}
    (hc : (charsOf {} q).head? = some c) : c.toLower ≠ 's' := by
  have hstart : isIdentifierStart c = false → c.toLower ≠ 's' := by
    intro hstart
    apply toLower_ne_s
    · rintro rfl
      cases hstart
    · rintro rfl
      cases hstart
  cases hkind : kindOf q with
  | chunk | substitution | number => simp [allows, hkind] at h
  | word =>
    have hcases : (charsOf {} q).head? = some 'i' ∨ q = .token "of" := by
      simpa [allows, hkind] using h
    rcases hcases with hi | rfl
    · obtain rfl : 'i' = c := Option.some.inj (hi.symm.trans hc)
      decide
    · obtain rfl : 'o' = c := Option.some.inj hc
      decide
  | string | regExp | punctuator => exact hstart (isIdentifierStart_head (by simp [hkind]) hc)

/-- Nor does the next piece, where the stream has left no gap. -/
theorem Inline.bars_eq_false (hq : Inline (edgeOf p) q)
    (htag : p.isRaw = false →
      ∀ c ∈ (p.text style).getLast?, ∀ d ∈ (q.text style).head?, Stream.makesTag c d = false)
    {c : Char} (hc : c ∈ (q.text style).head?) : p.bars c = false := by
  unfold Piece.bars
  split
  · next hedge =>
    rw [hedge] at hq
    have hraw : q.isRaw = false := Bool.eq_false_iff.mpr fun hraw => hq.apart hraw rfl
    obtain ⟨d, ds, htext, hd⟩ := hq.head_of_chunk hraw style
    rw [htext] at hc
    obtain rfl := Option.some.inj hc
    rcases hd with rfl | rfl <;> rfl
  · next hedge =>
    rw [hedge] at hq
    have hkind : kindOf q ≠ .number := by
      intro hkind
      have hallows := hq.allows
      simp [allows, hkind] at hallows
    rw [Piece.text_eq hkind] at hc
    simpa using toLower_head_of_slash hq.allows hc
  · next hedge =>
    have hkind : kindOf p ≠ .number := by
      intro hkind
      simp [edgeOf, hkind] at hedge
    have hraw : p.isRaw = false := by
      cases p with
      | raw => cases hedge
      | _ => rfl
    rw [Piece.text_eq hkind] at htag
    cases hlast : (charsOf {} p).getLast? with
    | none => rfl
    | some d => exact htag hraw d hlast c hc
  · rfl

/-- How the text of pieces starts. -/
theorem Woven.head?_eq {qs : List Piece} {text : List Char} (h : Woven style (q :: qs) text)
    (hsolid : q ≠ .statementEnd) (hne : q.text style ≠ []) : text.head? = (q.text style).head? := by
  have hspelled : ∀ next? more, (q.spelled style next? ++ more).head? = (q.text style).head? := by
    intro next? more
    have hown : q.own style = q.text style := by
      cases q with
      | statementEnd => exact absurd rfl hsolid
      | _ => rfl
    rw [Piece.spelled_eq, hown, List.append_assoc, List.head?_append_of_ne_nil _ hne]
  cases qs with
  | nil =>
    obtain rfl : text = q.spelled style none := h
    simpa using hspelled none []
  | cons r rs =>
    obtain ⟨gap, rest, rfl, -, -⟩ := h
    exact hspelled (some r) _

theorem Woven.head?_statementEnd {qs : List Piece} {text : List Char}
    (h : Woven style (.statementEnd :: qs) text) : ∀ c ∈ text.head?, c ∈ [';', ' ', '\n', '}'] := by
  cases qs with
  | nil =>
    obtain rfl : text = Piece.statementEnd.spelled style none := h
    simp only [Piece.spelled]
    split <;> simp
  | cons q qs =>
    obtain ⟨gap, rest, rfl, hgap, hrest⟩ := h
    simp only [Piece.spelled]
    split
    · simp
    · next hbrace =>
      have hbrace : style.isPretty = false ∧ q = .token "\x7d" := by simpa using hbrace
      obtain ⟨-, rfl⟩ := hbrace
      have hhead : rest.head? = some '}' := hrest.head?_eq (by simp) (List.cons_ne_nil _ _)
      rcases gap with - | ⟨d, gap⟩
      · simp [hhead]
      · have hd := hgap.blank d List.mem_cons_self
        rcases hd with rfl | rfl <;> simp

/-- Nothing that comes right behind a piece makes a tag of it. -/
theorem IsGap.bars_eq_false {gap rest : List Char} {qs : List Piece} (hgap : IsGap style p q gap)
    (hweb : style.webSafe) (hsolid : p ≠ .statementEnd)
    (hq : q = .statementEnd ∧ edgeOf p ∈ ended ∨ Inline (edgeOf p) q)
    (hrest : Woven style (q :: qs) rest) : ∀ c ∈ (gap ++ rest).head?, p.bars c = false := by
  intro c hc
  rcases gap with - | ⟨d, gap⟩
  · rw [List.nil_append] at hc
    rcases hq with ⟨rfl, he⟩ | hq
    · exact Piece.bars_of_ended he (hrest.head?_statementEnd c hc)
    · rw [hrest.head?_eq hq.solid (hq.text_ne_nil style)] at hc
      exact hq.bars_eq_false (fun hraw => hgap.tag hweb rfl hraw hsolid) hc
  · obtain rfl : d = c := Option.some.inj hc
    have hraw : p.isRaw = false := by
      rw [Bool.eq_false_iff]
      intro hraw
      cases hgap.raw (.inl hraw)
    exact Piece.bars_of_blank hraw (hgap.blank d List.mem_cons_self)

/-- Inline pieces make up safe text. -/
theorem Inlined.isSafe {ps : List Piece} {e : Edge} (h : Inlined e ps) (hweb : style.webSafe)
    {text : List Char} (hwoven : Woven style ps text) :
    isPlainText text ∧ hasTag text = false := by
  have hend : ∀ next?, isPlainText (Piece.statementEnd.spelled style next?) ∧
      '<' ∉ Piece.statementEnd.spelled style next? := by
    intro next?
    simp only [Piece.spelled]
    split <;> decide
  induction ps generalizing e text with
  | nil =>
    obtain rfl : text = [] := hwoven
    exact ⟨rfl, rfl⟩
  | cons p ps ih =>
    obtain ⟨hp, hps⟩ := h
    cases ps with
    | nil =>
      obtain rfl : text = p.spelled style none := hwoven
      rcases hp with ⟨rfl, -⟩ | hp
      · exact ⟨(hend none).1, hasTag_eq_false_of_not_mem (hend none).2⟩
      · exact ⟨hp.plain style none, by simpa using hp.seals style none [] rfl (by simp)⟩
    | cons q qs =>
      obtain ⟨gap, rest, rfl, hgap, hrest⟩ := hwoven
      obtain ⟨hplain, htag⟩ := ih hps hrest
      have hblank : ∀ c ∈ gap, isPlain c ∧ c ≠ '<' := by
        intro c hc
        rcases hgap.blank c hc with rfl | rfl <;> decide
      have hplain' : isPlainText (gap ++ rest) := by
        rw [isPlainText, List.all_append, Bool.and_eq_true]
        exact ⟨List.all_eq_true.mpr fun c hc => (hblank c hc).1, hplain⟩
      have htag' : hasTag (gap ++ rest) = false :=
        (hasTag_append_of_not_mem (fun hmem => (hblank _ hmem).2 rfl) rest).trans htag
      have happend : ∀ cs, isPlainText cs → isPlainText (cs ++ (gap ++ rest)) := by
        intro cs hcs
        rw [isPlainText, List.all_append, Bool.and_eq_true]
        exact ⟨hcs, hplain'⟩
      rcases hp with ⟨rfl, -⟩ | hp
      · exact ⟨happend _ (hend _).1, (hasTag_append_of_not_mem (hend _).2 _).trans htag'⟩
      · refine ⟨happend _ (hp.plain style _), hp.seals style _ _ htag' ?_⟩
        exact hgap.bars_eq_false hweb hp.solid hps.1 hrest

end

/-- The text of a program for the web can be inlined: all of its characters are ASCII characters but
NUL, and there is no script tag in it, not even one made by several tokens. -/
theorem render_inlinable (o : Options) (hweb : o.webSafe) (p : Program)
    (hnames : p.AllNames (isIdentifierName ·))
    (htexts : ∀ n ∈ p.nodes, n.2.runsTextsTogether = false) {out : String}
    (hout : Program.render o p = .ok out) :
    (∀ c ∈ out.toList, c.toNat < 128 ∧ c ≠ '\x00') ∧
      ∀ tag, ScriptTag tag → ¬tag <:+: out.toList := by
  obtain ⟨hsafe, rfl⟩ := Program.render_eq_ok_iff.mp hout
  obtain ⟨e, -, hpath⟩ := Program.exists_inline_path hweb hnames htexts (hsafe hweb)
  have hinlined := hpath.inlined
  rw [Fragment.pieces_events] at hinlined
  obtain ⟨hplain, htag⟩ := hinlined.isSafe hweb (Program.woven o hnames o.style)
  constructor
  · intro c hc
    have hc : isPlain c := List.all_eq_true.mp hplain c hc
    simpa [isPlain, isAscii] using hc
  · intro tag hscript hwithin
    rw [hscript.hasTag hwithin] at htag
    cases htag

/-- A comparison with `script`, a regular expression that ends with `<`, and a template with a tag
around its hole. -/
theorem render_inlinable_comparison :
    let name (n : String) : Expression := .ofIdentifier (.identifier n)
    let chain : Expression := .binary (.binary (name "a") .less (name "script")) .greater (name "é")
    let parts : Tree (.list .templatePart) :=
      .cons (.templateText "</script") (.cons (.ofSubstitution (.string "<SCRIPT >"))
        (.cons (.templateText " ") .nil))
    let test : Expression :=
      .binary (.regExp "<" ⟨false, false, false, false, false⟩) .isIn (.template .absent parts)
    let p : Program :=
      .script .nil (.cons (.expressionStatement chain) (.cons (.expressionStatement test) .nil))
    let out := "a< script>\\u00E9;/</ in\x60</script$\x7b\"<\\x53CRIPT >\"\x7d \x60"
    p.AllNames (isIdentifierName ·) ∧ (∀ n ∈ p.nodes, n.2.runsTextsTogether = false) ∧
    Program.render { webSafe := true } p = .ok out ∧
    ∀ tag, ScriptTag tag → ¬tag <:+: out.toList := by
  intro name chain parts test p out
  have hnames : p.AllNames (isIdentifierName ·) := by decide
  have htexts : ∀ n ∈ p.nodes, n.2.runsTextsTogether = false := by decide
  have hhazard : p.heads.findSome? Head.hazard? = none := by decide
  have hout : Program.render { webSafe := true } p = .ok out := by
    rw [Program.render_eq_answer, if_pos rfl, hhazard, answer]
    exact congrArg Except.ok (by decide)
  exact ⟨hnames, htexts, hout, (render_inlinable _ rfl p hnames htexts hout).2⟩

end EcmaPrinter
