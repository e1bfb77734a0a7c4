import EcmaPrinter.Proofs.Lexical.Compact
import EcmaPrinter.Proofs.Render.Escaped

/-!
Web-safe text denotes the same program.

The code for the web is the plain code with safe texts, so both have the same events, up to spelling
(`Fragment.events_safe`).  Each token of a legal program has a safe spelling of the same kind and
with the same value, and it may stand where the token may.  So the path of the plain events is a
path of the safe ones (`path_safe`), and both texts are read as the same values
(`render_webSafe_decodes`).

Two kinds of names are lost on the way: those with characters beyond the first plane, and those that
start with an escape directly behind another name, where the stream writes no blank.
-/

namespace EcmaPrinter

open EcmaPrinter.Generate
open EcmaPrinter.Lexical
open EcmaPrinter.Number
open EcmaPrinter.Text

/-! ### Safe events -/

/-- The event with a safe text. -/
def Event.safe : Event → Event
  | .piece p => .piece p.safe
  | .lineBreak => .lineBreak

theorem Event.pieces_map_safe (es : List Event) :
    Event.pieces (es.map Event.safe) = (Event.pieces es).map Piece.safe := by
  induction es with
  | nil => rfl
  | cons event es ih =>
    cases event with
    | piece p => exact congrArg (p.safe :: ·) ih
    | lineBreak => exact ih

theorem Atom.pieces_safe (a : Atom) : a.safe.pieces = a.pieces.map Piece.safe := by
  cases a <;> rfl

theorem surround_safe {opening closing : String} (hopening : webSafe opening = opening)
    (hclosing : webSafe closing = closing) (es : List Event) :
    surround opening closing (es.map Event.safe) =
      (surround opening closing es).map Event.safe := by
  simp [surround, Event.safe, Piece.safe, hopening, hclosing]

theorem Wrap.events_safe {inner inner' : Bool → List Event}
    (h : ∀ noIn, inner' noIn = (inner noIn).map Event.safe) (w : Wrap) (noIn : Bool) :
    w.events inner' noIn = (w.events inner noIn).map Event.safe := by
  obtain rfl : inner' = fun noIn => (inner noIn).map Event.safe := funext h
  have hparen (es : List Event) :
      surround "(" ")" (es.map Event.safe) = (surround "(" ")" es).map Event.safe :=
    surround_safe (by decide) (by decide) es
  cases w with
  | paren => exact hparen _
  | bracket | brace => exact surround_safe (by decide) (by decide) _
  | containsIn =>
    cases noIn with
    | false => rfl
    | true => exact hparen _
  | noIn | line => rfl
  | stringStatement | indent => simp [events, Event.safe, Piece.safe]

mutual

/-- Writing a fragment with safe texts goes like writing the fragment. -/
theorem Fragment.events_safe : ∀ (f : Fragment) (noIn : Bool),
    f.safe.events noIn = (f.events noIn).map Event.safe
  | .atom _ a, _ => by
    rw [Fragment.safe, Fragment.events, Fragment.events, a.pieces_safe, List.map_map, List.map_map]
    rfl
  | .wrap _ w f, noIn => by
    rw [Fragment.safe, Fragment.events, Fragment.events]
    exact w.events_safe (fun noIn => Fragment.events_safe f noIn) noIn
  | .series _ j fs, noIn => by
    rw [Fragment.safe, Fragment.events, Fragment.events, Fragment.seriesEvents_safe j fs noIn]
  | .declared _ l, _ => by
    rw [Fragment.safe, Fragment.events, Fragment.events, Fragment.events_safe l false]
  | .initialized _ l r, noIn => by
    have hoperator : Event.safe (.piece (.operator "=")) = .piece (.operator "=") := by decide
    rw [Fragment.safe, Fragment.events, Fragment.events, Fragment.events_safe l false,
      Fragment.events_safe r noIn, List.map_append, List.map_cons, hoperator]

theorem Fragment.seriesEvents_safe (j : Joint) : ∀ (fs : List Fragment) (noIn : Bool),
    Fragment.seriesEvents j (Fragment.safeAll fs) noIn =
      (Fragment.seriesEvents j fs noIn).map Event.safe
  | [], _ => by rw [Fragment.safeAll, Fragment.seriesEvents, List.map_nil]
  | f :: fs, noIn => by
    rw [Fragment.safeAll, Fragment.seriesEvents, Fragment.seriesEvents, Fragment.events_safe f noIn,
      Fragment.restEvents_safe j fs noIn, List.map_append]

theorem Fragment.restEvents_safe (j : Joint) : ∀ (fs : List Fragment) (noIn : Bool),
    Fragment.restEvents j (Fragment.safeAll fs) noIn =
      (Fragment.restEvents j fs noIn).map Event.safe
  | [], _ => by rw [Fragment.safeAll, Fragment.restEvents, List.map_nil]
  | f :: fs, noIn => by
    have hjoint : (j.pieces.map Event.piece).map Event.safe = j.pieces.map Event.piece := by
      cases j <;> rfl
    rw [Fragment.safeAll, Fragment.restEvents, Fragment.restEvents, Fragment.events_safe f noIn,
      Fragment.restEvents_safe j fs noIn, List.map_append, List.map_append, hjoint]

end

/-! ### Safe tokens -/

theorem Piece.isEmpty_safe (p : Piece) : p.safe.isEmpty = p.isEmpty := by
  have htext (text : String) : (webSafe text).isEmpty = text.isEmpty := by
    by_cases hempty : text = ""
    · subst hempty
      decide
    · have hne : webSafe text ≠ "" := by
        simpa [webSafe] using webSafeChars_ne_nil (by simpa using hempty)
      rw [Bool.eq_iff_iff, String.isEmpty_iff, String.isEmpty_iff]
      exact iff_of_false hne hempty
  cases p with
  | token text | raw text | operator text => exact htext text
  | number | comma | semicolon | statementEnd => rfl

theorem solid_map_safe (ps : List Piece) :
    solid (ps.map Piece.safe) = (solid ps).map Piece.safe := by
  rw [solid, solid, List.filter_map]
  congr 2
  funext p
  exact congrArg (!·) p.isEmpty_safe

/-- Pieces of which all but the statement ends have safe spellings. -/
def AllEscapable (ps : List Piece) : Prop :=
  ∀ p ∈ ps, p = .statementEnd ∨ Escapable p

theorem escapable_semicolon : Escapable .semicolon :=
  .same (sound_semicolon {}) rfl

theorem endsVisibly_map_safe {ps : List Piece} (h : AllEscapable ps) :
    endsVisibly (ps.map Piece.safe) = endsVisibly ps := by
  cases ps with
  | nil => rfl
  | cons p ps =>
    have hiff : p.safe = .token "\x7d" ↔ p = .token "\x7d" := by
      constructor
      · intro heq
        rcases h p List.mem_cons_self with rfl | hp
        · cases heq
        · exact hp.eq_of_safe_eq (by decide) (by decide) heq
      · rintro rfl
        decide
    exact Bool.eq_iff_iff.mpr (by simpa [endsVisibly] using not_congr hiff)

/-- Texts may be made safe before or after the semicolons are written. -/
theorem settle_map_safe {ps : List Piece} (h : AllEscapable ps) :
    settle (ps.map Piece.safe) = (settle ps).map Piece.safe := by
  induction ps with
  | nil => rfl
  | cons p ps ih =>
    obtain ⟨hp, hps⟩ := List.forall_mem_cons.mp h
    rw [List.map_cons, settle, settle, endsVisibly_map_safe hps, ih hps]
    have hiff : p.safe = .statementEnd ↔ p = .statementEnd := by cases p <;> simp [Piece.safe]
    by_cases hend : p = .statementEnd
    · -- a semicolon is written unless a brace is next, and it is in both lists or in neither
      rw [if_pos hend, if_pos (hiff.mpr hend)]
      split <;> rfl
    · rw [if_neg hend, if_neg (mt hiff.mp hend), List.map_cons]

theorem escapable_of_mem_settle {ps : List Piece} (h : AllEscapable ps) :
    ∀ p ∈ settle ps, Escapable p := by
  induction ps with
  | nil => exact List.forall_mem_nil _
  | cons p ps ih =>
    obtain ⟨hp, hps⟩ := List.forall_mem_cons.mp h
    rw [settle]
    split
    · split
      · exact List.forall_mem_cons.mpr ⟨escapable_semicolon, ih hps⟩
      · exact ih hps
    · next hend => exact List.forall_mem_cons.mpr ⟨hp.resolve_left hend, ih hps⟩

theorem mem_settle {p : Piece} {ps : List Piece} (h : p ∈ ps) (hend : p ≠ .statementEnd) :
    p ∈ settle ps := by
  induction ps with
  | nil => cases h
  | cons q ps ih =>
    rw [settle]
    rcases List.mem_cons.mp h with rfl | h
    · rw [if_neg hend]
      exact List.mem_cons_self
    · have hmem := ih h
      split
      · split
        · exact List.mem_cons_of_mem _ hmem
        · exact hmem
      · exact List.mem_cons_of_mem _ hmem

/-! ### Paths of safe events -/

/-- The rule of the table, for tokens with safe spellings. -/
def Spellable : Rule := fun e p => Escapable p ∧ allows e p

variable {e e' : Edge} {p q : Piece} {es : List Event}

theorem allEscapable_of_path (h : Path Spellable e es e') :
    AllEscapable (solid (Event.pieces es)) := by
  induction h with
  | nil => exact List.forall_mem_nil _
  | empty _ _ ih | turn _ _ ih => exact ih
  | ending _ _ ih => exact List.forall_mem_cons.mpr ⟨.inl rfl, ih⟩
  | token hp _ ih =>
    rw [Event.pieces_cons_piece, hp.1.sound.solid_cons]
    exact List.forall_mem_cons.mpr ⟨.inr hp.1, ih⟩

/-- The safe spellings of tokens follow each other as the tokens do. -/
theorem path_safe (h : Path Spellable e es e')
    (hplane : ∀ p ∈ solid (Event.pieces es), p.isInPlane) :
    Path (Table webStyle) e (es.map Event.safe) e' := by
  induction h with
  | nil e => exact .nil e
  | empty he _ ih =>
    -- the spelling of an empty text is empty
    exact .empty he (ih hplane)
  | ending he _ ih => exact .ending he (ih (List.forall_mem_cons.mp hplane).2)
  | turn he _ ih => exact .turn he (ih hplane)
  | token hp _ ih =>
    rw [Event.pieces_cons_piece, hp.1.sound.solid_cons] at hplane
    obtain ⟨hplane, hrest⟩ := List.forall_mem_cons.mp hplane
    refine .token ⟨hp.1.sound_safe hplane, hp.1.allows_safe hp.2⟩ ?_
    rw [hp.1.edgeOf_safe]
    exact ih hrest

/-! ### Legal programs -/

/-- A name or a mark of the language is safe. -/
theorem safe_eq_self_of_isFixed (hfixed : isFixed p) (hcommon : isCommon p) : p.safe = p := by
  have hplain : isPlainText (charsOf {} p) := (Bool.and_eq_true_iff.mp hcommon).1
  have hmarks : ∀ cs ∈ ['$', '{'] :: punctuators, isSafe cs := by decide
  have hsafe : isSafe (charsOf {} p) := by
    cases hkind : kindOf p with
    | word =>
      have hparts := all_isIdentifierPart_of_isName (isName_of_isFixed hfixed hkind)
      exact isSafe_of_not_mem hplain fun hmem => (ne_of_isIdentifierPart (hparts _ hmem)).2.1 rfl
    | punctuator =>
      have hmem : charsOf {} p ∈ punctuators := by
        simp only [isFixed, hkind, Bool.and_eq_true, List.contains_iff_mem] at hfixed
        exact hfixed.2
      exact hmarks _ (List.mem_cons_of_mem _ hmem)
    | substitution =>
      rw [chars_of_substitution hkind]
      exact hmarks _ List.mem_cons_self
    | number | string | regExp | chunk => simp [isFixed, hkind] at hfixed
  cases p with
  | token | raw | operator => exact congrArg _ (webSafe_eq_self_iff.mpr hsafe)
  | number | comma | semicolon | statementEnd => rfl

instance : Rule.Literate Spellable where
  solid _ _ h := h.1.sound.ne_statementEnd
  fixed _ hfixed hcommon _ hallows :=
    ⟨.same (sound_of_isFixed hfixed) (safe_eq_self_of_isFixed hfixed hcommon), hallows⟩
  number _ hnan hsign _ hallows := ⟨.same (sound_number hnan hsign) rfl, hallows⟩
  name h _ hallows := ⟨.name h, hallows⟩
  quoted hmark h _ hallows := ⟨.string hmark h, hallows⟩
  text h hne _ hallows := ⟨.text h hne, hallows⟩

theorem admits_regExpToken {pattern : String} {flags : RegExpFlags}
    (hpattern : isPattern pattern.toList) (hsafe : webSafe (pattern ++ "/") = pattern ++ "/") :
    Spellable.Admits (regExpToken pattern flags) := by
  have hslash : isSafe (pattern.toList ++ ['/']) := by simpa using webSafe_eq_self_iff.mp hsafe
  refine fun e hallows => ⟨.same (sound_regExp hpattern flags) ?_, hallows⟩
  refine congrArg Piece.token (webSafe_eq_self_iff.mpr ?_)
  rw [String.toList_ofList]
  exact isSafe_regExp hslash flags

/-- The tokens of a legal program without hazards have safe spellings. -/
theorem Program.exists_spellable_path {p : Program} (h : p.isLegal)
    (hsafe : ∀ n ∈ p.nodes, ¬IsUnsafe n) :
    ∃ e ∈ between, Path Spellable .operator ((Program.fragment {} p).events false) e :=
  have hlaid : Laid Spellable .program (p.code id) :=
    p.laid fun n hn => by
      refine Tree.isAdmitted_of_isLegal (p.isLegal_nodes h n hn) ?_
      intro pattern flags hpattern heq
      refine admits_regExpToken hpattern ?_
      by_contra hunsafe
      have heq : n = ⟨_, .regExp pattern flags⟩ := heq
      exact hsafe n hn (heq ▸ .regExp hunsafe)
  hlaid false .operator (by decide)

/-! ### Neighbours for the web -/

/-- Does the second token start with an escape for the web that is read as part of the first? -/
def meetsEscape (p q : Piece) : Bool :=
  (kindOf p == .word || kindOf p == .number) && kindOf q == .word &&
    (charsOf {} q).head?.any (!isPlain ·)

/-- Tokens whose names can be read back from their spellings for the web. -/
structure Legible (ps : List Piece) : Prop where
  plane : ∀ p ∈ ps, p.isInPlane
  apart : List.IsChain (fun p q => meetsEscape p q = false) ps

theorem glues_safe (hp : Escapable p) (hq : Escapable q) (h : meetsEscape p q = false) :
    glues p.safe q.safe = false := by
  rw [glues, hp.kindOf_safe, hq.kindOf_safe]
  by_cases hword : kindOf q = .word
  · cases hhead : (charsOf {} q).head?.any (!isPlain ·) with
    | false => simp [hq.head?_safe_ne hword hhead]
    | true =>
      simp only [meetsEscape, hhead, hword, beq_self_eq_true, Bool.and_true] at h
      simp [h]
  · simp [hword]

theorem clashes_safe (hp : Escapable p) (hq : Escapable q) (h : clashes p q = false) :
    clashes p.safe q.safe = false := by
  rw [Bool.eq_false_iff] at h ⊢
  intro hsafe
  rw [clashes_iff, hp.kindOf_safe, hq.kindOf_safe, hp.edgeOf_safe] at hsafe
  refine h (clashes_iff.mpr (hsafe.imp_right (And.imp_right fun heq => ?_)))
  exact hq.eq_of_safe_eq (by decide) (by decide) heq

/-- Tokens that are clear of each other are so for the web. -/
theorem clear_safe {ps : List Piece} (h : ∀ p ∈ ps, Escapable p) (hsep : Separable ps)
    (hlegible : Legible ps) : List.IsChain Clear (ps.map Piece.safe) := by
  have hapart := hlegible.apart
  clear hlegible
  unfold Separable at hsep
  induction hsep with
  | nil => exact .nil
  | singleton p => exact .singleton p.safe
  | @cons_cons p q ps hpq _ ih =>
    obtain ⟨hp, hps⟩ := List.forall_mem_cons.mp h
    have hq := hps q List.mem_cons_self
    cases hapart with
    | cons_cons hmeets hapart =>
      exact .cons_cons ⟨clashes_safe hp hq hpq, glues_safe hp hq hmeets⟩ (ih hps hapart)

/-- Both spellings of tokens are read as the same values. -/
theorem exists_values_safe {ps : List Piece} (h : ∀ p ∈ ps, Escapable p)
    (hplane : ∀ p ∈ ps, p.isInPlane) :
    ∃ vs, List.Forall₂ (Reads {}) ps vs ∧ List.Forall₂ (Reads webStyle) (ps.map Piece.safe) vs ∧
      List.Forall₂ Stands ps vs := by
  induction ps with
  | nil => exact ⟨[], .nil, .nil, .nil⟩
  | cons p ps ih =>
    obtain ⟨hp, hps⟩ := List.forall_mem_cons.mp h
    obtain ⟨hin, hplane⟩ := List.forall_mem_cons.mp hplane
    obtain ⟨v, hv, hsafe, hstands⟩ := hp.exists_reads hin
    obtain ⟨vs, hvs, hsafes, hall⟩ := ih hps hplane
    exact ⟨v :: vs, .cons hv hvs, .cons hsafe hsafes, .cons hstands hall⟩

/-! ### Reading web-safe text -/

/-- The pieces for the web are the plain ones with safe texts. -/
theorem Program.events_webSafe {p : Program} (h : ∀ n ∈ p.nodes, ¬IsUnsafe n) (noIn : Bool) :
    (Program.fragment { webSafe := true } p).events noIn =
      ((Program.fragment {} p).events noIn).map Event.safe := by
  have hcode : p.code webSafe = (p.code id).safe := p.code_webSafe h
  rw [← Fragment.events_safe]
  exact congrArg (Fragment.events · noIn) hcode

theorem Program.emitted_eq (p : Program) :
    p.emitted = settle (solid (Event.pieces ((Program.fragment {} p).events false))) := by
  rw [Fragment.pieces_events]
  rfl

section

variable {p : Program} (h : p.isLegal) (hsafe : ∀ n ∈ p.nodes, ¬IsUnsafe n)

include h hsafe

theorem Program.escapable_emitted : ∀ q ∈ p.emitted, Escapable q := by
  obtain ⟨e, -, hpath⟩ := Program.exists_spellable_path h hsafe
  rw [Program.emitted_eq]
  exact escapable_of_mem_settle (allEscapable_of_path hpath)

/-- The tokens for the web are the plain ones with safe texts. -/
theorem Program.tokens_webSafe :
    tokens ((Program.fragment { webSafe := true } p).pieces false) = p.emitted.map Piece.safe := by
  obtain ⟨e, -, hpath⟩ := Program.exists_spellable_path h hsafe
  rw [Program.emitted_eq, ← settle_map_safe (allEscapable_of_path hpath), ← solid_map_safe,
    ← Event.pieces_map_safe, ← Program.events_webSafe hsafe, Fragment.pieces_events]
  rfl

theorem Program.exists_webSafe_path (hplane : ∀ q ∈ p.emitted, q.isInPlane) :
    ∃ e ∈ between, Path (Table webStyle) .operator
      ((Program.fragment { webSafe := true } p).events false) e := by
  obtain ⟨e, he, hpath⟩ := Program.exists_spellable_path h hsafe
  refine ⟨e, he, ?_⟩
  rw [Program.events_webSafe hsafe]
  refine path_safe hpath fun q hq => ?_
  by_cases hend : q = .statementEnd
  · subst hend
    rfl
  · exact hplane q (p.emitted_eq ▸ mem_settle hq hend)

theorem Program.linked_webSafe (hplane : ∀ q ∈ p.emitted, q.isInPlane) :
    Linked webStyle .operator (p.emitted.map Piece.safe) := by
  obtain ⟨e, he, hpath⟩ := Program.exists_webSafe_path h hsafe hplane
  rw [← Program.tokens_webSafe h hsafe]
  exact Fragment.linked hpath he

/-- The text for the web is that of its tokens. -/
theorem Program.toList_webSafe (hplane : ∀ q ∈ p.emitted, q.isInPlane) :
    ((Program.fragment { webSafe := true } p).render webStyle).toList =
      (({ style := webStyle } : Stream).putAll (p.emitted.map Piece.safe)).text.reverse := by
  obtain ⟨e, -, hpath⟩ := Program.exists_webSafe_path h hsafe hplane
  rw [← Program.tokens_webSafe h hsafe]
  exact Fragment.toList_render rfl hpath

end

/-- Web-safe text is read as the values of the compact text, if no names are lost.  Both texts are
read under the goals of the same tokens; the lexemes of the web-safe text are their safe spellings,
and what means what is written, regular expressions and tagged templates, is safe as it stands. -/
theorem render_webSafe_decodes {p : Program} {out : String} (h : p.isLegal)
    (hsep : Separable p.emitted) (hlegible : Legible p.emitted)
    (hout : Program.render { webSafe := true } p = .ok out) :
    (∃ ls ls', readAll (p.emitted.map goalOf) (Program.compact p).toList = some ls ∧
      readAll (p.emitted.map goalOf) out.toList = some ls' ∧
      ls'.map (·.value) = ls.map (·.value) ∧ List.Forall₂ Denotes ls p.emitted ∧
      List.Forall₂ (Matches webStyle) ls' (p.emitted.map Piece.safe)) ∧
    ∀ n ∈ p.nodes, ¬IsUnsafe n := by
  obtain ⟨hhazard, rfl⟩ := Program.render_eq_ok_iff.mp hout
  have hsafe := hhazard rfl
  have hall := Program.escapable_emitted h hsafe
  have hlinked := Program.linked h
  have hweb := Program.linked_webSafe h hsafe hlegible.plane
  obtain ⟨vs, hvs, hsafes, hstands⟩ := exists_values_safe hall hlegible.plane
  obtain ⟨ls, hread, hvalues, hmatch⟩ := hlinked.readAll rfl hvs (hlinked.clear rfl hsep)
  obtain ⟨ls', hread', hvalues', hmatch'⟩ :=
    hweb.readAll rfl hsafes (clear_safe hall hsep hlegible)
  have hgoals : (p.emitted.map Piece.safe).map goalOf = p.emitted.map goalOf := by
    rw [List.map_map]
    refine List.map_congr_left fun q hq => ?_
    rw [Function.comp_apply, goalOf_eq, goalOf_eq, (hall q hq).kindOf_safe]
  rw [hgoals] at hread'
  refine ⟨⟨ls, ls', ?_, ?_, hvalues'.trans hvalues.symm,
    forall₂_denotes hmatch (hvalues ▸ hstands), hmatch'⟩, hsafe⟩
  · rw [Program.toList_compact h]
    exact hread
  · exact Program.toList_webSafe h hsafe hlegible.plane ▸ hread'

/-- An assignment of a string with a tag in it to `é`, and a template with a regular expression. -/
theorem render_webSafe_decodes_template :
    let flags : RegExpFlags := ⟨true, false, false, false, false⟩
    let assignment : Expression :=
      .assign (.ofSimpleTarget (.ofTargetName (.targetName "é"))) (.string "ü<script>")
    let comparison : Expression :=
      .binary (.ofIdentifier (.identifier "é")) .less (.regExp "a" flags)
    let parts : Tree (.list .templatePart) :=
      .cons (.templateText "ñ") (.cons (.ofSubstitution comparison) .nil)
    let p : Program :=
      .script .nil (.cons (.expressionStatement assignment)
        (.cons (.expressionStatement (.template .absent parts)) .nil))
    let out := "\\u00E9=\"\\u00FC<\\x73cript>\";\x60\\u00F1$\x7b\\u00E9< /a/g\x7d\x60"
    p.isLegal ∧ Separable p.emitted ∧ Legible p.emitted ∧
      Program.render { webSafe := true } p = .ok out ∧
      ∃ ls ls', readAll (p.emitted.map goalOf) (Program.compact p).toList = some ls ∧
        readAll (p.emitted.map goalOf) out.toList = some ls' ∧
        ls'.map (·.value) = ls.map (·.value) := by
  intro flags assignment comparison parts p out
  have hlegal : p.isLegal := by decide
  have hsep : Separable p.emitted := by
    unfold Separable
    decide
  have hlegible : Legible p.emitted := ⟨by decide, by decide⟩
  have hhazard : p.heads.findSome? Head.hazard? = none := by decide
  have hout : Program.render { webSafe := true } p = .ok out := by
    rw [Program.render_eq_answer, if_pos rfl, hhazard, answer]
    exact congrArg Except.ok (by decide)
  obtain ⟨⟨ls, ls', hread, hread', hvalues, -⟩, -⟩ :=
    render_webSafe_decodes hlegal hsep hlegible hout
  exact ⟨hlegal, hsep, hlegible, hout, ls, ls', hread, hread', hvalues⟩

/-- Both exceptions are real: behind `typeof` the escape of `é` is read as part of the word, and the
two escapes of a character beyond the first plane are no part of a name. -/
theorem not_decodes_of_illegible :
    let operand : Program := .script .nil (.cons (.expressionStatement
      (.unary .typeof (.ofIdentifier (.identifier "é")))) .nil)
    let astral : Program := .script .nil (.cons (.expressionStatement
      (.ofIdentifier (.identifier "𐐀"))) .nil)
    (operand.isLegal ∧ Program.render { webSafe := true } operand = .ok "typeof\\u00E9" ∧
      (readAll (operand.emitted.map goalOf) (Program.compact operand).toList).isSome ∧
      readAll (operand.emitted.map goalOf) "typeof\\u00E9".toList = none) ∧
    astral.isLegal ∧ Program.render { webSafe := true } astral = .ok "\\uD801\\uDC00" ∧
      (readAll (astral.emitted.map goalOf) (Program.compact astral).toList).isSome ∧
      readAll (astral.emitted.map goalOf) "\\uD801\\uDC00".toList = none := by
  intro operand astral
  have hrender {p : Program} (hhazard : p.heads.findSome? Head.hazard? = none) :
      Program.render { webSafe := true } p =
        .ok ((Program.fragment { webSafe := true } p).render webStyle) := by
    rw [Program.render_eq_answer, if_pos rfl, hhazard, answer]
    rfl
  refine ⟨⟨by decide +kernel, ?_, by decide +kernel, by decide +kernel⟩, by decide +kernel, ?_,
    by decide +kernel, by decide +kernel⟩
  · exact (hrender (by decide)).trans (congrArg Except.ok (by decide))
  · exact (hrender (by decide)).trans (congrArg Except.ok (by decide))

end EcmaPrinter
