import EcmaPrinter.Proofs.Grammar.Reading
import EcmaPrinter.Render

/-!
Nested statements read back, with every `else` at its own `if`.

A consequent whose right edge is an `if` without an `else` would take the `else` of the statement
around it.  The code of such a consequent is a block, and so the parser gives back not the
statement itself but one with these blocks in it (`wrapElse`).

What the parser sees depends on what follows, for a statement end is written or not, and a
missing `else` must not find one.  So the induction speaks of the pieces of a statement with any
pieces behind them.
-/

namespace EcmaPrinter.Tree

open EcmaPrinter

/-! ### Missing `else` -/

/-- Is the right edge of a statement an `if` without an `else`? -/
def missesElse {c : Category} : Tree c → Bool
  | ifStatement _ _ absent => true
  | ifStatement _ _ (present a) => a.missesElse
  | labeled _ b | whileLoop _ b | forLoop _ _ _ b | forIn _ _ b | forOf _ _ b
  | withStatement _ b => b.missesElse
  | _ => false

/-- The statement in a block of its own. -/
def enclosed (s : Tree .statement) : Tree .statement :=
  blockStatement (block (cons s nil))

/-- The tree with a block around every consequent that would take the `else` behind it. -/
def wrapElse {c : Category} : Tree c → Tree c
  | cons t ts => cons t.wrapElse ts.wrapElse
  | present t => present t.wrapElse
  | blockStatement b => blockStatement b.wrapElse
  | block ss => block ss.wrapElse
  | ifStatement t s (present a) =>
    ifStatement t (if s.missesElse then enclosed s.wrapElse else s.wrapElse) (present a.wrapElse)
  | ifStatement t s absent => ifStatement t s.wrapElse absent
  | labeled label b => labeled label b.wrapElse
  | whileLoop t b => whileLoop t b.wrapElse
  | doWhile b t => doWhile b.wrapElse t
  | forLoop s t u b => forLoop s t u b.wrapElse
  | forIn l o b => forIn l o b.wrapElse
  | forOf l is b => forOf l is b.wrapElse
  | withStatement o b => withStatement o b.wrapElse
  | t => t

/-- The mark of a missing `else` on the code of a statement says what its right edge is. -/
theorem endsWithMissingElse_code (spell : String → String) :
    ∀ s : Tree .statement, (s.code spell).marks.endsWithMissingElse = s.missesElse
  | ifStatement _ _ absent => rfl
  | ifStatement _ _ (present a) => endsWithMissingElse_code spell a
  | labeled _ b | whileLoop _ b | forLoop _ _ _ b | forIn _ _ b | forOf _ _ b
  | withStatement _ b => endsWithMissingElse_code spell b
  | expressionStatement e => by
    show (Generate.expressionStatement e.isString _).marks.endsWithMissingElse = false
    unfold Generate.expressionStatement
    split <;> rfl
  | blockStatement (block _) | ofFunction (function _ _ _ _ _)
  | ofClass (classDeclaration _ _ _) => rfl
  | breakStatement _ | continueStatement _ | debuggerStatement | doWhile _ _ | emptyStatement
  | returnStatement _ | switchStatement _ _ | switchWithDefault _ _ _ _ | throwStatement _
  | tryCatch _ _ | tryFinally _ _ _ | variableStatement _ => rfl

end EcmaPrinter.Tree

namespace EcmaPrinter.Grammar

open EcmaPrinter
open EcmaPrinter.Generate
open EcmaPrinter.Text
open EcmaPrinter.Tree (missesElse wrapElse enclosed)

/-! ### What the parser sees of pieces -/

/-- The terminals of the tokens that pieces stand for. -/
def view (ps : List Piece) : List Terminal :=
  (tokens ps).map terminal

theorem view_token {text : String} (h : text ≠ "") (ps : List Piece) :
    view (.token text :: ps) = .ofText text :: view ps := by
  simp [view, tokens, Piece.isEmpty, h, EcmaPrinter.settle, terminal]

theorem view_semicolon (ps : List Piece) :
    view (.semicolon :: ps) = .punctuator ";" :: view ps := by
  simp [view, tokens, Piece.isEmpty, EcmaPrinter.settle, terminal]

/-- A statement end is seen as a semicolon, or what follows makes it superfluous. -/
theorem view_statementEnd (ps : List Piece) :
    view (.statementEnd :: ps) = .punctuator ";" :: view ps ∨
    view (.statementEnd :: ps) = view ps ∧
      (view ps = [] ∨ ∃ ts, view ps = .punctuator "\x7d" :: ts) := by
  unfold view tokens
  rw [List.filter_cons_of_pos rfl]
  generalize ps.filter (!·.isEmpty) = qs
  rcases qs with - | ⟨q, qs⟩
  · exact .inr ⟨rfl, .inl rfl⟩
  by_cases hq : q = .token "\x7d"
  · subst hq
    exact .inr ⟨rfl, .inr ⟨(EcmaPrinter.settle qs).map terminal, by rfl⟩⟩
  · left
    simp [EcmaPrinter.settle, endsVisibly, hq, terminal]

theorem statementEnd?_view (ps : List Piece) :
    statementEnd? (view (.statementEnd :: ps)) = some (view ps) := by
  rcases view_statementEnd ps with h | ⟨h, hempty | ⟨ts, hbrace⟩⟩
  · simp [h, statementEnd?]
  · rw [h, hempty]
    rfl
  · rw [h, hbrace]
    rfl

/-- A statement end ends every expression. -/
theorem ends_view_statementEnd (ps : List Piece) :
    Ends .sequence (view (.statementEnd :: ps)) := by
  rcases view_statementEnd ps with h | ⟨h, hempty | ⟨ts, hbrace⟩⟩
  · rw [h, ends_cons]
    decide
  · rw [h, hempty]
    exact ends_nil _
  · rw [h, hbrace, ends_cons]
    decide

theorem skip?_view_statementEnd (ps : List Piece) {text : String} (hsemi : text ≠ ";")
    (hbrace : text ≠ "\x7d") : skip? text (view (.statementEnd :: ps)) = none := by
  rcases view_statementEnd ps with h | ⟨h, hempty | ⟨ts, hts⟩⟩
  · simp [h, skip?, hsemi.symm]
  · simp [h, hempty, skip?]
  · simp [h, hts, skip?, hbrace.symm]

/-! ### Nested statements -/

/-- A name that stands for itself everywhere: one that no statement starts with. -/
def isPlainName (name : String) : Bool :=
  isIdentifier name && name != "let"

/-- The expression that a name is. -/
def named (name : String) : Expression :=
  .ofIdentifier (.identifier name)

/-- The name as the target of a loop. -/
def namedTarget (name : String) : Tree .simpleTarget :=
  .ofTargetName (.targetName name)

/-- A name that may be missing, as an expression. -/
def namedPart : Option String → Tree (.option .expression)
  | some name => .present (named name)
  | none => .absent

/-- Statements nested in each other, with plain names for their expressions. -/
inductive Nested : {c : Category} → Tree c → Prop
  | nil : Nested (.nil : Tree (.list .statement))
  | cons {s : Tree .statement} {ss : Tree (.list .statement)} :
      Nested s → Nested ss → Nested (.cons s ss)
  | expression {name : String} : isPlainName name → Nested (.expressionStatement (named name))
  | empty : Nested .emptyStatement
  | block {ss : Tree (.list .statement)} : Nested ss → Nested (.blockStatement (.block ss))
  | ifOnly {test : String} {s : Tree .statement} :
      isPlainName test → Nested s → Nested (.ifStatement (named test) s .absent)
  | ifElse {test : String} {s a : Tree .statement} :
      isPlainName test → Nested s → Nested a → Nested (.ifStatement (named test) s (.present a))
  | whileLoop {test : String} {b : Tree .statement} :
      isPlainName test → Nested b → Nested (.whileLoop (named test) b)
  | doWhile {test : String} {b : Tree .statement} :
      isPlainName test → Nested b → Nested (.doWhile b (named test))
  | forLoop {start? test? update? : Option String} {b : Tree .statement} :
      start?.all isPlainName → test?.all isPlainName → update?.all isPlainName → Nested b →
      Nested (.forLoop (startOf (namedPart start?)) (namedPart test?) (namedPart update?) b)
  | forIn {target object : String} {b : Tree .statement} :
      isPlainName target → isPlainName object → Nested b →
      Nested (.forIn (.ofLoopTarget (.ofSimpleTarget (namedTarget target))) (named object) b)
  | forOf {target items : String} {b : Tree .statement} :
      isPlainName target → isPlainName items → Nested b →
      Nested (.forOf (.ofLoopTarget (.ofSimpleTarget (namedTarget target))) (named items) b)
  | withStatement {object : String} {b : Tree .statement} :
      isPlainName object → Nested b → Nested (.withStatement (named object) b)
  | labeled {label : String} {b : Tree .statement} :
      isIdentifier label → Nested b → Nested (.labeled label b)

/-! ### Parts of statements -/

section

variable {name : String}

theorem isIdentifier_of_isPlainName (h : isPlainName name) : isIdentifier name := by
  simp only [isPlainName, Bool.and_eq_true] at h
  exact h.1

theorem ne_else (h : isIdentifier name) : name ≠ "else" := by
  rintro rfl
  exact absurd h (by decide)

theorem view_name (h : isIdentifier name) (ps : List Piece) :
    view (.token name :: ps) = .word name :: view ps := by
  have hne : name ≠ "" := by
    rintro rfl
    exact absurd h (by decide)
  rw [view_token hne, Terminal.ofText_of_isIdentifier h]

theorem level_named (h : isIdentifier name) (rest : List Terminal) (hrest : Ends .sequence rest) :
    level .sequence (.word name :: rest) = some (named name, rest) :=
  (ReadsAs.identifier h).reads .sequence (Nat.zero_le _) (by decide) rest hrest

theorem group_named (h : isIdentifier name) (ps : List Piece) :
    group (view (.token "(" :: .token name :: .token ")" :: ps)) = some (named name, view ps) := by
  have hname := level_named h (.punctuator ")" :: view ps) (by rw [ends_cons]; decide)
  have hopen : Terminal.ofText "(" = .punctuator "(" := by decide
  have hclose : Terminal.ofText ")" = .punctuator ")" := by decide
  rw [view_token (by decide), view_name h, view_token (by decide), hopen, hclose, group]
  simp [skip?, hname]

/-- A word that is no keyword starts a labeled statement or an expression. -/
theorem wordStatement_of_isIdentifier (h : isIdentifier name) (ts : List Terminal) :
    wordStatement name ts =
      match skip? ":" ts with
      | some ts => (statement ts).map fun r => (.labeled name r.1, r.2)
      | none => expressionStatement (.word name :: ts) := by
  have hfree : reservedWords.contains name = false := by
    simp only [isIdentifier, Bool.and_eq_true] at h
    simpa using h.2
  have hne : ∀ {n : String}, reservedWords.contains n → name ≠ n := by
    rintro n hn rfl
    rw [hfree] at hn
    cases hn
  have hif : name ≠ "if" := hne (by decide)
  have hwhile : name ≠ "while" := hne (by decide)
  have hwith : name ≠ "with" := hne (by decide)
  have hfor : name ≠ "for" := hne (by decide)
  have hdo : name ≠ "do" := hne (by decide)
  rw [wordStatement_eq, if_neg hif, if_neg hwhile, if_neg hwith, if_neg hfor, if_neg hdo, hfree]
  cases skip? ":" ts with
  | none => rfl
  | some ts =>
    simp only [Bool.false_eq_true, if_false]
    cases statement ts <;> rfl

end

/-! ### Statements that read back -/

/-- What the parser makes of pieces that any pieces follow: the statement `s`.  With a missing
`else` at its right edge, none may follow. -/
structure PiecesRead (qs : List Piece) (misses : Bool) (s : Tree .statement) : Prop where
  opens : ∀ ps, skip? "\x7d" (view (qs ++ ps)) = none
  noElse : ∀ ps, keyword? "else" (view (qs ++ ps)) = none
  reads : ∀ ps, (misses → keyword? "else" (view ps) = none) →
    statement (view (qs ++ ps)) = some (s, view ps)

/-- The parser makes of the code of the statement the statement with its blocks. -/
def StatementReads (s : Tree .statement) : Prop :=
  PiecesRead ((s.code id).pieces false) s.missesElse s.wrapElse

/-- The parser makes of the code of statements before a closing brace the statements with their
blocks. -/
structure StatementsRead (ss : Tree (.list .statement)) : Prop where
  noElse : ∀ ps, keyword? "else"
    (view ((lines (ss.code id)).pieces false ++ .token "\x7d" :: ps)) = none
  reads : ∀ ps, statements (view ((lines (ss.code id)).pieces false ++ .token "\x7d" :: ps))
    = some (ss.wrapElse, view ps)

theorem view_keyword {name : String} (h : isIdentifierName name) (ps : List Piece) :
    view (.token name :: ps) = .word name :: view ps := by
  have hne : name ≠ "" := by
    rintro rfl
    exact absurd h (by decide)
  rw [view_token hne, Terminal.ofText_of_isIdentifierName h]

theorem view_closingBrace (ps : List Piece) :
    view (.token "\x7d" :: ps) = .punctuator "\x7d" :: view ps :=
  view_token (by decide) ps

theorem statement_word (name : String) (ts : List Terminal) :
    statement (.word name :: ts) = wordStatement name ts := by
  rw [statement]

/-- A statement that starts with a word. -/
theorem PiecesRead.of_word {name : String} (h : isIdentifierName name) (helse : name ≠ "else")
    {qs : List Piece} {misses : Bool} {s : Tree .statement}
    (hreads : ∀ ps, (misses → keyword? "else" (view ps) = none) →
      wordStatement name (view (qs ++ ps)) = some (s, view ps)) :
    PiecesRead (.token name :: qs) misses s := by
  have hview : ∀ ps, view (.token name :: qs ++ ps) = .word name :: view (qs ++ ps) := by
    intro ps
    rw [List.cons_append, view_keyword h]
  refine ⟨fun ps => ?_, fun ps => ?_, fun ps hps => ?_⟩
  · rw [hview]
    rfl
  · rw [hview]
    simp [keyword?, helse]
  · rw [hview, statement_word, hreads ps hps]

theorem StatementsRead.nil : StatementsRead .nil := by
  refine ⟨fun ps => ?_, fun ps => ?_⟩
  · show keyword? "else" (view (.token "\x7d" :: ps)) = none
    rw [view_closingBrace]
    rfl
  · show statements (view (.token "\x7d" :: ps)) = some (.nil, view ps)
    rw [view_closingBrace, statements_eq]
    simp [skip?]

theorem StatementsRead.cons {s : Tree .statement} {ss : Tree (.list .statement)}
    (hs : StatementReads s) (hss : StatementsRead ss) : StatementsRead (.cons s ss) := by
  have hpieces : ∀ ps, (lines (s.code id :: ss.code id)).pieces false ++ ps =
      (s.code id).pieces false ++ ((lines (ss.code id)).pieces false ++ ps) := by
    simp [lines]
  refine ⟨fun ps => ?_, fun ps => ?_⟩
  · show keyword? "else" (view ((lines (s.code id :: ss.code id)).pieces false ++ _)) = none
    rw [hpieces]
    exact hs.noElse _
  · show statements (view ((lines (s.code id :: ss.code id)).pieces false ++ _))
      = some (.cons s.wrapElse ss.wrapElse, view ps)
    rw [hpieces, statements_eq, hs.opens]
    simp [hs.reads _ fun _ => hss.noElse ps, hss.reads ps]

/-- Statements in braces. -/
theorem PiecesRead.block {ss : Tree (.list .statement)} (h : StatementsRead ss) :
    PiecesRead ((Generate.block (ss.code id)).pieces false) false
      (.blockStatement (.block ss.wrapElse)) := by
  have hview : ∀ ps, view ((Generate.block (ss.code id)).pieces false ++ ps) =
      .punctuator "\x7b" :: view ((lines (ss.code id)).pieces false ++ .token "\x7d" :: ps) := by
    intro ps
    have hpieces : (Generate.block (ss.code id)).pieces false ++ ps =
        .token "\x7b" :: ((lines (ss.code id)).pieces false ++ .token "\x7d" :: ps) := by
      simp [Generate.block, enclose]
    rw [hpieces, view_token (by decide)]
    rfl
  refine ⟨fun ps => ?_, fun ps => ?_, fun ps _ => ?_⟩
  · rw [hview]
    rfl
  · rw [hview]
    rfl
  · rw [hview, statement]
    simp [h.reads ps]

theorem StatementReads.expression {name : String} (h : isPlainName name) :
    StatementReads (.expressionStatement (named name)) := by
  have hname := isIdentifier_of_isPlainName h
  show PiecesRead [.token name, .statementEnd] false (.expressionStatement (named name))
  refine .of_word (isIdentifierName_of_isIdentifier hname) (ne_else hname) fun ps _ => ?_
  have hread := level_named hname _ (ends_view_statementEnd ps)
  show wordStatement name (view (.statementEnd :: ps)) = _
  rw [wordStatement_of_isIdentifier hname, skip?_view_statementEnd ps (by decide) (by decide)]
  simp [expressionStatement, hread, statementEnd?_view]

theorem StatementReads.empty : StatementReads .emptyStatement := by
  show PiecesRead [.semicolon] false .emptyStatement
  refine ⟨fun ps => ?_, fun ps => ?_, fun ps _ => ?_⟩
  all_goals rw [List.singleton_append, view_semicolon]
  · rfl
  · rfl
  · rw [statement]
    simp

/-- A keyword, a head in parentheses and a body.  `readHead` is what reads the head, and `make`
puts the two together. -/
theorem PiecesRead.headed {α : Type} {keyword : String}
    {readHead : List Terminal → Option (α × List Terminal)}
    (make : α → Tree .statement → Tree .statement) (hkeyword : isIdentifierName keyword)
    (hword : ∀ ts, wordStatement keyword ts =
      (readHead ts).bind fun r => (statement r.2).bind fun r' => some (make r.1 r'.1, r'.2))
    (helse : keyword ≠ "else") {head body : Fragment} {misses : Bool} {a : α} {s : Tree .statement}
    (hhead : ∀ ps, readHead (view (.token "(" :: (head.pieces false ++ .token ")" :: ps)))
      = some (a, view ps))
    (hbody : PiecesRead (body.pieces false) misses s) :
    PiecesRead ((headed keyword head body).pieces false) misses (make a s) := by
  have hpieces : (Generate.headed keyword head body).pieces false =
      .token keyword :: .token "(" ::
        (head.pieces false ++ .token ")" :: body.pieces false) := by
    simp [Generate.headed, endingIn, enclose]
  rw [hpieces]
  refine .of_word hkeyword helse fun ps hps => ?_
  have hread := hhead (body.pieces false ++ ps)
  rw [hword]
  simp [hread, hbody.reads ps hps]

theorem StatementReads.whileLoop {test : String} {b : Tree .statement} (h : isPlainName test)
    (hb : StatementReads b) : StatementReads (.whileLoop (named test) b) := by
  have hword : ∀ ts, wordStatement "while" ts =
      (group ts).bind fun r => (statement r.2).bind fun r' => some (.whileLoop r.1 r'.1, r'.2) := by
    intro ts
    rw [wordStatement_eq]
    rfl
  exact PiecesRead.headed _ (by decide) hword (by decide)
    (group_named (isIdentifier_of_isPlainName h)) hb

theorem StatementReads.withStatement {object : String} {b : Tree .statement}
    (h : isPlainName object) (hb : StatementReads b) :
    StatementReads (.withStatement (named object) b) := by
  have hword : ∀ ts, wordStatement "with" ts =
      (group ts).bind fun r =>
        (statement r.2).bind fun r' => some (.withStatement r.1 r'.1, r'.2) := by
    intro ts
    rw [wordStatement_eq]
    rfl
  exact PiecesRead.headed _ (by decide) hword (by decide)
    (group_named (isIdentifier_of_isPlainName h)) hb

theorem StatementReads.labeled {label : String} {b : Tree .statement} (h : isIdentifier label)
    (hb : StatementReads b) : StatementReads (.labeled label b) := by
  have hpieces : (Generate.labeled id label (b.code id)).pieces false =
      .token label :: .token ":" :: (b.code id).pieces false := by
    simp [Generate.labeled, endingIn]
  show PiecesRead ((Generate.labeled id label (b.code id)).pieces false) b.missesElse
    (.labeled label b.wrapElse)
  rw [hpieces]
  refine .of_word (isIdentifierName_of_isIdentifier h) (ne_else h) fun ps hps => ?_
  have hcolon : Terminal.ofText ":" = .punctuator ":" := by decide
  rw [wordStatement_of_isIdentifier h, List.cons_append, view_token (by decide), hcolon]
  simp [skip?, hb.reads ps hps]

theorem StatementReads.doWhile {test : String} {b : Tree .statement} (h : isPlainName test)
    (hb : StatementReads b) : StatementReads (.doWhile b (named test)) := by
  have hpieces : (Generate.doWhile (b.code id) (Generate.name id test)).pieces false =
      .token "do" :: ((b.code id).pieces false ++
        [.token "while", .token "(", .token test, .token ")", .statementEnd]) := by
    simp [Generate.doWhile, enclose, Generate.name]
  show PiecesRead ((Generate.doWhile (b.code id) (Generate.name id test)).pieces false) false
    (.doWhile b.wrapElse (named test))
  rw [hpieces]
  refine .of_word (by decide) (by decide) fun ps _ => ?_
  have hwhile : view (.token "while" :: .token "(" :: .token test :: .token ")" ::
      .statementEnd :: ps) =
      .word "while" :: view (.token "(" :: .token test :: .token ")" :: .statementEnd :: ps) :=
    view_keyword (by decide) _
  have hbody := hb.reads
    (.token "while" :: .token "(" :: .token test :: .token ")" :: .statementEnd :: ps)
    (fun _ => by rw [hwhile]; rfl)
  have hgroup := group_named (isIdentifier_of_isPlainName h) (.statementEnd :: ps)
  rw [wordStatement_eq]
  simp [hbody, hwhile, keyword?, hgroup, statementEnd?_view]

/-! ### Loops -/

section

variable {name : String}

theorem leftHandSide_named (h : isIdentifier name) (rest : List Terminal)
    (hrest : Ends .call rest) :
    leftHandSide (.word name :: rest) = some (named name, rest) := by
  have hleft := (ReadsAs.identifier h).leftHand (by decide) rest Precedence.noConfusion
  rw [List.singleton_append] at hleft
  rw [hleft, hrest.tail_eq (Nat.le_refl _)]
  rfl

theorem loopHead_in {object : String} (h : isIdentifier name) (ho : isIdentifier object)
    (ps : List Piece) :
    loopHead (view (.token "(" :: .token name :: .token "in" :: .token object :: .token ")" :: ps))
      = some (.keys (namedTarget name) (named object), view ps) := by
  have hobject := level_named ho (.punctuator ")" :: view ps) (by rw [ends_cons]; decide)
  have hleft := leftHandSide_named h
    (.word "in" :: .word object :: .punctuator ")" :: view ps) (by rw [ends_cons]; decide)
  have hopen : Terminal.ofText "(" = .punctuator "(" := by decide
  have hclose : Terminal.ofText ")" = .punctuator ")" := by decide
  rw [view_token (by decide), view_name h, view_keyword (by decide), view_name ho,
    view_token (by decide), hopen, hclose]
  simp [loopHead, skip?, hleft, keysHead, hobject, toTarget?, named, namedTarget]

theorem loopHead_of {items : String} (h : isIdentifier name) (hi : isIdentifier items)
    (ps : List Piece) :
    loopHead (view (.token "(" :: .token name :: .token "of" :: .token items :: .token ")" :: ps))
      = some (.values (namedTarget name) (named items), view ps) := by
  have hitems : assignment (.word items :: .punctuator ")" :: view ps)
      = some (named items, .punctuator ")" :: view ps) := by
    have hread := (ReadsAs.identifier hi).reads .assignment (by decide) (by decide)
      (.punctuator ")" :: view ps) (by rw [ends_cons]; decide)
    simpa [level, named] using hread
  have hleft := leftHandSide_named h
    (.word "of" :: .word items :: .punctuator ")" :: view ps) (by rw [ends_cons]; decide)
  have hopen : Terminal.ofText "(" = .punctuator "(" := by decide
  have hclose : Terminal.ofText ")" = .punctuator ")" := by decide
  rw [view_token (by decide), view_name h, view_keyword (by decide), view_name hi,
    view_token (by decide), hopen, hclose]
  simp [loopHead, skip?, hleft, valuesHead, hitems, toTarget?, named, namedTarget]

/-- The pieces of a name that may be missing. -/
def partPieces : Option String → List Piece
  | some name => [.token name]
  | none => []

/-- A part of a loop head, up to what closes it. -/
theorem optional_view {part? : Option String} (h : part?.all isPlainName) {p : Piece}
    {closing : String} {ps : List Piece} (hp : view (p :: ps) = .punctuator closing :: view ps)
    (hends : strength (.punctuator closing) = 0) :
    optional closing (view (partPieces part? ++ p :: ps)) = some (namedPart part?, view ps) := by
  cases part? with
  | none =>
    rw [partPieces, List.nil_append, hp, optional]
    simp [skip?, namedPart]
  | some name =>
    have hname := isIdentifier_of_isPlainName (by simpa using h)
    have hread := level_named hname (.punctuator closing :: view ps)
      (by rw [ends_cons, hends]; decide)
    rw [partPieces, List.singleton_append, view_name hname, hp, optional]
    simp [skip?, namedPart, hread]

theorem leftHandSide_semicolon (ts : List Terminal) :
    leftHandSide (.punctuator ";" :: ts) = none := by
  rw [leftHandSide_eq, head_eq]
  simp [keyword?, primary]

/-- The head of a loop has steps if no word follows its first part. -/
theorem loopHead_eq_stepsHead {ts : List Terminal}
    (h : ∀ e w rest, leftHandSide ts ≠ some (e, .word w :: rest)) :
    loopHead (.punctuator "(" :: ts) = stepsHead ts := by
  have hskip : skip? "(" (.punctuator "(" :: ts) = some ts := by simp [skip?]
  simp only [loopHead, hskip, Option.bind_eq_bind, Option.bind_some]

theorem loopHead_steps {start? test? update? : Option String} (hs : start?.all isPlainName)
    (ht : test?.all isPlainName) (hu : update?.all isPlainName) (ps : List Piece) :
    loopHead (view (.token "(" :: (partPieces start? ++ .semicolon :: (partPieces test? ++
      .semicolon :: (partPieces update? ++ .token ")" :: ps)))))
      = some (.steps (namedPart start?) (namedPart test?) (namedPart update?), view ps) := by
  have hopen : Terminal.ofText "(" = .punctuator "(" := by decide
  have hstart := optional_view hs
    (view_semicolon (partPieces test? ++ .semicolon :: (partPieces update? ++ .token ")" :: ps)))
    (by decide)
  have htest := optional_view ht
    (view_semicolon (partPieces update? ++ .token ")" :: ps)) (by decide)
  have hupdate := optional_view hu (p := .token ")") (view_token (by decide) ps) (by decide)
  rw [view_token (by decide), hopen, loopHead_eq_stepsHead]
  · simp [stepsHead, hstart, htest, hupdate]
  intro e w rest heq
  cases start? with
  | none =>
    rw [partPieces, List.nil_append, view_semicolon, leftHandSide_semicolon] at heq
    cases heq
  | some name =>
    have hname := isIdentifier_of_isPlainName (by simpa using hs)
    rw [partPieces, List.singleton_append, view_name hname, view_semicolon,
      leftHandSide_named hname _ (by rw [ends_cons]; decide)] at heq
    cases heq

end

/-- A loop behind `for`. -/
theorem PiecesRead.loop {head body : Fragment} {misses : Bool} {h : LoopHead}
    {s : Tree .statement}
    (hhead : ∀ ps, loopHead (view (.token "(" :: (head.pieces false ++ .token ")" :: ps)))
      = some (h, view ps))
    (hbody : PiecesRead (body.pieces false) misses s) :
    PiecesRead ((Generate.headed "for" head body).pieces false) misses (h.toStatement s) := by
  have hword : ∀ ts, wordStatement "for" ts =
      (loopHead ts).bind fun r =>
        (statement r.2).bind fun r' => some (r.1.toStatement r'.1, r'.2) := by
    intro ts
    rw [wordStatement_eq]
    rfl
  exact .headed (fun h s => h.toStatement s) (by decide) hword (by decide) hhead hbody

/-- A plain name needs no parentheses as the target of a loop. -/
theorem loopTarget_name {name : String} (h : isPlainName name) :
    loopTarget (Generate.name id name) = Generate.name id name := by
  have hlet : (Generate.name id name).marks.startsWithLet = false := by
    simp only [isPlainName, Bool.and_eq_true] at h
    show (name == "let") = false
    simpa using h.2
  unfold loopTarget
  rw [hlet, if_neg Bool.false_ne_true]

theorem StatementReads.forIn {target object : String} {b : Tree .statement}
    (ht : isPlainName target) (ho : isPlainName object) (hb : StatementReads b) :
    StatementReads
      (.forIn (.ofLoopTarget (.ofSimpleTarget (namedTarget target))) (named object) b) := by
  refine PiecesRead.loop (h := .keys (namedTarget target) (named object)) (fun ps => ?_) hb
  show loopHead (view (.token "(" :: ((Fragment.sequence [loopTarget (Generate.name id target),
    .token "in", Generate.name id object]).pieces false ++ _))) = _
  rw [loopTarget_name ht]
  exact loopHead_in (isIdentifier_of_isPlainName ht) (isIdentifier_of_isPlainName ho) ps

theorem StatementReads.forOf {target items : String} {b : Tree .statement}
    (ht : isPlainName target) (hi : isPlainName items) (hb : StatementReads b) :
    StatementReads
      (.forOf (.ofLoopTarget (.ofSimpleTarget (namedTarget target))) (named items) b) := by
  refine PiecesRead.loop (h := .values (namedTarget target) (named items)) (fun ps => ?_) hb
  show loopHead (view (.token "(" :: ((Fragment.sequence [loopTarget (Generate.name id target),
    .token "of", Generate.name id items]).pieces false ++ _))) = _
  rw [loopTarget_name ht]
  exact loopHead_of (isIdentifier_of_isPlainName ht) (isIdentifier_of_isPlainName hi) ps

theorem StatementReads.forLoop {start? test? update? : Option String} {b : Tree .statement}
    (hs : start?.all isPlainName) (ht : test?.all isPlainName) (hu : update?.all isPlainName)
    (hb : StatementReads b) :
    StatementReads
      (.forLoop (startOf (namedPart start?)) (namedPart test?) (namedPart update?) b) := by
  refine PiecesRead.loop
    (h := .steps (namedPart start?) (namedPart test?) (namedPart update?)) (fun ps => ?_) hb
  have hsteps := loopHead_steps hs ht hu ps
  -- a missing part has no pieces
  cases start? <;> cases test? <;> cases update? <;> exact hsteps

/-! ### Conditional statements -/

section

variable {test : String} {s a : Tree .statement}

theorem StatementReads.ifOnly (h : isPlainName test) (hs : StatementReads s) :
    StatementReads (.ifStatement (named test) s .absent) := by
  show PiecesRead (.token "if" :: .token "(" :: .token test :: .token ")" ::
    ((s.code id).pieces false ++ [])) true (.ifStatement (named test) s.wrapElse .absent)
  refine .of_word (by decide) (by decide) fun ps hps => ?_
  have hgroup := group_named (isIdentifier_of_isPlainName h) ((s.code id).pieces false ++ ps)
  rw [wordStatement_eq]
  simp [hgroup, hs.reads ps fun _ => hps rfl, hps rfl]

/-- A consequent, in a block if it would take the `else` behind it. -/
theorem StatementReads.consequent (hs : StatementReads s) :
    PiecesRead
      (Fragment.pieces (if (s.code id).marks.endsWithMissingElse then Generate.block [s.code id]
        else s.code id) false) false
      (if s.missesElse then enclosed s.wrapElse else s.wrapElse) := by
  rw [Tree.endsWithMissingElse_code]
  cases hmisses : s.missesElse with
  | true => exact PiecesRead.block (StatementsRead.cons hs .nil)
  | false =>
    refine ⟨hs.opens, hs.noElse, fun ps _ => hs.reads ps fun htrue => ?_⟩
    rw [hmisses] at htrue
    cases htrue

theorem StatementReads.ifElse (h : isPlainName test) (hs : StatementReads s)
    (ha : StatementReads a) :
    StatementReads (.ifStatement (named test) s (.present a)) := by
  let c := if (s.code id).marks.endsWithMissingElse then Generate.block [s.code id] else s.code id
  have hpieces : (Generate.ifStatement (Generate.name id test) (s.code id)
      (some (a.code id))).pieces false =
      .token "if" :: .token "(" :: .token test :: .token ")" ::
        (c.pieces false ++ .token "else" :: (a.code id).pieces false) := by
    simp [Generate.ifStatement, endingIn, enclose, Generate.name, c]
  show PiecesRead ((Generate.ifStatement (Generate.name id test) (s.code id)
    (some (a.code id))).pieces false) a.missesElse
    (.ifStatement (named test) (if s.missesElse then enclosed s.wrapElse else s.wrapElse)
      (.present a.wrapElse))
  rw [hpieces]
  refine .of_word (by decide) (by decide) fun ps hps => ?_
  have hgroup := group_named (isIdentifier_of_isPlainName h)
    (c.pieces false ++ .token "else" :: ((a.code id).pieces false ++ ps))
  have helse : view (.token "else" :: ((a.code id).pieces false ++ ps)) =
      .word "else" :: view ((a.code id).pieces false ++ ps) :=
    view_keyword (by decide) _
  have hconsequent := hs.consequent.reads
    (.token "else" :: ((a.code id).pieces false ++ ps)) Bool.noConfusion
  rw [wordStatement_eq]
  simp [hgroup, hconsequent, helse, keyword?, ha.reads ps hps, c]

end

/-! ### The induction -/

/-- What the parser makes of the code of nested statements. -/
def NestedReads : {c : Category} → Tree c → Prop
  | .statement, s => StatementReads s
  | .list .statement, ss => StatementsRead ss
  | _, _ => True

theorem Nested.reads {c : Category} {t : Tree c} (h : Nested t) : NestedReads t := by
  induction h with
  | nil => exact StatementsRead.nil
  | cons _ _ ihs ihss => exact StatementsRead.cons ihs ihss
  | expression h => exact StatementReads.expression h
  | empty => exact StatementReads.empty
  | block _ ih => exact PiecesRead.block ih
  | ifOnly h _ ih => exact StatementReads.ifOnly h ih
  | ifElse h _ _ ihs iha => exact StatementReads.ifElse h ihs iha
  | whileLoop h _ ih => exact StatementReads.whileLoop h ih
  | doWhile h _ ih => exact StatementReads.doWhile h ih
  | forLoop hs ht hu _ ih => exact StatementReads.forLoop hs ht hu ih
  | forIn ht ho _ ih => exact StatementReads.forIn ht ho ih
  | forOf ht hi _ ih => exact StatementReads.forOf ht hi ih
  | withStatement h _ ih => exact StatementReads.withStatement h ih
  | labeled h _ ih => exact StatementReads.labeled h ih

/-! ### Nested statements read back -/

/-- What writing a nested statement hands to the stream are its pieces, and the parser makes of
the terminals of these pieces the statement with a block around every consequent that would take
the `else` behind it. -/
theorem parseStatement_terminals {s : Tree .statement} (hs : Nested s) :
    (∀ stream : Stream, stream.IsCompact →
      (s.code id).emit false stream = stream.putAll ((s.code id).pieces false)) ∧
    parseStatement (terminals (s.code id)) = some s.wrapElse := by
  refine ⟨fun stream h => Fragment.emit_eq_putAll _ false h, ?_⟩
  have hreads : StatementReads s := hs.reads
  have hstatement := hreads.reads [] fun _ => rfl
  rw [List.append_nil] at hstatement
  have hview : terminals (s.code id) = view ((s.code id).pieces false) := rfl
  rw [parseStatement, hview, hstatement]
  rfl

/-- The consequent of `if (x) l: while (y) if (z); else do v; while (u)`, where the `else` is that
of the first `if`, goes into a block. -/
theorem parseStatement_terminals_labeled :
    let exposed : Tree .statement :=
      .labeled "l" (.whileLoop (named "y") (.ifStatement (named "z") .emptyStatement .absent))
    let loop : Tree .statement := .doWhile (.expressionStatement (named "v")) (named "u")
    let s : Tree .statement := .ifStatement (named "x") exposed (.present loop)
    Nested s ∧ parseStatement (terminals (s.code id)) =
      some (.ifStatement (named "x") (enclosed exposed) (.present loop)) := by
  intro exposed loop s
  have hexposed : Nested exposed :=
    .labeled (by decide) (.whileLoop (by decide) (.ifOnly (by decide) .empty))
  have hloop : Nested loop := .doWhile (by decide) (.expression (by decide))
  have hs : Nested s := .ifElse (by decide) hexposed hloop
  exact ⟨hs, (parseStatement_terminals hs).2⟩

end EcmaPrinter.Grammar
