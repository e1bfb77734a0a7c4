import EcmaPrinter.Proofs.Fragment.Events
import EcmaPrinter.Proofs.Hazard.Opening
import EcmaPrinter.Proofs.Lexical.Sound
import EcmaPrinter.Proofs.Tree.Inside
import EcmaPrinter.Proofs.Tree.Visits

/-!
Directive prologues are read back.

The directives of a script, a module or a function body are the statements at its start that are one
string literal each.  A reader of the emitted tokens takes all of those (`readPrologue`), so the
first statement behind the directives must be another one.  It starts with a string literal only if
something follows that goes on with the statement (`Continues`), for a string literal alone is put
in parentheses there.
-/

namespace EcmaPrinter

open EcmaPrinter.Generate
open EcmaPrinter.Lexical
open EcmaPrinter.Text

/-! ### Reading a prologue -/

/-- The contents of a token that is read as one string literal, without the quotation marks. -/
def rawContents? : Piece → Option String
  | .token text =>
    if text.toList.head?.any isQuote && (readToken .div text.toList).any (·.2.isEmpty) then
      some (String.ofList text.toList.tail.dropLast)
    else none
  | _ => none

/-- The contents of the string literals that are statements of their own, as long as there are such
statements.  A statement ends with a semicolon, before a closing brace, or at the end. -/
def readPrologue : List Piece → List String
  | [] => []
  | [p] => (rawContents? p).toList
  | p :: q :: rest =>
    match rawContents? p with
    | none => []
    | some raw =>
      if q = .semicolon then raw :: readPrologue rest
      else if q = .token "\x7d" then [raw]
      else []

/-- A piece that is written, and that goes on with the statement before it. -/
def Piece.goesOn (p : Piece) : Bool :=
  p.isSolid && p != .semicolon && p != .token "\x7d"

/-- The pieces do not start with a statement that is one string literal. -/
inductive Continues : List Piece → Prop
  | skip {p : Piece} {ps : List Piece} (hempty : p.isEmpty) (h : Continues ps) : Continues (p :: ps)
  | other {p : Piece} {ps : List Piece} (hsolid : p.isSolid) (h : rawContents? p = none) :
      Continues (p :: ps)
  | longer {p q : Piece} {ps : List Piece} (hsolid : p.isSolid) (h : q.goesOn) :
      Continues (p :: q :: ps)

theorem tokens_cons {p : Piece} (h : p.isSolid) (ps : List Piece) :
    tokens (p :: ps) = p :: tokens ps := by
  obtain ⟨hempty, hend⟩ : p.isEmpty = false ∧ p ≠ .statementEnd := by
    simpa [Piece.isSolid] using h
  unfold tokens
  rw [List.filter_cons_of_pos (by simp [hempty]), settle, if_neg hend]

theorem tokens_cons_statementEnd (ps : List Piece) :
    tokens (.statementEnd :: ps) =
      if endsVisibly (ps.filter (!·.isEmpty)) then .semicolon :: tokens ps else tokens ps := by
  unfold tokens
  rw [List.filter_cons_of_pos rfl, settle, if_pos rfl]

theorem readPrologue_cons_none {p : Piece} (h : rawContents? p = none) (ps : List Piece) :
    readPrologue (p :: ps) = [] := by
  cases ps <;> simp [readPrologue, h]

theorem Continues.readPrologue_eq_nil {ps : List Piece} (h : Continues ps) (rest : List Piece) :
    readPrologue (tokens (ps ++ rest)) = [] := by
  induction h with
  | skip hempty _ ih =>
    unfold tokens at ih ⊢
    rwa [List.cons_append, List.filter_cons_of_neg (by simp [hempty])]
  | other hsolid h =>
    rw [List.cons_append, tokens_cons hsolid]
    exact readPrologue_cons_none h _
  | @longer p q ps hsolid h =>
    obtain ⟨⟨hq, hsemicolon⟩, hbrace⟩ : (q.isSolid ∧ q ≠ .semicolon) ∧ q ≠ .token "\x7d" := by
      simpa [Piece.goesOn] using h
    rw [List.cons_append, List.cons_append, tokens_cons hsolid, tokens_cons hq, readPrologue]
    split
    · rfl
    · rw [if_neg hsemicolon, if_neg hbrace]

/-- A directive before anything else is read, and then what follows it. -/
theorem readPrologue_directive {text raw : String} (hne : text ≠ "")
    (h : rawContents? (.token text) = some raw) (ps : List Piece) :
    readPrologue (tokens (.token text :: .statementEnd :: ps)) =
      raw :: readPrologue (tokens ps) := by
  have hsolid : (Piece.token text).isSolid := by simp [Piece.isSolid, Piece.isEmpty, hne]
  rw [tokens_cons hsolid, tokens_cons_statementEnd]
  unfold tokens
  generalize ps.filter (!·.isEmpty) = qs
  rcases qs with - | ⟨q, rest⟩
  · simp [endsVisibly, settle, readPrologue, h]
  · by_cases hbrace : q = .token "\x7d"
    · subst hbrace
      have hsettle : settle (.token "\x7d" :: rest) = .token "\x7d" :: settle rest := rfl
      have hnone : rawContents? (.token "\x7d") = none := by decide
      have hvisible : endsVisibly (.token "\x7d" :: rest) = false := by simp [endsVisibly]
      rw [hvisible, hsettle, readPrologue_cons_none hnone]
      simp [readPrologue, h]
    · have hvisible : endsVisibly (q :: rest) := by simp [endsVisibly, hbrace]
      rw [if_pos hvisible]
      simp [readPrologue, h]

/-! ### Literals -/

/-- A legal directive is read as one literal, and its contents are the raw text. -/
theorem rawContents?_quoteDirective {raw : String} (h : isDirective raw) :
    rawContents? (.token (quoteDirective raw)) = some raw := by
  obtain ⟨us, hus⟩ := Option.isSome_iff_exists.mp (cooked?_directiveQuote h)
  have hmark := isQuote_directiveQuote raw
  have hspelling := Spelling.string hmark hus
  have hread : readToken .div (directiveQuote raw :: (raw.toList ++ [directiveQuote raw]) ++ []) =
      some (⟨_, .text us⟩, []) := readToken_append hspelling ⟨nofun, nofun, nofun⟩
  rw [List.append_nil] at hread
  simp only [rawContents?, quoteDirective, String.toList_ofList, hread]
  simp [hmark]

theorem isSolid_token {text : String} (h : text ≠ "") : (Piece.token text).isSolid := by
  simp [Piece.isSolid, Piece.isEmpty, h]

theorem ne_empty_of_toList {text : String} {c : Char} {cs : List Char} (h : text.toList = c :: cs) :
    text ≠ "" := by
  rintro rfl
  cases h

theorem continues_token {text : String} (h : rawContents? (.token text) = none ∧ text ≠ "")
    (ps : List Piece) : Continues (.token text :: ps) :=
  .other (isSolid_token h.2) h.1

/-- A string literal starts with a quotation mark. -/
theorem continues_of_toList {text : String} {c : Char} {cs : List Char} (h : text.toList = c :: cs)
    (hc : isQuote c = false) (ps : List Piece) : Continues (.token text :: ps) :=
  continues_token ⟨by simp [rawContents?, h, hc], ne_empty_of_toList h⟩ ps

theorem continues_name {name : String} (h : isIdentifierName name) (ps : List Piece) :
    Continues (.token name :: ps) := by
  rw [isIdentifierName_eq] at h
  cases hchars : name.toList with
  | nil =>
    rw [hchars] at h
    cases h
  | cons c cs =>
    have hstart : isIdentifierStart c := by
      rw [hchars, isName, Bool.and_eq_true] at h
      exact h.1
    refine continues_of_toList hchars ?_ ps
    rw [Bool.eq_false_iff]
    intro hquote
    rcases isQuote_iff.mp hquote with rfl | rfl <;> cases hstart

/-! ### The left edge of expressions -/

/-- The pieces are a string literal, or start with another statement. -/
def Leading (ps : List Piece) : Prop :=
  (∃ value, ps = [.token (quote value)]) ∨ Continues ps

variable {ps qs : List Piece}

theorem Continues.append (h : Continues ps) (qs : List Piece) : Continues (ps ++ qs) := by
  induction h with
  | skip hempty _ ih => exact .skip hempty ih
  | other hsolid h => exact .other hsolid h
  | longer hsolid h => exact .longer hsolid h

/-- What goes on with a string literal makes another statement of it. -/
theorem Leading.append (h : Leading ps) {q : Piece} (hq : q.goesOn) (qs : List Piece) :
    Continues (ps ++ q :: qs) := by
  rcases h with ⟨value, rfl⟩ | h
  · have hne : quote value ≠ "" := ne_empty_of_toList String.toList_ofList
    exact .longer (isSolid_token hne) hq
  · exact h.append _

theorem continues_paren (f : Fragment) : Continues ((Fragment.paren f).pieces false) :=
  continues_token (by decide) _

section

variable {e : Operand} {f : Fragment} {fs : List Fragment}

theorem leading_within (h : Leading (e.code.pieces false)) (p : Precedence) :
    Leading ((e.within p).pieces false) := by
  unfold Operand.within
  split
  · exact .inr (continues_paren _)
  · exact h

theorem Continues.sequence (h : Continues (f.pieces false)) (fs : List Fragment) (m : Marks) :
    Continues (((Fragment.sequence (f :: fs)).withMarks m).pieces false) := by
  rw [Fragment.pieces_withMarks, Fragment.pieces_sequence, List.flatMap_cons]
  exact h.append _

theorem Leading.sequence (h : Leading (f.pieces false)) {q : Piece}
    (hfs : fs.flatMap (·.pieces false) = q :: qs) (hq : q.goesOn) (m : Marks) :
    Continues (((Fragment.sequence (f :: fs)).withMarks m).pieces false) := by
  rw [Fragment.pieces_withMarks, Fragment.pieces_sequence, List.flatMap_cons, hfs]
  exact h.append hq qs

end

/-- Is the name of an identifier an identifier name? -/
def Node.isIdentified : Node → Bool
  | ⟨_, .bindingName name⟩ | ⟨_, .targetName name⟩ | ⟨_, .identifier name⟩ => isIdentifierName name
  | _ => true

/-- The names of all identifiers in a tree are identifier names. -/
def Tree.IsIdentified {c : Category} (t : Tree c) : Prop :=
  ∀ n ∈ t.nodes, n.isIdentified

instance {c : Category} (t : Tree c) : Decidable t.IsIdentified :=
  inferInstanceAs (Decidable (∀ n ∈ t.nodes, n.isIdentified))

/-- A tree on the left edge of a statement is a string literal, or starts with another statement. -/
def LeadingTree : (c : Category) → Tree c → Prop
  | .option c, t => ∀ u, t = .present u → LeadingTree c u
  | .expression, e =>
    Leading ((e.code id).code.pieces false) ∧
      (e.isString = false → Continues ((e.code id).code.pieces false))
  | .callee, e => Leading ((e.code id).code.pieces false)
  | .target, t | .simpleTarget, t => Continues ((t.code id).pieces false)
  | _, _ => True

theorem leadingTree_of_continues {e : Expression} (h : Continues ((e.code id).code.pieces false)) :
    LeadingTree .expression e :=
  ⟨.inr h, fun _ => h⟩

theorem continues_update {f : Fragment} (before : Bool) (op : UpdateOperator)
    (h : Continues (f.pieces false)) : Continues ((Generate.update before op f).pieces false) := by
  cases before with
  | false => exact h.sequence _ _
  | true => exact continues_token (by cases op <;> decide) _

theorem leading_leftOperand {e : Operand} (op : BinaryOperator) (isPrefixed : Bool)
    (h : Leading (e.code.pieces false)) :
    Leading ((leftOperand op isPrefixed e).pieces false) := by
  unfold leftOperand
  split
  · split
    · exact .inr (continues_paren _)
    · exact h
  · exact leading_within h _

theorem continues_binary {e e' : Operand} (op : BinaryOperator) (isPrefixed : Bool)
    (h : Leading (e.code.pieces false)) :
    Continues ((Generate.binary isPrefixed e op e').pieces false) := by
  have hop : (if op = .sequence then Piece.comma else .operator op.text).goesOn := by
    cases op <;> decide
  rw [pieces_binary]
  exact (leading_leftOperand op isPrefixed h).append hop _

theorem continues_arrow (isAsync : Bool) {ps : Tree .parameters} (h : ps.IsIdentified)
    (body : Fragment) :
    Continues ((Generate.arrow isAsync ps.isSingleName (ps.code id) body).pieces false) := by
  cases isAsync with
  | true => exact continues_token (by decide) _
  | false =>
    cases hsingle : ps.isSingleName with
    | false => exact continues_token (by decide) _
    | true =>
      obtain ⟨name, rfl⟩ := Tree.exists_of_isSingleName hsingle
      have hname : isIdentifierName name :=
        part_of_one (part_of_one (parts_of_two (parts_of_two h).1).1) _ List.mem_cons_self
      exact continues_name hname _

/-- By induction along the left edge. -/
theorem Tree.leadingTree {c : Category} (t : Tree c) (h : t.IsIdentified) : LeadingTree c t := by
  induction t with
  | absent => rintro u ⟨⟩
  | present t ih =>
    rintro u ⟨⟩
    exact ih (part_of_one h)
  -- assignment targets
  | ofSimpleTarget t ih => exact ih (part_of_one h)
  | ofTargetName n =>
    cases n with | targetName n =>
    have hname : isIdentifierName n := part_of_one h _ List.mem_cons_self
    exact continues_name hname _
  | arrayTarget | objectTarget => exact continues_token (by decide) _
  | staticMemberTarget t property ih =>
    exact (leading_within (ih (part_of_one h)) _).sequence rfl (by decide) _
  | computedMemberTarget t e ih =>
    exact (leading_within (ih (parts_of_two h).1) _).sequence rfl (by decide) _
  -- literals and names
  | string value => exact ⟨.inl ⟨value, rfl⟩, nofun⟩
  | boolean value =>
    exact leadingTree_of_continues (continues_token (by cases value <;> decide) _)
  | infinity | number => exact leadingTree_of_continues (.other rfl rfl)
  | null | this | newTarget | array | object | construct | await | yieldFrom =>
    exact leadingTree_of_continues (continues_token (by decide) _)
  | regExp pattern flags =>
    exact leadingTree_of_continues (continues_of_toList String.toList_ofList (by decide) _)
  | functionExpression isAsync isGenerator n ps b =>
    refine leadingTree_of_continues ?_
    cases isAsync <;> exact continues_token (by decide) _
  | classExpression => exact leadingTree_of_continues (continues_token (by decide) _)
  | ofIdentifier n =>
    cases n with | identifier n =>
    have hname : isIdentifierName n := part_of_one h _ List.mem_cons_self
    exact leadingTree_of_continues (continues_name hname _)
  -- members, calls and templates
  | template t ps iht =>
    have htag := iht (parts_of_two h).1
    cases t with
    | absent => exact leadingTree_of_continues (continues_token (by decide) _)
    | present tag =>
      exact leadingTree_of_continues
        ((leading_within (htag tag rfl).1 _).sequence rfl (by decide) _)
  | staticMember t property ih =>
    exact leadingTree_of_continues
      ((leading_within (ih (part_of_one h)) _).sequence rfl (by decide) _)
  | computedMember t e ih =>
    exact leadingTree_of_continues
      ((leading_within (ih (parts_of_two h).1) _).sequence rfl (by decide) _)
  | call f as ih =>
    exact leadingTree_of_continues
      ((leading_within (ih (parts_of_two h).1) _).sequence rfl (by decide) _)
  | ofCallee e ih => exact (ih (part_of_one h)).1
  | super => exact .inr (continues_token (by decide) _)
  -- operators
  | unary op e => exact leadingTree_of_continues (continues_token (by cases op <;> decide) _)
  | update before op t ih =>
    exact leadingTree_of_continues (continues_update before op (ih (part_of_one h)))
  | binary l op r ihl =>
    exact leadingTree_of_continues (continues_binary op _ (ihl (parts_of_two h).1).1)
  | conditional t s a iht =>
    exact leadingTree_of_continues
      ((leading_within (iht (parts_of_three h).1).1 _).sequence rfl (by decide) _)
  | assign t v iht | compoundAssign t op v iht =>
    exact leadingTree_of_continues (Continues.sequence (iht (parts_of_two h).1) _ _)
  | arrow isAsync ps b =>
    exact leadingTree_of_continues (continues_arrow isAsync (parts_of_two h).1 _)
  | yield e => cases e <;> exact leadingTree_of_continues (continues_token (by decide) _)
  | _ => trivial

/-! ### First statements -/

/-- A statement starts with another statement than a directive, once it is kept from being read as
one. -/
theorem continues_statement (s : Tree .statement) (h : s.IsIdentified) :
    Continues ((directiveSafe (s.code id)).pieces false) := by
  cases s with
  | expressionStatement e =>
    obtain ⟨-, he⟩ := Tree.leadingTree e (part_of_one h)
    show Continues ((directiveSafe (Generate.expressionStatement e.isString _)).pieces false)
    cases hstring : e.isString with
    | true => exact continues_token (by decide) _
    | false =>
      have hcode : Continues ((if isHazardousStart (e.code id).code.marks then
          .paren (e.code id).code else (e.code id).code : Fragment).pieces false) := by
        split
        · exact continues_paren _
        · exact he hstring
      exact Continues.sequence hcode _ {}
  | labeled label b =>
    by_cases hempty : label = ""
    · subst hempty
      exact .skip rfl (continues_token (by decide) _)
    · exact .longer (isSolid_token hempty) (by decide)
  | blockStatement b =>
    cases b with | block ss => exact continues_token (by decide) _
  | variableStatement d =>
    cases d with | declaration kind ds => exact continues_token (by cases kind <;> decide) _
  | ofFunction f =>
    cases f with | function isAsync isGenerator n ps b =>
    cases isAsync <;> exact continues_token (by decide) _
  | ofClass d =>
    cases d with | classDeclaration n p es => exact continues_token (by decide) _
  | ifStatement t s a => cases a <;> exact continues_token (by decide) _
  | emptyStatement => exact .other rfl rfl
  | breakStatement | continueStatement | debuggerStatement | doWhile | forIn | forOf | forLoop
  | returnStatement | switchStatement | switchWithDefault | throwStatement | tryCatch | tryFinally
  | whileLoop | withStatement => exact continues_token (by decide) _

theorem continues_moduleItem (i : Tree .moduleItem) (h : i.IsIdentified) :
    Continues ((directiveSafe (i.code id)).pieces false) := by
  cases i with
  | ofImport d =>
    cases d with
    | importNamed d ns specifier =>
      show Continues ((directiveSafe (Generate.importNamed id _ _ specifier)).pieces false)
      unfold Generate.importNamed
      split <;> exact continues_token (by decide) _
    | importNamespace => exact continues_token (by decide) _
  | ofExport d => cases d <;> exact continues_token (by decide) _
  | ofStatement s => exact continues_statement s (part_of_one h)

/-! ### Bodies -/

/-- What has a directive prologue. -/
inductive Body where
  | program (p : Program)
  | function (b : Tree .functionBody)

/-- The raw texts of a list of directives. -/
def Tree.directiveTexts {c : Category} : Tree c → List String
  | cons (directive raw) ds => raw :: ds.directiveTexts
  | _ => []

namespace Body

/-- The raw texts of the directives. -/
def directives : Body → List String
  | .program (.script ds _) | .program (.moduleBody ds _) | .function (.functionBody ds _) =>
    ds.directiveTexts

/-- The nodes in a body. -/
def nodes : Body → List Node
  | .program p => p.nodes
  | .function b => b.nodes

/-- The code of a body under the given options. -/
def fragment (o : Options) : Body → Fragment
  | .program p => p.code o.spell
  | .function b => b.code o.spell

/-- The pieces of a body.  Those of a function body go between braces. -/
def pieces (o : Options) (b : Body) : List Piece :=
  (b.fragment o).pieces false

end Body

theorem pieces_directives : ∀ ds : Tree (.list .directive),
    (ds.code id : List Fragment).flatMap (·.pieces false) =
      ds.directiveTexts.flatMap fun raw => [.token (quoteDirective raw), .statementEnd]
  | .nil => rfl
  | .cons (.directive raw) ds => by
    have ih := pieces_directives ds
    exact congrArg ([.token (quoteDirective raw), .statementEnd] ++ ·) ih

theorem pieces_lines (fs : List Fragment) :
    (lines fs).pieces false = fs.flatMap (·.pieces false) := by
  simp [lines, List.flatMap_map]

theorem readPrologue_directives {raws : List String} (h : ∀ raw ∈ raws, isDirective raw)
    (ps : List Piece) :
    readPrologue
        (tokens ((raws.flatMap fun raw => [.token (quoteDirective raw), .statementEnd]) ++ ps)) =
      raws ++ readPrologue (tokens ps) := by
  induction raws with
  | nil => rfl
  | cons raw raws ih =>
    obtain ⟨hraw, hraws⟩ := List.forall_mem_cons.mp h
    have hne : quoteDirective raw ≠ "" := ne_empty_of_toList String.toList_ofList
    rw [List.flatMap_cons, List.append_assoc, List.cons_append, List.singleton_append,
      readPrologue_directive hne (rawContents?_quoteDirective hraw), ih hraws, List.cons_append]

/-- Nothing follows, or a closing brace does. -/
def EndsBody (rest : List Piece) : Prop :=
  ∀ p ∈ rest.head?, p = .token "\x7d"

theorem EndsBody.readPrologue_eq_nil {rest : List Piece} (h : EndsBody rest) :
    readPrologue (tokens rest) = [] := by
  cases rest with
  | nil => rfl
  | cons p rest =>
    obtain rfl := h p rfl
    rw [tokens_cons rfl]
    exact readPrologue_cons_none (by decide) _

/-- The directives of a prologue are read back, and nothing more. -/
theorem readPrologue_prologue {ds : Tree (.list .directive)} {fs : List Fragment}
    (hraws : ∀ raw ∈ ds.directiveTexts, isDirective raw)
    (hfirst : ∀ f ∈ fs.head?, Continues ((directiveSafe f).pieces false)) {rest : List Piece}
    (hrest : EndsBody rest) :
    readPrologue (tokens ((prologue (ds.code id) fs).pieces false ++ rest)) =
      ds.directiveTexts := by
  cases fs with
  | nil =>
    rw [prologue, pieces_lines, pieces_directives, readPrologue_directives hraws,
      hrest.readPrologue_eq_nil, List.append_nil]
  | cons f fs =>
    rw [prologue, pieces_lines, List.flatMap_append, pieces_directives, List.append_assoc,
      readPrologue_directives hraws, List.flatMap_cons, List.append_assoc,
      (hfirst f rfl).readPrologue_eq_nil, List.append_nil]

theorem continues_head_statement : ∀ {ss : Tree (.list .statement)}, ss.IsIdentified →
    ∀ f ∈ (ss.code id : List Fragment).head?, Continues ((directiveSafe f).pieces false)
  | .cons s ss, h, f, hf => by
    obtain rfl := Option.some.inj hf
    exact continues_statement s (parts_of_two h).1

theorem continues_head_moduleItem : ∀ {is : Tree (.list .moduleItem)}, is.IsIdentified →
    ∀ f ∈ (is.code id : List Fragment).head?, Continues ((directiveSafe f).pieces false)
  | .cons i is, h, f, hf => by
    obtain rfl := Option.some.inj hf
    exact continues_moduleItem i (parts_of_two h).1

/-! ### Function bodies in their places -/

/-- The node is a function, an arrow or a method of some kind, with this body. -/
inductive HasBody (b : Tree .functionBody) : Node → Prop
  | function {isAsync isGenerator : Bool} {n : Tree .bindingName} {ps : Tree .parameters} :
      HasBody b ⟨_, .function isAsync isGenerator n ps b⟩
  | functionExpression {isAsync isGenerator : Bool} {n : Tree (.option .bindingName)}
      {ps : Tree .parameters} : HasBody b ⟨_, .functionExpression isAsync isGenerator n ps b⟩
  | arrow {isAsync : Bool} {ps : Tree .parameters} :
      HasBody b ⟨_, .arrow isAsync ps (.ofFunctionBody b)⟩
  | method {isAsync isGenerator : Bool} {n : Tree .propertyName} {ps : Tree .parameters} :
      HasBody b ⟨_, .method isAsync isGenerator n ps b⟩
  | getter {n : Tree .propertyName} : HasBody b ⟨_, .getter n b⟩
  | setter {n : Tree .propertyName} {p : Tree .parameter} : HasBody b ⟨_, .setter n p b⟩

theorem function_holds_brace (isAsync isGenerator : Bool) {name? : Option Fragment}
    {ps b : Fragment} :
    (Generate.function isAsync isGenerator name? ps b).Holds (.brace b) := by
  simp [Generate.function, or_and_right, exists_or]

theorem method_holds_brace (isAsync isGenerator : Bool) {n ps b : Fragment} :
    (Generate.method isAsync isGenerator n ps b).Holds (.brace b) := by
  simp [Generate.method]

theorem getter_holds_brace {n b : Fragment} : (Generate.getter n b).Holds (.brace b) := by
  simp [Generate.getter]

theorem setter_holds_brace {n p b : Fragment} : (Generate.setter n p b).Holds (.brace b) := by
  simp [Generate.setter]

/-- A body is written between braces. -/
theorem HasBody.writes {F : Fragment} {b : Tree .functionBody} {n : Node}
    {spell : String → String} (hb : HasBody b n) (h : F.WritesTree spell n.2) :
    F.Writes (.brace (b.code spell)) := by
  cases hb with
  | function => exact Fragment.Writes.trans_holds h (function_holds_brace _ _)
  | functionExpression =>
    exact Fragment.Writes.trans_holds h
      ((Fragment.withMarks_holds _).mpr (function_holds_brace _ _))
  | arrow => exact Fragment.Writes.trans_holds h (arrow_holds _ _).2
  | method => exact Fragment.Writes.trans_holds h (method_holds_brace _ _)
  | getter => exact Fragment.Writes.trans_holds h getter_holds_brace
  | setter => exact Fragment.Writes.trans_holds h setter_holds_brace

/-- The directives of a script, a module or a function body are read back from the tokens that
writing it hands over.  Nothing follows the tokens of a program, and those of a function body stand
between braces. -/
theorem readPrologue_eq_directives (o : Options) (b : Body) (ho : o.webSafe = false)
    (hnames : ∀ n ∈ b.nodes, n.isIdentified) (hraws : ∀ raw ∈ b.directives, isDirective raw) :
    (∀ rest, EndsBody rest → readPrologue (tokens (b.pieces o ++ rest)) = b.directives) ∧
      (∀ (p : Program) (body : Tree .functionBody), b = .function body →
        ∀ n ∈ p.nodes, HasBody body n →
          enclose "\x7b" "\x7d" (b.pieces o) <:+: (Body.program p).pieces o) ∧
      (b.fragment o).HandsOver := by
  refine ⟨fun rest hrest => ?_, ?_, Fragment.handsOver _⟩
  · cases b with
    | program p =>
      simp only [Body.pieces, Body.fragment, Options.spell_eq_id ho]
      cases p with
      | script ds ss =>
        exact readPrologue_prologue hraws (continues_head_statement (parts_of_two hnames).2) hrest
      | moduleBody ds is =>
        exact readPrologue_prologue hraws (continues_head_moduleItem (parts_of_two hnames).2) hrest
    | function b =>
      simp only [Body.pieces, Body.fragment, Options.spell_eq_id ho]
      cases b with | functionBody ds ss =>
      exact readPrologue_prologue hraws (continues_head_statement (parts_of_two hnames).2) hrest
  · rintro p body rfl n hn hbody
    obtain ⟨noIn, hoccurs⟩ := (hbody.writes (Program.writes_nodes o.spell p n hn)).occurs rfl false
    exact hoccurs

/-- A getter of two directives with different quotation marks in them, and a string literal. -/
theorem readPrologue_eq_directives_getter :
    let body : Tree .functionBody := .functionBody
      (.cons (.directive "a\"") (.cons (.directive "b\\'") .nil))
      (.cons (.expressionStatement (.string "c")) .nil)
    let object : Expression :=
      .object (.cons (.ofMethod (.getter (.staticName "g") body)) .nil)
    let p : Program := .script .nil (.cons (.expressionStatement object) .nil)
    isDirective "a\"" ∧ isDirective "b\\'" ∧
      readPrologue (tokens ((Body.function body).pieces {} ++ [.token "\x7d"])) = ["a\"", "b\\'"] ∧
        enclose "\x7b" "\x7d" ((Body.function body).pieces {}) <:+: (Body.program p).pieces {} := by
  intro body object p
  have hraws : ∀ raw ∈ ["a\"", "b\\'"], isDirective raw := by decide
  have h := readPrologue_eq_directives {} (.function body) rfl (by decide) hraws
  refine ⟨by decide, by decide, h.1 [.token "\x7d"] (by simp [EndsBody]), ?_⟩
  refine h.2.1 p body rfl ⟨_, .getter (.staticName "g") body⟩ ?_ .getter
  exact List.mem_of_getElem? (i := 7) rfl

end EcmaPrinter
