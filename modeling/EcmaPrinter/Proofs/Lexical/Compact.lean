import EcmaPrinter.Proofs.Lexical.Laid
import EcmaPrinter.Render

/-!
Compact text is read back as the tokens that it was written from.

A tree is legal if its names, numbers, patterns, directives and template texts are what a parser
would accept there.  A rule that admits legal names and literals admits legal trees
(`Tree.isAdmitted_of_isLegal`).  The table is such a rule, so the pieces of a legal program follow
each other by the table, and its text is read as their tokens (`readsBack_of_separable`).
-/

namespace EcmaPrinter

open EcmaPrinter.Generate
open EcmaPrinter.Lexical
open EcmaPrinter.Number
open EcmaPrinter.Text

/-! ### Legal trees -/

/-- Are the names, numbers, patterns, directives and template texts of a tree legal?  A function or
class may go without its name, which `Tree.defaultName` stands for. -/
def Tree.isLegal {c : Category} : Tree c → Bool
  | nil | absent | exportAll _ | staticName _ | debuggerStatement | emptyStatement | boolean _
  | infinity | null | string _ | this | newTarget | super => true
  -- names and literals
  | bindingName name | targetName name | identifier name => isIdentifierName name
  | directive raw => isDirective raw
  | number value => value.isFinite && (!value.negative || value.isZero)
  | regExp pattern _ => isPattern pattern.toList
  | templateText raw => (cooked? .template raw.toList).isSome
  | breakStatement label? | continueStatement label? => label?.all isIdentifierName
  | exportFromSpecifier name exported? =>
    isIdentifierName name && exported?.all isIdentifierName
  -- one part
  | present t | ofImport t | ofExport t | ofStatement t | exportLocals t | exportFrom t _
  | exportDeclared t | exportDefault t | ofExportedFunction t | ofExportedClass t
  | ofExportedVariables t | ofDefaultExpression t | ofDefaultFunction t | ofDefaultClass t
  | ofBinding t | classElement _ t | computedName t | shorthandProperty t | ofMethod t
  | ofBindingName t | objectBinding t | ofSimpleTarget t | objectTarget t | ofTargetName t
  | ofTarget t | blockStatement t | expressionStatement t | returnStatement t | throwStatement t
  | variableStatement t | ofFunction t | ofClass t | block t | switchDefault t | declaration _ t
  | ofLoopTarget t | ofLoopDeclaration t | ofStartExpression t | ofStartDeclaration t | array t
  | object t | ofIdentifier t | unary _ t | update _ _ t | await t | yield t | yieldFrom t
  | ofCallee t | ofArgument t | spread t | ofSubstitution t | ofExpressionBody t
  | ofFunctionBody t => t.isLegal
  | importSpecifier name? t => name?.all isIdentifierName && t.isLegal
  | exportLocalSpecifier t name? => t.isLegal && name?.all isIdentifierName
  | staticMember t name | staticMemberTarget t name => t.isLegal && isIdentifierName name
  | labeled name t => isIdentifierName name && t.isLegal
  -- two parts
  | cons t u | script t u | moduleBody t u | importNamed t u _ | importNamespace t u _
  | parameters t u | bindingWithDefault t u | functionBody t u | getter t u | dataProperty t u
  | arrayBinding t u | bindingShorthand t u | bindingProperty t u | arrayTarget t u
  | computedMemberTarget t u | targetWithDefault t u | targetShorthand t u | targetProperty t u
  | doWhile t u | switchStatement t u | tryCatch t u | whileLoop t u | withStatement t u
  | switchCase t u | catchClause t u | declarator t u | template t u | computedMember t u
  | call t u | construct t u | binary t _ u | assign t u | compoundAssign t _ u
  | arrow _ t u => t.isLegal && u.isLegal
  -- three and four parts
  | function _ _ t u v | classDeclaration t u v =>
    (t.isDefaultName || t.isLegal) && u.isLegal && v.isLegal
  | method _ _ t u v | setter t u v | forIn t u v | forOf t u v | ifStatement t u v
  | tryFinally t u v | functionExpression _ _ t u v | classExpression t u v
  | conditional t u v => t.isLegal && u.isLegal && v.isLegal
  | forLoop t u v w | switchWithDefault t u v w =>
    t.isLegal && u.isLegal && v.isLegal && w.isLegal

section

variable {a b : Bool}

theorem legal_left (h : (a && b) = true) : a :=
  (Bool.and_eq_true_iff.mp h).1

theorem legal_right (h : (a && b) = true) : b :=
  (Bool.and_eq_true_iff.mp h).2

end

/-- The name of a declaration is legal, if it has one. -/
theorem Tree.isLegal_declaredName {n : Tree .bindingName}
    (ih : n.isLegal → ∀ m ∈ n.nodes, m.2.isLegal) (h : (n.isDefaultName || n.isLegal) = true) :
    ∀ m ∈ (if n.isDefaultName then [] else n.nodes), m.2.isLegal := by
  split
  · exact List.forall_mem_nil _
  · next hname => exact ih (by simpa [hname] using h)

/-- Everything in a legal tree is legal. -/
theorem Tree.isLegal_nodes {c : Category} (t : Tree c) :
    t.isLegal → ∀ n ∈ t.nodes, n.2.isLegal := by
  induction t with
  -- no parts
  | nil | absent | directive | exportAll | exportFromSpecifier | staticName | bindingName
  | targetName | breakStatement | continueStatement | debuggerStatement | emptyStatement | boolean
  | infinity | null | number | regExp | string | this | newTarget | identifier | super
  | templateText => exact fun h => forall_mem_one h (List.forall_mem_nil _)
  -- one part
  | present _ ih | ofImport _ ih | ofExport _ ih | ofStatement _ ih | exportFrom _ _ ih
  | exportLocals _ ih | exportDeclared _ ih | exportDefault _ ih | ofExportedFunction _ ih
  | ofExportedClass _ ih | ofExportedVariables _ ih | ofDefaultExpression _ ih
  | ofDefaultFunction _ ih | ofDefaultClass _ ih | ofBinding _ ih | classElement _ _ ih
  | computedName _ ih | shorthandProperty _ ih | ofMethod _ ih | ofBindingName _ ih
  | objectBinding _ ih | ofSimpleTarget _ ih | objectTarget _ ih | ofTargetName _ ih
  | ofTarget _ ih | blockStatement _ ih | expressionStatement _ ih | returnStatement _ ih
  | throwStatement _ ih | variableStatement _ ih | ofFunction _ ih | ofClass _ ih | block _ ih
  | switchDefault _ ih | declaration _ _ ih | ofLoopTarget _ ih | ofLoopDeclaration _ ih
  | ofStartExpression _ ih | ofStartDeclaration _ ih | array _ ih | object _ ih
  | ofIdentifier _ ih | unary _ _ ih | update _ _ _ ih | await _ ih | yield _ ih
  | yieldFrom _ ih | ofCallee _ ih | ofArgument _ ih | spread _ ih | ofSubstitution _ ih
  | ofExpressionBody _ ih | ofFunctionBody _ ih => exact fun h => forall_mem_one h (ih h)
  | importSpecifier _ _ ih | labeled _ _ ih =>
    exact fun h => forall_mem_one h (ih (legal_right h))
  | exportLocalSpecifier _ _ ih | staticMemberTarget _ _ ih | staticMember _ _ ih =>
    exact fun h => forall_mem_one h (ih (legal_left h))
  -- two parts
  | cons _ _ ihu ihv | script _ _ ihu ihv | moduleBody _ _ ihu ihv | importNamed _ _ _ ihu ihv
  | importNamespace _ _ _ ihu ihv | parameters _ _ ihu ihv | bindingWithDefault _ _ ihu ihv
  | functionBody _ _ ihu ihv | getter _ _ ihu ihv | dataProperty _ _ ihu ihv
  | arrayBinding _ _ ihu ihv | bindingShorthand _ _ ihu ihv | bindingProperty _ _ ihu ihv
  | arrayTarget _ _ ihu ihv | computedMemberTarget _ _ ihu ihv | targetWithDefault _ _ ihu ihv
  | targetShorthand _ _ ihu ihv | targetProperty _ _ ihu ihv | doWhile _ _ ihu ihv
  | switchStatement _ _ ihu ihv | tryCatch _ _ ihu ihv | whileLoop _ _ ihu ihv
  | withStatement _ _ ihu ihv | switchCase _ _ ihu ihv | catchClause _ _ ihu ihv
  | declarator _ _ ihu ihv | template _ _ ihu ihv | computedMember _ _ ihu ihv | call _ _ ihu ihv
  | construct _ _ ihu ihv | binary _ _ _ ihu ihv | assign _ _ ihu ihv
  | compoundAssign _ _ _ ihu ihv | arrow _ _ _ ihu ihv =>
    exact fun h => forall_mem_two h (ihu (legal_left h)) (ihv (legal_right h))
  -- three and four parts
  | function _ _ _ _ _ ihu ihv ihw | classDeclaration _ _ _ ihu ihv ihw =>
    exact fun h => forall_mem_three h (isLegal_declaredName ihu (legal_left (legal_left h)))
      (ihv (legal_right (legal_left h))) (ihw (legal_right h))
  | method _ _ _ _ _ ihu ihv ihw | setter _ _ _ ihu ihv ihw | forIn _ _ _ ihu ihv ihw
  | forOf _ _ _ ihu ihv ihw | ifStatement _ _ _ ihu ihv ihw | tryFinally _ _ _ ihu ihv ihw
  | functionExpression _ _ _ _ _ ihu ihv ihw | classExpression _ _ _ ihu ihv ihw
  | conditional _ _ _ ihu ihv ihw =>
    exact fun h => forall_mem_three h (ihu (legal_left (legal_left h)))
      (ihv (legal_right (legal_left h))) (ihw (legal_right h))
  | forLoop _ _ _ _ ihu ihv ihw ihx | switchWithDefault _ _ _ _ ihu ihv ihw ihx =>
    exact fun h => forall_mem_four h (ihu (legal_left (legal_left (legal_left h))))
      (ihv (legal_right (legal_left (legal_left h)))) (ihw (legal_right (legal_left h)))
      (ihx (legal_right h))

/-! ### Rules that admit legal trees -/

/-- A rule that admits legal names, strings and template texts. -/
class Lexical.Rule.Literate (rule : Rule) : Prop extends Rule.Lawful rule where
  name : ∀ {name : String}, isIdentifierName name → rule.Admits (.token name)
  quoted : ∀ {mark : Char} {body : List Char}, isQuote mark →
    (cooked? (.string mark) body).isSome →
      rule.Admits (.token (String.ofList (mark :: (body ++ [mark]))))
  text : ∀ {raw : String}, (cooked? .template raw.toList).isSome → raw ≠ "" →
    rule.Admits (.raw raw)

instance : (Table {}).Literate where
  name h _ hallows := ⟨sound_of_isFixed (isFixed_name h).1, hallows⟩
  quoted hmark h _ hallows := ⟨sound_quoted hmark h, hallows⟩
  text h hne _ hallows := ⟨sound_raw h hne, hallows⟩

section

variable {rule : Rule} [rule.Literate]

instance : rule.Quotes id where
  quote value :=
    have hmark := isQuote_cheaperQuote value.toList
    ⟨Rule.Literate.quoted hmark (isSome_cooked?_escapes hmark _), kindOf_quoted hmark _⟩

theorem admitsName_of_isLegal {name : String} (h : isIdentifierName name) : rule.AdmitsName name :=
  ⟨Rule.Literate.name h, (isFixed_name h).2⟩

theorem admitsName_option {name? : Option String} (h : name?.all isIdentifierName) :
    ∀ name ∈ name?.toList, rule.AdmitsName name := by
  intro name hname
  obtain rfl := Option.mem_toList.mp hname
  exact admitsName_of_isLegal h

/-- The texts of a template are admitted wherever they stand. -/
theorem admitsParts_of_isLegal {texts : String → String} (htexts : ∀ raw, texts raw = raw)
    (parts : Tree (.list .templatePart)) (h : parts.isLegal) {S : List Edge} (hS : S ⊆ inside) :
    rule.AdmitsParts texts S (parts.code id) := by
  cases parts with
  | nil => trivial
  | cons part parts =>
    have ih := @admitsParts_of_isLegal _ htexts parts (legal_right h)
    cases part with
    | ofSubstitution e => exact ih (by decide)
    | templateText raw =>
      refine ⟨fun hne e he => ?_, ih (List.cons_subset.mpr ⟨by decide, hS⟩)⟩
      rw [htexts] at hne ⊢
      exact Rule.Literate.text (legal_left h) hne e (by simpa [allows, kindOf, inside] using hS he)

/-- Such a rule admits what is legal, if it admits the regular expressions. -/
theorem Tree.isAdmitted_of_isLegal {c : Category} {t : Tree c} (h : t.isLegal)
    (hregExp : ∀ {pattern flags}, isPattern pattern.toList →
      (⟨c, t⟩ : Node) = ⟨_, .regExp pattern flags⟩ → rule.Admits (regExpToken pattern flags)) :
    t.IsAdmitted rule id := by
  cases t with
  | bindingName | targetName | identifier =>
    exact List.forall_mem_singleton.mpr (admitsName_of_isLegal h)
  | labeled => exact List.forall_mem_singleton.mpr (admitsName_of_isLegal (legal_left h))
  | staticMember | staticMemberTarget =>
    exact List.forall_mem_singleton.mpr (admitsName_of_isLegal (legal_right h))
  | breakStatement | continueStatement => exact admitsName_option h
  | importSpecifier => exact admitsName_option (legal_left h)
  | exportLocalSpecifier => exact admitsName_option (legal_right h)
  | exportFromSpecifier =>
    exact List.forall_mem_cons.mpr
      ⟨admitsName_of_isLegal (legal_left h), admitsName_option (legal_right h)⟩
  | staticName => exact admitsName_of_isLegal
  | directive raw =>
    have hmark := isQuote_directiveQuote raw
    exact ⟨Rule.Literate.quoted hmark (cooked?_directiveQuote h), kindOf_quoted hmark _⟩
  | number value =>
    have hsign : value.negative = false ∨ value.isZero := by simpa using legal_right h
    exact Rule.Lawful.number value (Double.isNaN_of_isFinite (legal_left h)) hsign
  | regExp pattern flags => exact hregExp h rfl
  | template tag parts =>
    exact admitsParts_of_isLegal (fun raw => ite_self raw) parts (legal_right h) (by decide)
  | _ => exact List.forall_mem_nil _

end

/-! ### Reading compact text -/

section

variable {style : Style} {f : Fragment} {e e' : Edge}

/-- The text of a fragment whose events follow each other by the table is that of its tokens. -/
theorem Fragment.toList_render (hcompact : style.indent? = none)
    (h : Path (Table style) e (f.events false) e') :
    (f.render style).toList =
      (({ style := style } : Stream).putAll (tokens (f.pieces false))).text.reverse := by
  have hstream : Stream.IsCompact { style := style } := hcompact
  have hemit := Fragment.emit_eq_putAll f false hstream
  have htext := h.text_putAll hcompact
  rw [Fragment.pieces_events] at htext
  rw [Fragment.render, Stream.toString, String.toList_ofList, hemit, htext]

/-- Behind a statement a fragment does not end inside a template. -/
theorem Fragment.linked (h : Path (Table style) e (f.events false) e') (he' : e' ∈ between) :
    Linked style e (tokens (f.pieces false)) := by
  have hchunk : e' ≠ .chunk := fun heq => absurd (heq ▸ he') (by decide)
  have hlinked := h.linked hchunk
  rwa [Fragment.pieces_events] at hlinked

end

/-- The tokens of a program: the pieces that are put on the stream, without the empty ones, and with
a semicolon for each statement end that does not stand before a brace or at the end. -/
def Program.emitted (p : Program) : List Piece :=
  tokens ((Program.fragment {} p).pieces false)

/-- The pieces of a legal program lead from the start of the text to the end of a statement. -/
theorem Program.exists_path {p : Program} (h : p.isLegal) :
    ∃ e ∈ between, Path (Table {}) .operator ((Program.fragment {} p).events false) e :=
  have hlaid : Laid (Table {}) .program (p.code id) :=
    p.laid fun n hn => Tree.isAdmitted_of_isLegal (p.isLegal_nodes h n hn)
      fun hpattern _ _ hallows => ⟨sound_regExp hpattern _, hallows⟩
  hlaid false .operator (by decide)

/-- The text of a program is that of its tokens. -/
theorem Program.toList_compact {p : Program} (h : p.isLegal) :
    (Program.compact p).toList = (({} : Stream).putAll p.emitted).text.reverse := by
  obtain ⟨e, -, hpath⟩ := Program.exists_path h
  exact Fragment.toList_render rfl hpath

theorem Program.linked {p : Program} (h : p.isLegal) : Linked {} .operator p.emitted := by
  obtain ⟨e, he, hpath⟩ := Program.exists_path h
  exact Fragment.linked hpath he

/-- The compact text of the program is read as its tokens. -/
def Program.ReadsBack (p : Program) : Prop :=
  ∃ ls, readAll (p.emitted.map goalOf) (Program.compact p).toList = some ls ∧
    List.Forall₂ Denotes ls p.emitted

/-- The compact text of a legal program is read as its tokens, unless two of them run together. -/
theorem readsBack_of_separable {p : Program} (h : p.isLegal) (hsep : Separable p.emitted) :
    p.ReadsBack := by
  have hlinked := Program.linked h
  obtain ⟨vs, hvs, hstands⟩ := hlinked.exists_values
  obtain ⟨ls, hread, hvalues, hmatch⟩ := hlinked.readAll rfl hvs (hlinked.clear rfl hsep)
  refine ⟨ls, ?_, forall₂_denotes hmatch (hvalues ▸ hstands)⟩
  rw [Program.toList_compact h]
  exact hread

/-- The statements `1..x/ /y/`, `a+ ++b<! --c` and a template, which need all kinds of spacing. -/
theorem readsBack_of_separable_spaced :
    let name (n : String) : Expression := .ofIdentifier (.identifier n)
    let target (n : String) : Tree .simpleTarget := .ofTargetName (.targetName n)
    let one : Expression := .number (.ofBits 0x3FF0000000000000)
    let flags : RegExpFlags := ⟨false, false, false, false, false⟩
    let quotient : Expression :=
      .binary (.staticMember (.ofCallee one) "x") .divide (.regExp "y" flags)
    let sum : Expression :=
      .binary (.binary (name "a") .add (.update true .increment (target "b"))) .less
        (.unary .logicalNot (.update true .decrement (target "c")))
    let parts : Tree (.list .templatePart) :=
      .cons (.templateText "t") (.cons (.ofSubstitution (.unary .typeof one)) .nil)
    let p : Program :=
      .script (.cons (.directive "use strict") .nil)
        (.cons (.expressionStatement quotient) (.cons (.expressionStatement sum)
          (.cons (.returnStatement (.present (.template .absent parts))) .nil)))
    p.isLegal ∧ Separable p.emitted ∧ p.ReadsBack := by
  intro name target one flags quotient sum parts p
  have hlegal : p.isLegal := by decide
  have hsep : Separable p.emitted := by
    unfold Separable
    decide
  exact ⟨hlegal, hsep, readsBack_of_separable hlegal hsep⟩

/-- Both exceptions are real: a regular expression without flags runs into `of`, and two stretches
of template text are read as one. -/
theorem not_readsBack_of_clash :
    let flags : RegExpFlags := ⟨false, false, false, false, false⟩
    let x : Tree .declarator :=
      .declarator (.ofBindingName (.bindingName "x")) (.present (.regExp "a" flags))
    let loop : Program :=
      .script .nil (.cons (.forOf (.ofLoopDeclaration (.declaration .functionScope (.cons x .nil)))
        (.ofIdentifier (.identifier "b")) .emptyStatement) .nil)
    let texts : Tree (.list .templatePart) :=
      .cons (.templateText "a") (.cons (.templateText "b") .nil)
    let split : Program :=
      .script .nil (.cons (.expressionStatement (.template .absent texts)) .nil)
    (loop.isLegal ∧ ¬loop.ReadsBack) ∧ (split.isLegal ∧ ¬split.ReadsBack) := by
  intro flags x loop texts split
  refine ⟨⟨by decide, ?_⟩, by decide, ?_⟩
  · rintro ⟨ls, hread, -⟩
    have hnone : readAll (loop.emitted.map goalOf) (Program.compact loop).toList = none := by
      decide
    rw [hnone] at hread
    cases hread
  · rintro ⟨ls, hread, hdenotes⟩
    have hsome : (readAll (split.emitted.map goalOf) (Program.compact split).toList).map
        (·.map (·.chars)) = some [['\x60'], ['a', 'b'], [], ['\x60']] := by decide
    have hchars : ls.map (·.chars) = [['\x60'], ['a', 'b'], [], ['\x60']] := by
      simpa [hread] using hsome
    have hemitted : split.emitted =
        [.token "\x60", .raw "a", .raw "b", .token "\x60"] := by decide
    rw [hemitted] at hdenotes
    cases hdenotes with | cons _ hdenotes =>
    cases hdenotes with | @cons l _ _ _ hl hdenotes =>
    have hl : l.chars = ['a'] := hl
    simp [hl] at hchars

end EcmaPrinter
