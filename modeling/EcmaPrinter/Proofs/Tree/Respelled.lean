import EcmaPrinter.Generate.Code
import EcmaPrinter.Proofs.Fragment.Parts
import EcmaPrinter.Proofs.Render.Failure
import EcmaPrinter.Proofs.Text.Safe

/-!
Web-safe code is the plain code with all of its texts made safe.

The texts of a tree pass through the spelling when the code is generated.  All other texts in the
code are safe already: the words and marks of the language are, and so are the regular expressions
and tagged templates of a tree that can be rendered.  So for such a tree it makes no difference
whether texts are made safe before or after the code is generated (`Tree.code_webSafe`).
-/

namespace EcmaPrinter

open EcmaPrinter.Generate
open EcmaPrinter.Text

/-! ### Safe fragments -/

/-- The atom with a safe text. -/
def Atom.safe : Atom → Atom
  | .token text => .token (webSafe text)
  | .raw text => .raw (webSafe text)
  | .operator text => .operator (webSafe text)
  | a => a

mutual

/-- The fragment with safe texts. -/
def Fragment.safe : Fragment → Fragment
  | .atom m a => .atom m a.safe
  | .wrap m w f => .wrap m w f.safe
  | .series m j fs => .series m j (Fragment.safeAll fs)
  | .declared m l => .declared m l.safe
  | .initialized m l r => .initialized m l.safe r.safe

/-- Fragments with safe texts. -/
def Fragment.safeAll : List Fragment → List Fragment
  | [] => []
  | f :: fs => f.safe :: Fragment.safeAll fs

end

namespace Fragment

variable {f : Fragment} {fs : List Fragment}

theorem safeAll_eq_map (fs : List Fragment) : safeAll fs = fs.map safe := by
  induction fs with
  | nil => rfl
  | cons f fs ih => rw [safeAll, ih, List.map_cons]

@[simp] theorem marks_safe (f : Fragment) : f.safe.marks = f.marks := by
  cases f <;> rfl

@[simp] theorem safe_withMarks (m : Marks) (f : Fragment) :
    (f.withMarks m).safe = f.safe.withMarks m := by
  cases f <;> rfl

/-- A word of the language stays as it is. -/
@[simp] theorem safe_word {word : String} (h : isSafe word.toList) :
    (token word).safe = token word :=
  congrArg token (webSafe_eq_self_iff.mpr h)

@[simp] theorem safe_operator {text : String} (h : isSafe text.toList) :
    (operator text).safe = operator text :=
  congrArg operator (webSafe_eq_self_iff.mpr h)

@[simp] theorem safe_empty : empty.safe = empty := rfl

@[simp] theorem safe_number (x : Number.Double) : (number x).safe = number x := rfl

@[simp] theorem safe_semicolon : semicolon.safe = semicolon := rfl

@[simp] theorem safe_statementEnd : statementEnd.safe = statementEnd := rfl

@[simp] theorem safe_paren (f : Fragment) : (paren f).safe = paren f.safe := rfl

@[simp] theorem safe_bracket (f : Fragment) : (bracket f).safe = bracket f.safe := rfl

@[simp] theorem safe_brace (f : Fragment) : (brace f).safe = brace f.safe := rfl

@[simp] theorem safe_noIn (f : Fragment) : (noIn f).safe = noIn f.safe := rfl

@[simp] theorem safe_guardIn (f : Fragment) : (guardIn f).safe = guardIn f.safe := by
  unfold guardIn
  rw [marks_safe]
  split <;> rfl

@[simp] theorem safe_stringStatement (f : Fragment) :
    (stringStatement f).safe = stringStatement f.safe := rfl

@[simp] theorem safe_line (f : Fragment) : (line f).safe = line f.safe := rfl

@[simp] theorem safe_indent (f : Fragment) : (indent f).safe = indent f.safe := rfl

@[simp] theorem safe_sequence (fs : List Fragment) :
    (sequence fs).safe = sequence (fs.map safe) :=
  congrArg sequence (safeAll_eq_map fs)

@[simp] theorem safe_separated (fs : List Fragment) :
    (separated fs).safe = separated (fs.map safe) :=
  congrArg separated (safeAll_eq_map fs)

@[simp] theorem safe_declarator (f : Fragment) (right? : Option Fragment) :
    (declarator f right?).safe = declarator f.safe (right?.map safe) := by
  cases right? <;> rfl

@[simp] theorem safe_ite {p : Prop} [Decidable p] (f g : Fragment) :
    (if p then f else g).safe = if p then f.safe else g.safe := by
  split <;> rfl

end Fragment

open Fragment

/-! ### Safe pieces -/

/-- The piece with a safe text. -/
def Piece.safe : Piece → Piece
  | .token text => .token (webSafe text)
  | .raw text => .raw (webSafe text)
  | .operator text => .operator (webSafe text)
  | p => p

theorem Atom.safe_eq_self {a : Atom} (h : ∀ p ∈ a.pieces, p.safe = p) : a.safe = a := by
  cases a with
  | token text => exact congrArg Atom.token (Piece.token.inj (h _ (List.mem_singleton_self _)))
  | raw text => exact congrArg Atom.raw (Piece.raw.inj (h _ (List.mem_singleton_self _)))
  | operator text =>
    exact congrArg Atom.operator (Piece.operator.inj (h _ (List.mem_singleton_self _)))
  | empty | number | semicolon | statementEnd => rfl

mutual

/-- A fragment whose pieces are safe is safe. -/
theorem Fragment.safe_eq_self : ∀ (f : Fragment) (noIn : Bool),
    (∀ p ∈ f.pieces noIn, p.safe = p) → f.safe = f
  | .atom m a, _, h => by rw [Fragment.safe, a.safe_eq_self h]
  | .wrap m w f, noIn, h => by
    obtain ⟨b, hb⟩ := w.exists_infix_pieces f.pieces noIn
    rw [Fragment.safe, Fragment.safe_eq_self f b fun p hp => h p (hb.subset hp)]
  | .series m j fs, noIn, h => by rw [Fragment.safe, Fragment.safeAll_eq_self j fs noIn h]
  | .declared m l, _, h => by rw [Fragment.safe, Fragment.safe_eq_self l false h]
  | .initialized m l r, noIn, h => by
    obtain ⟨hl, hr⟩ := List.forall_mem_append.mp h
    rw [Fragment.safe, Fragment.safe_eq_self l false hl,
      Fragment.safe_eq_self r noIn (List.forall_mem_cons.mp hr).2]

theorem Fragment.safeAll_eq_self (j : Joint) : ∀ (fs : List Fragment) (noIn : Bool),
    (∀ p ∈ Fragment.seriesPieces j fs noIn, p.safe = p) → Fragment.safeAll fs = fs
  | [], _, _ => rfl
  | f :: fs, noIn, h => by
    obtain ⟨hf, hfs⟩ := List.forall_mem_append.mp h
    rw [Fragment.safeAll, Fragment.safe_eq_self f noIn hf, Fragment.safeRest_eq_self j fs noIn hfs]

theorem Fragment.safeRest_eq_self (j : Joint) : ∀ (fs : List Fragment) (noIn : Bool),
    (∀ p ∈ Fragment.restPieces j fs noIn, p.safe = p) → Fragment.safeAll fs = fs
  | [], _, _ => rfl
  | f :: fs, noIn, h => by
    obtain ⟨-, hrest⟩ := List.forall_mem_append.mp h
    obtain ⟨hf, hfs⟩ := List.forall_mem_append.mp hrest
    rw [Fragment.safeAll, Fragment.safe_eq_self f noIn hf, Fragment.safeRest_eq_self j fs noIn hfs]

end

/-! ### Safe code -/

/-- The operand with safe texts. -/
def Generate.Operand.safe (e : Operand) : Operand :=
  ⟨e.code.safe, e.precedence⟩

/-- The part of a template with safe texts in its hole.  The text of a part is made safe with the
template. -/
def Generate.Chunk.safe : Chunk → Chunk
  | .text raw => .text raw
  | .hole f => .hole f.safe

/-- The code of a tree with safe texts. -/
def Code.safe : (c : Category) → Code c → Code c
  | .list c, codes => codes.map (Code.safe c)
  | .option c, code? => code?.map (Code.safe c)
  | .expression, e | .callee, e => Operand.safe e
  | .templatePart, part => Chunk.safe part
  | .exportable, fs | .defaultExport, fs => fs.map Fragment.safe
  | .program, f | .directive, f | .moduleItem, f | .importDeclaration, f | .importSpecifier, f
  | .exportDeclaration, f | .exportFromSpecifier, f | .exportLocalSpecifier, f | .function, f
  | .parameters, f | .parameter, f | .functionBody, f | .classDeclaration, f | .classElement, f
  | .method, f | .propertyName, f | .objectProperty, f | .binding, f | .bindingName, f
  | .bindingProperty, f | .target, f | .simpleTarget, f | .targetName, f | .targetElement, f
  | .targetProperty, f | .statement, f | .block, f | .switchCase, f | .switchDefault, f
  | .catchClause, f | .declaration, f | .declarator, f | .loopTarget, f | .loopStart, f
  | .identifier, f | .argument, f | .arrowBody, f => Fragment.safe f

section

variable {spell : String → String} {e e' d d' c c' : Operand} {f f' g g' h h' : Fragment}
  {fs fs' gs gs' : List Fragment} {f? f'? g? g'? h? h'? : Option Fragment} {e? e'? : Option Operand}

@[simp] theorem precedence_safe (e : Operand) : e.safe.precedence = e.precedence := rfl

@[simp] theorem code_safe (e : Operand) : e.safe.code = e.code.safe := rfl

@[simp] theorem safe_within (e : Operand) (p : Precedence) : (e.within p).safe = e.safe.within p :=
  safe_ite _ _

@[simp] theorem safe_single (e : Operand) : e.single.safe = e.safe.single :=
  safe_within e .assignment

/-! ### Names, lists and defaults -/

theorem safe_keywordIf {keyword : String} (hword : isSafe keyword.toList) (present : Bool) :
    (keywordIf present keyword).safe = keywordIf present keyword := by
  simp [keywordIf, hword]

@[simp] theorem safe_orEmpty (f? : Option Fragment) :
    (orEmpty f?).safe = orEmpty (f?.map safe) := by
  cases f? <;> rfl

@[simp] theorem safe_lines (fs : List Fragment) : (lines fs).safe = lines (fs.map safe) := by
  simp [lines, Function.comp_def]

@[simp] theorem safe_block (fs : List Fragment) :
    (Generate.block fs).safe = Generate.block (fs.map safe) := by
  simp [Generate.block]

@[simp] theorem safe_rest (f : Fragment) : (rest f).safe = rest f.safe := by
  simp (disch := decide) [rest]

@[simp] theorem safe_properties (fs : List Fragment) :
    (properties fs).safe = properties (fs.map safe) := by
  simp [properties]

theorem endsInHole_map (fs? : List (Option Fragment)) :
    endsInHole (fs?.map (Option.map safe)) = endsInHole fs? := by
  unfold endsInHole
  rw [List.getLast?_map]
  rcases fs?.getLast? with - | - | f <;> rfl

theorem arrayElements_safe {fs? fs'? : List (Option Fragment)}
    (hfs : fs'? = fs?.map (Option.map safe)) (hf : f'? = f?.map safe) :
    arrayElements fs'? f'? = (arrayElements fs? f?).safe := by
  have hitems : (fs?.map orEmpty).map safe = (fs?.map (Option.map safe)).map orEmpty := by
    simp [Function.comp_def]
  subst hfs hf
  cases f? with
  | none =>
    simp only [arrayElements, safe_bracket, safe_separated, List.map_append, hitems, endsInHole_map]
    cases endsInHole fs? <;> rfl
  | some f =>
    simp only [arrayElements, safe_bracket, safe_separated, List.map_append, hitems,
      Option.map_some, List.map_cons, safe_rest, List.map_nil]

@[simp] theorem safe_directiveSafe (f : Fragment) :
    (directiveSafe f).safe = directiveSafe f.safe := by
  cases f with
  | wrap m w f =>
    cases w with
    | stringStatement => simp [directiveSafe, Fragment.safe]
    | _ => rfl
  | _ => rfl

theorem prologue_safe (hf : fs' = fs.map safe) (hg : gs' = gs.map safe) :
    prologue fs' gs' = (prologue fs gs).safe := by
  subst hf hg
  cases gs <;> simp [prologue]

theorem withDefault_safe (hf : f' = f.safe) (he : e' = e.safe) :
    withDefault f' e' = (withDefault f e).safe := by
  simp [withDefault, hf, he]

theorem withDefault?_safe (hf : f' = f.safe) (he : e'? = e?.map Operand.safe) :
    withDefault? f' e'? = (withDefault? f e?).safe := by
  subst he
  cases e? with
  | none => exact hf
  | some e => exact withDefault_safe hf rfl

theorem renamed_safe (hf : f' = f.safe) (hg : g' = g.safe) :
    renamed f' g' = (renamed f g).safe := by
  simp (disch := decide) [renamed, hf, hg]

theorem asName_safe (hf : f' = f.safe) (other? : Option String) :
    asName webSafe f' other? = (asName id f other?).safe := by
  cases other? with
  | none => exact hf
  | some other =>
    simp (disch := decide) only [asName, safe_sequence, List.map_cons, safe_word, hf, List.map_nil]
    rfl

/-! ### Modules -/

theorem stringLiteral_safe (value : String) :
    stringLiteral webSafe value = (stringLiteral id value).safe := rfl

theorem directive_safe (raw : String) :
    Generate.directive webSafe raw = (Generate.directive id raw).safe := rfl

theorem importBindings_safe (hfs : fs' = fs.map safe) (specifier : String) :
    importBindings webSafe fs' specifier = (importBindings id fs specifier).safe := by
  simp (disch := decide) [importBindings, stringLiteral_safe, hfs]

theorem importNamed_safe (hf : f'? = f?.map safe) (hfs : fs' = fs.map safe) (specifier : String) :
    Generate.importNamed webSafe f'? fs' specifier =
      (Generate.importNamed id f? fs specifier).safe := by
  subst hf hfs
  unfold Generate.importNamed
  rw [Option.isNone_map, List.isEmpty_map, safe_ite]
  refine if_congr .rfl ?_ (importBindings_safe ?_ specifier)
  · simp (disch := decide) [stringLiteral_safe]
  · cases f? <;> cases fs <;> simp

theorem importNamespace_safe (hf : f'? = f?.map safe) (hg : g' = g.safe) (specifier : String) :
    Generate.importNamespace webSafe f'? g' specifier =
      (Generate.importNamespace id f? g specifier).safe := by
  subst hf hg
  refine importBindings_safe ?_ specifier
  cases f? <;> simp (disch := decide)

theorem importSpecifier_safe (hf : f' = f.safe) (name? : Option String) :
    Generate.importSpecifier webSafe name? f' = (Generate.importSpecifier id name? f).safe := by
  cases name? with
  | none => exact hf
  | some name =>
    simp (disch := decide) only [Generate.importSpecifier, safe_sequence, List.map_cons, safe_word,
      hf, List.map_nil]
    rfl

theorem exportAll_safe (specifier : String) :
    Generate.exportAll webSafe specifier = (Generate.exportAll id specifier).safe := by
  simp (disch := decide) [Generate.exportAll, stringLiteral_safe]

theorem exportFrom_safe (hfs : fs' = fs.map safe) (specifier : String) :
    Generate.exportFrom webSafe fs' specifier = (Generate.exportFrom id fs specifier).safe := by
  simp (disch := decide) [Generate.exportFrom, stringLiteral_safe, hfs]

theorem exportLocals_safe (hfs : fs' = fs.map safe) :
    Generate.exportLocals fs' = (Generate.exportLocals fs).safe := by
  simp (disch := decide) [Generate.exportLocals, hfs]

theorem exportDeclared_safe (hfs : fs' = fs.map safe) :
    Generate.exportDeclared fs' = (Generate.exportDeclared fs).safe := by
  simp (disch := decide) [Generate.exportDeclared, hfs]

theorem exportDefault_safe (hfs : fs' = fs.map safe) :
    Generate.exportDefault fs' = (Generate.exportDefault fs).safe := by
  simp (disch := decide) [Generate.exportDefault, hfs]

theorem defaultExpression_safe (he : e' = e.safe) :
    defaultExpression e' = (defaultExpression e).map safe := by
  subst he
  simp [defaultExpression, ← safe_single]

/-! ### Functions and classes -/

theorem parameters_safe (hfs : fs' = fs.map safe) (hf : f'? = f?.map safe) :
    Generate.parameters fs' f'? = (Generate.parameters fs f?).safe := by
  subst hfs hf
  cases f? <;> simp [Generate.parameters]

theorem function_safe (isAsync isGenerator : Bool) (hf : f'? = f?.map safe) (hg : g' = g.safe)
    (hh : h' = h.safe) :
    Generate.function isAsync isGenerator f'? g' h' =
      (Generate.function isAsync isGenerator f? g h).safe := by
  subst hf hg hh
  cases f? <;> simp (disch := decide) [Generate.function, safe_keywordIf]

theorem classCode_safe (hf : f'? = f?.map safe) (he : e'? = e?.map Operand.safe)
    (hfs : fs' = fs.map safe) : classCode f'? e'? fs' = (classCode f? e? fs).safe := by
  subst hf he hfs
  cases f? <;> cases e? <;> simp (disch := decide) [classCode]

theorem classElement_safe (isStatic : Bool) (hf : f' = f.safe) :
    Generate.classElement isStatic f' = (Generate.classElement isStatic f).safe := by
  cases isStatic
  · exact hf
  · simp (disch := decide) [Generate.classElement, hf]

theorem method_safe (isAsync isGenerator : Bool) (hf : f' = f.safe) (hg : g' = g.safe)
    (hh : h' = h.safe) :
    Generate.method isAsync isGenerator f' g' h' =
      (Generate.method isAsync isGenerator f g h).safe := by
  simp (disch := decide) [Generate.method, safe_keywordIf, hf, hg, hh]

theorem getter_safe (hf : f' = f.safe) (hg : g' = g.safe) :
    Generate.getter f' g' = (Generate.getter f g).safe := by
  simp (disch := decide) [Generate.getter, hf, hg]

theorem setter_safe (hf : f' = f.safe) (hg : g' = g.safe) (hh : h' = h.safe) :
    Generate.setter f' g' h' = (Generate.setter f g h).safe := by
  simp (disch := decide) [Generate.setter, hf, hg, hh]

theorem expressionBody_safe (he : e' = e.safe) : expressionBody e' = (expressionBody e).safe := by
  subst he
  simp [expressionBody, ← safe_single]

theorem arrow_safe (isAsync isSingleName : Bool) (hf : f' = f.safe) (hg : g' = g.safe) :
    Generate.arrow isAsync isSingleName f' g' = (Generate.arrow isAsync isSingleName f g).safe := by
  subst hf hg
  cases isSingleName <;> simp (disch := decide) [Generate.arrow, safe_keywordIf]

/-! ### Properties -/

theorem computedName_safe (he : e' = e.safe) :
    Generate.computedName e' = (Generate.computedName e).safe := by
  simp [Generate.computedName, he]

theorem staticName_safe (value : String) :
    Generate.staticName webSafe value = (Generate.staticName id value).safe := by
  unfold Generate.staticName
  split
  · rfl
  · split <;> rfl

theorem dataProperty_safe (hf : f' = f.safe) (he : e' = e.safe) :
    Generate.dataProperty f' e' = (Generate.dataProperty f e).safe := by
  simp (disch := decide) [Generate.dataProperty, hf, he]

/-! ### Expressions -/

theorem boolean_safe (value : Bool) : Generate.boolean value = (Generate.boolean value).safe := by
  cases value <;> exact (safe_word (by decide)).symm

theorem regExp_safe {pattern : String} (hsafe : webSafe (pattern ++ "/") = pattern ++ "/")
    (flags : RegExpFlags) :
    Generate.regExp pattern flags = (Generate.regExp pattern flags).safe := by
  have hpattern : isSafe (pattern.toList ++ ['/']) := by simpa using webSafe_eq_self_iff.mp hsafe
  refine (safe_word ?_).symm
  rw [String.toList_ofList]
  exact isSafe_regExp hpattern flags

theorem object_safe (hfs : fs' = fs.map safe) :
    Generate.object fs' = (Generate.object fs).safe := by
  simp [Generate.object, hfs]

theorem newTarget_safe : Generate.newTarget = Generate.newTarget.safe := by
  simp (disch := decide) [Generate.newTarget]

@[simp] theorem safe_memberObject (e : Operand) : (memberObject e).safe = memberObject e.safe :=
  safe_within e _

theorem staticMember_safe (he : e' = e.safe) (property : String) :
    Generate.staticMember webSafe e' property = (Generate.staticMember id e property).safe := by
  subst he
  simp (disch := decide) only [Generate.staticMember, safe_withMarks, safe_sequence, List.map_cons,
    safe_word, List.map_nil, ← safe_memberObject, marks_safe]
  rfl

theorem computedMember_safe (isLet : Bool) (he : e' = e.safe) (hf : f' = f.safe) :
    Generate.computedMember isLet e' f' = (Generate.computedMember isLet e f).safe := by
  subst he hf
  simp [Generate.computedMember, ← safe_memberObject]

@[simp] theorem safe_arguments (fs : List Fragment) :
    (arguments fs).safe = arguments (fs.map safe) := by
  simp [arguments]

theorem call_safe (he : e' = e.safe) (hfs : fs' = fs.map safe) :
    Generate.call e' fs' = (Generate.call e fs).safe := by
  subst he hfs
  simp [Generate.call, ← safe_within]

theorem construct_safe (he : e' = e.safe) (hfs : fs' = fs.map safe) :
    Generate.construct e' fs' = (Generate.construct e fs).safe := by
  subst he hfs
  simp (disch := decide) [Generate.construct, constructCallee]

theorem unary_safe {op : String} (hop : isSafe op.toList) (he : e' = e.safe) :
    Generate.unary op e' = (Generate.unary op e).safe := by
  simp [Generate.unary, hop, he]

theorem update_safe (before : Bool) (op : UpdateOperator) (hf : f' = f.safe) :
    Generate.update before op f' = (Generate.update before op f).safe := by
  have hop : isSafe op.text.toList := by cases op <;> decide
  cases before <;> simp [Generate.update, hop, hf]

theorem binary_safe (isPrefixed : Bool) (op : BinaryOperator) (he : e' = e.safe)
    (hd : d' = d.safe) :
    Generate.binary isPrefixed e' op d' = (Generate.binary isPrefixed e op d).safe := by
  have hop : isSafe op.text.toList := by cases op <;> decide
  have hleft : (leftOperand op isPrefixed e).safe = leftOperand op isPrefixed e.safe := by
    simp only [leftOperand, safe_ite, safe_paren, safe_within]
    rfl
  have hright : (rightOperand op d).safe = rightOperand op d.safe := by
    simp only [rightOperand, safe_ite, safe_paren, safe_within]
    rfl
  subst he hd
  simp [Generate.binary, ← hleft, ← hright, hop]

theorem conditional_safe (he : e' = e.safe) (hd : d' = d.safe) (hc : c' = c.safe) :
    Generate.conditional e' d' c' = (Generate.conditional e d c).safe := by
  subst he hd hc
  simp (disch := decide) [Generate.conditional, ← safe_single, ← safe_within]

theorem assignment_safe {op : String} (hop : isSafe op.toList) (hf : f' = f.safe)
    (he : e' = e.safe) : assignment f' op e' = (assignment f op e).safe := by
  subst hf he
  simp [assignment, ← safe_single, hop]

theorem yieldCode_safe (he : e'? = e?.map Operand.safe) : yieldCode e'? = (yieldCode e?).safe := by
  subst he
  cases e? with
  | none => exact (safe_word (by decide)).symm
  | some e => simp (disch := decide) [yieldCode, ← safe_single]

theorem yieldFrom_safe (he : e' = e.safe) :
    Generate.yieldFrom e' = (Generate.yieldFrom e).safe := by
  subst he
  simp (disch := decide) [Generate.yieldFrom, ← safe_single]

theorem chunkCode_safe (tagged : Bool) {part : Chunk}
    (hraw : ∀ raw, part = .text raw → tagged → webSafe raw = raw) :
    part.safe.code webSafe tagged = (part.code id tagged).map safe := by
  cases part with
  | text raw =>
    cases tagged with
    | false => rfl
    | true =>
      show [Fragment.raw raw] = [Fragment.raw (webSafe raw)]
      rw [hraw raw rfl rfl]
  | hole f => simp (disch := decide) [Chunk.safe, Chunk.code]

/-- A template whose texts are safe as they are, if it has a tag. -/
theorem template_safe {parts parts' : List Chunk} (he : e'? = e?.map Operand.safe)
    (hparts : parts' = parts.map Chunk.safe)
    (hraw : ∀ raw, .text raw ∈ parts → e?.isSome → webSafe raw = raw) :
    Generate.template webSafe e'? parts' = (Generate.template id e? parts).safe := by
  subst he hparts
  have hcode : (parts.map Chunk.safe).flatMap (·.code webSafe e?.isSome) =
      (parts.flatMap (·.code id e?.isSome)).map safe := by
    rw [List.flatMap_map, List.map_flatMap]
    refine List.flatMap_congr fun part hpart => chunkCode_safe _ fun raw heq htagged => ?_
    exact hraw raw (heq ▸ hpart) htagged
  cases e? with
  | none =>
    rw [Option.isSome_none] at hcode
    simp (disch := decide) [Generate.template, hcode]
  | some e =>
    rw [Option.isSome_some] at hcode
    simp (disch := decide) [Generate.template, hcode, ← safe_memberObject]

/-! ### Statements -/

theorem jump_safe {keyword : String} (hword : isSafe keyword.toList) (label? : Option String) :
    jump webSafe keyword label? = (jump id keyword label?).safe := by
  cases label? with
  | none => simp [jump, hword, orEmpty]
  | some label =>
    simp only [jump, safe_sequence, List.map_cons, safe_word hword]
    rfl

theorem keywordStatement_safe {keyword : String} (hword : isSafe keyword.toList)
    (hf : f' = f.safe) : keywordStatement keyword f' = (keywordStatement keyword f).safe := by
  simp [keywordStatement, hword, hf]

theorem expressionStatement_safe (isString : Bool) (hf : f' = f.safe) :
    Generate.expressionStatement isString f' = (Generate.expressionStatement isString f).safe := by
  subst hf
  cases isString <;> simp [Generate.expressionStatement]

theorem endingIn_safe (hf : f' = f.safe) (hfs : fs' = fs.map safe) :
    endingIn f' fs' = (endingIn f fs).safe := by
  simp [endingIn, hf, hfs]

theorem headed_safe {keyword : String} (hword : isSafe keyword.toList) (hf : f' = f.safe)
    (hg : g' = g.safe) : headed keyword f' g' = (headed keyword f g).safe :=
  endingIn_safe hg (by simp [hword, hf])

theorem doWhile_safe (hf : f' = f.safe) (hg : g' = g.safe) :
    Generate.doWhile f' g' = (Generate.doWhile f g).safe := by
  simp (disch := decide) [Generate.doWhile, hf, hg]

@[simp] theorem safe_loopTarget (f : Fragment) : (loopTarget f).safe = loopTarget f.safe := by
  simp [loopTarget]

theorem forIn_safe (isDeclaration : Bool) (hf : f' = f.safe) (hg : g' = g.safe) (hh : h' = h.safe) :
    Generate.forIn isDeclaration f' g' h' = (Generate.forIn isDeclaration f g h).safe := by
  refine headed_safe (by decide) ?_ hh
  cases isDeclaration <;> simp (disch := decide) [hf, hg]

theorem forOf_safe (isDeclaration : Bool) (hf : f' = f.safe) (he : e' = e.safe) (hh : h' = h.safe) :
    Generate.forOf isDeclaration f' e' h' = (Generate.forOf isDeclaration f e h).safe := by
  refine headed_safe (by decide) ?_ hh
  cases isDeclaration <;> simp (disch := decide) [hf, he]

@[simp] theorem safe_loopStart (f : Fragment) : (loopStart f).safe = loopStart f.safe := by
  simp [loopStart]

theorem forLoop_safe {start? start'? : Option Fragment} (hs : start'? = start?.map safe)
    (hf : f'? = f?.map safe) (hg : g'? = g?.map safe) (hh : h' = h.safe) :
    Generate.forLoop start'? f'? g'? h' = (Generate.forLoop start? f? g? h).safe := by
  refine headed_safe (by decide) ?_ hh
  simp [hs, hf, hg, Function.comp_def]

theorem ifStatement_safe (hf : f' = f.safe) (hg : g' = g.safe) (hh : h'? = h?.map safe) :
    Generate.ifStatement f' g' h'? = (Generate.ifStatement f g h?).safe := by
  subst hf hg hh
  cases h? with
  | none => simp (disch := decide) [Generate.ifStatement]
  | some h =>
    refine endingIn_safe rfl ?_
    simp (disch := decide)

theorem labeled_safe (label : String) (hf : f' = f.safe) :
    Generate.labeled webSafe label f' = (Generate.labeled id label f).safe := by
  refine endingIn_safe hf ?_
  simp (disch := decide) only [List.map_cons, safe_word, List.map_nil]
  rfl

theorem switch_safe (hf : f' = f.safe) (hfs : fs' = fs.map safe) :
    switch f' fs' = (switch f fs).safe := by
  simp (disch := decide) [switch, hf, hfs]

theorem switchCase_safe (hf : f' = f.safe) (hfs : fs' = fs.map safe) :
    Generate.switchCase f' fs' = (Generate.switchCase f fs).safe := by
  simp (disch := decide) [Generate.switchCase, hf, hfs]

theorem switchDefault_safe (hfs : fs' = fs.map safe) :
    Generate.switchDefault fs' = (Generate.switchDefault fs).safe := by
  simp (disch := decide) [Generate.switchDefault, hfs]

theorem tryCatch_safe (hf : f' = f.safe) (hg : g' = g.safe) :
    Generate.tryCatch f' g' = (Generate.tryCatch f g).safe := by
  simp (disch := decide) [Generate.tryCatch, hf, hg]

theorem tryFinally_safe (hf : f' = f.safe) (hg : g'? = g?.map safe) (hh : h' = h.safe) :
    Generate.tryFinally f' g'? h' = (Generate.tryFinally f g? h).safe := by
  simp (disch := decide) [Generate.tryFinally, hf, hg, hh]

theorem catchClause_safe (hf : f' = f.safe) (hg : g' = g.safe) :
    Generate.catchClause f' g' = (Generate.catchClause f g).safe := by
  simp (disch := decide) [Generate.catchClause, hf, hg]

theorem declaration_safe (kind : DeclarationKind) (hfs : fs' = fs.map safe) :
    Generate.declaration kind fs' = (Generate.declaration kind fs).safe := by
  have hkind : isSafe kind.text.toList := by cases kind <;> decide
  simp [Generate.declaration, hkind, hfs]

theorem declarator_safe (hf : f' = f.safe) (hg : g'? = g?.map safe) :
    Generate.declarator f' g'? = (Generate.declarator f g?).safe := by
  subst hf hg
  cases g? <;> simp [Generate.declarator, declaredValue]

end

/-! ### The code of a tree -/

/-- The texts of a template are in its code. -/
theorem text_mem_code_iff (spell : String → String) (raw : String) :
    ∀ parts : Tree (.list .templatePart), Chunk.text raw ∈ parts.code spell ↔ raw ∈ parts.texts
  | .nil => ⟨nofun, nofun⟩
  | .cons (.templateText raw') parts => by
    have ih := text_mem_code_iff spell raw parts
    have hcons : Chunk.text raw ∈ Chunk.text raw' :: parts.code spell ↔
        raw ∈ raw' :: parts.texts := by
      rw [List.mem_cons, List.mem_cons, ih, Chunk.text.injEq]
    exact hcons
  | .cons (.ofSubstitution e) parts => by
    have ih := text_mem_code_iff spell raw parts
    have hcons : Chunk.text raw ∈ Chunk.hole (e.code spell).code :: parts.code spell ↔
        raw ∈ parts.texts := by
      simp [ih]
    exact hcons

theorem map_code_safe {es es' : Option Operand} (h : es' = es.map Operand.safe) :
    es'.map (·.code) = (es.map (·.code)).map safe := by
  subst h
  simp [Function.comp_def]

theorem declaredName_safe {n : Tree .bindingName} {f f' : Fragment}
    (hf : n.isDefaultName = false → f' = f.safe) :
    Tree.declaredName n f' = (Tree.declaredName n f).map safe := by
  unfold Tree.declaredName
  split
  · rfl
  · next h => rw [hf (by simpa using h), Option.map_some]

/-- If a tree can be rendered for the web, then its web-safe code is its plain code with safe
texts. -/
theorem Tree.code_webSafe {c : Category} (t : Tree c) :
    (∀ n ∈ t.nodes, ¬IsUnsafe n) → t.code webSafe = Code.safe c (t.code id) := by
  induction t with
  | nil => exact fun _ => rfl
  | absent => exact fun _ => rfl
  | cons t ts iht ihts =>
    exact fun h => congrArg₂ List.cons (iht (parts_of_two h).1) (ihts (parts_of_two h).2)
  | present t ih => exact fun h => congrArg some (ih (part_of_one h))
  -- trees that stand for another
  | ofImport t ih | ofExport t ih | ofStatement t ih | ofBinding t ih | ofMethod t ih
  | ofBindingName t ih | ofSimpleTarget t ih | ofTargetName t ih | ofTarget t ih
  | blockStatement t ih | ofFunction t ih | ofClass t ih | ofLoopTarget t ih
  | ofLoopDeclaration t ih | ofStartDeclaration t ih | ofCallee t ih =>
    exact fun h => ih (part_of_one h)
  | ofStartExpression e ih => exact fun h => congrArg Operand.code (ih (part_of_one h))
  | ofExportedFunction t ih | ofExportedClass t ih | ofDefaultFunction t ih
  | ofDefaultClass t ih => exact fun h => congrArg (List.cons · []) (ih (part_of_one h))
  | ofExportedVariables t ih =>
    exact fun h => congrArg (List.cons · [Fragment.statementEnd]) (ih (part_of_one h))
  | ofDefaultExpression e ih => exact fun h => defaultExpression_safe (ih (part_of_one h))
  | ofIdentifier n ih => exact fun h => congrArg (operand _) (ih (part_of_one h))
  | ofArgument e ih =>
    exact fun h => (congrArg Operand.single (ih (part_of_one h))).trans (safe_single _).symm
  | spread e ih =>
    exact fun h => (congrArg (fun e => rest (Operand.single e)) (ih (part_of_one h))).trans
      ((congrArg rest (safe_single _)).symm.trans (safe_rest _).symm)
  | ofSubstitution e ih =>
    exact fun h => congrArg (fun e => Chunk.hole (Operand.code e)) (ih (part_of_one h))
  | templateText raw => exact fun _ => rfl
  | ofExpressionBody e ih => exact fun h => expressionBody_safe (ih (part_of_one h))
  | ofFunctionBody b ih => exact fun h => congrArg Fragment.brace (ih (part_of_one h))
  | shorthandProperty n ih =>
    exact fun h => (congrArg (withMarks {}) (ih (part_of_one h))).trans (safe_withMarks _ _).symm
  -- programs and modules
  | script ds ss ihds ihss | moduleBody ds ss ihds ihss =>
    exact fun h => prologue_safe (ihds (parts_of_two h).1) (ihss (parts_of_two h).2)
  | directive raw => exact fun _ => directive_safe raw
  | importNamed d ns specifier ihd ihns =>
    exact fun h => importNamed_safe (ihd (parts_of_two h).1) (ihns (parts_of_two h).2) specifier
  | importNamespace d n specifier ihd ihn =>
    exact fun h => importNamespace_safe (ihd (parts_of_two h).1) (ihn (parts_of_two h).2) specifier
  | importSpecifier name? n ih => exact fun h => importSpecifier_safe (ih (part_of_one h)) name?
  | exportAll specifier => exact fun _ => exportAll_safe specifier
  | exportFrom ns specifier ih => exact fun h => exportFrom_safe (ih (part_of_one h)) specifier
  | exportFromSpecifier name exported? =>
    exact fun _ => asName_safe (f := .token name) rfl exported?
  | exportLocals ns ih => exact fun h => exportLocals_safe (ih (part_of_one h))
  | exportLocalSpecifier n exported? ih => exact fun h => asName_safe (ih (part_of_one h)) exported?
  | exportDeclared d ih => exact fun h => exportDeclared_safe (ih (part_of_one h))
  | exportDefault b ih => exact fun h => exportDefault_safe (ih (part_of_one h))
  -- functions and classes
  | function isAsync isGenerator n ps b ihn ihps ihb =>
    exact fun h => function_safe isAsync isGenerator
      (declaredName_safe fun hname => ihn (by simpa [hname] using (parts_of_three h).1))
      (ihps (parts_of_three h).2.1) (ihb (parts_of_three h).2.2)
  | functionExpression isAsync isGenerator n ps b ihn ihps ihb =>
    exact fun h => congrArg (operand _ <| withMarks _ ·) (function_safe isAsync isGenerator
      (ihn (parts_of_three h).1) (ihps (parts_of_three h).2.1) (ihb (parts_of_three h).2.2))
  | parameters is r ihis ihr =>
    exact fun h => parameters_safe (ihis (parts_of_two h).1) (ihr (parts_of_two h).2)
  | functionBody ds ss ihds ihss =>
    exact fun h => congrArg Fragment.indent
      (prologue_safe (ihds (parts_of_two h).1) (ihss (parts_of_two h).2))
  | classDeclaration n p es ihn ihp ihes =>
    exact fun h => classCode_safe
      (declaredName_safe fun hname => ihn (by simpa [hname] using (parts_of_three h).1))
      (ihp (parts_of_three h).2.1) (ihes (parts_of_three h).2.2)
  | classElement isStatic m ih => exact fun h => classElement_safe isStatic (ih (part_of_one h))
  | method isAsync isGenerator n ps b ihn ihps ihb =>
    exact fun h => method_safe isAsync isGenerator (ihn (parts_of_three h).1)
      (ihps (parts_of_three h).2.1) (ihb (parts_of_three h).2.2)
  | getter n b ihn ihb =>
    exact fun h => getter_safe (ihn (parts_of_two h).1) (ihb (parts_of_two h).2)
  | setter n p b ihn ihp ihb =>
    exact fun h => setter_safe (ihn (parts_of_three h).1) (ihp (parts_of_three h).2.1)
      (ihb (parts_of_three h).2.2)
  -- properties, bindings and targets
  | computedName e ih => exact fun h => computedName_safe (ih (part_of_one h))
  | staticName value => exact fun _ => staticName_safe value
  | dataProperty n v ihn ihv =>
    exact fun h => dataProperty_safe (ihn (parts_of_two h).1) (ihv (parts_of_two h).2)
  | bindingName | targetName | identifier => exact fun _ => rfl
  | bindingWithDefault b v ihb ihv | targetWithDefault b v ihb ihv =>
    exact fun h => withDefault_safe (ihb (parts_of_two h).1) (ihv (parts_of_two h).2)
  | bindingShorthand n v ihn ihv | targetShorthand n v ihn ihv =>
    exact fun h => withDefault?_safe (ihn (parts_of_two h).1) (ihv (parts_of_two h).2)
  | bindingProperty n b ihn ihb | targetProperty n b ihn ihb =>
    exact fun h => renamed_safe (ihn (parts_of_two h).1) (ihb (parts_of_two h).2)
  | arrayBinding es r ihes ihr | arrayTarget es r ihes ihr =>
    exact fun h => arrayElements_safe (ihes (parts_of_two h).1) (ihr (parts_of_two h).2)
  | objectBinding ps ih =>
    exact fun h => (congrArg properties (ih (part_of_one h))).trans (safe_properties _).symm
  | objectTarget ps ih => exact fun h => object_safe (ih (part_of_one h))
  | staticMemberTarget o property ih =>
    exact fun h => staticMember_safe (ih (part_of_one h)) property
  | computedMemberTarget o e iho ihe =>
    exact fun h => computedMember_safe o.isLet (iho (parts_of_two h).1)
      (congrArg Operand.code (ihe (parts_of_two h).2))
  -- statements
  | breakStatement label? => exact fun _ => jump_safe (by decide) label?
  | continueStatement label? => exact fun _ => jump_safe (by decide) label?
  | debuggerStatement =>
    exact fun _ => congrArg (Fragment.sequence [·, .statementEnd]) (safe_word (by decide)).symm
  | doWhile b t ihb iht =>
    exact fun h => doWhile_safe (ihb (parts_of_two h).1)
      (congrArg Operand.code (iht (parts_of_two h).2))
  | emptyStatement => exact fun _ => rfl
  | expressionStatement e ih =>
    exact fun h => expressionStatement_safe e.isString (congrArg Operand.code (ih (part_of_one h)))
  | forIn l o b ihl iho ihb =>
    exact fun h => forIn_safe l.isDeclaration (ihl (parts_of_three h).1)
      (congrArg Operand.code (iho (parts_of_three h).2.1)) (ihb (parts_of_three h).2.2)
  | forOf l is b ihl ihis ihb =>
    exact fun h => forOf_safe l.isDeclaration (ihl (parts_of_three h).1)
      (ihis (parts_of_three h).2.1) (ihb (parts_of_three h).2.2)
  | forLoop s t u b ihs iht ihu ihb =>
    exact fun h => forLoop_safe (ihs (parts_of_four h).1)
      (map_code_safe (iht (parts_of_four h).2.1)) (map_code_safe (ihu (parts_of_four h).2.2.1))
      (ihb (parts_of_four h).2.2.2)
  | ifStatement t s a iht ihs iha =>
    exact fun h => ifStatement_safe (congrArg Operand.code (iht (parts_of_three h).1))
      (ihs (parts_of_three h).2.1) (iha (parts_of_three h).2.2)
  | labeled label b ih => exact fun h => labeled_safe label (ih (part_of_one h))
  | returnStatement e ih =>
    exact fun h => keywordStatement_safe (by decide)
      ((congrArg orEmpty (map_code_safe (ih (part_of_one h)))).trans (safe_orEmpty _).symm)
  | switchStatement d cs ihd ihcs =>
    exact fun h => switch_safe (congrArg Operand.code (ihd (parts_of_two h).1))
      (ihcs (parts_of_two h).2)
  | switchWithDefault d before default after ihd ihbefore ihdefault ihafter =>
    intro h
    refine switch_safe (congrArg Operand.code (ihd (parts_of_four h).1)) ?_
    rw [List.map_append, List.map_cons]
    exact congrArg₂ HAppend.hAppend (ihbefore (parts_of_four h).2.1)
      (congrArg₂ List.cons (ihdefault (parts_of_four h).2.2.1) (ihafter (parts_of_four h).2.2.2))
  | throwStatement e ih =>
    exact fun h => keywordStatement_safe (by decide) (congrArg Operand.code (ih (part_of_one h)))
  | tryCatch b cl ihb ihcl =>
    exact fun h => tryCatch_safe (ihb (parts_of_two h).1) (ihcl (parts_of_two h).2)
  | tryFinally b cl f ihb ihcl ihf =>
    exact fun h => tryFinally_safe (ihb (parts_of_three h).1) (ihcl (parts_of_three h).2.1)
      (ihf (parts_of_three h).2.2)
  | variableStatement d ih =>
    exact fun h => congrArg (Fragment.sequence [·, .statementEnd]) (ih (part_of_one h))
  | whileLoop t b iht ihb | withStatement t b iht ihb =>
    exact fun h => headed_safe (by decide) (congrArg Operand.code (iht (parts_of_two h).1))
      (ihb (parts_of_two h).2)
  | block ss ih =>
    exact fun h => (congrArg Generate.block (ih (part_of_one h))).trans (safe_block _).symm
  | switchCase t ss iht ihss =>
    exact fun h => switchCase_safe (congrArg Operand.code (iht (parts_of_two h).1))
      (ihss (parts_of_two h).2)
  | switchDefault ss ih => exact fun h => switchDefault_safe (ih (part_of_one h))
  | catchClause b s ihb ihs =>
    exact fun h => catchClause_safe (ihb (parts_of_two h).1) (ihs (parts_of_two h).2)
  | declaration kind ds ih => exact fun h => declaration_safe kind (ih (part_of_one h))
  | declarator b v ihb ihv =>
    exact fun h => declarator_safe (ihb (parts_of_two h).1)
      (map_code_safe (ihv (parts_of_two h).2))
  -- expressions
  | boolean value => exact fun _ => congrArg (operand _) (boolean_safe value)
  | infinity | number => exact fun _ => rfl
  | null => exact fun _ => congrArg (operand _) (safe_word (by decide)).symm
  | this => exact fun _ => congrArg (operand _) (safe_word (by decide)).symm
  | super => exact fun _ => congrArg (Operand.mk · _) (safe_word (by decide)).symm
  | regExp pattern flags =>
    intro h
    refine congrArg (operand _) (regExp_safe ?_ flags)
    by_contra hunsafe
    exact h _ List.mem_cons_self (.regExp hunsafe)
  | string value => exact fun _ => congrArg (operand _) (stringLiteral_safe value)
  | array es ih =>
    have hnone : (none : Option Fragment) = Option.map safe none := rfl
    exact fun h => congrArg (operand _) (arrayElements_safe (ih (part_of_one h)) hnone)
  | object ps ih => exact fun h => congrArg (operand _) (object_safe (ih (part_of_one h)))
  | classExpression n p es ihn ihp ihes =>
    exact fun h => congrArg (operand _ <| withMarks _ ·) (classCode_safe
      (ihn (parts_of_three h).1) (ihp (parts_of_three h).2.1) (ihes (parts_of_three h).2.2))
  | template t ps iht ihps =>
    intro h
    refine congrArg (operand _) (template_safe (iht (parts_of_two h).1) (ihps (parts_of_two h).2)
      fun raw hraw htag => ?_)
    by_contra hunsafe
    cases t with
    | absent => cases htag
    | present tag =>
      exact h _ List.mem_cons_self (.template ((text_mem_code_iff id raw ps).mp hraw) hunsafe)
  | newTarget => exact fun _ => congrArg (operand _) newTarget_safe
  | staticMember o property ih =>
    exact fun h => congrArg (operand _) (staticMember_safe (ih (part_of_one h)) property)
  | computedMember o e iho ihe =>
    exact fun h => congrArg (operand _) (computedMember_safe o.isLet (iho (parts_of_two h).1)
      (congrArg Operand.code (ihe (parts_of_two h).2)))
  | call f as ihf ihas =>
    exact fun h => congrArg (operand _)
      (call_safe (ihf (parts_of_two h).1) (ihas (parts_of_two h).2))
  | construct f as ihf ihas =>
    exact fun h => congrArg (operand _)
      (construct_safe (ihf (parts_of_two h).1) (ihas (parts_of_two h).2))
  | unary op e ih =>
    have hop : isSafe op.text.toList := by cases op <;> decide
    exact fun h => congrArg (operand _) (unary_safe hop (ih (part_of_one h)))
  | update before op t ih =>
    exact fun h => congrArg (operand _) (update_safe before op (ih (part_of_one h)))
  | binary l op r ihl ihr =>
    exact fun h => congrArg (operand _)
      (binary_safe l.isPrefixed op (ihl (parts_of_two h).1) (ihr (parts_of_two h).2))
  | conditional t s a iht ihs iha =>
    exact fun h => congrArg (operand _) (conditional_safe (iht (parts_of_three h).1)
      (ihs (parts_of_three h).2.1) (iha (parts_of_three h).2.2))
  | assign t v iht ihv =>
    exact fun h => congrArg (operand _)
      (assignment_safe (by decide) (iht (parts_of_two h).1) (ihv (parts_of_two h).2))
  | compoundAssign t op v iht ihv =>
    have hop : isSafe op.text.toList := by cases op <;> decide
    exact fun h => congrArg (operand _)
      (assignment_safe hop (iht (parts_of_two h).1) (ihv (parts_of_two h).2))
  | arrow isAsync ps b ihps ihb =>
    exact fun h => congrArg (operand _) (arrow_safe isAsync ps.isSingleName
      (ihps (parts_of_two h).1) (ihb (parts_of_two h).2))
  | await e ih => exact fun h => congrArg (operand _) (unary_safe (by decide) (ih (part_of_one h)))
  | yield e ih => exact fun h => congrArg (operand _) (yieldCode_safe (ih (part_of_one h)))
  | yieldFrom e ih => exact fun h => congrArg (operand _) (yieldFrom_safe (ih (part_of_one h)))

end EcmaPrinter
