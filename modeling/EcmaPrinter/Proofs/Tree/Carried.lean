import EcmaPrinter.Generate.Code
import EcmaPrinter.Proofs.Pieces
import Mathlib.Data.List.Basic

/-!
Code keeps the pieces of its parts, in order.

Making code from parts puts tokens around the parts and between them, but drops no piece of a part
and keeps the parts in order.  What is put in is neither a template text nor a number.  One relation
between lists of pieces says both (`Padded`), and each function that makes code respects it: if the
parts carry some pieces, the code carries them one after the other.
-/

namespace EcmaPrinter

open EcmaPrinter.Generate

/-! ### Padded pieces -/

/-- A template text or a number. -/
def Piece.isValue : Piece → Bool
  | .raw _ | .number _ => true
  | _ => false

/-- The second list is the first one with pieces put in that are no values. -/
structure Padded (ls ps : List Piece) : Prop where
  sublist : ls.Sublist ps
  values : ls.filter (·.isValue) = ps.filter (·.isValue)

namespace Padded

variable {ls ls' ps ps' : List Piece} {f g : Fragment} {fs : List Fragment}

theorem refl (ps : List Piece) : Padded ps ps := ⟨.refl ps, rfl⟩

theorem trans (h : Padded ls ps) (h' : Padded ps ps') : Padded ls ps' :=
  ⟨h.sublist.trans h'.sublist, h.values.trans h'.values⟩

theorem append (h : Padded ls ps) (h' : Padded ls' ps') : Padded (ls ++ ls') (ps ++ ps') :=
  ⟨h.sublist.append h'.sublist, by simp only [List.filter_append, h.values, h'.values]⟩

theorem skip {p : Piece} (hp : p.isValue = false) (h : Padded ls ps) : Padded ls (p :: ps) :=
  ⟨h.sublist.cons p, by rw [List.filter_cons_of_neg (by simp [hp]), h.values]⟩

theorem skip_last {p : Piece} (hp : p.isValue = false) (h : Padded ls ps) :
    Padded ls (ps ++ [p]) := by
  simpa using h.append (skip hp (refl []))

theorem enclose (opening closing : String) (h : Padded ls ps) :
    Padded ls (enclose opening closing ps) :=
  skip rfl (h.skip_last rfl)

theorem eq_nil (h : Padded ls []) : ls = [] := List.sublist_nil.mp h.sublist

theorem flatMap {α : Type} {g g' : α → List Piece} (h : ∀ a, Padded (g a) (g' a)) (as : List α) :
    Padded (as.flatMap g) (as.flatMap g') := by
  induction as with
  | nil => exact refl []
  | cons a as ih => exact (h a).append ih

end Padded

/-- Whether an `in` may stand bare only makes a difference for parentheses. -/
theorem Wrap.padded_pieces {inner : Bool → List Piece}
    (hinner : ∀ noIn, Padded (inner false) (inner noIn)) (w : Wrap) (noIn : Bool) :
    Padded (w.pieces inner false) (w.pieces inner noIn) := by
  cases w with
  | paren | bracket | brace | noIn => exact .refl _
  | containsIn =>
    cases noIn with
    | false => exact .refl _
    | true => exact (Padded.refl _).enclose "(" ")"
  | stringStatement => exact (hinner noIn).append (.refl _)
  | line | indent => exact hinner noIn

mutual

theorem Fragment.padded_pieces : ∀ (f : Fragment) (noIn : Bool),
    Padded (f.pieces false) (f.pieces noIn)
  | .atom _ _, _ => by
    rw [Fragment.pieces, Fragment.pieces]
    exact .refl _
  | .wrap _ w f, noIn => by
    rw [Fragment.pieces, Fragment.pieces]
    exact w.padded_pieces (fun noIn => Fragment.padded_pieces f noIn) noIn
  | .series _ j fs, noIn => by
    rw [Fragment.pieces, Fragment.pieces]
    exact Fragment.padded_seriesPieces j fs noIn
  | .declared _ _, _ => by
    rw [Fragment.pieces, Fragment.pieces]
    exact .refl _
  | .initialized _ _ r, noIn => by
    rw [Fragment.pieces, Fragment.pieces]
    exact (Padded.refl _).append ((Padded.refl [_]).append (Fragment.padded_pieces r noIn))

theorem Fragment.padded_seriesPieces (j : Joint) : ∀ (fs : List Fragment) (noIn : Bool),
    Padded (Fragment.seriesPieces j fs false) (Fragment.seriesPieces j fs noIn)
  | [], _ => by
    rw [Fragment.seriesPieces, Fragment.seriesPieces]
    exact .refl _
  | f :: fs, noIn => by
    rw [Fragment.seriesPieces, Fragment.seriesPieces]
    exact (Fragment.padded_pieces f noIn).append (Fragment.padded_restPieces j fs noIn)

theorem Fragment.padded_restPieces (j : Joint) : ∀ (fs : List Fragment) (noIn : Bool),
    Padded (Fragment.restPieces j fs false) (Fragment.restPieces j fs noIn)
  | [], _ => by
    rw [Fragment.restPieces, Fragment.restPieces]
    exact .refl _
  | f :: fs, noIn => by
    rw [Fragment.restPieces, Fragment.restPieces]
    exact (Padded.refl _).append
      ((Fragment.padded_pieces f noIn).append (Fragment.padded_restPieces j fs noIn))

end

/-! ### Fragments that carry pieces -/

/-- The fragment carries the pieces. -/
def Fragment.Carries (f : Fragment) (ls : List Piece) : Prop :=
  Padded ls (f.pieces false)

/-- The fragments together carry the pieces. -/
def CarriesAll (fs : List Fragment) (ls : List Piece) : Prop :=
  Padded ls (fs.flatMap (·.pieces false))

section

variable {l l' l'' k : List Piece} {f g h : Fragment} {fs gs : List Fragment}
  {f? g? h? : Option Fragment} {d e c : Operand} {e? : Option Operand}

namespace Fragment.Carries

theorem withMarks (m : Marks) (hf : f.Carries l) : (f.withMarks m).Carries l := by
  unfold Fragment.Carries
  rwa [Fragment.pieces_withMarks]

theorem token (text : String) : (Fragment.token text).Carries [] := .skip rfl (.refl _)

theorem operator (text : String) : (Fragment.operator text).Carries [] := .skip rfl (.refl _)

theorem empty : Fragment.empty.Carries [] := .refl _

theorem semicolon : Fragment.semicolon.Carries [] := .skip rfl (.refl _)

theorem statementEnd : Fragment.statementEnd.Carries [] := .skip rfl (.refl _)

theorem paren (hf : f.Carries l) : (Fragment.paren f).Carries l := hf.enclose "(" ")"

theorem bracket (hf : f.Carries l) : (Fragment.bracket f).Carries l := hf.enclose "[" "]"

theorem brace (hf : f.Carries l) : (Fragment.brace f).Carries l := hf.enclose "\x7b" "\x7d"

theorem line (hf : f.Carries l) : (Fragment.line f).Carries l := hf

theorem indent (hf : f.Carries l) : (Fragment.indent f).Carries l := hf

theorem noIn (hf : f.Carries l) : (Fragment.noIn f).Carries l :=
  hf.trans (f.padded_pieces true)

theorem guardIn (hf : f.Carries l) : (Fragment.guardIn f).Carries l := by
  unfold Fragment.guardIn
  split <;> exact hf

theorem stringStatement (hf : f.Carries l) : (Fragment.stringStatement f).Carries l :=
  hf.skip_last rfl

theorem paren_if (b : Prop) [Decidable b] (hf : f.Carries l) :
    (if b then Fragment.paren f else f).Carries l := by
  split
  · exact hf.paren
  · exact hf

theorem sequence (hfs : CarriesAll fs l) : (Fragment.sequence fs).Carries l := by
  unfold Fragment.Carries
  rwa [Fragment.pieces_sequence]

theorem separated (hfs : CarriesAll fs l) : (Fragment.separated fs).Carries l := by
  cases fs with
  | nil => exact hfs
  | cons f fs =>
    refine Padded.trans hfs ?_
    rw [Fragment.pieces_separated_cons, List.flatMap_cons]
    exact (Padded.refl _).append (.flatMap (fun _ => .skip rfl (.refl _)) fs)

theorem declared (hf : f.Carries l) : (Fragment.declarator f none).Carries l := hf

theorem initialized (hf : f.Carries l) (hg : g.Carries l') :
    (Fragment.declarator f (some g)).Carries (l ++ l') :=
  hf.append (.skip rfl hg)

end Fragment.Carries

namespace CarriesAll

theorem nil : CarriesAll [] [] := .refl []

theorem cons (hf : f.Carries l) (hfs : CarriesAll fs l') : CarriesAll (f :: fs) (l ++ l') :=
  hf.append hfs

/-- A fragment that is no part. -/
theorem skip (hf : f.Carries []) (hfs : CarriesAll fs l) : CarriesAll (f :: fs) l :=
  hf.append hfs

theorem append (hfs : CarriesAll fs l) (hgs : CarriesAll gs l') :
    CarriesAll (fs ++ gs) (l ++ l') := by
  unfold CarriesAll
  rw [List.flatMap_append]
  exact Padded.append hfs hgs

/-- The last part. -/
theorem last (hf : f.Carries l) (hfs : CarriesAll fs []) : CarriesAll (f :: fs) l := by
  simpa using cons hf hfs

theorem singleton (hf : f.Carries l) : CarriesAll [f] l := last hf nil

end CarriesAll

/-- The optional fragment carries the pieces. -/
def CarriesOption (f? : Option Fragment) (l : List Piece) : Prop :=
  Padded l (f?.elim [] (·.pieces false))

theorem CarriesOption.toList (hf : CarriesOption f? l) : CarriesAll f?.toList l := by
  cases f? with
  | none => exact hf
  | some f => exact .singleton hf

/-- The optional operand carries the pieces. -/
def CarriesOperand (e? : Option Operand) (l : List Piece) : Prop :=
  Padded l (e?.elim [] (·.code.pieces false))

theorem CarriesOperand.code (he : CarriesOperand e? l) : CarriesOption (e?.map (·.code)) l := by
  cases e? <;> exact he

/-! ### Operands, lists and defaults -/

theorem within_carries (p : Precedence) (he : e.code.Carries l) : (e.within p).Carries l :=
  he.paren_if _

theorem single_carries (he : e.code.Carries l) : e.single.Carries l := within_carries _ he

theorem keywordIf_carries (b : Bool) (keyword : String) : (keywordIf b keyword).Carries [] := by
  cases b with
  | false => exact .empty
  | true => exact .token keyword

theorem orEmpty_carries (hf : CarriesOption f? l) : (orEmpty f?).Carries l := by
  cases f? <;> exact hf

theorem lines_carries (hfs : CarriesAll fs l) : (lines fs).Carries l := by
  refine .sequence ?_
  unfold CarriesAll
  rwa [List.flatMap_map]

theorem block_carries (hfs : CarriesAll fs l) : (Generate.block fs).Carries l :=
  (lines_carries hfs).indent.brace

theorem properties_carries (hfs : CarriesAll fs l) : (properties fs).Carries l :=
  (Fragment.Carries.separated hfs).brace

theorem rest_carries (hf : f.Carries l) : (rest f).Carries l :=
  .sequence (.skip (.token "...") (.singleton hf))

theorem arrayElements_carries {fs? : List (Option Fragment)}
    (hfs : Padded l (fs?.flatMap (·.elim [] (·.pieces false)))) (hg : CarriesOption g? l') :
    (arrayElements fs? g?).Carries (l ++ l') := by
  have hitems : CarriesAll (fs?.map orEmpty) l := by
    unfold CarriesAll
    rw [List.flatMap_map]
    refine hfs.trans (.flatMap (fun f? => ?_) fs?)
    exact orEmpty_carries (.refl _)
  refine .bracket (.separated (hitems.append ?_))
  cases g? with
  | none =>
    show CarriesAll (if endsInHole fs? then [.empty] else []) l'
    split <;> exact hg
  | some g => exact .singleton (rest_carries hg)

theorem padded_directiveSafe (f : Fragment) :
    Padded (f.pieces false) ((directiveSafe f).pieces false) := by
  unfold directiveSafe
  split
  · rw [Fragment.pieces_sequence]
    exact ((Padded.refl _).enclose "(" ")").append (.refl _)
  · exact .refl _

theorem prologue_carries (hfs : CarriesAll fs l) (hgs : CarriesAll gs l') :
    (prologue fs gs).Carries (l ++ l') := by
  have hall := hfs.append hgs
  cases gs with
  | nil => simpa [prologue] using lines_carries hall
  | cons g gs =>
    refine lines_carries (Padded.trans hall ?_)
    simp only [List.flatMap_append, List.flatMap_cons]
    exact (Padded.refl _).append ((padded_directiveSafe g).append (.refl _))

theorem withDefault_carries (hf : f.Carries l) (he : e.code.Carries l') :
    (withDefault f e).Carries (l ++ l') :=
  hf.initialized (single_carries he)

theorem withDefault?_carries (hf : f.Carries l) (he : CarriesOperand e? l') :
    (withDefault? f e?).Carries (l ++ l') := by
  cases e? with
  | none =>
    rw [Padded.eq_nil he, List.append_nil]
    exact hf
  | some e => exact withDefault_carries hf he

theorem renamed_carries (hf : f.Carries l) (hg : g.Carries l') :
    (renamed f g).Carries (l ++ l') :=
  .sequence (.cons hf (.skip (.token ":") (.singleton hg)))

theorem asName_carries (spell : String → String) (hf : f.Carries l) (other? : Option String) :
    (asName spell f other?).Carries l := by
  cases other? with
  | none => exact hf
  | some other => exact .sequence (.last hf (.skip (.token "as") (.skip (.token _) .nil)))

/-! ### Modules -/

theorem importBindings_carries (spell : String → String) (hfs : CarriesAll fs l)
    (specifier : String) : (importBindings spell fs specifier).Carries l :=
  .sequence (.skip (.token "import")
    (.last (.separated hfs) (.skip (.token "from") (.skip (.token _) (.skip .statementEnd .nil)))))

theorem importNamed_carries (spell : String → String) (hf : CarriesOption f? l)
    (hfs : CarriesAll fs l') (specifier : String) :
    (Generate.importNamed spell f? fs specifier).Carries (l ++ l') := by
  unfold Generate.importNamed
  split
  · next hnone =>
    simp only [Bool.and_eq_true, Option.isNone_iff_eq_none, List.isEmpty_iff] at hnone
    obtain ⟨rfl, rfl⟩ := hnone
    exact Padded.trans (Padded.append hf hfs)
      (.skip rfl (.skip rfl (.skip rfl (.refl _))))
  · refine importBindings_carries spell (hf.toList.append ?_) specifier
    cases fs with
    | nil => exact hfs
    | cons f fs => exact .singleton (properties_carries hfs)

theorem importNamespace_carries (spell : String → String) (hf : CarriesOption f? l)
    (hg : g.Carries l') (specifier : String) :
    (Generate.importNamespace spell f? g specifier).Carries (l ++ l') := by
  refine importBindings_carries spell (hf.toList.append (.singleton (.sequence ?_))) specifier
  exact .skip (.token "*") (.skip (.token "as") (.singleton hg))

theorem importSpecifier_carries (spell : String → String) (name? : Option String)
    (hf : f.Carries l) : (Generate.importSpecifier spell name? f).Carries l := by
  cases name? with
  | none => exact hf
  | some name => exact .sequence (.skip (.token _) (.skip (.token "as") (.singleton hf)))

theorem exportFrom_carries (spell : String → String) (hfs : CarriesAll fs l) (specifier : String) :
    (Generate.exportFrom spell fs specifier).Carries l :=
  .sequence (.skip (.token "export") (.last (properties_carries hfs)
    (.skip (.token "from") (.skip (.token _) (.skip .statementEnd .nil)))))

theorem exportLocals_carries (hfs : CarriesAll fs l) : (Generate.exportLocals fs).Carries l :=
  .sequence (.skip (.token "export")
    (.last (properties_carries hfs) (.skip .statementEnd .nil)))

theorem exportDeclared_carries (hfs : CarriesAll fs l) : (Generate.exportDeclared fs).Carries l :=
  .sequence (.skip (.token "export") hfs)

theorem exportDefault_carries (hfs : CarriesAll fs l) : (Generate.exportDefault fs).Carries l :=
  .sequence (.skip (.token "export") (.skip (.token "default") hfs))

theorem defaultExpression_carries (he : e.code.Carries l) : CarriesAll (defaultExpression e) l :=
  .last ((single_carries he).paren_if _) (.skip .statementEnd .nil)

/-! ### Functions and classes -/

theorem parameters_carries (hfs : CarriesAll fs l) (hg : CarriesOption g? l') :
    (Generate.parameters fs g?).Carries (l ++ l') := by
  refine .separated (hfs.append ?_)
  cases g? with
  | none => exact hg
  | some g => exact .singleton (rest_carries hg)

theorem function_carries (isAsync isGenerator : Bool) (hf : CarriesOption f? l) (hg : g.Carries l')
    (hh : h.Carries l'') :
    (Generate.function isAsync isGenerator f? g h).Carries (l ++ (l' ++ l'')) := by
  have hstart : CarriesAll [keywordIf isAsync "async", .token "function", keywordIf isGenerator "*"]
      [] :=
    .skip (keywordIf_carries _ _) (.skip (.token "function") (.skip (keywordIf_carries _ _) .nil))
  refine .sequence ?_
  rw [List.append_assoc]
  exact hstart.append (hf.toList.append (.cons hg.paren (.singleton hh.brace)))

theorem classCode_carries (hf : CarriesOption f? l) (he : CarriesOperand e? l')
    (hfs : CarriesAll fs l'') : (classCode f? e? fs).Carries (l ++ (l' ++ l'')) := by
  refine .sequence ?_
  simp only [List.append_assoc]
  refine CarriesAll.skip (.token "class") (hf.toList.append (.append ?_ ?_))
  · cases e? with
    | none => exact he
    | some e => exact .skip (.token "extends") (.singleton (within_carries _ he))
  · exact .singleton (block_carries hfs)

theorem classElement_carries (isStatic : Bool) (hf : f.Carries l) :
    (Generate.classElement isStatic f).Carries l := by
  cases isStatic with
  | false => exact hf
  | true => exact .sequence (.skip (.token "static") (.singleton hf))

theorem method_carries (isAsync isGenerator : Bool) (hf : f.Carries l) (hg : g.Carries l')
    (hh : h.Carries l'') :
    (Generate.method isAsync isGenerator f g h).Carries (l ++ (l' ++ l'')) :=
  .sequence (.skip (keywordIf_carries _ _) (.skip (keywordIf_carries _ _)
    (.cons hf (.cons hg.paren (.singleton hh.brace)))))

theorem getter_carries (hf : f.Carries l) (hg : g.Carries l') :
    (Generate.getter f g).Carries (l ++ l') :=
  .sequence (.skip (.token "get") (.cons hf (.skip Fragment.Carries.empty.paren
    (.singleton hg.brace))))

theorem setter_carries (hf : f.Carries l) (hg : g.Carries l') (hh : h.Carries l'') :
    (Generate.setter f g h).Carries (l ++ (l' ++ l'')) :=
  .sequence (.skip (.token "set") (.cons hf (.cons hg.paren (.singleton hh.brace))))

theorem expressionBody_carries (he : e.code.Carries l) : (expressionBody e).Carries l :=
  (single_carries he).paren_if _

theorem arrow_carries (isAsync isSingleName : Bool) (hf : f.Carries l) (hg : g.Carries l') :
    (Generate.arrow isAsync isSingleName f g).Carries (l ++ l') := by
  have hhead : (if isSingleName then f else .paren f).Carries l := by
    cases isSingleName with
    | true => exact hf
    | false => exact hf.paren
  exact .withMarks _ (.sequence (.skip (keywordIf_carries _ _)
    (.cons hhead (.skip (.operator "=>") (.singleton hg)))))

/-! ### Expressions -/

theorem dataProperty_carries (hf : f.Carries l) (he : e.code.Carries l') :
    (Generate.dataProperty f e).Carries (l ++ l') :=
  .sequence (.cons hf (.skip (.token ":") (.singleton (single_carries he))))

theorem object_carries (hfs : CarriesAll fs l) : (Generate.object fs).Carries l :=
  (properties_carries hfs).withMarks _

theorem staticMember_carries (spell : String → String) (he : e.code.Carries l) (property : String) :
    (Generate.staticMember spell e property).Carries l :=
  .withMarks _
    (.sequence (.last (within_carries _ he) (.skip (.token ".") (.skip (.token _) .nil))))

theorem computedMember_carries (isLet : Bool) (he : e.code.Carries l) (hf : f.Carries l') :
    (Generate.computedMember isLet e f).Carries (l ++ l') :=
  .withMarks _ (.sequence (.cons (within_carries _ he) (.singleton hf.bracket)))

theorem arguments_carries (hfs : CarriesAll fs l) : (arguments fs).Carries l :=
  (Fragment.Carries.separated hfs).paren

theorem call_carries (he : e.code.Carries l) (hfs : CarriesAll fs l') :
    (Generate.call e fs).Carries (l ++ l') :=
  .withMarks _ (.sequence (.cons (within_carries _ he) (.singleton (arguments_carries hfs))))

theorem constructCallee_carries (he : e.code.Carries l) (bare : Bool) :
    (constructCallee e bare).Carries l := by
  unfold constructCallee
  split
  · exact he.paren
  · exact within_carries _ he

theorem construct_carries (he : e.code.Carries l) (hfs : CarriesAll fs l') :
    (Generate.construct e fs).Carries (l ++ l') := by
  have harguments : (if fs.isEmpty then .empty else arguments fs).Carries l' := by
    cases fs with
    | nil => exact hfs
    | cons f fs => exact arguments_carries hfs
  exact .sequence (.skip (.token "new")
    (.cons (constructCallee_carries he _) (.singleton harguments)))

/-- The pieces of a part of a template. -/
def Chunk.pieces : Chunk → List Piece
  | .text raw => [.raw raw]
  | .hole f => f.pieces false

theorem Chunk.code_carries (tagged : Bool) (part : Chunk) :
    CarriesAll (part.code id tagged) (Chunk.pieces part) := by
  cases part with
  | text raw =>
    cases tagged <;> exact .singleton (Padded.refl _)
  | hole f => exact .skip (.token _) (.last (Padded.refl _) (.skip (.token _) .nil))

theorem template_carries {parts : List Chunk} (he : CarriesOperand e? l)
    (hparts : Padded l' (parts.flatMap Chunk.pieces)) :
    (Generate.template id e? parts).Carries (l ++ l') := by
  have hchunks : CarriesAll (parts.flatMap (·.code id e?.isSome)) l' := by
    unfold CarriesAll
    rw [List.flatMap_assoc]
    exact hparts.trans (.flatMap (Chunk.code_carries e?.isSome) parts)
  have hbody : CarriesAll
      (.token "\x60" :: (parts.flatMap (·.code id e?.isSome) ++ [.token "\x60"])) l' := by
    simpa using CarriesAll.skip (.token _) (hchunks.append (.skip (.token _) .nil))
  cases e? with
  | none =>
    rw [Padded.eq_nil he]
    exact .sequence hbody
  | some e => exact .withMarks _ (.sequence (.cons (within_carries _ he) hbody))

theorem unary_carries (op : String) (he : e.code.Carries l) : (Generate.unary op e).Carries l :=
  .sequence (.skip (.token op) (.singleton (within_carries _ he)))

theorem update_carries (before : Bool) (op : UpdateOperator) (hf : f.Carries l) :
    (Generate.update before op f).Carries l := by
  cases before with
  | true => exact .sequence (.skip (.token _) (.singleton hf))
  | false => exact .withMarks _ (.sequence (.last hf (.skip (.token _) .nil)))

theorem leftOperand_carries (op : BinaryOperator) (b : Bool) (he : e.code.Carries l) :
    (leftOperand op b e).Carries l := by
  unfold leftOperand
  split
  · exact he.paren_if _
  · exact within_carries _ he

theorem rightOperand_carries (op : BinaryOperator) (he : e.code.Carries l) :
    (rightOperand op e).Carries l := by
  unfold rightOperand
  split
  · exact within_carries _ he
  · exact he.paren_if _

theorem binary_carries (op : BinaryOperator) (b : Bool) (hd : d.code.Carries l)
    (he : e.code.Carries l') : (Generate.binary b d op e).Carries (l ++ l') := by
  have hl := leftOperand_carries op b hd
  have hr := rightOperand_carries op he
  refine .withMarks _ ?_
  split
  · exact .separated (.cons hl (.singleton hr))
  · exact .sequence (.cons hl (.skip (.operator _) (.singleton hr)))

theorem conditional_carries (hd : d.code.Carries l) (he : e.code.Carries l')
    (hc : c.code.Carries l'') : (Generate.conditional d e c).Carries (l ++ (l' ++ l'')) :=
  .withMarks _ (.sequence (.cons (within_carries _ hd) (.skip (.operator "?")
    (.cons (single_carries he) (.skip (.operator ":") (.singleton (single_carries hc)))))))

theorem assignment_carries (op : String) (hf : f.Carries l) (he : e.code.Carries l') :
    (assignment f op e).Carries (l ++ l') :=
  .withMarks _ (.sequence (.cons hf (.skip (.operator op) (.singleton (single_carries he)))))

theorem yieldCode_carries (he : CarriesOperand e? l) : (yieldCode e?).Carries l := by
  cases e? with
  | none => exact Padded.skip rfl he
  | some e =>
    exact .withMarks _ (.sequence (.skip (.token "yield") (.singleton (single_carries he))))

theorem yieldFrom_carries (he : e.code.Carries l) : (Generate.yieldFrom e).Carries l :=
  .withMarks _ (.sequence (.skip (.token "yield") (.skip (.token "*")
    (.singleton (single_carries he)))))

/-! ### Statements -/

theorem jump_carries (spell : String → String) (keyword : String) (label? : Option String) :
    (jump spell keyword label?).Carries [] := by
  refine .sequence (.skip (.token keyword) (.skip ?_ (.skip .statementEnd .nil)))
  cases label? with
  | none => exact .empty
  | some label => exact .token _

theorem keywordStatement_carries (keyword : String) (hf : f.Carries l) :
    (keywordStatement keyword f).Carries l :=
  .sequence (.skip (.token keyword) (.last hf (.skip .statementEnd .nil)))

theorem expressionStatement_carries (b : Bool) (hf : f.Carries l) :
    (Generate.expressionStatement b f).Carries l := by
  unfold Generate.expressionStatement
  split
  · exact hf.stringStatement
  · exact .sequence (.last (hf.paren_if _) (.skip .statementEnd .nil))

theorem endingIn_carries (hfs : CarriesAll fs l) (hf : f.Carries l') :
    (endingIn f fs).Carries (l ++ l') :=
  .withMarks _ (.sequence (hfs.append (.singleton hf)))

theorem headed_carries (keyword : String) (hf : f.Carries l) (hg : g.Carries l') :
    (headed keyword f g).Carries (l ++ l') :=
  endingIn_carries (.skip (.token keyword) (.singleton hf.paren)) hg

theorem doWhile_carries (hf : f.Carries l) (hg : g.Carries l') :
    (Generate.doWhile f g).Carries (l ++ l') :=
  .sequence (.skip (.token "do") (.cons hf (.skip (.token "while")
    (.last hg.paren (.skip .statementEnd .nil)))))

theorem forIn_carries (b : Bool) (hf : f.Carries l) (hg : g.Carries l') (hh : h.Carries l'') :
    (Generate.forIn b f g h).Carries (l ++ (l' ++ l'')) := by
  have hleft : (if b then .noIn (.guardIn f) else loopTarget f).Carries l := by
    cases b with
    | true => exact hf.guardIn.noIn
    | false => exact hf.paren_if _
  rw [← List.append_assoc]
  exact headed_carries "for" (.sequence (.cons hleft (.skip (.token "in") (.singleton hg)))) hh

theorem forOf_carries (b : Bool) (hf : f.Carries l) (he : e.code.Carries l') (hh : h.Carries l'') :
    (Generate.forOf b f e h).Carries (l ++ (l' ++ l'')) := by
  have hleft : (if b then f else loopTarget f).Carries l := by
    cases b with
    | true => exact hf
    | false => exact hf.paren_if _
  rw [← List.append_assoc]
  exact headed_carries "for"
    (.sequence (.cons hleft (.skip (.token "of") (.singleton (single_carries he))))) hh

theorem loopStart_carries (hf : CarriesOption f? l) : CarriesOption (f?.map loopStart) l := by
  cases f? with
  | none => exact hf
  | some f => exact (Fragment.Carries.paren_if _ hf).guardIn.noIn

theorem forLoop_carries (hf : CarriesOption f? l) (hg : CarriesOption g? l')
    (hh : CarriesOption h? l'') (hbody : f.Carries k) :
    (Generate.forLoop f? g? h? f).Carries (l ++ (l' ++ (l'' ++ k))) := by
  rw [← List.append_assoc l', ← List.append_assoc l]
  exact headed_carries "for" (.sequence (.cons (orEmpty_carries (loopStart_carries hf))
    (.skip .semicolon (.cons (orEmpty_carries hg)
      (.skip .semicolon (.singleton (orEmpty_carries hh))))))) hbody

theorem ifStatement_carries (hf : f.Carries l) (hg : g.Carries l') (hh : CarriesOption h? l'') :
    (Generate.ifStatement f g h?).Carries (l ++ (l' ++ l'')) := by
  cases h? with
  | none =>
    rw [Padded.eq_nil hh, List.append_nil]
    exact .withMarks _ (.sequence (.skip (.token "if") (.cons hf.paren (.singleton hg))))
  | some h =>
    have hconsequent :
        (if g.marks.endsWithMissingElse then Generate.block [g] else g).Carries l' := by
      split
      · exact block_carries (.singleton hg)
      · exact hg
    rw [← List.append_assoc]
    exact endingIn_carries (.skip (.token "if") (.cons hf.paren
      (.last hconsequent (.skip (.token "else") .nil)))) hh

theorem labeled_carries (spell : String → String) (label : String) (hf : f.Carries l) :
    (Generate.labeled spell label f).Carries l :=
  endingIn_carries (.skip (.token _) (.skip (.token ":") .nil)) hf

theorem switch_carries (hf : f.Carries l) (hfs : CarriesAll fs l') :
    (switch f fs).Carries (l ++ l') :=
  .sequence (.skip (.token "switch") (.cons hf.paren (.singleton (block_carries hfs))))

theorem switchCase_carries (hf : f.Carries l) (hfs : CarriesAll fs l') :
    (Generate.switchCase f fs).Carries (l ++ l') :=
  .sequence (.skip (.token "case") (.cons hf (.skip (.token ":")
    (.singleton (lines_carries hfs).indent))))

theorem switchDefault_carries (hfs : CarriesAll fs l) : (Generate.switchDefault fs).Carries l :=
  .sequence (.skip (.token "default") (.skip (.token ":") (.singleton (lines_carries hfs).indent)))

theorem tryCatch_carries (hf : f.Carries l) (hg : g.Carries l') :
    (Generate.tryCatch f g).Carries (l ++ l') :=
  .sequence (.skip (.token "try") (.cons hf (.singleton hg)))

theorem tryFinally_carries (hf : f.Carries l) (hg : CarriesOption g? l') (hh : h.Carries l'') :
    (Generate.tryFinally f g? h).Carries (l ++ (l' ++ l'')) :=
  .sequence (.skip (.token "try") (.cons hf (.cons (orEmpty_carries hg)
    (.skip (.token "finally") (.singleton hh)))))

theorem catchClause_carries (hf : f.Carries l) (hg : g.Carries l') :
    (Generate.catchClause f g).Carries (l ++ l') :=
  .sequence (.skip (.token "catch") (.cons hf.paren (.singleton hg)))

theorem declaration_carries (kind : DeclarationKind) (hfs : CarriesAll fs l) :
    (Generate.declaration kind fs).Carries l :=
  .sequence (.skip (.token _) (.singleton (.separated hfs)))

theorem declarator_carries (hf : f.Carries l) (hg : CarriesOption g? l') :
    (Generate.declarator f g?).Carries (l ++ l') := by
  cases g? with
  | none =>
    rw [Padded.eq_nil hg, List.append_nil]
    exact hf
  | some g =>
    refine hf.initialized ?_
    unfold declaredValue
    split
    · exact Fragment.Carries.paren hg
    · exact Fragment.Carries.guardIn hg

end

end EcmaPrinter
