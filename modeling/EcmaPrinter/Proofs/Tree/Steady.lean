import EcmaPrinter.Generate.Code
import EcmaPrinter.Proofs.Pieces
import EcmaPrinter.Proofs.Tree.Nodes
import Mathlib.Data.List.Basic

/-!
The pieces of an expression are the same in every place.

The flag `noIn` goes down to the values of declarations only, and in an expression those are between
brackets, which switch it off.  So whether an expression stands in the head of a loop makes no
difference for its pieces.
-/

namespace EcmaPrinter

open EcmaPrinter.Generate

/-! ### Steady fragments -/

/-- The pieces do not depend on where the fragment stands. -/
def Fragment.Steady (f : Fragment) : Prop :=
  ∀ noIn, f.pieces noIn = f.pieces false

namespace Fragment

variable {f g : Fragment} {fs : List Fragment}

@[simp] theorem steady_withMarks (m : Marks) : (f.withMarks m).Steady ↔ f.Steady := by
  simp [Steady]

@[simp] theorem steady_empty : empty.Steady := fun _ => rfl

@[simp] theorem steady_token (text : String) : (token text).Steady := fun _ => rfl

@[simp] theorem steady_raw (text : String) : (raw text).Steady := fun _ => rfl

@[simp] theorem steady_number (v : Number.Double) : (number v).Steady := fun _ => rfl

@[simp] theorem steady_statementEnd : statementEnd.Steady := fun _ => rfl

theorem steady_stringStatement (h : f.Steady) : (stringStatement f).Steady := by
  intro noIn
  rw [pieces_stringStatement, pieces_stringStatement, h noIn]

@[simp] theorem steady_operator (text : String) : (operator text).Steady := fun _ => rfl

@[simp] theorem steady_paren (f : Fragment) : (paren f).Steady := fun _ => rfl

@[simp] theorem steady_bracket (f : Fragment) : (bracket f).Steady := fun _ => rfl

@[simp] theorem steady_brace (f : Fragment) : (brace f).Steady := fun _ => rfl

theorem steady_sequence (h : ∀ f ∈ fs, f.Steady) : (sequence fs).Steady := by
  intro noIn
  rw [pieces_sequence, pieces_sequence]
  exact List.flatMap_congr fun f hf => h f hf noIn

theorem steady_separated (h : ∀ f ∈ fs, f.Steady) : (separated fs).Steady := by
  intro noIn
  cases fs with
  | nil => rfl
  | cons f fs =>
    obtain ⟨hf, hfs⟩ := List.forall_mem_cons.mp h
    rw [pieces_separated_cons, pieces_separated_cons, hf noIn]
    exact congrArg _ (List.flatMap_congr fun g hg => congrArg _ (hfs g hg noIn))

/-- A guarded fragment takes parentheses exactly where a bare `in` would be misread. -/
theorem pieces_guardIn (h : f.Steady) (noIn : Bool) :
    (guardIn f).pieces noIn =
      if f.marks.containsIn && noIn then enclose "(" ")" (f.pieces false) else f.pieces false := by
  unfold guardIn
  cases f.marks.containsIn
  · exact h noIn
  · cases noIn <;> rfl

end Fragment

open Fragment

/-! ### Steady code -/

section

variable {e e' e'' : Operand} {f : Fragment}

theorem steady_within (h : e.code.Steady) (p : Precedence) : (e.within p).Steady := by
  unfold Operand.within
  split
  · exact steady_paren _
  · exact h

theorem steady_paren_if (b : Bool) (h : f.Steady) : (if b then paren f else f).Steady := by
  cases b
  · exact h
  · exact steady_paren f

theorem steady_keywordIf (present : Bool) (keyword : String) :
    (keywordIf present keyword).Steady := by
  cases present <;> simp [keywordIf]

theorem steady_single (h : e.code.Steady) : e.single.Steady :=
  steady_within h .assignment

theorem steady_staticMember (h : e.code.Steady) (spell : String → String) (property : String) :
    (staticMember spell e property).Steady :=
  (steady_withMarks _).mpr (steady_sequence (by simp [memberObject, steady_within h]))

theorem steady_computedMember (isLet : Bool) (h : e.code.Steady) (f : Fragment) :
    (computedMember isLet e f).Steady :=
  (steady_withMarks _).mpr (steady_sequence (by simp [memberObject, steady_within h]))

theorem steady_call (h : e.code.Steady) (items : List Fragment) : (call e items).Steady :=
  (steady_withMarks _).mpr (steady_sequence (by simp [arguments, steady_within h]))

theorem steady_construct (h : e.code.Steady) (items : List Fragment) :
    (construct e items).Steady := by
  have hcallee : (constructCallee e items.isEmpty).Steady := by
    unfold constructCallee
    split
    · exact steady_paren _
    · exact steady_within h _
  refine steady_sequence ?_
  cases items <;> simpa [arguments] using hcallee

theorem steady_unary (op : String) (h : e.code.Steady) : (Generate.unary op e).Steady :=
  steady_sequence (by simp [steady_within h])

theorem steady_update (before : Bool) (op : UpdateOperator) (h : f.Steady) :
    (Generate.update before op f).Steady := by
  cases before
  · exact (steady_withMarks _).mpr (steady_sequence (by simp [h]))
  · exact steady_sequence (by simp [h])

theorem steady_binary (isPrefixed : Bool) (op : BinaryOperator) (h : e.code.Steady)
    (h' : e'.code.Steady) : (binary isPrefixed e op e').Steady := by
  have hl : (leftOperand op isPrefixed e).Steady := by
    unfold leftOperand
    split
    · split
      · exact steady_paren _
      · exact h
    · exact steady_within h _
  have hr : (rightOperand op e').Steady := by
    unfold rightOperand
    split
    · exact steady_within h' _
    · split
      · exact steady_paren _
      · exact h'
  refine (steady_withMarks _).mpr ?_
  split
  · exact steady_separated (by simp [hl, hr])
  · exact steady_sequence (by simp [hl, hr])

theorem steady_conditional (h : e.code.Steady) (h' : e'.code.Steady) (h'' : e''.code.Steady) :
    (conditional e e' e'').Steady :=
  (steady_withMarks _).mpr (steady_sequence
    (by simp [steady_within h, steady_single h', steady_single h'']))

theorem steady_assignment (hf : f.Steady) (op : String) (h : e.code.Steady) :
    (assignment f op e).Steady :=
  (steady_withMarks _).mpr (steady_sequence (by simp [hf, steady_single h]))

theorem steady_yieldCode {e? : Option Operand} (h : ∀ e ∈ e?, e.code.Steady) :
    (yieldCode e?).Steady := by
  cases e? with
  | none => exact steady_token _
  | some e => exact (steady_withMarks _).mpr (steady_sequence (by simp [steady_single (h e rfl)]))

theorem steady_yieldFrom (h : e.code.Steady) : (Generate.yieldFrom e).Steady :=
  (steady_withMarks _).mpr (steady_sequence (by simp [steady_single h]))

theorem steady_function (isAsync isGenerator : Bool) {name? : Option Fragment}
    (h : ∀ f ∈ name?, f.Steady) (parameters body : Fragment) :
    (Generate.function isAsync isGenerator name? parameters body).Steady := by
  refine steady_sequence fun g hg => ?_
  simp only [List.mem_append, List.mem_cons, List.not_mem_nil, or_false, Option.mem_toList] at hg
  rcases hg with ((rfl | rfl | rfl) | hg) | rfl | rfl
  · exact steady_keywordIf _ _
  · exact steady_token _
  · exact steady_keywordIf _ _
  · exact h g hg
  · exact steady_paren _
  · exact steady_brace _

theorem steady_classCode {name? : Option Fragment} {parent? : Option Operand}
    (h : ∀ f ∈ name?, f.Steady) (h' : ∀ e ∈ parent?, e.code.Steady) (elements : List Fragment) :
    (classCode name? parent? elements).Steady := by
  refine steady_sequence fun g hg => ?_
  simp only [List.mem_append, List.mem_singleton, Option.mem_toList] at hg
  rcases hg with ((rfl | hg) | hg) | rfl
  · exact steady_token _
  · exact h g hg
  · cases parent? with
    | none => cases hg
    | some p =>
      simp only [List.mem_cons, List.not_mem_nil, or_false] at hg
      rcases hg with rfl | rfl
      · exact steady_token _
      · exact steady_within (h' p rfl) _
  · exact steady_brace _

theorem steady_expressionBody (h : e.code.Steady) : (expressionBody e).Steady :=
  steady_paren_if _ (steady_single h)

theorem steady_arrow (isAsync : Bool) {isSingleName : Bool} {parameters body : Fragment}
    (h : isSingleName → parameters.Steady) (hbody : body.Steady) :
    (Generate.arrow isAsync isSingleName parameters body).Steady := by
  refine (steady_withMarks _).mpr (steady_sequence ?_)
  have hhead : (if isSingleName then parameters else paren parameters).Steady := by
    split
    · next hsingle => exact h hsingle
    · exact steady_paren _
  simp [steady_keywordIf, hhead, hbody]

theorem steady_template (spell : String → String) {tag? : Option Operand} {parts : List Chunk}
    (h : ∀ e ∈ tag?, e.code.Steady)
    (h' : ∀ part ∈ parts, ∀ f ∈ part.code spell tag?.isSome, f.Steady) :
    (template spell tag? parts).Steady := by
  have hbody : ∀ f ∈ token "\x60" ::
      (parts.flatMap (·.code spell tag?.isSome) ++ [token "\x60"]), f.Steady := by
    intro f hf
    simp only [List.mem_cons, List.mem_append, List.mem_flatMap, List.not_mem_nil, or_false] at hf
    rcases hf with rfl | ⟨part, hpart, hf⟩ | rfl
    · exact steady_token _
    · exact h' part hpart f hf
    · exact steady_token _
  cases tag? with
  | none => exact steady_sequence hbody
  | some tag =>
    exact (steady_withMarks _).mpr
      (steady_sequence (List.forall_mem_cons.mpr ⟨steady_within (h tag rfl) _, hbody⟩))

end

/-- The code of expressions and of what they are made of is steady. -/
def SteadyCode : (c : Category) → Code c → Prop
  | .list c, codes => ∀ code ∈ codes, SteadyCode c code
  | .option c, code? => ∀ code ∈ code?, SteadyCode c code
  | .expression, e | .callee, e => e.code.Steady
  | .identifier, f | .bindingName, f | .targetName, f | .simpleTarget, f | .target, f
  | .arrowBody, f => f.Steady
  | .templatePart, .hole f => f.Steady
  | _, _ => True

theorem steady_singleName (spell : String → String) {ps : Tree .parameters}
    (h : ps.isSingleName) : (ps.code spell).Steady := by
  obtain ⟨name, rfl⟩ := Tree.exists_of_isSingleName h
  exact steady_separated (List.forall_mem_singleton.mpr ((steady_withMarks _).mpr (steady_token _)))

theorem steady_chunk (spell : String → String) (tagged : Bool) {part : Chunk}
    (h : SteadyCode .templatePart part) : ∀ f ∈ part.code spell tagged, f.Steady := by
  cases part with
  | text raw => simp [Chunk.code]
  | hole f =>
    have h : f.Steady := h
    simpa [Chunk.code] using h

theorem Tree.steady (spell : String → String) {c : Category} (t : Tree c) :
    SteadyCode c (t.code spell) := by
  induction t with
  | nil => exact List.forall_mem_nil _
  | cons t ts iht ihts => exact List.forall_mem_cons.mpr ⟨iht, ihts⟩
  | absent => rintro _ ⟨⟩
  | present t ih =>
    rintro code ⟨⟩
    exact ih
  -- names and assignment targets
  | bindingName n | targetName n | identifier n => exact (steady_withMarks _).mpr (steady_token _)
  | ofSimpleTarget t ih | ofTargetName t ih => exact ih
  | arrayTarget => exact steady_bracket _
  | objectTarget => exact (steady_withMarks _).mpr (steady_brace _)
  | staticMemberTarget o property ih => exact steady_staticMember ih spell property
  | computedMemberTarget o e ih => exact steady_computedMember _ ih _
  -- expressions
  | boolean value => exact steady_token _
  | infinity => exact steady_number _
  | number value => exact steady_number value
  | null | this | super | regExp | string => exact steady_token _
  | array => exact steady_bracket _
  | object => exact (steady_withMarks _).mpr (steady_brace _)
  | functionExpression isAsync isGenerator n ps b ihn =>
    exact (steady_withMarks _).mpr (steady_function isAsync isGenerator ihn _ _)
  | classExpression n p es ihn ihp => exact (steady_withMarks _).mpr (steady_classCode ihn ihp _)
  | ofIdentifier n ih => exact ih
  | template t ps iht ihps =>
    exact steady_template spell iht fun part hpart => steady_chunk spell _ (ihps part hpart)
  | newTarget => exact steady_sequence (by simp)
  | staticMember o property ih => exact steady_staticMember ih spell property
  | computedMember o e ih => exact steady_computedMember _ ih _
  | call f as ih => exact steady_call ih _
  | construct f as ih => exact steady_construct ih _
  | unary op e ih => exact steady_unary op.text ih
  | update before op t ih => exact steady_update before op ih
  | binary l op r ihl ihr => exact steady_binary _ op ihl ihr
  | conditional t s a iht ihs iha => exact steady_conditional iht ihs iha
  | assign t v iht ihv => exact steady_assignment iht _ ihv
  | compoundAssign t op v iht ihv => exact steady_assignment iht _ ihv
  | arrow isAsync ps b _ ihb => exact steady_arrow isAsync (steady_singleName spell) ihb
  | await e ih => exact steady_unary _ ih
  | yield e ih => exact steady_yieldCode ih
  | yieldFrom e ih => exact steady_yieldFrom ih
  | ofCallee e ih => exact ih
  -- parts of expressions
  | ofSubstitution e ih => exact ih
  | ofExpressionBody e ih => exact steady_expressionBody ih
  | ofFunctionBody b => exact steady_brace _
  | _ => trivial

end EcmaPrinter
