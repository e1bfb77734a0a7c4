import EcmaPrinter.Proofs.Grammar.RoundTrip
import EcmaPrinter.Proofs.Hazard.Marked
import EcmaPrinter.Proofs.Hazard.Start

/-!
No `in` is exposed in the head of a loop.

What a `for` loop starts with and the declaration of a `for`-`in` loop are written where a bare `in`
would be taken for the one of the loop.  An expression with an exposed `in` goes into parentheses
there as a whole, and in a declaration each value with one does.  Nothing else gets parentheses for
this reason: what has no exposed `in` is written as it would be anywhere else.
-/

namespace EcmaPrinter

open EcmaPrinter.Generate
open EcmaPrinter.Text
open Fragment

/-! ### Guarded code -/

/-- Code that hides each `in` in the head of a loop, and is the same as elsewhere if there is none
to hide. -/
structure Fragment.GuardsIn (f : Fragment) : Prop where
  even : f.Even
  hidden : ¬ f.Exposes true
  same : ¬ f.Exposes false → f.pieces true = f.pieces false

section

variable {f g : Fragment} {fs : List Fragment}

theorem guardsIn_of_steady (h : f.Steady) (heven : f.Even) (hf : ¬ f.Exposes false) :
    f.GuardsIn := by
  refine ⟨heven, ?_, fun _ => h true⟩
  unfold Fragment.Exposes at hf ⊢
  rwa [h true]

theorem guardsIn_guardIn (h : f.MarksIn) (hs : f.Steady) : (guardIn f).GuardsIn := by
  have htrue := pieces_guardIn hs true
  have hfalse := pieces_guardIn hs false
  rw [Bool.and_true] at htrue
  simp only [Bool.and_false, Bool.false_eq_true, if_false] at hfalse
  refine ⟨even_guardIn h.even, ?_, ?_⟩
  · unfold Fragment.Exposes
    rw [htrue]
    split
    · exact (h.even false).not_exposesIn_between (by decide)
    · next hm => exact fun hexposes => hm (h.exposes.mpr hexposes)
  · unfold Fragment.Exposes
    rw [htrue, hfalse]
    intro hexposes
    rw [if_neg fun hm => hexposes (h.exposes.mp hm)]

theorem guardsIn_declaredValue (h : f.MarksIn) (hs : f.Steady) : (declaredValue f).GuardsIn := by
  unfold declaredValue
  split
  · exact guardsIn_of_steady (steady_paren f) (even_paren h.even) (not_exposes_paren h.even)
  · exact guardsIn_guardIn h hs

theorem guardsIn_declarator {value? : Option Fragment} (hf : f.HidesIn)
    (h : ∀ v ∈ value?, v.MarksIn ∧ v.Steady) : (Generate.declarator f value?).GuardsIn := by
  have heven : (Generate.declarator f value?).Even :=
    even_codeDeclarator hf.even fun v hv => (h v hv).1.even
  cases value? with
  | none => exact ⟨heven, hf.hidden, fun _ => rfl⟩
  | some v =>
    have hv := guardsIn_declaredValue (h v rfl).1 (h v rfl).2
    have hexposes : ∀ noIn, (Generate.declarator f (some v)).Exposes noIn ↔
        (declaredValue v).Exposes noIn := by
      intro noIn
      show ExposesIn (f.pieces false ++ .operator "=" :: (declaredValue v).pieces noIn) ↔ _
      rw [(hf.even false).exposesIn_append, exposesIn_cons (by decide)]
      simp [show ¬ ExposesIn (f.pieces false) from hf.hidden, Fragment.Exposes]
    refine ⟨heven, (hexposes true).not.mpr hv.hidden, fun hnone => ?_⟩
    show f.pieces false ++ .operator "=" :: (declaredValue v).pieces true =
      f.pieces false ++ .operator "=" :: (declaredValue v).pieces false
    rw [hv.same ((hexposes false).not.mp hnone)]

theorem guardsIn_separated (h : ∀ f ∈ fs, f.GuardsIn) : (separated fs).GuardsIn := by
  have heven : ∀ f ∈ fs, f.Even := fun f hf => (h f hf).even
  refine ⟨even_separated heven, ?_, ?_⟩
  · rw [exposes_separated heven]
    rintro ⟨f, hf, hexposes⟩
    exact (h f hf).hidden hexposes
  · rw [exposes_separated heven]
    intro hnone
    have hsame : ∀ f ∈ fs, f.pieces true = f.pieces false := fun f hf =>
      (h f hf).same fun hexposes => hnone ⟨f, hf, hexposes⟩
    cases fs with
    | nil => rfl
    | cons f fs =>
      obtain ⟨hf, hfs⟩ := List.forall_mem_cons.mp hsame
      rw [pieces_separated_cons, pieces_separated_cons, hf]
      exact congrArg _ (List.flatMap_congr fun g hg => congrArg _ (hfs g hg))

theorem guardsIn_declaration (kind : DeclarationKind) (h : ∀ f ∈ fs, f.GuardsIn) :
    (Generate.declaration kind fs).GuardsIn := by
  have hds := guardsIn_separated h
  have hkind : kind.text ∉ bracketTexts := by cases kind <;> decide
  have hparts : ∀ k ∈ [token kind.text, separated fs], k.Even := by
    simp [even_token hkind, hds.even]
  have hexposes : ∀ noIn, (Generate.declaration kind fs).Exposes noIn ↔
      (separated fs).Exposes noIn := by
    intro noIn
    unfold Generate.declaration
    rw [exposes_sequence hparts]
    simp [not_exposes_token hkind]
  refine ⟨even_sequence hparts, (hexposes true).not.mpr hds.hidden, fun hnone => ?_⟩
  simp [Generate.declaration, hds.same ((hexposes false).not.mp hnone)]

end

/-! ### Trees -/

/-- The mark of a contained `in` is right, where code has one; declarations guard theirs. -/
def MarkedCode : (c : Category) → Code c → Prop
  | .list c, codes => ∀ code ∈ codes, MarkedCode c code
  | .option c, code? => ∀ code ∈ code?, MarkedCode c code
  | .expression, e | .callee, e => e.MarksIn
  | .identifier, f | .bindingName, f | .targetName, f | .simpleTarget, f | .target, f
  | .binding, f => f.HidesIn
  | .arrowBody, f => f.MarksIn
  | .declarator, f | .declaration, f => f.GuardsIn
  | _, _ => True

section

variable {spell : String → String}

theorem hidesIn_name {n : String} (h : spell n ∉ bracketTexts) : (Generate.name spell n).HidesIn :=
  ⟨(even_token h).withMarks _, rfl, (exposes_withMarks _).not.mpr (not_exposes_token h)⟩

theorem not_exposes_singleName {ps : Tree .parameters}
    (h : ps.AllNames (spell · ∉ bracketTexts)) (hsingle : ps.isSingleName) :
    ¬ (ps.code spell).Exposes false := by
  obtain ⟨n, rfl⟩ := Tree.exists_of_isSingleName hsingle
  have hname : spell n ∉ bracketTexts :=
    part_of_one (part_of_one (parts_of_two (parts_of_two h).1).1) _ List.mem_cons_self n
      List.mem_cons_self
  exact (hidesIn_token hname).hidden

theorem Tree.marked (hs : QuietSpelling spell) {c : Category} (t : Tree c)
    (h : t.AllNames (spell · ∉ bracketTexts)) : MarkedCode c (t.code spell) := by
  induction t with
  | nil => exact List.forall_mem_nil _
  | cons t ts iht ihts =>
    obtain ⟨ht, hts⟩ := parts_of_two h
    exact List.forall_mem_cons.mpr ⟨iht ht, ihts hts⟩
  | absent => rintro _ ⟨⟩
  | present t ih =>
    rintro code ⟨⟩
    exact ih (part_of_one h)
  -- names, bindings and targets
  | bindingName n | targetName n | identifier n =>
    exact hidesIn_name (h _ List.mem_cons_self n List.mem_cons_self)
  | ofBindingName t ih | ofSimpleTarget t ih | ofTargetName t ih => exact ih (part_of_one h)
  | arrayBinding es r | arrayTarget es r =>
    obtain ⟨hes, hr⟩ := parts_of_two h
    exact hidesIn_arrayElements (Tree.even hs es hes) (Tree.even hs r hr)
  | objectBinding ps => exact hidesIn_properties (m := {}) rfl (Tree.even hs ps (part_of_one h))
  | objectTarget ps => exact hidesIn_properties rfl (Tree.even hs ps (part_of_one h))
  | staticMemberTarget o property ih =>
    exact hidesIn_staticMember (ih (part_of_one h)) (h _ List.mem_cons_self _ List.mem_cons_self)
  | computedMemberTarget o e ih =>
    obtain ⟨ho, he⟩ := parts_of_two h
    exact hidesIn_computedMember _ (ih ho) (Tree.even hs e he)
  -- declarations
  | declarator b v ihb ihv =>
    obtain ⟨hb, hv⟩ := parts_of_two h
    refine guardsIn_declarator (ihb hb) fun f hf => ?_
    obtain ⟨e, he, rfl⟩ := Option.map_eq_some_iff.mp hf
    exact ⟨(ihv hv e he).toMarksIn, Tree.steady spell v e he⟩
  | declaration kind ds ih => exact guardsIn_declaration kind (ih (part_of_one h))
  -- literals, functions and names
  | boolean value => exact (hidesIn_token (by cases value <;> decide)).operand _
  | infinity => exact HidesIn.operand ⟨even_number _, rfl, not_exposes_number _⟩ _
  | number value => exact HidesIn.operand ⟨even_number value, rfl, not_exposes_number value⟩ _
  | null | this | super => exact (hidesIn_token (by decide)).operand _
  | regExp pattern flags =>
    exact (hidesIn_token (not_mem_bracketTexts String.toList_ofList (by decide))).operand _
  | string value => exact (hidesIn_token (hs.quote value)).operand _
  | array es =>
    have hes : (arrayElements (es.code spell) none).HidesIn := by
      refine hidesIn_arrayElements (Tree.even hs es (part_of_one h)) ?_
      rintro _ ⟨⟩
    exact hes.operand _
  | object ps => exact (hidesIn_properties rfl (Tree.even hs ps (part_of_one h))).operand _
  | functionExpression isAsync isGenerator n ps b ihn =>
    obtain ⟨hn, hps, hb⟩ := parts_of_three h
    exact (hidesIn_function isAsync isGenerator rfl (ihn hn) (Tree.even hs ps hps)
      (Tree.even hs b hb)).operand _
  | classExpression n p es ihn ihp =>
    obtain ⟨hn, hp, hes⟩ := parts_of_three h
    exact (hidesIn_class rfl (ihn hn) (ihp hp) (Tree.even hs es hes)).operand _
  | ofIdentifier n ih => exact (ih (part_of_one h)).operand _
  -- members, calls and templates
  | template t ps iht =>
    obtain ⟨ht, hps⟩ := parts_of_two h
    exact (hidesIn_template (iht ht) (Tree.even hs ps hps)).operand _
  | newTarget =>
    exact (hidesIn_sequence (m := {}) rfl (by
      simp [even_token, not_exposes_token, bracketTexts])).operand _
  | staticMember o property ih =>
    exact (hidesIn_staticMember (ih (part_of_one h))
      (h _ List.mem_cons_self _ List.mem_cons_self)).operand _
  | computedMember o e ih =>
    obtain ⟨ho, he⟩ := parts_of_two h
    exact (hidesIn_computedMember _ (ih ho) (Tree.even hs e he)).operand _
  | call f as ih =>
    obtain ⟨hf, has⟩ := parts_of_two h
    exact (hidesIn_call (ih hf) (Tree.even hs as has)).operand _
  | construct f as ih =>
    obtain ⟨hf, has⟩ := parts_of_two h
    exact (hidesIn_construct (ih hf) (Tree.even hs as has)).operand _
  | ofCallee e ih => exact ih (part_of_one h)
  -- operators
  | unary op e ih => exact (hidesIn_unary (by cases op <;> decide) (ih (part_of_one h))).operand _
  | await e ih => exact (hidesIn_unary (by decide) (ih (part_of_one h))).operand _
  | update before op t ih => exact (hidesIn_update before op (ih (part_of_one h))).operand _
  | binary l op r ihl ihr =>
    obtain ⟨hl, hr⟩ := parts_of_two h
    exact marksIn_binary _ op (ihl hl) (ihr hr)
  | conditional t s a iht ihs iha =>
    obtain ⟨ht, hss, ha⟩ := parts_of_three h
    exact marksIn_conditional (iht ht) (ihs hss) (iha ha)
  | assign t v iht ihv =>
    obtain ⟨ht, hv⟩ := parts_of_two h
    exact marksIn_assignment (iht ht) (by decide) (by decide) (ihv hv)
  | compoundAssign t op v iht ihv =>
    obtain ⟨ht, hv⟩ := parts_of_two h
    exact marksIn_assignment (iht ht) (by cases op <;> decide) (by cases op <;> decide) (ihv hv)
  | arrow isAsync ps b _ ihb =>
    obtain ⟨hps, hb⟩ := parts_of_two h
    exact marksIn_arrow isAsync _ (Tree.even hs ps hps) (not_exposes_singleName hps) (ihb hb)
  | yield e ih =>
    cases e with
    | absent => exact (hidesIn_token (by decide)).operand _
    | present e => exact marksIn_behind ["yield"] (by decide) (ih (part_of_one h) _ rfl)
  | yieldFrom e ih =>
    exact marksIn_behind ["yield", "*"] (by decide) (ih (part_of_one h))
  | ofExpressionBody e ih => exact marksIn_expressionBody (ih (part_of_one h))
  | ofFunctionBody b =>
    have hb : Even (b.code spell) := Tree.even hs b (part_of_one h)
    exact HidesIn.marksIn ⟨even_brace hb, rfl, not_exposes_brace hb⟩
  | _ => trivial

end

/-! ### Marks do not depend on the spelling -/

/-- Two codes of the same tree have the same marks. -/
def SameMarks : (c : Category) → Code c → Code c → Prop
  | .option c, code?, code'? => Option.Rel (SameMarks c) code? code'?
  | .expression, e, e' | .callee, e, e' => e.code.marks = e'.code.marks
  | .identifier, f, f' | .targetName, f, f' | .simpleTarget, f, f' | .target, f, f'
  | .arrowBody, f, f' => f.marks = f'.marks
  | _, _, _ => True

section

variable {e e' : Operand}

theorem marks_within (hm : e.code.marks = e'.code.marks) (hp : e.precedence = e'.precedence)
    (p : Precedence) : (e.within p).marks = (e'.within p).marks := by
  unfold Operand.within
  rw [hp]
  split
  · rfl
  · exact hm

theorem marks_memberObject (hm : e.code.marks = e'.code.marks)
    (hp : e.precedence = e'.precedence) : (memberObject e).marks = (memberObject e').marks := by
  unfold memberObject
  rw [hp]
  exact marks_within hm hp _

theorem marks_computedMember (isLet : Bool) (f f' : Fragment) (hm : e.code.marks = e'.code.marks)
    (hp : e.precedence = e'.precedence) :
    (Generate.computedMember isLet e f).marks = (Generate.computedMember isLet e' f').marks := by
  unfold Generate.computedMember
  rw [marks_withMarks, marks_withMarks, marks_memberObject hm hp]

theorem marks_leftOperand (op : BinaryOperator) (isPrefixed : Bool)
    (hm : e.code.marks = e'.code.marks) (hp : e.precedence = e'.precedence) :
    (leftOperand op isPrefixed e).marks = (leftOperand op isPrefixed e').marks := by
  unfold leftOperand
  rw [hp]
  split
  · split
    · rfl
    · exact hm
  · exact marks_within hm hp _

theorem marks_rightOperand (op : BinaryOperator) (hm : e.code.marks = e'.code.marks)
    (hp : e.precedence = e'.precedence) :
    (rightOperand op e).marks = (rightOperand op e').marks := by
  unfold rightOperand
  rw [hp]
  split
  · exact marks_within hm hp _
  · split
    · rfl
    · exact hm

theorem marks_binary (op : BinaryOperator) (isPrefixed : Bool) {r r' : Operand}
    (hm : e.code.marks = e'.code.marks) (hp : e.precedence = e'.precedence)
    (hm' : r.code.marks = r'.code.marks) (hp' : r.precedence = r'.precedence) :
    (Generate.binary isPrefixed e op r).marks = (Generate.binary isPrefixed e' op r').marks := by
  unfold Generate.binary
  rw [marks_withMarks, marks_withMarks, marks_leftOperand op isPrefixed hm hp,
    marks_rightOperand op hm' hp']

theorem marks_single (hm : e.code.marks = e'.code.marks) (hp : e.precedence = e'.precedence) :
    e.single.marks = e'.single.marks :=
  marks_within hm hp _

theorem marks_conditional (c c' : Operand) {a a' : Operand} (hm : e.code.marks = e'.code.marks)
    (hp : e.precedence = e'.precedence) (hm' : a.code.marks = a'.code.marks)
    (hp' : a.precedence = a'.precedence) :
    (Generate.conditional e c a).marks = (Generate.conditional e' c' a').marks := by
  unfold Generate.conditional
  rw [marks_withMarks, marks_withMarks, marks_within hm hp, marks_single hm' hp']

theorem marks_assignment (op : String) {f f' : Fragment} (hf : f.marks = f'.marks)
    (hm : e.code.marks = e'.code.marks) (hp : e.precedence = e'.precedence) :
    (assignment f op e).marks = (assignment f' op e').marks := by
  unfold assignment
  rw [marks_withMarks, marks_withMarks, hf, marks_single hm hp]

theorem marks_expressionBody (hm : e.code.marks = e'.code.marks)
    (hp : e.precedence = e'.precedence) :
    (expressionBody e).marks = (expressionBody e').marks := by
  have hsingle := marks_single hm hp
  unfold expressionBody
  simp only [hsingle]
  split
  · rfl
  · exact hsingle

end

/-- The precedence of code is that of the tree. -/
theorem Tree.precedence_code_callee (spell : String → String) (t : Tree .callee) :
    (t.code spell).precedence = t.precedence := by
  cases t with
  | super => rfl
  | ofCallee e => exact Grammar.precedence_code spell e

section

variable (spell spell' : String → String)

theorem Tree.precedence_eq (e : Expression) :
    (e.code spell).precedence = (e.code spell').precedence :=
  (Grammar.precedence_code spell e).trans (Grammar.precedence_code spell' e).symm

theorem Tree.precedence_eq_callee (t : Tree .callee) :
    (t.code spell).precedence = (t.code spell').precedence :=
  (precedence_code_callee spell t).trans (precedence_code_callee spell' t).symm

theorem Tree.sameMarks {c : Category} (t : Tree c) :
    SameMarks c (t.code spell) (t.code spell') := by
  induction t with
  | absent => exact .none
  | present t ih => exact .some ih
  | targetName n | identifier n =>
    exact (rfl : _ = ({ startsWithLet := n == "let" } : Marks)).trans rfl
  | ofSimpleTarget t ih | ofTargetName t ih => exact ih
  | arrayTarget es r => exact (rfl : _ = ({} : Marks)).trans rfl
  | objectTarget ps => exact (rfl : _ = ({ startsWithCurly := true } : Marks)).trans rfl
  | staticMemberTarget o property ih =>
    exact congrArg Marks.leading (marks_memberObject ih (precedence_eq_callee _ _ o))
  | computedMemberTarget o e ih =>
    exact marks_computedMember _ _ _ ih (precedence_eq_callee _ _ o)
  -- the marks of these do not depend on their parts
  | boolean | infinity | null | number | regExp | string | array | this | newTarget | construct
  | unary | await | super => exact (rfl : _ = ({} : Marks)).trans rfl
  | object => exact (rfl : _ = ({ startsWithCurly := true } : Marks)).trans rfl
  | functionExpression | classExpression => exact (rfl : _ = functionMarks).trans rfl
  | ofIdentifier n ih => exact ih
  | ofCallee e ih => exact ih
  -- the marks of these come from their first parts
  | template t ps iht =>
    cases t with
    | absent => exact (rfl : _ = ({} : Marks)).trans rfl
    | present tag =>
      cases iht with | some htag =>
      exact congrArg Marks.leading (marks_memberObject htag (precedence_eq _ _ tag))
  | staticMember o property ih =>
    exact congrArg Marks.leading (marks_memberObject ih (precedence_eq_callee _ _ o))
  | computedMember o e ih => exact marks_computedMember _ _ _ ih (precedence_eq_callee _ _ o)
  | call f as ih =>
    exact congrArg Marks.leading (marks_within ih (precedence_eq_callee _ _ f) .call)
  | update before op t ih =>
    cases before
    · exact congrArg Marks.leading ih
    · exact (rfl : _ = ({} : Marks)).trans rfl
  -- and of these from several
  | binary l op r ihl ihr =>
    exact marks_binary op _ ihl (precedence_eq _ _ l) ihr (precedence_eq _ _ r)
  | conditional t s a iht _ iha =>
    exact marks_conditional _ _ iht (precedence_eq _ _ t) iha (precedence_eq _ _ a)
  | assign t v iht ihv => exact marks_assignment _ iht ihv (precedence_eq _ _ v)
  | compoundAssign t op v iht ihv => exact marks_assignment _ iht ihv (precedence_eq _ _ v)
  | arrow isAsync ps b _ ihb => exact congrArg Marks.onlyIn ihb
  | yield e ih =>
    cases e with
    | absent => exact (rfl : _ = ({} : Marks)).trans rfl
    | present e =>
      cases ih with | some he =>
      exact congrArg Marks.onlyIn (marks_single he (precedence_eq _ _ e))
  | yieldFrom e ih => exact congrArg Marks.onlyIn (marks_single ih (precedence_eq _ _ e))
  | ofExpressionBody e ih => exact marks_expressionBody ih (precedence_eq _ _ e)
  | ofFunctionBody b => exact (rfl : _ = ({} : Marks)).trans rfl
  | _ => trivial

end

/-! ### Programs -/

/-- The pieces of an expression without names and literals. -/
def Expression.outline (e : Expression) : List Piece :=
  (e.code blank).code.pieces false

/-- The pieces of what a loop starts with. -/
def Tree.loopStartPieces (spell : String → String) (s : Tree .loopStart) : List Piece :=
  (loopStart (s.code spell)).pieces false

/-- The pieces of the declaration in a loop over keys. -/
def Tree.loopDeclarationPieces (spell : String → String) (d : Tree .declaration) : List Piece :=
  (noIn (guardIn (d.code spell))).pieces false

/-- In the heads of the loops of a program no `in` is exposed, and there are no parentheses to that
end where none would be. -/
structure Program.GuardsIn (spell : String → String) (p : Program) : Prop where
  loopStart : ∀ s t u b, ⟨_, .forLoop (.present s) t u b⟩ ∈ p.nodes →
    .token "for" :: .token "(" :: (s.loopStartPieces spell ++ [.semicolon]) <:+:
        Fragment.pieces (p.code spell) false ∧
      ¬ ExposesIn (s.loopStartPieces spell) ∧
      (¬ ExposesIn (Fragment.pieces (s.code spell) false) →
        s.loopStartPieces spell =
          if (Fragment.marks (s.code spell)).startsWithLetBracket then
            enclose "(" ")" (Fragment.pieces (s.code spell) false)
          else Fragment.pieces (s.code spell) false)
  loopDeclaration : ∀ d o b, ⟨_, .forIn (.ofLoopDeclaration d) o b⟩ ∈ p.nodes →
    .token "for" :: .token "(" :: (d.loopDeclarationPieces spell ++ [.token "in"]) <:+:
        Fragment.pieces (p.code spell) false ∧
      ¬ ExposesIn (d.loopDeclarationPieces spell) ∧
      (¬ ExposesIn (Fragment.pieces (d.code spell) false) →
        d.loopDeclarationPieces spell = Fragment.pieces (d.code spell) false)

section

variable {spell : String → String}

theorem Tree.AllNames.of_mem {P : String → Prop} {c d : Category} {t : Tree c} {u : Tree d}
    (h : t.AllNames P) (hu : ⟨d, u⟩ ∈ t.nodes) : u.AllNames P :=
  fun n hn => h n (Tree.isClosed_nodes t _ hu hn)

/-- An expression at the start of a loop is in parentheses if it exposes an `in`, or would be read
as the declaration of a pattern. -/
theorem guards_loopStart {f : Fragment} (h : f.MarksIn) (hs : f.Steady) :
    ¬ ExposesIn ((loopStart f).pieces false) ∧
      (¬ ExposesIn (f.pieces false) → (loopStart f).pieces false =
        if f.marks.startsWithLetBracket then enclose "(" ")" (f.pieces false)
        else f.pieces false) := by
  rw [pieces_loopStart hs]
  constructor
  · split
    · exact (h.even false).not_exposesIn_between (by decide)
    · next hm =>
      simp only [Bool.or_eq_true, not_or] at hm
      exact fun hexposes => hm.2 (h.exposes.mpr hexposes)
  · intro hexposes
    have hm : f.marks.containsIn = false := by
      rw [← Bool.not_eq_true]
      exact fun hm => hexposes (h.exposes.mp hm)
    rw [hm, Bool.or_false]

theorem Tree.guards_loopStart (hs : QuietSpelling spell) (s : Tree .loopStart)
    (h : s.AllNames (spell · ∉ bracketTexts)) :
    ¬ ExposesIn (s.loopStartPieces spell) ∧
      (¬ ExposesIn (Fragment.pieces (s.code spell) false) → s.loopStartPieces spell =
        if (Fragment.marks (s.code spell)).startsWithLetBracket then
          enclose "(" ")" (Fragment.pieces (s.code spell) false)
        else Fragment.pieces (s.code spell) false) := by
  cases s with
  | ofStartExpression e =>
    exact EcmaPrinter.guards_loopStart (Tree.marked hs e (part_of_one h)).toMarksIn
      (Tree.steady spell e)
  | ofStartDeclaration d =>
    -- a declaration has no marks, so its values guard themselves
    cases d with | declaration kind ds =>
    have hd := Tree.marked hs _ (part_of_one h)
    exact ⟨hd.hidden, hd.same⟩

theorem Program.guardsIn (hs : QuietSpelling spell) {p : Program}
    (h : p.AllNames (spell · ∉ bracketTexts)) : Program.GuardsIn spell p where
  loopStart s t u b hmem := by
    have hwrites : Fragment.Writes (p.code spell) (Generate.forLoop (some (s.code spell))
        ((t.code spell).map (·.code)) ((u.code spell).map (·.code)) (b.code spell)) :=
      Program.writes_nodes spell p _ hmem
    have hstart : s.AllNames _ := part_of_one (parts_of_four (h.of_mem hmem)).1
    exact ⟨headed_occurs (pieces_sequence _ _) (hwrites.occurs rfl false),
      s.guards_loopStart hs hstart⟩
  loopDeclaration d o b hmem := by
    have hwrites : Fragment.Writes (p.code spell) (Generate.forIn true (d.code spell)
        (o.code spell).code (b.code spell)) := Program.writes_nodes spell p _ hmem
    have hd := Tree.marked hs d (part_of_one (parts_of_three (h.of_mem hmem)).1)
    refine ⟨headed_occurs (pieces_sequence _ _) (hwrites.occurs rfl false), ?_⟩
    cases d with | declaration kind ds =>
    exact ⟨hd.hidden, hd.same⟩

end

/-- The mark of a contained `in` is set for the expressions that expose one.  No `in` is exposed in
the heads of loops, and nothing else is put in parentheses there.  This is true of the outline of
all trees, and of the pieces themselves if no name is spelled like a bracket.  The pieces are those
that writing hands over, inside and outside of loop heads. -/
theorem exposed_in_guarded (o : Options) :
    (∀ e : Expression, (Expression.fragment o e).marks.containsIn ↔ ExposesIn e.outline) ∧
      (∀ e : Expression, e.AllNames (o.spell · ∉ bracketTexts) →
        ((Expression.fragment o e).marks.containsIn ↔ ExposesIn (e.pieces o))) ∧
      (∀ p : Program, Program.GuardsIn blank p ∧
        (p.AllNames (o.spell · ∉ bracketTexts) → Program.GuardsIn o.spell p)) ∧
      (∀ e : Expression, (Expression.fragment o e).HandsOver) ∧
      ∀ p : Program, (Program.fragment o p).HandsOver := by
  have hblank : ∀ {c : Category} (t : Tree c), t.AllNames (blank · ∉ bracketTexts) := by
    intro c t n hn name hname
    show "" ∉ bracketTexts
    decide
  refine ⟨fun e => ?_, fun e h => ?_, fun p => ⟨?_, fun h => ?_⟩,
    fun e => Fragment.handsOver _, fun p => Fragment.handsOver _⟩
  · have hmarks : (Expression.fragment o e).marks = (e.code blank).code.marks :=
      Tree.sameMarks o.spell blank e
    rw [hmarks]
    exact (Tree.marked quietSpelling_blank e (hblank e)).exposes
  · exact (Tree.marked o.quietSpelling e h).exposes
  · exact Program.guardsIn quietSpelling_blank (hblank p)
  · exact Program.guardsIn o.quietSpelling h

/-- The statement `for (var a = (x in y);;) for (var a = (x in y) in x);`. -/
def loopsWithIn : Program :=
  let x : Expression := .ofIdentifier (.identifier "x")
  let member : Expression := .binary x .isIn (.ofIdentifier (.identifier "y"))
  let declaration := .declaration .functionScope
    (.cons (.declarator (.ofBindingName (.bindingName "a")) (.present member)) .nil)
  let inner := .forIn (.ofLoopDeclaration declaration) x .emptyStatement
  .script .nil
    (.cons (.forLoop (.present (.ofStartDeclaration declaration)) .absent .absent inner) .nil)

theorem exposed_in_guarded_loopsWithIn :
    loopsWithIn.AllNames (({} : Options).spell · ∉ bracketTexts) ∧
      Program.GuardsIn ({} : Options).spell loopsWithIn :=
  ⟨by decide, ((exposed_in_guarded {}).2.2.1 loopsWithIn).2 (by decide)⟩

end EcmaPrinter
