import EcmaPrinter.Proofs.Grammar.Reading
import EcmaPrinter.Render

/-!
Expressions read back: the parser makes of the code of an expression the expression itself.

The proof goes by induction on the tree.  Each shape of expression hands the parser a stretch
that `ReadsAs` speaks of, at a level that is at least the precedence of the expression.  The
operands are in parentheses exactly where their own level would not do, so the facts about the
parser's levels fit together.
-/

namespace EcmaPrinter.Grammar

open EcmaPrinter
open EcmaPrinter.Generate
open EcmaPrinter.Number
open EcmaPrinter.Text

/-! ### Plain expressions -/

/-- Trees made of names, literals, arrays, operators, assignments to names and members, members,
calls and `new`. -/
inductive Plain : {c : Category} → Tree c → Prop
  | identifier {name : String} : isIdentifier name → Plain (.ofIdentifier (.identifier name))
  | this : Plain .this
  | null : Plain .null
  | boolean (value : Bool) : Plain (.boolean value)
  | number {v : Double} : v.isFinite → (v.negative → v.isZero) → Plain (.number v)
  | string (value : String) : Plain (.string value)
  | array {es : Tree (.list (.option .argument))} : Plain es → Plain (.array es)
  | unary (op : UnaryOperator) {e : Expression} : Plain e → Plain (.unary op e)
  | await {e : Expression} : Plain e → Plain (.await e)
  | update (before : Bool) (op : UpdateOperator) {t : Tree .simpleTarget} :
      Plain t → Plain (.update before op t)
  | binary {l : Expression} (op : BinaryOperator) {r : Expression} :
      Plain l → Plain r → Plain (.binary l op r)
  | conditional {t s a : Expression} : Plain t → Plain s → Plain a → Plain (.conditional t s a)
  | assign {t : Tree .simpleTarget} {v : Expression} :
      Plain t → Plain v → Plain (.assign (.ofSimpleTarget t) v)
  | compoundAssign {t : Tree .simpleTarget} (op : AssignmentOperator) {v : Expression} :
      Plain t → Plain v → Plain (.compoundAssign t op v)
  | staticMember {e : Expression} {property : String} :
      Plain e → isIdentifierName property → Plain (.staticMember (.ofCallee e) property)
  | computedMember {e i : Expression} :
      Plain e → Plain i → Plain (.computedMember (.ofCallee e) i)
  | call {f : Expression} {items : Tree (.list .argument)} :
      Plain f → Plain items → Plain (.call (.ofCallee f) items)
  | construct {f : Expression} {items : Tree (.list .argument)} :
      Plain f → Plain items → Plain (.construct f items)
  -- targets
  | targetName {name : String} : isIdentifier name → Plain (.ofTargetName (.targetName name))
  | staticMemberTarget {e : Expression} {property : String} :
      Plain e → isIdentifierName property → Plain (.staticMemberTarget (.ofCallee e) property)
  | computedMemberTarget {e i : Expression} :
      Plain e → Plain i → Plain (.computedMemberTarget (.ofCallee e) i)
  -- arguments and elements
  | ofArgument {e : Expression} : Plain e → Plain (.ofArgument e)
  | spread {e : Expression} : Plain e → Plain (.spread e)
  | noArguments : Plain (.nil : Tree (.list .argument))
  | moreArguments {a : Tree .argument} {items : Tree (.list .argument)} :
      Plain a → Plain items → Plain (.cons a items)
  | noElements : Plain (.nil : Tree (.list (.option .argument)))
  | hole {es : Tree (.list (.option .argument))} : Plain es → Plain (.cons .absent es)
  | element {a : Tree .argument} {es : Tree (.list (.option .argument))} :
      Plain a → Plain es → Plain (.cons (.present a) es)

/-! ### The terminals of code -/

/-- The terminals of a fragment, one for each piece. -/
def out (f : Fragment) : List Terminal :=
  (f.pieces false).map terminal

@[simp] theorem out_withMarks (m : Marks) (f : Fragment) : out (f.withMarks m) = out f := by
  simp [out]

@[simp] theorem out_empty : out .empty = [] := rfl

@[simp] theorem out_token (text : String) : out (.token text) = [.ofText text] := rfl

@[simp] theorem out_operator (text : String) : out (.operator text) = [.ofText text] := rfl

@[simp] theorem out_number (v : Double) : out (.number v) = [.number v] := rfl

@[simp] theorem out_paren (f : Fragment) : out (.paren f) = grouped (out f) := by
  simp [out, grouped, enclose, terminal]
  decide

@[simp] theorem out_bracket (f : Fragment) :
    out (.bracket f) = .punctuator "[" :: (out f ++ [.punctuator "]"]) := by
  simp [out, enclose, terminal]
  decide

@[simp] theorem out_sequence (fs : List Fragment) : out (.sequence fs) = fs.flatMap out := by
  simp [out, List.map_flatMap]
  rfl

@[simp] theorem out_separated_nil : out (.separated []) = [] := rfl

@[simp] theorem out_separated_singleton (f : Fragment) : out (.separated [f]) = out f := by
  simp [out]

@[simp] theorem out_separated_cons (f g : Fragment) (fs : List Fragment) :
    out (.separated (f :: g :: fs)) = out f ++ .punctuator "," :: out (.separated (g :: fs)) := by
  simp [out, terminal]

/-- The terminals of the elements of an array. -/
def elementsOut (items : List (Option Fragment)) : List Terminal :=
  out (.separated (items.map orEmpty ++ if endsInHole items then [.empty] else []))

theorem elementsOut_cons (item next : Option Fragment) (items : List (Option Fragment)) :
    elementsOut (item :: next :: items) =
      out (orEmpty item) ++ .punctuator "," :: elementsOut (next :: items) := by
  have hlast : endsInHole (item :: next :: items) = endsInHole (next :: items) := by
    simp [endsInHole]
  simp [elementsOut, hlast]

theorem out_arrayElements (items : List (Option Fragment)) :
    out (arrayElements items none) =
      .punctuator "[" :: (elementsOut items ++ [.punctuator "]"]) := by
  simp [arrayElements, elementsOut]

theorem out_binary (isPrefixed : Bool) (l : Operand) (op : BinaryOperator) (r : Operand) :
    out (binary isPrefixed l op r) =
      out (leftOperand op isPrefixed l) ++ .ofText op.text :: out (rightOperand op r) := by
  by_cases h : op = .sequence
  · subst h
    have hcomma : Terminal.ofText BinaryOperator.sequence.text = .punctuator "," := by decide
    simp [binary, hcomma]
  · simp [binary, h]

/-! ### Expressions that read back -/

theorem precedence_code (spell : String → String) (e : Expression) :
    (e.code spell).precedence = e.precedence := by
  cases e <;> rfl

theorem le_primary (p : Precedence) : p ≤ .primary := by
  cases p <;> decide

/-- The parser makes of the code of `e` the expression `e`, at a level that is not below its
precedence. -/
structure ReadsBack (e : Expression) (q : Precedence) : Prop where
  within : e.precedence ≤ q
  /-- Calls, and only they, end at the level of calls. -/
  calls : q = .call → e.precedence = .call
  /-- An update with its operator in front reads as well as one with the operator behind. -/
  bare : .unary ≤ e.precedence → e.isPrefixed = false → .update ≤ q
  reads : ReadsAs q (out (e.code id).code) e

section

variable {e : Expression} {q : Precedence}

theorem ReadsBack.of_primary (h : ReadsAs .primary (out (e.code id).code) e) :
    ReadsBack e .primary :=
  ⟨le_primary _, Precedence.noConfusion, fun _ _ => by decide, h⟩

/-- Below unary expressions the precedence is the level. -/
theorem ReadsBack.of_weak (hq : e.precedence = q) (hweak : q < .unary)
    (h : ReadsAs q (out (e.code id).code) e) : ReadsBack e q := by
  subst hq
  exact ⟨Nat.le_refl _, id, fun hu => absurd hu (Nat.not_le_of_lt hweak), h⟩

/-- Where a precedence is demanded, the parser finds the expression at that level. -/
theorem ReadsBack.readsWithin (h : ReadsBack e q) (least : Precedence) :
    ∃ r, least ≤ r ∧ (r = .call → e.precedence = .call) ∧
      ReadsAs r (out ((e.code id).within least)) e := by
  unfold Operand.within
  rw [precedence_code]
  by_cases hlt : e.precedence < least
  · rw [if_pos hlt, out_paren]
    exact ⟨.primary, le_primary _, Precedence.noConfusion, h.reads.grouped⟩
  · rw [if_neg hlt]
    exact ⟨q, Nat.le_trans (Nat.le_of_not_lt hlt) h.within, h.calls, h.reads⟩

/-- A member access behind its object. -/
theorem ReadsBack.extend (h : ReadsBack e q) {e' : Expression} {Y : List Terminal}
    (hprec : e'.precedence = .ofMember e.precedence)
    (hout : out (e'.code id).code = out (memberObject (e.code id)) ++ Y)
    (hY : ∀ calls rest, tail calls e (Y ++ rest) = tail calls e' rest) :
    ∃ q', .call ≤ q' ∧ ReadsBack e' q' := by
  obtain ⟨r, hr, hcall, hread⟩ := h.readsWithin (.ofMember e.precedence)
  have hcall' : .call ≤ r := by
    refine Nat.le_trans ?_ hr
    unfold Precedence.ofMember
    split <;> decide
  have hread' : ReadsAs (.ofMember r) (out (e'.code id).code) e' := by
    rw [hout, memberObject, precedence_code]
    exact hread.extend hcall' hY
  -- an object that is read at the level of calls is a call
  by_cases hc : r = .call
  · have hprec' : e'.precedence = .call := by rw [hprec, hcall hc]; rfl
    rw [hc] at hread'
    exact ⟨.call, by decide, by rw [hprec']; decide, fun _ => hprec', fun _ _ => by decide, hread'⟩
  · have hmember : Precedence.ofMember r = .member := if_neg hc
    have hle : e'.precedence ≤ .member := by
      rw [hprec]
      unfold Precedence.ofMember
      split <;> decide
    rw [hmember] at hread'
    exact ⟨.member, by decide, hle, Precedence.noConfusion, fun _ _ => by decide, hread'⟩

end

/-! ### The shapes of expressions -/

/-- The parser makes of the code of arguments in parentheses the arguments. -/
def ArgumentsReadBack (items : Tree (.list .argument)) : Prop :=
  ∀ rest, arguments (out (.separated (items.code id)) ++ .punctuator ")" :: rest)
    = some (items, rest)

section

variable {e : Expression} {q : Precedence}

theorem ReadsBack.staticMember (h : ReadsBack e q) {property : String}
    (hname : isIdentifierName property) :
    ∃ q', .call ≤ q' ∧ ReadsBack (.staticMember (.ofCallee e) property) q' := by
  refine h.extend (Y := [.punctuator ".", .word property]) rfl ?_ ?_
  · show out (Generate.staticMember id (e.code id) property) = _
    have hdot : Terminal.ofText "." = .punctuator "." := by decide
    simp [Generate.staticMember, hdot, Terminal.ofText_of_isIdentifierName hname]
  · intro calls rest
    exact tail_dot calls e property rest

theorem ReadsBack.computedMember (h : ReadsBack e q) {i : Expression} {q' : Precedence}
    (hi : ReadsBack i q') :
    ∃ q', .call ≤ q' ∧ ReadsBack (.computedMember (.ofCallee e) i) q' := by
  refine h.extend
    (Y := .punctuator "[" :: (out (i.code id).code ++ [.punctuator "]"])) rfl ?_ ?_
  · show out (Generate.computedMember _ (e.code id) (i.code id).code) = _
    simp [Generate.computedMember]
  · intro calls rest
    simpa using tail_bracket calls e hi.reads rest

theorem ReadsBack.call (h : ReadsBack e q) {items : Tree (.list .argument)}
    (hitems : ArgumentsReadBack items) : ReadsBack (.call (.ofCallee e) items) .call := by
  obtain ⟨r, hr, -, hread⟩ := h.readsWithin .call
  refine ⟨Nat.le_refl _, fun _ => rfl, fun _ _ => by decide, ?_⟩
  have hout : out (Generate.call (e.code id) (items.code id)) =
      out ((e.code id).within .call) ++ grouped (out (.separated (items.code id))) := by
    simp [Generate.call, Generate.arguments]
  show ReadsAs .call (out (Generate.call (e.code id) (items.code id))) _
  rw [hout]
  refine hread.call hr fun rest => ?_
  rw [grouped, List.cons_append, List.append_assoc]
  exact tail_arguments e (hitems rest)

/-- The callee of a `new` that has no call in it at its top. -/
theorem ReadsBack.readsConstructCallee (h : ReadsBack e q) (bare : Bool) :
    ∃ r, (if bare then .construction else .member) ≤ r ∧ r ≠ .call ∧
      ReadsAs r (out (constructCallee (e.code id) bare)) e := by
  unfold constructCallee
  rw [precedence_code]
  by_cases hcall : e.precedence = .call
  · rw [if_pos hcall, out_paren]
    exact ⟨.primary, le_primary _, Precedence.noConfusion, h.reads.grouped⟩
  · rw [if_neg hcall]
    obtain ⟨r, hr, hcalls, hread⟩ := h.readsWithin (if bare then .construction else .member)
    exact ⟨r, hr, fun hc => hcall (hcalls hc), hread⟩

theorem ReadsBack.construct (h : ReadsBack e q) {items : Tree (.list .argument)}
    (hitems : ArgumentsReadBack items) : ∃ q', ReadsBack (.construct e items) q' := by
  have hnew : Terminal.ofText "new" = .word "new" := by decide
  cases items with
  | nil =>
    obtain ⟨r, hr, hne, hread⟩ := h.readsConstructCallee true
    have hout : out (Generate.construct (e.code id) []) =
        .word "new" :: out (constructCallee (e.code id) true) := by
      simp [Generate.construct, hnew]
    refine ⟨.construction, Nat.le_refl _, Precedence.noConfusion, fun _ _ => by decide, ?_⟩
    show ReadsAs .construction (out (Generate.construct (e.code id) [])) _
    rw [hout]
    exact hread.constructBare hr hne
  | cons a items =>
    obtain ⟨r, hr, hne, hread⟩ := h.readsConstructCallee false
    have hout : out (Generate.construct (e.code id) (a.code id :: items.code id)) =
        .word "new" :: (out (constructCallee (e.code id) false) ++
          .punctuator "(" ::
            (out (.separated (a.code id :: items.code id)) ++ [.punctuator ")"])) := by
      simp [Generate.construct, Generate.arguments, hnew, grouped]
    refine ⟨.primary, .of_primary ?_⟩
    show ReadsAs .primary (out (Generate.construct (e.code id) (a.code id :: items.code id))) _
    rw [hout]
    refine hread.construct hr fun rest => ?_
    rw [List.append_assoc]
    exact hitems rest

/-- An operator in front of its operand. -/
theorem ReadsBack.readsPrefixed (h : ReadsBack e q) {text : String} (op? : Option UnaryOperator)
    (ht : ∀ ts, prefixOperator? (.ofText text :: ts) = some (op?, ts))
    (hopens : ∀ t ∈ [")", "]", ",", "..."], Terminal.ofText text ≠ .punctuator t) :
    ReadsAs .unary (out (Generate.unary text (e.code id))) (prefixed op? e) := by
  obtain ⟨r, hr, -, hread⟩ := h.readsWithin .unary
  have hout : out (Generate.unary text (e.code id)) =
      .ofText text :: out ((e.code id).within .unary) := by
    simp [Generate.unary]
  rw [hout]
  exact hread.prefixed hr ht (opens_cons hopens _)

theorem ReadsBack.unary (h : ReadsBack e q) (op : UnaryOperator) :
    ReadsBack (.unary op e) .unary := by
  refine ⟨Nat.le_refl _, Precedence.noConfusion, fun _ hb => Bool.noConfusion hb, ?_⟩
  exact h.readsPrefixed (some op) (row?_cons_eq (lookup_prefixOperators op))
    (by cases op <;> decide)

theorem ReadsBack.await (h : ReadsBack e q) : ReadsBack (.await e) .unary := by
  refine ⟨Nat.le_refl _, Precedence.noConfusion, fun _ hb => Bool.noConfusion hb, ?_⟩
  have hawait : prefixOperators.lookup (.ofText "await") = some none := by decide
  exact h.readsPrefixed none (row?_cons_eq hawait) (by decide)

/-- The left operand of a power has no operator in front. -/
theorem ReadsBack.readsBase (h : ReadsBack e q) :
    ∃ r, .update ≤ r ∧ ReadsAs r (out (leftOperand .power e.isPrefixed (e.code id))) e := by
  have hpower : BinaryOperator.power.isRightAssociative := rfl
  unfold leftOperand
  rw [if_pos hpower, precedence_code]
  by_cases hparen : e.precedence ≤ BinaryOperator.power.precedence || e.isPrefixed
  · rw [if_pos hparen, out_paren]
    exact ⟨.primary, by decide, h.reads.grouped⟩
  · rw [if_neg hparen]
    simp only [Bool.or_eq_true, decide_eq_true_eq, not_or, Bool.not_eq_true] at hparen
    have hunary : .unary ≤ e.precedence := Nat.lt_of_not_le hparen.1
    exact ⟨q, h.bare hunary hparen.2, h.reads⟩

/-- The right operand of a left-associative operator is of a higher level. -/
theorem ReadsBack.readsRight (h : ReadsBack e q) {op : BinaryOperator} (hop : op ≠ .power) :
    ∃ r, op.precedence < r ∧ ReadsAs r (out (rightOperand op (e.code id))) e := by
  have hleft : op.isRightAssociative = false := by
    cases op with
    | power => exact absurd rfl hop
    | _ => rfl
  unfold rightOperand
  rw [hleft, if_neg Bool.false_ne_true, precedence_code]
  by_cases hparen : e.precedence ≤ op.precedence
  · rw [if_pos hparen, out_paren]
    exact ⟨.primary, by cases op <;> decide, h.reads.grouped⟩
  · rw [if_neg hparen]
    exact ⟨q, Nat.lt_of_lt_of_le (Nat.lt_of_not_le hparen) h.within, h.reads⟩

theorem isChain_precedence {op : BinaryOperator} (hop : op ≠ .power) : isChain op.precedence := by
  cases op with
  | power => exact absurd rfl hop
  | _ => rfl

theorem ReadsBack.binary (h : ReadsBack e q) (op : BinaryOperator) {e' : Expression}
    {q' : Precedence} (h' : ReadsBack e' q') :
    ReadsBack (.binary e op e') op.precedence := by
  refine .of_weak rfl (by cases op <;> decide) ?_
  show ReadsAs _ (out (Generate.binary e.isPrefixed (e.code id) op (e'.code id))) _
  rw [out_binary]
  by_cases hop : op = .power
  · subst hop
    obtain ⟨r, hr, hread⟩ := h.readsBase
    obtain ⟨r', hr', -, hread'⟩ := h'.readsWithin .exponential
    exact hread.power hr hr' hread'
  · obtain ⟨r, hr, -, hread⟩ := h.readsWithin op.precedence
    obtain ⟨r', hr', hread'⟩ := h'.readsRight hop
    have hleft : leftOperand op e.isPrefixed (e.code id) = (e.code id).within op.precedence := by
      cases op with
      | power => exact absurd rfl hop
      | _ => rfl
    rw [hleft]
    exact hread.binary op (isChain_precedence hop) hr hr' hread'

theorem ReadsBack.conditional (h : ReadsBack e q) {e' e'' : Expression} {q' q'' : Precedence}
    (h' : ReadsBack e' q') (h'' : ReadsBack e'' q'') :
    ReadsBack (.conditional e e' e'') .conditional := by
  obtain ⟨r, hr, -, hread⟩ := h.readsWithin .logicalOr
  obtain ⟨r', hr', -, hread'⟩ := h'.readsWithin .assignment
  obtain ⟨r'', hr'', -, hread''⟩ := h''.readsWithin .assignment
  refine .of_weak rfl (by decide) ?_
  show ReadsAs _ (out (Generate.conditional (e.code id) (e'.code id) (e''.code id))) _
  have hmark : Terminal.ofText "?" = .punctuator "?" := by decide
  have hcolon : Terminal.ofText ":" = .punctuator ":" := by decide
  have hout : out (Generate.conditional (e.code id) (e'.code id) (e''.code id)) =
      out ((e.code id).within .logicalOr) ++ .punctuator "?" ::
        (out ((e'.code id).within .assignment) ++ .punctuator ":" ::
          out ((e''.code id).within .assignment)) := by
    simp [Generate.conditional, Operand.single, hmark, hcolon]
  rw [hout]
  exact hread.conditional hr hr' hread' hr'' hread''

end

/-! ### Targets -/

/-- The parser makes of the code of a target the expression that the target looks like. -/
def TargetReadsBack (t : Tree .simpleTarget) : Prop :=
  ∃ e q, toTarget? e = some t ∧ .construction ≤ q ∧ ReadsAs q (out (t.code id)) e

section

variable {t : Tree .simpleTarget}

theorem TargetReadsBack.update (h : TargetReadsBack t) (before : Bool) (op : UpdateOperator) :
    ReadsBack (.update before op t) .update := by
  obtain ⟨e, q, htarget, hq, hread⟩ := h
  have hout : out (Generate.update before op (t.code id)) =
      if before then .ofText op.text :: out (t.code id)
      else out (t.code id) ++ [.ofText op.text] := by
    cases before <;> simp [Generate.update]
  have hle : (Tree.update before op t).precedence ≤ .update := by
    cases before with
    | true => show Precedence.unary ≤ .update; decide
    | false => exact Nat.le_refl _
  refine ⟨hle, Precedence.noConfusion, fun _ _ => Nat.le_refl _, ?_⟩
  show ReadsAs _ (out (Generate.update before op (t.code id))) _
  rw [hout]
  cases before with
  | true => exact hread.updateBefore hq op htarget
  | false => exact hread.updateAfter hq op htarget

/-- An assignment to the target. -/
theorem TargetReadsBack.readsAssigned (h : TargetReadsBack t) {v : Expression} {q : Precedence}
    (hv : ReadsBack v q) {text : String} (op? : Option AssignmentOperator)
    (ht : ∀ ts, assignmentOperator? (.ofText text :: ts) = some (op?, ts))
    (hstrength : strength (.ofText text) = 3) :
    ReadsAs .assignment (out (Generate.assignment (t.code id) text (v.code id)))
      (assigned op? t v) := by
  obtain ⟨e, r, htarget, hr, hread⟩ := h
  obtain ⟨r', hr', -, hread'⟩ := hv.readsWithin .assignment
  have hout : out (Generate.assignment (t.code id) text (v.code id)) =
      out (t.code id) ++ .ofText text :: out ((v.code id).within .assignment) := by
    simp [Generate.assignment, Operand.single]
  rw [hout]
  exact hread.assigned hr htarget ht hstrength hr' hread'

theorem TargetReadsBack.assign (h : TargetReadsBack t) {v : Expression} {q : Precedence}
    (hv : ReadsBack v q) : ReadsBack (.assign (.ofSimpleTarget t) v) .assignment := by
  refine .of_weak rfl (by decide) ?_
  have hequals : assignmentOperators.lookup (.ofText "=") = some none := by decide
  exact h.readsAssigned hv none (row?_cons_eq hequals) (by decide)

theorem TargetReadsBack.compoundAssign (h : TargetReadsBack t) (op : AssignmentOperator)
    {v : Expression} {q : Precedence} (hv : ReadsBack v q) :
    ReadsBack (.compoundAssign t op v) .assignment := by
  refine .of_weak rfl (by decide) ?_
  exact h.readsAssigned hv (some op) (row?_cons_eq (lookup_assignmentOperators op))
    (strength_assignment op)

end

/-! ### Lists -/

/-- The parser makes of the code of elements in brackets the elements. -/
def ElementsReadBack (es : Tree (.list (.option .argument))) : Prop :=
  ∀ rest, elements (elementsOut (es.code id) ++ .punctuator "]" :: rest) = some (es, rest)

section

variable {a : Tree .argument} {items : Tree (.list .argument)}
  {es : Tree (.list (.option .argument))}

theorem ArgumentsReadBack.cons (ha : ReadsArgument (out (a.code id)) a)
    (h : ArgumentsReadBack items) : ArgumentsReadBack (.cons a items) := by
  intro rest
  cases items with
  | nil =>
    show arguments (out (.separated [a.code id]) ++ _) = _
    rw [out_separated_singleton]
    exact ha.arguments_last rest
  | cons b items =>
    show arguments (out (.separated (a.code id :: b.code id :: items.code id)) ++ _) = _
    rw [out_separated_cons, List.append_assoc]
    exact ha.arguments_cons (h rest)

theorem ElementsReadBack.hole (h : ElementsReadBack es) : ElementsReadBack (.cons .absent es) := by
  intro rest
  cases es with
  | nil => exact elements_hole (elements_nil rest)
  | cons b es =>
    show elements (elementsOut (none :: b.code id :: es.code id) ++ _) = _
    rw [elementsOut_cons, List.append_assoc]
    exact elements_hole (h rest)

theorem ElementsReadBack.element (ha : ReadsArgument (out (a.code id)) a)
    (h : ElementsReadBack es) : ElementsReadBack (.cons (.present a) es) := by
  intro rest
  cases es with
  | nil =>
    have hout : elementsOut [some (a.code id)] = out (a.code id) := by
      simp [elementsOut, endsInHole, orEmpty]
    show elements (elementsOut [some (a.code id)] ++ _) = _
    rw [hout]
    exact ha.elements_last rest
  | cons b es =>
    show elements (elementsOut (some (a.code id) :: b.code id :: es.code id) ++ _) = _
    rw [elementsOut_cons, List.append_assoc]
    exact ha.elements_cons (h rest)

end

/-! ### The induction -/

/-- What the parser makes of the code of a tree, for the categories that plain trees have. -/
def RoundTrips : {c : Category} → Tree c → Prop
  | .expression, e => ∃ q, ReadsBack e q
  | .simpleTarget, t => TargetReadsBack t
  | .argument, a => ReadsArgument (out (a.code id)) a
  | .list .argument, items => ArgumentsReadBack items
  | .list (.option .argument), es => ElementsReadBack es
  | _, _ => True

theorem Plain.roundTrips {c : Category} {t : Tree c} (h : Plain t) : RoundTrips t := by
  induction h with
  | @identifier name hname =>
    refine ⟨.primary, .of_primary ?_⟩
    show ReadsAs .primary [.ofText name] _
    rw [Terminal.ofText_of_isIdentifier hname]
    exact .identifier hname
  | this => exact ⟨.primary, .of_primary (.keyword (by decide) (by decide) (by decide) rfl)⟩
  | null => exact ⟨.primary, .of_primary (.keyword (by decide) (by decide) (by decide) rfl)⟩
  | boolean value =>
    cases value <;>
    exact ⟨.primary, .of_primary (.keyword (by decide) (by decide) (by decide) rfl)⟩
  | @number v _ _ => exact ⟨.primary, .of_primary (.number v)⟩
  | string value =>
    refine ⟨.primary, .of_primary ?_⟩
    show ReadsAs .primary [.ofText (quote value)] _
    rw [Terminal.ofText_quote]
    exact .string value
  | @array es _ ih =>
    refine ⟨.primary, .of_primary ?_⟩
    show ReadsAs .primary (out (arrayElements (es.code id) none)) _
    rw [out_arrayElements]
    refine .array fun rest => ?_
    rw [List.append_assoc]
    exact ih rest
  | unary op _ ih =>
    obtain ⟨q, h⟩ := ih
    exact ⟨_, h.unary op⟩
  | await _ ih =>
    obtain ⟨q, h⟩ := ih
    exact ⟨_, h.await⟩
  | update before op _ ih => exact ⟨_, ih.update before op⟩
  | binary op _ _ ihl ihr =>
    obtain ⟨q, hl⟩ := ihl
    obtain ⟨q', hr⟩ := ihr
    exact ⟨_, hl.binary op hr⟩
  | conditional _ _ _ iht ihs iha =>
    obtain ⟨q, ht⟩ := iht
    obtain ⟨q', hs⟩ := ihs
    obtain ⟨q'', ha⟩ := iha
    exact ⟨_, ht.conditional hs ha⟩
  | assign _ _ iht ihv =>
    obtain ⟨q, hv⟩ := ihv
    exact ⟨_, iht.assign hv⟩
  | compoundAssign op _ _ iht ihv =>
    obtain ⟨q, hv⟩ := ihv
    exact ⟨_, iht.compoundAssign op hv⟩
  | staticMember _ hname ih =>
    obtain ⟨q, h⟩ := ih
    obtain ⟨q', -, hmember⟩ := h.staticMember hname
    exact ⟨q', hmember⟩
  | computedMember _ _ ihe ihi =>
    obtain ⟨q, he⟩ := ihe
    obtain ⟨q', hi⟩ := ihi
    obtain ⟨r, -, hmember⟩ := he.computedMember hi
    exact ⟨r, hmember⟩
  | call _ _ ihf ihitems =>
    obtain ⟨q, hf⟩ := ihf
    exact ⟨_, hf.call ihitems⟩
  | construct _ _ ihf ihitems =>
    obtain ⟨q, hf⟩ := ihf
    exact hf.construct ihitems
  | @targetName name hname =>
    refine ⟨.ofIdentifier (.identifier name), .primary, rfl, by decide, ?_⟩
    show ReadsAs .primary [.ofText name] _
    rw [Terminal.ofText_of_isIdentifier hname]
    exact .identifier hname
  | staticMemberTarget _ hname ih =>
    obtain ⟨q, h⟩ := ih
    obtain ⟨q', hq', hmember⟩ := h.staticMember hname
    exact ⟨_, q', rfl, Nat.le_trans (by decide) hq', hmember.reads⟩
  | computedMemberTarget _ _ ihe ihi =>
    obtain ⟨q, he⟩ := ihe
    obtain ⟨q', hi⟩ := ihi
    obtain ⟨r, hr, hmember⟩ := he.computedMember hi
    exact ⟨_, r, rfl, Nat.le_trans (by decide) hr, hmember.reads⟩
  | ofArgument _ ih =>
    obtain ⟨q, h⟩ := ih
    obtain ⟨r, hr, -, hread⟩ := h.readsWithin .assignment
    exact hread.ofArgument hr
  | @spread e _ ih =>
    obtain ⟨q, h⟩ := ih
    obtain ⟨r, hr, -, hread⟩ := h.readsWithin .assignment
    have hout : out (rest (e.code id).single) =
        .punctuator "..." :: out ((e.code id).within .assignment) := by
      have hdots : Terminal.ofText "..." = .punctuator "..." := by decide
      simp [Generate.rest, Operand.single, hdots]
    show ReadsArgument (out (rest (e.code id).single)) _
    rw [hout]
    exact hread.spread hr
  | noArguments => exact arguments_nil
  | moreArguments _ _ iha ih => exact ArgumentsReadBack.cons iha ih
  | noElements => exact elements_nil
  | hole _ ih => exact ElementsReadBack.hole ih
  | element _ _ iha ih => exact ElementsReadBack.element iha ih

/-! ### Solid code

The terminals of a fragment are those of its tokens, which leave empty pieces out.  The code of a
plain tree has no such pieces. -/

/-- Every piece of the fragment is a token. -/
def Solid (f : Fragment) : Prop :=
  ∀ p ∈ f.pieces false, p.isSolid

theorem Solid.terminals_eq {f : Fragment} (h : Solid f) : terminals f = out f := by
  rw [terminals, tokens_eq_self h, out]

@[simp] theorem solid_withMarks (m : Marks) (f : Fragment) : Solid (f.withMarks m) ↔ Solid f := by
  simp [Solid]

@[simp] theorem solid_empty : Solid .empty := by
  simp [Solid]

@[simp] theorem solid_token (text : String) : Solid (.token text) ↔ text ≠ "" := by
  simp [Solid, Piece.isSolid, Piece.isEmpty]

@[simp] theorem solid_operator (text : String) : Solid (.operator text) ↔ text ≠ "" := by
  simp [Solid, Piece.isSolid, Piece.isEmpty]

@[simp] theorem solid_number (v : Double) : Solid (.number v) := by
  simp [Solid, Piece.isSolid, Piece.isEmpty]

@[simp] theorem solid_paren (f : Fragment) : Solid (.paren f) ↔ Solid f := by
  simp [Solid, enclose, or_imp, forall_and, Piece.isSolid, Piece.isEmpty]

@[simp] theorem solid_bracket (f : Fragment) : Solid (.bracket f) ↔ Solid f := by
  simp [Solid, enclose, or_imp, forall_and, Piece.isSolid, Piece.isEmpty]

@[simp] theorem solid_sequence (fs : List Fragment) :
    Solid (.sequence fs) ↔ ∀ f ∈ fs, Solid f := by
  simp only [Solid, Fragment.pieces_sequence, List.mem_flatMap]
  exact ⟨fun h f hf p hp => h p ⟨f, hf, hp⟩, fun h p ⟨f, hf, hp⟩ => h f hf p hp⟩

@[simp] theorem solid_separated (fs : List Fragment) :
    Solid (.separated fs) ↔ ∀ f ∈ fs, Solid f := by
  have hcomma : Piece.comma.isSolid := rfl
  cases fs with
  | nil => simp [Solid]
  | cons f fs =>
    simp only [Solid, Fragment.pieces_separated_cons, List.mem_append, List.mem_flatMap,
      List.mem_cons, or_imp, forall_and, forall_eq]
    refine and_congr_right fun _ => ⟨fun h g hg p hp => h p ⟨g, hg, .inr hp⟩, ?_⟩
    rintro h p ⟨g, hg, rfl | hp⟩
    · exact hcomma
    · exact h g hg p hp

@[simp] theorem solid_within (least : Precedence) (o : Operand) :
    Solid (o.within least) ↔ Solid o.code := by
  unfold Operand.within
  split <;> simp

theorem ne_empty_of_isIdentifierName {name : String} (h : isIdentifierName name) : name ≠ "" := by
  rintro rfl
  exact absurd h (by decide)

/-- The code of the tree is solid, for the categories that plain trees have. -/
def SolidCode : {c : Category} → Tree c → Prop
  | .expression, e => Solid (e.code id).code
  | .simpleTarget, t => Solid (t.code id)
  | .argument, a => Solid (a.code id)
  | .list .argument, items => ∀ f ∈ items.code id, Solid f
  | .list (.option .argument), es => ∀ f? ∈ es.code id, Solid (orEmpty f?)
  | _, _ => True

theorem solid_staticMember {o : Operand} {property : String} (h : Solid o.code)
    (hname : isIdentifierName property) : Solid (Generate.staticMember id o property) := by
  simp [Generate.staticMember, memberObject, h, ne_empty_of_isIdentifierName hname]

theorem solid_computedMember {o : Operand} {f : Fragment} (h : Solid o.code) (hf : Solid f)
    (isLet : Bool) : Solid (Generate.computedMember isLet o f) := by
  simp [Generate.computedMember, memberObject, h, hf]

theorem solid_arrayElements {items : List (Option Fragment)}
    (h : ∀ f? ∈ items, Solid (orEmpty f?)) : Solid (arrayElements items none) := by
  simp only [arrayElements, solid_bracket, solid_separated, List.mem_append, List.mem_map]
  rintro f (⟨f?, hf, rfl⟩ | hf)
  · exact h f? hf
  · split at hf
    · obtain rfl := List.mem_singleton.mp hf
      exact solid_empty
    · cases hf

theorem solid_binary {l r : Operand} (hl : Solid l.code) (hr : Solid r.code) (isPrefixed : Bool)
    (op : BinaryOperator) : Solid (Generate.binary isPrefixed l op r) := by
  have hop : op.text ≠ "" := by cases op <;> decide
  have hleft : Solid (leftOperand op isPrefixed l) := by
    unfold leftOperand
    split
    · split <;> simpa using hl
    · simpa using hl
  have hright : Solid (rightOperand op r) := by
    unfold rightOperand
    split
    · simpa using hr
    · split <;> simpa using hr
  unfold Generate.binary
  split <;> simp [hleft, hright, hop]

theorem solid_construct {f : Operand} {items : List Fragment} (hf : Solid f.code)
    (h : ∀ item ∈ items, Solid item) : Solid (Generate.construct f items) := by
  have hcallee : ∀ bare, Solid (constructCallee f bare) := by
    intro bare
    unfold constructCallee
    split <;> simpa using hf
  have hitems : Solid (if items.isEmpty then .empty else Generate.arguments items) := by
    split
    · exact solid_empty
    · simpa [Generate.arguments] using h
  rw [Generate.construct, solid_sequence]
  simp only [List.forall_mem_cons, List.not_mem_nil, false_implies, implies_true, and_true]
  exact ⟨by simp, hcallee _, hitems⟩

theorem Plain.solidCode {c : Category} {t : Tree c} (h : Plain t) : SolidCode t := by
  induction h with
  | @identifier name hname | @targetName name hname =>
    have hname' : isIdentifierName name := by
      simp only [isIdentifier, Bool.and_eq_true] at hname
      exact hname.1
    show Solid (Generate.name id name)
    simp [Generate.name, ne_empty_of_isIdentifierName hname']
  | this => exact (solid_token _).mpr (by decide)
  | null => exact (solid_token _).mpr (by decide)
  | boolean value => cases value <;> exact (solid_token _).mpr (by decide)
  | number => exact solid_number _
  | string value =>
    show Solid (.token (quote value))
    simp [quote, quoteWith, quoteChars]
  | array _ ih => exact solid_arrayElements ih
  | @unary op e _ ih =>
    show Solid (Generate.unary op.text (e.code id))
    have hop : op.text ≠ "" := by cases op <;> decide
    simpa [Generate.unary, hop, SolidCode] using ih
  | @await e _ ih =>
    show Solid (Generate.unary "await" (e.code id))
    simpa [Generate.unary, SolidCode] using ih
  | @update before op t _ ih =>
    show Solid (Generate.update before op (t.code id))
    have hop : op.text ≠ "" := by cases op <;> decide
    cases before <;> simpa [Generate.update, hop, SolidCode] using ih
  | binary op _ _ ihl ihr => exact solid_binary ihl ihr _ op
  | @conditional t s a _ _ _ iht ihs iha =>
    show Solid (Generate.conditional (t.code id) (s.code id) (a.code id))
    simpa [Generate.conditional, Operand.single] using ⟨iht, ihs, iha⟩
  | @assign t v _ _ iht ihv =>
    show Solid (Generate.assignment (t.code id) "=" (v.code id))
    simpa [Generate.assignment, Operand.single] using ⟨iht, ihv⟩
  | @compoundAssign t op v _ _ iht ihv =>
    show Solid (Generate.assignment (t.code id) op.text (v.code id))
    have hop : op.text ≠ "" := by cases op <;> decide
    simpa [Generate.assignment, Operand.single, hop] using ⟨iht, ihv⟩
  | staticMember _ hname ih | staticMemberTarget _ hname ih => exact solid_staticMember ih hname
  | computedMember _ _ ihe ihi | computedMemberTarget _ _ ihe ihi =>
    exact solid_computedMember ihe ihi _
  | @call f items _ _ ihf ihitems =>
    show Solid (Generate.call (f.code id) (items.code id))
    simpa [Generate.call, Generate.arguments] using ⟨ihf, ihitems⟩
  | construct _ _ ihf ihitems => exact solid_construct ihf ihitems
  | ofArgument _ ih => exact (solid_within _ _).mpr ih
  | @spread e _ ih =>
    show Solid (rest (e.code id).single)
    simpa [Generate.rest, Operand.single, SolidCode] using ih
  | noArguments => exact List.forall_mem_nil _
  | moreArguments _ _ iha ih => exact List.forall_mem_cons.mpr ⟨iha, ih⟩
  | noElements => exact List.forall_mem_nil _
  | hole _ ih => exact List.forall_mem_cons.mpr ⟨solid_empty, ih⟩
  | element _ _ iha ih => exact List.forall_mem_cons.mpr ⟨iha, ih⟩

/-! ### Expressions read back -/

theorem spell_eq_id {o : Options} (h : o.webSafe = false) : o.spell = id := by
  funext text
  simp [Options.spell, h]

/-- What writing a plain expression hands to the stream are its pieces, and the parser makes of
the terminals of these pieces exactly the expression. -/
theorem parseExpression_terminals {o : Options} (ho : o.webSafe = false) {e : Expression}
    (he : Plain e) :
    (∀ s : Stream, s.IsCompact →
      (Expression.fragment o e).emit false s = s.putAll ((Expression.fragment o e).pieces false)) ∧
    parseExpression (terminals (Expression.fragment o e)) = some e := by
  refine ⟨fun s hs => Fragment.emit_eq_putAll _ false hs, ?_⟩
  have hsolid : Solid (e.code id).code := he.solidCode
  obtain ⟨q, h⟩ : ∃ q, ReadsBack e q := he.roundTrips
  have hread : level .sequence (out (e.code id).code) = some (e, []) := by
    simpa using h.reads.reads .sequence (Nat.zero_le _) (by decide) [] (ends_nil _)
  rw [Expression.fragment, spell_eq_id ho, hsolid.terminals_eq, parseExpression, hread]

/-- The assignment `x = (-a) ** new (f())([, 1, ...y].length)` reads back. -/
theorem parseExpression_terminals_power :
    let a : Expression := .ofIdentifier (.identifier "a")
    let f : Expression := .ofIdentifier (.identifier "f")
    let y : Expression := .ofIdentifier (.identifier "y")
    let one : Expression := .number (.ofBits 0x3FF0000000000000)
    let list : Expression :=
      .array (.cons .absent
        (.cons (.present (.ofArgument one)) (.cons (.present (.spread y)) .nil)))
    let made : Expression :=
      .construct (.call (.ofCallee f) .nil)
        (.cons (.ofArgument (.staticMember (.ofCallee list) "length")) .nil)
    let e : Expression :=
      .assign (.ofSimpleTarget (.ofTargetName (.targetName "x")))
        (.binary (.unary .minus a) .power made)
    Plain e ∧ parseExpression (terminals (Expression.fragment {} e)) = some e := by
  intro a f y one list made e
  have ha : Plain a := .identifier (by decide)
  have hf : Plain f := .identifier (by decide)
  have hy : Plain y := .identifier (by decide)
  have hone : Plain one := .number (by decide) (by decide)
  have hlist : Plain list :=
    .array (.hole (.element (.ofArgument hone) (.element (.spread hy) .noElements)))
  have hmade : Plain made :=
    .construct (.call hf .noArguments)
      (.moreArguments (.ofArgument (.staticMember hlist (by decide))) .noArguments)
  have he : Plain e := .assign (.targetName (by decide)) (.binary .power (.unary .minus ha) hmade)
  exact ⟨he, (parseExpression_terminals rfl he).2⟩

end EcmaPrinter.Grammar
