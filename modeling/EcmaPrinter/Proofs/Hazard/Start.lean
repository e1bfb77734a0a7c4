import EcmaPrinter.Proofs.Fragment.Events
import EcmaPrinter.Proofs.Hazard.Opening
import EcmaPrinter.Proofs.Tree.Inside
import EcmaPrinter.Render

/-!
No expression is taken for something else because of how it starts.

There are places where an expression may not start in every way: a statement that starts with a
brace is a block, and an arrow body is one too; `export default function` is a declaration; a loop
that starts with `let [` declares a pattern, and one that starts with `let` declares a name.  The
marks tell where this would happen, and the expression goes into parentheses there.
-/

namespace EcmaPrinter

open EcmaPrinter.Generate
open Fragment

/-- The pieces start with something that makes a statement other than an expression. -/
def OpensStatement (ps : List Piece) : Prop :=
  Opens ["\x7b"] ps ∨ OpensFunctionOrClass ps ∨ Opens ["let", "["] ps

instance (ps : List Piece) : Decidable (OpensStatement ps) :=
  inferInstanceAs (Decidable (_ ∨ _ ∨ _))

/-- The second pieces are the first, or the first in parentheses. -/
def Grouped (ps qs : List Piece) : Prop :=
  qs = ps ∨ qs = enclose "(" ")" ps

/-! ### The places -/

section

variable {f : Fragment} {e : Operand} {lone : Bool}

theorem grouped_paren_if (b : Bool) (f : Fragment) :
    Grouped (f.pieces false) ((if b then paren f else f).pieces false) := by
  cases b
  · exact .inl rfl
  · exact .inr rfl

/-- Parentheses have no marks, so an operand in parentheses gets no second pair. -/
theorem grouped_single {mark : Marks → Bool} (hmark : mark {} = false) :
    Grouped (e.code.pieces false)
      ((if mark e.single.marks then paren e.single else e.single).pieces false) := by
  unfold Operand.single Operand.within
  split
  · have hparen : mark (paren e.code).marks = false := hmark
    rw [hparen]
    exact .inr rfl
  · exact grouped_paren_if _ _

theorem not_opens_of_first {p : Piece} (hp : p ∉ openers) (ps : List Piece) :
    ¬ OpensStatement (p :: ps) := by
  obtain ⟨hcurly, hfunction, hclass, hasync, hlet⟩ :
      p ≠ .token "\x7b" ∧ p ≠ .token "function" ∧ p ≠ .token "class" ∧ p ≠ .token "async" ∧
        p ≠ .token "let" := by
    simpa [openers] using hp
  simp [OpensStatement, OpensFunctionOrClass, *]

theorem not_opens_paren (ps : List Piece) : ¬ OpensStatement (enclose "(" ")" ps) :=
  not_opens_of_first (by decide) _

/-- An expression statement whose start would be misread is in parentheses. -/
theorem not_opens_hazardousStart (h : f.Leads lone) :
    ¬ OpensStatement ((if isHazardousStart f.marks then paren f else f).pieces false) := by
  split
  · exact not_opens_paren _
  · next hsafe =>
    obtain ⟨⟨hcurly, hlet⟩, hfunction⟩ : (f.marks.startsWithCurly = false ∧
        f.marks.startsWithLetBracket = false) ∧ f.marks.startsWithFunctionOrClass = false := by
      simpa [isHazardousStart] using hsafe
    rintro (hopens | hopens | hopens)
    · rw [h.curly.mpr hopens] at hcurly
      cases hcurly
    · rw [h.functionOrClass.mpr hopens] at hfunction
      cases hfunction
    · rw [h.letBracket.mpr hopens] at hlet
      cases hlet

theorem not_opens_expressionBody (h : e.code.Leads lone) :
    ¬ Opens ["\x7b"] ((expressionBody e).pieces false) := by
  obtain ⟨b, hsingle⟩ := leads_within h .assignment
  unfold expressionBody
  simp only
  split
  · simp [enclose]
  · next hcurly => exact fun hopens => hcurly (hsingle.curly.mpr hopens)

/-- The body of a default export that is an expression. -/
def defaultBody (e : Operand) : Fragment :=
  if e.single.marks.startsWithFunctionOrClass then paren e.single else e.single

theorem defaultExpression_eq (e : Operand) :
    defaultExpression e = [defaultBody e, statementEnd] := rfl

theorem not_opens_defaultBody (h : e.code.Leads lone) :
    ¬ OpensFunctionOrClass ((defaultBody e).pieces false) := by
  obtain ⟨b, hsingle⟩ := leads_within h .assignment
  unfold defaultBody
  split
  · simp [enclose, OpensFunctionOrClass]
  · next hfunction => exact fun hopens => hfunction (hsingle.functionOrClass.mpr hopens)

theorem pieces_loopStart (hsteady : f.Steady) (noIn : Bool) :
    (loopStart f).pieces noIn =
      if f.marks.startsWithLetBracket || f.marks.containsIn then enclose "(" ")" (f.pieces false)
      else f.pieces false := by
  show (guardIn (if f.marks.startsWithLetBracket then paren f else f)).pieces true = _
  cases f.marks.startsWithLetBracket
  · show (guardIn f).pieces true = _
    rw [pieces_guardIn hsteady, Bool.and_true, Bool.false_or]
  · rfl

/-- The start of a loop is not read as the declaration of a pattern. -/
theorem not_opens_loopStart (h : f.Leads lone) (hsteady : f.Steady) :
    ¬ Opens ["let", "["] ((loopStart f).pieces false) := by
  rw [pieces_loopStart hsteady]
  split
  · simp [enclose]
  · next hmarks =>
    simp only [Bool.or_eq_true, not_or] at hmarks
    exact fun hopens => hmarks.1 (h.letBracket.mpr hopens)

theorem not_opens_loopTarget (h : f.LeadsLet) : ¬ Opens ["let"] ((loopTarget f).pieces false) := by
  unfold loopTarget
  split
  · simp [enclose]
  · next hlet => exact fun hopens => hlet (h hopens)

end

/-! ### The pieces in each place -/

/-- The pieces that a program hands to the stream. -/
def Program.pieces (o : Options) (p : Program) : List Piece :=
  (Program.fragment o p).pieces false

/-- The pieces of an expression by itself. -/
def Expression.pieces (o : Options) (e : Expression) : List Piece :=
  (Expression.fragment o e).pieces false

/-- The pieces of an expression as a statement, without the end.  A string literal has two forms:
the first statement of a body is kept from being read as a directive. -/
def Expression.statementForms (o : Options) (e : Expression) : List (List Piece) :=
  if e.isString then [e.pieces o, enclose "(" ")" (e.pieces o)]
  else
    let code := Expression.fragment o e
    [(if isHazardousStart code.marks then paren code else code).pieces false]

/-- The pieces of the expression that an arrow returns. -/
def Expression.bodyPieces (o : Options) (e : Expression) : List Piece :=
  (expressionBody (e.code o.spell)).pieces false

/-- The pieces of an expression as a default export, without the end. -/
def Expression.defaultPieces (o : Options) (e : Expression) : List Piece :=
  (defaultBody (e.code o.spell)).pieces false

/-- The pieces of an expression that a loop starts with. -/
def Expression.startPieces (o : Options) (e : Expression) : List Piece :=
  (loopStart (Expression.fragment o e)).pieces false

/-- The pieces of an assignment target. -/
def Tree.targetPieces (o : Options) (t : Tree .target) : List Piece :=
  (t.code o.spell).pieces false

/-- The pieces of an assignment target of a loop. -/
def Tree.loopTargetPieces (o : Options) (t : Tree .target) : List Piece :=
  (loopTarget (t.code o.spell)).pieces false

section

variable {o : Options} {p : Program} {e : Expression}

theorem grouped_statementForms : ∀ body ∈ e.statementForms o, Grouped (e.pieces o) body := by
  unfold Expression.statementForms
  split
  · exact List.forall_mem_cons.mpr ⟨.inl rfl, List.forall_mem_singleton.mpr (.inr rfl)⟩
  · exact List.forall_mem_singleton.mpr (grouped_paren_if _ _)

theorem Expression.leads (o : Options) (h : e.IsNamed) :
    (Expression.fragment o e).Leads (Tree.ofCallee e).isLet :=
  (Tree.leads o e h).leads

theorem Expression.steady (o : Options) (e : Expression) : (Expression.fragment o e).Steady :=
  Tree.steady o.spell e

theorem not_opens_statementForms (h : e.IsNamed) :
    ∀ body ∈ e.statementForms o, ¬ OpensStatement body := by
  unfold Expression.statementForms
  split
  · next hs =>
    cases e with
    | string value =>
      have hfirst := spell_quote_not_mem_openers o value
      exact List.forall_mem_cons.mpr ⟨not_opens_of_first hfirst _,
        List.forall_mem_singleton.mpr (not_opens_paren _)⟩
    | _ => cases hs
  · exact List.forall_mem_singleton.mpr (not_opens_hazardousStart (e.leads o h))

/-! ### Where the pieces stand in the program -/

theorem statementForms_occur (h : ⟨_, .expressionStatement e⟩ ∈ p.nodes) :
    ∃ body ∈ e.statementForms o, body ++ [.statementEnd] <:+: p.pieces o := by
  have hwrites : (Program.fragment o p).Writes
      (Generate.expressionStatement e.isString (Expression.fragment o e)) :=
    Program.writes_nodes o.spell p _ h
  have hsteady := e.steady o
  unfold Expression.statementForms
  unfold Generate.expressionStatement at hwrites
  split
  · next hs =>
    rw [if_pos hs] at hwrites
    rcases hwrites with hwrites | hwrites
    · obtain ⟨noIn, hoccurs⟩ := hwrites.occurs false
      rw [steady_stringStatement hsteady] at hoccurs
      exact ⟨_, List.mem_cons_self, hoccurs⟩
    · obtain ⟨noIn, hoccurs⟩ := hwrites.occurs false
      exact ⟨_, List.mem_cons_of_mem _ List.mem_cons_self, hoccurs⟩
  · next hs =>
    rw [if_neg hs] at hwrites
    obtain ⟨noIn, hoccurs⟩ := hwrites.occurs rfl false
    refine ⟨_, List.mem_cons_self, ?_⟩
    simpa [Program.pieces, steady_paren_if _ hsteady noIn] using hoccurs

theorem bodyPieces_occur {isAsync : Bool} {ps : Tree .parameters}
    (h : ⟨_, .arrow isAsync ps (.ofExpressionBody e)⟩ ∈ p.nodes) :
    .operator "=>" :: e.bodyPieces o <:+: p.pieces o := by
  have hwrites : (Program.fragment o p).Writes (Generate.arrow isAsync ps.isSingleName
      (ps.code o.spell) (expressionBody (e.code o.spell))) := Program.writes_nodes o.spell p _ h
  obtain ⟨noIn, hoccurs⟩ := hwrites.occurs rfl false
  have hsteady : (expressionBody (e.code o.spell)).Steady := steady_expressionBody (e.steady o)
  refine .trans ⟨(keywordIf isAsync "async").pieces noIn ++
    (if ps.isSingleName then ps.code o.spell else paren (ps.code o.spell)).pieces noIn, [], ?_⟩
    hoccurs
  simp [Generate.arrow, Expression.bodyPieces, hsteady noIn]

theorem defaultPieces_occur (h : ⟨_, .exportDefault (.ofDefaultExpression e)⟩ ∈ p.nodes) :
    .token "export" :: .token "default" :: (e.defaultPieces o ++ [.statementEnd]) <:+:
      p.pieces o := by
  have hwrites : (Program.fragment o p).Writes
      (Generate.exportDefault (defaultExpression (e.code o.spell))) :=
    Program.writes_nodes o.spell p _ h
  obtain ⟨noIn, hoccurs⟩ := hwrites.occurs rfl false
  have hsteady : (defaultBody (e.code o.spell)).Steady :=
    steady_paren_if _ (steady_single (e.steady o))
  simpa [Program.pieces, Generate.exportDefault, defaultExpression_eq, Expression.defaultPieces,
    hsteady noIn] using hoccurs

/-- The head of a loop stands behind its keyword and a parenthesis. -/
theorem headed_occurs {keyword : String} {head body : Fragment} {ps first rest : List Piece}
    {q : Piece} (hhead : head.pieces false = first ++ q :: rest)
    (h : (headed keyword head body).Occurs ps) :
    .token keyword :: .token "(" :: (first ++ [q]) <:+: ps := by
  obtain ⟨noIn, hoccurs⟩ := h
  refine .trans ⟨[], rest ++ .token ")" :: body.pieces noIn, ?_⟩ hoccurs
  simp [headed, endingIn, enclose, hhead]

theorem startPieces_occur {t u : Tree (.option .expression)} {b : Tree .statement}
    (h : ⟨_, .forLoop (.present (.ofStartExpression e)) t u b⟩ ∈ p.nodes) :
    .token "for" :: .token "(" :: (e.startPieces o ++ [.semicolon]) <:+: p.pieces o := by
  have hwrites : (Program.fragment o p).Writes (Generate.forLoop (some (Expression.fragment o e))
      ((t.code o.spell).map (·.code)) ((u.code o.spell).map (·.code)) (b.code o.spell)) :=
    Program.writes_nodes o.spell p _ h
  exact headed_occurs (pieces_sequence _ _) (hwrites.occurs rfl false)

theorem forInTarget_occurs {t : Tree .target} {b : Tree .statement}
    (h : ⟨_, .forIn (.ofLoopTarget t) e b⟩ ∈ p.nodes) :
    .token "for" :: .token "(" :: (t.loopTargetPieces o ++ [.token "in"]) <:+: p.pieces o := by
  have hwrites : (Program.fragment o p).Writes
      (Generate.forIn false (t.code o.spell) (Expression.fragment o e) (b.code o.spell)) :=
    Program.writes_nodes o.spell p _ h
  exact headed_occurs (pieces_sequence _ _) (hwrites.occurs rfl false)

theorem forOfTarget_occurs {t : Tree .target} {b : Tree .statement}
    (h : ⟨_, .forOf (.ofLoopTarget t) e b⟩ ∈ p.nodes) :
    .token "for" :: .token "(" :: (t.loopTargetPieces o ++ [.token "of"]) <:+: p.pieces o := by
  have hwrites : (Program.fragment o p).Writes
      (Generate.forOf false (t.code o.spell) (e.code o.spell) (b.code o.spell)) :=
    Program.writes_nodes o.spell p _ h
  exact headed_occurs (pieces_sequence _ _) (hwrites.occurs rfl false)

end

/-! ### Programs -/

/-- The marks of an expression say how it starts. -/
structure Expression.MarksStart (o : Options) (e : Expression) : Prop where
  curly : (Expression.fragment o e).marks.startsWithCurly ↔ Opens ["\x7b"] (e.pieces o)
  functionOrClass :
    (Expression.fragment o e).marks.startsWithFunctionOrClass ↔ OpensFunctionOrClass (e.pieces o)
  letBracket :
    (Expression.fragment o e).marks.startsWithLetBracket ↔ Opens ["let", "["] (e.pieces o)

/-- In each place of a program that forbids a start, the pieces that stand there are those of the
expression or target, perhaps in parentheses, and do not start in that way. -/
structure Program.StartsSafely (o : Options) (p : Program) : Prop where
  statement : ∀ e : Expression, ⟨_, .expressionStatement e⟩ ∈ p.nodes →
    (∃ body ∈ e.statementForms o, body ++ [.statementEnd] <:+: p.pieces o) ∧
      ∀ body ∈ e.statementForms o, Grouped (e.pieces o) body ∧ ¬ OpensStatement body
  arrowBody : ∀ isAsync ps, ∀ e : Expression,
    ⟨_, .arrow isAsync ps (.ofExpressionBody e)⟩ ∈ p.nodes →
    .operator "=>" :: e.bodyPieces o <:+: p.pieces o ∧
      Grouped (e.pieces o) (e.bodyPieces o) ∧ ¬ Opens ["\x7b"] (e.bodyPieces o)
  defaultExport : ∀ e : Expression, ⟨_, .exportDefault (.ofDefaultExpression e)⟩ ∈ p.nodes →
    .token "export" :: .token "default" :: (e.defaultPieces o ++ [.statementEnd]) <:+:
        p.pieces o ∧
      Grouped (e.pieces o) (e.defaultPieces o) ∧ ¬ OpensFunctionOrClass (e.defaultPieces o)
  loopStart : ∀ (e : Expression) t u b,
    ⟨_, .forLoop (.present (.ofStartExpression e)) t u b⟩ ∈ p.nodes →
    .token "for" :: .token "(" :: (e.startPieces o ++ [.semicolon]) <:+: p.pieces o ∧
      Grouped (e.pieces o) (e.startPieces o) ∧ ¬ Opens ["let", "["] (e.startPieces o)
  forInTarget : ∀ t e b, ⟨_, .forIn (.ofLoopTarget t) e b⟩ ∈ p.nodes →
    .token "for" :: .token "(" :: (t.loopTargetPieces o ++ [.token "in"]) <:+: p.pieces o ∧
      Grouped (t.targetPieces o) (t.loopTargetPieces o) ∧ ¬ Opens ["let"] (t.loopTargetPieces o)
  forOfTarget : ∀ t e b, ⟨_, .forOf (.ofLoopTarget t) e b⟩ ∈ p.nodes →
    .token "for" :: .token "(" :: (t.loopTargetPieces o ++ [.token "of"]) <:+: p.pieces o ∧
      Grouped (t.targetPieces o) (t.loopTargetPieces o) ∧ ¬ Opens ["let"] (t.loopTargetPieces o)

theorem Tree.IsNamed.of_mem {c d : Category} {t : Tree c} {u : Tree d} (h : t.IsNamed)
    (hu : ⟨d, u⟩ ∈ t.nodes) : u.IsNamed :=
  fun n hn => h n (Tree.isClosed_nodes t _ hu hn)

section

variable {o : Options} {p : Program} {e : Expression} {t : Tree .target}

theorem Expression.marksStart (o : Options) (h : e.IsNamed) : e.MarksStart o := by
  obtain ⟨-, -, hcurly, hfunction, hlet⟩ := e.leads o h
  exact ⟨hcurly, hfunction, hlet⟩

theorem grouped_startPieces : Grouped (e.pieces o) (e.startPieces o) := by
  unfold Expression.startPieces
  rw [pieces_loopStart (e.steady o)]
  split
  · exact .inr rfl
  · exact .inl rfl

theorem not_opens_loopTargetPieces (h : t.IsNamed) : ¬ Opens ["let"] (t.loopTargetPieces o) :=
  not_opens_loopTarget (Tree.leads o t h).2

theorem Program.startsSafely (o : Options) (h : p.IsNamed) : Program.StartsSafely o p where
  statement e he := by
    have hname : e.IsNamed := part_of_one (h.of_mem he)
    exact ⟨statementForms_occur he, fun body hbody =>
      ⟨grouped_statementForms body hbody, not_opens_statementForms hname body hbody⟩⟩
  arrowBody isAsync ps e he := by
    have hname : e.IsNamed := part_of_one (parts_of_two (h.of_mem he)).2
    exact ⟨bodyPieces_occur he, grouped_single rfl, not_opens_expressionBody (e.leads o hname)⟩
  defaultExport e he := by
    have hname : e.IsNamed := part_of_one (part_of_one (h.of_mem he))
    exact ⟨defaultPieces_occur he, grouped_single rfl, not_opens_defaultBody (e.leads o hname)⟩
  loopStart e t u b he := by
    have hname : e.IsNamed := part_of_one (part_of_one (parts_of_four (h.of_mem he)).1)
    exact ⟨startPieces_occur he, grouped_startPieces,
      not_opens_loopStart (e.leads o hname) (e.steady o)⟩
  forInTarget t e b ht := by
    have hname : t.IsNamed := part_of_one (parts_of_three (h.of_mem ht)).1
    exact ⟨forInTarget_occurs ht, grouped_paren_if _ _, not_opens_loopTargetPieces hname⟩
  forOfTarget t e b ht := by
    have hname : t.IsNamed := part_of_one (parts_of_three (h.of_mem ht)).1
    exact ⟨forOfTarget_occurs ht, grouped_paren_if _ _, not_opens_loopTargetPieces hname⟩

end

/-- The marks of every expression say how it starts, and so no expression and no target starts in a
way that its place forbids.  The pieces that this is said of are those that writing hands over. -/
theorem starts_of_isNamed (o : Options) :
    (∀ e : Expression, e.IsNamed → e.MarksStart o) ∧
      (∀ p : Program, p.IsNamed → Program.StartsSafely o p) ∧
      (∀ e : Expression, (Expression.fragment o e).HandsOver) ∧
      ∀ p : Program, (Program.fragment o p).HandsOver :=
  ⟨fun _ h => Expression.marksStart o h, fun _ h => Program.startsSafely o h,
    fun _ => Fragment.handsOver _, fun _ => Fragment.handsOver _⟩

/-- The statements `({}).x`, `(let[x])`, `x => ({})` and `for ((let[x]);;) for ((let) in x);`. -/
def misleadingStarts : Program :=
  let x : Expression := .ofIdentifier (.identifier "x")
  let indexed : Expression := .computedMember (.ofCallee (.ofIdentifier (.identifier "let"))) x
  let parameter := .ofBinding (.ofBindingName (.bindingName "x"))
  let inner := .forIn (.ofLoopTarget (.ofSimpleTarget (.ofTargetName (.targetName "let")))) x
    .emptyStatement
  .script .nil (.ofList
    [.expressionStatement (.staticMember (.ofCallee (.object .nil)) "x"),
     .expressionStatement indexed,
     .expressionStatement
      (.arrow false (.parameters (.cons parameter .nil) .absent)
        (.ofExpressionBody (.object .nil))),
     .forLoop (.present (.ofStartExpression indexed)) .absent .absent inner])

theorem startsSafely_misleadingStarts :
    misleadingStarts.IsNamed ∧ Program.StartsSafely {} misleadingStarts :=
  ⟨by decide, (starts_of_isNamed {}).2.1 misleadingStarts (by decide)⟩

end EcmaPrinter
