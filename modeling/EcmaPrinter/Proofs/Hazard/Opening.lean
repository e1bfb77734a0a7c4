import EcmaPrinter.Generate.Code
import EcmaPrinter.Proofs.Grammar.Terminal
import EcmaPrinter.Proofs.Pieces
import EcmaPrinter.Proofs.Text.Spelled
import EcmaPrinter.Proofs.Tree.Nodes
import EcmaPrinter.Proofs.Tree.Steady
import Mathlib.Data.List.Basic

/-!
How code starts, and what its marks say about it.

Three marks speak of the first tokens of an expression: an opening brace, a function or a class, and
`let` with a bracket behind it.  The first token may come from deep inside, along the left edge of
the tree, and each step on the way up has to hand the marks on.  `Fragment.Leads` says that the
marks are right for the pieces, and is kept by everything an expression is made with.

The name `let` alone is told apart by a further mark.  It is right for assignment targets, and for
expressions that bind more strongly than an arrow, whose only parameter may be called `let`.
-/

namespace EcmaPrinter

open EcmaPrinter.Generate
open EcmaPrinter.Grammar
open EcmaPrinter.Text

/-! ### First tokens -/

/-- The pieces start with these tokens. -/
def Opens (texts : List String) (ps : List Piece) : Prop :=
  texts.map Piece.token <+: ps

/-- The pieces start with a function or a class. -/
def OpensFunctionOrClass (ps : List Piece) : Prop :=
  Opens ["function"] ps ∨ Opens ["class"] ps ∨ Opens ["async", "function"] ps

@[simp] theorem opens_nil (ps : List Piece) : Opens [] ps := List.nil_prefix

@[simp] theorem opens_cons_nil (t : String) (ts : List String) : ¬ Opens (t :: ts) [] := by
  simp [Opens]

@[simp] theorem opens_cons_cons (t : String) (ts : List String) (p : Piece) (ps : List Piece) :
    Opens (t :: ts) (p :: ps) ↔ p = .token t ∧ Opens ts ps := by
  simp [Opens, List.cons_prefix_cons, eq_comm]

instance (texts : List String) (ps : List Piece) : Decidable (Opens texts ps) :=
  inferInstanceAs (Decidable (_ <+: _))

instance (ps : List Piece) : Decidable (OpensFunctionOrClass ps) :=
  inferInstanceAs (Decidable (_ ∨ _ ∨ _))

/-- The tokens that can start something else than an expression. -/
def openers : List Piece :=
  ["\x7b", "function", "class", "async", "let"].map .token

theorem not_mem_openers {text : String} {c : Char} {cs : List Char} (h : text.toList = c :: cs)
    (hc : ['{', 'f', 'c', 'a', 'l'].contains c = false) : Piece.token text ∉ openers := by
  intro hmem
  simp only [openers, List.map_cons, List.map_nil, List.mem_cons, Piece.token.injEq,
    List.not_mem_nil, or_false] at hmem
  rcases hmem with rfl | rfl | rfl | rfl | rfl <;>
    (obtain ⟨rfl, -⟩ := List.cons_eq_cons.mp h; cases hc)

/-- The tokens that make an opening of two tokens complete. -/
def seconds : List Piece :=
  ["function", "["].map .token

/-! ### Marks that are right -/

namespace Fragment

/-- The marks of a fragment tell how its pieces start; `lone` tells that they are the name `let` and
nothing else. -/
structure Leads (f : Fragment) (lone : Bool) : Prop where
  ne_nil : f.pieces false ≠ []
  lone_iff : lone ↔ f.pieces false = [.token "let"]
  curly : f.marks.startsWithCurly ↔ Opens ["\x7b"] (f.pieces false)
  functionOrClass : f.marks.startsWithFunctionOrClass ↔ OpensFunctionOrClass (f.pieces false)
  letBracket : f.marks.startsWithLetBracket ↔ Opens ["let", "["] (f.pieces false)

/-- If the pieces start with `let`, there is a mark. -/
def LeadsLet (f : Fragment) : Prop :=
  Opens ["let"] (f.pieces false) → f.marks.startsWithLet

variable {f g : Fragment} {lone : Bool} {p q : Piece} {ps qs : List Piece}

/-- Most code starts with a token that no mark speaks of. -/
theorem leads_of_first (hf : f.pieces false = p :: ps) (hp : p ∉ openers)
    (hm : f.marks.leading = {}) : f.Leads false := by
  obtain ⟨hcurly, hfunction, hclass, hasync, hlet⟩ :
      p ≠ .token "\x7b" ∧ p ≠ .token "function" ∧ p ≠ .token "class" ∧ p ≠ .token "async" ∧
        p ≠ .token "let" := by
    simpa [openers] using hp
  simp only [Marks.leading, Marks.mk.injEq] at hm
  constructor <;> simp [OpensFunctionOrClass, *]

theorem leadsLet_of_first (hf : f.pieces false = p :: ps) (hp : p ≠ .token "let") :
    f.LeadsLet := by
  intro h
  rw [hf, opens_cons_cons] at h
  exact absurd h.1 hp

/-- What follows an expression on the left edge does not change how it starts. -/
theorem Leads.append (h : f.Leads lone) (hg : g.pieces false = f.pieces false ++ q :: qs)
    (hq : q ∉ seconds) (hm : g.marks.leading = f.marks.leading) : g.Leads false := by
  obtain ⟨hne, -, hcurly, hfunction, hlet⟩ := h
  obtain ⟨hq₁, hq₂⟩ : q ≠ .token "function" ∧ q ≠ .token "[" := by simpa [seconds] using hq
  simp only [Marks.leading, Marks.mk.injEq] at hm
  obtain ⟨-, -, hm₁, hm₂, -, hm₃, -⟩ := hm
  rw [← hm₁] at hcurly
  rw [← hm₂] at hfunction
  rw [← hm₃] at hlet
  rcases hps : f.pieces false with - | ⟨p, - | ⟨p', ps⟩⟩
  · exact absurd hps hne
  · rw [hps] at hg hcurly hfunction hlet
    constructor <;> simp_all [OpensFunctionOrClass]
  · rw [hps] at hg hcurly hfunction hlet
    constructor <;> simp_all [OpensFunctionOrClass]

theorem LeadsLet.append (h : f.LeadsLet) (hne : f.pieces false ≠ [])
    (hg : g.pieces false = f.pieces false ++ qs)
    (hm : g.marks.startsWithLet = f.marks.startsWithLet) : g.LeadsLet := by
  intro hopens
  rw [hm]
  refine h ?_
  rcases hps : f.pieces false with - | ⟨p, ps⟩
  · exact absurd hps hne
  · rw [hg, hps] at hopens
    simpa using hopens

theorem Leads.sequence {m : Marks} {fs : List Fragment} (h : f.Leads lone)
    (hfs : fs.flatMap (·.pieces false) = q :: qs) (hq : q ∉ seconds)
    (hm : m.leading = f.marks.leading) : ((sequence (f :: fs)).withMarks m).Leads false :=
  h.append (by rw [pieces_withMarks, pieces_sequence, List.flatMap_cons, hfs]) hq hm

theorem LeadsLet.sequence {m : Marks} (h : f.LeadsLet) (hne : f.pieces false ≠ [])
    (fs : List Fragment) (hm : m.startsWithLet = f.marks.startsWithLet) :
    ((sequence (f :: fs)).withMarks m).LeadsLet :=
  h.append hne (by rw [pieces_withMarks, pieces_sequence, List.flatMap_cons]) hm

theorem leads_paren (f : Fragment) : (paren f).Leads false :=
  leads_of_first rfl (by decide) rfl

theorem leadsLet_paren (f : Fragment) : (paren f).LeadsLet :=
  leadsLet_of_first rfl (by decide)

end Fragment

open Fragment

/-! ### Code on the left edge -/

section

variable {e e' e'' : Operand} {f : Fragment} {lone : Bool}

theorem leads_within (h : e.code.Leads lone) (p : Precedence) : ∃ b, (e.within p).Leads b := by
  unfold Operand.within
  split
  · exact ⟨_, leads_paren _⟩
  · exact ⟨lone, h⟩

theorem leads_memberObject (h : e.code.Leads lone) : ∃ b, (memberObject e).Leads b :=
  leads_within h _

theorem leads_staticMember (h : e.code.Leads lone) (spell : String → String) (property : String) :
    (Generate.staticMember spell e property).Leads false := by
  obtain ⟨b, hbase⟩ := leads_memberObject h
  exact hbase.sequence rfl (by simp [seconds]) rfl

theorem leads_call (h : e.code.Leads lone) (items : List Fragment) :
    (Generate.call e items).Leads false := by
  obtain ⟨b, hbase⟩ := leads_within h .call
  exact hbase.sequence rfl (by simp [seconds]) rfl

/-- A bracket behind the bare name `let` is the one opening that two parts make together. -/
theorem leads_computedMember (h : e.code.Leads lone) (hlone : lone → e.precedence = .primary)
    (f : Fragment) : (Generate.computedMember lone e f).Leads false := by
  have hpieces : (Generate.computedMember lone e f).pieces false =
      (memberObject e).pieces false ++ .token "[" :: (f.pieces false ++ [.token "]"]) := by
    simp [Generate.computedMember, enclose]
  by_cases hlt : e.precedence < .ofMember e.precedence
  · have hparen : memberObject e = paren e.code := if_pos hlt
    have hfalse : lone = false := by
      cases hl : lone with
      | false => rfl
      | true =>
        rw [hlone hl] at hlt
        exact absurd hlt (by decide)
    subst hfalse
    rw [hparen] at hpieces
    refine leads_of_first hpieces (by decide) ?_
    simp only [Generate.computedMember, hparen]
    rfl
  · have hcode : memberObject e = e.code := if_neg hlt
    rw [hcode] at hpieces
    have hmarks : (Generate.computedMember lone e f).marks =
        { e.code.marks.leading with
          startsWithLetBracket := lone || e.code.marks.startsWithLetBracket } := by
      unfold Generate.computedMember
      rw [hcode]
      rfl
    obtain ⟨hne, hl, hcurly, hfunction, hlet⟩ := h
    rcases hps : e.code.pieces false with - | ⟨p, - | ⟨p', ps⟩⟩
    · exact absurd hps hne
    all_goals
      rw [hps] at hpieces hl hcurly hfunction hlet
      constructor <;> simp_all [OpensFunctionOrClass, Marks.leading]

theorem leads_update {before : Bool} (op : UpdateOperator) (h : f.Leads lone) :
    (Generate.update before op f).Leads false := by
  cases before
  · exact h.sequence rfl (by cases op <;> decide) rfl
  · exact leads_of_first (pieces_sequence _ _) (by cases op <;> decide) rfl

theorem leads_leftOperand (op : BinaryOperator) (isPrefixed : Bool) (h : e.code.Leads lone) :
    ∃ b, (leftOperand op isPrefixed e).Leads b := by
  unfold leftOperand
  split
  · split
    · exact ⟨_, leads_paren _⟩
    · exact ⟨lone, h⟩
  · exact leads_within h _

theorem pieces_binary (isPrefixed : Bool) (op : BinaryOperator) :
    (Generate.binary isPrefixed e op e').pieces false =
      (leftOperand op isPrefixed e).pieces false ++
        (if op = .sequence then .comma else .operator op.text) ::
          (rightOperand op e').pieces false := by
  by_cases h : op = .sequence <;> simp [Generate.binary, h]

theorem leading_binary (isPrefixed : Bool) (op : BinaryOperator) :
    (Generate.binary isPrefixed e op e').marks.leading =
      (leftOperand op isPrefixed e).marks.leading := by
  unfold Generate.binary
  rw [marks_withMarks]
  rfl

theorem leads_binary (isPrefixed : Bool) (op : BinaryOperator) (h : e.code.Leads lone) :
    (Generate.binary isPrefixed e op e').Leads false := by
  obtain ⟨b, hl⟩ := leads_leftOperand op isPrefixed h
  refine hl.append (pieces_binary isPrefixed op) ?_ (leading_binary isPrefixed op)
  split <;> simp [seconds]

theorem leads_conditional (h : e.code.Leads lone) :
    (Generate.conditional e e' e'').Leads false := by
  obtain ⟨b, ht⟩ := leads_within h .logicalOr
  exact ht.sequence rfl (by simp [seconds]) rfl

theorem leads_assignment (h : f.Leads lone) (op : String) : (assignment f op e).Leads false :=
  h.sequence rfl (by simp [seconds]) rfl

theorem leads_function (isAsync isGenerator : Bool) (name? : Option Fragment)
    (parameters body : Fragment) :
    ((Generate.function isAsync isGenerator name? parameters body).withMarks
      functionMarks).Leads false := by
  constructor <;> cases isAsync <;>
    simp [Generate.function, keywordIf, OpensFunctionOrClass, functionMarks]

theorem leads_class (name? : Option Fragment) (parent? : Option Operand)
    (elements : List Fragment) :
    ((classCode name? parent? elements).withMarks functionMarks).Leads false := by
  constructor <;> simp [classCode, OpensFunctionOrClass, functionMarks]

theorem leads_object (items : List Fragment) : (Generate.object items).Leads false := by
  constructor <;> simp [Generate.object, properties, enclose, OpensFunctionOrClass]

/-- The only parameter of an arrow may be called `let` or `async`, but no bracket and no function
follows it. -/
theorem leads_arrow (isAsync : Bool) {isSingleName : Bool} {parameters : Fragment} (body : Fragment)
    (h : isSingleName → ∃ text, parameters.pieces false = [.token text] ∧
      text ∉ ["\x7b", "function", "class"]) :
    (Generate.arrow isAsync isSingleName parameters body).Leads false := by
  cases isSingleName with
  | false =>
    constructor <;> cases isAsync <;>
      simp [Generate.arrow, Marks.onlyIn, keywordIf, enclose, OpensFunctionOrClass]
  | true =>
    obtain ⟨text, hpieces, htext⟩ := h rfl
    simp only [List.mem_cons, List.not_mem_nil, or_false, not_or] at htext
    constructor <;> cases isAsync <;>
      simp [Generate.arrow, Marks.onlyIn, keywordIf, OpensFunctionOrClass, hpieces, htext]

/-! ### The name `let` on the left edge -/

theorem leadsLet_within {p : Precedence} (h : .assignment < e.precedence → e.code.LeadsLet)
    (hp : .assignment < p) : (e.within p).LeadsLet := by
  unfold Operand.within
  split
  · exact leadsLet_paren _
  · next hlt => exact h (Nat.lt_of_lt_of_le hp (Nat.le_of_not_lt hlt))

theorem leadsLet_memberObject (h : .assignment < e.precedence → e.code.LeadsLet) :
    (memberObject e).LeadsLet := by
  refine leadsLet_within h ?_
  unfold Precedence.ofMember
  split <;> decide

theorem leadsLet_leftOperand {op : BinaryOperator} (hop : .assignment < op.precedence)
    (isPrefixed : Bool) (h : .assignment < e.precedence → e.code.LeadsLet) :
    (leftOperand op isPrefixed e).LeadsLet := by
  unfold leftOperand
  split
  · split
    · exact leadsLet_paren _
    · next hle =>
      simp only [Bool.or_eq_true, decide_eq_true_eq, not_or] at hle
      exact h (Nat.lt_trans hop (Nat.lt_of_not_le hle.1))
  · exact leadsLet_within h hop

theorem leadsLet_binary {op : BinaryOperator} (hop : .assignment < op.precedence)
    (isPrefixed : Bool) (hleads : e.code.Leads lone)
    (h : .assignment < e.precedence → e.code.LeadsLet) :
    (Generate.binary isPrefixed e op e').LeadsLet := by
  obtain ⟨b, hl⟩ := leads_leftOperand op isPrefixed hleads
  refine (leadsLet_leftOperand hop isPrefixed h).append hl.ne_nil (pieces_binary isPrefixed op) ?_
  unfold Generate.binary
  rw [marks_withMarks]
  rfl

theorem leadsLet_function (isAsync isGenerator : Bool) (name? : Option Fragment)
    (parameters body : Fragment) :
    ((Generate.function isAsync isGenerator name? parameters body).withMarks
      functionMarks).LeadsLet := by
  intro hopens
  cases isAsync <;> simp [Generate.function, keywordIf] at hopens

end

/-! ### Names -/

theorem spell_not_mem (o : Options) {n : String} (h : isIdentifier n) :
    o.spell n ∉ ["\x7b", "function", "class"] := by
  intro hmem
  have hwords : ∀ word ∈ ["\x7b", "function", "class"],
      backslash ∉ word.toList ∧ isIdentifier word = false := by
    decide
  obtain ⟨hback, hword⟩ := hwords _ hmem
  rw [← o.eq_of_spell_eq (isIdentifierName_of_isIdentifier h) hback rfl, h] at hword
  cases hword

theorem leads_name (o : Options) {n : String} (h : isIdentifier n) :
    (Generate.name o.spell n).Leads (n == "let") := by
  have hnot := spell_not_mem o h
  simp only [List.mem_cons, List.not_mem_nil, or_false, not_or] at hnot
  have hlet : n = "let" ↔ o.spell n = "let" := by
    refine ⟨?_, o.eq_of_spell_eq (isIdentifierName_of_isIdentifier h) (by decide)⟩
    rintro rfl
    unfold Options.spell
    split
    · decide
    · rfl
  constructor <;> simp [Generate.name, OpensFunctionOrClass, *]

theorem leadsLet_name (o : Options) {n : String} (h : isIdentifier n) :
    (Generate.name o.spell n).LeadsLet := by
  intro hopens
  have hlone := (leads_name o h).lone_iff
  have hlet : o.spell n = "let" := by simpa [Generate.name] using hopens
  exact hlone.mpr (by simp [Generate.name, hlet])

theorem spell_quote_not_mem_openers (o : Options) (value : String) :
    Piece.token (o.spell (quote value)) ∉ openers := by
  obtain ⟨mark, cs, hmark, hcs⟩ := o.exists_spell_quote value
  refine not_mem_openers hcs ?_
  rcases isQuote_iff.mp hmark with rfl | rfl <;> decide

/-! ### Expressions -/

/-- Are the names of a node identifiers? -/
def Node.isNamed : Node → Bool
  | ⟨_, .bindingName name⟩ | ⟨_, .targetName name⟩ | ⟨_, .identifier name⟩ => isIdentifier name
  | _ => true

/-- All names in a tree are identifiers. -/
def Tree.IsNamed {c : Category} (t : Tree c) : Prop :=
  ∀ n ∈ t.nodes, n.isNamed

instance {c : Category} (t : Tree c) : Decidable t.IsNamed :=
  inferInstanceAs (Decidable (∀ n ∈ t.nodes, n.isNamed))

/-- The marks of an expression, or of `super` in the place of one, are right. -/
structure LeadsCallee (o : Options) (t : Tree .callee) : Prop where
  leads : (t.code o.spell).code.Leads t.isLet
  leadsLet : .assignment < (t.code o.spell).precedence → (t.code o.spell).code.LeadsLet

/-- The marks of a tree are right, where it is on the left edge of an expression. -/
def LeadsTree (o : Options) : (c : Category) → Tree c → Prop
  | .option c, t => ∀ u, t = .present u → LeadsTree o c u
  | .expression, e => LeadsCallee o (.ofCallee e)
  | .callee, e => LeadsCallee o e
  | .target, t | .simpleTarget, t =>
    (∃ lone, (t.code o.spell).Leads lone) ∧ (t.code o.spell).LeadsLet
  | _, _ => True

theorem leadsCallee_of_first {o : Options} {t : Tree .callee} {p : Piece} {ps : List Piece}
    (hlet : t.isLet = false) (hcode : (t.code o.spell).code.pieces false = p :: ps)
    (hp : p ∉ openers) (hm : (t.code o.spell).code.marks.leading = {}) : LeadsCallee o t := by
  refine ⟨?_, fun _ => leadsLet_of_first hcode ?_⟩
  · rw [hlet]
    exact leads_of_first hcode hp hm
  · rintro rfl
    exact hp (by decide)

theorem Tree.precedence_of_isLet (spell : String → String) {t : Tree .callee} (h : t.isLet) :
    (t.code spell).precedence = .primary := by
  cases t with
  | super => cases h
  | ofCallee e => cases e <;> first | rfl | cases h

theorem leads_parameters (o : Options) {ps : Tree .parameters} (h : ps.IsNamed)
    (hsingle : ps.isSingleName) :
    ∃ text, (ps.code o.spell).pieces false = [.token text] ∧
      text ∉ ["\x7b", "function", "class"] := by
  obtain ⟨n, rfl⟩ := Tree.exists_of_isSingleName hsingle
  have hname : isIdentifier n :=
    part_of_one (part_of_one (parts_of_two (parts_of_two h).1).1) _ List.mem_cons_self
  exact ⟨o.spell n, rfl, spell_not_mem o hname⟩

theorem Tree.leads (o : Options) {c : Category} (t : Tree c) (h : t.IsNamed) :
    LeadsTree o c t := by
  induction t with
  | absent => rintro u ⟨⟩
  | present t ih =>
    rintro u ⟨⟩
    exact ih (part_of_one h)
  -- assignment targets
  | ofSimpleTarget t ih => exact ih (part_of_one h)
  | ofTargetName n =>
    cases n with | targetName n =>
    have hname : isIdentifier n := part_of_one h _ List.mem_cons_self
    exact ⟨⟨_, leads_name o hname⟩, leadsLet_name o hname⟩
  | arrayTarget es r =>
    exact ⟨⟨_, leads_of_first rfl (by decide) rfl⟩, leadsLet_of_first rfl (by decide)⟩
  | objectTarget ps => exact ⟨⟨_, leads_object _⟩, leadsLet_of_first rfl (by decide)⟩
  | staticMemberTarget t property ih =>
    obtain ⟨hleads, hlet⟩ := ih (part_of_one h)
    obtain ⟨b, hbase⟩ := leads_memberObject hleads
    exact ⟨⟨_, leads_staticMember hleads o.spell property⟩,
      (leadsLet_memberObject hlet).sequence hbase.ne_nil _ rfl⟩
  | computedMemberTarget t e ih =>
    obtain ⟨hleads, hlet⟩ := ih (parts_of_two h).1
    obtain ⟨b, hbase⟩ := leads_memberObject hleads
    exact ⟨⟨_, leads_computedMember hleads (precedence_of_isLet o.spell) _⟩,
      (leadsLet_memberObject hlet).sequence hbase.ne_nil _ rfl⟩
  -- literals and names
  | boolean value =>
    exact leadsCallee_of_first rfl rfl (by cases value <;> decide) rfl
  | infinity => exact leadsCallee_of_first rfl rfl (by simp [openers]) rfl
  | number value => exact leadsCallee_of_first rfl rfl (by simp [openers]) rfl
  | null | this | newTarget => exact leadsCallee_of_first rfl rfl (by decide) rfl
  | regExp pattern flags =>
    exact leadsCallee_of_first rfl rfl (not_mem_openers String.toList_ofList (by decide)) rfl
  | string value => exact leadsCallee_of_first rfl rfl (spell_quote_not_mem_openers o value) rfl
  | array es => exact leadsCallee_of_first rfl rfl (by decide) rfl
  | object ps => exact ⟨leads_object _, fun _ => leadsLet_of_first rfl (by decide)⟩
  | functionExpression isAsync isGenerator n ps b =>
    exact ⟨leads_function isAsync isGenerator _ _ _,
      fun _ => leadsLet_function isAsync isGenerator _ _ _⟩
  | classExpression n p es =>
    refine ⟨leads_class _ _ _, fun _ => leadsLet_of_first (pieces_sequence _ _) (by decide)⟩
  | ofIdentifier n =>
    cases n with | identifier n =>
    have hname : isIdentifier n := part_of_one h _ List.mem_cons_self
    exact ⟨leads_name o hname, fun _ => leadsLet_name o hname⟩
  -- members, calls and templates
  | template t ps iht =>
    have htag := iht (parts_of_two h).1
    cases t with
    | absent => exact leadsCallee_of_first rfl (pieces_sequence _ _) (by decide) rfl
    | present tag =>
      obtain ⟨hleads, hlet⟩ := htag tag rfl
      obtain ⟨b, hbase⟩ := leads_memberObject hleads
      exact ⟨hbase.sequence rfl (by simp [seconds]) rfl,
        fun _ => (leadsLet_memberObject hlet).sequence hbase.ne_nil _ rfl⟩
  | staticMember t property ih =>
    obtain ⟨hleads, hlet⟩ := ih (part_of_one h)
    obtain ⟨b, hbase⟩ := leads_memberObject hleads
    exact ⟨leads_staticMember hleads o.spell property,
      fun _ => (leadsLet_memberObject hlet).sequence hbase.ne_nil _ rfl⟩
  | computedMember t e ih =>
    obtain ⟨hleads, hlet⟩ := ih (parts_of_two h).1
    obtain ⟨b, hbase⟩ := leads_memberObject hleads
    exact ⟨leads_computedMember hleads (precedence_of_isLet o.spell) _,
      fun _ => (leadsLet_memberObject hlet).sequence hbase.ne_nil _ rfl⟩
  | call f as ih =>
    obtain ⟨hleads, hlet⟩ := ih (parts_of_two h).1
    obtain ⟨b, hbase⟩ := leads_within hleads .call
    exact ⟨leads_call hleads _,
      fun _ => (leadsLet_within hlet (by decide)).sequence hbase.ne_nil _ rfl⟩
  | construct f as => exact leadsCallee_of_first rfl rfl (by decide) rfl
  | ofCallee e ih => exact ih (part_of_one h)
  | super => exact leadsCallee_of_first rfl rfl (by decide) rfl
  -- operators
  | unary op e => exact leadsCallee_of_first rfl rfl (by cases op <;> decide) rfl
  | await e => exact leadsCallee_of_first rfl rfl (by decide) rfl
  | update before op t ih =>
    obtain ⟨⟨lone, hleads⟩, hlet⟩ := ih (part_of_one h)
    refine ⟨leads_update op hleads, fun _ => ?_⟩
    cases before
    · exact hlet.sequence hleads.ne_nil _ rfl
    · exact leadsLet_of_first (pieces_sequence _ _) (by cases op <;> decide)
  | binary l op r ihl =>
    obtain ⟨hleads, hlet⟩ := ihl (parts_of_two h).1
    exact ⟨leads_binary _ op hleads, fun hop => leadsLet_binary hop _ hleads hlet⟩
  | conditional t s a iht =>
    obtain ⟨hleads, hlet⟩ := iht (parts_of_three h).1
    obtain ⟨b, ht⟩ := leads_within hleads .logicalOr
    exact ⟨leads_conditional hleads,
      fun _ => (leadsLet_within hlet (by decide)).sequence ht.ne_nil _ rfl⟩
  | assign t v iht =>
    obtain ⟨⟨lone, hleads⟩, -⟩ := iht (parts_of_two h).1
    exact ⟨leads_assignment hleads _, fun hlt => absurd hlt (Nat.lt_irrefl _)⟩
  | compoundAssign t op v iht =>
    obtain ⟨⟨lone, hleads⟩, -⟩ := iht (parts_of_two h).1
    exact ⟨leads_assignment hleads _, fun hlt => absurd hlt (Nat.lt_irrefl _)⟩
  | arrow isAsync ps b =>
    exact ⟨leads_arrow isAsync _ (leads_parameters o (parts_of_two h).1),
      fun hlt => absurd hlt (Nat.lt_irrefl _)⟩
  | yield e => cases e <;> exact leadsCallee_of_first rfl rfl (by decide) rfl
  | yieldFrom e => exact leadsCallee_of_first rfl rfl (by decide) rfl
  | _ => trivial

end EcmaPrinter
