import EcmaPrinter.Proofs.Hazard.Balance
import EcmaPrinter.Proofs.Tree.Steady

/-!
The mark of a contained `in`.

The mark is set exactly where an `in` is exposed.  It travels upwards through operators,
conditionals, assignments, arrows and `yield`, and parentheses stop it.  Everything that binds more
strongly than `in` itself has its weaker parts in parentheses, so nothing is exposed there
(`MarksIn.weak`).
-/

namespace EcmaPrinter

open EcmaPrinter.Generate
open EcmaPrinter.Text

/-! ### Exposed operators of fragments -/

/-- An `in` is exposed in the pieces of the fragment. -/
def Fragment.Exposes (f : Fragment) (noIn : Bool) : Prop :=
  ExposesIn (f.pieces noIn)

namespace Fragment

variable {f : Fragment} {fs : List Fragment} {noIn : Bool}

@[simp] theorem exposes_withMarks (m : Marks) : (f.withMarks m).Exposes noIn ↔ f.Exposes noIn := by
  unfold Exposes
  rw [pieces_withMarks]

@[simp] theorem not_exposes_empty : ¬ empty.Exposes noIn := not_exposesIn_nil

theorem not_exposes_token {text : String} (h : text ∉ bracketTexts) :
    ¬ (token text).Exposes noIn := by
  unfold Exposes
  rw [pieces_token, exposesIn_cons (isBracket_token h)]
  simp

@[simp] theorem not_exposes_number (v : Number.Double) : ¬ (number v).Exposes noIn := by
  unfold Exposes
  rw [pieces_number, exposesIn_cons rfl]
  simp

theorem exposes_operator {text : String} (h : text ≠ "?" ∧ text ≠ ":") :
    (operator text).Exposes noIn ↔ text = "in" := by
  unfold Exposes
  rw [pieces_operator, exposesIn_cons (by simp [Piece.isBracket, brackets, h])]
  simp

theorem not_exposes_paren (h : f.Even) : ¬ (paren f).Exposes noIn :=
  (h false).not_exposesIn_between (by decide)

theorem not_exposes_bracket (h : f.Even) : ¬ (bracket f).Exposes noIn :=
  (h false).not_exposesIn_between (by decide)

theorem not_exposes_brace (h : f.Even) : ¬ (brace f).Exposes noIn :=
  (h false).not_exposesIn_between (by decide)

theorem exposesIn_flatMap {α : Type} {xs : List α} {g : α → List Piece}
    (h : ∀ x ∈ xs, Balanced (g x)) : ExposesIn (xs.flatMap g) ↔ ∃ x ∈ xs, ExposesIn (g x) := by
  induction xs with
  | nil => simp
  | cons x xs ih =>
    obtain ⟨hx, hxs⟩ := List.forall_mem_cons.mp h
    rw [List.flatMap_cons, hx.exposesIn_append, ih hxs, List.exists_mem_cons_iff]

theorem exposes_sequence (h : ∀ f ∈ fs, f.Even) :
    (sequence fs).Exposes noIn ↔ ∃ f ∈ fs, f.Exposes noIn := by
  unfold Exposes
  rw [pieces_sequence]
  exact exposesIn_flatMap fun f hf => h f hf noIn

theorem exposes_separated (h : ∀ f ∈ fs, f.Even) :
    (separated fs).Exposes noIn ↔ ∃ f ∈ fs, f.Exposes noIn := by
  unfold Exposes
  cases fs with
  | nil => simp
  | cons f fs =>
    obtain ⟨hf, hfs⟩ := List.forall_mem_cons.mp h
    rw [pieces_separated_cons, (hf noIn).exposesIn_append,
      exposesIn_flatMap fun g hg => (hfs g hg noIn).cons rfl, List.exists_mem_cons_iff]
    simp [exposesIn_cons (p := .comma) rfl]

end Fragment

open Fragment

/-! ### Marks that are right -/

/-- The mark of a contained `in` is set where one is exposed. -/
structure Fragment.MarksIn (f : Fragment) : Prop where
  even : f.Even
  exposes : f.marks.containsIn ↔ f.Exposes false

/-- Code that is neither marked nor exposes anything. -/
structure Fragment.HidesIn (f : Fragment) : Prop where
  even : f.Even
  unmarked : f.marks.containsIn = false
  hidden : ¬ f.Exposes false

/-- The mark of an operand is right, and is set only where the operand binds weakly. -/
structure Generate.Operand.MarksIn (e : Operand) : Prop extends e.code.MarksIn where
  weak : e.code.marks.containsIn → e.precedence ≤ .relational

section

variable {e e' e'' : Operand} {f g : Fragment} {fs : List Fragment} {spell : String → String}

theorem Fragment.HidesIn.marksIn (h : f.HidesIn) : f.MarksIn :=
  ⟨h.even, by simp [h.unmarked, h.hidden]⟩

theorem Fragment.MarksIn.hidesIn (h : f.MarksIn) (hm : f.marks.containsIn = false) : f.HidesIn :=
  ⟨h.even, hm, fun hf => by simp [h.exposes.mpr hf] at hm⟩

theorem Fragment.MarksIn.operand (h : f.MarksIn) {p : Precedence} (hp : p ≤ .relational) :
    (⟨f, p⟩ : Operand).MarksIn :=
  ⟨h, fun _ => hp⟩

theorem Fragment.HidesIn.operand (h : f.HidesIn) (p : Precedence) :
    (⟨f, p⟩ : Operand).MarksIn :=
  ⟨h.marksIn, fun hm => by simp [h.unmarked] at hm⟩

theorem hidesIn_paren (h : f.Even) : (paren f).HidesIn :=
  ⟨even_paren h, rfl, not_exposes_paren h⟩

theorem hidesIn_token {text : String} (h : text ∉ bracketTexts) : (token text).HidesIn :=
  ⟨even_token h, rfl, not_exposes_token h⟩

/-- A sequence of parts that hide everything. -/
theorem hidesIn_sequence {m : Marks} (hm : m.containsIn = false)
    (h : ∀ f ∈ fs, f.Even ∧ ¬ f.Exposes false) : ((sequence fs).withMarks m).HidesIn := by
  have heven : ∀ f ∈ fs, f.Even := fun f hf => (h f hf).1
  refine ⟨(even_sequence heven).withMarks m, by simpa using hm, ?_⟩
  rw [exposes_withMarks, exposes_sequence heven]
  rintro ⟨f, hf, hexposes⟩
  exact (h f hf).2 hexposes

/-! ### Operands -/

theorem marksIn_within (h : e.MarksIn) (p : Precedence) : (e.within p).MarksIn := by
  unfold Operand.within
  split
  · exact (hidesIn_paren h.even).marksIn
  · exact h.toMarksIn

theorem marksIn_single (h : e.MarksIn) : e.single.MarksIn := marksIn_within h _

/-- Where more strength is demanded than `in` has, nothing is exposed. -/
theorem hidesIn_within (h : e.MarksIn) {p : Precedence} (hp : .relational < p) :
    (e.within p).HidesIn := by
  unfold Operand.within
  split
  · exact hidesIn_paren h.even
  · next hlt =>
    refine h.toMarksIn.hidesIn ?_
    cases hm : e.code.marks.containsIn with
    | false => rfl
    | true => exact absurd (Nat.lt_of_le_of_lt (h.weak hm) hp) hlt

theorem hidesIn_memberObject (h : e.MarksIn) : (memberObject e).HidesIn := by
  refine hidesIn_within h ?_
  unfold Precedence.ofMember
  split <;> decide

theorem hidesIn_arrayElements {elements : List (Option Fragment)} {rest? : Option Fragment}
    (h : ∀ f? ∈ elements, ∀ f ∈ f?, f.Even) (hrest : ∀ f ∈ rest?, f.Even) :
    (arrayElements elements rest?).HidesIn := by
  obtain ⟨inner, heq, hinner⟩ := exists_arrayElements_eq h hrest
  rw [heq]
  exact ⟨even_bracket hinner, rfl, not_exposes_bracket hinner⟩

theorem hidesIn_properties {m : Marks} (hm : m.containsIn = false) (h : ∀ f ∈ fs, f.Even) :
    ((properties fs).withMarks m).HidesIn := by
  refine ⟨(even_properties h).withMarks m, by simpa using hm, ?_⟩
  rw [exposes_withMarks]
  exact not_exposes_brace (even_separated h)

theorem hidesIn_staticMember (h : e.MarksIn) {property : String}
    (hp : spell property ∉ bracketTexts) : (Generate.staticMember spell e property).HidesIn := by
  have hbase := hidesIn_memberObject h
  have hproperty : (token (spell property)).HidesIn := hidesIn_token hp
  have hdot : (token ".").HidesIn := hidesIn_token (by decide)
  refine hidesIn_sequence rfl ?_
  simp [hbase.even, hbase.hidden, hproperty.even, hproperty.hidden, hdot.even, hdot.hidden]

theorem hidesIn_computedMember (isLet : Bool) (h : e.MarksIn) (hf : f.Even) :
    (Generate.computedMember isLet e f).HidesIn := by
  have hbase := hidesIn_memberObject h
  refine hidesIn_sequence rfl ?_
  simp [hbase.even, hbase.hidden, hf, not_exposes_bracket hf]

theorem hidesIn_call (h : e.MarksIn) (hfs : ∀ f ∈ fs, f.Even) : (Generate.call e fs).HidesIn := by
  have hbase : (e.within .call).HidesIn := hidesIn_within h (by decide)
  have harguments : (arguments fs).HidesIn := hidesIn_paren (even_separated hfs)
  refine hidesIn_sequence rfl ?_
  simp [hbase.even, hbase.hidden, harguments.even, harguments.hidden]

theorem hidesIn_construct (h : e.MarksIn) (hfs : ∀ f ∈ fs, f.Even) :
    (Generate.construct e fs).HidesIn := by
  have hcallee : (constructCallee e fs.isEmpty).HidesIn := by
    unfold constructCallee
    split
    · exact hidesIn_paren h.even
    · refine hidesIn_within h ?_
      split <;> decide
  have harguments : (arguments fs).HidesIn := hidesIn_paren (even_separated hfs)
  refine hidesIn_sequence (m := {}) rfl fun f hf => ?_
  simp only [List.mem_cons, List.not_mem_nil, or_false] at hf
  rcases hf with rfl | rfl | rfl
  · exact ⟨even_token (by decide), not_exposes_token (by decide)⟩
  · exact ⟨hcallee.even, hcallee.hidden⟩
  · split
    · exact ⟨even_empty, not_exposes_empty⟩
    · exact ⟨harguments.even, harguments.hidden⟩

/-- The holes of a template are brackets. -/
theorem not_exposesIn_chunk (tagged : Bool) {part : Chunk} (h : ∀ f, part = .hole f → f.Even)
    (noIn : Bool) : ¬ ExposesIn ((part.code spell tagged).flatMap (·.pieces noIn)) := by
  cases part with
  | text raw =>
    show ¬ ExposesIn [.raw _]
    rw [exposesIn_cons rfl]
    simp
  | hole f =>
    have hhole : ¬ ExposesIn (.token "$\x7b" :: (f.pieces noIn ++ [.token "\x7d"])) :=
      (h f rfl noIn).not_exposesIn_between (by decide)
    simpa [Chunk.code] using hhole

theorem hidesIn_template {tag? : Option Operand} {parts : List Chunk}
    (htag : ∀ e ∈ tag?, e.MarksIn) (h : ∀ part ∈ parts, ∀ f, part = .hole f → f.Even) :
    (Generate.template spell tag? parts).HidesIn := by
  have heven : (Generate.template spell tag? parts).Even :=
    even_template (fun e he => (htag e he).even) h
  have hmark : (Piece.token "\x60").isBracket = false := by decide
  have hquote : ¬ (token "\x60").Exposes false := not_exposes_token (by decide)
  have hbody : ∀ tagged, ¬ ExposesIn ((token "\x60" ::
      (parts.flatMap (·.code spell tagged) ++ [token "\x60"])).flatMap (·.pieces false)) := by
    intro tagged
    have hparts : ∀ part ∈ parts,
        Balanced ((part.code spell tagged).flatMap (·.pieces false)) :=
      fun part hpart => balanced_chunk tagged (h part hpart) false
    rw [List.flatMap_cons, List.flatMap_append, List.flatMap_assoc, pieces_token,
      List.singleton_append, exposesIn_cons hmark, (balanced_flatMap hparts).exposesIn_append,
      exposesIn_flatMap hparts]
    rintro (hmark | ⟨part, hpart, hexposes⟩ | hexposes)
    · cases hmark
    · exact not_exposesIn_chunk tagged (h part hpart) false hexposes
    · exact hquote (by simpa [Fragment.Exposes] using hexposes)
  refine ⟨heven, ?_, ?_⟩
  · cases tag? with
    | none => rfl
    | some tag => rfl
  · cases tag? with
    | none =>
      intro hexposes
      exact hbody false ((pieces_sequence _ false) ▸ hexposes)
    | some tag =>
      have hbase := hidesIn_memberObject (htag tag rfl)
      intro hexposes
      have hpieces : ExposesIn ((sequence (memberObject tag :: token "\x60" ::
          (parts.flatMap (·.code spell true) ++ [token "\x60"]))).pieces false) :=
        (exposes_withMarks _).mp hexposes
      rw [pieces_sequence, List.flatMap_cons, (hbase.even false).exposesIn_append] at hpieces
      exact hpieces.elim hbase.hidden (hbody true)

/-! ### Functions and classes -/

theorem hidesIn_function (isAsync isGenerator : Bool) {name? : Option Fragment} {m : Marks}
    (hm : m.containsIn = false) (hname : ∀ n ∈ name?, n.HidesIn) (hf : f.Even) (hg : g.Even) :
    ((Generate.function isAsync isGenerator name? f g).withMarks m).HidesIn := by
  have hkeyword : ∀ (present : Bool) (keyword : String), keyword ∉ bracketTexts →
      (keywordIf present keyword).Even ∧ ¬ (keywordIf present keyword).Exposes false := by
    intro present keyword hk
    refine ⟨even_keywordIf present hk, ?_⟩
    cases present
    · exact not_exposes_empty
    · exact not_exposes_token hk
  refine hidesIn_sequence hm fun k hk => ?_
  simp only [List.mem_append, List.mem_cons, List.not_mem_nil, or_false, Option.mem_toList] at hk
  rcases hk with ((rfl | rfl | rfl) | hk) | rfl | rfl
  · exact hkeyword _ _ (by decide)
  · exact ⟨even_token (by decide), not_exposes_token (by decide)⟩
  · exact hkeyword _ _ (by decide)
  · exact ⟨(hname k hk).even, (hname k hk).hidden⟩
  · exact ⟨even_paren hf, not_exposes_paren hf⟩
  · exact ⟨even_brace hg, not_exposes_brace hg⟩

theorem hidesIn_class {name? : Option Fragment} {parent? : Option Operand} {m : Marks}
    (hm : m.containsIn = false) (hname : ∀ n ∈ name?, n.HidesIn)
    (hparent : ∀ p ∈ parent?, p.MarksIn) (h : ∀ f ∈ fs, f.Even) :
    ((classCode name? parent? fs).withMarks m).HidesIn := by
  refine hidesIn_sequence hm fun k hk => ?_
  simp only [List.mem_append, List.mem_singleton, Option.mem_toList] at hk
  rcases hk with ((rfl | hk) | hk) | rfl
  · exact ⟨even_token (by decide), not_exposes_token (by decide)⟩
  · exact ⟨(hname k hk).even, (hname k hk).hidden⟩
  · cases parent? with
    | none => cases hk
    | some p =>
      have hbase : (p.within .construction).HidesIn := hidesIn_within (hparent p rfl) (by decide)
      simp only [List.mem_cons, List.not_mem_nil, or_false] at hk
      rcases hk with rfl | rfl
      · exact ⟨even_token (by decide), not_exposes_token (by decide)⟩
      · exact ⟨hbase.even, hbase.hidden⟩
  · exact ⟨even_block h, not_exposes_brace (even_indent (even_lines h))⟩

/-! ### Operators -/

theorem hidesIn_unary {op : String} (hop : op ∉ bracketTexts) (h : e.MarksIn) :
    (Generate.unary op e).HidesIn := by
  have hoperand : (e.within .unary).HidesIn := hidesIn_within h (by decide)
  refine hidesIn_sequence (m := {}) rfl ?_
  simp [even_token hop, not_exposes_token hop, hoperand.even, hoperand.hidden]

theorem hidesIn_update (before : Bool) (op : UpdateOperator) (h : f.HidesIn) :
    (Generate.update before op f).HidesIn := by
  have hop : (token op.text).HidesIn := hidesIn_token (by cases op <;> decide)
  cases before
  · refine hidesIn_sequence rfl ?_
    simp [h.even, h.hidden, hop.even, hop.hidden]
  · refine hidesIn_sequence (m := {}) rfl ?_
    simp [h.even, h.hidden, hop.even, hop.hidden]

theorem marksIn_leftOperand (op : BinaryOperator) (isPrefixed : Bool) (h : e.MarksIn) :
    (leftOperand op isPrefixed e).MarksIn := by
  unfold leftOperand
  split
  · split
    · exact (hidesIn_paren h.even).marksIn
    · exact h.toMarksIn
  · exact marksIn_within h _

theorem marksIn_rightOperand (op : BinaryOperator) (h : e.MarksIn) :
    (rightOperand op e).MarksIn := by
  unfold rightOperand
  split
  · exact marksIn_within h _
  · split
    · exact (hidesIn_paren h.even).marksIn
    · exact h.toMarksIn

/-- An operand that binds more strongly than `in` has no mark. -/
theorem Generate.Operand.MarksIn.unmarked (h : e.MarksIn) (hp : .relational < e.precedence) :
    e.code.marks.containsIn = false := by
  cases hm : e.code.marks.containsIn with
  | false => rfl
  | true => exact absurd (Nat.lt_of_lt_of_le hp (h.weak hm)) (Nat.lt_irrefl _)

theorem unmarked_leftOperand {op : BinaryOperator} (hop : .relational < op.precedence)
    (isPrefixed : Bool) (h : e.MarksIn) :
    (leftOperand op isPrefixed e).marks.containsIn = false := by
  unfold leftOperand
  split
  · split
    · rfl
    · next hle =>
      simp only [Bool.or_eq_true, decide_eq_true_eq, not_or] at hle
      exact h.unmarked (Nat.lt_trans hop (Nat.lt_of_not_le hle.1))
  · exact (hidesIn_within h hop).unmarked

theorem unmarked_rightOperand {op : BinaryOperator} (hop : .relational < op.precedence)
    (h : e.MarksIn) : (rightOperand op e).marks.containsIn = false := by
  unfold rightOperand
  split
  · exact (hidesIn_within h hop).unmarked
  · split
    · rfl
    · next hle => exact h.unmarked (Nat.lt_trans hop (Nat.lt_of_not_le hle))

theorem text_eq_in_iff (op : BinaryOperator) : op.text = "in" ↔ op = .isIn := by
  cases op <;> decide

theorem exposes_binary (isPrefixed : Bool) (op : BinaryOperator) (h : e.MarksIn)
    (h' : e'.MarksIn) :
    (Generate.binary isPrefixed e op e').Exposes false ↔
      (leftOperand op isPrefixed e).Exposes false ∨ (rightOperand op e').Exposes false ∨
        op = .isIn := by
  have hl := (marksIn_leftOperand op isPrefixed h).even
  have hr := (marksIn_rightOperand op h').even
  have htext : op.text ≠ "?" ∧ op.text ≠ ":" := by cases op <;> decide
  unfold Generate.binary
  rw [exposes_withMarks]
  split
  · next hop =>
    have hin : op ≠ .isIn := by
      rintro rfl
      cases hop
    rw [exposes_separated (by simp [hl, hr])]
    simp [hin]
  · rw [exposes_sequence (by simp [hl, hr, even_operator htext])]
    simp only [List.exists_mem_cons_iff, List.not_mem_nil, false_and, exists_false, or_false,
      exposes_operator htext, text_eq_in_iff]
    tauto

theorem marksIn_binary (isPrefixed : Bool) (op : BinaryOperator) (h : e.MarksIn)
    (h' : e'.MarksIn) :
    (⟨Generate.binary isPrefixed e op e', op.precedence⟩ : Operand).MarksIn := by
  have hl := marksIn_leftOperand op isPrefixed h
  have hr := marksIn_rightOperand op h'
  have hmarks : (Generate.binary isPrefixed e op e').marks.containsIn ↔
      (leftOperand op isPrefixed e).marks.containsIn ∨ (rightOperand op e').marks.containsIn ∨
        op = .isIn := by
    simp only [Generate.binary, marks_withMarks, binaryMarks, Bool.or_eq_true, beq_iff_eq]
    tauto
  refine ⟨⟨even_binary isPrefixed op h.even h'.even, ?_⟩, ?_⟩
  · rw [hmarks, exposes_binary isPrefixed op h h', hl.exposes, hr.exposes]
  · intro hm
    by_contra hop
    have hlt : .relational < op.precedence := Nat.lt_of_not_le hop
    rcases hmarks.mp hm with hm | hm | rfl
    · rw [unmarked_leftOperand hlt isPrefixed h] at hm
      cases hm
    · rw [unmarked_rightOperand hlt h'] at hm
      cases hm
    · exact absurd hlt (by decide)

theorem marksIn_conditional (h : e.MarksIn) (h' : e'.MarksIn) (h'' : e''.MarksIn) :
    (⟨Generate.conditional e e' e'', .conditional⟩ : Operand).MarksIn := by
  have ht := marksIn_within h .logicalOr
  have hc := marksIn_single h'
  have ha := marksIn_single h''
  have hmiddle : Balanced (.operator "?" :: (e'.single.pieces false ++ [.operator ":"])) ∧
      ¬ ExposesIn (.operator "?" :: (e'.single.pieces false ++ [.operator ":"])) :=
    ⟨((hc.even false).between (by decide)).1, (hc.even false).not_exposesIn_between (by decide)⟩
  have hpieces : (Generate.conditional e e' e'').pieces false =
      (e.within .logicalOr).pieces false ++
        (.operator "?" :: (e'.single.pieces false ++ [.operator ":"]) ++
          e''.single.pieces false) := by
    simp [Generate.conditional]
  refine Fragment.MarksIn.operand ⟨even_conditional h.even h'.even h''.even, ?_⟩ (by decide)
  have hexposes : (Generate.conditional e e' e'').Exposes false ↔
      (e.within .logicalOr).Exposes false ∨ e''.single.Exposes false := by
    unfold Fragment.Exposes
    rw [hpieces, (ht.even false).exposesIn_append, hmiddle.1.exposesIn_append]
    simp [hmiddle.2]
  rw [hexposes, ← ht.exposes, ← ha.exposes]
  simp [Generate.conditional]

theorem marksIn_assignment (hf : f.HidesIn) {op : String} (hop : op ≠ "?" ∧ op ≠ ":")
    (hin : op ≠ "in") (h : e.MarksIn) : (⟨assignment f op e, .assignment⟩ : Operand).MarksIn := by
  have hv := marksIn_single h
  refine Fragment.MarksIn.operand ⟨even_assignment hf.even hop h.even, ?_⟩ (by decide)
  have hparts : ∀ k ∈ [f, operator op, e.single], k.Even := by
    simp [hf.even, even_operator hop, hv.even]
  have hexposes : (assignment f op e).Exposes false ↔ e.single.Exposes false := by
    unfold assignment
    rw [exposes_withMarks, exposes_sequence hparts]
    simp [hf.hidden, exposes_operator hop, hin]
  rw [hexposes, ← hv.exposes]
  simp [assignment]

theorem marksIn_arrow (isAsync isSingleName : Bool) (hf : f.Even)
    (hsingle : isSingleName → ¬ f.Exposes false) (hg : g.MarksIn) :
    (⟨Generate.arrow isAsync isSingleName f g, .assignment⟩ : Operand).MarksIn := by
  refine Fragment.MarksIn.operand ⟨even_arrow isAsync isSingleName hf hg.even, ?_⟩ (by decide)
  have hhead : (if isSingleName then f else paren f).Even ∧
      ¬ (if isSingleName then f else paren f).Exposes false := by
    split
    · next hs => exact ⟨hf, hsingle hs⟩
    · exact ⟨even_paren hf, not_exposes_paren hf⟩
  have hasync : (keywordIf isAsync "async").Even ∧ ¬ (keywordIf isAsync "async").Exposes false := by
    cases isAsync
    · exact ⟨even_empty, not_exposes_empty⟩
    · exact ⟨even_token (by decide), not_exposes_token (by decide)⟩
  have hop : "=>" ≠ "?" ∧ "=>" ≠ ":" := by decide
  have hparts : ∀ k ∈ [keywordIf isAsync "async", if isSingleName then f else paren f,
      operator "=>", g], k.Even := by
    simp [hasync.1, hhead.1, even_operator hop, hg.even]
  have hexposes : (Generate.arrow isAsync isSingleName f g).Exposes false ↔ g.Exposes false := by
    unfold Generate.arrow
    rw [exposes_withMarks, exposes_sequence hparts]
    simp [hasync.2, hhead.2, exposes_operator hop]
  rw [hexposes, ← hg.exposes]
  simp [Generate.arrow, Marks.onlyIn]

theorem marksIn_expressionBody (h : e.MarksIn) : (expressionBody e).MarksIn := by
  unfold expressionBody
  simp only
  split
  · exact (hidesIn_paren (marksIn_single h).even).marksIn
  · exact marksIn_single h

/-- A keyword, and an operand behind it that hands its mark on. -/
theorem marksIn_behind (texts : List String) (htexts : ∀ text ∈ texts, text ∉ bracketTexts)
    (h : e.MarksIn) :
    (⟨(sequence (texts.map token ++ [e.single])).withMarks e.single.marks.onlyIn,
      .assignment⟩ : Operand).MarksIn := by
  have hv := marksIn_single h
  have htokens : ∀ k ∈ texts.map token, k.Even ∧ ¬ k.Exposes false := by
    intro k hk
    obtain ⟨text, htext, rfl⟩ := List.mem_map.mp hk
    exact ⟨even_token (htexts text htext), not_exposes_token (htexts text htext)⟩
  have hparts : ∀ k ∈ texts.map token ++ [e.single], k.Even :=
    List.forall_mem_append.mpr
      ⟨fun k hk => (htokens k hk).1, List.forall_mem_singleton.mpr hv.even⟩
  refine Fragment.MarksIn.operand ⟨(even_sequence hparts).withMarks _, ?_⟩ (by decide)
  rw [marks_withMarks, exposes_withMarks, exposes_sequence hparts]
  refine hv.exposes.trans ⟨fun hexposes => ⟨_, by simp, hexposes⟩, ?_⟩
  rintro ⟨k, hk, hexposes⟩
  rcases List.mem_append.mp hk with hk | hk
  · exact absurd hexposes (htokens k hk).2
  · exact List.mem_singleton.mp hk ▸ hexposes

end

end EcmaPrinter
