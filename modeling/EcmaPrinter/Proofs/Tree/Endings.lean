import EcmaPrinter.Generate.Code
import EcmaPrinter.Proofs.Stream.Standing

/-!
How statements end.

A pretty stream leaves a blank behind operators and commas, and it may break the line behind an
indented block.  No statement ends so: the last thing that is written of one is a semicolon, or the
brace that closes it (`Tree.ends`).  So there is no open gap behind a program.
-/

namespace EcmaPrinter

open EcmaPrinter.Generate

/-! ### Fragments with firm ends -/

/-- The last event of the fragment closes the text. -/
def Fragment.IsFirm (f : Fragment) : Prop :=
  ∀ noIn, ∃ event ∈ (f.events noIn).getLast?, event.isFirm

namespace Fragment

variable {f : Fragment} {fs : List Fragment}

theorem IsFirm.withMarks (h : f.IsFirm) (m : Marks) : (f.withMarks m).IsFirm := by
  intro noIn
  rw [events_withMarks]
  exact h noIn

theorem isFirm_statementEnd : statementEnd.IsFirm :=
  fun _ => ⟨_, rfl, rfl⟩

theorem isFirm_semicolon : semicolon.IsFirm :=
  fun _ => ⟨_, rfl, rfl⟩

theorem isFirm_brace (f : Fragment) : (brace f).IsFirm := by
  intro noIn
  have hlast : Event.piece (.token "\x7d") ∈
      (f.events false ++ [Event.piece (.token "\x7d")]).getLast? := by simp
  exact ⟨_, List.mem_getLast?_cons hlast, rfl⟩

theorem isFirm_stringStatement (f : Fragment) : (stringStatement f).IsFirm := by
  intro noIn
  refine ⟨.piece .statementEnd, ?_, rfl⟩
  show _ ∈ (f.events noIn ++ [_]).getLast?
  simp

theorem IsFirm.line (h : f.IsFirm) : (line f).IsFirm := by
  intro noIn
  obtain ⟨event, hmem, hfirm⟩ := h noIn
  exact ⟨event, List.mem_getLast?_cons hmem, hfirm⟩

/-- A sequence ends as its last part does. -/
theorem IsFirm.sequence (h : f.IsFirm) (fs : List Fragment) : (sequence (fs ++ [f])).IsFirm := by
  intro noIn
  obtain ⟨event, hmem, hfirm⟩ := h noIn
  refine ⟨event, ?_, hfirm⟩
  rw [events_sequence, List.flatMap_append, List.flatMap_singleton]
  exact List.mem_getLast?_append_of_mem_getLast? hmem

theorem IsFirm.cons (h : (Fragment.sequence fs).IsFirm) (f : Fragment) :
    (Fragment.sequence (f :: fs)).IsFirm := by
  intro noIn
  obtain ⟨event, hmem, hfirm⟩ := h noIn
  refine ⟨event, ?_, hfirm⟩
  rw [events_sequence] at hmem ⊢
  exact List.mem_getLast?_append_of_mem_getLast? hmem

end Fragment

open Fragment

/-- Where lines end firmly, so does the last of them. -/
theorem isFirm_lines {fs : List Fragment} (h : ∀ f ∈ fs, f.IsFirm) (noIn : Bool) :
    ∀ event ∈ ((lines fs).events noIn).getLast?, event.isFirm := by
  intro event hmem
  rcases List.eq_nil_or_concat fs with rfl | ⟨init, f, rfl⟩
  · cases hmem
  · have hlast := ((h f (by simp)).line.sequence (init.map .line)) noIn
    obtain ⟨event', hmem', hfirm⟩ := hlast
    rw [lines, List.concat_eq_append, List.map_append, List.map_singleton] at hmem
    rwa [Option.mem_unique hmem hmem']

theorem IsFirm.directiveSafe {f : Fragment} (h : f.IsFirm) : (directiveSafe f).IsFirm := by
  unfold Generate.directiveSafe
  split
  · exact isFirm_statementEnd.sequence [_]
  · exact h

/-- A prologue ends with its last statement or directive. -/
theorem isFirm_prologue {ds ss : List Fragment} (hds : ∀ f ∈ ds, f.IsFirm)
    (hss : ∀ f ∈ ss, f.IsFirm) (noIn : Bool) :
    ∀ event ∈ ((prologue ds ss).events noIn).getLast?, event.isFirm := by
  cases ss with
  | nil => exact isFirm_lines hds noIn
  | cons first others =>
    refine isFirm_lines (fun f hf => ?_) noIn
    rcases List.mem_append.mp hf with hf | hf
    · exact hds f hf
    · rcases List.mem_cons.mp hf with rfl | hf
      · exact IsFirm.directiveSafe (hss first List.mem_cons_self)
      · exact hss f (List.mem_cons_of_mem _ hf)

theorem isFirm_endingIn {body : Fragment} (h : body.IsFirm) (parts : List Fragment) :
    (endingIn body parts).IsFirm :=
  (h.sequence parts).withMarks _

theorem isFirm_function (isAsync isGenerator : Bool) (name? : Option Fragment)
    (parameters body : Fragment) :
    (Generate.function isAsync isGenerator name? parameters body).IsFirm := by
  have hlast := (isFirm_brace body).sequence
    ([keywordIf isAsync "async", .token "function", keywordIf isGenerator "*"] ++ name?.toList ++
      [.paren parameters])
  simpa [Generate.function] using hlast

theorem isFirm_classCode (name? : Option Fragment) (parent? : Option Operand)
    (elements : List Fragment) : (classCode name? parent? elements).IsFirm :=
  (isFirm_brace _).sequence _

theorem isFirm_importNamed (spell : String → String) (default? : Option Fragment)
    (names : List Fragment) (specifier : String) :
    (Generate.importNamed spell default? names specifier).IsFirm := by
  unfold Generate.importNamed
  split
  · exact isFirm_statementEnd.sequence [_, _]
  · exact isFirm_statementEnd.sequence [_, _, _, _]

theorem isFirm_expressionStatement (isText : Bool) (e : Fragment) :
    (Generate.expressionStatement isText e).IsFirm := by
  unfold Generate.expressionStatement
  split
  · exact isFirm_stringStatement e
  · exact isFirm_statementEnd.sequence [_]

theorem isFirm_ifStatement (test : Fragment) {consequent : Fragment} {alternate? : Option Fragment}
    (h : consequent.IsFirm) (halternate : ∀ f ∈ alternate?, f.IsFirm) :
    (Generate.ifStatement test consequent alternate?).IsFirm := by
  cases alternate? with
  | none => exact (h.sequence [_, _]).withMarks _
  | some alternate => exact isFirm_endingIn (halternate alternate rfl) _

/-! ### Trees -/

/-- The code of a statement, or of what may end one, ends firmly.  A program may be empty. -/
def Ends : (c : Category) → Code c → Prop
  | .list c, codes => ∀ code ∈ codes, Ends c code
  | .option c, code? => ∀ code ∈ code?, Ends c code
  | .program, f => ∀ noIn, ∀ event ∈ (Fragment.events f noIn).getLast?, event.isFirm
  | .directive, f | .moduleItem, f | .importDeclaration, f | .exportDeclaration, f
  | .statement, f | .function, f | .classDeclaration, f | .block, f | .catchClause, f =>
    Fragment.IsFirm f
  | .exportable, fs | .defaultExport, fs => (Fragment.sequence fs).IsFirm
  | _, _ => True

theorem Tree.ends (spell : String → String) {c : Category} (t : Tree c) :
    Ends c (t.code spell) := by
  induction t with
  | nil => exact nofun
  | cons t ts iht ihts =>
    intro code hmem
    rcases List.mem_cons.mp hmem with rfl | hmem
    · exact iht
    · exact ihts code hmem
  | absent => exact nofun
  | present t ih =>
    rintro code ⟨⟩
    exact ih
  | script ds ss ihds ihss | moduleBody ds ss ihds ihss => exact isFirm_prologue ihds ihss
  | directive => exact isFirm_statementEnd.sequence [_]
  | ofImport _ ih | ofExport _ ih | ofStatement _ ih | blockStatement _ ih | ofFunction _ ih
  | ofClass _ ih => exact ih
  | importNamed => exact isFirm_importNamed _ _ _ _
  | importNamespace => exact isFirm_statementEnd.sequence [_, _, _, _]
  | exportAll => exact isFirm_statementEnd.sequence [_, _, _, _]
  | exportFrom => exact isFirm_statementEnd.sequence [_, _, _, _]
  | exportLocals => exact isFirm_statementEnd.sequence [_, _]
  | exportDeclared _ ih => exact IsFirm.cons ih _
  | exportDefault _ ih => exact (IsFirm.cons ih _).cons _
  | ofExportedFunction _ ih | ofExportedClass _ ih | ofDefaultFunction _ ih | ofDefaultClass _ ih =>
    exact IsFirm.sequence ih []
  | ofExportedVariables => exact isFirm_statementEnd.sequence [_]
  | ofDefaultExpression => exact isFirm_statementEnd.sequence [_]
  | function => exact isFirm_function _ _ _ _ _
  | classDeclaration => exact isFirm_classCode _ _ _
  | breakStatement => exact isFirm_statementEnd.sequence [_, _]
  | continueStatement => exact isFirm_statementEnd.sequence [_, _]
  | debuggerStatement => exact isFirm_statementEnd.sequence [_]
  | doWhile => exact isFirm_statementEnd.sequence [_, _, _, _]
  | emptyStatement => exact isFirm_semicolon
  | expressionStatement => exact isFirm_expressionStatement _ _
  | forIn _ _ _ _ _ ih | forOf _ _ _ _ _ ih | forLoop _ _ _ _ _ _ _ ih | whileLoop _ _ _ ih
  | withStatement _ _ _ ih | labeled _ _ ih => exact isFirm_endingIn ih _
  | ifStatement _ _ _ _ ih iha => exact isFirm_ifStatement _ ih iha
  | returnStatement => exact isFirm_statementEnd.sequence [_, _]
  | throwStatement => exact isFirm_statementEnd.sequence [_, _]
  | switchStatement => exact (isFirm_brace _).sequence [_, _]
  | switchWithDefault => exact (isFirm_brace _).sequence [_, _]
  | tryCatch _ _ _ ih => exact ih.sequence [_, _]
  | tryFinally _ _ _ _ _ ih => exact ih.sequence [_, _, _, _]
  | variableStatement => exact isFirm_statementEnd.sequence [_]
  | block => exact isFirm_brace _
  | catchClause _ _ _ ih => exact ih.sequence [_, _]
  | _ => trivial

end EcmaPrinter
