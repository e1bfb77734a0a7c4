import EcmaPrinter.Proofs.Lexical.Laid
import EcmaPrinter.Proofs.Render.Failure
import EcmaPrinter.Proofs.Text.Spelled
import EcmaPrinter.Proofs.Tree.Endings

/-!
Pretty and compact text of the same program.

If the names of a program are names, its pieces follow each other by the table, whatever its
numbers, patterns and texts are made of (`Program.exists_loose_path`).  So its text is woven from
its pieces in either style, and the styles differ in gaps and in semicolons only (`render_agrees`).
-/

namespace EcmaPrinter

open EcmaPrinter.Generate
open EcmaPrinter.Lexical
open EcmaPrinter.Number
open EcmaPrinter.Text

/-! ### Pieces of any program -/

instance : Rule.Lawful Loose where
  solid _ _ h := h.solid
  fixed p hfixed hcommon e hallows := by
    have hsound := sound_of_isFixed hfixed
    have hclose := (Bool.and_eq_true_iff.mp hcommon).2
    exact ⟨hallows, hsound.isEmpty_eq_false, hsound.ne_statementEnd, by simpa using hclose⟩
  number _ _ _ _ hallows := ⟨hallows, rfl, nofun, by simp⟩

/-- Every token with some text may stand where the table lets it. -/
theorem admits_loose {text : String} (hne : text.toList ≠ []) :
    Rule.Admits Loose (.token text) := by
  refine fun e hallows => ⟨hallows, ?_, nofun, by simp⟩
  simpa [Piece.isEmpty] using hne

theorem admitsString_loose {text : String} {mark : Char} {cs : List Char} (hmark : isQuote mark)
    (h : text.toList = mark :: cs) : Rule.AdmitsString Loose text where
  admits := admits_loose (by simp [h])
  kind := by
    rw [← String.ofList_toList (s := text), h]
    exact kindOf_quoted hmark cs

instance (o : Options) : Rule.Quotes Loose o.spell where
  quote value := by
    obtain ⟨mark, cs, hmark, hcs⟩ := o.exists_spell_quote value
    exact admitsString_loose hmark hcs

/-- The spelling of a name is a name with escapes in it. -/
theorem mem_spell (o : Options) {name : String} (h : isIdentifierName name) {c : Char}
    (hc : c ∈ (o.spell name).toList) : isIdentifierPart c ∨ c ∈ escapeAlphabet := by
  have hname : isName name.toList := by rwa [isIdentifierName_eq] at h
  have hall := all_isIdentifierPart_of_isName hname
  unfold Options.spell at hc
  split at hc
  · rw [webSafe, String.toList_ofList, webSafeChars_name hall] at hc
    obtain ⟨d, hd, hc⟩ := List.mem_flatMap.mp hc
    unfold plainSpelling at hc
    split at hc
    · exact .inl (List.mem_singleton.mp hc ▸ hall d hd)
    · exact .inr (mem_plainEscape hc)
  · exact .inl (hall c hc)

theorem exists_spell_name (o : Options) {name : String} (h : isIdentifierName name) :
    ∃ c cs, (o.spell name).toList = c :: cs ∧ (isIdentifierStart c ∨ c = backslash) := by
  have hname : isName name.toList := by rwa [isIdentifierName_eq] at h
  have hall := all_isIdentifierPart_of_isName hname
  rcases hchars : name.toList with - | ⟨c, cs⟩
  · rw [hchars] at hname
    cases hname
  · have hc : isIdentifierStart c := by
      rw [hchars] at hname
      exact (Bool.and_eq_true_iff.mp hname).1
    unfold Options.spell
    split
    · rw [webSafe, String.toList_ofList, webSafeChars_name hall, hchars, List.flatMap_cons,
        plainSpelling]
      split
      · exact ⟨c, _, rfl, .inl hc⟩
      · obtain ⟨ds, hds⟩ := exists_plainEscape_eq_cons c
        rw [hds]
        exact ⟨backslash, _, rfl, .inr rfl⟩
    · exact ⟨c, cs, hchars, .inl hc⟩

theorem kindOf_spell (o : Options) {name : String} (h : isIdentifierName name) :
    kindOf (.token (o.spell name)) = .word := by
  obtain ⟨c, cs, hcs, hc⟩ := exists_spell_name o h
  have hmark : o.spell name ≠ "$\x7b" := by
    intro heq
    rcases mem_spell o h (c := '{') (by rw [heq]; decide) with hpart | hmem
    · cases hpart
    · exact absurd hmem (by decide)
  have hslash : c ≠ '/' := by
    rintro rfl
    rcases hc with hc | hc <;> cases hc
  simp [kindOf, hmark, hcs, hslash, textKind, hc]

theorem admitsName_loose (o : Options) {name : String} (h : isIdentifierName name) :
    Rule.AdmitsName Loose (o.spell name) := by
  obtain ⟨c, cs, hcs, -⟩ := exists_spell_name o h
  exact ⟨admits_loose (by simp [hcs]), kindOf_spell o h⟩

theorem admitsParts_loose (texts : String → String) (parts : List Chunk) {S : List Edge}
    (hS : S ⊆ inside) : Rule.AdmitsParts Loose texts S parts := by
  induction parts generalizing S with
  | nil => trivial
  | cons part parts ih =>
    cases part with
    | hole => exact ih (by decide)
    | text raw =>
      refine ⟨fun hne e he => ⟨?_, ?_, nofun, by simp⟩, ih (List.cons_subset.mpr ⟨by decide, hS⟩)⟩
      · simpa [allows, kindOf, inside] using hS he
      · simpa [Piece.isEmpty] using hne

theorem Tree.isAdmitted_loose (o : Options) {c : Category} {t : Tree c}
    (h : ∀ name ∈ t.ownNames, isIdentifierName name) : t.IsAdmitted Loose o.spell := by
  have hnames := fun name hname => admitsName_loose o (h name hname)
  cases t with
  | directive raw =>
    obtain ⟨mark, cs, hmark, hcs⟩ := o.exists_spell_quoteDirective raw
    exact admitsString_loose hmark hcs
  | staticName => exact admitsName_loose o
  | number => exact fun _ hallows => ⟨hallows, rfl, nofun, by simp⟩
  | regExp => exact admits_loose (by simp)
  | template _ parts => exact admitsParts_loose _ _ (by decide)
  | _ => exact hnames

/-- The events of a program lead from its start to the end of a statement. -/
theorem Program.exists_loose_path (o : Options) {p : Program}
    (h : p.AllNames (isIdentifierName ·)) :
    ∃ e ∈ between, Path Loose .operator ((Program.fragment o p).events false) e :=
  have hlaid : Laid Loose .program (p.code o.spell) :=
    p.laid fun n hn => Tree.isAdmitted_loose o (h n hn)
  hlaid false .operator (by decide)

/-! ### Woven programs -/

/-- What is written of a program: its pieces, without the empty ones. -/
def Program.walk (o : Options) (p : Program) : List Piece :=
  solid ((Program.fragment o p).pieces false)

/-- The text of a program is woven from its pieces. -/
theorem Program.woven (o : Options) {p : Program} (h : p.AllNames (isIdentifierName ·))
    (style : Style) :
    Woven style (Program.walk o p) ((Program.fragment o p).render style).toList := by
  obtain ⟨e, -, hpath⟩ := Program.exists_loose_path o h
  have hends : Ends .program (p.code o.spell) := p.ends o.spell
  have hlays := (Program.fragment o p).lays_emit false { style := style }
  have hwoven := hpath.woven hlays (hends false)
  rw [Fragment.pieces_events] at hwoven
  rw [Fragment.render, Stream.toString, String.toList_ofList]
  exact hwoven

/-- Only numbers are written in more than one style, and these go by the choice of hexadecimal
digits. -/
theorem Piece.spelled_eq_of_hex {style style' : Style} (h : style.hex = style'.hex) {q : Piece}
    (hq : q ≠ .statementEnd) (next? : Option Piece) :
    q.spelled style next? = q.spelled style' next? := by
  cases q with
  | number x =>
    have htext : (Piece.number x).text style = (Piece.number x).text style' := by
      simp [text, charsOf, Stream.numberText, h]
    simp only [spelled, htext]
  | statementEnd => exact absurd rfl hq
  | token | raw | operator | comma | semicolon => rfl

/-- Pretty and compact text agree up to layout.  Both renderings fail with the same hazard, or both
texts are woven from the same pieces; all pieces but statement ends are then spelled alike. -/
theorem render_agrees (o : Options) (p : Program) (h : p.AllNames (isIdentifierName ·)) :
    let compact := { o with pretty := false }
    let pretty := { o with pretty := true }
    (∃ hazard, Program.render compact p = .error hazard ∧
      Program.render pretty p = .error hazard) ∨
    ∃ s t, Program.render compact p = .ok s ∧ Program.render pretty p = .ok t ∧
      Woven compact.style (Program.walk o p) s.toList ∧
      Woven pretty.style (Program.walk o p) t.toList ∧
      ∀ q : Piece, q ≠ .statementEnd → ∀ next?,
        q.spelled compact.style next? = q.spelled pretty.style next? := by
  intro compact pretty
  have hcompact := Program.render_eq_answer compact p
  have hpretty := Program.render_eq_answer pretty p
  have hhex : compact.style.hex = pretty.style.hex := rfl
  rcases hhazard : (if o.webSafe then p.heads.findSome? Head.hazard? else none) with - | hazard
  · refine .inr ⟨_, _, hcompact.trans (congrArg (answer compact _) hhazard),
      hpretty.trans (congrArg (answer pretty _) hhazard), Program.woven o h _, Program.woven o h _,
      fun q hq next? => Piece.spelled_eq_of_hex hhex hq next?⟩
  · exact .inl ⟨hazard, hcompact.trans (congrArg (answer compact _) hhazard),
      hpretty.trans (congrArg (answer pretty _) hhazard)⟩

/-- The statements `t${1..x}` in marks, `{return a+b}` and `c`, for the web. -/
theorem render_agrees_template :
    let name (n : String) : Expression := .ofIdentifier (.identifier n)
    let one : Expression := .number (.ofBits 0x3FF0000000000000)
    let parts : Tree (.list .templatePart) :=
      .cons (.templateText "t") (.cons (.ofSubstitution (.staticMember (.ofCallee one) "x")) .nil)
    let sum : Expression := .binary (name "a") .add (name "b")
    let p : Program :=
      .script .nil (.cons (.expressionStatement (.template .absent parts))
        (.cons (.blockStatement (.block (.cons (.returnStatement (.present sum)) .nil)))
          (.cons (.expressionStatement (name "c")) .nil)))
    let compact : Options := { webSafe := true }
    let pretty : Options := { pretty := true, webSafe := true }
    p.AllNames (isIdentifierName ·) ∧
    Program.render compact p = .ok "\x60t$\x7b1..x\x7d\x60;\x7breturn a+b\x7dc" ∧
    Program.render pretty p = .ok "\x60t$\x7b1..x\x7d\x60;\n\x7b\n  return a + b;\n\x7d\nc;" ∧
    ∃ s t, Program.render compact p = .ok s ∧ Program.render pretty p = .ok t ∧
      Woven compact.style (Program.walk compact p) s.toList ∧
      Woven pretty.style (Program.walk compact p) t.toList := by
  intro name one parts sum p compact pretty
  have hnames : p.AllNames (isIdentifierName ·) := by decide
  have hhazard : p.heads.findSome? Head.hazard? = none := by decide
  have hrender (o : Options) (ho : o.webSafe) :
      Program.render o p = .ok ((Program.fragment o p).render o.style) := by
    rw [Program.render_eq_answer, if_pos ho, hhazard, answer]
  have hcompact : Program.render compact p = .ok "\x60t$\x7b1..x\x7d\x60;\x7breturn a+b\x7dc" :=
    (hrender compact rfl).trans (congrArg Except.ok (by decide))
  have hpretty : Program.render pretty p =
      .ok "\x60t$\x7b1..x\x7d\x60;\n\x7b\n  return a + b;\n\x7d\nc;" :=
    (hrender pretty rfl).trans (congrArg Except.ok (by decide))
  refine ⟨hnames, hcompact, hpretty, ?_⟩
  rcases render_agrees compact p hnames with
    ⟨hazard, herror, -⟩ | ⟨s, t, hs, ht, hwoven, hwoven', -⟩
  · cases herror.symm.trans hcompact
  · exact ⟨s, t, hs, ht, hwoven, hwoven'⟩

end EcmaPrinter
