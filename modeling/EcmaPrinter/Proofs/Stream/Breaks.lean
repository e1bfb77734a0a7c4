import EcmaPrinter.Proofs.Stream.Writing
import EcmaPrinter.Proofs.Text.Quotation

/-!
Line breaks in a stream, over any run of its operations.

A stream that starts a new line takes back the line break that its text ends in.  What it takes back
is told by a number that was stored when the break was written, so it must not be used once
something else stands behind the break.  Every operation either writes something and forgets the
number, or leaves text and number alone (`Stream.putPiece_writes_or_quiet`).  So in every run the
number says where the last line break starts, behind some text, and that break is all that is taken
back (`Stream.EndsBehindText.run`, `Stream.exists_newline_of_run`).  The number is the length of the
break; to store the offset at which the break starts comes to the same
(`Stream.EndsBehindText.runStart_eq`).  It follows that line breaks with nothing between them but
changes of the level are one (`Stream.newline_shiftAll_newline`).

Fragments leave the level as they found it (`Fragment.depth_emit`).
-/

namespace EcmaPrinter

open EcmaPrinter.Text

namespace Stream

/-! ### Runs -/

/-- A change of the level of indentation. -/
inductive Shift where
  | indent
  | dedent
  deriving DecidableEq, Repr

/-- An operation of a stream. -/
inductive Step where
  | piece (p : Piece)
  | newline
  | shift (d : Shift)
  deriving DecidableEq, Repr

/-- Change the level. -/
def shift (s : Stream) : Shift → Stream
  | .indent => s.indent
  | .dedent => s.dedent

/-- Change the level time after time. -/
def shiftAll (s : Stream) (ds : List Shift) : Stream :=
  ds.foldl shift s

/-- Carry out an operation. -/
def step (s : Stream) : Step → Stream
  | .piece p => s.putPiece p
  | .newline => s.newline
  | .shift d => s.shift d

/-- Carry out operations one after the other. -/
def run (s : Stream) (steps : List Step) : Stream :=
  steps.foldl step s

/-! ### Operations that write nothing -/

/-- From one stream to the other nothing is written, and the line break is the same. -/
structure Quiet (s t : Stream) : Prop where
  text : t.text = s.text
  lineBreak? : t.lineBreak? = s.lineBreak?

theorem Quiet.refl (s : Stream) : Quiet s s :=
  ⟨rfl, rfl⟩

theorem Quiet.trans {s t u : Stream} (h : Quiet s t) (h' : Quiet t u) : Quiet s u :=
  ⟨h'.text.trans h.text, h'.lineBreak?.trans h.lineBreak?⟩

theorem quiet_shift (s : Stream) (d : Shift) : Quiet s (s.shift d) := by
  cases d <;> exact ⟨rfl, rfl⟩

/-- From one stream to the other something is written, and no line break is left to take back. -/
structure Writes (s t : Stream) : Prop where
  text : s.text.length < t.text.length
  lineBreak? : t.lineBreak? = none

theorem writes_blank (s : Stream) : Writes s (s.write [' ']) :=
  ⟨Nat.lt_succ_self _, rfl⟩

theorem length_le_of_writes_or_quiet {s t : Stream} (h : Writes s t ∨ Quiet s t) :
    s.text.length ≤ t.text.length :=
  h.elim (fun h => h.text.le) fun h => (congrArg List.length h.text).ge

theorem Writes.of_length_le {s t u : Stream} (h : Writes t u)
    (hle : s.text.length ≤ t.text.length) : Writes s u :=
  ⟨hle.trans_lt h.text, h.lineBreak?⟩

theorem put_writes_or_quiet (s : Stream) (text : String) :
    Writes s (s.put text) ∨ Quiet s (s.put text) := by
  unfold put
  cases h : text.toList.getLast? with
  | none =>
    rw [List.getLast?_eq_none_iff.mp h]
    exact .inr (.refl s)
  | some c =>
    rw [putChars_eq_leadIn s h]
    have hpos : 0 < text.toList.length := List.length_pos_of_mem (List.mem_of_getLast? h)
    refine .inl ⟨?_, rfl⟩
    show s.text.length < ((s.leadIn text.toList ++ text.toList).reverse ++ s.text).length
    rw [List.length_append, List.length_reverse, List.length_append]
    omega

/-- A piece writes something behind the line break, or it writes nothing. -/
theorem putPiece_writes_or_quiet (s : Stream) (p : Piece) :
    Writes s (s.putPiece p) ∨ Quiet s (s.putPiece p) := by
  cases p with
  | token text => exact s.put_writes_or_quiet text
  | semicolon => exact s.put_writes_or_quiet ";"
  | raw text =>
    simp only [putPiece, putRaw]
    split
    · exact .inr ⟨rfl, rfl⟩
    · next hne =>
      have hpos : 0 < text.toList.length := by
        rw [List.length_pos_iff]
        simpa using hne
      refine .inl ⟨?_, rfl⟩
      show s.text.length < (text.toList.reverse ++ s.text).length
      rw [List.length_append, List.length_reverse]
      omega
  | number x =>
    simp only [putPiece, putNumber]
    split
    · exact s.put_writes_or_quiet nanText
    · exact (s.put_writes_or_quiet _).imp (fun h => ⟨h.text, h.lineBreak?⟩)
        fun h => ⟨h.text, h.lineBreak?⟩
  | operator text =>
    simp only [putPiece, putOperator_eq]
    split
    · have hpad : Writes s s.pad ∨ Quiet s s.pad := by
        unfold pad
        split
        · exact .inr (.refl s)
        · exact .inl s.writes_blank
      exact .inl ((writes_blank _).of_length_le ((length_le_of_writes_or_quiet hpad).trans
        (length_le_of_writes_or_quiet (s.pad.put_writes_or_quiet text))))
    · exact s.put_writes_or_quiet text
  | comma =>
    simp only [putPiece, putSeparator]
    split
    · exact .inl ((writes_blank _).of_length_le
        (length_le_of_writes_or_quiet (s.put_writes_or_quiet ",")))
    · exact s.put_writes_or_quiet ","
  | statementEnd =>
    simp only [putPiece, endStatement]
    split
    · exact s.put_writes_or_quiet ";"
    · exact .inr ⟨rfl, rfl⟩

/-- A new line leaves the stream alone, or it breaks the line behind the text without a line
break. -/
theorem newline_cases (s : Stream) :
    s.newline = s ∨ ∃ width, s.text ≠ [] ∧ s.newline = s.joinLine.breakLine width := by
  unfold newline
  split
  · exact .inl rfl
  · next width _ =>
    split
    · exact .inl rfl
    · next htext => exact .inr ⟨s.depth * width, by simpa using htext, rfl⟩

/-! ### Where the line break starts -/

/-- If the text is said to end in a line break, it does, and there is text before the break. -/
def EndsBehindText (s : Stream) : Prop :=
  ∀ n ∈ s.lineBreak?, ∃ width before, n = width + 1 ∧ before ≠ [] ∧
    s.text = List.replicate width ' ' ++ '\n' :: before

theorem endsBehindText_of_none {s : Stream} (h : s.lineBreak? = none) : s.EndsBehindText := by
  intro n hn
  rw [h] at hn
  cases hn

theorem Quiet.endsBehindText {s t : Stream} (h : Quiet s t) (hs : s.EndsBehindText) :
    t.EndsBehindText := by
  unfold EndsBehindText
  rw [h.text, h.lineBreak?]
  exact hs

namespace EndsBehindText

variable {s : Stream}

/-- Without the line break there is still text. -/
theorem joinLine_ne_nil (h : s.EndsBehindText) (htext : s.text ≠ []) : s.joinLine.text ≠ [] := by
  cases hbreak : s.lineBreak? with
  | none => rwa [joinLine_of_none hbreak]
  | some n =>
    obtain ⟨width, before, rfl, hbefore, heq⟩ := h n hbreak
    rwa [joinLine_text hbreak heq]

theorem newline (h : s.EndsBehindText) : s.newline.EndsBehindText := by
  rcases s.newline_cases with heq | ⟨width, htext, heq⟩
  · rwa [heq]
  · rw [heq]
    intro n hn
    obtain rfl := Option.some.inj hn
    exact ⟨width, s.joinLine.text, rfl, h.joinLine_ne_nil htext, rfl⟩

theorem step (h : s.EndsBehindText) (step : Step) : (s.step step).EndsBehindText := by
  cases step with
  | piece p =>
    rcases s.putPiece_writes_or_quiet p with hwrites | hquiet
    · exact endsBehindText_of_none hwrites.lineBreak?
    · exact hquiet.endsBehindText h
  | newline => exact h.newline
  | shift d => exact (s.quiet_shift d).endsBehindText h

/-- In every run the number says where the line break starts. -/
theorem run (h : s.EndsBehindText) (steps : List Step) : (s.run steps).EndsBehindText := by
  induction steps generalizing s with
  | nil => exact h
  | cons step steps ih => exact ih (h.step step)

end EndsBehindText

/-! ### Where the line break comes from -/

/-- Behind a run the line break is still the one from before, or there is none, or a new line has
written it and nothing was written since. -/
theorem exists_newline_of_run (s : Stream) (steps : List Step) :
    Quiet s (s.run steps) ∨ (s.run steps).lineBreak? = none ∨
      ∃ past since width, steps = past ++ .newline :: since ∧
        (s.run past).newline = (s.run past).joinLine.breakLine width ∧
        Quiet (s.run past).newline (s.run steps) := by
  induction steps generalizing s with
  | nil => exact .inl (.refl s)
  | cons step steps ih =>
    rcases ih (s.step step) with hquiet | hnone | ⟨past, since, width, rfl, hline, hquiet⟩
    · -- nothing was written behind the first step: that step decides
      have hkeep (h : Quiet s (s.step step)) : Quiet s (s.run (step :: steps)) := h.trans hquiet
      cases step with
      | piece p =>
        rcases s.putPiece_writes_or_quiet p with hwrites | h
        · exact .inr (.inl (hquiet.lineBreak?.trans hwrites.lineBreak?))
        · exact .inl (hkeep h)
      | newline =>
        rcases s.newline_cases with heq | ⟨width, -, heq⟩
        · exact .inl (hkeep ⟨congrArg Stream.text heq, congrArg Stream.lineBreak? heq⟩)
        · exact .inr (.inr ⟨[], steps, width, rfl, heq, hquiet⟩)
      | shift d => exact .inl (hkeep (s.quiet_shift d))
    · exact .inr (.inl hnone)
    · exact .inr (.inr ⟨step :: past, since, width, rfl, hline, hquiet⟩)

/-- What such a new line has written is what is taken back. -/
theorem Quiet.joinLine_text {u t : Stream} {width : Nat}
    (hline : u.newline = u.joinLine.breakLine width) (h : Quiet u.newline t) :
    t.joinLine.text = u.joinLine.text := by
  rw [hline] at h
  exact Stream.joinLine_text h.lineBreak? h.text

/-! ### Line breaks with nothing between them -/

theorem depth_joinLine (s : Stream) : s.joinLine.depth = s.depth := by
  unfold joinLine
  split <;> rfl

theorem depth_newline (s : Stream) : s.newline.depth = s.depth := by
  rcases s.newline_cases with heq | ⟨width, -, heq⟩
  · rw [heq]
  · rw [heq]
    exact s.depth_joinLine

/-- Changes of the level lead from the same level to the same level. -/
theorem exists_shiftAll_eq (ds : List Shift) {s t : Stream} (h : s.depth = t.depth) :
    ∃ d, s.shiftAll ds = s.atDepth d ∧ t.shiftAll ds = t.atDepth d := by
  induction ds generalizing s t with
  | nil => exact ⟨s.depth, rfl, by rw [h]; rfl⟩
  | cons d ds ih =>
    have hdepth : (s.shift d).depth = (t.shift d).depth := by
      cases d
      · exact congrArg (· + 1) h
      · exact congrArg (· - 1) h
    obtain ⟨n, hs, ht⟩ := ih hdepth
    have hlevel (u : Stream) : (u.shift d).atDepth n = u.atDepth n := by
      cases d <;> rfl
    exact ⟨n, hs.trans (hlevel s), ht.trans (hlevel t)⟩

/-- A new line at another level replaces the one before it. -/
theorem newline_atDepth_newline (s : Stream) (d : Nat) :
    (s.newline.atDepth d).newline = (s.atDepth d).newline := by
  obtain ⟨⟨indent?, hex, webSafe⟩, text, last, number?, pending, depth, lineBreak?⟩ := s
  cases indent? with
  | none => rfl
  | some width =>
    cases text with
    | nil => rfl
    | cons c cs =>
      cases lineBreak? with
      | none | some => simp [newline, joinLine, breakLine, atDepth, List.drop_append]

/-- Line breaks with nothing between them but changes of the level are one. -/
theorem newline_shiftAll_newline (s : Stream) (ds : List Shift) :
    (s.newline.shiftAll ds).newline = (s.shiftAll ds).newline := by
  obtain ⟨d, hnewline, hs⟩ := exists_shiftAll_eq ds s.depth_newline
  rw [hnewline, hs, newline_atDepth_newline]

/-! ### The level -/

theorem depth_put (s : Stream) (text : String) : (s.put text).depth = s.depth :=
  s.depth_putAll [.token text]

end Stream

theorem Wrap.depth_emit {inner : Bool → Stream → Stream}
    (hinner : ∀ noIn s, (inner noIn s).depth = s.depth) (w : Wrap) (noIn : Bool) (s : Stream) :
    (w.emit inner noIn s).depth = s.depth := by
  have hsurround (opening closing : String) :
      ((inner false (s.put opening)).put closing).depth = s.depth := by
    rw [Stream.depth_put, hinner, Stream.depth_put]
  cases w with
  | paren | bracket | brace => exact hsurround _ _
  | noIn => exact hinner true s
  | containsIn =>
    cases noIn
    · exact hinner false s
    · exact hsurround "(" ")"
  | stringStatement =>
    exact ((inner noIn s).depth_putAll [.statementEnd]).trans (hinner noIn s)
  | line => exact (hinner noIn s.newline).trans s.depth_newline
  | indent =>
    have hbody : (inner noIn s.indent).dedent.depth = s.depth := by
      show (inner noIn s.indent).depth - 1 = s.depth
      rw [hinner]
      rfl
    show (if _ then _ else _ : Stream).depth = s.depth
    split
    · rw [Stream.depth_newline, hbody]
    · exact hbody

mutual

/-- Writing a fragment leaves the level as it was. -/
theorem Fragment.depth_emit : ∀ (f : Fragment) (noIn : Bool) (s : Stream),
    (f.emit noIn s).depth = s.depth
  | .atom _ a, _, s => by
    rw [Fragment.emit, a.emit_eq_putAll, Stream.depth_putAll]
  | .wrap _ w f, noIn, s => by
    rw [Fragment.emit]
    exact w.depth_emit (fun noIn s => Fragment.depth_emit f noIn s) noIn s
  | .series _ j fs, noIn, s => by
    rw [Fragment.emit, Fragment.depth_emitSeries j fs noIn s]
  | .declared _ l, _, s => by
    rw [Fragment.emit, Fragment.depth_emit l false s]
  | .initialized _ l r, noIn, s => by
    have hoperator : ((l.emit false s).putOperator "=").depth = (l.emit false s).depth :=
      Stream.depth_putAll _ [.operator "="]
    rw [Fragment.emit, Fragment.depth_emit r noIn, hoperator, Fragment.depth_emit l false s]

theorem Fragment.depth_emitSeries (j : Joint) : ∀ (fs : List Fragment) (noIn : Bool) (s : Stream),
    (Fragment.emitSeries j fs noIn s).depth = s.depth
  | [], _, s => by rw [Fragment.emitSeries]
  | f :: fs, noIn, s => by
    rw [Fragment.emitSeries, Fragment.depth_emitRest j fs noIn, Fragment.depth_emit f noIn s]

theorem Fragment.depth_emitRest (j : Joint) : ∀ (fs : List Fragment) (noIn : Bool) (s : Stream),
    (Fragment.emitRest j fs noIn s).depth = s.depth
  | [], _, s => by rw [Fragment.emitRest]
  | f :: fs, noIn, s => by
    rw [Fragment.emitRest, Fragment.depth_emitRest j fs noIn, Fragment.depth_emit f noIn,
      j.emit_eq_putAll, Stream.depth_putAll]

end

namespace Stream

/-! ### Line breaks in the text -/

/-- The byte of the text at which the line break starts that the text ends in. -/
def lineStart? (s : Stream) : Option Nat :=
  s.lineBreak?.map (s.toString.utf8ByteSize - ·)

/-- The text ends in a line break behind the given text: a line feed and spaces, which are all that
a new line takes back. -/
structure BreaksBehind (s : Stream) (before : String) : Prop where
  text : ∃ width, s.toString = before ++ "\n" ++ String.ofList (List.replicate width ' ')
  joinLine : s.joinLine.toString = before

theorem utf8ByteSize_blanks (width : Nat) :
    (String.ofList (List.replicate width ' ')).utf8ByteSize = width := by
  have hblank : ' '.utf8Size = 1 := rfl
  simp [utf8ByteSize_ofList, weigh, hblank]

section

variable {s : Stream} {width : Nat} {before : List Char}
  (h : s.text = List.replicate width ' ' ++ '\n' :: before)

include h

theorem toString_of_text_eq :
    s.toString =
      String.ofList before.reverse ++ "\n" ++ String.ofList (List.replicate width ' ') := by
  have hline : "\n" = String.ofList ['\n'] := rfl
  rw [toString, h, hline, ← String.ofList_append, ← String.ofList_append]
  simp

theorem utf8ByteSize_of_text_eq :
    s.toString.utf8ByteSize = (String.ofList before.reverse).utf8ByteSize + (width + 1) := by
  have hfeed : "\n".utf8ByteSize = 1 := rfl
  rw [toString_of_text_eq h, String.utf8ByteSize_append, String.utf8ByteSize_append,
    utf8ByteSize_blanks, hfeed, Nat.add_assoc, Nat.add_comm 1]

end

/-- What the number says, on the text itself. -/
theorem EndsBehindText.breaksBehind {s : Stream} (h : s.EndsBehindText) {start : Nat}
    (hstart : s.lineStart? = some start) :
    ∃ before, before ≠ "" ∧ before.utf8ByteSize = start ∧ s.BreaksBehind before := by
  obtain ⟨n, hn, hsize⟩ := Option.map_eq_some_iff.mp hstart
  obtain ⟨width, before, rfl, hbefore, htext⟩ := h n hn
  refine ⟨String.ofList before.reverse, ?_, ?_, ⟨width, toString_of_text_eq htext⟩, ?_⟩
  · simpa using hbefore
  · rwa [utf8ByteSize_of_text_eq htext, Nat.add_sub_cancel] at hsize
  · rw [toString, joinLine_text hn htext]

/-- The text without its line break has as many bytes as the break starts at. -/
theorem EndsBehindText.utf8ByteSize_joinLine {s : Stream} (h : s.EndsBehindText) :
    s.joinLine.toString.utf8ByteSize = s.lineStart?.getD s.toString.utf8ByteSize := by
  cases hstart : s.lineStart? with
  | none => rw [joinLine_of_none (Option.map_eq_none_iff.mp hstart), Option.getD_none]
  | some start =>
    obtain ⟨before, -, hsize, hbreaks⟩ := h.breaksBehind hstart
    rw [hbreaks.joinLine, hsize, Option.getD_some]

/-- A line break starts where the text before it ends. -/
theorem lineStart?_breakLine (s : Stream) (width : Nat) :
    (s.breakLine width).lineStart? = some s.toString.utf8ByteSize := by
  have hsize : (s.breakLine width).toString.utf8ByteSize =
      s.toString.utf8ByteSize + (width + 1) :=
    utf8ByteSize_of_text_eq rfl
  rw [lineStart?, hsize]
  exact congrArg some (Nat.add_sub_cancel _ _)

/-- What an operation makes of a stored offset, where the stream keeps the length of its line break:
a new line cuts the text off there and stores where the new break starts, whatever is written
forgets the offset, and all else leaves it. -/
def stepStart (s : Stream) (start? : Option Nat) : Step → Option Nat
  | .piece p => if (s.putPiece p).text = s.text then start? else none
  | .newline =>
    if s.style.isPretty ∧ s.text ≠ [] then some (start?.getD s.toString.utf8ByteSize) else start?
  | .shift _ => start?

/-- The offset that is stored behind a run. -/
def runStart (s : Stream) (start? : Option Nat) : List Step → Option Nat
  | [] => start?
  | x :: xs => (s.step x).runStart (s.stepStart start? x) xs

theorem EndsBehindText.stepStart_eq {s : Stream} (h : s.EndsBehindText) (x : Step) :
    s.stepStart s.lineStart? x = (s.step x).lineStart? := by
  have hkeep {t : Stream} (hquiet : Quiet s t) : s.lineStart? = t.lineStart? := by
    rw [lineStart?, lineStart?, toString, toString, hquiet.text, hquiet.lineBreak?]
  cases x with
  | piece p =>
    rw [stepStart, Stream.step]
    rcases s.putPiece_writes_or_quiet p with hwrites | hquiet
    · have hne : (s.putPiece p).text ≠ s.text := fun heq =>
        hwrites.text.ne (congrArg List.length heq).symm
      rw [if_neg hne, lineStart?, hwrites.lineBreak?, Option.map_none]
    · rw [if_pos hquiet.text, hkeep hquiet]
  | newline =>
    rw [stepStart, Stream.step, ← h.utf8ByteSize_joinLine, Stream.newline, Style.isPretty]
    cases s.style.indent? with
    | none => exact if_neg fun hpretty => Bool.false_ne_true hpretty.1
    | some width =>
      by_cases htext : s.text = []
      · simp [htext]
      · simp [htext, lineStart?_breakLine]
  | shift d => exact hkeep (s.quiet_shift d)

/-- Storing the offset comes to the same as storing the length, in every run. -/
theorem EndsBehindText.runStart_eq {s : Stream} (h : s.EndsBehindText) (steps : List Step) :
    s.runStart s.lineStart? steps = (s.run steps).lineStart? := by
  induction steps generalizing s with
  | nil => rfl
  | cons x xs ih =>
    rw [runStart, h.stepStart_eq x]
    exact ih (h.step x)

/-- In every run of a new stream, the line break starts at the offset that is stored for it.  It
starts behind the first byte and within the text, and from there on the text is a line feed and
spaces.  A new line wrote it behind the same text
and nothing was written since, so a new line takes back nothing else.  Hence line breaks with
nothing between them but changes of the level are one.  Fragments leave the level as it was. -/
theorem run_breaks_lines (style : Style) (steps : List Step) :
    let s : Stream := run { style := style } steps
    s.lineStart? = runStart { style := style } none steps ∧
    (∀ start ∈ s.lineStart?, 0 < start ∧ start ≤ s.toString.utf8ByteSize ∧
      ∃ before, before.utf8ByteSize = start ∧ s.BreaksBehind before ∧
        ∃ past since, steps = past ++ .newline :: since ∧
          (run { style := style } past).joinLine.toString = before ∧
          (run { style := style } past).newline.toString = s.toString) ∧
      (∀ ds, (s.newline.shiftAll ds).newline = (s.shiftAll ds).newline) ∧
      ∀ (f : Fragment) (noIn : Bool) (t : Stream), (f.emit noIn t).depth = t.depth := by
  intro s
  have hnew : EndsBehindText { style := style } := endsBehindText_of_none rfl
  refine ⟨(hnew.runStart_eq steps).symm, fun start hstart => ?_, s.newline_shiftAll_newline,
    Fragment.depth_emit⟩
  obtain ⟨before, hne, hsize, hbreaks⟩ := (hnew.run steps).breaksBehind hstart
  have hpos : 0 < start := by
    rw [← hsize, Nat.pos_iff_ne_zero, ne_eq, String.utf8ByteSize_eq_zero_iff]
    exact hne
  have hle : start ≤ s.toString.utf8ByteSize := by
    obtain ⟨width, htext⟩ := hbreaks.text
    rw [htext, String.utf8ByteSize_append, String.utf8ByteSize_append, hsize]
    omega
  refine ⟨hpos, hle, before, hsize, hbreaks, ?_⟩
  have hsome : s.lineBreak? ≠ none := by
    intro hnone
    rw [lineStart?, hnone] at hstart
    cases hstart
  rcases exists_newline_of_run { style := style } steps with
    hquiet | hnone | ⟨past, since, width, hsteps, hline, hquiet⟩
  · exact absurd hquiet.lineBreak? hsome
  · exact absurd hnone hsome
  · refine ⟨past, since, hsteps, ?_, ?_⟩
    · rw [← hbreaks.joinLine, toString, toString, hquiet.joinLine_text hline]
    · rw [toString, toString, hquiet.text]

/-- A line break behind a character of two bytes, written at one level and replaced at another. -/
theorem run_breaks_lines_replaced :
    let style : Style := { indent? := some 4 }
    let steps : List Step := [.piece (.token "é"), .shift .indent, .newline, .shift .dedent]
    let s : Stream := run { style := style } steps
    2 ∈ s.lineStart? ∧ (∃ before, before.utf8ByteSize = 2 ∧ s.BreaksBehind before) ∧
      (s.newline.shiftAll [.indent]).newline = (s.shiftAll [.indent]).newline := by
  intro style steps s
  have hstart : 2 ∈ s.lineStart? := by decide
  obtain ⟨-, hlines, hshift, -⟩ := run_breaks_lines style steps
  obtain ⟨-, -, before, hsize, hbreaks, -⟩ := hlines 2 hstart
  exact ⟨hstart, ⟨before, hsize, hbreaks⟩, hshift [.indent]⟩

end Stream

end EcmaPrinter
