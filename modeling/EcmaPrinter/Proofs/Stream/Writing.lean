import EcmaPrinter.Proofs.Fragment.Events
import EcmaPrinter.Proofs.Lexical.Layout

/-!
What is written to a stream stays there.

A token may come with characters of the stream before it: a semicolon that was held back, a blank,
or the point of a number.  Only a line break is ever taken back, to be written anew at another
level.  So every character of a piece that is no blank and no line feed is in the text from then on
(`Lays.mem_text`), in streams of either style.
-/

namespace EcmaPrinter

open EcmaPrinter.Lexical
open EcmaPrinter.Number

/-! ### The text of pieces -/

/-- The text of a piece.  There is no literal for NaN. -/
def Piece.text (style : Style) : Piece → List Char
  | .number x => if x.isNaN then Stream.nanText.toList else charsOf style (.number x)
  | p => charsOf style p

namespace Stream

variable {s : Stream}

/-! ### Tokens -/

/-- A semicolon that is held back is written before a token other than a brace. -/
def held (s : Stream) (token : List Char) : List Char :=
  if s.pending && token != ['}'] then [';'] else []

theorem settle_eq (s : Stream) (token : List Char) :
    s.settle token =
      { s with
        text := s.held token ++ s.text
        last := if s.pending && token != ['}'] then ';' else s.last
        pending := false
        lineBreak? := if s.pending && token != ['}'] then none else s.lineBreak? } := by
  obtain ⟨style, text, last, number?, pending, depth, lineBreak?⟩ := s
  cases pending with
  | false => simp [settle, held]
  | true =>
    by_cases hbrace : token = ['}']
    · simp [settle, held, hbrace]
    · simp [settle, held, hbrace, write, append]

/-- A token is put as if what is held back had been written before. -/
theorem putChars_settle (s : Stream) (cs : List Char) (h : cs ≠ []) :
    s.putChars cs = (s.settle cs).putChars cs := by
  obtain ⟨first, rest, rfl⟩ := List.exists_cons_of_ne_nil h
  have hsettle : (s.settle (first :: rest)).settle (first :: rest) = s.settle (first :: rest) := by
    rw [settle_eq (s.settle _), settle_eq s]
    simp [held]
  simp only [putChars, hsettle]

/-- What is written before the characters of a token. -/
def leadIn (s : Stream) (cs : List Char) : List Char :=
  s.held cs ++ leadChars (s.settle cs) cs

/-- A token is written behind its lead. -/
theorem putChars_eq_leadIn (s : Stream) {cs : List Char} {c : Char} (h : cs.getLast? = some c) :
    s.putChars cs =
      { s with
        text := (s.leadIn cs ++ cs).reverse ++ s.text
        last := c
        number? := none
        pending := false
        lineBreak? := none } := by
  have hne : cs ≠ [] := by
    rintro rfl
    cases h
  have hheld : (s.held cs).reverse = s.held cs := by
    unfold held
    split <;> rfl
  have hpending : (s.settle cs).pending = false := by rw [settle_eq]
  rw [putChars_settle s cs hne, putChars_eq hpending h, settle_eq]
  simp [leadIn, hheld, settle_eq]

/-! ### Line breaks -/

/-- If the text is said to end in a line break, it does. -/
def EndsInBreak (s : Stream) : Prop :=
  ∀ n ∈ s.lineBreak?, ∃ k before, n = k + 1 ∧ s.text = List.replicate k ' ' ++ '\n' :: before

/-- Is the character no part of a line break? -/
def isVisible (c : Char) : Bool :=
  c != ' ' && c != '\n'

/-- From one stream to the other the style stays, and so does all text that is no line break. -/
structure Keeps (s t : Stream) : Prop where
  style : t.style = s.style
  endsInBreak : s.EndsInBreak → t.EndsInBreak
  mem : s.EndsInBreak → ∀ c, isVisible c → c ∈ s.text → c ∈ t.text

theorem Keeps.refl (s : Stream) : Keeps s s :=
  ⟨rfl, id, fun _ _ _ => id⟩

theorem Keeps.trans {t u : Stream} (h : Keeps s t) (h' : Keeps t u) : Keeps s u where
  style := h'.style.trans h.style
  endsInBreak hs := h'.endsInBreak (h.endsInBreak hs)
  mem hs c hc hmem := h'.mem (h.endsInBreak hs) c hc (h.mem hs c hc hmem)

/-- Only the style, the text and its line break count. -/
theorem Keeps.of_eq {t u : Stream} (h : Keeps s t) (hstyle : u.style = t.style)
    (htext : u.text = t.text) (hbreak : u.lineBreak? = t.lineBreak?) : Keeps s u where
  style := hstyle.trans h.style
  endsInBreak hs := by
    have ht := h.endsInBreak hs
    unfold EndsInBreak at ht ⊢
    rwa [htext, hbreak]
  mem hs c hc hmem := by
    rw [htext]
    exact h.mem hs c hc hmem

/-- Keeps what is added to. -/
theorem keeps_of_suffix {t : Stream} (hstyle : t.style = s.style) (hbreak : t.lineBreak? = none)
    (htext : s.text <:+ t.text) : Keeps s t where
  style := hstyle
  endsInBreak _ n hn := by
    rw [hbreak] at hn
    cases hn
  mem _ _ _ hmem := htext.mem hmem

theorem keeps_write (s : Stream) (cs : List Char) : Keeps s (s.write cs) := by
  cases h : cs.getLast? with
  | none =>
    have heq : s.write cs = s := by simp [write, h]
    rw [heq]
    exact .refl s
  | some c =>
    rw [write_eq h]
    exact keeps_of_suffix rfl rfl (List.suffix_append _ _)

theorem keeps_put (s : Stream) (text : String) : Keeps s (s.put text) := by
  unfold put
  cases h : text.toList.getLast? with
  | none =>
    rw [List.getLast?_eq_none_iff.mp h]
    exact .refl s
  | some c =>
    rw [putChars_eq_leadIn s h]
    exact keeps_of_suffix rfl rfl (List.suffix_append _ _)

theorem mem_put (s : Stream) {text : String} {c : Char} (h : c ∈ text.toList) :
    c ∈ (s.put text).text := by
  unfold put
  have hne : text.toList ≠ [] := List.ne_nil_of_mem h
  rw [putChars_eq_leadIn s (List.getLast?_eq_some_getLast hne)]
  exact List.mem_append_left _ (List.mem_reverse.mpr (List.mem_append_right _ h))

/-- In a pretty stream there may be a blank before an operator. -/
def pad (s : Stream) : Stream :=
  if s.last == ' ' || s.last == '\n' || s.last == '\x00' then s else s.write [' ']

theorem keeps_pad (s : Stream) : Keeps s s.pad := by
  unfold pad
  split
  · exact .refl s
  · exact keeps_write s _

theorem putOperator_eq (s : Stream) (op : String) :
    s.putOperator op = if s.style.isPretty then (s.pad.put op).write [' '] else s.put op := rfl

/-- A piece leaves the text before it as it is. -/
theorem keeps_putPiece (s : Stream) (p : Piece) : Keeps s (s.putPiece p) := by
  cases p with
  | token text => exact keeps_put s text
  | semicolon => exact keeps_put s ";"
  | raw text =>
    simp only [putPiece, putRaw]
    split
    · exact (Keeps.refl s).of_eq rfl rfl rfl
    · exact keeps_of_suffix rfl rfl (List.suffix_append _ _)
  | number x =>
    simp only [putPiece, putNumber]
    split
    · exact keeps_put s _
    · exact (keeps_put s _).of_eq rfl rfl rfl
  | operator text =>
    simp only [putPiece, putOperator_eq]
    split
    · exact ((keeps_pad s).trans (keeps_put _ text)).trans (keeps_write _ _)
    · exact keeps_put s text
  | comma =>
    simp only [putPiece, putSeparator]
    split
    · exact (keeps_put s ",").trans (keeps_write _ _)
    · exact keeps_put s ","
  | statementEnd =>
    simp only [putPiece, endStatement]
    split
    · exact keeps_put s ";"
    · exact (Keeps.refl s).of_eq rfl rfl rfl

theorem mem_write {cs : List Char} {c : Char} (h : c ∈ s.text) : c ∈ (s.write cs).text := by
  cases hlast : cs.getLast? with
  | none => simpa [write, hlast] using h
  | some d =>
    rw [write_eq hlast]
    exact List.mem_append_right _ h

/-- The characters of a piece are in the text behind it. -/
theorem mem_putPiece (s : Stream) {p : Piece} (hp : p ≠ .statementEnd) {c : Char}
    (h : c ∈ p.text s.style) : c ∈ (s.putPiece p).text := by
  cases p with
  | token text => exact mem_put s h
  | semicolon => exact mem_put s h
  | raw text =>
    have hne : text.isEmpty = false := by
      rw [Bool.eq_false_iff]
      intro hempty
      rw [String.isEmpty_iff.mp hempty] at h
      cases h
    simp only [putPiece, putRaw, hne]
    exact List.mem_append_left _ (List.mem_reverse.mpr h)
  | number x =>
    simp only [putPiece, putNumber]
    simp only [Piece.text] at h
    split at h
    · next hnan =>
      rw [if_pos hnan]
      exact mem_put s h
    · next hnan =>
      rw [if_neg hnan]
      exact mem_put s h
  | operator text =>
    simp only [putPiece, putOperator_eq]
    split
    · exact mem_write (mem_put _ h)
    · exact mem_put s h
  | comma =>
    simp only [putPiece, putSeparator]
    split
    · exact mem_write (mem_put s h)
    · exact mem_put s h
  | statementEnd => exact absurd rfl hp

theorem style_joinLine (s : Stream) : s.joinLine.style = s.style := by
  unfold joinLine
  split <;> rfl

theorem joinLine_of_none (h : s.lineBreak? = none) : s.joinLine = s := by
  unfold joinLine
  rw [h]

/-- The text without the line break that it ends in. -/
theorem joinLine_text {width : Nat} {before : List Char} (hbreak : s.lineBreak? = some (width + 1))
    (htext : s.text = List.replicate width ' ' ++ '\n' :: before) : s.joinLine.text = before := by
  have hdrop : s.text.drop (width + 1) = before := by
    rw [htext, List.drop_append]
    simp
  unfold joinLine
  rw [hbreak]
  exact hdrop

/-- A line break replaces at most the line break before it. -/
theorem keeps_newline (s : Stream) : Keeps s s.newline := by
  unfold newline
  split
  · exact .refl s
  · next width _ =>
    split
    · exact .refl s
    · refine ⟨s.style_joinLine, fun _ n hn => ?_, fun hs c hc hmem => ?_⟩
      · obtain rfl := Option.some.inj hn
        exact ⟨_, s.joinLine.text, rfl, rfl⟩
      · have hjoin : c ∈ s.joinLine.text := by
          cases hbreak : s.lineBreak? with
          | none =>
            rw [joinLine_of_none hbreak]
            exact hmem
          | some n =>
            obtain ⟨k, before, rfl, htext⟩ := hs n hbreak
            have hvisible : c ≠ ' ' ∧ c ≠ '\n' := by simpa [isVisible] using hc
            rw [joinLine_text hbreak htext]
            simpa [htext, hvisible] using hmem
        exact List.mem_append_right _ (List.mem_cons_of_mem _ hjoin)

end Stream

/-! ### Whole fragments -/

namespace Lays

variable {s t : Stream} {es : List Event}

theorem keeps (h : Lays s es t) : Stream.Keeps s t := by
  induction h with
  | done s d => exact (Stream.Keeps.refl s).of_eq rfl rfl rfl
  | put _ ih => exact (Stream.keeps_putPiece _ _).trans ih
  | @turn s t es d _ ih =>
    have hdepth : Stream.Keeps s (s.atDepth d) := (Stream.Keeps.refl s).of_eq rfl rfl rfl
    exact (hdepth.trans (Stream.keeps_newline _)).trans ih
  | stay _ ih => exact ih

/-- The characters of all pieces are in the text in the end. -/
theorem mem_text (h : Lays s es t) (hs : s.EndsInBreak) {p : Piece} (hp : p ∈ Event.pieces es)
    (hend : p ≠ .statementEnd) {c : Char} (hc : c ∈ p.text s.style)
    (hvisible : Stream.isVisible c) : c ∈ t.text := by
  induction h with
  | done s d => cases hp
  | @put s t q es h ih =>
    have hkeeps := Stream.keeps_putPiece s q
    rcases List.mem_cons.mp hp with rfl | hp
    · exact h.keeps.mem (hkeeps.endsInBreak hs) c hvisible (Stream.mem_putPiece s hend hc)
    · exact ih (hkeeps.endsInBreak hs) hp (hkeeps.style ▸ hc)
  | @turn s t es d h ih =>
    have hkeeps := Stream.keeps_newline (s.atDepth d)
    exact ih (hkeeps.endsInBreak hs) hp (hkeeps.style ▸ hc)
  | stay _ ih => exact ih hs hp hc

end Lays

end EcmaPrinter
