import EcmaPrinter.Proofs.Lexical.Path
import EcmaPrinter.Proofs.Lexical.Sound
import EcmaPrinter.Proofs.Number.Alphabet
import EcmaPrinter.Proofs.Stream.Writing

/-!
Text as pieces with gaps between them.

A piece is not always written at once.  Whether a number takes a point and whether the end of a
statement is written depends on the piece that comes next.  `Woven` says how pieces make up a text;
`Follows` says the same from the point of view of a stream, with the rest of a piece before the next
one.
-/

namespace EcmaPrinter

open EcmaPrinter.Lexical
open EcmaPrinter.Number
open EcmaPrinter.Text

/-! ### Woven text -/

namespace Piece

/-- Is the piece a template text? -/
def isRaw : Piece → Bool
  | .raw _ => true
  | _ => false

/-- Does a pretty stream write a blank behind the piece? -/
def isPadded : Piece → Bool
  | .operator _ | .comma => true
  | _ => false

/-- How a piece is written before the given one, or at the end.  A number of digits alone takes a
point before a point.  A statement end is a semicolon; compact text goes without it before a `}` and
at the end. -/
def spelled (style : Style) (p : Piece) (next? : Option Piece) : List Char :=
  match p with
  | .number _ =>
    if next? = some (.token ".") ∧ (p.text style).all Char.isDigit then p.text style ++ ['.']
    else p.text style
  | .statementEnd =>
    if style.isPretty ∨ next?.any (· != .token "\x7d") then [';'] else []
  | _ => p.text style

end Piece

/-- The characters may stand between the pieces. -/
structure IsGap (style : Style) (p q : Piece) (gap : List Char) : Prop where
  blank : ∀ c ∈ gap, c = ' ' ∨ c = '\n'
  compact : style.isPretty = false → gap = [] ∨ gap = [' ']
  raw : p.isRaw ∨ q.isRaw → gap = []
  /-- For the web, no token is joined to a `<` that would be a script tag with it. -/
  tag : style.webSafe → gap = [] → p.isRaw = false → p ≠ .statementEnd →
    ∀ c ∈ (p.text style).getLast?, ∀ d ∈ (q.text style).head?, Stream.makesTag c d = false

/-- The text is that of the pieces, with gaps between them. -/
def Woven (style : Style) : List Piece → List Char → Prop
  | [], text => text = []
  | [p], text => text = p.spelled style none
  | p :: q :: ps, text =>
    ∃ gap rest, text = p.spelled style (some q) ++ (gap ++ rest) ∧ IsGap style p q gap ∧
      Woven style (q :: ps) rest

/-! ### Pieces in two parts -/

namespace Piece

/-- What is written of a piece at once. -/
def own (style : Style) : Piece → List Char
  | .statementEnd => if style.isPretty then [';'] else []
  | p => p.text style

/-- What is written of a piece when the next one is known. -/
def after (style : Style) (p : Piece) (next? : Option Piece) : List Char :=
  match p with
  | .number _ => if next? = some (.token ".") ∧ (p.text style).all Char.isDigit then ['.'] else []
  | .statementEnd =>
    if style.isPretty = false ∧ next?.any (· != .token "\x7d") then [';'] else []
  | _ => []

theorem spelled_eq (style : Style) (p : Piece) (next? : Option Piece) :
    p.spelled style next? = p.own style ++ p.after style next? := by
  cases p with
  | number x =>
    simp only [spelled, own, after]
    split <;> simp
  | statementEnd =>
    simp only [spelled, own, after]
    cases style.isPretty <;> simp
  | token | raw | operator | comma | semicolon => simp [spelled, own, after]

theorem after_none (style : Style) (p : Piece) : p.after style none = [] := by
  cases p <;> simp [after]

end Piece

/-- The text of the pieces that follow a piece, or stand at the start. -/
def Follows (style : Style) : Option Piece → List Piece → List Char → Prop
  | _, [], text => text = []
  | none, q :: qs, text => ∃ rest, text = q.own style ++ rest ∧ Follows style (some q) qs rest
  | some p, q :: qs, text =>
    ∃ gap rest, text = p.after style (some q) ++ (gap ++ (q.own style ++ rest)) ∧
      IsGap style p q gap ∧ Follows style (some q) qs rest

theorem Follows.woven_cons {style : Style} {p : Piece} {qs : List Piece} {text : List Char}
    (h : Follows style (some p) qs text) : Woven style (p :: qs) (p.own style ++ text) := by
  induction qs generalizing p text with
  | nil =>
    obtain rfl : text = [] := h
    simp [Woven, Piece.spelled_eq, Piece.after_none]
  | cons q qs ih =>
    obtain ⟨gap, rest, rfl, hgap, h⟩ := h
    exact ⟨gap, _, by simp [Piece.spelled_eq], hgap, ih h⟩

theorem Follows.woven {style : Style} {ps : List Piece} {text : List Char}
    (h : Follows style none ps text) : Woven style ps text := by
  cases ps with
  | nil => exact h
  | cons p ps =>
    obtain ⟨rest, rfl, h⟩ := h
    exact h.woven_cons

/-! ### Pieces by the table -/

/-- A piece that may stand behind the edge by the table, whatever names and literals it is made
of. -/
structure Loose (e : Edge) (p : Piece) : Prop where
  allows : Lexical.allows e p
  nonempty : p.isEmpty = false
  solid : p ≠ .statementEnd
  close : p ∉ [.operator ".", .operator "\x60", .operator "\x7d"]

/-- Only numbers are written in more than one style. -/
theorem Piece.text_eq {p : Piece} (h : kindOf p ≠ .number) (style : Style) :
    p.text style = charsOf {} p := by
  cases p with
  | number x => exact absurd rfl h
  | token | raw | operator | comma | semicolon | statementEnd => rfl

theorem text_number_ne (style : Style) (x : Double) :
    (Piece.number x).text style ≠ [] ∧ (Piece.number x).text style ≠ ['.'] ∧
      (Piece.number x).text style ≠ ['}'] := by
  simp only [Piece.text]
  split
  · decide
  · next hnan =>
    obtain ⟨hne, hpoint⟩ := numberText_ne style (by simpa using hnan)
    refine ⟨hne, hpoint, fun hbrace => ?_⟩
    have hnumeric := isNumeric_numberText style x
    change (Stream.numberText style x).toList = ['}'] at hbrace
    rw [hbrace] at hnumeric
    exact absurd (hnumeric '}' (List.mem_singleton_self _)) (by decide)

namespace Loose

variable {e : Edge} {p : Piece}

theorem text_ne_nil (h : Loose e p) (style : Style) : p.text style ≠ [] := by
  have hempty := h.nonempty
  cases p with
  | token text | raw text | operator text =>
    intro hnil
    have htext : text = "" := String.toList_eq_nil_iff.mp hnil
    rw [htext] at hempty
    cases hempty
  | number x => exact (text_number_ne style x).1
  | comma | semicolon | statementEnd => exact List.cons_ne_nil _ _

/-- A point or a brace is written by one piece only. -/
theorem eq_of_text (h : Loose e p) (hraw : p.isRaw = false) {style : Style} {mark : String}
    (hmark : mark = "." ∨ mark = "\x7d") (htext : p.text style = mark.toList) :
    p = .token mark := by
  cases p with
  | token text => rw [String.toList_inj.mp htext]
  | raw text => cases hraw
  | operator text =>
    have hclose := h.close
    obtain rfl : text = mark := String.toList_inj.mp htext
    rcases hmark with rfl | rfl <;> simp at hclose
  | number x =>
    obtain ⟨-, hpoint, hbrace⟩ := text_number_ne style x
    rcases hmark with rfl | rfl
    · exact absurd htext hpoint
    · exact absurd htext hbrace
  | comma | semicolon => rcases hmark with rfl | rfl <;> cases htext
  | statementEnd => exact absurd rfl h.solid

/-- Behind a template text there is the mark of the template or of a substitution. -/
theorem head_of_chunk (h : Loose .chunk p) (hraw : p.isRaw = false) (style : Style) :
    ∃ c cs, p.text style = c :: cs ∧ (c = '\x60' ∨ c = '$') := by
  rcases allows_chunk h.allows with hgoal | ⟨hkind, hchars⟩
  · cases hkind : kindOf p with
    | chunk =>
      obtain ⟨text, rfl⟩ := exists_raw_of_chunk hkind
      cases hraw
    | substitution =>
      rw [Piece.text_eq (by rw [hkind]; decide), chars_of_substitution hkind]
      exact ⟨_, _, rfl, .inr rfl⟩
    | word | number | string | regExp | punctuator =>
      rw [hkind] at hgoal
      cases hgoal
  · rw [Piece.text_eq (by rw [hkind]; decide), hchars]
    exact ⟨_, _, rfl, .inl rfl⟩

end Loose

end EcmaPrinter
