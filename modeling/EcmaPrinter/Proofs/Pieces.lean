import EcmaPrinter.Fragment.Emit

/-!
The pieces of a fragment: what the walk over it hands to the output stream, in order.

A fragment decides on brackets and on the order of its parts without looking at the stream, so
its pieces are a plain list.  In a compact stream nothing else happens: writing a fragment is
putting its pieces one after the other (`Fragment.emit_eq_putAll`), for line breaks and
indentation leave such a stream alone.

`settle` turns the pieces into the tokens of the text: empty ones are dropped, and a statement end
becomes a semicolon unless a `}` or the end of the output follows it.
-/

namespace EcmaPrinter

open EcmaPrinter.Number

/-- What a fragment hands to the stream. -/
inductive Piece where
  | token (text : String)
  | raw (text : String)
  | number (value : Double)
  | operator (text : String)
  | comma
  | semicolon
  /-- The end of a statement, written as a semicolon where one is needed. -/
  | statementEnd
  deriving DecidableEq, Repr

/-! ### The pieces of a fragment -/

/-- The piece of a fragment without parts. -/
def Atom.pieces : Atom → List Piece
  | .empty => []
  | .token text => [.token text]
  | .raw text => [.raw text]
  | .number v => [.number v]
  | .operator text => [.operator text]
  | .semicolon => [.semicolon]
  | .statementEnd => [.statementEnd]

/-- The pieces between two parts of a series. -/
def Joint.pieces : Joint → List Piece
  | .nothing => []
  | .comma => [.comma]

/-- Pieces between two tokens. -/
def enclose (opening closing : String) (ps : List Piece) : List Piece :=
  .token opening :: (ps ++ [.token closing])

/-- The pieces of a fragment with something around it; `inner` gives those of the fragment. -/
def Wrap.pieces (inner : Bool → List Piece) (noIn : Bool) : Wrap → List Piece
  | .paren => enclose "(" ")" (inner false)
  | .bracket => enclose "[" "]" (inner false)
  | .brace => enclose "\x7b" "\x7d" (inner false)
  | .noIn => inner true
  | .containsIn => if noIn then enclose "(" ")" (inner false) else inner false
  | .stringStatement => inner noIn ++ [.statementEnd]
  | .line | .indent => inner noIn

mutual

/-- The pieces of a fragment. -/
def Fragment.pieces : Fragment → (noIn : Bool) → List Piece
  | .atom _ a, _ => a.pieces
  | .wrap _ w f, noIn => w.pieces f.pieces noIn
  | .series _ j fs, noIn => Fragment.seriesPieces j fs noIn
  | .declared _ l, _ => l.pieces false
  | .initialized _ l r, noIn => l.pieces false ++ .operator "=" :: r.pieces noIn

/-- The pieces of a series. -/
def Fragment.seriesPieces (j : Joint) : List Fragment → (noIn : Bool) → List Piece
  | [], _ => []
  | f :: fs, noIn => f.pieces noIn ++ Fragment.restPieces j fs noIn

/-- The pieces of the later parts of a series, each behind the joint. -/
def Fragment.restPieces (j : Joint) : List Fragment → (noIn : Bool) → List Piece
  | [], _ => []
  | f :: fs, noIn => j.pieces ++ (f.pieces noIn ++ Fragment.restPieces j fs noIn)

end

namespace Fragment

@[simp] theorem marks_withMarks (m : Marks) (f : Fragment) : (f.withMarks m).marks = m := by
  cases f <;> rfl

@[simp] theorem pieces_withMarks (m : Marks) (f : Fragment) (noIn : Bool) :
    (f.withMarks m).pieces noIn = f.pieces noIn := by
  cases f <;> rfl

@[simp] theorem pieces_empty (noIn : Bool) : empty.pieces noIn = [] := rfl

@[simp] theorem pieces_token (text : String) (noIn : Bool) :
    (token text).pieces noIn = [.token text] := rfl

@[simp] theorem pieces_raw (text : String) (noIn : Bool) :
    (raw text).pieces noIn = [.raw text] := rfl

@[simp] theorem pieces_number (v : Double) (noIn : Bool) :
    (number v).pieces noIn = [.number v] := rfl

@[simp] theorem pieces_operator (text : String) (noIn : Bool) :
    (operator text).pieces noIn = [.operator text] := rfl

@[simp] theorem pieces_semicolon (noIn : Bool) : semicolon.pieces noIn = [.semicolon] := rfl

@[simp] theorem pieces_statementEnd (noIn : Bool) :
    statementEnd.pieces noIn = [.statementEnd] := rfl

@[simp] theorem pieces_paren (f : Fragment) (noIn : Bool) :
    (paren f).pieces noIn = enclose "(" ")" (f.pieces false) := rfl

@[simp] theorem pieces_bracket (f : Fragment) (noIn : Bool) :
    (bracket f).pieces noIn = enclose "[" "]" (f.pieces false) := rfl

@[simp] theorem pieces_brace (f : Fragment) (noIn : Bool) :
    (brace f).pieces noIn = enclose "\x7b" "\x7d" (f.pieces false) := rfl

@[simp] theorem pieces_line (f : Fragment) (noIn : Bool) :
    (line f).pieces noIn = f.pieces noIn := rfl

@[simp] theorem pieces_indent (f : Fragment) (noIn : Bool) :
    (indent f).pieces noIn = f.pieces noIn := rfl

@[simp] theorem pieces_stringStatement (f : Fragment) (noIn : Bool) :
    (stringStatement f).pieces noIn = f.pieces noIn ++ [.statementEnd] := rfl

theorem restPieces_nothing (fs : List Fragment) (noIn : Bool) :
    restPieces .nothing fs noIn = fs.flatMap (·.pieces noIn) := by
  induction fs with
  | nil => rfl
  | cons f fs ih => simp [restPieces, Joint.pieces, ih]

theorem restPieces_comma (fs : List Fragment) (noIn : Bool) :
    restPieces .comma fs noIn = fs.flatMap fun f => .comma :: f.pieces noIn := by
  induction fs with
  | nil => rfl
  | cons f fs ih => simp [restPieces, Joint.pieces, ih]

@[simp] theorem pieces_sequence (fs : List Fragment) (noIn : Bool) :
    (sequence fs).pieces noIn = fs.flatMap (·.pieces noIn) := by
  cases fs with
  | nil => rfl
  | cons f fs => simp [sequence, pieces, seriesPieces, restPieces_nothing]

@[simp] theorem pieces_separated_nil (noIn : Bool) : (separated []).pieces noIn = [] := rfl

@[simp] theorem pieces_separated_cons (f : Fragment) (fs : List Fragment) (noIn : Bool) :
    (separated (f :: fs)).pieces noIn =
      f.pieces noIn ++ fs.flatMap fun g => .comma :: g.pieces noIn := by
  simp [separated, pieces, seriesPieces, restPieces_comma]

end Fragment

/-! ### The tokens of pieces -/

/-- An empty token leaves the stream as it is. -/
def Piece.isEmpty : Piece → Bool
  | .token text | .raw text | .operator text => text.isEmpty
  | _ => false

/-- Is a statement end before these pieces written? -/
def endsVisibly : List Piece → Bool
  | [] => false
  | p :: _ => p != .token "\x7d"

/-- Pieces with their statement ends written as semicolons, or dropped. -/
def settle : List Piece → List Piece
  | [] => []
  | p :: ps =>
    if p = .statementEnd then
      if endsVisibly ps then .semicolon :: settle ps else settle ps
    else p :: settle ps

/-- The tokens that pieces stand for. -/
def tokens (ps : List Piece) : List Piece :=
  settle (ps.filter (!·.isEmpty))

/-- A piece that is a token as it stands. -/
def Piece.isSolid (p : Piece) : Bool :=
  !p.isEmpty && p != .statementEnd

theorem tokens_eq_self {ps : List Piece} (h : ∀ p ∈ ps, p.isSolid) : tokens ps = ps := by
  induction ps with
  | nil => rfl
  | cons p ps ih =>
    have hp : p.isEmpty = false ∧ p ≠ .statementEnd := by
      simpa [Piece.isSolid] using h p List.mem_cons_self
    have hps := ih fun q hq => h q (List.mem_cons_of_mem p hq)
    unfold tokens at hps ⊢
    rw [List.filter_cons_of_pos (by simp [hp.1]), settle, if_neg hp.2, hps]

/-! ### Putting pieces -/

namespace Stream

/-- Put a piece on the stream. -/
def putPiece (s : Stream) : Piece → Stream
  | .token text => s.put text
  | .raw text => s.putRaw text
  | .number v => s.putNumber v
  | .operator text => s.putOperator text
  | .comma => s.putSeparator
  | .semicolon => s.put ";"
  | .statementEnd => s.endStatement

/-- Put pieces on the stream, one after the other. -/
def putAll (s : Stream) (ps : List Piece) : Stream :=
  ps.foldl putPiece s

@[simp] theorem putAll_nil (s : Stream) : s.putAll [] = s := rfl

@[simp] theorem putAll_cons (s : Stream) (p : Piece) (ps : List Piece) :
    s.putAll (p :: ps) = (s.putPiece p).putAll ps := rfl

@[simp] theorem putAll_append (s : Stream) (ps qs : List Piece) :
    s.putAll (ps ++ qs) = (s.putAll ps).putAll qs :=
  List.foldl_append

/-! ### Streams without lines

The level of indentation is read only where a line is broken, so a change of the level passes
through everything that is put.  In a compact stream no line is broken. -/

/-- The stream at another level of indentation. -/
def atDepth (s : Stream) (d : Nat) : Stream :=
  { s with depth := d }

theorem write_atDepth (s : Stream) (d : Nat) (cs : List Char) :
    (s.atDepth d).write cs = (s.write cs).atDepth d := by
  unfold write
  split <;> rfl

theorem putSpaced_atDepth (s : Stream) (d : Nat) (c : Char) (cs : List Char) :
    (s.atDepth d).putSpaced c cs = (s.putSpaced c cs).atDepth d := by
  have hspace : (s.atDepth d).needsSpace c cs = s.needsSpace c cs := rfl
  unfold putSpaced
  rw [hspace]
  split <;> simp only [write_atDepth]

theorem settle_atDepth (s : Stream) (d : Nat) (cs : List Char) :
    (s.atDepth d).settle cs = (s.settle cs).atDepth d := by
  obtain ⟨style, text, last, number?, pending, depth, lineBreak?⟩ := s
  cases pending
  · rfl
  · show (if cs == ['}'] then _ else _) = (if cs == ['}'] then _ else _ : Stream).atDepth d
    split
    · rfl
    · exact write_atDepth ⟨style, text, last, number?, false, depth, lineBreak?⟩ d [';']

theorem put_atDepth (s : Stream) (d : Nat) (t : String) :
    (s.atDepth d).put t = (s.put t).atDepth d := by
  unfold put
  rcases t.toList with - | ⟨c, cs⟩
  · rfl
  · simp only [putChars, settle_atDepth]
    obtain ⟨style, text, last, number?, pending, depth, lineBreak?⟩ := s.settle (c :: cs)
    -- whatever is written is written to the stream without its number
    let s₀ : Stream := ⟨style, text, last, none, pending, depth, lineBreak?⟩
    rcases number? with - | n
    · exact putSpaced_atDepth s₀ d c cs
    · show (if c :: cs == ['.'] then (s₀.atDepth d).putPoint n else _)
        = (if c :: cs == ['.'] then s₀.putPoint n else _).atDepth d
      split
      · unfold putPoint
        split <;> exact write_atDepth s₀ d _
      · exact putSpaced_atDepth s₀ d c cs

@[simp] theorem style_write (s : Stream) (cs : List Char) : (s.write cs).style = s.style := by
  unfold write
  split <;> rfl

@[simp] theorem style_putSpaced (s : Stream) (c : Char) (cs : List Char) :
    (s.putSpaced c cs).style = s.style := by
  unfold putSpaced
  split <;> simp only [style_write]

@[simp] theorem style_settle (s : Stream) (cs : List Char) : (s.settle cs).style = s.style := by
  unfold settle
  split
  · split
    · rfl
    · exact style_write _ _
  · rfl

@[simp] theorem style_put (s : Stream) (t : String) : (s.put t).style = s.style := by
  unfold put
  rcases t.toList with - | ⟨c, cs⟩
  · rfl
  · simp only [putChars]
    rw [← style_settle s (c :: cs)]
    split
    · split
      · unfold putPoint
        split <;> exact style_write _ _
      · exact style_putSpaced _ c cs
    · exact style_putSpaced _ c cs

/-- A stream that breaks no lines. -/
def IsCompact (s : Stream) : Prop :=
  s.style.indent? = none

variable {s : Stream}

theorem IsCompact.isPretty_eq_false (h : s.IsCompact) : s.style.isPretty = false := by
  unfold Style.isPretty
  rw [h]
  rfl

theorem IsCompact.put (h : s.IsCompact) (t : String) : (s.put t).IsCompact := by
  unfold IsCompact
  rw [style_put]
  exact h

theorem IsCompact.newline_eq (h : s.IsCompact) : s.newline = s := by
  unfold newline
  rw [h]

theorem IsCompact.putOperator_eq (h : s.IsCompact) (t : String) : s.putOperator t = s.put t := by
  simp [putOperator, h.isPretty_eq_false]

theorem IsCompact.putSeparator_eq (h : s.IsCompact) : s.putSeparator = s.put "," := by
  simp [putSeparator, h.isPretty_eq_false]

theorem IsCompact.endStatement_eq (h : s.IsCompact) :
    s.endStatement = { s with pending := true } := by
  simp [endStatement, h.isPretty_eq_false]

theorem IsCompact.putPiece (h : s.IsCompact) (p : Piece) : (s.putPiece p).IsCompact := by
  cases p with
  | token t => exact h.put t
  | raw t =>
    simp only [Stream.putPiece, putRaw]
    split <;> exact h
  | number v =>
    simp only [Stream.putPiece, putNumber]
    split <;> exact h.put _
  | operator t => simpa only [Stream.putPiece, h.putOperator_eq] using h.put t
  | comma => simpa only [Stream.putPiece, h.putSeparator_eq] using h.put ","
  | semicolon => exact h.put ";"
  | statementEnd =>
    simp only [Stream.putPiece, h.endStatement_eq]
    exact h

theorem IsCompact.putAll (h : s.IsCompact) (ps : List Piece) : (s.putAll ps).IsCompact := by
  induction ps generalizing s with
  | nil => exact h
  | cons p ps ih => exact ih (h.putPiece p)

theorem putOperator_atDepth (s : Stream) (d : Nat) (t : String) :
    (s.atDepth d).putOperator t = (s.putOperator t).atDepth d := by
  have hpretty : (s.atDepth d).style.isPretty = s.style.isPretty := rfl
  have hlast : (s.atDepth d).last = s.last := rfl
  unfold putOperator
  rw [hpretty, hlast]
  split
  · split
    · simp only [put_atDepth, write_atDepth]
    · simp only [put_atDepth, write_atDepth]
  · exact put_atDepth s d t

theorem putSeparator_atDepth (s : Stream) (d : Nat) :
    (s.atDepth d).putSeparator = s.putSeparator.atDepth d := by
  unfold putSeparator
  simp only [put_atDepth]
  show (if (s.put ",").style.isPretty then _ else _) = _
  split
  · exact write_atDepth _ d [' ']
  · rfl

theorem putPiece_atDepth (s : Stream) (d : Nat) (p : Piece) :
    (s.atDepth d).putPiece p = (s.putPiece p).atDepth d := by
  cases p with
  | token t => exact put_atDepth s d t
  | raw t =>
    simp only [Stream.putPiece, putRaw]
    split <;> rfl
  | number v =>
    simp only [Stream.putPiece, putNumber]
    split
    · exact put_atDepth s d _
    · simp only [put_atDepth]
      rfl
  | operator t => exact putOperator_atDepth s d t
  | comma => exact putSeparator_atDepth s d
  | semicolon => exact put_atDepth s d _
  | statementEnd =>
    simp only [Stream.putPiece, endStatement]
    show (if s.style.isPretty then _ else _) = _
    split
    · exact put_atDepth s d _
    · rfl

theorem putAll_atDepth (s : Stream) (d : Nat) (ps : List Piece) :
    (s.atDepth d).putAll ps = (s.putAll ps).atDepth d := by
  induction ps generalizing s with
  | nil => rfl
  | cons p ps ih => rw [putAll_cons, putPiece_atDepth, ih, putAll_cons]

theorem depth_putAll (s : Stream) (ps : List Piece) : (s.putAll ps).depth = s.depth := by
  have h : s.putAll ps = (s.putAll ps).atDepth s.depth := s.putAll_atDepth s.depth ps
  rw [h]
  rfl

end Stream

/-! ### Writing a fragment is putting its pieces -/

theorem Atom.emit_eq_putAll (a : Atom) (s : Stream) : a.emit s = s.putAll a.pieces := by
  cases a <;> rfl

theorem Joint.emit_eq_putAll (j : Joint) (s : Stream) : j.emit s = s.putAll j.pieces := by
  cases j <;> rfl

theorem Wrap.emit_eq_putAll {inner : Bool → Stream → Stream} {ps : Bool → List Piece}
    (hinner : ∀ noIn {s : Stream}, s.IsCompact → inner noIn s = s.putAll (ps noIn))
    (w : Wrap) (noIn : Bool) {s : Stream} (h : s.IsCompact) :
    w.emit inner noIn s = s.putAll (w.pieces ps noIn) := by
  have henclose : ∀ l r, ((inner false (s.put l)).put r) = s.putAll (enclose l r (ps false)) := by
    intro l r
    rw [hinner false (h.put l)]
    simp [enclose, Stream.putPiece]
  cases w with
  | paren | bracket | brace => exact henclose _ _
  | noIn => exact hinner true h
  | containsIn =>
    cases noIn
    · exact hinner false h
    · exact henclose "(" ")"
  | stringStatement =>
    show (inner noIn s).endStatement = s.putAll (ps noIn ++ [.statementEnd])
    rw [hinner noIn h, Stream.putAll_append]
    rfl
  | line =>
    show inner noIn s.newline = s.putAll (ps noIn)
    rw [h.newline_eq, hinner noIn h]
  | indent =>
    have hdedent : (inner noIn s.indent).dedent = s.putAll (ps noIn) := by
      have h' : s.indent.IsCompact := h
      rw [hinner noIn h']
      show ((s.atDepth (s.depth + 1)).putAll (ps noIn)).dedent = _
      rw [Stream.putAll_atDepth]
      show (s.putAll (ps noIn)).atDepth s.depth = _
      rw [← s.depth_putAll (ps noIn)]
      rfl
    show (if s.size < (inner noIn s.indent).dedent.size then _ else _) = s.putAll (ps noIn)
    rw [hdedent, (h.putAll (ps noIn)).newline_eq, ite_self]

mutual

/-- In a compact stream, writing a fragment is putting its pieces. -/
theorem Fragment.emit_eq_putAll :
    ∀ (f : Fragment) (noIn : Bool) {s : Stream}, s.IsCompact →
      f.emit noIn s = s.putAll (f.pieces noIn)
  | .atom _ a, _, s, _ => by
    rw [Fragment.emit, Fragment.pieces, a.emit_eq_putAll]
  | .wrap _ w f, noIn, s, h => by
    rw [Fragment.emit, Fragment.pieces]
    exact w.emit_eq_putAll (fun noIn _ h => Fragment.emit_eq_putAll f noIn h) noIn h
  | .series _ j fs, noIn, s, h => by
    rw [Fragment.emit, Fragment.pieces, Fragment.emitSeries_eq_putAll j fs noIn h]
  | .declared _ l, _, s, h => by
    rw [Fragment.emit, Fragment.pieces, Fragment.emit_eq_putAll l false h]
  | .initialized _ l r, noIn, s, h => by
    have hl := h.putAll (l.pieces false)
    rw [Fragment.emit, Fragment.pieces, Fragment.emit_eq_putAll l false h, hl.putOperator_eq,
      Fragment.emit_eq_putAll r noIn (hl.put "="), Stream.putAll_append, Stream.putAll_cons,
      Stream.putPiece, hl.putOperator_eq]

theorem Fragment.emitSeries_eq_putAll (j : Joint) :
    ∀ (fs : List Fragment) (noIn : Bool) {s : Stream}, s.IsCompact →
      Fragment.emitSeries j fs noIn s = s.putAll (Fragment.seriesPieces j fs noIn)
  | [], _, s, _ => by rw [Fragment.emitSeries, Fragment.seriesPieces, Stream.putAll_nil]
  | f :: fs, noIn, s, h => by
    rw [Fragment.emitSeries, Fragment.seriesPieces, Fragment.emit_eq_putAll f noIn h,
      Fragment.emitRest_eq_putAll j fs noIn (h.putAll _), Stream.putAll_append]

theorem Fragment.emitRest_eq_putAll (j : Joint) :
    ∀ (fs : List Fragment) (noIn : Bool) {s : Stream}, s.IsCompact →
      Fragment.emitRest j fs noIn s = s.putAll (Fragment.restPieces j fs noIn)
  | [], _, s, _ => by rw [Fragment.emitRest, Fragment.restPieces, Stream.putAll_nil]
  | f :: fs, noIn, s, h => by
    rw [Fragment.emitRest, Fragment.restPieces, j.emit_eq_putAll,
      Fragment.emit_eq_putAll f noIn (h.putAll _),
      Fragment.emitRest_eq_putAll j fs noIn ((h.putAll _).putAll _), Stream.putAll_append,
      Stream.putAll_append]

end

end EcmaPrinter
