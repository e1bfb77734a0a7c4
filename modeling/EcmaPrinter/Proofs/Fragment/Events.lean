import EcmaPrinter.Proofs.Pieces

/-!
What happens while a fragment is written: pieces, and places where a line may be broken.

Pieces alone say what a compact stream is given (`Fragment.emit_eq_putAll`).  A pretty stream is
also told to break lines.  Whether it does depends on its text, so a line break in the list of
events is a place where one may be written, at any level of indentation.  In a stream of either
style, writing a fragment lays out its events (`Fragment.lays_emit`).
-/

namespace EcmaPrinter

open EcmaPrinter.Number

/-! ### Events -/

/-- A step of writing a fragment. -/
inductive Event where
  | piece (p : Piece)
  | lineBreak
  deriving DecidableEq, Repr

namespace Event

/-- The piece of an event. -/
def piece? : Event → Option Piece
  | piece p => some p
  | lineBreak => none

/-- The pieces among events. -/
def pieces (es : List Event) : List Piece :=
  es.filterMap piece?

@[simp] theorem pieces_nil : pieces [] = [] := rfl

@[simp] theorem pieces_cons_piece (p : Piece) (es : List Event) :
    pieces (piece p :: es) = p :: pieces es := rfl

@[simp] theorem pieces_cons_lineBreak (es : List Event) :
    pieces (lineBreak :: es) = pieces es := rfl

@[simp] theorem pieces_append (es es' : List Event) :
    pieces (es ++ es') = pieces es ++ pieces es' :=
  List.filterMap_append

@[simp] theorem pieces_map (ps : List Piece) : pieces (ps.map piece) = ps := by
  induction ps with
  | nil => rfl
  | cons p ps ih => rw [List.map_cons, pieces_cons_piece, ih]

end Event

/-! ### The events of a fragment -/

/-- Events between two tokens. -/
def surround (opening closing : String) (es : List Event) : List Event :=
  .piece (.token opening) :: (es ++ [.piece (.token closing)])

@[simp] theorem pieces_surround (opening closing : String) (es : List Event) :
    Event.pieces (surround opening closing es) = enclose opening closing (Event.pieces es) := by
  simp [surround, enclose]

/-- The events of a fragment with something around it; `inner` gives those of the fragment. -/
def Wrap.events (inner : Bool → List Event) (noIn : Bool) : Wrap → List Event
  | .paren => surround "(" ")" (inner false)
  | .bracket => surround "[" "]" (inner false)
  | .brace => surround "\x7b" "\x7d" (inner false)
  | .noIn => inner true
  | .containsIn => if noIn then surround "(" ")" (inner false) else inner false
  | .stringStatement => inner noIn ++ [.piece .statementEnd]
  | .line => .lineBreak :: inner noIn
  | .indent => inner noIn ++ [.lineBreak]

mutual

/-- The events of a fragment. -/
def Fragment.events : Fragment → (noIn : Bool) → List Event
  | .atom _ a, _ => a.pieces.map .piece
  | .wrap _ w f, noIn => w.events f.events noIn
  | .series _ j fs, noIn => Fragment.seriesEvents j fs noIn
  | .declared _ l, _ => l.events false
  | .initialized _ l r, noIn => l.events false ++ .piece (.operator "=") :: r.events noIn

/-- The events of a series. -/
def Fragment.seriesEvents (j : Joint) : List Fragment → (noIn : Bool) → List Event
  | [], _ => []
  | f :: fs, noIn => f.events noIn ++ Fragment.restEvents j fs noIn

/-- The events of the later parts of a series, each behind the joint. -/
def Fragment.restEvents (j : Joint) : List Fragment → (noIn : Bool) → List Event
  | [], _ => []
  | f :: fs, noIn => j.pieces.map .piece ++ (f.events noIn ++ Fragment.restEvents j fs noIn)

end

theorem Wrap.pieces_events {inner : Bool → List Event} {ps : Bool → List Piece}
    (hinner : ∀ noIn, Event.pieces (inner noIn) = ps noIn) (w : Wrap) (noIn : Bool) :
    Event.pieces (w.events inner noIn) = w.pieces ps noIn := by
  cases w with
  | paren | bracket | brace => simp [events, pieces, hinner]
  | containsIn => cases noIn <;> simp [events, pieces, hinner]
  | noIn | stringStatement | line | indent => simp [events, pieces, hinner]

mutual

/-- The pieces of a fragment are those among its events. -/
theorem Fragment.pieces_events : ∀ (f : Fragment) (noIn : Bool),
    Event.pieces (f.events noIn) = f.pieces noIn
  | .atom _ a, _ => by rw [Fragment.events, Fragment.pieces, Event.pieces_map]
  | .wrap _ w f, noIn => by
    rw [Fragment.events, Fragment.pieces]
    exact w.pieces_events (fun noIn => Fragment.pieces_events f noIn) noIn
  | .series _ j fs, noIn => by
    rw [Fragment.events, Fragment.pieces, Fragment.pieces_seriesEvents j fs noIn]
  | .declared _ l, _ => by
    rw [Fragment.events, Fragment.pieces, Fragment.pieces_events l false]
  | .initialized _ l r, noIn => by
    rw [Fragment.events, Fragment.pieces, Event.pieces_append, Event.pieces_cons_piece,
      Fragment.pieces_events l false, Fragment.pieces_events r noIn]

theorem Fragment.pieces_seriesEvents (j : Joint) : ∀ (fs : List Fragment) (noIn : Bool),
    Event.pieces (Fragment.seriesEvents j fs noIn) = Fragment.seriesPieces j fs noIn
  | [], _ => by rw [Fragment.seriesEvents, Fragment.seriesPieces, Event.pieces_nil]
  | f :: fs, noIn => by
    rw [Fragment.seriesEvents, Fragment.seriesPieces, Event.pieces_append,
      Fragment.pieces_events f noIn, Fragment.pieces_restEvents j fs noIn]

theorem Fragment.pieces_restEvents (j : Joint) : ∀ (fs : List Fragment) (noIn : Bool),
    Event.pieces (Fragment.restEvents j fs noIn) = Fragment.restPieces j fs noIn
  | [], _ => by rw [Fragment.restEvents, Fragment.restPieces, Event.pieces_nil]
  | f :: fs, noIn => by
    rw [Fragment.restEvents, Fragment.restPieces, Event.pieces_append, Event.pieces_append,
      Event.pieces_map, Fragment.pieces_events f noIn, Fragment.pieces_restEvents j fs noIn]

end

namespace Fragment

@[simp] theorem events_withMarks (m : Marks) (f : Fragment) (noIn : Bool) :
    (f.withMarks m).events noIn = f.events noIn := by
  cases f <;> rfl

theorem restEvents_nothing (fs : List Fragment) (noIn : Bool) :
    restEvents .nothing fs noIn = fs.flatMap (·.events noIn) := by
  induction fs with
  | nil => rfl
  | cons f fs ih => simp [restEvents, Joint.pieces, ih]

theorem restEvents_comma (fs : List Fragment) (noIn : Bool) :
    restEvents .comma fs noIn = fs.flatMap fun f => .piece .comma :: f.events noIn := by
  induction fs with
  | nil => rfl
  | cons f fs ih => simp [restEvents, Joint.pieces, ih]

@[simp] theorem events_sequence (fs : List Fragment) (noIn : Bool) :
    (sequence fs).events noIn = fs.flatMap (·.events noIn) := by
  cases fs with
  | nil => rfl
  | cons f fs => simp [sequence, events, seriesEvents, restEvents_nothing]

@[simp] theorem events_separated_cons (f : Fragment) (fs : List Fragment) (noIn : Bool) :
    (separated (f :: fs)).events noIn =
      f.events noIn ++ fs.flatMap fun g => .piece .comma :: g.events noIn := by
  simp [separated, events, seriesEvents, restEvents_comma]

end Fragment

/-! ### Laying out events -/

/-- From the first stream the events lead to the last one.  Each line break is written at some level
of indentation, or not at all. -/
inductive Lays : Stream → List Event → Stream → Prop
  | done (s : Stream) (d : Nat) : Lays s [] (s.atDepth d)
  | put {s t : Stream} {p : Piece} {es : List Event} (h : Lays (s.putPiece p) es t) :
      Lays s (.piece p :: es) t
  | turn {s t : Stream} {es : List Event} (d : Nat) (h : Lays (s.atDepth d).newline es t) :
      Lays s (.lineBreak :: es) t
  | stay {s t : Stream} {es : List Event} (h : Lays s es t) : Lays s (.lineBreak :: es) t

namespace Lays

variable {s t u : Stream} {es es' : List Event}

theorem refl (s : Stream) : Lays s [] s :=
  .done s s.depth

/-- The level at the start does not matter. -/
theorem of_atDepth {d : Nat} (h : Lays (s.atDepth d) es t) : Lays s es t := by
  generalize hs : s.atDepth d = s' at h
  induction h generalizing s with
  | done _ d' =>
    subst hs
    exact .done s d'
  | put _ ih =>
    subst hs
    exact .put (ih (Stream.putPiece_atDepth s d _).symm)
  | turn d' h _ =>
    subst hs
    exact .turn d' h
  | stay _ ih => exact .stay (ih hs)

theorem append (h : Lays s es t) (h' : Lays t es' u) : Lays s (es ++ es') u := by
  induction h with
  | done s d => exact h'.of_atDepth
  | put _ ih => exact .put (ih h')
  | turn d _ ih => exact .turn d (ih h')
  | stay _ ih => exact .stay (ih h')

/-- The level at the end does not matter either. -/
theorem atDepth (h : Lays s es t) (d : Nat) : Lays s es (t.atDepth d) := by
  have h' := h.append (.done t d)
  rwa [List.append_nil] at h'

theorem map_piece (s : Stream) (ps : List Piece) : Lays s (ps.map .piece) (s.putAll ps) := by
  induction ps generalizing s with
  | nil => exact .refl s
  | cons p ps ih => exact .put (ih (s.putPiece p))

theorem surround {opening closing : String} (h : Lays (s.put opening) es t) :
    Lays s (surround opening closing es) (t.put closing) :=
  .put (p := .token opening) (h.append (.put (p := .token closing) (.refl _)))

end Lays

theorem Wrap.lays_emit {inner : Bool → Stream → Stream} {es : Bool → List Event}
    (hinner : ∀ noIn s, Lays s (es noIn) (inner noIn s)) (w : Wrap) (noIn : Bool) (s : Stream) :
    Lays s (w.events es noIn) (w.emit inner noIn s) := by
  cases w with
  | paren | bracket | brace => exact .surround (hinner false _)
  | noIn => exact hinner true s
  | containsIn =>
    cases noIn
    · exact hinner false s
    · exact .surround (hinner false _)
  | stringStatement => exact (hinner noIn s).append (.put (p := .statementEnd) (.refl _))
  | line => exact .turn s.depth (hinner noIn s.newline)
  | indent =>
    have hbody : Lays s (es noIn) (inner noIn s.indent).dedent :=
      ((hinner noIn s.indent).atDepth _).of_atDepth
    show Lays s (es noIn ++ [.lineBreak]) (if _ then _ else _)
    split
    · exact hbody.append (.turn _ (.refl _))
    · exact hbody.append (.stay (.refl _))

mutual

/-- Writing a fragment lays out its events. -/
theorem Fragment.lays_emit : ∀ (f : Fragment) (noIn : Bool) (s : Stream),
    Lays s (f.events noIn) (f.emit noIn s)
  | .atom _ a, _, s => by
    rw [Fragment.emit, Fragment.events, a.emit_eq_putAll]
    exact .map_piece s _
  | .wrap _ w f, noIn, s => by
    rw [Fragment.emit, Fragment.events]
    exact w.lays_emit (fun noIn s => Fragment.lays_emit f noIn s) noIn s
  | .series _ j fs, noIn, s => by
    rw [Fragment.emit, Fragment.events]
    exact Fragment.lays_emitSeries j fs noIn s
  | .declared _ l, _, s => by
    rw [Fragment.emit, Fragment.events]
    exact Fragment.lays_emit l false s
  | .initialized _ l r, noIn, s => by
    rw [Fragment.emit, Fragment.events]
    exact (Fragment.lays_emit l false s).append (.put (Fragment.lays_emit r noIn _))

theorem Fragment.lays_emitSeries (j : Joint) : ∀ (fs : List Fragment) (noIn : Bool) (s : Stream),
    Lays s (Fragment.seriesEvents j fs noIn) (Fragment.emitSeries j fs noIn s)
  | [], _, s => by
    rw [Fragment.emitSeries, Fragment.seriesEvents]
    exact .refl s
  | f :: fs, noIn, s => by
    rw [Fragment.emitSeries, Fragment.seriesEvents]
    exact (Fragment.lays_emit f noIn s).append (Fragment.lays_emitRest j fs noIn _)

theorem Fragment.lays_emitRest (j : Joint) : ∀ (fs : List Fragment) (noIn : Bool) (s : Stream),
    Lays s (Fragment.restEvents j fs noIn) (Fragment.emitRest j fs noIn s)
  | [], _, s => by
    rw [Fragment.emitRest, Fragment.restEvents]
    exact .refl s
  | f :: fs, noIn, s => by
    rw [Fragment.emitRest, Fragment.restEvents, j.emit_eq_putAll]
    exact (Lays.map_piece s _).append
      ((Fragment.lays_emit f noIn _).append (Fragment.lays_emitRest j fs noIn _))

end

/-- Writing the fragment hands its pieces to the stream, one after the other.  There may be line
breaks between them, but none in a compact stream. -/
def Fragment.HandsOver (f : Fragment) : Prop :=
  ∀ (noIn : Bool) (s : Stream),
    (∃ es, Event.pieces es = f.pieces noIn ∧ Lays s es (f.emit noIn s)) ∧
      (s.IsCompact → f.emit noIn s = s.putAll (f.pieces noIn))

theorem Fragment.handsOver (f : Fragment) : f.HandsOver := by
  intro noIn s
  refine ⟨⟨f.events noIn, f.pieces_events noIn, f.lays_emit noIn s⟩, ?_⟩
  exact fun h => f.emit_eq_putAll noIn h

end EcmaPrinter
