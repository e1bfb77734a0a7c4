import EcmaPrinter.Fragment.Basic
import EcmaPrinter.Stream

/-!
Writing fragments to a stream.

The flag `noIn` is on where a bare `in` would be misread, that is in the head of a `for`
statement outside of all brackets.
-/

namespace EcmaPrinter

/-- Write a fragment without parts. -/
def Atom.emit (s : Stream) : Atom → Stream
  | .empty => s
  | .token text => s.put text
  | .raw text => s.putRaw text
  | .number v => s.putNumber v
  | .operator text => s.putOperator text
  | .semicolon => s.put ";"
  | .statementEnd => s.endStatement

/-- Write what stands between two parts of a series. -/
def Joint.emit (s : Stream) : Joint → Stream
  | .nothing => s
  | .comma => s.putSeparator

/-- Write what stands around a fragment; `inner` writes the fragment itself. -/
def Wrap.emit (inner : Bool → Stream → Stream) (noIn : Bool) (s : Stream) : Wrap → Stream
  | .paren => (inner false (s.put "(")).put ")"
  | .bracket => (inner false (s.put "[")).put "]"
  | .brace => (inner false (s.put "\x7b")).put "\x7d"
  | .noIn => inner true s
  | .containsIn => if noIn then (inner false (s.put "(")).put ")" else inner false s
  | .stringStatement => (inner noIn s).endStatement
  | .line => inner noIn s.newline
  | .indent =>
    let t := (inner noIn s.indent).dedent
    -- an empty block stays on its line
    if s.size < t.size then t.newline else t

mutual

/-- Write a fragment to a stream. -/
def Fragment.emit : Fragment → (noIn : Bool) → Stream → Stream
  | .atom _ a, _, s => a.emit s
  | .wrap _ w f, noIn, s => w.emit f.emit noIn s
  | .series _ j fs, noIn, s => Fragment.emitSeries j fs noIn s
  | .declared _ l, _, s => l.emit false s
  | .initialized _ l r, noIn, s => r.emit noIn ((l.emit false s).putOperator "=")

/-- Write the parts of a series. -/
def Fragment.emitSeries (j : Joint) : List Fragment → (noIn : Bool) → Stream → Stream
  | [], _, s => s
  | f :: fs, noIn, s => Fragment.emitRest j fs noIn (f.emit noIn s)

/-- Write the later parts of a series, each behind the joint. -/
def Fragment.emitRest (j : Joint) : List Fragment → (noIn : Bool) → Stream → Stream
  | [], _, s => s
  | f :: fs, noIn, s => Fragment.emitRest j fs noIn (f.emit noIn (j.emit s))

end

/-- The text of a fragment in a stream of its own. -/
def Fragment.render (style : Style) (f : Fragment) : String :=
  (f.emit false { style := style }).toString

end EcmaPrinter
