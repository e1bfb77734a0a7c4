import EcmaPrinter.Number.Double

/-!
Fragments: code that is laid out later, with marks that say how it starts and ends.

Marks let the code around a fragment decide on parentheses without looking at the text.  The
plain constructors leave all marks off; who builds a fragment from parts says which marks it has.
-/

namespace EcmaPrinter

open EcmaPrinter.Number

/-! ### Marks -/

/-- What is known about the surface of a fragment. -/
structure Marks where
  /-- There is an `in` outside of all brackets. -/
  containsIn : Bool := false
  /-- The fragment is a comma expression. -/
  containsGroup : Bool := false
  /-- The fragment starts with the `{` of an object. -/
  startsWithCurly : Bool := false
  /-- The fragment starts with a function or a class. -/
  startsWithFunctionOrClass : Bool := false
  /-- The fragment starts with the name `let`. -/
  startsWithLet : Bool := false
  /-- The fragment starts with `let[`. -/
  startsWithLetBracket : Bool := false
  /-- The fragment ends with an `if` that has no `else`. -/
  endsWithMissingElse : Bool := false
  deriving DecidableEq, Repr

namespace Marks

/-- The marks that speak of the first token. -/
def leading (m : Marks) : Marks :=
  { startsWithCurly := m.startsWithCurly
    startsWithFunctionOrClass := m.startsWithFunctionOrClass
    startsWithLet := m.startsWithLet
    startsWithLetBracket := m.startsWithLetBracket }

/-- The mark of a contained `in` alone. -/
def onlyIn (m : Marks) : Marks :=
  { containsIn := m.containsIn }

/-- The mark of a missing `else` alone. -/
def onlyMissingElse (m : Marks) : Marks :=
  { endsWithMissingElse := m.endsWithMissingElse }

end Marks

/-! ### Fragments -/

/-- Fragments without parts. -/
inductive Atom where
  | empty
  | token (text : String)
  /-- Template text, written without any spacing. -/
  | raw (text : String)
  | number (value : Double)
  /-- A binary or assignment operator, padded in pretty output. -/
  | operator (text : String)
  | semicolon
  /-- A statement end that may be left out before `}` and at the end. -/
  | statementEnd
  deriving DecidableEq, Repr

/-- What can be put around a fragment. -/
inductive Wrap where
  | paren
  | bracket
  | brace
  /-- The fragment stands where a bare `in` would be misread. -/
  | noIn
  /-- The fragment contains an `in`: it takes parentheses inside `noIn`. -/
  | containsIn
  /-- A string literal as a statement. -/
  | stringStatement
  /-- The fragment starts a line. -/
  | line
  /-- The fragment is indented. -/
  | indent
  deriving DecidableEq, Repr

/-- What stands between the parts of a series. -/
inductive Joint where
  | nothing
  | comma
  deriving DecidableEq, Repr

/-- A fragment of code with its marks. -/
inductive Fragment where
  | atom (marks : Marks) (atom : Atom)
  | wrap (marks : Marks) (wrap : Wrap) (inner : Fragment)
  | series (marks : Marks) (joint : Joint) (parts : List Fragment)
  /-- A declared name or pattern without a value. -/
  | declared (marks : Marks) (left : Fragment)
  /-- A declared name or pattern with a value. -/
  | initialized (marks : Marks) (left right : Fragment)

namespace Fragment

/-- The marks of a fragment. -/
def marks : Fragment → Marks
  | atom m _ | wrap m _ _ | series m _ _ | declared m _ | initialized m _ _ => m

/-- The fragment with other marks in place of its own. -/
def withMarks (m : Marks) : Fragment → Fragment
  | atom _ a => atom m a
  | wrap _ w f => wrap m w f
  | series _ j fs => series m j fs
  | declared _ l => declared m l
  | initialized _ l r => initialized m l r

/-! ### Fragments without marks -/

/-- Nothing. -/
def empty : Fragment := atom {} .empty

/-- One token. -/
def token (text : String) : Fragment := atom {} (.token text)

/-- Template text. -/
def raw (text : String) : Fragment := atom {} (.raw text)

/-- A number. -/
def number (value : Double) : Fragment := atom {} (.number value)

/-- An operator. -/
def operator (text : String) : Fragment := atom {} (.operator text)

/-- A semicolon that is always written. -/
def semicolon : Fragment := atom {} .semicolon

/-- The end of a statement. -/
def statementEnd : Fragment := atom {} .statementEnd

/-- A fragment in parentheses. -/
def paren (inner : Fragment) : Fragment := wrap {} .paren inner

/-- A fragment in square brackets. -/
def bracket (inner : Fragment) : Fragment := wrap {} .bracket inner

/-- A fragment in braces. -/
def brace (inner : Fragment) : Fragment := wrap {} .brace inner

/-- A fragment that stands where a bare `in` would be misread. -/
def noIn (inner : Fragment) : Fragment := wrap {} .noIn inner

/-- A fragment that gets parentheses inside `noIn` if it contains an `in`. -/
def guardIn (inner : Fragment) : Fragment :=
  if inner.marks.containsIn then wrap {} .containsIn inner else inner

/-- A string literal as a statement. -/
def stringStatement (expression : Fragment) : Fragment := wrap {} .stringStatement expression

/-- A fragment on a line of its own. -/
def line (inner : Fragment) : Fragment := wrap {} .line inner

/-- An indented fragment. -/
def indent (inner : Fragment) : Fragment := wrap {} .indent inner

/-- Fragments one after the other. -/
def sequence (parts : List Fragment) : Fragment := series {} .nothing parts

/-- Fragments with commas between them. -/
def separated (parts : List Fragment) : Fragment := series {} .comma parts

/-- A declared name or pattern, with its value if there is one. -/
def declarator (left : Fragment) : (right? : Option Fragment) → Fragment
  | some right => initialized {} left right
  | none => declared {} left

/-- Is the fragment a string literal as a statement? -/
def isStringStatement : Fragment → Bool
  | wrap _ .stringStatement _ => true
  | _ => false

end Fragment

end EcmaPrinter
