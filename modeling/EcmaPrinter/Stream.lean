import EcmaPrinter.Number.Format
import EcmaPrinter.Text.Identifier

/-!
The output stream: tokens go in one by one and come out as text that reads as the same tokens.

In a compact stream a space is written only where two tokens would otherwise read as one, and a
statement end is held back until it is known whether a `}` or the end of the output makes it
superfluous.  A pretty stream also breaks lines, indents, and pads operators; in it line breaks
that follow each other count as one.

The text is kept with its last character first, so that writing is adding in front.
-/

namespace EcmaPrinter

open EcmaPrinter.Number
open EcmaPrinter.Text

/-- How output is laid out and numbers are written. -/
structure Style where
  /-- Spaces per level of a pretty stream; a compact stream has none. -/
  indent? : Option Nat := none
  /-- May large integers be hexadecimal? -/
  hex : Bool := true
  /-- Keep `<` apart from what would make it a script tag? -/
  webSafe : Bool := false
  deriving DecidableEq, Repr

/-- Is output broken into lines? -/
def Style.isPretty (style : Style) : Bool :=
  style.indent?.isSome

/-- The state of an output stream. -/
structure Stream where
  style : Style := {}
  /-- What has been written, the last character first. -/
  text : List Char := []
  /-- The last character of the last token, NUL before the first one.  Template text does not
  count as a token. -/
  last : Char := '\x00'
  /-- The text of the last token if that was a number. -/
  number? : Option (List Char) := none
  /-- Is a statement end held back? -/
  pending : Bool := false
  /-- The level of indentation. -/
  depth : Nat := 0
  /-- The length of the line break that the text ends in, until something follows it. -/
  lineBreak? : Option Nat := none
  deriving DecidableEq, Repr

namespace Stream

/-- The text written so far. -/
def toString (s : Stream) : String :=
  String.ofList s.text.reverse

/-- The number of characters written so far. -/
def size (s : Stream) : Nat :=
  s.text.length

/-! ### Writing without decisions -/

/-- Add characters at the end of the text. -/
def append (s : Stream) (chars : List Char) : Stream :=
  { s with text := chars.reverse ++ s.text }

/-- Write characters as part of a token. -/
def write (s : Stream) (chars : List Char) : Stream :=
  match chars.getLast? with
  | none => s
  | some last => { s.append chars with last := last, lineBreak? := none }

/-! ### Tokens -/

/-- Would the two characters, side by side, read as part of one token? -/
def merges (last next : Char) : Bool :=
  ((last == '+' || last == '-') && last == next) ||
    (isIdentifierPart last && isIdentifierPart next) ||
    (last == '/' && (next == 'i' || next == '/'))

/-- Does the text end in `<!`, so that `--` would make it the start of a comment? -/
def endsInMarkup (s : Stream) : Bool :=
  ['!', '<'].isPrefixOf s.text

/-- Would the characters make a script tag of a `<` before them? -/
def makesTag (last next : Char) : Bool :=
  last == '<' && (next == '/' || next == 's' || next == 'S')

/-- Is a space needed before a token that starts with `first`? -/
def needsSpace (s : Stream) (first : Char) (rest : List Char) : Bool :=
  merges s.last first ||
    (['-', '-'].isPrefixOf (first :: rest) && s.endsInMarkup) ||
    (s.style.webSafe && makesTag s.last first)

/-- Write a statement end that was held back, unless the next token is a `}`. -/
def settle (s : Stream) (token : List Char) : Stream :=
  if s.pending then
    let s := { s with pending := false }
    if token == ['}'] then s else s.write [';']
  else s

/-- Write a token that does not follow a number, behind a space if it needs one. -/
def putSpaced (s : Stream) (first : Char) (rest : List Char) : Stream :=
  if s.needsSpace first rest then (s.write [' ']).write (first :: rest)
  else s.write (first :: rest)

/-- Write the point of a member access behind a number.  After digits alone it takes two, since
the first belongs to the number. -/
def putPoint (s : Stream) (number : List Char) : Stream :=
  if number.all Char.isDigit then s.write ['.', '.'] else s.write ['.']

/-- Write a token, on lists of characters. -/
def putChars (s : Stream) : List Char → Stream
  | [] => s
  | first :: rest =>
    let s := s.settle (first :: rest)
    match s.number? with
    | some number =>
      let s := { s with number? := none }
      if first :: rest == ['.'] then s.putPoint number else s.putSpaced first rest
    | none => s.putSpaced first rest

/-- Write a token, with a space or a held back statement end before it if needed. -/
def put (s : Stream) (token : String) : Stream :=
  s.putChars token.toList

/-- Write template text as it is.  Spacing still goes by the token before it. -/
def putRaw (s : Stream) (chars : String) : Stream :=
  let s := { s with number? := none }
  if chars.isEmpty then s else { s.append chars.toList with lineBreak? := none }

/-! ### Numbers -/

/-- How NaN is written, which has no literal. -/
def nanText : String := "(0/0)"

/-- How numbers beyond the greatest double are written. -/
def infinityText : String := "2e308"

/-- The text of a number other than NaN. -/
def numberText (style : Style) (v : Double) : String :=
  if v.isFinite then v.literal style.hex else infinityText

/-- Write a number as a short literal. -/
def putNumber (s : Stream) (v : Double) : Stream :=
  if v.isNaN then s.put nanText
  else
    let text := numberText s.style v
    { s.put text with number? := some text.toList }

/-! ### Layout -/

/-- Write an operator; a pretty stream has spaces on both sides. -/
def putOperator (s : Stream) (op : String) : Stream :=
  if s.style.isPretty then
    let s := if s.last == ' ' || s.last == '\n' || s.last == '\x00' then s else s.write [' ']
    (s.put op).write [' ']
  else s.put op

/-- Write the comma between two items; a pretty stream has a space behind it. -/
def putSeparator (s : Stream) : Stream :=
  let s := s.put ","
  if s.style.isPretty then s.write [' '] else s

/-- End a statement.  A compact stream holds the semicolon back. -/
def endStatement (s : Stream) : Stream :=
  if s.style.isPretty then s.put ";" else { s with pending := true }

/-- Take back the line break that the text ends in, if it ends in one. -/
def joinLine (s : Stream) : Stream :=
  match s.lineBreak? with
  | some n => { s with text := s.text.drop n, lineBreak? := none }
  | none => s

/-- Write a line feed and the given number of spaces. -/
def breakLine (s : Stream) (width : Nat) : Stream :=
  { s with
    text := List.replicate width ' ' ++ '\n' :: s.text
    last := if width = 0 then '\n' else ' '
    number? := none
    lineBreak? := some (width + 1) }

/-- Start a new line.  Nothing happens in a compact stream and before the first character; a line
break that the text ends in is replaced. -/
def newline (s : Stream) : Stream :=
  match s.style.indent? with
  | none => s
  | some width => if s.text.isEmpty then s else s.joinLine.breakLine (s.depth * width)

/-- Indent the lines that follow by one level more. -/
def indent (s : Stream) : Stream :=
  { s with depth := s.depth + 1 }

/-- Indent the lines that follow by one level less. -/
def dedent (s : Stream) : Stream :=
  { s with depth := s.depth - 1 }

end Stream

end EcmaPrinter
