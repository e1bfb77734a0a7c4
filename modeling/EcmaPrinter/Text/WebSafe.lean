import EcmaPrinter.Text.Hex
import EcmaPrinter.Text.Identifier
import EcmaPrinter.Text.Quoted

/-!
Web-safe text: a spelling of source text that can be inlined in an HTML `script` element.

Two steps.  First every character that is not a plain one (NUL and everything beyond ASCII)
becomes an escape.  The text may already be escaped source: an escape of such a character is
replaced whole, and a line continuation before U+2028 or U+2029 becomes one before a line feed.
Then the first letter of every script tag becomes an escape, so that no tag is left.
-/

namespace EcmaPrinter.Text

/-! ### Escapes -/

/-- The UTF-16 units of a character: one, or a surrogate pair. -/
def utf16Units (c : Char) : List Nat :=
  if c.toNat < 0x10000 then [c.toNat]
  else
    let offset := c.toNat - 0x10000
    [0xD800 + offset / 0x400, 0xDC00 + offset % 0x400]

/-- A `\x` escape with two digits. -/
def byteEscape (c : Char) : List Char :=
  backslash :: 'x' :: hexPlaces 2 c.toNat

/-- A `\u` escape with four digits. -/
def unitEscape (unit : Nat) : List Char :=
  backslash :: 'u' :: hexPlaces 4 unit

/-- Plain characters stand for themselves: ASCII without NUL. -/
def isPlain (c : Char) : Bool :=
  isAscii c && c != '\x00'

/-- The escape of a character that is not plain. -/
def plainEscape (c : Char) : List Char :=
  if c == '\x00' then byteEscape c else (utf16Units c).flatMap unitEscape

/-- Is the character one of the two line ends beyond ASCII? -/
def isSeparatorLine (c : Char) : Bool :=
  c == '\u2028' || c == '\u2029'

/-- A character by itself: as it is, or escaped. -/
def plainSpelling (c : Char) : List Char :=
  if isPlain c then [c] else plainEscape c

/-- A backslash with the character it escapes. -/
def escapedSpelling (c : Char) : List Char :=
  if isSeparatorLine c then [backslash, '\n']
  else if isPlain c then [backslash, c]
  else plainEscape c

/-- The text in plain characters only, escape by escape. -/
def plainText : List Char → List Char
  | [] => []
  | [c] => plainSpelling c
  | c :: d :: rest =>
    if c == backslash then escapedSpelling d ++ plainText rest
    else plainSpelling c ++ plainText (d :: rest)

/-! ### Script tags -/

/-- The characters after which `<script` counts as a tag. -/
def endsTagName (c : Char) : Bool :=
  c == '\t' || c == '\r' || c == '\x0c' || c == ' ' || c == '/' || c == '>'

/-- Does the text start with `script`, in any case, and a character that ends a tag name? -/
def startsTagName (text : List Char) : Bool :=
  (text.take 6).map Char.toLower == ['s', 'c', 'r', 'i', 'p', 't'] &&
    ((text.drop 6).head?.any endsTagName)

/-- Does the text start with a script tag, opening or closing? -/
def startsTag : List Char → Bool
  | '<' :: '/' :: rest => startsTagName rest
  | '<' :: rest => startsTagName rest
  | _ => false

/-- Escape the first letter, behind a slash if the text starts with one. -/
def escapeTagName : List Char → List Char
  | '/' :: c :: rest => '/' :: (byteEscape c ++ rest)
  | c :: rest => byteEscape c ++ rest
  | [] => []

/-- Escape the first letter of the name in every script tag. -/
def escapeTags : List Char → List Char
  | [] => []
  | c :: rest =>
    if startsTag (c :: rest) then c :: escapeTagName (escapeTags rest)
    else c :: escapeTags rest

/-! ### Both steps -/

/-- The web-safe spelling, on lists of characters. -/
def webSafeChars (text : List Char) : List Char :=
  escapeTags (plainText text)

/-- The web-safe spelling of a text. -/
def webSafe (text : String) : String :=
  String.ofList (webSafeChars text.toList)

end EcmaPrinter.Text
