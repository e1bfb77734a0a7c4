import EcmaPrinter.Text.Alphabetic
import EcmaPrinter.Text.Numeric

/-!
Identifier names: which characters may start one and which may follow.

Below U+0080 these are the letters, `$`, `_` and (not in first place) the digits.  Beyond it a
name starts with an alphabetic character and goes on with alphabetic and numeric characters and
the two joiners.
-/

namespace EcmaPrinter.Text

/-- Is the character one of the first 128? -/
def isAscii (c : Char) : Bool :=
  c.toNat < 128

/-- May an identifier name start with this character? -/
def isIdentifierStart (c : Char) : Bool :=
  if isAscii c then c.isAlpha || c == '$' || c == '_' else isAlphabetic c

/-- The zero width joiner and non-joiner, which may stand inside a name. -/
def isJoiner (c : Char) : Bool :=
  c == '\u200c' || c == '\u200d'

/-- May this character follow inside an identifier name? -/
def isIdentifierPart (c : Char) : Bool :=
  if isAscii c then c.isAlphanum || c == '$' || c == '_'
  else isAlphabetic c || isNumeric c || isJoiner c

/-- Can the text stand unquoted as a property name? -/
def isIdentifierName (name : String) : Bool :=
  match name.toList with
  | [] => false
  | first :: rest => isIdentifierStart first && rest.all isIdentifierPart

end EcmaPrinter.Text
