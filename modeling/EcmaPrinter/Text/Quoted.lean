/-!
Quoted text: string literals and directives.

A literal is written between two copies of its delimiter.  Inside, the delimiter, the backslash
and the characters that end a line or have a letter escape are escaped, and everything else
stands for itself.  A directive is written as it is, so only its delimiter is to be chosen.
-/

namespace EcmaPrinter.Text

/-- The double quotation mark. -/
def doubleQuote : Char := '\x22'

/-- The single quotation mark. -/
def singleQuote : Char := '\x27'

/-- The backslash, which starts an escape. -/
def backslash : Char := '\x5c'

/-- How one character is written inside a literal with the given delimiter. -/
def escapeChar (delimiter c : Char) : List Char :=
  if c == delimiter then [backslash, c]
  else if c == '\x08' then [backslash, 'b']
  else if c == '\t' then [backslash, 't']
  else if c == '\n' then [backslash, 'n']
  else if c == '\x0b' then [backslash, 'v']
  else if c == '\x0c' then [backslash, 'f']
  else if c == '\r' then [backslash, 'r']
  else if c == backslash then [backslash, backslash]
  else if c == '\u2028' then [backslash, 'u', '2', '0', '2', '8']
  else if c == '\u2029' then [backslash, 'u', '2', '0', '2', '9']
  else [c]

/-- The characters of a literal with the given delimiter, on lists. -/
def quoteChars (delimiter : Char) (value : List Char) : List Char :=
  delimiter :: (value.flatMap (escapeChar delimiter) ++ [delimiter])

/-- The text as a literal between two copies of `delimiter`. -/
def quoteWith (delimiter : Char) (value : String) : String :=
  String.ofList (quoteChars delimiter value.toList)

/-- The quotation mark that occurs less often in the text; the double one if they tie. -/
def cheaperQuote (value : List Char) : Char :=
  if value.count doubleQuote > value.count singleQuote then singleQuote else doubleQuote

/-- The text as a string literal between the cheaper quotation marks. -/
def quote (value : String) : String :=
  quoteWith (cheaperQuote value.toList) value

/-- Can the text stand between double quotation marks as it is?  Every double mark in it has to
be escaped, and it may not end inside an escape. -/
def fitsDoubleQuotes : List Char → Bool
  | [] => true
  | [c] => c != backslash && c != doubleQuote
  | c :: d :: rest =>
    if c == backslash then fitsDoubleQuotes rest
    else c != doubleQuote && fitsDoubleQuotes (d :: rest)

/-- The quotation mark for a directive with this raw text: double where that is possible. -/
def directiveQuote (raw : String) : Char :=
  if fitsDoubleQuotes raw.toList then doubleQuote else singleQuote

/-- A directive with this raw text, between its quotation marks. -/
def quoteDirective (raw : String) : String :=
  let mark := directiveQuote raw
  String.ofList (mark :: (raw.toList ++ [mark]))

end EcmaPrinter.Text
