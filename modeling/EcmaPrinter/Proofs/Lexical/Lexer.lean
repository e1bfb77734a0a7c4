import EcmaPrinter.Number.Decimal
import EcmaPrinter.Proofs.Pieces
import EcmaPrinter.Proofs.Text.Cooked

/-!
A reader of source text, after the lexical grammar of ECMAScript 2017.

Text is read from left to right, one token after the other.  Blanks and comments are skipped, the
comments in the style of HTML among them, and then the longest token is taken.  What may start
at a point depends on the goal of the grammar there, which only a parser knows; here the goals
are given (`readAll`).

Every part is a function on characters that gives back what is left.  Characters of identifiers
are those of `isIdentifierStart` and `isIdentifierPart`.
-/

namespace EcmaPrinter.Lexical

open EcmaPrinter
open EcmaPrinter.Number
open EcmaPrinter.Text

/-! ### Blanks and comments -/

/-- White space within a line. -/
def isSpace (c : Char) : Bool :=
  [0x9, 0xb, 0xc, 0x20, 0xa0, 0x1680, 0x202f, 0x205f, 0x3000, 0xfeff].contains c.toNat ||
    (0x2000 ≤ c.toNat && c.toNat ≤ 0x200a)

/-- Where a reader stands between two tokens. -/
inductive Trivia where
  /-- Between comments, with only blanks since the start of the line or not. -/
  | blank (lineStart : Bool)
  /-- In a comment up to the end of the line. -/
  | line
  /-- Before the star of `/*`. -/
  | opening (lineStart : Bool)
  /-- In a comment up to `*/`, behind a star or not. -/
  | block (lineStart star : Bool)

/-- Does a comment up to the end of the line start here?  An HTML comment is closed only at the
start of a line. -/
def startsLineComment (lineStart : Bool) (cs : List Char) : Bool :=
  ['/', '/'].isPrefixOf cs || ['<', '!', '-', '-'].isPrefixOf cs ||
    (lineStart && ['-', '-', '>'].isPrefixOf cs)

/-- What is left behind blanks and comments; nothing if a comment has no end. -/
def skip : Trivia → List Char → Option (List Char)
  | .blank _, [] | .line, [] => some []
  | .opening _, [] | .block _ _, [] => none
  | .blank lineStart, c :: cs =>
    if isLineEnd c then skip (.blank true) cs
    else if isSpace c then skip (.blank lineStart) cs
    else if startsLineComment lineStart (c :: cs) then skip .line cs
    else if ['/', '*'].isPrefixOf (c :: cs) then skip (.opening lineStart) cs
    else some (c :: cs)
  | .line, c :: cs => if isLineEnd c then skip (.blank true) cs else skip .line cs
  | .opening lineStart, _ :: cs => skip (.block lineStart false) cs
  | .block lineStart star, c :: cs =>
    if star && c == '/' then skip (.blank lineStart) cs
    else skip (.block (lineStart || isLineEnd c) (c == '*')) cs

/-! ### Names -/

/-- Where a reader stands inside a name; `first` tells that it has no character yet. -/
inductive NamePlace where
  | part (first : Bool)
  /-- Behind a backslash. -/
  | escape (first : Bool)
  /-- Behind `\u`. -/
  | unit (first : Bool)
  /-- In an escape that has `missing + 1` more digits. -/
  | hex (first : Bool) (missing value : Nat)
  /-- In an escape with braces, which has no digits yet or this value. -/
  | braced (first : Bool) (value? : Option Nat)
  deriving DecidableEq, Repr

/-- May the character stand at this place of a name? -/
def fitsName (first : Bool) (c : Char) : Bool :=
  if first then isIdentifierStart c else isIdentifierPart c

/-- The character of an escape.  It has to fit the place, as one that is not escaped. -/
def escapedStep (first : Bool) (code : Nat) : Option (NamePlace × List Char) :=
  if code.isValidChar ∧ fitsName first (Char.ofNat code) then
    some (.part false, [Char.ofNat code])
  else none

/-- A digit of an escape with a fixed number of digits. -/
def nameHexStep (first : Bool) (missing value : Nat) (c : Char) :
    Option (NamePlace × List Char) :=
  match hexValue? c, missing with
  | some d, 0 => escapedStep first (16 * value + d)
  | some d, n + 1 => some (.hex first n (16 * value + d), [])
  | none, _ => none

/-- Read one character of a name: the place behind it, and the characters that are complete with
it. -/
def nameStep : NamePlace → Char → Option (NamePlace × List Char)
  | .part first, c =>
    if c == backslash then some (.escape first, [])
    else if fitsName first c then some (.part false, [c])
    else none
  | .escape first, c => if c == 'u' then some (.unit first, []) else none
  | .unit first, c =>
    if c == '{' then some (.braced first none, []) else nameHexStep first 3 0 c
  | .hex first missing value, c => nameHexStep first missing value c
  | .braced first value?, c =>
    if c == '}' then value?.bind (escapedStep first)
    else (hexValue? c).map fun d => (.braced first (some (16 * value?.getD 0 + d)), [])

/-- Read a name: its characters, and what is left behind it. -/
def scanName : NamePlace → List Char → Option (List Char × List Char)
  | place, [] => if place = .part false then some ([], []) else none
  | place, c :: cs =>
    match nameStep place c with
    | some (next, out) => (scanName next cs).map fun r => (out ++ r.1, r.2)
    | none => if place = .part false then some ([], c :: cs) else none

/-! ### Numbers -/

/-- `10 ^ exponent`. -/
def tenPow : Int → Rat
  | .ofNat e => 10 ^ e
  | .negSucc e => 1 / 10 ^ (e + 1)

/-- The value of a digit in a base; nothing if it is no digit there. -/
def digitValue? (base : Nat) (c : Char) : Option Nat :=
  (hexValue? c).filter (· < base)

/-- The number with the given digits in a base. -/
def baseValue (base : Nat) (digits : List Char) : Nat :=
  digits.foldl (fun n c => base * n + (digitValue? base c).getD 0) 0

/-- An integer behind the letter of its base. -/
def scanBased (base : Nat) (cs : List Char) : Option (Rat × List Char) :=
  let digits := cs.takeWhile fun c => (digitValue? base c).isSome
  if digits.isEmpty then none else some (baseValue base digits, cs.drop digits.length)

/-- The exponent of a decimal, if there is one. -/
def scanExponent (cs : List Char) : Option (Int × List Char) :=
  match cs with
  | c :: rest =>
    if c == 'e' || c == 'E' then
      let (negative, rest) := readSign rest
      let (digits, rest) := spanDigits rest
      if digits.isEmpty then none
      else some (if negative then -(digitsValue digits : Int) else digitsValue digits, rest)
    else some (0, cs)
  | [] => some (0, [])

/-- The digits behind the point of a decimal. -/
def scanPart : List Char → List Char × List Char
  | '.' :: rest => spanDigits rest
  | cs => ([], cs)

/-- A decimal: digits with at most one point, then an exponent.  Nothing but a zero alone starts
with a zero. -/
def scanDecimal (cs : List Char) : Option (Rat × List Char) :=
  let (whole, rest) := spanDigits cs
  let (part, rest) := scanPart rest
  if (whole.isEmpty && part.isEmpty) || (whole.head? == some '0' && whole.length != 1) then none
  else (scanExponent rest).map fun (e, rest) =>
    (digitsValue (whole ++ part) * tenPow (e - part.length), rest)

/-- A number in any base. -/
def scanUnsigned : List Char → Option (Rat × List Char)
  | '0' :: 'x' :: cs | '0' :: 'X' :: cs => scanBased 16 cs
  | '0' :: 'o' :: cs | '0' :: 'O' :: cs => scanBased 8 cs
  | '0' :: 'b' :: cs | '0' :: 'B' :: cs => scanBased 2 cs
  | cs => scanDecimal cs

/-- May the character not follow a number directly? -/
def spoilsNumber (c : Char) : Bool :=
  isIdentifierStart c || c.isDigit || c == backslash

/-- A number and what is left behind it. -/
def scanNumber (cs : List Char) : Option (Rat × List Char) :=
  (scanUnsigned cs).filter fun r => !r.2.head?.any spoilsNumber

/-- Does a number start here? -/
def startsNumber : List Char → Bool
  | '.' :: c :: _ => c.isDigit
  | c :: _ => c.isDigit
  | [] => false

/-! ### Literals with a closing mark -/

/-- Does the literal end before these characters? -/
def closes : Literal → List Char → Bool
  | .string mark, cs => cs.head? == some mark
  | .template, cs => cs.head? == some '\x60' || ['$', '{'].isPrefixOf cs

/-- Read the characters of a string or template up to its closing mark: the cooked value, and
what is left from the mark on. -/
def scanLiteral (l : Literal) : Place → List Char → Option (List Nat × List Char)
  | _, [] => none
  | place, c :: cs =>
    if place.isRest && closes l (c :: cs) then some ([], c :: cs)
    else match step l place c with
      | some (next, us) => (scanLiteral l next cs).map fun r => (us ++ r.1, r.2)
      | none => none

/-! ### Regular expressions -/

/-- Where a reader stands in a regular expression. -/
structure PatternPlace where
  inClass : Bool := false
  escaped : Bool := false
  deriving DecidableEq, Repr

/-- Does a slash end the regular expression here? -/
def PatternPlace.isRest (place : PatternPlace) : Bool :=
  !place.inClass && !place.escaped

/-- Read one character of a regular expression. -/
def patternStep (place : PatternPlace) (c : Char) : Option PatternPlace :=
  if isLineEnd c then none
  else if place.escaped then some { place with escaped := false }
  else if c == backslash then some { place with escaped := true }
  else if place.inClass then some { inClass := c != ']' }
  else some { inClass := c == '[' }

/-- What is left behind the slash that ends a regular expression. -/
def scanPattern : PatternPlace → List Char → Option (List Char)
  | _, [] => none
  | place, c :: cs =>
    if place.isRest && c == '/' then some cs
    else (patternStep place c).bind fun next => scanPattern next cs

/-- What is left behind a regular expression with its flags. -/
def scanRegExp : List Char → Option (List Char)
  | '/' :: cs => (scanPattern {} cs).map (·.dropWhile isIdentifierPart)
  | _ => none

/-! ### Punctuators -/

/-- The punctuators, longer ones first. -/
def punctuators : List (List Char) :=
  [">>>="].map String.toList ++
  ["...", "===", "!==", ">>>", "<<=", ">>=", "**="].map String.toList ++
  ["<=", ">=", "==", "!=", "**", "++", "--", "<<", ">>", "&&", "||", "+=", "-=", "*=", "/=",
    "%=", "&=", "|=", "^=", "=>"].map String.toList ++
  ["\x7b", "\x7d", "(", ")", "[", "]", ".", ";", ",", "<", ">", "+", "-", "*", "/", "%", "&",
    "|", "^", "!", "~", "?", ":", "=", "\x60"].map String.toList

/-- The longest punctuator that the text starts with. -/
def longestPunctuator (cs : List Char) : Option (List Char) :=
  punctuators.find? (·.isPrefixOf cs)

/-! ### Tokens -/

/-- Which tokens may start at a point of the text. -/
inductive Goal where
  /-- A slash divides. -/
  | div
  /-- A slash starts a regular expression. -/
  | regExp
  /-- Between the marks of a template. -/
  | template
  deriving DecidableEq, Repr

/-- What a token stands for. -/
inductive Value where
  /-- A name, with its escapes decoded. -/
  | name (chars : List Char)
  | number (value : Rat)
  /-- A string or a stretch of a template, cooked. -/
  | text (units : List Nat)
  | regExp (chars : List Char)
  | punctuator (chars : List Char)
  deriving DecidableEq

/-- A token of the text with its value. -/
structure Lexeme where
  chars : List Char
  value : Value
  deriving DecidableEq

/-- The characters that were taken off. -/
def taken (cs rest : List Char) : List Char :=
  cs.take (cs.length - rest.length)

/-- Take the longest token off a text that does not start with a blank: its value, and what is
left. -/
def readValue (goal : Goal) (cs : List Char) : Option (Value × List Char) :=
  match cs with
  | [] => none
  | c :: rest =>
    if isIdentifierStart c || c == backslash then
      (scanName (.part true) cs).map fun r => (.name r.1, r.2)
    else if startsNumber cs then
      (scanNumber cs).map fun r => (.number r.1, r.2)
    else if isQuote c then
      (scanLiteral (.string c) .plain rest).map fun r => (.text r.1, r.2.tail)
    else if goal = .regExp ∧ c = '/' then
      (scanRegExp cs).map fun r => (.regExp (taken cs r), r)
    else
      (longestPunctuator cs).map fun p => (.punctuator p, cs.drop p.length)

/-- Take a stretch of a template, or the mark of a substitution in it, off a text. -/
def readChunk (cs : List Char) : Option (Value × List Char) :=
  if ['$', '{'].isPrefixOf cs then some (.punctuator ['$', '{'], cs.drop 2)
  else (scanLiteral .template .plain cs).map fun r => (.text r.1, r.2)

/-- Read a token. -/
def readToken (goal : Goal) (cs : List Char) : Option (Lexeme × List Char) := do
  let cs ← if goal = .template then some cs else skip (.blank false) cs
  let (value, rest) ← if goal = .template then readChunk cs else readValue goal cs
  some (⟨taken cs rest, value⟩, rest)

/-- Read tokens for the given goals up to the end of the text. -/
def readAll : List Goal → List Char → Option (List Lexeme)
  | [], cs => if skip (.blank false) cs = some [] then some [] else none
  | goal :: goals, cs => do
    let (l, cs) ← readToken goal cs
    let ls ← readAll goals cs
    some (l :: ls)

/-! ### The goals of emitted tokens -/

/-- The goal under which a token is read. -/
def goalOf : Piece → Goal
  | .raw _ => .template
  | .token text =>
    if text = "$\x7b" then .template
    else if text.toList.head? = some '/' then .regExp
    else .div
  | _ => .div

end EcmaPrinter.Lexical
