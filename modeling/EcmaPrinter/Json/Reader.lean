import EcmaPrinter.Json.Basic

/-!
Reading JSON text.

A reader takes a text and gives a value with what remains of the text, or the first fault it
meets.  There are three kinds of fault: the text ends too early, the text is not JSON, and the
text is JSON of another shape than the reader wants.

Values are read under a policy.  The usual one allows a limited depth of nested containers, wants
surrogates in pairs and numbers within the range of doubles.  A value that is only skipped is
held to the form alone.
-/

namespace EcmaPrinter

open EcmaPrinter.Number
open EcmaPrinter.Text

/-- Why a text is refused. -/
inductive Fault where
  /-- The text ends inside a value. -/
  | ended
  /-- The text is not JSON. -/
  | malformed
  /-- The text is JSON of the wrong shape. -/
  | mismatched
  deriving DecidableEq, Repr

/-- A reader: from a text to a value and the remaining text. -/
abbrev Reader (α : Type) := List Char → Except Fault (α × List Char)

namespace Json

/-- What is demanded of a value beyond its form. -/
structure Policy where
  /-- Surrogates have to come in pairs, and numbers must not be infinite. -/
  checked : Bool
  deriving DecidableEq, Repr

/-- The demands on a value that is used. -/
def Policy.used : Policy := ⟨true⟩

/-- The demands on a value that is skipped. -/
def Policy.skipped : Policy := ⟨false⟩

/-- The number of containers that may be nested. -/
def maxDepth : Nat := 127

/-! ### Blanks and words -/

/-- The four blanks of JSON. -/
def isBlank (c : Char) : Bool :=
  c == ' ' || c == '\t' || c == '\n' || c == '\r'

/-- The text without the blanks at its start. -/
def skipBlanks (text : List Char) : List Char :=
  text.dropWhile isBlank

/-- Read the given characters. -/
def readWord : (word : List Char) → Reader Unit
  | [], text => .ok ((), text)
  | _ :: _, [] => .error .ended
  | w :: word, c :: text => if w == c then readWord word text else .error .malformed

/-! ### Numbers -/

/-- The fault of a number that breaks off: skipped numbers do not tell the end of the text from
other characters. -/
def brokenNumber (p : Policy) : List Char → Fault
  | [] => if p.checked then .ended else .malformed
  | _ => .malformed

/-- Read at least one digit. -/
def readDigits (p : Policy) : Reader (List Char) := fun text =>
  match spanDigits text with
  | ([], rest) => .error (brokenNumber p rest)
  | (digits, rest) => .ok (digits, rest)

/-- Read the digits before the point: no zero before other digits. -/
def readWhole (p : Policy) : Reader (List Char) := fun text => do
  let (digits, rest) ← readDigits p text
  match digits with
  | '0' :: _ :: _ => .error .malformed
  | _ => .ok (digits, rest)

/-- Read a point and the digits behind it, if there is a point. -/
def readPart (p : Policy) : Reader (Option (List Char))
  | '.' :: text => do
    let (digits, rest) ← readDigits p text
    .ok (some digits, rest)
  | text => .ok (none, text)

/-- Read an exponent, if there is one. -/
def readPower (p : Policy) : Reader (Option Int)
  | [] => .ok (none, [])
  | c :: text =>
    if c == 'e' || c == 'E' then do
      let (negative, text) := readSign text
      let (digits, rest) ← readDigits p text
      let power : Int := digitsValue digits
      .ok (some (if negative then -power else power), rest)
    else .ok (none, c :: text)

/-- Read a number behind its sign. -/
def readNumber (p : Policy) (negative : Bool) : Reader Json := fun text => do
  let (whole, text) ← readWhole p text
  let (part?, text) ← readPart p text
  let (power?, text) ← readPower p text
  let value := Decimal.ofDigits negative whole (part?.getD []) (power?.getD 0)
  if p.checked && value.toDouble.isInfinite then .error .malformed
  else .ok (number value (part?.isNone && power?.isNone), text)

/-! ### Strings -/

/-- The value of hexadecimal digits. -/
def hexNumber? (digits : List Char) : Option Nat :=
  digits.foldlM (fun n c => (hexValue? c).map (16 * n + ·)) 0

/-- Are there fewer than four bytes left? -/
def isShort (text : List Char) : Bool :=
  (text.take 4).foldl (fun n c => n + c.utf8Size) 0 < 4

/-- Read the four digits of a `\u` escape. -/
def readUnit : Reader Nat := fun text =>
  if isShort text then .error .ended
  else match hexNumber? (text.take 4) with
    | some unit => .ok (unit, text.drop 4)
    | none => .error .malformed

/-- The first half of a surrogate pair. -/
def isHighSurrogate (unit : Nat) : Bool :=
  0xD800 ≤ unit && unit ≤ 0xDBFF

/-- The second half of a surrogate pair. -/
def isLowSurrogate (unit : Nat) : Bool :=
  0xDC00 ≤ unit && unit ≤ 0xDFFF

/-- Read the second half of a pair whose first half is given. -/
def readPair (high : Nat) : Reader Char
  | [] => .error .ended
  | [c] => .error (if c == backslash then .ended else .malformed)
  | c :: d :: text =>
    if c == backslash && d == 'u' then do
      let (low, rest) ← readUnit text
      if isLowSurrogate low then
        .ok (Char.ofNat (0x10000 + (high - 0xD800) * 0x400 + (low - 0xDC00)), rest)
      else .error .malformed
    else .error .malformed

/-- Read a `\u` escape behind its `u`. -/
def readUnicode (p : Policy) : Reader Char := fun text => do
  let (unit, rest) ← readUnit text
  if !p.checked then .ok (Char.ofNat unit, rest)
  else if isLowSurrogate unit then .error .malformed
  else if isHighSurrogate unit then readPair unit rest
  else .ok (Char.ofNat unit, rest)

/-- Read an escape behind its backslash. -/
def readEscape (p : Policy) : Reader Char
  | [] => .error .ended
  | c :: rest =>
    if c == doubleQuote || c == backslash || c == '/' then .ok (c, rest)
    else if c == 'b' then .ok ('\x08', rest)
    else if c == 'f' then .ok ('\x0c', rest)
    else if c == 'n' then .ok ('\n', rest)
    else if c == 'r' then .ok ('\r', rest)
    else if c == 't' then .ok ('\t', rest)
    else if c == 'u' then readUnicode p rest
    else .error .malformed

/-- Read one character of a string; none at the closing quotation mark. -/
def readChar (p : Policy) : Reader (Option Char)
  | [] => .error .ended
  | c :: rest =>
    if c == doubleQuote then .ok (none, rest)
    else if c == backslash then do
      let (d, rest) ← readEscape p rest
      .ok (some d, rest)
    else if c.toNat < 32 then .error .malformed
    else .ok (some c, rest)

/-- Read the characters of a string, at most `fuel` of them, up to the closing mark. -/
def readChars (p : Policy) : (fuel : Nat) → Reader (List Char)
  | 0, _ => .error .ended
  | fuel + 1, text => do
    match ← readChar p text with
    | (none, rest) => .ok ([], rest)
    | (some c, rest) =>
      let (cs, rest) ← readChars p fuel rest
      .ok (c :: cs, rest)

/-- Read a string behind its opening quotation mark. -/
def readString (p : Policy) : Reader String := fun text => do
  let (cs, rest) ← readChars p (text.length + 1) text
  .ok (String.ofList cs, rest)

/-! ### Containers -/

/-- Read what stands before the next item of an array: nothing, or a comma behind an item.  The
value tells whether an item follows or the array is closed. -/
def readItemStart (isFirst : Bool) : Reader Bool := fun text =>
  match skipBlanks text with
  | [] => .error .ended
  | ']' :: rest => .ok (false, rest)
  | c :: rest =>
    if isFirst then .ok (true, c :: rest)
    else if c == ',' then
      match skipBlanks rest with
      | [] => .error .ended
      | ']' :: _ => .error .malformed
      | more => .ok (true, more)
    else .error .malformed

/-- Read the items of an array up to its end, threading a state. -/
def readItems {σ : Type} (item : σ → Reader σ) : (fuel : Nat) → (isFirst : Bool) → σ → Reader σ
  | 0, _, _, _ => .error .ended
  | fuel + 1, isFirst, s, text => do
    match ← readItemStart isFirst text with
    | (false, rest) => .ok (s, rest)
    | (true, rest) =>
      let (s, rest) ← item s rest
      readItems item fuel false s rest

/-- Read what stands before the next key of an object, the opening mark of the key included.  The
value tells whether a key follows or the object is closed. -/
def readKeyStart (isFirst : Bool) : Reader Bool := fun text =>
  match skipBlanks text with
  | [] => .error .ended
  | c :: rest =>
    if c == '\x7d' then .ok (false, rest)
    else if isFirst then
      if c == doubleQuote then .ok (true, rest) else .error .malformed
    else if c == ',' then
      match skipBlanks rest with
      | [] => .error .ended
      | d :: more => if d == doubleQuote then .ok (true, more) else .error .malformed
    else .error .malformed

/-- Read the colon behind a key. -/
def readColon : Reader Unit := fun text =>
  match skipBlanks text with
  | [] => .error .ended
  | ':' :: rest => .ok ((), rest)
  | _ => .error .malformed

/-- Read the members of an object up to its end, threading a state.  For each key `member` gives
the reader of its value, or refuses the key before the colon is looked at. -/
def readMembers {σ : Type} (p : Policy) (member : σ → String → Except Fault (Reader σ)) :
    (fuel : Nat) → (isFirst : Bool) → σ → Reader σ
  | 0, _, _, _ => .error .ended
  | fuel + 1, isFirst, s, text => do
    match ← readKeyStart isFirst text with
    | (false, rest) => .ok (s, rest)
    | (true, rest) =>
      let (key, rest) ← readString p rest
      let value ← member s key
      let ((), rest) ← readColon rest
      let (s, rest) ← value rest
      readMembers p member fuel false s rest

/-- Read a value and add it to the items before it. -/
def readItem (value : Reader Json) (read : List Json) : Reader (List Json) := fun text => do
  let (j, rest) ← value text
  .ok (j :: read, rest)

/-- Read an array behind its opening bracket. -/
def readArray (value : Reader Json) : Reader Json := fun text => do
  let (items, rest) ← readItems (readItem value) (text.length + 1) true [] text
  .ok (array items.reverse, rest)

/-- Read a value and add it, under the given key, to the members before it. -/
def readMember (value : Reader Json) (read : List (String × Json)) (key : String) :
    Reader (List (String × Json)) := fun text => do
  let (j, rest) ← value text
  .ok ((key, j) :: read, rest)

/-- Read an object behind its opening brace. -/
def readObject (p : Policy) (value : Reader Json) : Reader Json := fun text => do
  let (members, rest) ←
    readMembers p (fun read key => .ok (readMember value read key)) (text.length + 1) true [] text
  .ok (object members.reverse, rest)

/-! ### Values -/

/-- Read the rest of a word that stands for the value. -/
def readConstant (word : List Char) (j : Json) : Reader Json := fun text => do
  let (_, rest) ← readWord word text
  .ok (j, rest)

/-- Read a value that is no container and starts with the character `c`. -/
def readScalar (p : Policy) (c : Char) : Reader Json := fun rest =>
  if c == 'n' then readConstant ['u', 'l', 'l'] null rest
  else if c == 't' then readConstant ['r', 'u', 'e'] (bool true) rest
  else if c == 'f' then readConstant ['a', 'l', 's', 'e'] (bool false) rest
  else if c == '-' then readNumber p true rest
  else if c.isDigit then readNumber p false (c :: rest)
  else if c == doubleQuote then do
    let (s, rest) ← readString p rest
    .ok (string s, rest)
  else .error .malformed

/-- Read a value; `inner` reads what is inside of containers and is missing where no container
is allowed. -/
def readWith (p : Policy) (inner? : Option (Reader Json)) : Reader Json := fun text =>
  match skipBlanks text with
  | [] => .error .ended
  | c :: rest =>
    if c == '[' then
      match inner? with
      | some inner => readArray inner rest
      | none => .error .malformed
    else if c == '\x7b' then
      match inner? with
      | some inner => readObject p inner rest
      | none => .error .malformed
    else readScalar p c rest

/-- Read a value with at most `depth` nested containers. -/
def readValue (p : Policy) : (depth : Nat) → Reader Json
  | 0 => readWith p none
  | depth + 1 => readWith p (some (readValue p depth))

/-- Read a value that is not used.  Its depth is not limited. -/
def skipValue : Reader Json := fun text =>
  readValue Policy.skipped text.length text

/-- Apply a reader to a whole text: only blanks may remain. -/
def readAll {α : Type} (reader : Reader α) (text : String) : Except Fault α := do
  let (a, rest) ← reader text.toList
  if (skipBlanks rest).isEmpty then .ok a else .error .malformed

/-! ### Early refusals -/

/-- Read a scalar that `accept` takes.  Containers are refused at once, other scalars when they
have been read. -/
def readOnly {α : Type} (accept : Json → Option α) : Reader α := fun text =>
  match skipBlanks text with
  | [] => .error .ended
  | c :: rest =>
    if c == '[' || c == '\x7b' then .error .mismatched
    else do
      let (j, rest) ← readScalar Policy.used c rest
      match accept j with
      | some a => .ok (a, rest)
      | none => .error .mismatched

end Json

end EcmaPrinter
