import EcmaPrinter.Number.Decimal
import EcmaPrinter.Text.Hex
import EcmaPrinter.Text.Quoted

/-!
JSON values and their text.

Objects keep their members in order, repeated keys included, because readers differ in what they
make of repeated keys.  Numbers stay decimals; whether one was written with digits alone is kept,
since some readers take only those.
-/

namespace EcmaPrinter

open EcmaPrinter.Number
open EcmaPrinter.Text

/-- A JSON value. -/
inductive Json where
  | null
  | bool (value : Bool)
  /-- A number; `whole` tells that it has neither point nor exponent. -/
  | number (value : Decimal) (whole : Bool)
  | string (value : String)
  | array (items : List Json)
  | object (members : List (String × Json))

namespace Json

/-- The whole number `n`. -/
def ofNat (n : Nat) : Json :=
  number { coefficient := n } true

/-! ### Text -/

/-- How a character is written inside a JSON string. -/
def escape (c : Char) : List Char :=
  if c == doubleQuote || c == backslash then [backslash, c]
  else if c == '\n' then [backslash, 'n']
  else if c == '\r' then [backslash, 'r']
  else if c == '\t' then [backslash, 't']
  else if c == '\x08' then [backslash, 'b']
  else if c == '\x0c' then [backslash, 'f']
  else if c.toNat < 32 then backslash :: 'u' :: hexPlaces 4 c.toNat
  else [c]

/-- A string between quotation marks. -/
def quoted (s : String) : List Char :=
  doubleQuote :: (s.toList.flatMap escape ++ [doubleQuote])

/-- The text of a number. -/
def numberChars (d : Decimal) (whole : Bool) : List Char :=
  let sign := if d.negative then ['-'] else []
  let digits := decimalDigits d.coefficient
  if whole then sign ++ digits
  else sign ++ digits ++ 'e' :: (s!"{d.exponent}").toList

/-- Texts with commas between them. -/
def commas : List (List Char) → List Char
  | [] => []
  | [t] => t
  | t :: ts => t ++ ',' :: commas ts

mutual

/-- The compact text of a value, on lists of characters. -/
def chars : Json → List Char
  | null => "null".toList
  | bool true => "true".toList
  | bool false => "false".toList
  | number d whole => numberChars d whole
  | string s => quoted s
  | array items => '[' :: (commas (itemChars items) ++ [']'])
  | object members => '\x7b' :: (commas (memberChars members) ++ ['\x7d'])

/-- The texts of the items of an array. -/
def itemChars : List Json → List (List Char)
  | [] => []
  | j :: js => chars j :: itemChars js

/-- The texts of the members of an object. -/
def memberChars : List (String × Json) → List (List Char)
  | [] => []
  | (key, j) :: ms => (quoted key ++ ':' :: chars j) :: memberChars ms

end

/-- The compact text of a value. -/
def render (j : Json) : String :=
  String.ofList j.chars

/-! ### Parts -/

/-- The value of the last member with the given key. -/
def lookup? (key : String) (members : List (String × Json)) : Option Json :=
  (members.reverse.find? (·.1 == key)).map (·.2)

/-- The value of a member of an object. -/
def field? (key : String) : Json → Option Json
  | object members => lookup? key members
  | _ => none

/-- The text of a string. -/
def string? : Json → Option String
  | string s => some s
  | _ => none

/-- The items of an array. -/
def array? : Json → Option (List Json)
  | array items => some items
  | _ => none

/-- The value of a Boolean. -/
def bool? : Json → Option Bool
  | bool b => some b
  | _ => none

end Json

end EcmaPrinter
