import EcmaPrinter.Json.Reader

/-!
Records in JSON: values with a fixed list of fields that all have defaults.

A record is an object whose members are fields, or an array of fields in order that may stop
early.  Members that are no fields are skipped; a field may be given only once.  Whatever is wrong
is reported as soon as it is met.
-/

namespace EcmaPrinter.Json

/-- A field of a record: its name, and the reader that sets it. -/
structure RecordField (σ : Type) where
  name : String
  set : σ → Reader σ

variable {σ : Type}

/-- Read the reader's value and put it into the record. -/
def RecordField.of {α : Type} (name : String) (value : Reader α) (put : σ → α → σ) :
    RecordField σ where
  name := name
  set s text := do
    let (a, rest) ← value text
    .ok (put s a, rest)

/-! ### Values of fields -/

/-- Read a Boolean. -/
def readBool : Reader Bool :=
  readOnly bool?

/-- The first number that does not fit into 64 bits. -/
def wordBound : Nat := 18446744073709551616

/-- A number that was written with digits alone and fits into 64 bits. -/
def word? : Json → Option Nat
  | number d true => if !d.negative && d.coefficient < wordBound then some d.coefficient else none
  | _ => none

/-- Read a number of at most 64 bits. -/
def readWord64 : Reader Nat :=
  readOnly word?

/-! ### Both forms of a record -/

/-- Read the end of an array all of whose fields have been given. -/
def readItemsEnd (s : σ) : Reader σ := fun text =>
  match skipBlanks text with
  | [] => .error .ended
  | ']' :: rest => .ok (s, rest)
  | _ => .error .malformed

/-- Read fields as the items of an array. -/
def readRecordItems : List (RecordField σ) → (isFirst : Bool) → σ → Reader σ
  | [], _, s, text => readItemsEnd s text
  | f :: fs, isFirst, s, text => do
    match ← readItemStart isFirst text with
    | (false, rest) => .ok (s, rest)
    | (true, rest) =>
      let (s, rest) ← f.set s rest
      readRecordItems fs false s rest

/-- The reader of a member, given the fields before it: it sets a field or skips. -/
def recordMember (fields : List (RecordField σ)) (state : List String × σ) (key : String) :
    Except Fault (Reader (List String × σ)) :=
  let (seen, s) := state
  match fields.find? (·.name == key) with
  | some f =>
    if seen.contains key then .error .mismatched
    else .ok fun text => do
      let (s, rest) ← f.set s text
      .ok ((key :: seen, s), rest)
  | none => .ok fun text => do
    let (_, rest) ← skipValue text
    .ok (state, rest)

/-- Read fields as the members of an object. -/
def readRecordMembers (fields : List (RecordField σ)) (s : σ) : Reader σ := fun text => do
  let ((_, s), rest) ←
    readMembers Policy.used (recordMember fields) (text.length + 1) true ([], s) text
  .ok (s, rest)

/-- Read a record, starting from its defaults. -/
def readRecord (fields : List (RecordField σ)) (defaults : σ) : Reader σ := fun text =>
  match skipBlanks text with
  | [] => .error .ended
  | c :: rest =>
    if c == '[' then readRecordItems fields true defaults rest
    else if c == '\x7b' then readRecordMembers fields defaults rest
    else do
      let _ ← readScalar Policy.used c rest
      .error .mismatched

end EcmaPrinter.Json
