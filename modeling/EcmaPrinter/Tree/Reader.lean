import EcmaPrinter.Json.Reader
import EcmaPrinter.Tree.Shape

/-!
Reading trees from JSON.

A node is an object with its fields as members, or an array of its fields in order.  A tagged node
also has its name: the member `type`, or the first item of the array.  Members that are no fields
are ignored, and optional fields may be missing.

Every JSON value becomes a reader of trees, which can be asked for a tree of any category.  The
recursion is on the value: a container becomes a reader from the readers of its parts.

Reading text stops at the first fault.  The name of the root is looked at as soon as it comes by;
all else about its shape only when the root has been read to its end.
-/

namespace EcmaPrinter

open EcmaPrinter.Number

/-! ### Readers of trees -/

/-- What repeated members mean. -/
inductive Repeats where
  /-- A field may be given only once. -/
  | refused
  /-- Of a repeated member the last counts. -/
  | lastWins
  deriving DecidableEq, Repr

/-- A JSON value as a part of a node: its value, and how to read a tree from it. -/
structure Part where
  value : Json
  tree? : Repeats → (c : Category) → Option (Tree c)

/-- The members with the given key that count. -/
def membersNamed {α : Type} (r : Repeats) (key : String) (members : List (String × α)) : List α :=
  let all := (members.filter (·.1 == key)).map (·.2)
  match r with
  | .refused => all
  | .lastWins => all.getLast?.toList

/-! ### Fields -/

/-- The text that names an operator or a keyword: a string, or the only key of an object with the
value null. -/
def choice? (r : Repeats) : Json → Option String
  | .string s => some s
  | .object ((key, j) :: more) =>
    if more.all (·.1 == key) then
      match membersNamed r key ((key, j) :: more) with
      | [.null] => some key
      | _ => none
    else none
  | _ => none

/-- The value of a field. -/
def Kind.read? (r : Repeats) (p : Part) : (k : Kind) → Option k.Value
  | .text => p.value.string?
  | .optionalText =>
    match p.value with
    | .null => some none
    | j => j.string?.map some
  | .flag => p.value.bool?
  | .number =>
    match p.value with
    | .number d _ => some d.toDouble
    | _ => none
  | .binaryOperator => (choice? r p.value).bind BinaryOperator.ofText?
  | .assignmentOperator => (choice? r p.value).bind AssignmentOperator.ofText?
  | .unaryOperator => (choice? r p.value).bind UnaryOperator.ofText?
  | .updateOperator => (choice? r p.value).bind UpdateOperator.ofText?
  | .declarationKind => (choice? r p.value).bind DeclarationKind.ofText?
  | .tree c => p.tree? r c

/-- The value of a field that is missing, if it may be. -/
def Kind.missing? : (k : Kind) → Option k.Value
  | .optionalText => some none
  | .tree (.option _) => some .absent
  | _ => none

/-- The value of a field among the members of an object. -/
def Kind.find? (r : Repeats) (members : List (String × Part)) (key : String) (k : Kind) :
    Option k.Value :=
  match membersNamed r key members with
  | [] => k.missing?
  | [p] => k.read? r p
  | _ => none

/-- The values of fields given as the members of an object. -/
def fieldsOfMembers? (r : Repeats) (members : List (String × Part)) :
    (fields : List Field) → Option (Values fields)
  | [] => some ()
  | (key, k) :: fields => do
    let v ← k.find? r members key
    let vs ← fieldsOfMembers? r members fields
    some (v, vs)

/-- The values of fields given as the items of an array. -/
def fieldsOfItems? (r : Repeats) : (items : List Part) → (fields : List Field) →
    Option (Values fields)
  | [], [] => some ()
  | p :: items, (_, k) :: fields => do
    let v ← k.read? r p
    let vs ← fieldsOfItems? r items fields
    some (v, vs)
  | _, _ => none

/-! ### Nodes -/

/-- A JSON value whose parts have become readers.  Values without parts are as they are. -/
inductive Layer where
  | scalar (value : Json)
  | items (parts : List Part)
  | members (parts : List (String × Part))

/-- The member that names a node. -/
def typeKey : String := "type"

/-- The name among the members of a node. -/
def typeOfMembers? (r : Repeats) (members : List (String × Part)) : Option String :=
  match membersNamed r typeKey members with
  | [p] => p.value.string?
  | _ => none

namespace Shape

variable {c : Category}

/-- A node given by its fields alone. -/
def read? (r : Repeats) (l : Layer) (s : Shape c) : Option (Tree c) :=
  match l with
  | .members ms => (fieldsOfMembers? r ms s.fields).map s.build
  | .items ps => (fieldsOfItems? r ps s.fields).map s.build
  | .scalar _ => none

/-- The node with the given name. -/
def named? (name : String) (shapes : List (Shape c)) : Option (Shape c) :=
  shapes.find? (·.name == name)

/-- A node that is told by its name. -/
def readTagged? (r : Repeats) (l : Layer) (shapes : List (Shape c)) : Option (Tree c) :=
  match l with
  | .members ms => do
    let s ← named? (← typeOfMembers? r ms) shapes
    s.read? r l
  | .items (p :: ps) => do
    let s ← named? (← p.value.string?) shapes
    s.read? r (.items ps)
  | _ => none

/-- A further node of a union: an object with its name, in which the last of repeated members
counts. -/
def readArm? (l : Layer) (s : Shape c) : Option (Tree c) :=
  match l with
  | .members ms =>
    if typeOfMembers? .lastWins ms = some s.name then s.read? .lastWins l else none
  | _ => none

end Shape

/-- A node that is no union. -/
def Form.readNode? {c : Category} (r : Repeats) (l : Layer) : Form c → Option (Tree c)
  | .tagged shapes => Shape.readTagged? r l shapes
  | .plain s => s.read? r l
  | .union _ _ => .none
  | .noNode => .none

/-- A node, or a tree of another category in its place. -/
def Form.read? {c : Category} (r : Repeats) (l : Layer) : Form c → Option (Tree c)
  | .union wholes arms =>
    (wholes.findSome? fun w => ((form w.category).readNode? r l).map w.embed) <|>
      arms.findSome? (Shape.readArm? l)
  | f => f.readNode? r l

/-- The trees of all members of a list. -/
def treesOfParts? (r : Repeats) (c : Category) : List Part → Option (Tree (.list c))
  | [] => some .nil
  | p :: ps => do
    let t ← p.tree? r c
    let ts ← treesOfParts? r c ps
    some (.cons t ts)

/-- A tree of any category. -/
def Layer.tree? (l : Layer) (r : Repeats) : (c : Category) → Option (Tree c)
  | .option c =>
    match l with
    | .scalar .null => some .absent
    | _ => (l.tree? r c).map .present
  | .list c =>
    match l with
    | .items ps => treesOfParts? r c ps
    | _ => none
  | c => (form c).read? r l

/-! ### All of a value -/

mutual

/-- A JSON value as a part of a node. -/
def Part.ofJson : Json → Part
  | .array items => ⟨.array items, (Layer.items (Part.ofItems items)).tree?⟩
  | .object members => ⟨.object members, (Layer.members (Part.ofMembers members)).tree?⟩
  | .null => ⟨.null, (Layer.scalar .null).tree?⟩
  | .bool b => ⟨.bool b, (Layer.scalar (.bool b)).tree?⟩
  | .number d whole => ⟨.number d whole, (Layer.scalar (.number d whole)).tree?⟩
  | .string s => ⟨.string s, (Layer.scalar (.string s)).tree?⟩

/-- The items of an array as parts. -/
def Part.ofItems : List Json → List Part
  | [] => []
  | j :: js => Part.ofJson j :: Part.ofItems js

/-- The members of an object as parts. -/
def Part.ofMembers : List (String × Json) → List (String × Part)
  | [] => []
  | (key, j) :: ms => (key, Part.ofJson j) :: Part.ofMembers ms

end

/-- The tree of a category that a JSON value stands for. -/
def Tree.ofJson? (c : Category) (j : Json) : Option (Tree c) :=
  (Part.ofJson j).tree? .refused c

/-! ### Text -/

/-- The names of the nodes of a category. -/
def Category.names (c : Category) : List String :=
  match form c with
  | .tagged shapes => shapes.map (·.name)
  | _ => []

namespace Tree

/-- Read the name of the root: refused at once unless it is one of the given. -/
def readName (names : List String) : Reader Json :=
  Json.readOnly fun
    | .string s => if names.contains s then some (.string s) else none
    | _ => none

/-- Read an item of the root.  The first one is its name. -/
def readRootItem (names : List String) (value : Reader Json) (read : List Json) :
    Reader (List Json) :=
  Json.readItem (if read.isEmpty then readName names else value) read

/-- Read the root, behind its opening bracket, as an array that starts with its name. -/
def readRootItems (names : List String) (value : Reader Json) : Reader Json := fun text => do
  match ← Json.readItems (readRootItem names value) (text.length + 1) true [] text with
  | ([], _) => .error .mismatched
  | (items, rest) => .ok (.array items.reverse, rest)

/-- The reader of a member of the root, given the members before it.  Its name is there once. -/
def rootMember (names : List String) (value : Reader Json) (read : List (String × Json))
    (key : String) : Except Fault (Reader (List (String × Json))) :=
  if key == typeKey then
    if read.any (·.1 == typeKey) then .error .mismatched
    else .ok (Json.readMember (readName names) read key)
  else .ok (Json.readMember value read key)

/-- Read the root, behind its opening brace, as an object with its name. -/
def readRootMembers (names : List String) (value : Reader Json) : Reader Json := fun text => do
  let (members, rest) ←
    Json.readMembers Json.Policy.used (rootMember names value) (text.length + 1) true [] text
  .ok (.object members.reverse, rest)

/-- Read the JSON value of a root whose name is one of the given. -/
def readRoot (names : List String) : Reader Json := fun text =>
  let value := Json.readValue Json.Policy.used (Json.maxDepth - 1)
  match Json.skipBlanks text with
  | [] => .error .ended
  | c :: rest =>
    if c == '[' then readRootItems names value rest
    else if c == '\x7b' then readRootMembers names value rest
    else do
      let _ ← Json.readScalar Json.Policy.used c rest
      .error .mismatched

/-- Read a tree of a category with named nodes. -/
def reader (c : Category) : Reader (Tree c) := fun text => do
  let (j, rest) ← readRoot c.names text
  match ofJson? c j with
  | some t => .ok (t, rest)
  | none => .error .mismatched

/-- The tree that a text stands for. -/
def ofText (c : Category) (text : String) : Except Fault (Tree c) :=
  Json.readAll (reader c) text

end Tree

end EcmaPrinter
