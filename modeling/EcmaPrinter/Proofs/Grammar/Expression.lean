import EcmaPrinter.Proofs.Grammar.Terminal
import EcmaPrinter.Tree.Precedence

/-!
A recursive descent parser for expressions, after the expression grammar of ECMAScript 2017.

It reads names, literals, arrays, the unary, update and binary operators, conditional
expressions, assignments, members, calls and `new`.  Every function takes the terminals that are
left and gives back what it read with the terminals behind it.  There is one function for each
nonterminal, except that the left-associative binary operators, the comma among them, share
`level` and `chain`: an operand of the next level, and then as many operators with operands as
there are.

Each call has fewer terminals than the call it is made in, or goes to a nonterminal that comes
later in the list; the numbers behind `termination_by` are places in that list.  Where terminals
have been taken off, `fewer?` looks that they were; `Progress` shows that it never fails.
-/

namespace EcmaPrinter.Grammar

open EcmaPrinter
open EcmaPrinter.Text

/-! ### Terminals at the front -/

/-- Step over a punctuator. -/
def skip? (text : String) : List Terminal → Option (List Terminal)
  | .punctuator t :: ts => if t = text then some ts else none
  | _ => none

/-- Step over a keyword. -/
def keyword? (name : String) : List Terminal → Option (List Terminal)
  | .word n :: ts => if n = name then some ts else none
  | _ => none

/-! ### Operators -/

/-- The binary operators of the grammar, level by level. -/
def binaryOperators : Precedence → List (Terminal × BinaryOperator)
  | .sequence => [(.punctuator ",", .sequence)]
  | .logicalOr => [(.punctuator "||", .logicalOr)]
  | .logicalAnd => [(.punctuator "&&", .logicalAnd)]
  | .bitwiseOr => [(.punctuator "|", .bitOr)]
  | .bitwiseXor => [(.punctuator "^", .bitXor)]
  | .bitwiseAnd => [(.punctuator "&", .bitAnd)]
  | .equality =>
    [(.punctuator "==", .equal), (.punctuator "!=", .notEqual),
     (.punctuator "===", .strictEqual), (.punctuator "!==", .strictNotEqual)]
  | .relational =>
    [(.punctuator "<", .less), (.punctuator ">", .greater), (.punctuator "<=", .lessEqual),
     (.punctuator ">=", .greaterEqual), (.word "instanceof", .instanceOf), (.word "in", .isIn)]
  | .shift =>
    [(.punctuator "<<", .shiftLeft), (.punctuator ">>", .shiftRight),
     (.punctuator ">>>", .shiftRightUnsigned)]
  | .additive => [(.punctuator "+", .add), (.punctuator "-", .subtract)]
  | .multiplicative =>
    [(.punctuator "*", .multiply), (.punctuator "/", .divide), (.punctuator "%", .remainder)]
  | .exponential => [(.punctuator "**", .power)]
  | _ => []

/-- The assignment operators of the grammar; the plain one computes nothing. -/
def assignmentOperators : List (Terminal × Option AssignmentOperator) :=
  [(.punctuator "=", none), (.punctuator "*=", some .multiply), (.punctuator "/=", some .divide),
   (.punctuator "%=", some .remainder), (.punctuator "+=", some .add),
   (.punctuator "-=", some .subtract), (.punctuator "<<=", some .shiftLeft),
   (.punctuator ">>=", some .shiftRight), (.punctuator ">>>=", some .shiftRightUnsigned),
   (.punctuator "&=", some .bitAnd), (.punctuator "^=", some .bitXor),
   (.punctuator "|=", some .bitOr), (.punctuator "**=", some .power)]

/-- The operators before an operand; `await` is the one that is no unary operator. -/
def prefixOperators : List (Terminal × Option UnaryOperator) :=
  [(.word "delete", some .delete), (.word "void", some .void), (.word "typeof", some .typeof),
   (.punctuator "+", some .plus), (.punctuator "-", some .minus), (.punctuator "~", some .bitNot),
   (.punctuator "!", some .logicalNot), (.word "await", none)]

/-- The operators that count up or down. -/
def updateOperators : List (Terminal × UpdateOperator) :=
  [(.punctuator "++", .increment), (.punctuator "--", .decrement)]

/-- Step over a terminal of a table. -/
def row? {α : Type} (table : List (Terminal × α)) : List Terminal → Option (α × List Terminal)
  | t :: ts => (table.lookup t).map (·, ts)
  | [] => none

/-- A binary operator of the given level. -/
def binaryOperator? (p : Precedence) : List Terminal → Option (BinaryOperator × List Terminal) :=
  row? (binaryOperators p)

/-- An assignment operator. -/
def assignmentOperator? : List Terminal → Option (Option AssignmentOperator × List Terminal) :=
  row? assignmentOperators

/-- An operator before its operand. -/
def prefixOperator? : List Terminal → Option (Option UnaryOperator × List Terminal) :=
  row? prefixOperators

/-- An operator that counts up or down. -/
def updateOperator? : List Terminal → Option (UpdateOperator × List Terminal) :=
  row? updateOperators

/-! ### Building trees -/

/-- An operator in front of its operand. -/
def prefixed : Option UnaryOperator → Expression → Expression
  | some op, e => .unary op e
  | none, e => .await e

/-- An assignment. -/
def assigned : Option AssignmentOperator → Tree .simpleTarget → Expression → Expression
  | some op, t, v => .compoundAssign t op v
  | none, t, v => .assign (.ofSimpleTarget t) v

/-- The target that an expression is on the left of an assignment. -/
def toTarget? : Expression → Option (Tree .simpleTarget)
  | .ofIdentifier (.identifier name) => some (.ofTargetName (.targetName name))
  | .staticMember o property => some (.staticMemberTarget o property)
  | .computedMember o e => some (.computedMemberTarget o e)
  | _ => none

/-- What a word alone is. -/
def wordExpression? (name : String) : Option Expression :=
  if name = "this" then some .this
  else if name = "null" then some .null
  else if name = "true" then some (.boolean true)
  else if name = "false" then some (.boolean false)
  else if reservedWords.contains name then none
  else some (.ofIdentifier (.identifier name))

/-- The precedence of the operands of a left-associative operator. -/
def next : Precedence → Precedence
  | .sequence => .assignment
  | .assignment => .conditional
  | .conditional => .logicalOr
  | .logicalOr => .logicalAnd
  | .logicalAnd => .bitwiseOr
  | .bitwiseOr => .bitwiseXor
  | .bitwiseXor => .bitwiseAnd
  | .bitwiseAnd => .equality
  | .equality => .relational
  | .relational => .shift
  | .shift => .additive
  | .additive => .multiplicative
  | .multiplicative => .exponential
  | .exponential => .unary
  | .unary => .update
  | .update => .construction
  | .construction => .call
  | .call => .member
  | .member | .primary => .primary

/-! ### The parser -/

/-- The terminals that are left, if they are fewer than there were. -/
def fewer? (ts rest : List Terminal) : Option { rest : List Terminal // rest.length < ts.length } :=
  if h : rest.length < ts.length then some ⟨rest, h⟩ else none

theorem rank_le (p : Precedence) : p.rank ≤ 19 := by
  cases p <;> decide

mutual

/-- An expression that holds together at least as strongly as the precedence. -/
def level (p : Precedence) (ts : List Terminal) : Option (Expression × List Terminal) :=
  match p with
  | .assignment => assignment ts
  | .conditional => conditional ts
  | .exponential => exponential ts
  | .unary => unary ts
  | .update => update ts
  | .construction | .call | .member | .primary => leftHandSide ts
  | p =>
    if _ : p.rank < (next p).rank then do
      let (e, rest) ← level (next p) ts
      let ⟨rest, _⟩ ← fewer? ts rest
      chain p e rest
    else none
termination_by (ts.length, 3 * (20 - p.rank) + 2)
decreasing_by
  all_goals first
    | exact Prod.Lex.right _ (by decide)
    | exact Prod.Lex.left _ _ ‹_›
    | exact Prod.Lex.right _ (by have := rank_le (next p); omega)

/-- The operators of one precedence that follow a left operand, with their right operands. -/
def chain (p : Precedence) (left : Expression) (ts : List Terminal) :
    Option (Expression × List Terminal) :=
  match binaryOperator? p ts with
  | some (op, rest) => do
    let ⟨rest, _⟩ ← fewer? ts rest
    let (right, rest) ← level (next p) rest
    let ⟨rest, _⟩ ← fewer? ts rest
    chain p (.binary left op right) rest
  | none => some (left, ts)
termination_by (ts.length, 0)

/-- An assignment, or what can stand in its place. -/
def assignment (ts : List Terminal) : Option (Expression × List Terminal) := do
  let (e, rest) ← conditional ts
  match assignmentOperator? rest with
  | some (op?, rest) => do
    let target ← toTarget? e
    let ⟨rest, _⟩ ← fewer? ts rest
    let (value, rest) ← assignment rest
    some (assigned op? target value, rest)
  | none => some (e, rest)
termination_by (ts.length, 58)

/-- A conditional expression. -/
def conditional (ts : List Terminal) : Option (Expression × List Terminal) := do
  let (test, rest) ← level .logicalOr ts
  match skip? "?" rest with
  | some rest => do
    let ⟨rest, _⟩ ← fewer? ts rest
    let (consequent, rest) ← assignment rest
    let rest ← skip? ":" rest
    let ⟨rest, _⟩ ← fewer? ts rest
    let (alternate, rest) ← assignment rest
    some (.conditional test consequent alternate, rest)
  | none => some (test, rest)
termination_by (ts.length, 55)
decreasing_by
  all_goals first
    | exact Prod.Lex.right _ (by decide)
    | exact Prod.Lex.left _ _ ‹_›

/-- A power.  What stands before `**` has no operator in front. -/
def exponential (ts : List Terminal) : Option (Expression × List Terminal) :=
  match prefixOperator? ts with
  | some _ => do
    let (e, rest) ← unary ts
    match skip? "**" rest with
    | some _ => none
    | none => some (e, rest)
  | none => do
    let (left, rest) ← update ts
    match skip? "**" rest with
    | some rest => do
      let ⟨rest, _⟩ ← fewer? ts rest
      let (right, rest) ← exponential rest
      some (.binary left .power right, rest)
    | none => some (left, rest)
termination_by (ts.length, 22)

/-- A unary expression. -/
def unary (ts : List Terminal) : Option (Expression × List Terminal) :=
  match prefixOperator? ts with
  | some (op?, rest) => do
    let ⟨rest, _⟩ ← fewer? ts rest
    let (e, rest) ← unary rest
    some (prefixed op? e, rest)
  | none => update ts
termination_by (ts.length, 19)

/-- An update expression, with the operator before or after its operand. -/
def update (ts : List Terminal) : Option (Expression × List Terminal) :=
  match updateOperator? ts with
  | some (op, rest) => do
    let ⟨rest, _⟩ ← fewer? ts rest
    let (e, rest) ← unary rest
    let target ← toTarget? e
    some (.update true op target, rest)
  | none => do
    let (e, rest) ← leftHandSide ts
    match updateOperator? rest with
    | some (op, rest) => do
      let target ← toTarget? e
      some (.update false op target, rest)
    | none => some (e, rest)
termination_by (ts.length, 16)

/-- What can stand on the left of an assignment: members, calls and `new`. -/
def leftHandSide (ts : List Terminal) : Option (Expression × List Terminal) := do
  let (e, rest) ← head ts
  let ⟨rest, _⟩ ← fewer? ts rest
  tail true e rest
termination_by (ts.length, 3)

/-- The same without calls, as behind `new`. -/
def member (ts : List Terminal) : Option (Expression × List Terminal) := do
  let (e, rest) ← head ts
  let ⟨rest, _⟩ ← fewer? ts rest
  tail false e rest
termination_by (ts.length, 3)

/-- The start of a chain of members and calls.  Arguments belong to the innermost `new`. -/
def head (ts : List Terminal) : Option (Expression × List Terminal) :=
  match keyword? "new" ts with
  | some rest => do
    let ⟨rest, _⟩ ← fewer? ts rest
    let (callee, rest) ← member rest
    match skip? "(" rest with
    | some rest => do
      let ⟨rest, _⟩ ← fewer? ts rest
      let (items, rest) ← arguments rest
      some (.construct callee items, rest)
    | none => some (.construct callee .nil, rest)
  | none => primary ts
termination_by (ts.length, 2)

/-- The members and, where they are wanted, the calls that follow an object. -/
def tail (calls : Bool) (e : Expression) (ts : List Terminal) :
    Option (Expression × List Terminal) :=
  match ts with
  | .punctuator t :: rest =>
    if t = "." then
      match rest with
      | .word property :: rest => tail calls (.staticMember (.ofCallee e) property) rest
      | _ => none
    else if t = "[" then do
      let (i, after) ← level .sequence rest
      let after ← skip? "]" after
      let ⟨after, _⟩ ← fewer? rest after
      tail calls (.computedMember (.ofCallee e) i) after
    else if t = "(" ∧ calls then do
      let (items, after) ← arguments rest
      let ⟨after, _⟩ ← fewer? rest after
      tail calls (.call (.ofCallee e) items) after
    else some (e, .punctuator t :: rest)
  | ts => some (e, ts)
termination_by (ts.length, 0)

/-- A word, a literal, an array or an expression in parentheses. -/
def primary (ts : List Terminal) : Option (Expression × List Terminal) :=
  match ts with
  | .word name :: rest => (wordExpression? name).map (·, rest)
  | .number v :: rest => some (.number v, rest)
  | .string units :: rest => (ofUnits? units).map fun cs => (.string (String.ofList cs), rest)
  | .punctuator t :: rest =>
    if t = "(" then do
      let (e, rest) ← level .sequence rest
      let rest ← skip? ")" rest
      some (e, rest)
    else if t = "[" then do
      let (es, rest) ← elements rest
      some (.array es, rest)
    else none
  | _ => none
termination_by (ts.length, 1)

/-- An argument or array element, which may be spread. -/
def argument (ts : List Terminal) : Option (Tree .argument × List Terminal) :=
  match skip? "..." ts with
  | some rest => do
    let ⟨rest, _⟩ ← fewer? ts rest
    let (e, rest) ← assignment rest
    some (.spread e, rest)
  | none => do
    let (e, rest) ← assignment ts
    some (.ofArgument e, rest)
termination_by (ts.length, 59)

/-- The arguments behind an opening parenthesis, with the closing one. -/
def arguments (ts : List Terminal) : Option (Tree (.list .argument) × List Terminal) :=
  match skip? ")" ts with
  | some rest => some (.nil, rest)
  | none => do
    let (a, rest) ← argument ts
    match skip? "," rest with
    | some rest => do
      let ⟨rest, _⟩ ← fewer? ts rest
      let (items, rest) ← arguments rest
      some (.cons a items, rest)
    | none => do
      let rest ← skip? ")" rest
      some (.cons a .nil, rest)
termination_by (ts.length, 60)

/-- The elements behind an opening bracket, with the closing one.  A comma without an element
before it is a hole. -/
def elements (ts : List Terminal) : Option (Tree (.list (.option .argument)) × List Terminal) :=
  match skip? "]" ts with
  | some rest => some (.nil, rest)
  | none =>
    match skip? "," ts with
    | some rest => do
      let ⟨rest, _⟩ ← fewer? ts rest
      let (es, rest) ← elements rest
      some (.cons .absent es, rest)
    | none => do
      let (a, rest) ← argument ts
      match skip? "," rest with
      | some rest => do
        let ⟨rest, _⟩ ← fewer? ts rest
        let (es, rest) ← elements rest
        some (.cons (.present a) es, rest)
      | none => do
        let rest ← skip? "]" rest
        some (.cons (.present a) .nil, rest)
termination_by (ts.length, 60)

end

/-- The expression that a list of terminals is, all of them. -/
def parseExpression (ts : List Terminal) : Option Expression :=
  match level .sequence ts with
  | some (e, []) => some e
  | _ => none

end EcmaPrinter.Grammar
