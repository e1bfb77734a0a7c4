import EcmaPrinter.Proofs.Grammar.Expression

/-!
A recursive descent parser for statements, on top of the one for expressions.

It reads expression statements, empty statements, blocks, conditional statements, loops, `with`
and labels.  An `else` belongs to the innermost `if` that is still open, since the parser looks
for one as soon as it has read a consequent.  A semicolon may be missing before a closing brace
and at the end.
-/

namespace EcmaPrinter.Grammar

open EcmaPrinter

/-! ### Parts of statements -/

/-- The end of a statement: a semicolon, or what makes one superfluous. -/
def statementEnd? : List Terminal → Option (List Terminal)
  | [] => some []
  | .punctuator t :: ts =>
    if t = ";" then some ts
    else if t = "\x7d" then some (.punctuator t :: ts)
    else none
  | _ => none

/-- An expression in parentheses. -/
def group (ts : List Terminal) : Option (Expression × List Terminal) := do
  let ts ← skip? "(" ts
  let (e, ts) ← level .sequence ts
  let ts ← skip? ")" ts
  some (e, ts)

/-- An expression that may be missing, up to the given punctuator. -/
def optional (closing : String) (ts : List Terminal) :
    Option (Tree (.option .expression) × List Terminal) :=
  match skip? closing ts with
  | some ts => some (.absent, ts)
  | none => do
    let (e, ts) ← level .sequence ts
    let ts ← skip? closing ts
    some (.present e, ts)

/-- The head of a `for` loop. -/
inductive LoopHead where
  | keys (target : Tree .simpleTarget) (object : Expression)
  | values (target : Tree .simpleTarget) (items : Expression)
  | steps (start test update : Tree (.option .expression))

/-- What a loop starts with, if that is an expression. -/
def startOf : Tree (.option .expression) → Tree (.option .loopStart)
  | .present e => .present (.ofStartExpression e)
  | .absent => .absent

/-- The loop with the given head and body. -/
def LoopHead.toStatement (body : Tree .statement) : LoopHead → Tree .statement
  | keys t o => .forIn (.ofLoopTarget (.ofSimpleTarget t)) o body
  | values t is => .forOf (.ofLoopTarget (.ofSimpleTarget t)) is body
  | steps s t u => .forLoop (startOf s) t u body

/-- The head of a loop over the keys of an object, behind `in`. -/
def keysHead (e : Expression) (ts : List Terminal) : Option (LoopHead × List Terminal) := do
  let target ← toTarget? e
  let (object, ts) ← level .sequence ts
  let ts ← skip? ")" ts
  some (.keys target object, ts)

/-- The head of a loop over the values of an iterable, behind `of`. -/
def valuesHead (e : Expression) (ts : List Terminal) : Option (LoopHead × List Terminal) := do
  let target ← toTarget? e
  let (items, ts) ← assignment ts
  let ts ← skip? ")" ts
  some (.values target items, ts)

/-- The head of a loop with steps. -/
def stepsHead (ts : List Terminal) : Option (LoopHead × List Terminal) := do
  let (start, ts) ← optional ";" ts
  let (test, ts) ← optional ";" ts
  let (update, ts) ← optional ")" ts
  some (.steps start test update, ts)

/-- The head of a loop, in parentheses.  What follows its first part tells which kind it is. -/
def loopHead (ts : List Terminal) : Option (LoopHead × List Terminal) := do
  let ts ← skip? "(" ts
  match leftHandSide ts with
  | some (e, .word w :: rest) =>
    if w = "in" then keysHead e rest
    else if w = "of" then valuesHead e rest
    else stepsHead ts
  | _ => stepsHead ts

/-- An expression as a statement. -/
def expressionStatement (ts : List Terminal) : Option (Tree .statement × List Terminal) := do
  let (e, ts) ← level .sequence ts
  let ts ← statementEnd? ts
  some (.expressionStatement e, ts)

/-! ### The parser -/

mutual

/-- A statement. -/
def statement (ts : List Terminal) : Option (Tree .statement × List Terminal) :=
  match ts with
  | .word name :: rest => wordStatement name rest
  | .punctuator t :: rest =>
    if t = ";" then some (.emptyStatement, rest)
    else if t = "\x7b" then do
      let (ss, rest) ← statements rest
      some (.blockStatement (.block ss), rest)
    else expressionStatement (.punctuator t :: rest)
  | ts => expressionStatement ts
termination_by (ts.length, 0)

/-- A statement that starts with a word. -/
def wordStatement (name : String) (ts : List Terminal) :
    Option (Tree .statement × List Terminal) :=
  if name = "if" then do
    let (test, rest) ← group ts
    let ⟨rest, _⟩ ← fewer? ts rest
    let (consequent, rest) ← statement rest
    match keyword? "else" rest with
    | some rest => do
      let ⟨rest, _⟩ ← fewer? ts rest
      let (alternate, rest) ← statement rest
      some (.ifStatement test consequent (.present alternate), rest)
    | none => some (.ifStatement test consequent .absent, rest)
  else if name = "while" then do
    let (test, rest) ← group ts
    let ⟨rest, _⟩ ← fewer? ts rest
    let (body, rest) ← statement rest
    some (.whileLoop test body, rest)
  else if name = "with" then do
    let (object, rest) ← group ts
    let ⟨rest, _⟩ ← fewer? ts rest
    let (body, rest) ← statement rest
    some (.withStatement object body, rest)
  else if name = "for" then do
    let (head, rest) ← loopHead ts
    let ⟨rest, _⟩ ← fewer? ts rest
    let (body, rest) ← statement rest
    some (head.toStatement body, rest)
  else if name = "do" then do
    let (body, rest) ← statement ts
    let rest ← keyword? "while" rest
    let (test, rest) ← group rest
    let rest ← statementEnd? rest
    some (.doWhile body test, rest)
  else match skip? ":" ts with
    | some rest =>
      if reservedWords.contains name then none
      else do
        let ⟨rest, _⟩ ← fewer? ts rest
        let (body, rest) ← statement rest
        some (.labeled name body, rest)
    | none => expressionStatement (.word name :: ts)
termination_by (ts.length, 1)

/-- The statements of a block, with its closing brace. -/
def statements (ts : List Terminal) : Option (Tree (.list .statement) × List Terminal) :=
  match skip? "\x7d" ts with
  | some rest => some (.nil, rest)
  | none => do
    let (s, rest) ← statement ts
    let ⟨rest, _⟩ ← fewer? ts rest
    let (ss, rest) ← statements rest
    some (.cons s ss, rest)
termination_by (ts.length, 1)

end

/-- The statement that a list of terminals is, all of them. -/
def parseStatement (ts : List Terminal) : Option (Tree .statement) :=
  match statement ts with
  | some (s, []) => some s
  | _ => none

end EcmaPrinter.Grammar
