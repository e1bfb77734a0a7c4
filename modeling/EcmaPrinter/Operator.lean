/-!
Operators and precedences.

A precedence says how strongly an expression holds together.  An operand that holds together
less strongly than its place demands is put in parentheses.
-/

namespace EcmaPrinter

/-! ### Precedences -/

/-- The precedences of expressions, the weakest first. -/
inductive Precedence where
  | sequence | assignment | conditional | logicalOr | logicalAnd | bitwiseOr | bitwiseXor
  | bitwiseAnd | equality | relational | shift | additive | multiplicative | exponential
  | unary | update | construction | call | member | primary
  deriving DecidableEq, Repr

namespace Precedence

/-- All precedences, the weakest first. -/
def all : List Precedence :=
  [sequence, assignment, conditional, logicalOr, logicalAnd, bitwiseOr, bitwiseXor, bitwiseAnd,
   equality, relational, shift, additive, multiplicative, exponential, unary, update,
   construction, call, member, primary]

/-- The place of a precedence in the list of all of them. -/
def rank : Precedence → Nat
  | sequence => 0 | assignment => 1 | conditional => 2 | logicalOr => 3 | logicalAnd => 4
  | bitwiseOr => 5 | bitwiseXor => 6 | bitwiseAnd => 7 | equality => 8 | relational => 9
  | shift => 10 | additive => 11 | multiplicative => 12 | exponential => 13 | unary => 14
  | update => 15 | construction => 16 | call => 17 | member => 18 | primary => 19

instance : LT Precedence := ⟨fun p q => p.rank < q.rank⟩
instance : LE Precedence := ⟨fun p q => p.rank ≤ q.rank⟩
instance (p q : Precedence) : Decidable (p < q) := inferInstanceAs (Decidable (p.rank < q.rank))
instance (p q : Precedence) : Decidable (p ≤ q) := inferInstanceAs (Decidable (p.rank ≤ q.rank))

/-- The name under which a precedence is reported. -/
def name : Precedence → String
  | sequence => "Sequence" | assignment => "Assignment" | conditional => "Conditional"
  | logicalOr => "LogicalOr" | logicalAnd => "LogicalAnd" | bitwiseOr => "BitwiseOr"
  | bitwiseXor => "BitwiseXor" | bitwiseAnd => "BitwiseAnd" | equality => "Equality"
  | relational => "Relational" | shift => "Shift" | additive => "Additive"
  | multiplicative => "Multiplicative" | exponential => "Exponential" | unary => "Prefix"
  | update => "Postfix" | construction => "New" | call => "Call" | member => "Member"
  | primary => "Primary"

end Precedence

/-! ### Binary operators -/

/-- The binary operators, the comma among them. -/
inductive BinaryOperator where
  | equal | notEqual | strictEqual | strictNotEqual | less | lessEqual | greater | greaterEqual
  | isIn | instanceOf | shiftLeft | shiftRight | shiftRightUnsigned | add | subtract | multiply
  | divide | remainder | power | sequence | logicalOr | logicalAnd | bitOr | bitXor | bitAnd
  deriving DecidableEq, Repr

namespace BinaryOperator

/-- All binary operators. -/
def all : List BinaryOperator :=
  [equal, notEqual, strictEqual, strictNotEqual, less, lessEqual, greater, greaterEqual, isIn,
   instanceOf, shiftLeft, shiftRight, shiftRightUnsigned, add, subtract, multiply, divide,
   remainder, power, sequence, logicalOr, logicalAnd, bitOr, bitXor, bitAnd]

/-- The operator as it is written in source text. -/
def text : BinaryOperator → String
  | equal => "==" | notEqual => "!=" | strictEqual => "===" | strictNotEqual => "!=="
  | less => "<" | lessEqual => "<=" | greater => ">" | greaterEqual => ">="
  | isIn => "in" | instanceOf => "instanceof"
  | shiftLeft => "<<" | shiftRight => ">>" | shiftRightUnsigned => ">>>"
  | add => "+" | subtract => "-" | multiply => "*" | divide => "/" | remainder => "%"
  | power => "**" | sequence => "," | logicalOr => "||" | logicalAnd => "&&"
  | bitOr => "|" | bitXor => "^" | bitAnd => "&"

/-- The precedence of an expression with this operator. -/
def precedence : BinaryOperator → Precedence
  | sequence => .sequence
  | logicalOr => .logicalOr
  | logicalAnd => .logicalAnd
  | bitOr => .bitwiseOr
  | bitXor => .bitwiseXor
  | bitAnd => .bitwiseAnd
  | equal | notEqual | strictEqual | strictNotEqual => .equality
  | less | lessEqual | greater | greaterEqual | isIn | instanceOf => .relational
  | shiftLeft | shiftRight | shiftRightUnsigned => .shift
  | add | subtract => .additive
  | multiply | divide | remainder => .multiplicative
  | power => .exponential

/-- Does a chain of the operator group to the right?  Only powers do. -/
def isRightAssociative (op : BinaryOperator) : Bool :=
  op == power

/-- The operator with the given text. -/
def ofText? (s : String) : Option BinaryOperator :=
  all.find? (·.text == s)

end BinaryOperator

/-! ### Assignment operators -/

/-- The operators that compute and assign. -/
inductive AssignmentOperator where
  | add | subtract | multiply | divide | remainder | power | shiftLeft | shiftRight
  | shiftRightUnsigned | bitOr | bitXor | bitAnd
  deriving DecidableEq, Repr

namespace AssignmentOperator

/-- All operators that compute and assign. -/
def all : List AssignmentOperator :=
  [add, subtract, multiply, divide, remainder, power, shiftLeft, shiftRight, shiftRightUnsigned,
   bitOr, bitXor, bitAnd]

/-- The operator as it is written in source text. -/
def text : AssignmentOperator → String
  | add => "+=" | subtract => "-=" | multiply => "*=" | divide => "/=" | remainder => "%="
  | power => "**=" | shiftLeft => "<<=" | shiftRight => ">>=" | shiftRightUnsigned => ">>>="
  | bitOr => "|=" | bitXor => "^=" | bitAnd => "&="

/-- The operator with the given text. -/
def ofText? (s : String) : Option AssignmentOperator :=
  all.find? (·.text == s)

end AssignmentOperator

/-! ### Unary operators -/

/-- The operators that stand before their operand. -/
inductive UnaryOperator where
  | plus | minus | logicalNot | bitNot | typeof | void | delete
  deriving DecidableEq, Repr

namespace UnaryOperator

/-- All operators that stand before their operand. -/
def all : List UnaryOperator :=
  [plus, minus, logicalNot, bitNot, typeof, void, delete]

/-- The operator as it is written in source text. -/
def text : UnaryOperator → String
  | plus => "+" | minus => "-" | logicalNot => "!" | bitNot => "~"
  | typeof => "typeof" | void => "void" | delete => "delete"

/-- The operator with the given text. -/
def ofText? (s : String) : Option UnaryOperator :=
  all.find? (·.text == s)

end UnaryOperator

/-- Counting up or down. -/
inductive UpdateOperator where
  | increment | decrement
  deriving DecidableEq, Repr

namespace UpdateOperator

/-- Both update operators. -/
def all : List UpdateOperator :=
  [increment, decrement]

/-- The operator as it is written in source text. -/
def text : UpdateOperator → String
  | increment => "++" | decrement => "--"

/-- The operator with the given text. -/
def ofText? (s : String) : Option UpdateOperator :=
  all.find? (·.text == s)

end UpdateOperator

end EcmaPrinter
