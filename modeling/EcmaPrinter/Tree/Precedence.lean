import EcmaPrinter.Tree.Basic

/-!
Precedences of trees, and the few questions about the form of a tree on which code depends.
-/

namespace EcmaPrinter

/-- The precedence of a member access: a chain that has a call in it stays a call. -/
def Precedence.ofMember (object : Precedence) : Precedence :=
  if object = .call then .call else .member

namespace Tree

/-- How strongly a tree holds together as written.  Member, call and template chains take the
precedence of calls from their object, so that they never need parentheses.  Trees that are
neither expressions nor callees stand for themselves. -/
def precedence {c : Category} : Tree c → Precedence
  | ofCallee e => e.precedence
  | staticMember o _ => .ofMember o.precedence
  | computedMember o _ => .ofMember o.precedence
  | template (present tag) _ => .ofMember tag.precedence
  | template absent _ => .member
  | call _ _ => .call
  | construct _ nil => .construction
  | construct _ (cons _ _) => .member
  | newTarget => .member
  | update true _ _ => .unary
  | update false _ _ => .update
  | unary _ _ | await _ => .unary
  | binary _ op _ => op.precedence
  | conditional _ _ _ => .conditional
  | assign _ _ | compoundAssign _ _ _ | arrow _ _ _ | yield _ | yieldFrom _ => .assignment
  | _ => .primary

/-- Is the expression a unary one or an `await`?  These cannot stand bare before `**`. -/
def isPrefixed : Expression → Bool
  | unary _ _ | await _ => true
  | _ => false

/-- Is the expression a string literal? -/
def isString : Expression → Bool
  | string _ => true
  | _ => false

/-- Is the object the identifier `let`? -/
def isLet : Tree .callee → Bool
  | ofCallee (ofIdentifier (identifier name)) => name == "let"
  | _ => false

/-- Does a list have no members? -/
def isNil {c : Category} : Tree (.list c) → Bool
  | nil => true
  | cons _ _ => false

/-- Is the parameter list one plain name, which an arrow may have without parentheses? -/
def isSingleName : Tree .parameters → Bool
  | parameters (cons (ofBinding (ofBindingName _)) nil) absent => true
  | _ => false

/-- The name that stands for a missing one in a default export. -/
def defaultName : String := "*default*"

/-- Does the name stand for a missing one? -/
def isDefaultName : Tree .bindingName → Bool
  | bindingName name => name == defaultName

/-- Does a loop declare its target? -/
def isDeclaration : Tree .loopTarget → Bool
  | ofLoopDeclaration _ => true
  | ofLoopTarget _ => false

end Tree

end EcmaPrinter
