import EcmaPrinter.Tree.Visit

/-!
Summaries of trees: the nodes in the order of a visit, with the sizes of their subtrees, and
products of what the nodes contribute.
-/

namespace EcmaPrinter

namespace Tree

variable {c : Category}

/-! ### Nodes in order -/

/-- All nodes of a subtree, children before their parent, each with the size of its subtree. -/
def traceStep (h : Head) (children : List (List (Head × Nat))) : List (Head × Nat) :=
  let below := children.flatten
  below ++ [(h, below.length + 1)]

/-- All nodes of a tree in the order of a visit, each with the size of its subtree. -/
def trace (t : Tree c) : List (Head × Nat) :=
  (t.visit traceStep).flatten

/-- All nodes of a tree in the order of a visit. -/
def heads (t : Tree c) : List Head :=
  t.trace.map (·.1)

/-- The number of nodes of a subtree, from those of the children. -/
def sizeStep (_ : Head) (children : List Nat) : Nat :=
  children.foldl (· + ·) 1

/-- The number of nodes of a tree. -/
def size (t : Tree c) : Nat :=
  (t.visit sizeStep).foldl (· + ·) 0

/-! ### Products -/

/-- What a node contributes to a product: its own value, or else the product of its children. -/
def productStep {α : Type} (one : α) (mul : α → α → α) (own : Head → Option α) (h : Head)
    (children : List α) : α :=
  (own h).getD (children.foldl mul one)

/-- The product, in the order of a visit, of the values that nodes have of their own. -/
def product {α : Type} (one : α) (mul : α → α → α) (own : Head → Option α) (t : Tree c) : α :=
  (t.visit (productStep one mul own)).foldl mul one

end Tree

/-- Is the node a leaf: a name, a literal or another text of the program? -/
def Head.isLeaf : Head → Bool
  | directive _ | exportAll _ | exportFromSpecifier _ _ | staticName _ | bindingName _
  | targetName _ | identifier _ | boolean _ | number _ | regExp _ _ | string _ | templateText _
  | super | this => true
  | _ => false

namespace Tree

variable {c : Category}

/-- The leaves of a tree, from left to right. -/
def leaves (t : Tree c) : List Head :=
  t.product [] (· ++ ·) fun h => if h.isLeaf then some [h] else none

/-- The number of numeric literals in a tree. -/
def numberCount (t : Tree c) : Nat :=
  t.product 0 (· + ·) fun
    | .number _ => some 1
    | _ => none

/-- Is there a `this` in the tree? -/
def hasThis (t : Tree c) : Bool :=
  t.product false (· || ·) fun
    | .this => some true
    | _ => none

end Tree

end EcmaPrinter
